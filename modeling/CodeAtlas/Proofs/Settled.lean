import CodeAtlas.Proofs.Gaps

/-!
What the steps leave behind. A step that finds nothing would find nothing again, and a gap that it
fills is no gap any more, also not for the steps before it. So after the steps a symbol is `Settled`:
each of them would leave it as it is, and there is no question to ask about it
(`Settled.enrichSymbol_eq`). The steps lead there from any symbol, whatever a hover text says
(`lead_ends`, `finish_ends`).
-/
namespace CodeAtlas.Enrichment

/-! ## Name and class -/

/-- The name of the symbol and the class it stands for have nothing to say that it lacks. -/
def NameRead (scope : Scope) (s : Symbol) : Prop :=
  s.access.isSome ∧ (s.kind = .classDecl → s.relations = none →
    s.isSdk = isSdkFile s.fileId ∧ s.access = some (.ofName s.name) ∧
      scope.relations.find? s.fileId s.name = none)

theorem NameRead.finds {scope : Scope} {s s' : Symbol} (h : NameRead scope s) (found : Finds s s') :
    NameRead scope s' :=
  (Symbol.eq_of_withoutTypes (NameRead scope) (fun _ => rfl) found.withoutTypes).mpr h

theorem nameRead_of_not_applies {scope : Scope} {s : Symbol} (h : basicApplies s = false) :
    NameRead scope s := by
  simp only [basicApplies, Bool.or_eq_false_iff, Bool.and_eq_false_iff] at h
  refine ⟨by simpa using h.1, fun kind unrelated => ?_⟩
  simp [kind, unrelated] at h

theorem basic_nameRead (scope : Scope) (s : Symbol) :
    Ends (fun s' => NameRead scope s' ∧
      s' = { s with isSdk := s'.isSdk, access := s'.access, relations := s'.relations })
      (basic scope s) := by
  unfold basic
  dsimp only
  split
  · rename_i known
    refine .pure' ⟨⟨rfl, fun kind unrelated => ?_⟩, rfl⟩
    simp_all
  · split
    · rename_i unknown
      exact .pure' ⟨⟨rfl, fun _ _ => ⟨rfl, rfl, unknown⟩⟩, rfl⟩
    · exact fun _ => ⟨⟨rfl, fun _ unrelated => nomatch unrelated⟩, rfl⟩

theorem basic_of_nameRead {scope : Scope} {s : Symbol} (h : NameRead scope s)
    (applies : basicApplies s = true) : basic scope s = pure s := by
  obtain ⟨known, related⟩ := h
  simp only [basicApplies, Option.isNone_eq_false_iff.mpr known, Bool.false_or, Bool.and_eq_true,
    beq_iff_eq, Option.isNone_iff_eq_none] at applies
  obtain ⟨kind, unrelated⟩ := applies
  obtain ⟨isSdk, access, unknown⟩ := related kind unrelated
  have other : ¬(s.kind ≠ .classDecl ∨ s.relations.isSome = true) := by simp [kind, unrelated]
  unfold basic
  dsimp only
  rw [← isSdk, ← access, if_neg other, unknown]

/-! ## Declaration -/

/-- If parameters are lacking, the declaration lists none. -/
def Unlisted (s : Symbol) : Prop :=
  s.lacksParameters → ∀ ps, Parameters.parse? s.detail.toList = some ps → ps = []

/-- If parameters are lacking, the declaration names no fields in braces. -/
def Unbraced (s : Symbol) : Prop :=
  s.lacksParameters → ∀ fields, Signature.bracedFields? s.detail.toList = some fields → fields = []

/-- The declaration of the symbol has nothing to say that it lacks. -/
structure DeclarationRead (s : Symbol) : Prop where
  typed : s.kind.isFieldLike = true → s.resolvedType = none →
    Signature.fieldType? s.detail.toList = none
  unlisted : s.kind.isFieldLike = false → Unlisted s
  unbraced : s.kind = .constructor → Unbraced s
  returned : s.kind.isFieldLike = false → s.kind ≠ .constructor → s.returnType = none →
    Signature.returnType? s.detail.toList s.name.toList = none

/-- What is no field has a list of parameters, each of which refers to its type. -/
def Listed (s : Symbol) : Prop :=
  s.kind.isFieldLike = false → ∃ ps, s.parameters = some ps ∧ Referenced ps

theorem DeclarationRead.finds {s s' : Symbol} (h : DeclarationRead s) (found : Finds s s') :
    DeclarationRead s' := by
  cases found with
  | nothing => exact h
  | type => exact { h with typed := fun _ missing => nomatch missing }
  | returnType => exact { h with returned := fun _ _ missing => nomatch missing }
  | parameters _ found =>
    exact {
      h with
      unlisted := fun _ missing => absurd (List.isEmpty_iff.mp missing) found
      unbraced := fun _ missing => absurd (List.isEmpty_iff.mp missing) found }

theorem Listed.finds {s s' : Symbol} (h : Listed s) (found : Finds s s') : Listed s' := by
  cases found with
  | parameters _ _ referenced => exact fun _ => ⟨_, rfl, referenced⟩
  | _ => exact h

theorem declaredParameters_unlisted (s : Symbol) :
    Unlisted (declaredParameters s) ∧
      (declaredParameters s).withoutTypes = s.withoutTypes := by
  unfold declaredParameters
  split
  · split
    · rename_i unread
      refine ⟨fun _ ps read => ?_, rfl⟩
      rw [unread] at read
      cases read
    · rename_i read
      refine ⟨fun still ps read' => ?_, rfl⟩
      obtain rfl := Option.some.inj (read.symm.trans read')
      exact List.isEmpty_iff.mp still
  · rename_i listed
    exact ⟨fun still => absurd still listed, rfl⟩

theorem DeclarationRead.of_field {s : Symbol} (field : s.kind.isFieldLike = true)
    (typed : s.resolvedType = none → Signature.fieldType? s.detail.toList = none) :
    DeclarationRead s where
  typed _ := typed
  unlisted other := by simp [field] at other
  unbraced kind := by simp [kind, SymbolKind.isFieldLike] at field
  returned other := by simp [field] at other

theorem declaredType_read {s : Symbol} (field : s.kind.isFieldLike = true) :
    Ends (fun s' => DeclarationRead s' ∧ s'.withoutTypes = s.withoutTypes) (declaredType s) := by
  unfold declaredType
  split
  · rename_i known
    exact .pure' ⟨.of_field field fun missing => by simp [missing] at known, rfl⟩
  · split
    · rename_i unread
      exact .pure' ⟨.of_field field fun _ => unread, rfl⟩
    · exact fun _ => ⟨.of_field field fun missing => (nomatch missing), rfl⟩

theorem DeclarationRead.of_constructor {s : Symbol} (constructor : s.kind = .constructor)
    (unlisted : Unlisted s) (unbraced : Unbraced s) : DeclarationRead s where
  typed field := by simp [constructor, SymbolKind.isFieldLike] at field
  unlisted _ := unlisted
  unbraced _ := unbraced
  returned _ other := absurd constructor other

/-- The parameters of a constructor are looked for twice, and only the second search may find fields
in braces. What the first has left unread is still unread after it. -/
theorem bracedParameters_read {s : Symbol} (constructor : s.kind = .constructor)
    (unlisted : Unlisted s) :
    DeclarationRead (bracedParameters s) ∧
      (bracedParameters s).withoutTypes = s.withoutTypes := by
  unfold bracedParameters
  split
  · split
    · rename_i unread
      refine ⟨.of_constructor constructor unlisted fun _ fields found => ?_, rfl⟩
      rw [unread] at found
      cases found
    · rename_i empty
      refine ⟨.of_constructor constructor unlisted fun _ fields found => ?_, rfl⟩
      exact (Option.some.inj (empty.symm.trans found)).symm
    · rename_i fields nonempty _
      -- the fields are parameters now, so that none are lacking
      have listed : (fieldParameters fields).isEmpty ≠ true :=
        fun still => nonempty (List.map_eq_nil_iff.mp (List.isEmpty_iff.mp still))
      exact ⟨.of_constructor constructor (fun still => absurd still listed)
        fun still => absurd still listed, rfl⟩
  · rename_i listed
    exact ⟨.of_constructor constructor unlisted fun still => absurd still listed, rfl⟩

theorem declaredReturnType_read {s : Symbol} (other : s.kind.isFieldLike = false)
    (no_constructor : s.kind ≠ .constructor) (unlisted : Unlisted s) :
    Ends (fun s' => DeclarationRead s' ∧ s'.withoutTypes = s.withoutTypes)
      (declaredReturnType s) := by
  have read : ∀ returned : Option String, ∀ reference,
      (returned = none → Signature.returnType? s.detail.toList s.name.toList = none) →
      DeclarationRead { s with returnType := returned, returnTypeRef := reference } :=
    fun _ _ unread => {
      typed := fun field => absurd field (by simp [other])
      unlisted := fun _ => unlisted
      unbraced := fun constructor => absurd constructor no_constructor
      returned := fun _ _ => unread }
  unfold declaredReturnType
  split
  · rename_i known
    exact .pure' ⟨read s.returnType s.returnTypeRef fun missing => by simp [missing] at known, rfl⟩
  · split
    · rename_i unread
      exact .pure' ⟨read s.returnType s.returnTypeRef fun _ => unread, rfl⟩
    · exact fun _ => ⟨read _ _ fun missing => (nomatch missing), rfl⟩

/-- To refer parameters to their types is no search: there are as many as before. -/
theorem resolved_read {s : Symbol} (read : DeclarationRead s) :
    Ends (fun s' => (DeclarationRead s' ∧ Listed s') ∧ s'.withoutTypes = s.withoutTypes)
      ((s.parameters.getD []).mapM resolveParameter >>= fun ps =>
        pure { s with parameters := some ps }) := by
  refine .bind' (resolveParameters_ends _) fun ps hps => .pure' ⟨⟨?_, fun _ => ⟨ps, rfl, hps.1⟩⟩, rfl⟩
  have lacked : ps.isEmpty = true → s.lacksParameters := by
    intro empty
    have length := hps.2
    rw [List.isEmpty_iff.mp empty] at length
    exact List.isEmpty_iff.mpr (List.eq_nil_of_length_eq_zero length.symm)
  exact {
    read with
    unlisted := fun other still => read.unlisted other (lacked still)
    unbraced := fun kind still => read.unbraced kind (lacked still) }

/-- What the declaration says is in the symbol afterwards, and nothing else has changed. -/
theorem declared_read (s : Symbol) :
    Ends (fun s' => (DeclarationRead s' ∧ Listed s') ∧ s'.withoutTypes = s.withoutTypes)
      (declared s) := by
  unfold declared
  split
  · rename_i field
    refine (declaredType_read field).mono fun s' h => ⟨⟨h.1, fun other => ?_⟩, h.2⟩
    rw [Symbol.kind_of_withoutTypes h.2, field] at other
    cases other
  · rename_i other
    obtain ⟨unlisted, kept⟩ := declaredParameters_unlisted s
    dsimp only
    generalize declaredParameters s = s₁ at unlisted kept
    rw [← Symbol.kind_of_withoutTypes kept, Bool.not_eq_true] at other
    refine Ends.ite_bind' (P := fun s₂ : Symbol =>
      DeclarationRead s₂ ∧ s₂.withoutTypes = s.withoutTypes) (.ite' ?_ ?_) ?_
    · intro constructor
      obtain ⟨read, kept'⟩ := bracedParameters_read constructor unlisted
      exact .pure' ⟨read, kept'.trans kept⟩
    · intro no_constructor
      exact (declaredReturnType_read other no_constructor unlisted).mono
        fun s₂ h => ⟨h.1, h.2.trans kept⟩
    · rintro s₂ ⟨read, kept'⟩
      exact (resolved_read read).mono fun s₃ h => ⟨h.1, h.2.trans kept'⟩

theorem declaredParameters_of_read {s : Symbol} (other : s.kind.isFieldLike = false)
    (read : DeclarationRead s) {ps : List Parameter} (listed : s.parameters = some ps) :
    declaredParameters s = s := by
  unfold declaredParameters
  split
  · rename_i lacked
    split
    · rfl
    · rename_i found
      have none_listed : ps = [] := by simpa [Symbol.lacksParameters, listed] using lacked
      rw [read.unlisted other lacked _ found, ← none_listed, ← listed]
  · rfl

theorem bracedParameters_of_read {s : Symbol} (constructor : s.kind = .constructor)
    (read : DeclarationRead s) : bracedParameters s = s := by
  unfold bracedParameters
  split
  · rename_i lacked
    split
    · rfl
    · rfl
    · rename_i some found
      exact absurd (read.unbraced constructor lacked _ found) some
  · rfl

theorem declaredReturnType_of_read {s : Symbol} (other : s.kind.isFieldLike = false)
    (no_constructor : s.kind ≠ .constructor) (read : DeclarationRead s) :
    declaredReturnType s = pure s := by
  unfold declaredReturnType
  split
  · rfl
  · rename_i missing
    rw [read.returned other no_constructor (by simpa using missing)]

theorem declared_of_read {s : Symbol} (read : DeclarationRead s) (listed : Listed s) :
    declared s = pure s := by
  unfold declared
  split
  · rename_i field
    unfold declaredType
    split
    · rfl
    · rename_i missing
      rw [read.typed field (by simpa using missing)]
  · rename_i other
    rw [Bool.not_eq_true] at other
    obtain ⟨ps, hps, referenced⟩ := listed other
    have rest : ((s.parameters.getD []).mapM resolveParameter >>= fun ps =>
        pure { s with parameters := some ps } : StateM Resolver Symbol) = pure s := by
      rw [hps, Option.getD_some, resolveParameters_of_referenced referenced, pure_bind, ← hps]
    rw [declaredParameters_of_read other read hps]
    dsimp only
    split
    · rename_i constructor
      rw [bracedParameters_of_read constructor read, pure_bind]
      exact rest
    · rename_i no_constructor
      rw [declaredReturnType_of_read other no_constructor read, pure_bind]
      exact rest

/-! ## Settled symbols -/

/-- None of the steps has anything left to do for the symbol. -/
structure Settled (scope : Scope) (s : Symbol) : Prop where
  named : NameRead scope s
  declared : declaredApplies s = true → DeclarationRead s ∧ Listed s
  asked : Asked scope.config s
  searched : Searched scope s

theorem ite_bind_eq {α β : Type} {c : Prop} [Decidable c] {x y : StateM Resolver α} {a : α}
    {f : α → StateM Resolver β} (hx : c → x = pure a) (hy : y = pure a) :
    (if c then x >>= f else y >>= f) = f a := by
  split
  · rename_i h
    rw [hx h, pure_bind]
  · rw [hy, pure_bind]

namespace Settled

variable {scope : Scope} {s : Symbol}

theorem lead_eq (h : Settled scope s) : lead scope s = pure (none, s) := by
  refine (ite_bind_eq (basic_of_nameRead h.named) rfl).trans ?_
  refine (ite_bind_eq (fun applies => ?_) rfl).trans ?_
  · exact declared_of_read (h.declared applies).1 (h.declared applies).2
  · exact congrArg pure h.asked

theorem finish_eq (h : Settled scope s) : finish scope none s = pure s := by
  show (if nearbyApplies scope s then nearby scope s else pure s) = pure s
  split
  · rename_i applies
    exact h.searched applies
  · rfl

/-- To fill in a settled symbol is to do nothing. -/
theorem enrichSymbol_eq (h : Settled scope s) : enrichSymbol scope s = pure s := by
  funext r
  unfold enrichSymbol
  rw [h.lead_eq]
  show (fetch none >>= fun contents => pure (finish scope contents s r)) = _
  rw [fetch]
  show (pure (finish scope none s r) : Inquiry (Symbol × Resolver)) = _
  rw [h.finish_eq]
  rfl

end Settled

/-- What a question about a symbol goes by, besides what is missing. -/
def questionData (s : Symbol) : String × String × Option Range × Bool :=
  (s.fileId, s.name, s.selection, s.hoverChecked)

/-- The steps of which no question is asked have nothing left to do. -/
def StepsDone (scope : Scope) (s : Symbol) : Prop :=
  NameRead scope s ∧ (declaredApplies s = true → DeclarationRead s ∧ Listed s)

theorem basicStep_ends (scope : Scope) (s : Symbol) :
    Ends (fun s' => NameRead scope s' ∧ questionData s' = questionData s)
      (if basicApplies s then basic scope s else pure s) := by
  split
  · refine (basic_nameRead scope s).mono ?_
    rintro s' ⟨named, same⟩
    exact ⟨named, by rw [same]; rfl⟩
  · rename_i idle
    exact .pure' ⟨nameRead_of_not_applies (Bool.eq_false_iff.mpr idle), rfl⟩

theorem declaredStep_ends {scope : Scope} {s : Symbol} (named : NameRead scope s) :
    Ends (fun s' => StepsDone scope s' ∧ questionData s' = questionData s)
      (if declaredApplies s then declared s else pure s) := by
  split
  · refine (declared_read s).mono ?_
    rintro s' ⟨read, same⟩
    exact ⟨⟨(Symbol.eq_of_withoutTypes (NameRead scope) (fun _ => rfl) same).mpr named,
      fun _ => read⟩, Symbol.eq_of_withoutTypes questionData (fun _ => rfl) same⟩
  · rename_i idle
    exact .pure' ⟨⟨named, fun applies => absurd applies idle⟩, rfl⟩

/-- The question that is planned for a symbol, and the symbol marked for it. -/
inductive Plans (s : Symbol) : Option HoverRequest → Symbol → Prop where
  | nothing {s' : Symbol} (same : s'.hoverChecked = s.hoverChecked) : Plans s none s'
  | question {s' : Symbol} {selection : Range} (placed : s.selection = some selection)
      (fresh : s.hoverChecked = false) (marked : s'.hoverChecked = true) :
      Plans s (some ⟨s.fileId, selection.start, s.name⟩) s'

theorem planHover_done {scope : Scope} {s s' : Symbol} (done : StepsDone scope s')
    (same : questionData s' = questionData s) :
    StepsDone scope (planHover scope.config s').2 ∧
      Plans s (planHover scope.config s').1 (planHover scope.config s').2 := by
  simp only [questionData, Prod.mk.injEq] at same
  obtain ⟨file, name, place, mark⟩ := same
  rcases planHover_cases scope.config s' with idle | ⟨selection, placed, fresh, planned⟩
  · rw [idle]
    exact ⟨done, .nothing mark⟩
  · rw [planned]
    refine ⟨⟨done.1, fun applies => ?_⟩, ?_⟩
    · obtain ⟨read, listed⟩ := done.2 applies
      exact ⟨{ read with }, listed⟩
    · have request : (⟨s'.fileId, selection.start, s'.name⟩ : HoverRequest) =
          ⟨s.fileId, selection.start, s.name⟩ := by
        rw [file, name]
      rw [request]
      exact .question (place ▸ placed) (mark ▸ fresh) rfl

theorem lead_ends (scope : Scope) (s : Symbol) :
    Ends (fun led => (StepsDone scope led.2 ∧ Asked scope.config led.2) ∧ Plans s led.1 led.2)
      (lead scope s) := by
  refine .ite_bind' (basicStep_ends scope s) ?_
  rintro s₁ ⟨named, same₁⟩
  refine .ite_bind' (declaredStep_ends named) ?_
  rintro s₂ ⟨done, same₂⟩
  obtain ⟨done', plans⟩ := planHover_done done (same₂.trans same₁)
  exact .pure' ⟨⟨done', planHover_asked scope.config s₂⟩, plans⟩

theorem StepsDone.finds {scope : Scope} {s s' : Symbol} (h : StepsDone scope s)
    (found : Finds s s') : StepsDone scope s' := by
  have applies : declaredApplies s' = declaredApplies s :=
    Symbol.eq_of_withoutTypes declaredApplies (fun _ => rfl) found.withoutTypes
  refine ⟨h.1.finds found, fun again => ?_⟩
  obtain ⟨read, listed⟩ := h.2 (applies ▸ again)
  exact ⟨read.finds found, listed.finds found⟩

theorem finish_ends {scope : Scope} {s : Symbol} (done : StepsDone scope s)
    (asked : Asked scope.config s) (contents : Option String) :
    Ends (fun s' => Settled scope s' ∧ s'.hoverChecked = s.hoverChecked)
      (finish scope contents s) := by
  have mark : ∀ {s s'}, Finds s s' → s'.hoverChecked = s.hoverChecked := fun found =>
    Symbol.eq_of_withoutTypes Symbol.hoverChecked (fun _ => rfl) found.withoutTypes
  have above : ∀ s', Finds s s' → Ends (fun s'' => Settled scope s'' ∧
      s''.hoverChecked = s.hoverChecked)
      (if nearbyApplies scope s' then nearby scope s' else pure s') := by
    intro s' found
    refine .ite' (fun applies => (nearby_finds applies).mono ?_) fun idle => .pure' ?_
    · rintro s'' ⟨found', searched⟩
      have done := (done.finds found).finds found'
      exact ⟨⟨done.1, done.2, (asked.finds found).finds found', searched⟩,
        (mark found').trans (mark found)⟩
    · have done := done.finds found
      exact ⟨⟨done.1, done.2, asked.finds found, fun applies => absurd applies idle⟩, mark found⟩
  cases contents with
  | none => exact .bind' (.pure' .nothing) above
  | some contents => exact .bind' (applyHover_finds contents s) above

end CodeAtlas.Enrichment
