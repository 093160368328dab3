import CodeAtlas.Enrichment.Run

/-!
Gaps in symbols: missing types and parameters, and what comes of looking for them. A search `Finds`
nothing, or it fills the gap it was made for; so what is missing after it was missing before it, and
a question that was not worth asking before is not worth asking after. What a step may do is said by
what it `Ends` in, from whatever is remembered.
-/
namespace CodeAtlas

/-- Whatever the state before it, the computation ends in a result with the property. -/
def Ends {σ α : Type} (P : α → Prop) (x : StateM σ α) : Prop := ∀ s, P (x s).1

namespace Ends

variable {σ α β : Type} {P : α → Prop} {Q : β → Prop}

theorem pure' {a : α} (h : P a) : Ends P (pure a : StateM σ α) := fun _ => h

theorem bind' {x : StateM σ α} {f : α → StateM σ β} (hx : Ends P x)
    (hf : ∀ a, P a → Ends Q (f a)) : Ends Q (x >>= f) := fun r => hf _ (hx r) _

theorem mono {P' : α → Prop} {x : StateM σ α} (hx : Ends P x) (h : ∀ a, P a → P' a) :
    Ends P' x := fun r => h _ (hx r)

theorem ite' {c : Prop} [Decidable c] {x y : StateM σ α} (hx : c → Ends P x)
    (hy : ¬c → Ends P y) : Ends P (if c then x else y) := by
  split
  · rename_i h
    exact hx h
  · rename_i h
    exact hy h

/-- A choice with the same continuation on both sides. -/
theorem ite_bind' {c : Prop} [Decidable c] {x y : StateM σ α} {f : α → StateM σ β}
    (h : Ends P (if c then x else y)) (hf : ∀ a, P a → Ends Q (f a)) :
    Ends Q (if c then x >>= f else y >>= f) := by
  split
  · rename_i hc
    rw [if_pos hc] at h
    exact bind' h hf
  · rename_i hc
    rw [if_neg hc] at h
    exact bind' h hf

theorem mapM' {f : α → StateM σ β} {l : List α} (hf : ∀ a ∈ l, Ends Q (f a)) :
    Ends (fun bs => (∀ b ∈ bs, Q b) ∧ bs.length = l.length) (l.mapM f) := by
  induction l with
  | nil => exact pure' ⟨fun _ h => absurd h List.not_mem_nil, rfl⟩
  | cons a rest ih =>
    rw [List.mapM_cons]
    obtain ⟨first, others⟩ := List.forall_mem_cons.mp hf
    refine bind' first fun b hb => bind' (ih others) fun bs hbs => pure' ⟨?_, ?_⟩
    · exact List.forall_mem_cons.mpr ⟨hb, hbs.1⟩
    · rw [List.length_cons, List.length_cons, hbs.2]

end Ends

/-- A symbol as if nothing were known of its types and parameters. -/
def Symbol.withoutTypes (s : Symbol) : Symbol :=
  { s with
    resolvedType := none, resolvedTypeRef := none, returnType := none, returnTypeRef := none
    parameters := none }

/-- What does not look at types and parameters is the same for symbols that only differ in them. -/
theorem Symbol.eq_of_withoutTypes {α : Type} (f : Symbol → α) (blind : ∀ s, f s = f s.withoutTypes)
    {s s' : Symbol} (h : s'.withoutTypes = s.withoutTypes) : f s' = f s :=
  calc f s' = f s'.withoutTypes := blind s'
    _ = f s.withoutTypes := by rw [h]
    _ = f s := (blind s).symm

theorem Symbol.kind_of_withoutTypes {s s' : Symbol} (h : s'.withoutTypes = s.withoutTypes) :
    s'.kind = s.kind := eq_of_withoutTypes Symbol.kind (fun _ => rfl) h

/-- A list of parameters in which each refers to its type. -/
def Referenced (parameters : List Parameter) : Prop := ∀ p ∈ parameters, p.typeRef.isSome

namespace Enrichment

/-! ## Looking for a missing type -/

/-- What comes of a symbol when something is looked for that it lacks. -/
inductive Finds (s : Symbol) : Symbol → Prop where
  | nothing : Finds s s
  | type (missing : s.resolvedType = none) (type : String) (reference : TypeReference) :
      Finds s { s with resolvedType := some type, resolvedTypeRef := some reference }
  | returnType (missing : s.returnType = none) (type : String) (reference : TypeReference) :
      Finds s { s with returnType := some type, returnTypeRef := some reference }
  | parameters (missing : s.lacksParameters) {parameters : List Parameter}
      (found : parameters ≠ []) (referenced : Referenced parameters) :
      Finds s { s with parameters := some parameters }

theorem resolvedType_of_needsType {s : Symbol} (h : s.kind.isFieldLike = true)
    (needed : needsType s = true) : s.resolvedType = none := by
  unfold needsType at needed
  cases hk : s.kind <;> simp_all [SymbolKind.isFieldLike]

theorem returnType_of_needsType {s : Symbol} (h : s.kind.isMethodOrFunction = true)
    (needed : needsType s = true) : s.returnType = none := by
  unfold needsType at needed
  cases hk : s.kind <;> simp_all [SymbolKind.isMethodOrFunction]

theorem setType_finds {s : Symbol} (missing : s.resolvedType = none) (type : List Char) :
    Ends (fun s' => Finds s s' ∧ s'.resolvedType.isSome) (setType s type) :=
  fun _ => ⟨.type missing _ _, rfl⟩

theorem setReturnType_finds {s : Symbol} (missing : s.returnType = none) (type : List Char) :
    Ends (fun s' => Finds s s' ∧ s'.returnType.isSome) (setReturnType s type) :=
  fun _ => ⟨.returnType missing _ _, rfl⟩

namespace Finds

variable {s s' : Symbol}

theorem withoutTypes (h : Finds s s') : s'.withoutTypes = s.withoutTypes := by
  cases h <;> rfl

theorem kind_eq (h : Finds s s') : s'.kind = s.kind :=
  Symbol.kind_of_withoutTypes h.withoutTypes

/-! What is missing afterwards was missing before. -/

theorem resolvedType_eq_none (h : Finds s s') (missing : s'.resolvedType = none) :
    s.resolvedType = none := by
  cases h with
  | type => cases missing
  | _ => exact missing

theorem returnType_eq_none (h : Finds s s') (missing : s'.returnType = none) :
    s.returnType = none := by
  cases h with
  | returnType => cases missing
  | _ => exact missing

theorem lacksParameters (h : Finds s s') (missing : s'.lacksParameters) : s.lacksParameters := by
  cases h with
  | parameters lacked => exact lacked
  | _ => exact missing

theorem needsType (h : Finds s s') (needed : needsType s' = true) : needsType s = true := by
  unfold Enrichment.needsType at needed ⊢
  rw [h.kind_eq] at needed
  cases hk : s.kind <;> simp only [hk, Option.isNone_iff_eq_none, Bool.false_eq_true] at needed ⊢
  · exact h.returnType_eq_none needed
  · exact h.resolvedType_eq_none needed
  · exact h.resolvedType_eq_none needed
  · exact h.lacksParameters needed
  · exact h.returnType_eq_none needed

end Finds

theorem setType_fills {s : Symbol} (field : s.kind.isFieldLike = true) (needed : needsType s = true)
    (type : List Char) : Ends (fun s' => Finds s s' ∧ needsType s' = false) (setType s type) := by
  refine (setType_finds (resolvedType_of_needsType field needed) type).mono ?_
  rintro s' ⟨found, some⟩
  refine ⟨found, Bool.eq_false_iff.mpr fun still => ?_⟩
  rw [resolvedType_of_needsType (found.kind_eq ▸ field) still] at some
  cases some

theorem setReturnType_fills {s : Symbol} (callable : s.kind.isMethodOrFunction = true)
    (needed : needsType s = true) (type : List Char) :
    Ends (fun s' => Finds s s' ∧ needsType s' = false) (setReturnType s type) := by
  refine (setReturnType_finds (returnType_of_needsType callable needed) type).mono ?_
  rintro s' ⟨found, some⟩
  refine ⟨found, Bool.eq_false_iff.mpr fun still => ?_⟩
  rw [returnType_of_needsType (found.kind_eq ▸ callable) still] at some
  cases some

/-! ## Parameters -/

theorem resolveParameter_ends (p : Parameter) :
    Ends (fun p' => p'.typeRef.isSome) (resolveParameter p) := by
  unfold resolveParameter
  split
  · rename_i known
    exact .pure' known
  · split
    · exact .pure' rfl
    · exact fun _ => rfl

theorem resolveParameters_ends (parameters : List Parameter) :
    Ends (fun ps => Referenced ps ∧ ps.length = parameters.length)
      (parameters.mapM resolveParameter) :=
  .mapM' fun p _ => resolveParameter_ends p

theorem resolveParameter_of_referenced {p : Parameter} (h : p.typeRef.isSome) :
    resolveParameter p = pure p := by
  rw [resolveParameter, if_pos h]

theorem resolveParameters_of_referenced {ps : List Parameter} (h : Referenced ps) :
    ps.mapM resolveParameter = (pure ps : StateM Resolver (List Parameter)) := by
  induction ps with
  | nil => rfl
  | cons p rest ih =>
    obtain ⟨hp, hrest⟩ := List.forall_mem_cons.mp h
    rw [List.mapM_cons, resolveParameter_of_referenced hp, ih hrest]
    rfl

/-! ## Hover text and lines above -/

/-- Whatever a hover text says, it fills a gap or nothing. -/
theorem applyHover_finds (contents : String) (s : Symbol) :
    Ends (Finds s) (applyHover contents s) := by
  unfold applyHover
  split
  · exact .pure' .nothing
  · rename_i needed
    simp only [Bool.not_eq_true', Bool.not_eq_false] at needed
    -- the kind decides which gap it is: a type, a return type or parameters
    have field : s.kind.isFieldLike = true → ∀ type, Ends (Finds s) (setType s type) :=
      fun h type => (setType_fills h needed type).mono fun _ h => h.1
    have callable : s.kind.isMethodOrFunction = true →
        ∀ type, Ends (Finds s) (setReturnType s type) :=
      fun h type => (setReturnType_fills h needed type).mono fun _ h => h.1
    split
    · rename_i hk
      split
      · exact .pure' .nothing
      · exact field (by rw [hk]; rfl) _
    · rename_i hk
      split
      · exact .pure' .nothing
      · exact field (by rw [hk]; rfl) _
    · rename_i hk
      split
      · exact .pure' .nothing
      · exact callable (by rw [hk]; rfl) _
    · rename_i hk
      split
      · exact .pure' .nothing
      · exact callable (by rw [hk]; rfl) _
    · rename_i hk
      split
      · exact .pure' .nothing
      · rename_i found
        refine .bind' (resolveParameters_ends _) fun ps hps => .pure' ?_
        -- as many are resolved as were found, so there are some
        have lacked : s.lacksParameters := by simpa [Enrichment.needsType, hk] using needed
        refine .parameters lacked (fun empty => found ?_) hps.1
        have length := hps.2
        rw [empty, fieldParameters, List.length_map, List.length_nil] at length
        exact List.eq_nil_of_length_eq_zero length.symm
    · exact .pure' .nothing

/-- The lines above have nothing to say that the symbol lacks. -/
def Searched (scope : Scope) (s : Symbol) : Prop :=
  nearbyApplies scope s = true → nearby scope s = pure s

/-- Either the lines above say nothing, or they fill the gap. -/
theorem nearby_cases {scope : Scope} {s : Symbol} (applies : nearbyApplies scope s = true) :
    nearby scope s = pure s ∨
      Ends (fun s' => Finds s s' ∧ needsType s' = false) (nearby scope s) := by
  simp only [nearbyApplies, Bool.and_eq_true, bne_iff_ne] at applies
  obtain ⟨⟨-, no_constructor⟩, needed⟩ := applies
  unfold nearby
  split
  · exact .inl rfl
  · dsimp only
    split
    · rename_i field
      split
      · exact .inl rfl
      · exact .inr (setType_fills field needed _)
    · rename_i other
      have callable : s.kind.isMethodOrFunction = true := by
        unfold needsType at needed
        cases hk : s.kind <;> simp_all [SymbolKind.isFieldLike, SymbolKind.isMethodOrFunction]
      split
      · exact .inl rfl
      · exact .inr (setReturnType_fills callable needed _)

theorem nearby_finds {scope : Scope} {s : Symbol} (applies : nearbyApplies scope s = true) :
    Ends (fun s' => Finds s s' ∧ Searched scope s') (nearby scope s) := by
  rcases nearby_cases applies with idle | fills
  · rw [idle]
    exact .pure' ⟨.nothing, fun _ => idle⟩
  · refine fills.mono fun s' h => ⟨h.1, fun again => ?_⟩
    simp [nearbyApplies, h.2] at again

/-- After the question something is found in a hover text, then in the lines above. -/
theorem finish_finds (scope : Scope) (contents : Option String) (s : Symbol) :
    Ends (fun s' => ∃ s₁, Finds s s₁ ∧ Finds s₁ s') (finish scope contents s) := by
  have above : ∀ s₁, Finds s s₁ → Ends (fun s' => ∃ s₁, Finds s s₁ ∧ Finds s₁ s')
      (if nearbyApplies scope s₁ then nearby scope s₁ else pure s₁) := by
    intro s₁ first
    refine .ite' (fun applies => ?_) fun _ => .pure' ⟨s₁, first, .nothing⟩
    exact (nearby_finds applies).mono fun s' second => ⟨s₁, first, second.1⟩
  cases contents with
  | none => exact .bind' (.pure' .nothing) above
  | some contents => exact .bind' (applyHover_finds contents s) above

theorem finish_withoutTypes (scope : Scope) (contents : Option String) (s : Symbol) :
    Ends (fun s' => s'.withoutTypes = s.withoutTypes) (finish scope contents s) := by
  refine (finish_finds scope contents s).mono ?_
  rintro s' ⟨s₁, first, second⟩
  exact second.withoutTypes.trans first.withoutTypes

/-! ## The question to ask -/

/-- There is no question left to ask about the symbol. -/
def Asked (config : Config) (s : Symbol) : Prop := planHover config s = (none, s)

theorem asked_iff {config : Config} {s : Symbol} : Asked config s ↔
    (config.features.hover = true → s.hoverChecked = false → s.fileId ≠ "" →
      s.selection.isSome → needsType s = false) := by
  unfold Asked planHover
  cases s.selection with
  | none => simp
  | some selection =>
    dsimp only
    split
    · rename_i ask
      simp only [Bool.and_eq_true, Bool.not_eq_true', bne_iff_ne] at ask
      simp [ask]
    · rename_i idle
      simp only [Bool.and_eq_true, Bool.not_eq_true', bne_iff_ne, not_and, Bool.not_eq_true] at idle
      exact iff_of_true rfl fun h c f _ => idle ⟨⟨h, c⟩, f⟩

/-- What is found leaves no question where none was left. -/
theorem Asked.finds {config : Config} {s s' : Symbol} (h : Asked config s) (found : Finds s s') :
    Asked config s' := by
  rw [asked_iff] at h ⊢
  intro wanted unchecked named placed
  have same : ∀ {α : Type} (f : Symbol → α), (∀ s, f s = f s.withoutTypes) → f s' = f s :=
    fun f blind => Symbol.eq_of_withoutTypes f blind found.withoutTypes
  rw [same Symbol.hoverChecked fun _ => rfl] at unchecked
  rw [same Symbol.fileId fun _ => rfl] at named
  rw [same Symbol.selection fun _ => rfl] at placed
  exact Bool.eq_false_iff.mpr fun still =>
    Bool.eq_false_iff.mp (h wanted unchecked named placed) (found.needsType still)

/-- Either there is no question, or the symbol is marked as asked for. -/
theorem planHover_cases (config : Config) (s : Symbol) :
    planHover config s = (none, s) ∨
      ∃ selection, s.selection = some selection ∧ s.hoverChecked = false ∧
        planHover config s =
          (some ⟨s.fileId, selection.start, s.name⟩, { s with hoverChecked := true }) := by
  unfold planHover
  cases hs : s.selection with
  | none => exact .inl rfl
  | some selection =>
    dsimp only
    split
    · rename_i ask
      simp only [Bool.and_eq_true, Bool.not_eq_true'] at ask
      exact .inr ⟨selection, rfl, ask.1.1.2, rfl⟩
    · exact .inl rfl

theorem planHover_asked (config : Config) (s : Symbol) : Asked config (planHover config s).2 := by
  rcases planHover_cases config s with idle | ⟨selection, -, -, planned⟩
  · rw [idle]
    exact idle
  · rw [planned, asked_iff]
    exact fun _ unchecked => nomatch unchecked

end Enrichment

end CodeAtlas
