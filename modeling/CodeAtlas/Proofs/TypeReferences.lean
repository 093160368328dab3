import CodeAtlas.Proofs.Parents
import CodeAtlas.Proofs.Remembered
import CodeAtlas.Proofs.Settled
import CodeAtlas.Proofs.SymbolInvariants

/-!
Types of symbols, written down as texts and as references. The references that a coherent resolver
gives have the names that they are asked for, so each step that fills in a symbol keeps texts and
references in agreement (`lead_agrees`, `finish_agrees`), and so does closing a constructor: it
takes the text and the reference of a field in which they agree (`closesInto_agree`).
-/
namespace CodeAtlas

/-- The parameter refers to nothing, or to its type. -/
def Parameter.AgreesIfReferenced (p : Parameter) : Prop :=
  ∀ reference, p.typeRef = some reference → reference.name = p.type

/-- The parameter refers to its type. -/
def Parameter.Agrees (p : Parameter) : Prop :=
  ∃ reference, p.typeRef = some reference ∧ reference.name = p.type

/-- The types of a symbol are there as texts just if they are there as references, which then have
these names; all parameters are as `Q` says; and nothing returns `void`. -/
structure Symbol.Agrees (Q : Parameter → Prop) (s : Symbol) : Prop where
  type : s.resolvedTypeRef.map TypeReference.name = s.resolvedType
  returnType : s.returnTypeRef.map TypeReference.name = s.returnType
  parameters : ∀ ps, s.parameters = some ps → ∀ p ∈ ps, Q p
  not_void : ∀ type, s.returnType = some type → Signature.isVoid type.toList = false

theorem Parameter.Agrees.ifReferenced {p : Parameter} (h : p.Agrees) : p.AgreesIfReferenced := by
  obtain ⟨reference, known, name⟩ := h
  intro reference' known'
  obtain rfl := Option.some.inj (known.symm.trans known')
  exact name

theorem Symbol.Agrees.mono {Q Q' : Parameter → Prop} {s : Symbol} (h : s.Agrees Q)
    (weaker : ∀ p, Q p → Q' p) : s.Agrees Q' :=
  { h with parameters := fun ps known p hp => weaker p (h.parameters ps known p hp) }

theorem Symbol.Agrees.withParameters {Q Q' : Parameter → Prop} {s : Symbol} (h : s.Agrees Q)
    {ps : List Parameter} (hps : ∀ p ∈ ps, Q' p) :
    Symbol.Agrees Q' { s with parameters := some ps } :=
  { h with parameters := fun _ same => Option.some.inj same ▸ hps }

/-- From every coherent resolver the computation ends in a result with the property, and leaves a
coherent resolver. -/
def EndsCoherent {α : Type} (definitions : List TypeDefinition) (P : α → Prop)
    (x : StateM Resolver α) : Prop :=
  ∀ r : Resolver, r.Coherent definitions → P (x r).1 ∧ (x r).2.Coherent definitions

namespace EndsCoherent

variable {α β : Type} {definitions : List TypeDefinition} {P : α → Prop} {Q : β → Prop}

theorem pure' {a : α} (h : P a) : EndsCoherent definitions P (pure a) := fun _ hr => ⟨h, hr⟩

theorem bind' {x : StateM Resolver α} {f : α → StateM Resolver β}
    (hx : EndsCoherent definitions P x) (hf : ∀ a, P a → EndsCoherent definitions Q (f a)) :
    EndsCoherent definitions Q (x >>= f) := by
  intro r hr
  obtain ⟨ha, hr₁⟩ := hx r hr
  exact hf _ ha _ hr₁

theorem ite' {c : Prop} [Decidable c] {x y : StateM Resolver α}
    (hx : c → EndsCoherent definitions P x) (hy : ¬c → EndsCoherent definitions P y) :
    EndsCoherent definitions P (if c then x else y) := by
  split
  · rename_i h
    exact hx h
  · rename_i h
    exact hy h

/-- A choice with the same continuation on both sides. -/
theorem ite_bind' {c : Prop} [Decidable c] {x y : StateM Resolver α} {f : α → StateM Resolver β}
    (hx : c → EndsCoherent definitions P x) (hy : ¬c → EndsCoherent definitions P y)
    (hf : ∀ a, P a → EndsCoherent definitions Q (f a)) :
    EndsCoherent definitions Q (if c then x >>= f else y >>= f) :=
  ite' (fun h => bind' (hx h) hf) fun h => bind' (hy h) hf

theorem mapM' {f : α → StateM Resolver β} {l : List α}
    (hf : ∀ a ∈ l, EndsCoherent definitions Q (f a)) :
    EndsCoherent definitions (fun bs => ∀ b ∈ bs, Q b) (l.mapM f) := by
  induction l with
  | nil => exact pure' fun b hb => absurd hb List.not_mem_nil
  | cons a rest ih =>
    rw [List.mapM_cons]
    obtain ⟨first, others⟩ := List.forall_mem_cons.mp hf
    refine bind' first fun b hb => bind' (ih others) fun bs hbs => pure' ?_
    exact List.forall_mem_cons.mpr ⟨hb, hbs⟩

theorem resolve' (name : String) :
    EndsCoherent definitions (fun reference => reference.name = name) (Resolver.resolve name) := by
  intro r hr
  obtain ⟨found, hr', -⟩ := Resolver.resolve_spec hr name
  exact ⟨congrArg TypeReference.name found, hr'⟩

end EndsCoherent

/-! ## Types that are no `void` -/

theorem Signature.not_void_of_returnType? {detail name type : List Char}
    (h : Signature.returnType? detail name = some type) : Signature.isVoid type = false := by
  unfold Signature.returnType? at h
  obtain ⟨stop, -, h⟩ := Option.bind_eq_some_iff.mp h
  dsimp only at h
  split at h
  · cases h
  · rename_i other
    obtain rfl := Option.some.inj h
    exact Bool.eq_false_iff.mpr other

theorem Hover.not_void_of_returnType? {contents name type : List Char}
    (h : Hover.returnType? contents name = some type) : Signature.isVoid type = false := by
  unfold Hover.returnType? at h
  obtain ⟨stop, -, h⟩ := Option.bind_eq_some_iff.mp h
  dsimp only at h
  split at h
  · cases h
  · rename_i other
    obtain rfl := Option.some.inj h
    simp only [Bool.or_eq_true, not_or, Bool.not_eq_true] at other
    exact other.2

theorem Nearby.not_void_of_returnType? {lines name type : List Char}
    (h : Nearby.returnType? lines name = some type) : Signature.isVoid type = false := by
  unfold Nearby.returnType? at h
  obtain ⟨found, -, h⟩ := Option.bind_eq_some_iff.mp h
  split at h
  · cases h
  · rename_i other
    obtain rfl := Option.some.inj h
    exact Bool.eq_false_iff.mpr other

/-! ## Parameters that refer to nothing -/

theorem Parameters.slot?_unreferenced {kind : SlotKind} {segment : List Char} {p : Parameter}
    {stop : Cursor} (h : slot? kind segment = some (p, stop)) : p.typeRef = none := by
  unfold slot? at h
  split at h
  · cases h
    rfl
  · split at h
    · cases h
      rfl
    · obtain ⟨_, -, same⟩ := Option.map_eq_some_iff.mp h
      cases same
      rfl

theorem Parameters.parse?_unreferenced {detail : List Char} {ps : List Parameter}
    (h : parse? detail = some ps) : ∀ p ∈ ps, p.typeRef = none := by
  have unreferenced (kind : SlotKind) (segment : List Char) :
      ∀ p ∈ slots kind segment, p.typeRef = none :=
    forall_mem_slots (fun _ _ _ => slot?_unreferenced) segment
  obtain ⟨content, -, h⟩ := Option.bind_eq_some_iff.mp h
  obtain rfl := Option.some.inj h
  simp only [List.forall_mem_append]
  exact ⟨⟨unreferenced _ _, unreferenced _ _⟩, unreferenced _ _⟩

namespace Enrichment

variable {definitions : List TypeDefinition} {Q : Parameter → Prop} {s : Symbol}

/-! ## The steps that fill in a symbol -/

theorem setType_agrees (h : s.Agrees Q) (type : List Char) :
    EndsCoherent definitions (Symbol.Agrees Q) (setType s type) := by
  refine .bind' (.resolve' _) fun reference name => .pure' ?_
  exact { h with type := congrArg some name }

theorem setReturnType_agrees (h : s.Agrees Q) {type : List Char}
    (not_void : Signature.isVoid type = false) :
    EndsCoherent definitions (Symbol.Agrees Q) (setReturnType s type) := by
  refine .bind' (.resolve' _) fun reference name => .pure' ?_
  refine { h with returnType := congrArg some name, not_void := ?_ }
  rintro returned ⟨⟩
  rw [String.toList_ofList]
  exact not_void

theorem basic_agrees (scope : Scope) (h : s.Agrees Q) :
    EndsCoherent definitions (Symbol.Agrees Q) (basic scope s) := by
  intro r hr
  obtain ⟨-, hr', -⟩ := basic_steady definitions scope s r hr
  refine ⟨?_, hr'⟩
  -- whatever the relations are resolved to, they are no types
  have same := (basic_nameRead scope s r).2
  rw [same]
  exact { h with }

theorem resolveParameter_agrees {p : Parameter} (h : p.AgreesIfReferenced) :
    EndsCoherent definitions Parameter.Agrees (resolveParameter p) := by
  unfold resolveParameter
  refine .ite' (fun known => ?_) fun _ => .ite' (fun _ => .pure' ⟨_, rfl, rfl⟩) fun _ => ?_
  · obtain ⟨reference, found⟩ := Option.isSome_iff_exists.mp known
    exact .pure' ⟨reference, found, h reference found⟩
  · exact .bind' (.resolve' _) fun reference name => .pure' ⟨reference, rfl, name⟩

theorem agreesIfReferenced_of_unreferenced {ps : List Parameter} (h : ∀ p ∈ ps, p.typeRef = none) :
    ∀ p ∈ ps, p.AgreesIfReferenced := by
  intro p hp reference found
  rw [h p hp] at found
  cases found

theorem fieldParameters_unreferenced (fields : List (List Char)) :
    ∀ p ∈ fieldParameters fields, p.typeRef = none :=
  List.forall_mem_map.mpr fun _ _ => rfl

/-! Declarations. -/

theorem declaredType_agrees (h : s.Agrees Q) :
    EndsCoherent definitions (Symbol.Agrees Q) (declaredType s) := by
  unfold declaredType
  refine .ite' (fun _ => .pure' h) fun _ => ?_
  cases Signature.fieldType? s.detail.toList with
  | none => exact .pure' h
  | some type => exact setType_agrees h type

theorem declaredReturnType_agrees (h : s.Agrees Q) :
    EndsCoherent definitions (Symbol.Agrees Q) (declaredReturnType s) := by
  unfold declaredReturnType
  refine .ite' (fun _ => .pure' h) fun _ => ?_
  cases found : Signature.returnType? s.detail.toList s.name.toList with
  | none => exact .pure' h
  | some type => exact setReturnType_agrees h (Signature.not_void_of_returnType? found)

theorem declaredParameters_agrees (h : s.Agrees Parameter.Agrees) :
    (declaredParameters s).Agrees Parameter.AgreesIfReferenced := by
  have known : s.Agrees Parameter.AgreesIfReferenced := h.mono fun p hp => hp.ifReferenced
  unfold declaredParameters
  split
  · split
    · exact known
    · rename_i found
      have listed := Parameters.parse?_unreferenced found
      exact h.withParameters (agreesIfReferenced_of_unreferenced listed)
  · exact known

theorem bracedParameters_agrees (h : s.Agrees Parameter.AgreesIfReferenced) :
    (bracedParameters s).Agrees Parameter.AgreesIfReferenced := by
  unfold bracedParameters
  split
  · split
    · exact h
    · exact h
    · exact h.withParameters (agreesIfReferenced_of_unreferenced (fieldParameters_unreferenced _))
  · exact h

theorem declared_agrees (h : s.Agrees Parameter.Agrees) :
    EndsCoherent definitions (Symbol.Agrees Parameter.Agrees) (declared s) := by
  unfold declared
  refine .ite' (fun _ => declaredType_agrees h) fun _ => ?_
  have listed := declaredParameters_agrees h
  refine .ite_bind' (fun _ => .pure' (bracedParameters_agrees listed))
    (fun _ => declaredReturnType_agrees listed) fun s₁ h₁ => ?_
  have unresolved : ∀ p ∈ s₁.parameters.getD [], p.AgreesIfReferenced := by
    cases known : s₁.parameters with
    | none => exact fun p hp => absurd hp List.not_mem_nil
    | some ps => exact h₁.parameters ps known
  refine .bind' (.mapM' fun p hp => resolveParameter_agrees (unresolved p hp)) fun ps hps => ?_
  exact .pure' (h₁.withParameters hps)

theorem lead_agrees (scope : Scope) (h : s.Agrees Parameter.Agrees) :
    EndsCoherent definitions (fun led => led.2.Agrees Parameter.Agrees) (lead scope s) := by
  refine .ite_bind' (fun _ => basic_agrees scope h) (fun _ => .pure' h) fun s₁ h₁ => ?_
  refine .ite_bind' (fun _ => declared_agrees h₁) (fun _ => .pure' h₁) fun s₂ h₂ => .pure' ?_
  rcases planHover_cases scope.config s₂ with idle | ⟨selection, -, -, planned⟩
  · rw [idle]
    exact h₂
  · rw [planned]
    exact { h₂ with }

/-! Hover texts and lines above. -/

theorem applyHover_agrees (contents : String) (h : s.Agrees Parameter.Agrees) :
    EndsCoherent definitions (Symbol.Agrees Parameter.Agrees) (applyHover contents s) := by
  unfold applyHover
  refine .ite' (fun _ => .pure' h) fun _ => ?_
  split
  · split
    · exact .pure' h
    · exact setType_agrees h _
  · split
    · exact .pure' h
    · exact setType_agrees h _
  · split
    · exact .pure' h
    · rename_i found
      exact setReturnType_agrees h (Hover.not_void_of_returnType? found)
  · split
    · exact .pure' h
    · rename_i found
      exact setReturnType_agrees h (Hover.not_void_of_returnType? found)
  · split
    · exact .pure' h
    · have fields := agreesIfReferenced_of_unreferenced
        (fieldParameters_unreferenced (Hover.fields contents.toList))
      refine .bind' (.mapM' fun p hp => resolveParameter_agrees (fields p hp)) fun ps hps => ?_
      exact .pure' (h.withParameters hps)
  · exact .pure' h

theorem nearby_agrees (scope : Scope) (h : s.Agrees Q) :
    EndsCoherent definitions (Symbol.Agrees Q) (nearby scope s) := by
  unfold nearby
  split
  · exact .pure' h
  · refine .ite' (fun _ => ?_) fun _ => ?_
    · split
      · exact .pure' h
      · exact setType_agrees h _
    · split
      · exact .pure' h
      · rename_i found
        exact setReturnType_agrees h (Nearby.not_void_of_returnType? found)

theorem finish_agrees (scope : Scope) (contents : Option String) (h : s.Agrees Parameter.Agrees) :
    EndsCoherent definitions (Symbol.Agrees Parameter.Agrees) (finish scope contents s) := by
  have above : ∀ s₁ : Symbol, s₁.Agrees Parameter.Agrees →
      EndsCoherent definitions (Symbol.Agrees Parameter.Agrees)
        (if nearbyApplies scope s₁ then nearby scope s₁ else pure s₁) :=
    fun s₁ h₁ => .ite' (fun _ => nearby_agrees scope h₁) fun _ => .pure' h₁
  cases contents with
  | none => exact .bind' (.pure' h) above
  | some contents => exact .bind' (applyHover_agrees contents h) above

theorem enrichSymbol_agrees (scope : Scope) (h : s.Agrees Parameter.Agrees) :
    Leads (Resolver.Coherent definitions) (Symbol.Agrees Parameter.Agrees)
      (enrichSymbol scope s) :=
  enrichSymbol_leads (lead_agrees scope h) fun contents _ r h₁ => finish_agrees scope contents h₁ r

/-! ## Closing -/

theorem fieldNamed?_agrees {members : List SymbolTree} (h : ∀ x ∈ members, x.symbol.Agrees Q)
    {name : String} {field : Symbol} (found : fieldNamed? members name = some field) :
    field.Agrees Q := by
  obtain ⟨x, hx, rfl⟩ := List.mem_map.mp (List.mem_of_find?_eq_some found)
  exact h x hx

theorem closeField_agrees {members : List SymbolTree} (h : ∀ x ∈ members, x.symbol.Agrees Q)
    (name : String) (p : Parameter) : Ends Parameter.Agrees (closeField members name p) := by
  unfold closeField
  split
  · rename_i type reference found
    obtain ⟨field, named, found⟩ := Option.bind_eq_some_iff.mp found
    obtain ⟨type', typed, same⟩ := Option.map_eq_some_iff.mp found
    cases same
    -- the field has a type, so it has a reference of that name
    have agree := (fieldNamed?_agrees h named).type
    rw [typed] at agree
    obtain ⟨reference, known, name⟩ := Option.map_eq_some_iff.mp agree
    intro n
    refine ⟨reference, ?_, name⟩
    show some (field.resolvedTypeRef.getD _) = some reference
    rw [known]
    rfl
  · exact fun _ => ⟨_, rfl, rfl⟩

theorem closesInto_agree : ClosesInto (Symbol.Agrees Parameter.Agrees) := by
  intro classId members m h hm
  unfold closeMember
  split
  · exact .pure' hm
  · rename_i ps known
    split
    · exact .pure' hm
    · have each : ∀ p ∈ ps, Ends Parameter.Agrees (closeParameter members p) := by
        intro p hp
        unfold closeParameter
        split
        · exact .pure' (hm.parameters ps known p hp)
        · exact closeField_agrees h _ p
      refine .bind' (Ends.mapM' each) fun ps' hps => .pure' ?_
      exact { hm.withParameters hps.1 with }

end Enrichment

/-! ## A whole analysis -/

/-- Nothing is known of the types of raw symbols, so nothing is in disagreement. -/
theorem Symbol.Raw.agrees {fileId : String} {s : Symbol} (h : s.Raw fileId)
    (Q : Parameter → Prop) : s.Agrees Q := by
  rw [← h.untyped]
  exact ⟨rfl, rfl, fun _ found => (nomatch found), fun _ found => (nomatch found)⟩

/-- Whatever a service answers: in the files of an analysis each symbol, at any depth, has a type
just if it has a reference to one, and then the reference has that name; the same goes for what it
returns. Each of its parameters has a reference, which has the name of the parameter's type. Nothing
returns `void`, in any case of its letters. -/
theorem analysis_references (disk : Disk) (config : Config) (root : Option String)
    (given : List GivenFile) (a : Analysis)
    (h : (analyze disk config root given).Gives (.ok a)) :
    ∀ f ∈ a.files, ∀ s ∈ f.preorder,
      s.resolvedType = s.resolvedTypeRef.map TypeReference.name ∧
      s.returnType = s.returnTypeRef.map TypeReference.name ∧
      (∀ parameters, s.parameters = some parameters → ∀ p ∈ parameters,
        ∃ reference, p.typeRef = some reference ∧ reference.name = p.type) ∧
      ∀ type, s.returnType = some type → Text.lower type.toList ≠ "void".toList := by
  obtain ⟨loaded, external, resolver, run⟩ := analyzeSound_run (analyzeSound_of_ok h)
  have raw : ∀ f ∈ loaded, ∀ s ∈ f.preorder, s.Agrees Parameter.Agrees := by
    intro f hf s hs
    obtain ⟨g, -, load⟩ := Inquiry.gives_mapM run.loads f hf
    exact ((GivenFile.load_raw load).2.2 s hs).agrees _
  have filled := Enrichment.fillIn_leads (I := Resolver.Coherent (Resolver.definitionsOf loaded))
    (c := ({ config } : Context).prepare loaded)
    (fun _ _ hs => Enrichment.enrichSymbol_agrees _ hs) Enrichment.closesInto_agree raw
  have coherent := Resolver.fresh_coherent (Resolver.definitionsOf loaded)
  obtain ⟨agree, -⟩ := filled _ a.files resolver coherent run.fillsIn
  intro f hf s hs
  have agrees := agree f hf s hs
  refine ⟨agrees.type.symm, agrees.returnType.symm, agrees.parameters, fun type returns => ?_⟩
  exact beq_eq_false_iff_ne.mp (agrees.not_void type returns)

/-- A class with a field, a constructor that sets it and a method. -/
def turnsFile : GivenFile where
  fileId := "toy.dart"
  text := ""
  symbols := some [{
    name := "Toy", kind := 5, selection := some ⟨⟨0, 6⟩, ⟨0, 9⟩⟩
    children := [
      { name := "turns", kind := 8, detail := some "int turns"
        selection := some ⟨⟨1, 4⟩, ⟨1, 9⟩⟩ },
      { name := "Toy", kind := 9, detail := some "Toy(this.turns)"
        selection := some ⟨⟨2, 0⟩, ⟨2, 3⟩⟩ },
      { name := "wind", kind := 6, detail := some "Toy wind(int more)"
        selection := some ⟨⟨3, 4⟩, ⟨3, 8⟩⟩ }] }]

/-- The analysis of the file, where the service always fails: the parameter of the constructor has
the type of the field. -/
theorem analysis_references_turns :
    ∃ a, (analyze {} {} none [turnsFile]).Gives (.ok a) ∧
      ((a.files.flatMap SourceFile.preorder).map fun s =>
        (s.name, s.resolvedType, s.returnType, s.parameters.map fun ps => ps.map Parameter.type)) =
        [("Toy", none, none, none), ("turns", some "int", none, none),
          ("Toy", none, none, some ["int"]), ("wind", none, some "Toy", some ["int"])] ∧
      ∀ f ∈ a.files, ∀ s ∈ f.preorder,
        s.resolvedType = s.resolvedTypeRef.map TypeReference.name := by
  have sound := Inquiry.gives_answer (fun _ => none) (analyzeSound {} {} none [turnsFile])
  have gives : (analyze {} {} none [turnsFile]).Gives (.ok _) :=
    Inquiry.gives_bind.mpr ⟨_, sound, .done _⟩
  refine ⟨_, gives, by decide +kernel, fun f hf s hs => ?_⟩
  exact (analysis_references {} {} none [turnsFile] _ gives f hf s hs).1

end CodeAtlas
