import CodeAtlas.Proofs.Effects
import CodeAtlas.Proofs.TypeReferences

/-!
What is left of symbols when it is forgotten where types are declared. Erasure drops the declaration
from every reference and keeps its name. A run that knows no declarations at all gives the erased
symbols of a run that knows some: so where types are declared can be seen in nothing else
(`treeEffect_erase`, `closeFiles_erase`).
-/
namespace CodeAtlas

/-! ## Erasure -/

def TypeReference.erase (r : TypeReference) : TypeReference := .unresolved r.name

def Parameter.erase (p : Parameter) : Parameter :=
  { p with typeRef := p.typeRef.map TypeReference.erase }

def RelationTarget.erase (t : RelationTarget) : RelationTarget := .named t.label

def Relations.erase (r : Relations) : Relations := r.map RelationTarget.erase

def Symbol.erase (s : Symbol) : Symbol :=
  { s with
    resolvedTypeRef := s.resolvedTypeRef.map TypeReference.erase
    returnTypeRef := s.returnTypeRef.map TypeReference.erase
    parameters := s.parameters.map fun ps => ps.map Parameter.erase
    relations := s.relations.map Relations.erase }

section Fields

variable (s : Symbol)

@[simp] theorem Symbol.erase_name : s.erase.name = s.name := rfl
@[simp] theorem Symbol.erase_kind : s.erase.kind = s.kind := rfl
@[simp] theorem Symbol.erase_detail : s.erase.detail = s.detail := rfl
@[simp] theorem Symbol.erase_fileId : s.erase.fileId = s.fileId := rfl
@[simp] theorem Symbol.erase_selection : s.erase.selection = s.selection := rfl
@[simp] theorem Symbol.erase_parameters :
    s.erase.parameters = s.parameters.map fun ps => ps.map Parameter.erase := rfl

end Fields

mutual

def SymbolTree.erase : SymbolTree → SymbolTree
  | ⟨s, children⟩ => ⟨s.erase, eraseTrees children⟩

def eraseTrees : List SymbolTree → List SymbolTree
  | [] => []
  | t :: rest => t.erase :: eraseTrees rest

end

def SourceFile.erase (f : SourceFile) : SourceFile := { f with symbols := eraseTrees f.symbols }

theorem SymbolTree.erase_symbol (t : SymbolTree) : t.erase.symbol = t.symbol.erase := by
  cases t
  rw [SymbolTree.erase]

theorem SymbolTree.erase_children (t : SymbolTree) : t.erase.children = eraseTrees t.children := by
  cases t
  rw [SymbolTree.erase]

theorem eraseTrees_eq_map (trees : List SymbolTree) : eraseTrees trees = trees.map .erase := by
  induction trees with
  | nil => rw [eraseTrees, List.map_nil]
  | cons t rest ih => rw [eraseTrees, ih, List.map_cons]

theorem eraseTrees_symbols (trees : List SymbolTree) :
    (eraseTrees trees).map SymbolTree.symbol =
      (trees.map SymbolTree.symbol).map Symbol.erase := by
  rw [eraseTrees_eq_map, List.map_map, List.map_map]
  exact List.map_congr_left fun t _ => t.erase_symbol

theorem Parameter.erase_of_unreferenced {p : Parameter} (h : p.typeRef = none) : p.erase = p := by
  rw [Parameter.erase, h]
  cases p
  cases h
  rfl

theorem erase_of_unreferenced {ps : List Parameter} (h : ∀ p ∈ ps, p.typeRef = none) :
    ps.map Parameter.erase = ps :=
  (List.map_congr_left fun p hp => p.erase_of_unreferenced (h p hp)).trans (List.map_id' ps)

/-- Raw symbols refer to nothing. -/
theorem Symbol.Raw.erase_eq {fileId : String} {s : Symbol} (h : s.Raw fileId) : s.erase = s := by
  rw [← h.untyped]
  show { s.withoutTypes with relations := s.relations.map Relations.erase } =
    { s.withoutTypes with relations := s.relations }
  rw [h.unrelated]
  rfl

mutual

theorem erase_of_raw {fileId : String} : ∀ (t : SymbolTree),
    (∀ s ∈ t.preorder, s.Raw fileId) → t.erase = t
  | ⟨s, children⟩, h => by
    obtain ⟨hs, hc⟩ := List.forall_mem_cons.mp h
    rw [SymbolTree.erase, hs.erase_eq, eraseTrees_of_raw children hc]

theorem eraseTrees_of_raw {fileId : String} : ∀ (trees : List SymbolTree),
    (∀ s ∈ preorderAll trees, s.Raw fileId) → eraseTrees trees = trees
  | [], _ => by rw [eraseTrees]
  | t :: rest, h => by
    obtain ⟨ht, hr⟩ := List.forall_mem_append.mp h
    rw [eraseTrees, erase_of_raw t ht, eraseTrees_of_raw rest hr]

end

/-! ## Runs in step -/

/-- From states with `I` and `J` the second computation gives what the first gives, as `e` erases
it, and both leave such states. -/
def Simulates {σ τ α β : Type} (I : σ → Prop) (J : τ → Prop) (e : α → β) (x : StateM σ α)
    (y : StateM τ β) : Prop :=
  ∀ s t, I s → J t → (y t).1 = e (x s).1 ∧ I (x s).2 ∧ J (y t).2

namespace Simulates

variable {σ τ α β α' β' : Type} {I : σ → Prop} {J : τ → Prop} {e : α → α'} {e' : β → β'}

theorem pure' (a : α) : Simulates I J e (pure a) (pure (e a)) := fun _ _ hs ht => ⟨rfl, hs, ht⟩

theorem bind' {x : StateM σ α} {y : StateM τ α'} {f : α → StateM σ β} {g : α' → StateM τ β'}
    (hx : Simulates I J e x y) (hf : ∀ a, Simulates I J e' (f a) (g (e a))) :
    Simulates I J e' (x >>= f) (y >>= g) := by
  intro s t hs ht
  obtain ⟨same, hs₁, ht₁⟩ := hx s t hs ht
  have next := hf (x s).1 (x s).2 (y t).2 hs₁ ht₁
  rw [← same] at next
  exact next

theorem ite' {c d : Prop} [Decidable c] [Decidable d] (same : d ↔ c) {x₁ x₂ : StateM σ α}
    {y₁ y₂ : StateM τ α'} (h₁ : Simulates I J e x₁ y₁) (h₂ : Simulates I J e x₂ y₂) :
    Simulates I J e (if c then x₁ else x₂) (if d then y₁ else y₂) := by
  by_cases h : c
  · rw [if_pos h, if_pos (same.mpr h)]
    exact h₁
  · rw [if_neg h, if_neg (mt same.mp h)]
    exact h₂

/-- Choices with the same continuation on both sides. -/
theorem ite_bind' {c d : Prop} [Decidable c] [Decidable d] (same : d ↔ c) {x₁ x₂ : StateM σ α}
    {y₁ y₂ : StateM τ α'} {f : α → StateM σ β} {g : α' → StateM τ β'}
    (h₁ : Simulates I J e x₁ y₁) (h₂ : Simulates I J e x₂ y₂)
    (hf : ∀ a, Simulates I J e' (f a) (g (e a))) :
    Simulates I J e' (if c then x₁ >>= f else x₂ >>= f) (if d then y₁ >>= g else y₂ >>= g) :=
  ite' same (bind' h₁ hf) (bind' h₂ hf)

theorem mapM' {f : α → StateM σ β} {g : α' → StateM τ β'}
    (hf : ∀ a, Simulates I J e' (f a) (g (e a))) (l : List α) :
    Simulates I J (List.map e') (l.mapM f) ((l.map e).mapM g) := by
  induction l with
  | nil => exact pure' []
  | cons a rest ih =>
    rw [List.mapM_cons, List.map_cons, List.mapM_cons]
    apply bind' (hf a)
    intro b
    exact bind' ih fun bs => pure' (b :: bs)

theorem mapM_option {f : α → StateM σ β} {g : α' → StateM τ β'}
    (hf : ∀ a, Simulates I J e' (f a) (g (e a))) (o : Option α) :
    Simulates I J (Option.map e') (o.mapM f) ((o.map e).mapM g) := by
  cases o with
  | none => exact pure' none
  | some a =>
    show Simulates I J (Option.map e') (f a >>= fun b => pure (some b))
      (g (e a) >>= fun b => pure (some b))
    exact bind' (hf a) fun b => pure' (some b)

end Simulates

/-- From coherent resolvers the second computation, which knows no declarations, gives what the
first gives, erased. -/
abbrev Erases {α β : Type} (definitions : List TypeDefinition) (e : α → β)
    (x : StateM Resolver α) (y : StateM Resolver β) : Prop :=
  Simulates (Resolver.Coherent definitions) (Resolver.Coherent []) e x y

theorem resolve_erases (definitions : List TypeDefinition) (name : String) :
    Erases definitions TypeReference.erase (Resolver.resolve name) (Resolver.resolve name) := by
  intro r r' hr hr'
  obtain ⟨found, kept, -⟩ := Resolver.resolve_spec hr name
  obtain ⟨found', kept', -⟩ := Resolver.resolve_spec hr' name
  rw [found, found']
  exact ⟨rfl, kept, kept'⟩

theorem Symbol.erase_withParameters {s : Symbol} {ps : List Parameter}
    (h : ∀ p ∈ ps, p.typeRef = none) :
    Symbol.erase { s with parameters := some ps } = { s.erase with parameters := some ps } := by
  rw [Symbol.erase, Option.map_some, erase_of_unreferenced h]
  rfl

/-- Nothing that is recorded about classes refers to declarations. -/
def RelationIndex.Unresolved (x : RelationIndex) : Prop :=
  ∀ fileId name r, x.find? fileId name = some r → r.erase = r

/-! ## The steps that fill in a symbol -/

namespace Enrichment

variable (definitions : List TypeDefinition)

theorem setType_erases (s : Symbol) (type : List Char) :
    Erases definitions Symbol.erase (setType s type) (setType s.erase type) :=
  .bind' (resolve_erases definitions _) fun _ => .pure' _

theorem setReturnType_erases (s : Symbol) (type : List Char) :
    Erases definitions Symbol.erase (setReturnType s type) (setReturnType s.erase type) :=
  .bind' (resolve_erases definitions _) fun _ => .pure' _

/-- A related type keeps its name whether or not it is found to be declared. -/
theorem resolveTarget_erases (t : RelationTarget) :
    Erases definitions RelationTarget.erase (resolveTarget t) (resolveTarget t.erase) := by
  intro r r' hr hr'
  obtain ⟨found, kept, -⟩ := Resolver.resolve_spec hr t.label
  obtain ⟨found', kept', -⟩ := Resolver.resolve_spec hr' t.label
  refine ⟨?_, kept, kept'⟩
  show (if (Resolver.resolve t.label r').1.definition.isSome then
      RelationTarget.resolved (Resolver.resolve t.label r').1 else t.erase) =
    RelationTarget.erase (if (Resolver.resolve t.label r).1.definition.isSome then
      .resolved (Resolver.resolve t.label r).1 else t)
  rw [found, found']
  have undeclared : ¬(Resolver.lookup [] t.label).definition.isSome = true := Bool.false_ne_true
  rw [if_neg undeclared]
  split <;> rfl

theorem resolveRelations_erases (x : Relations) :
    Erases definitions Relations.erase (resolveRelations x) (resolveRelations x.erase) := by
  apply Simulates.bind' (.mapM_option (resolveTarget_erases definitions) x.superclass)
  intro superclass
  apply Simulates.bind' (.mapM' (resolveTarget_erases definitions) x.implements)
  intro implements
  exact .bind' (.mapM' (resolveTarget_erases definitions) x.mixins) fun mixins => .pure' _

theorem resolveParameter_erases (p : Parameter) :
    Erases definitions Parameter.erase (resolveParameter p) (resolveParameter p.erase) := by
  have referenced : p.erase.typeRef.isSome = p.typeRef.isSome := Option.isSome_map
  unfold resolveParameter
  refine .ite' (by rw [referenced]) (.pure' _) (.ite' Iff.rfl (.pure' _) ?_)
  exact .bind' (resolve_erases definitions p.type) fun _ => .pure' _

section Steps

variable {scope : Scope} (unresolved : scope.relations.Unresolved) (s : Symbol)

include unresolved in
theorem basic_erases :
    Erases definitions Symbol.erase (basic scope s) (basic scope s.erase) := by
  have related : s.erase.relations.isSome = s.relations.isSome := Option.isSome_map
  unfold basic
  refine .ite' (or_congr Iff.rfl (by rw [← related])) (.pure' _) ?_
  simp only [Symbol.erase_fileId, Symbol.erase_name]
  cases found : scope.relations.find? s.fileId s.name with
  | none => exact .pure' _
  | some r =>
    have step := resolveRelations_erases definitions r
    rw [unresolved s.fileId s.name r found] at step
    exact .bind' step fun _ => .pure' _

/-! Declarations. -/

theorem erase_lacksParameters : s.erase.lacksParameters = s.lacksParameters := by
  rw [Symbol.lacksParameters, Symbol.lacksParameters, Symbol.erase_parameters]
  cases s.parameters with
  | none => rfl
  | some ps => exact List.isEmpty_map

theorem declaredType_erases :
    Erases definitions Symbol.erase (declaredType s) (declaredType s.erase) := by
  unfold declaredType
  refine .ite' Iff.rfl (.pure' _) ?_
  rw [Symbol.erase_detail]
  cases Signature.fieldType? s.detail.toList with
  | none => exact .pure' _
  | some type => exact setType_erases definitions s type

theorem declaredReturnType_erases :
    Erases definitions Symbol.erase (declaredReturnType s) (declaredReturnType s.erase) := by
  unfold declaredReturnType
  refine .ite' Iff.rfl (.pure' _) ?_
  rw [Symbol.erase_detail, Symbol.erase_name]
  cases Signature.returnType? s.detail.toList s.name.toList with
  | none => exact .pure' _
  | some type => exact setReturnType_erases definitions s type

theorem declaredParameters_erase :
    declaredParameters s.erase = (declaredParameters s).erase := by
  unfold declaredParameters
  rw [erase_lacksParameters, Symbol.erase_detail]
  split
  · split
    · rfl
    · rename_i found
      exact (Symbol.erase_withParameters (Parameters.parse?_unreferenced found)).symm
  · rfl

theorem bracedParameters_erase : bracedParameters s.erase = (bracedParameters s).erase := by
  unfold bracedParameters
  rw [erase_lacksParameters, Symbol.erase_detail]
  split
  · split
    · rfl
    · rfl
    · exact (Symbol.erase_withParameters (fieldParameters_unreferenced _)).symm
  · rfl

theorem declared_erases : Erases definitions Symbol.erase (declared s) (declared s.erase) := by
  unfold declared
  refine .ite' Iff.rfl (declaredType_erases definitions s) ?_
  rw [declaredParameters_erase]
  generalize declaredParameters s = s₁
  refine .ite_bind' Iff.rfl ?_ (declaredReturnType_erases definitions s₁) fun s₂ => ?_
  · rw [bracedParameters_erase]
    exact .pure' _
  · have listed : s₂.erase.parameters.getD [] = (s₂.parameters.getD []).map Parameter.erase := by
      rw [Symbol.erase_parameters]
      cases s₂.parameters <;> rfl
    have step := Simulates.mapM' (resolveParameter_erases definitions) (s₂.parameters.getD [])
    rw [← listed] at step
    exact .bind' step fun _ => .pure' _

/-! The question to ask. -/

theorem erase_needsType : needsType s.erase = needsType s := by
  unfold needsType
  rw [Symbol.erase_kind, erase_lacksParameters]
  rfl

theorem planHover_erase (config : Config) :
    planHover config s.erase = Prod.map id Symbol.erase (planHover config s) := by
  unfold planHover
  rw [Symbol.erase_selection]
  cases s.selection with
  | none => rfl
  | some selection =>
    dsimp only
    rw [erase_needsType]
    show (if config.features.hover && !s.hoverChecked && s.fileId != "" && needsType s then _
      else _) = _
    split <;> rfl

include unresolved in
theorem lead_erases :
    Erases definitions (Prod.map id Symbol.erase) (lead scope s) (lead scope s.erase) := by
  have applies : basicApplies s.erase = basicApplies s := by
    show (s.access.isNone || s.kind == .classDecl && (s.relations.map Relations.erase).isNone) = _
    rw [Option.isNone_map]
    rfl
  have first := basic_erases definitions unresolved s
  refine .ite_bind' (by rw [applies]) first (.pure' s) fun s₁ => ?_
  refine .ite_bind' Iff.rfl (declared_erases definitions s₁) (.pure' s₁) fun s₂ => ?_
  have planned := Simulates.pure' (I := Resolver.Coherent definitions) (J := Resolver.Coherent [])
    (e := Prod.map id Symbol.erase) (planHover scope.config s₂)
  rwa [← planHover_erase] at planned

/-! Hover texts and lines above. -/

theorem applyHover_erases (contents : String) :
    Erases definitions Symbol.erase (applyHover contents s) (applyHover contents s.erase) := by
  unfold applyHover
  refine .ite' (by rw [erase_needsType]) (.pure' s) ?_
  rw [Symbol.erase_kind, Symbol.erase_name]
  split
  · split
    · exact .pure' s
    · exact setType_erases definitions s _
  · split
    · exact .pure' s
    · exact setType_erases definitions s _
  · split
    · exact .pure' s
    · exact setReturnType_erases definitions s _
  · split
    · exact .pure' s
    · exact setReturnType_erases definitions s _
  · split
    · exact .pure' s
    · have step := Simulates.mapM' (resolveParameter_erases definitions)
        (fieldParameters (Hover.fields contents.toList))
      rw [erase_of_unreferenced (fieldParameters_unreferenced _)] at step
      exact .bind' step fun _ => .pure' _
  · exact .pure' s

theorem nearby_erases :
    Erases definitions Symbol.erase (nearby scope s) (nearby scope s.erase) := by
  unfold nearby
  rw [Symbol.erase_selection, Symbol.erase_kind, Symbol.erase_name]
  split
  · exact .pure' s
  · refine .ite' Iff.rfl ?_ ?_
    · split
      · exact .pure' s
      · exact setType_erases definitions s _
    · split
      · exact .pure' s
      · exact setReturnType_erases definitions s _

theorem finish_erases (contents : Option String) :
    Erases definitions Symbol.erase (finish scope contents s) (finish scope contents s.erase) := by
  have above : ∀ s₁ : Symbol, Erases definitions Symbol.erase
      (if nearbyApplies scope s₁ then nearby scope s₁ else pure s₁)
      (if nearbyApplies scope s₁.erase then nearby scope s₁.erase else pure s₁.erase) := by
    intro s₁
    have applies : nearbyApplies scope s₁.erase = nearbyApplies scope s₁ := by
      unfold nearbyApplies
      rw [erase_needsType]
      rfl
    exact .ite' (by rw [applies]) (nearby_erases definitions s₁) (.pure' s₁)
  cases contents with
  | none => exact .bind' (.pure' s) above
  | some contents => exact .bind' (applyHover_erases definitions s contents) above

end Steps

/-! ## Whole files -/

section Files

variable (service : Service) {scope : Scope}

theorem symbolEffect_erase (unresolved : scope.relations.Unresolved) (s : Symbol) :
    (symbolEffect [] service scope s.erase).result =
      (symbolEffect definitions service scope s).result.erase := by
  have fresh := Resolver.fresh_coherent definitions
  have fresh' := Resolver.fresh_coherent []
  obtain ⟨led, -⟩ := lead_erases definitions unresolved s _ _ fresh fresh'
  show (finishEffect [] service scope (lead scope s.erase (Resolver.fresh [])).1.1
    (lead scope s.erase (Resolver.fresh [])).1.2).result = _
  rw [led]
  exact (finish_erases definitions _ _ _ _ fresh fresh').1

mutual

theorem treeEffect_erase (unresolved : scope.relations.Unresolved) : ∀ t : SymbolTree,
    (treeEffect [] service scope t.erase).result =
      (treeEffect definitions service scope t).result.erase
  | ⟨s, children⟩ => by
    rw [SymbolTree.erase, treeEffect, treeEffect, Symbol.erase_selection]
    split
    · rw [Effect.result_pure, Effect.result_pure, SymbolTree.erase]
    · simp only [Effect.result_bind, Effect.result_pure, SymbolTree.erase]
      rw [symbolEffect_erase definitions service unresolved s,
        treesEffect_erase unresolved children]

theorem treesEffect_erase (unresolved : scope.relations.Unresolved) : ∀ trees : List SymbolTree,
    (treesEffect [] service scope (eraseTrees trees)).result =
      eraseTrees (treesEffect definitions service scope trees).result
  | [] => by
    rw [eraseTrees, treesEffect, treesEffect, Effect.result_pure, eraseTrees]
  | t :: rest => by
    rw [eraseTrees, treesEffect, treesEffect]
    simp only [Effect.result_bind, Effect.result_pure, eraseTrees]
    rw [treeEffect_erase unresolved t, treesEffect_erase unresolved rest]

end

theorem fileEffect_erase {c : Context} (unresolved : c.relations.Unresolved) (f : SourceFile) :
    (fileEffect [] service c f.erase).result =
      (fileEffect definitions service c f).result.erase := by
  let scope : Scope := ⟨c.config, c.relations, f.text⟩
  have unresolved : scope.relations.Unresolved := unresolved
  exact congrArg (SourceFile.mk f.fileId f.text)
    (treesEffect_erase definitions service unresolved f.symbols)

end Files

/-! ## Closing -/

/-- Whatever has been counted, the second computation gives what the first gives, erased. -/
abbrev ClosesAlike {α β : Type} (e : α → β) (x : StateM FieldTypeCounts α)
    (y : StateM FieldTypeCounts β) : Prop :=
  Simulates (fun _ => True) (fun _ => True) e x y

theorem fieldNamed?_erase (members : List SymbolTree) (name : String) :
    fieldNamed? (eraseTrees members) name = (fieldNamed? members name).map Symbol.erase := by
  rw [fieldNamed?, eraseTrees_symbols, List.find?_map]
  rfl

theorem closeField_erases (members : List SymbolTree) (name : String) (p : Parameter) :
    ClosesAlike Parameter.erase (closeField members name p)
      (closeField (eraseTrees members) name p.erase) := by
  unfold closeField
  rw [fieldNamed?_erase]
  cases fieldNamed? members name with
  | none => exact fun _ _ _ _ => ⟨rfl, trivial, trivial⟩
  | some f =>
    have known : ((some f).map Symbol.erase).bind
          (fun f => f.resolvedType.map (·, f.resolvedTypeRef)) =
        (f.resolvedType.map (·, f.resolvedTypeRef)).map
          (Prod.map id (Option.map TypeReference.erase)) := by
      show f.resolvedType.map (·, f.resolvedTypeRef.map TypeReference.erase) = _
      rw [Option.map_map]
      rfl
    rw [known, Option.bind_some]
    cases f.resolvedType with
    | none => exact fun _ _ _ _ => ⟨rfl, trivial, trivial⟩
    | some type =>
      refine fun _ _ _ _ => ⟨?_, trivial, trivial⟩
      show { p.erase with
          type
          typeRef := some ((f.resolvedTypeRef.map TypeReference.erase).getD (.unresolved type)) } =
        Parameter.erase
          { p with type, typeRef := some (f.resolvedTypeRef.getD (.unresolved type)) }
      cases f.resolvedTypeRef <;> rfl

theorem closeParameter_erases (members : List SymbolTree) (p : Parameter) :
    ClosesAlike Parameter.erase (closeParameter members p)
      (closeParameter (eraseTrees members) p.erase) := by
  have field : selfFieldOf? p.erase = selfFieldOf? p := rfl
  unfold closeParameter
  rw [field]
  cases selfFieldOf? p with
  | none => exact .pure' p
  | some name => exact closeField_erases members name p

theorem closeMember_erases (classId : String) (members : List SymbolTree) (m : SymbolTree) :
    ClosesAlike SymbolTree.erase (closeMember classId members m)
      (closeMember classId (eraseTrees members) m.erase) := by
  obtain ⟨s, children⟩ := m
  rw [SymbolTree.erase]
  unfold closeMember
  dsimp only
  rw [Symbol.erase_parameters, Symbol.erase_kind]
  cases s.parameters with
  | none =>
    exact .pure' (⟨s, children⟩ : SymbolTree)
  | some ps =>
    refine .ite' (or_congr Iff.rfl (by rw [List.isEmpty_map])) ?_ ?_
    · exact .pure' (⟨s, children⟩ : SymbolTree)
    · refine .bind' (.mapM' (closeParameter_erases members) ps) fun ps' => ?_
      exact .pure' (⟨_, children⟩ : SymbolTree)

theorem closeMembers_erases (s : Symbol) (members : List SymbolTree) :
    ClosesAlike eraseTrees (closeMembers s members)
      (closeMembers s.erase (eraseTrees members)) := by
  have all : ClosesAlike eraseTrees (members.mapM (closeMember s.uniqueId members))
      ((eraseTrees members).mapM (closeMember s.uniqueId (eraseTrees members))) := by
    have step := Simulates.mapM' (closeMember_erases s.uniqueId members) members
    rw [← eraseTrees_eq_map] at step
    intro n n' hn hn'
    rw [eraseTrees_eq_map (Prod.fst _)]
    exact step n n' hn hn'
  exact .ite' Iff.rfl all (.pure' members)

mutual

theorem closeTree_erases : ∀ t : SymbolTree,
    ClosesAlike SymbolTree.erase (closeTree t) (closeTree t.erase)
  | ⟨s, children⟩ => by
    rw [SymbolTree.erase, closeTree, closeTree]
    refine .bind' (closeTrees_erases children) fun children' => ?_
    exact .bind' (closeMembers_erases s children') fun members => .pure' (⟨s, members⟩ : SymbolTree)

theorem closeTrees_erases : ∀ trees : List SymbolTree,
    ClosesAlike eraseTrees (closeTrees trees) (closeTrees (eraseTrees trees))
  | [] => by
    rw [eraseTrees, closeTrees]
    exact .pure' ([] : List SymbolTree)
  | t :: rest => by
    rw [eraseTrees, closeTrees, closeTrees]
    refine .bind' (closeTree_erases t) fun t' => ?_
    exact .bind' (closeTrees_erases rest) fun rest' => .pure' (t' :: rest')

end

theorem closeFile_erases (f : SourceFile) :
    ClosesAlike SourceFile.erase (closeFile f) (closeFile f.erase) := by
  refine .bind' (closeTrees_erases f.symbols) fun symbols => ?_
  exact fun _ _ _ _ => ⟨rfl, trivial, trivial⟩

/-- Files are closed one by one, each for itself. -/
theorem closeFiles_erase (files : List SourceFile) :
    (closeFiles files).1.map SourceFile.erase =
      files.map fun f => (closeFile f.erase {}).1 := by
  suffices ∀ n, (files.mapM closeFile n).1.map SourceFile.erase =
      files.map fun f => (closeFile f.erase {}).1 from this {}
  induction files with
  | nil => exact fun _ => rfl
  | cons f rest ih =>
    intro n
    rw [List.mapM_cons, List.map_cons, (closeFile_erases f n {} trivial trivial).1, ← ih]
    rfl

end Enrichment

end CodeAtlas
