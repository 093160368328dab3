import CodeAtlas.Enrichment.Run

/-!
References that are remembered. `Resolver.Coherent` is the invariant of the cache: every remembered
reference is the one that a look-up in the declarations gives. A computation is `Steady` if its
result does not depend on what was remembered before it, as long as that was coherent: it gives what
it gives when nothing is remembered, and it adds the names that it adds then. Each step that fills
in a symbol is steady (`lead_steady`, `finish_steady`), so the order of the steps can be seen
neither in the symbols nor in what is remembered in the end.
-/
namespace CodeAtlas

namespace Resolver

variable {definitions : List TypeDefinition} {r r' : Resolver}

/-- The names whose references are remembered. -/
def names (r : Resolver) : List String := r.cache.map Prod.fst

/-- A resolver that remembers nothing. -/
def fresh (definitions : List TypeDefinition) : Resolver := { definitions }

/-- The resolver goes by the given declarations, and what it remembers was found in them. -/
structure Coherent (definitions : List TypeDefinition) (r : Resolver) : Prop where
  declared : r.definitions = definitions
  found_eq : ∀ name found, r.cache.lookup name = some found → found = lookup definitions name

theorem fresh_coherent (definitions : List TypeDefinition) :
    (fresh definitions).Coherent definitions where
  declared := rfl
  found_eq := by simp [fresh]

theorem mem_names {name : String} : name ∈ r.names ↔ ∃ found, r.cache.lookup name = some found := by
  rw [← Option.isSome_iff_exists, List.lookup_isSome_iff, names, List.mem_map]
  exact exists_congr fun _ => and_congr_right fun _ => eq_comm.trans beq_iff_eq.symm

/-- A coherent resolver is known by the names it remembers. -/
theorem Coherent.lookup_eq (h : r.Coherent definitions) (name : String) :
    r.cache.lookup name = if name ∈ r.names then some (lookup definitions name) else none := by
  split
  · rename_i known
    obtain ⟨found, hf⟩ := mem_names.mp known
    rw [hf, h.found_eq name found hf]
  · rename_i unknown
    refine Option.eq_none_iff_forall_ne_some.mpr fun found hf => ?_
    exact unknown (mem_names.mpr ⟨found, hf⟩)

theorem Coherent.same_cache (h : r.Coherent definitions) (h' : r'.Coherent definitions)
    (same : ∀ name, name ∈ r.names ↔ name ∈ r'.names) (name : String) :
    r.cache.lookup name = r'.cache.lookup name := by
  rw [h.lookup_eq, h'.lookup_eq]
  simp only [same name]

/-- A coherent resolver answers by the declarations, stays coherent and learns the name. -/
theorem resolve_spec (h : r.Coherent definitions) (name : String) :
    (resolve name r).1 = lookup definitions name ∧ (resolve name r).2.Coherent definitions ∧
      ∀ n, n ∈ (resolve name r).2.names ↔ n ∈ r.names ∨ n = name := by
  unfold resolve
  cases hc : r.cache.lookup name with
  | some found =>
    refine ⟨h.found_eq name found hc, h, fun n => ⟨.inl, ?_⟩⟩
    rintro (hn | rfl)
    · exact hn
    · exact mem_names.mpr ⟨found, hc⟩
  | none =>
    refine ⟨by rw [h.declared], ⟨h.declared, ?_⟩, fun n => ?_⟩
    · intro n found hn
      rw [List.lookup_cons] at hn
      by_cases e : n = name
      · subst e
        simp only [beq_self_eq_true, h.declared] at hn
        exact (Option.some.inj hn).symm
      · rw [beq_false_of_ne e] at hn
        exact h.found_eq n found hn
    · rw [names, List.map_cons, List.mem_cons, Or.comm]
      rfl

end Resolver

open Resolver (fresh resolve resolve_spec fresh_coherent)

/-- From every coherent resolver the computation gives what it gives from a fresh one, and it leaves
a coherent resolver that has learnt the names a fresh one learns. -/
def Steady {α : Type} (definitions : List TypeDefinition) (x : StateM Resolver α) : Prop :=
  ∀ r : Resolver, r.Coherent definitions →
    (x r).1 = (x (fresh definitions)).1 ∧ (x r).2.Coherent definitions ∧
      ∀ n, n ∈ (x r).2.names ↔ n ∈ r.names ∨ n ∈ (x (fresh definitions)).2.names

namespace Steady

variable {α β : Type} {definitions : List TypeDefinition}

theorem pure' (a : α) : Steady definitions (pure a : StateM Resolver α) := by
  intro r h
  refine ⟨rfl, h, fun n => ?_⟩
  show n ∈ r.names ↔ n ∈ r.names ∨ n ∈ []
  rw [or_iff_left List.not_mem_nil]

theorem bind' {x : StateM Resolver α} {f : α → StateM Resolver β} (hx : Steady definitions x)
    (hf : ∀ a, Steady definitions (f a)) : Steady definitions (x >>= f) := by
  intro r h
  obtain ⟨same, hr, learnt⟩ := hx r h
  obtain ⟨-, hc, -⟩ := hx (fresh definitions) (fresh_coherent definitions)
  -- both runs go on from the result of the fresh one, each from a coherent resolver
  obtain ⟨same₁, hr₁, learnt₁⟩ := hf (x (fresh definitions)).1 (x r).2 hr
  obtain ⟨same₂, -, learnt₂⟩ := hf (x (fresh definitions)).1 (x (fresh definitions)).2 hc
  have go : (x >>= f) r = f (x (fresh definitions)).1 (x r).2 := by
    rw [← same]
    rfl
  have gone : (x >>= f) (fresh definitions) =
    f (x (fresh definitions)).1 (x (fresh definitions)).2 := rfl
  rw [go, gone]
  refine ⟨same₁.trans same₂.symm, hr₁, fun n => ?_⟩
  rw [learnt₁ n, learnt n, learnt₂ n, or_assoc]

theorem ite' {c : Prop} [Decidable c] {x y : StateM Resolver α} (hx : Steady definitions x)
    (hy : Steady definitions y) : Steady definitions (if c then x else y) := by
  split
  · exact hx
  · exact hy

/-- A choice with the same continuation on both sides. -/
theorem ite_bind' {c : Prop} [Decidable c] {x y : StateM Resolver α} {f : α → StateM Resolver β}
    (hx : Steady definitions x) (hy : Steady definitions y) (hf : ∀ a, Steady definitions (f a)) :
    Steady definitions (if c then x >>= f else y >>= f) :=
  ite' (bind' hx hf) (bind' hy hf)

theorem mapM' {f : α → StateM Resolver β} (hf : ∀ a, Steady definitions (f a)) (l : List α) :
    Steady definitions (l.mapM f) := by
  induction l with
  | nil => exact pure' []
  | cons a rest ih =>
    rw [List.mapM_cons]
    apply bind' (hf a)
    intro b
    exact bind' ih fun bs => pure' (b :: bs)

theorem mapM_option {f : α → StateM Resolver β} (hf : ∀ a, Steady definitions (f a))
    (o : Option α) : Steady definitions (o.mapM f) := by
  cases o with
  | none => exact pure' none
  | some a => exact bind' (hf a) fun b => pure' (some b)

theorem resolve' (name : String) : Steady definitions (resolve name) := by
  intro r h
  obtain ⟨found, hr, learnt⟩ := resolve_spec h name
  obtain ⟨found', -, learnt'⟩ := resolve_spec (fresh_coherent definitions) name
  refine ⟨found.trans found'.symm, hr, fun n => ?_⟩
  rw [learnt n, learnt' n]
  show _ ↔ _ ∨ n ∈ [] ∨ n = name
  rw [or_iff_right List.not_mem_nil]

end Steady

/-! ## The steps that fill in a symbol -/

namespace Enrichment

variable (definitions : List TypeDefinition)

theorem setType_steady (s : Symbol) (type : List Char) : Steady definitions (setType s type) :=
  .bind' (.resolve' _) fun _ => .pure' _

theorem setReturnType_steady (s : Symbol) (type : List Char) :
    Steady definitions (setReturnType s type) :=
  .bind' (.resolve' _) fun _ => .pure' _

theorem resolveTarget_steady (t : RelationTarget) : Steady definitions (resolveTarget t) :=
  .bind' (.resolve' _) fun _ => .pure' _

theorem resolveRelations_steady (x : Relations) : Steady definitions (resolveRelations x) := by
  apply Steady.bind' (.mapM_option (resolveTarget_steady definitions) _)
  intro superclass
  apply Steady.bind' (.mapM' (resolveTarget_steady definitions) _)
  intro implements
  exact .bind' (.mapM' (resolveTarget_steady definitions) _) fun mixins => .pure' _

theorem basic_steady (scope : Scope) (s : Symbol) : Steady definitions (basic scope s) := by
  unfold basic
  apply Steady.ite' (.pure' _)
  cases scope.relations.find? s.fileId s.name with
  | none => exact .pure' _
  | some x => exact .bind' (resolveRelations_steady definitions x) fun _ => .pure' _

theorem resolveParameter_steady (p : Parameter) : Steady definitions (resolveParameter p) := by
  unfold resolveParameter
  apply Steady.ite' (.pure' _)
  apply Steady.ite' (.pure' _)
  exact .bind' (.resolve' _) fun _ => .pure' _

theorem declaredType_steady (s : Symbol) : Steady definitions (declaredType s) := by
  unfold declaredType
  apply Steady.ite' (.pure' _)
  cases Signature.fieldType? s.detail.toList with
  | none => exact .pure' _
  | some type => exact setType_steady definitions s type

theorem declaredReturnType_steady (s : Symbol) : Steady definitions (declaredReturnType s) := by
  unfold declaredReturnType
  apply Steady.ite' (.pure' _)
  cases Signature.returnType? s.detail.toList s.name.toList with
  | none => exact .pure' _
  | some type => exact setReturnType_steady definitions s type

theorem declared_steady (s : Symbol) : Steady definitions (declared s) := by
  unfold declared
  apply Steady.ite' (declaredType_steady definitions s)
  apply Steady.ite_bind' (.pure' _) (declaredReturnType_steady definitions _)
  intro s
  exact .bind' (.mapM' (resolveParameter_steady definitions) _) fun _ => .pure' _

theorem lead_steady (scope : Scope) (s : Symbol) : Steady definitions (lead scope s) := by
  apply Steady.ite_bind' (basic_steady definitions scope s) (.pure' s)
  intro s
  exact .ite_bind' (declared_steady definitions s) (.pure' s) fun s => .pure' _

theorem applyHover_steady (contents : String) (s : Symbol) :
    Steady definitions (applyHover contents s) := by
  unfold applyHover
  apply Steady.ite' (.pure' s)
  split
  · split
    · exact .pure' s
    · exact setType_steady definitions s _
  · split
    · exact .pure' s
    · exact setType_steady definitions s _
  · split
    · exact .pure' s
    · exact setReturnType_steady definitions s _
  · split
    · exact .pure' s
    · exact setReturnType_steady definitions s _
  · split
    · exact .pure' s
    · exact .bind' (.mapM' (resolveParameter_steady definitions) _) fun _ => .pure' _
  · exact .pure' s

theorem nearby_steady (scope : Scope) (s : Symbol) : Steady definitions (nearby scope s) := by
  unfold nearby
  split
  · exact .pure' s
  · apply Steady.ite'
    · split
      · exact .pure' s
      · exact setType_steady definitions s _
    · split
      · exact .pure' s
      · exact setReturnType_steady definitions s _

theorem finish_steady (scope : Scope) (contents : Option String) (s : Symbol) :
    Steady definitions (finish scope contents s) := by
  have above : ∀ s, Steady definitions (if nearbyApplies scope s then nearby scope s else pure s) :=
    fun s => .ite' (nearby_steady definitions scope s) (.pure' s)
  cases contents with
  | none => exact .bind' (.pure' s) above
  | some contents => exact .bind' (applyHover_steady definitions contents s) above

end Enrichment

end CodeAtlas
