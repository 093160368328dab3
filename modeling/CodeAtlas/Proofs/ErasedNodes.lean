import CodeAtlas.Proofs.Erasure
import CodeAtlas.Proofs.Occurrences

/-!
Nodes of erased symbols. Neither the rules for layers nor ids look at where types are declared, so
the visits to erased files are the erased visits to the files (`visits_erase`) and make the same
nodes (`nodes_erase`).
-/
namespace CodeAtlas

/-! ## Layers -/

/-- The shape of a class whose members refer to no declarations. -/
def ClassShape.erase (c : ClassShape) : ClassShape :=
  { c with members := c.members.map Symbol.erase }

namespace ClassShape

theorem of_erase (t : SymbolTree) (r : Option Relations) :
    ClassShape.of t.erase (r.map Relations.erase) = (ClassShape.of t r).erase := by
  have labels : ∀ r : Relations, r.erase.labels = r.labels := by
    intro r
    have same : RelationTarget.label ∘ RelationTarget.erase = RelationTarget.label := rfl
    unfold Relations.labels Relations.targets Relations.erase Relations.map
    simp only [List.map_append, List.map_map, same, Option.toList_map]
  have related : ((r.map Relations.erase).map Relations.labels).getD [] =
      (r.map Relations.labels).getD [] := by
    cases r with
    | none => rfl
    | some r => exact labels r
  have members : t.erase.children.map SymbolTree.symbol =
      (t.children.map SymbolTree.symbol).map Symbol.erase := by
    rw [SymbolTree.erase_children, eraseTrees_symbols]
  unfold ClassShape.of erase
  rw [related, members, SymbolTree.erase_symbol]
  rfl

variable (c : ClassShape)

theorem methods_erase : c.erase.methods = c.methods.map Symbol.erase := by
  unfold methods erase
  rw [List.filter_map]
  rfl

theorem fields_erase : c.erase.fields = c.fields.map Symbol.erase := by
  unfold fields erase
  rw [List.filter_map]
  rfl

theorem mostMethods_erase (num den : Nat) (test : Symbol → Bool)
    (blind : ∀ m, test m.erase = test m) :
    c.erase.mostMethods num den test = c.mostMethods num den test := by
  unfold mostMethods
  rw [methods_erase, List.length_map, List.countP_map, List.isEmpty_map]
  have same : test ∘ Symbol.erase = test := funext blind
  rw [same]

end ClassShape

namespace LayerRule

theorem isBuildMethod_erase (m : Symbol) : isBuildMethod m.erase = isBuildMethod m := by
  unfold isBuildMethod
  rw [Symbol.erase_parameters]
  cases m.parameters with
  | none => rfl
  | some ps =>
    match ps with
    | [] => rfl
    | [p] => rfl
    | _ :: _ :: _ => rfl

/-- No rule looks at where types are declared. -/
theorem holds_erase (c : ClassShape) : ∀ rule ∈ all, rule.holds c.erase = rule.holds c := by
  have build : isBuildMethod ∘ Symbol.erase = isBuildMethod := funext isBuildMethod_erase
  have data : isDataShape c.erase = isDataShape c := by
    unfold isDataShape
    rw [ClassShape.methods_erase, ClassShape.fields_erase, List.isEmpty_map, List.countP_map]
    rfl
  have asynchronous := c.mostMethods_erase 1 2 isAsync fun _ => rfl
  have static := c.mostMethods_erase 7 10 isStatic fun _ => rfl
  unfold all
  simp only [List.forall_mem_cons]
  refine ⟨rfl, ?_, rfl, rfl, rfl, ?_, rfl, asynchronous, rfl, rfl, data, rfl, rfl, rfl, static,
    fun _ h => absurd h List.not_mem_nil⟩
  · rw [ClassShape.methods_erase, List.any_map, build]
  · rw [ClassShape.methods_erase, ClassShape.fields_erase, List.any_map, List.any_map]
    rfl

end LayerRule

theorem layerOf_erase (t : SymbolTree) (r : Option Relations) :
    layerOf t.erase (r.map Relations.erase) = layerOf t r := by
  have rule : layerRule? t.erase (r.map Relations.erase) = layerRule? t r := by
    unfold layerRule?
    rw [SymbolTree.erase_symbol, ClassShape.of_erase]
    have first := find?_congr fun rule hr => LayerRule.holds_erase (.of t r) rule hr
    rw [first]
    rfl
  unfold layerOf
  rw [rule, SymbolTree.erase_symbol]
  rfl

/-! ## Visits -/

/-- A visit to the erased symbol. -/
def Visit.erase (v : Visit) : Visit := ⟨v.tree.erase, v.file.erase, v.enclosing⟩

namespace Visit

variable (v : Visit)

theorem id_erase : v.erase.id = v.id := by
  unfold id erase
  rw [SymbolTree.erase_symbol]
  rfl

theorem node_erase : v.erase.node = v.node := by
  have layer : layerOf v.tree.erase v.tree.symbol.erase.relations =
      layerOf v.tree v.tree.symbol.relations := layerOf_erase _ _
  unfold node
  rw [id_erase]
  unfold Builder.nodeOf
  dsimp only [erase]
  rw [SymbolTree.erase_symbol, layer]
  rfl

end Visit

theorem within_erase (s : Symbol) (children : List SymbolTree)
    (enclosing : Option Builder.Enclosing) :
    Builder.within ⟨s.erase, eraseTrees children⟩ enclosing =
      Builder.within ⟨s, children⟩ enclosing := by
  have container : SymbolTree.isContainer ⟨s.erase, eraseTrees children⟩ =
      SymbolTree.isContainer ⟨s, children⟩ := by
    unfold SymbolTree.isContainer
    rw [eraseTrees_eq_map, List.isEmpty_map]
    rfl
  unfold Builder.within
  rw [container]
  rfl

mutual

theorem visitsOfTree_erase (f : SourceFile) (enclosing : Option Builder.Enclosing) :
    ∀ t : SymbolTree, visitsOfTree f.erase enclosing t.erase =
      (visitsOfTree f enclosing t).map Visit.erase
  | ⟨s, children⟩ => by
    rw [SymbolTree.erase, visitsOfTree, visitsOfTree, List.map_cons, within_erase,
      visitsOfTrees_erase f _ children, Visit.erase, SymbolTree.erase]

theorem visitsOfTrees_erase (f : SourceFile) (enclosing : Option Builder.Enclosing) :
    ∀ trees : List SymbolTree, visitsOfTrees f.erase enclosing (eraseTrees trees) =
      (visitsOfTrees f enclosing trees).map Visit.erase
  | [] => by rw [eraseTrees, visitsOfTrees, visitsOfTrees, List.map_nil]
  | t :: rest => by
    rw [eraseTrees, visitsOfTrees, visitsOfTrees, List.map_append, visitsOfTree_erase f enclosing t,
      visitsOfTrees_erase f enclosing rest]

end

theorem visits_erase (files : List SourceFile) :
    visits (files.map SourceFile.erase) = (visits files).map Visit.erase := by
  rw [visits, visits, List.flatMap_map, List.map_flatMap]
  exact congrArg (files.flatMap ·) (funext fun f => visitsOfTrees_erase f none f.symbols)

theorem lastVisit?_erase (vs : List Visit) (id : String) :
    lastVisit? (vs.map Visit.erase) id = (lastVisit? vs id).map Visit.erase := by
  rw [lastVisit?, ← List.map_reverse, List.find?_map]
  have same : (fun v : Visit => v.id == id) ∘ Visit.erase = fun v => v.id == id :=
    funext fun v => congrArg (· == id) v.id_erase
  rw [same]
  rfl

theorem nodes_erase (vs : List Visit) :
    (Builder.ofVisits (vs.map Visit.erase)).graph.nodes = (Builder.ofVisits vs).graph.nodes := by
  have ids : ∀ vs : List Visit, (vs.map Visit.erase).map Visit.id = vs.map Visit.id := by
    intro vs
    rw [List.map_map]
    exact List.map_congr_left fun v _ => v.id_erase
  induction vs using List.reverseRecOn with
  | nil => rfl
  | append_singleton vs v ih =>
    rw [List.map_append, List.map_singleton, Builder.ofVisits_concat, Builder.ofVisits_concat,
      Builder.nodes_record, Builder.nodes_record, ih, v.id_erase, v.node_erase]
    simp only [Builder.hasNode_ofVisits, ids]

end CodeAtlas
