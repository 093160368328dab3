import CodeAtlas.Graph.Metrics
import Mathlib.Algebra.BigOperators.Group.Finset.Basic
import Mathlib.Algebra.Order.Ring.Nat

/-!
Degrees of nodes. An edge that is counted adds one at the place of its source and one at that of its
target (`getElem?_countEdge`), so all edges together add at each place as many as end there
(`getElem?_foldl_countEdge`). Where no two nodes share an id, these are the edges with the node's id
at their ends, and where every end is a node, none of them is missed (`degrees_count_edges`).
-/
namespace CodeAtlas

/-- A node with further edges counted. -/
def Node.counted (n : Node) (incoming outgoing : Nat) : Node :=
  { n with inDegree := n.inDegree + incoming, outDegree := n.outDegree + outgoing }

namespace Graph

/-- The number of edges from the node with an id. -/
def edgesFrom (g : Graph) (id : String) : Nat := g.edges.countP fun e => e.source = id

/-- The number of edges to the node with an id. -/
def edgesTo (g : Graph) (id : String) : Nat := g.edges.countP fun e => e.target = id

/-! ## Counting edge by edge -/

section Counting

variable (place? : String → Option Nat) (nodes : List Node) (i : Nat)

theorem getElem?_changeAt (place : Option Nat) (change : Node → Node) :
    (changeAt place change nodes)[i]? =
      nodes[i]?.map fun n => if place = some i then change n else n := by
  cases place with
  | none => simp [changeAt]
  | some j => simp [changeAt, List.getElem?_modify]

/-- What one edge adds at a place. -/
theorem getElem?_countEdge (e : Edge) :
    (countEdge place? nodes e)[i]? = nodes[i]?.map fun n =>
      n.counted (if place? e.target = some i then 1 else 0)
        (if place? e.source = some i then 1 else 0) := by
  rw [countEdge, getElem?_changeAt, getElem?_changeAt, Option.map_map]
  congr 1
  funext n
  by_cases source : place? e.source = some i <;> by_cases target : place? e.target = some i <;>
    simp [source, target, Node.counted]

/-- What edges add at a place. -/
theorem getElem?_foldl_countEdge (edges : List Edge) :
    (edges.foldl (countEdge place?) nodes)[i]? = nodes[i]?.map fun n =>
      n.counted (edges.countP fun e => place? e.target = some i)
        (edges.countP fun e => place? e.source = some i) := by
  induction edges generalizing nodes with
  | nil => simp [Node.counted]
  | cons e edges ih =>
    rw [List.foldl_cons, ih, getElem?_countEdge, Option.map_map]
    congr 1
    funext n
    simp only [Function.comp, Node.counted, List.countP_cons, decide_eq_true_eq, Node.mk.injEq,
      true_and]
    omega

end Counting

/-! ## Places of nodes -/

/-- Each place is the last one with its id where no two nodes share an id. -/
theorem lastPlace?_eq_some_iff {nodes : List Node} (unique : (nodes.map Node.id).Nodup)
    {id : String} {i : Nat} :
    lastPlace? nodes id = some i ↔ nodes[i]?.map Node.id = some id := by
  induction nodes generalizing i with
  | nil => simp [lastPlace?]
  | cons n rest ih =>
    obtain ⟨new, unique⟩ := List.nodup_cons.mp unique
    rw [lastPlace?, Option.or_eq_some_iff, Option.map_eq_some_iff, Option.map_eq_none_iff]
    cases i with
    | zero =>
      have no_other : n.id = id → lastPlace? rest id = none := by
        intro here
        rw [Option.eq_none_iff_forall_ne_some]
        intro j found
        obtain ⟨m, hm, same⟩ := Option.map_eq_some_iff.mp ((ih unique).mp found)
        exact new (List.mem_map.mpr ⟨m, List.mem_of_getElem? hm, same.trans here.symm⟩)
      simpa using no_other
    | succ i => simp [ih unique]

variable (g : Graph)

/-- What is counted at each place of a graph, whatever had been counted there. -/
theorem getElem?_withDegrees (i : Nat) :
    g.withDegrees.nodes[i]? = g.nodes[i]?.map fun n =>
      { n with
        inDegree := g.edges.countP fun e => lastPlace? g.nodes e.target = some i
        outDegree := g.edges.countP fun e => lastPlace? g.nodes e.source = some i } := by
  rw [withDegrees, getElem?_foldl_countEdge, List.getElem?_map, Option.map_map]
  congr 1
  funext n
  simp [Node.counted, Node.withoutDegrees]

/-- Counting touches nothing but degrees. -/
theorem nodes_withDegrees :
    g.withDegrees.nodes.map Node.withoutDegrees = g.nodes.map Node.withoutDegrees := by
  apply List.ext_getElem?
  intro i
  rw [List.getElem?_map, List.getElem?_map, getElem?_withDegrees, Option.map_map]
  rfl

/-- Where no two nodes share an id, each has its own degrees. -/
theorem nodes_withDegrees_of_nodup (unique : (g.nodes.map Node.id).Nodup) :
    g.withDegrees.nodes = g.nodes.map fun n =>
      { n with inDegree := g.edgesTo n.id, outDegree := g.edgesFrom n.id } := by
  apply List.ext_getElem?
  intro i
  rw [getElem?_withDegrees, List.getElem?_map]
  cases here : g.nodes[i]? with
  | none => rfl
  | some n =>
    have own : ∀ id, lastPlace? g.nodes id = some i ↔ id = n.id := by
      intro id
      rw [lastPlace?_eq_some_iff unique, here, Option.map_some, Option.some_inj, eq_comm]
    simp only [Option.map_some, own, edgesTo, edgesFrom]

/-! ## Sums -/

/-- Items are counted once each by keys that are listed once each, if every item's key is listed. -/
theorem sum_countP_keys {α : Type} (items : List α) (key : α → String) {keys : List String}
    (unique : keys.Nodup) (listed : ∀ a ∈ items, key a ∈ keys) :
    (keys.map fun k => items.countP fun a => key a = k).sum = items.length := by
  have counts : ∀ k, (items.countP fun a => key a = k) =
      Multiset.count k (items.map key : Multiset String) := by
    intro k
    rw [Multiset.coe_count, List.count_eq_countP, List.countP_map]
    rfl
  simp only [counts]
  rw [← List.sum_toFinset _ unique, Multiset.sum_count_eq_card, Multiset.coe_card, List.length_map]
  intro k hk
  obtain ⟨a, ha, rfl⟩ := List.mem_map.mp (Multiset.mem_coe.mp hk)
  exact List.mem_toFinset.mpr (listed a ha)

/-- Where no two nodes share an id, the degrees of a node are the numbers of edges with its id at
their ends, whatever they were before, and nothing else changes. They add up to the number of edges
if all edges have nodes at their ends. -/
theorem degrees_count_edges (unique : (g.nodes.map Node.id).Nodup) :
    g.withDegrees.edges = g.edges ∧
    g.withDegrees.nodes = (g.nodes.map fun n =>
      { n with inDegree := g.edgesTo n.id, outDegree := g.edgesFrom n.id }) ∧
    ((∀ e ∈ g.edges, g.hasNode e.source = true ∧ g.hasNode e.target = true) →
      (g.withDegrees.nodes.map Node.inDegree).sum = g.edges.length ∧
      (g.withDegrees.nodes.map Node.outDegree).sum = g.edges.length) := by
  have nodes := g.nodes_withDegrees_of_nodup unique
  refine ⟨rfl, nodes, fun known => ?_⟩
  have incoming := sum_countP_keys g.edges Edge.target unique fun e he =>
    hasNode_iff.mp (known e he).2
  have outgoing := sum_countP_keys g.edges Edge.source unique fun e he =>
    hasNode_iff.mp (known e he).1
  rw [List.map_map] at incoming outgoing
  rw [nodes, List.map_map, List.map_map]
  exact ⟨incoming, outgoing⟩

/-- Two nodes with old degrees, joined by two edges of one kind, and one of them with itself. -/
def doubledGraph : Graph :=
  let node (id : String) (inDegree outDegree : Nat) : Node :=
    { id, label := id, kind := "method", inDegree, outDegree
      data := { fileId := "", range := none, selection := none, access := none, isSdk := false
                layer := .member } }
  { nodes := [node "a" 7 0, node "b" 0 9]
    edges := [⟨"e0", "a", "b", .calls⟩, ⟨"e1", "a", "b", .calls⟩, ⟨"e2", "b", "b", .readsFrom⟩] }

theorem degrees_count_edges_doubled :
    (doubledGraph.nodes.map Node.id).Nodup ∧
      (∀ e ∈ doubledGraph.edges,
        doubledGraph.hasNode e.source = true ∧ doubledGraph.hasNode e.target = true) ∧
      (doubledGraph.withDegrees.nodes.map fun n => (n.inDegree, n.outDegree)) = [(0, 2), (3, 1)] ∧
      (doubledGraph.withDegrees.nodes.map Node.inDegree).sum = 3 := by
  have unique : (doubledGraph.nodes.map Node.id).Nodup := by decide
  have known : ∀ e ∈ doubledGraph.edges,
      doubledGraph.hasNode e.source = true ∧ doubledGraph.hasNode e.target = true := by decide
  obtain ⟨-, nodes, sums⟩ := doubledGraph.degrees_count_edges unique
  refine ⟨unique, known, ?_, (sums known).1⟩
  rw [nodes]
  decide

end Graph

end CodeAtlas
