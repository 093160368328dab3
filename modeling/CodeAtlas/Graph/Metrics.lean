import CodeAtlas.Graph.Basic
import CodeAtlas.Text.Sorted

/-!
Figures about a graph: degrees, counts and data flows. A data flow runs through a node: back along
edges that write to it, forward along edges that read, never through a node twice and only a given
number of hops in each direction.
-/
namespace CodeAtlas

/-- A node as if nothing led to it or from it. -/
def Node.withoutDegrees (n : Node) : Node := { n with inDegree := 0, outDegree := 0 }

namespace Graph

/-! ## Degrees -/

/-- The place of the last node with an id. -/
def lastPlace? : List Node → String → Option Nat
  | [], _ => none
  | n :: rest, id => ((lastPlace? rest id).map (· + 1)).or (if n.id = id then some 0 else none)

/-- Changes the node at a place, if it is a place. -/
def changeAt (place : Option Nat) (change : Node → Node) (nodes : List Node) : List Node :=
  match place with
  | some i => nodes.modify i change
  | none => nodes

/-- Counts an edge at the places of its ends. -/
def countEdge (place? : String → Option Nat) (nodes : List Node) (e : Edge) : List Node :=
  let nodes := changeAt (place? e.source) (fun n => { n with outDegree := n.outDegree + 1 }) nodes
  changeAt (place? e.target) (fun n => { n with inDegree := n.inDegree + 1 }) nodes

/-- The graph with the degrees of its nodes, counted anew edge by edge. Of nodes with one id the
last has the edges, the others have none. -/
def withDegrees (g : Graph) : Graph :=
  { g with
    nodes := g.edges.foldl (countEdge (lastPlace? g.nodes)) (g.nodes.map Node.withoutDegrees) }

/-! ## Data flows -/

/-- The source of the first edge that writes to a node, other than from a node seen before. -/
def writer? (g : Graph) (seen : List String) (id : String) : Option String :=
  (g.edges.find? fun e =>
    e.target == id && e.label == .writesTo && !seen.contains e.source).map Edge.source

/-- The target of the first edge by which a node reads, other than from a node seen before. -/
def reader? (g : Graph) (seen : List String) (id : String) : Option String :=
  (g.edges.find? fun e =>
    e.source == id && e.label == .readsFrom && !seen.contains e.target).map Edge.target

/-- The nodes reached from a node by at most so many hops, in order, with none of `seen`. -/
def follow (next? : List String → String → Option String) :
    Nat → List String → String → List String
  | 0, _, _ => []
  | hops + 1, seen, id =>
    match next? seen id with
    | none => []
    | some found => found :: follow next? hops (found :: seen) found

/-- The data flow through a node. No more hops are made than there are edges. -/
def dataFlow (g : Graph) (start : String) (maxHops : Nat) : List String :=
  let hops := min maxHops g.edges.length
  let writers := follow g.writer? hops [start] start
  let readers := follow g.reader? hops (writers.reverse ++ [start]) start
  writers.reverse ++ start :: readers

/-- The node at which an edge starts data flows: its source if it reads, its target if it is
written to. -/
def flowStart? (e : Edge) : Option String :=
  match e.label with
  | .readsFrom => some e.source
  | .writesTo => some e.target
  | _ => none

/-- The data flows that leave their start, by start. -/
def dataFlows (g : Graph) (maxHops : Nat) : List (String × List String) :=
  ((Text.sorted (g.edges.filterMap flowStart?)).map fun id => (id, g.dataFlow id maxHops)).filter
    fun flow => 1 < flow.2.length

def flowsToJson (flows : List (String × List String)) : Json :=
  .object (flows.map fun (start, path) => (start, .ofTexts path))

/-! ## Counts -/

/-- How many nodes and edges there are, and of which sorts. -/
structure Summary where
  nodes : Nat
  edges : Nat
  nodesByKind : List (String × Nat)
  /-- Containers have no layer. -/
  nodesByLayer : List (String × Nat)
  edgesByLabel : List (String × Nat)
  deriving DecidableEq, Repr

def summary (g : Graph) : Summary where
  nodes := g.nodes.length
  edges := g.edges.length
  nodesByKind := Text.tally (g.nodes.map Node.kind)
  nodesByLayer :=
    Text.tally ((g.nodes.filter fun n => !n.isContainer).map fun n => n.data.layer.word)
  edgesByLabel := Text.tally (g.edges.map fun e => e.label.word)

def Summary.toJson (s : Summary) : Json :=
  let counts := fun (l : List (String × Nat)) => Json.object (l.map fun (k, n) => (k, .ofNat n))
  .object [("nodes", .ofNat s.nodes), ("edges", .ofNat s.edges),
    ("nodes_by_kind", counts s.nodesByKind), ("nodes_by_layer", counts s.nodesByLayer),
    ("edges_by_label", counts s.edgesByLabel)]

end Graph

end CodeAtlas
