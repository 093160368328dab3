import CodeAtlas.Graph.Layer
import CodeAtlas.Symbol.Id

/-!
Building a graph. A `Builder` holds the graph so far together with the symbols that its nodes were
made from. A symbol seen again makes no second node, but takes the place of the one seen before;
an edge needs two different known ends and is made once for each label. Which nodes and edges there
are is written down beside the graph, so that neither is searched for in it.
-/
namespace CodeAtlas

/-- A symbol with the text of its file. -/
structure Visited where
  tree : SymbolTree
  text : String

structure Builder where
  graph : Graph := {}
  /-- The ids of all nodes, latest first. -/
  known : List String := []
  /-- Where the nodes stand in the graph, by their ids, latest first. -/
  places : List (String × Nat) := []
  /-- Ids of the nodes made from symbols, in order. -/
  order : List String := []
  /-- The symbols seen, by the ids of their nodes, latest first. -/
  symbols : List (String × Visited) := []
  /-- The ends and labels of all edges, latest first. -/
  joined : List (String × String × EdgeLabel) := []
  /-- The number of the next edge. -/
  nextEdge : Nat := 0

namespace Builder

/-- Whether a node has the id. -/
def hasNode (b : Builder) (id : String) : Bool := b.known.contains id

def node? (b : Builder) (id : String) : Option Node := do b.graph.nodes[← b.places.lookup id]?

/-- The symbol seen last for a node. -/
def symbol? (b : Builder) (id : String) : Option Visited := b.symbols.lookup id

/-- Puts a node at the end of the graph and into the books. -/
def pushNode (b : Builder) (n : Node) : Builder :=
  { b with
    graph := { b.graph with nodes := b.graph.nodes ++ [n] }
    known := n.id :: b.known
    places := (n.id, b.graph.nodes.length) :: b.places }

/-- Adds a node whose id is new, and says whether it did. -/
def addNode (b : Builder) (n : Node) : Bool × Builder :=
  if b.hasNode n.id then (false, b) else (true, b.pushNode n)

/-- Puts an edge with the next number at the end of the graph and into the books. -/
def pushEdge (b : Builder) (source target : String) (label : EdgeLabel) : Builder :=
  let edge : Edge := ⟨"e" ++ toString b.nextEdge, source, target, label⟩
  { b with
    graph := { b.graph with edges := b.graph.edges ++ [edge] }
    joined := (source, target, label) :: b.joined
    nextEdge := b.nextEdge + 1 }

/-- Adds an edge with a new id between two different nodes, unless it is there, and says whether it
did. -/
def addEdge (b : Builder) (source target : String) (label : EdgeLabel) : Bool × Builder :=
  if source = "" ∨ source = target ∨ !b.hasNode source ∨ !b.hasNode target then (false, b)
  else if (source, target, label) ∈ b.joined then (false, b)
  else (true, b.pushEdge source target label)

/-! ## Symbols -/

/-- The container that encloses a symbol: its name and the id of its node. -/
structure Enclosing where
  name : String
  nodeId : String

/-- The file of a symbol's node: that of the symbol, that of the file it was found in, or the one
that stands in for both. -/
def fileOf (s : Symbol) (f : SourceFile) : String :=
  if s.fileId ≠ "" then s.fileId else if f.fileId ≠ "" then f.fileId else unknownFile

def nodeOf (t : SymbolTree) (f : SourceFile) (id : String) (enclosing : Option Enclosing) : Node :=
  let s := t.symbol
  { id
    label := s.name
    kind := s.kind.name
    data := {
      fileId := fileOf s f
      range := s.range
      selection := s.selection
      access := s.access
      isSdk := s.isSdk
      layer := layerOf t s.relations }
    parent := enclosing.map Enclosing.nodeId }

/-- Records a symbol under its node, which is made if it is not there. -/
def visit (b : Builder) (t : SymbolTree) (f : SourceFile) (enclosing : Option Enclosing) :
    Builder :=
  let id := nodeId t.symbol (enclosing.map Enclosing.name)
  let (added, b) := b.addNode (nodeOf t f id enclosing)
  { b with
    order := if added then b.order ++ [id] else b.order
    symbols := (id, ⟨t, f.text⟩) :: b.symbols }

/-- What encloses the symbols nested in a symbol. -/
def within (t : SymbolTree) (enclosing : Option Enclosing) : Option Enclosing :=
  if t.isContainer then
    some ⟨t.symbol.name, nodeId t.symbol (enclosing.map Enclosing.name)⟩
  else enclosing

mutual

/-- Adds a symbol and the symbols nested in it. -/
def addTree (f : SourceFile) (enclosing : Option Enclosing) (b : Builder) : SymbolTree → Builder
  | ⟨s, children⟩ =>
    addTrees f (within ⟨s, children⟩ enclosing) (b.visit ⟨s, children⟩ f enclosing) children

/-- Adds symbols one after another. -/
def addTrees (f : SourceFile) (enclosing : Option Enclosing) (b : Builder) :
    List SymbolTree → Builder
  | [] => b
  | t :: rest => addTrees f enclosing (addTree f enclosing b t) rest

end

/-- Adds the symbols of a file. -/
def addFile (b : Builder) (f : SourceFile) : Builder := addTrees f none b f.symbols

/-- Adds the symbols of files. -/
def addFiles (b : Builder) (files : List SourceFile) : Builder := files.foldl addFile b

end Builder

end CodeAtlas
