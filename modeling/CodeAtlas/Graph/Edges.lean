import CodeAtlas.Graph.Builder
import CodeAtlas.Service.Inquiry
import CodeAtlas.Source
import CodeAtlas.Source.CallSites
import CodeAtlas.Text.Sorted

/-!
The edges between symbols. Classes lead to the first class with the name of what they extend or
implement. A callable leads to every symbol whose name stands at a call site in its body: to
methods and functions as calls, to other symbols as reads if the language service finds a reference
to them inside the callable.
-/
namespace CodeAtlas.Builder

/-! ## Inheritance -/

/-- The first class with the name of a related type. -/
def classNamed? (b : Builder) (target : RelationTarget) : Option String :=
  let name := String.ofList (TypeName.bare target.label.toList)
  (b.graph.nodes.find? fun n => n.kind == SymbolKind.classDecl.name && n.label == name).map (·.id)

/-- The related types that give edges, with their labels. -/
def supertypes (r : Relations) : List (RelationTarget × EdgeLabel) :=
  r.superclass.toList.map (·, .inherits) ++ r.implements.map (·, .implements)

/-- The edges from a symbol to the classes that it extends and implements. -/
def inheritanceOf (b : Builder) (id : String) : List (String × String × EdgeLabel) :=
  match (b.symbol? id).bind fun v => v.tree.symbol.relations with
  | none => []
  | some r => (supertypes r).filterMap fun (target, label) =>
      (b.classNamed? target).map fun found => (id, found, label)

/-- Adds the edges from classes to what they extend and implement. -/
def addInheritanceEdges (b : Builder) : Builder :=
  (b.order.flatMap b.inheritanceOf).foldl (fun b (s, t, label) => (b.addEdge s t label).2) b

/-! ## Calls and reads -/

/-- Kinds of nodes that call. -/
def callerKinds : List String :=
  [SymbolKind.method.name, SymbolKind.function.name, SymbolKind.constructor.name]

/-- Kinds of nodes that are called. -/
def calleeKinds : List String := [SymbolKind.method.name, SymbolKind.function.name]

/-- Whether the node with an id is of one of the kinds. -/
def isOfKind (b : Builder) (kinds : List String) (id : String) : Bool :=
  (b.node? id).any fun n => kinds.contains n.kind

/-- The name of the symbol of a node. -/
def nameOf? (b : Builder) (id : String) : Option String :=
  (b.symbol? id).map fun v => v.tree.symbol.name

/-- The nodes made from symbols with a name, in order. -/
def named (b : Builder) (name : String) : List String :=
  b.order.filter fun id => b.nameOf? id == some name

/-- The names at the call sites in the body of a symbol, sorted. -/
def mentions (v : Visited) : List String :=
  match v.tree.symbol.range with
  | none => []
  | some range =>
    let body := range.slice v.text.toList
    Text.sorted ((Source.callSites (Source.code body)).map String.ofList)

/-- The symbols that a node's body mentions, other than itself, by name and then in order. -/
def mentioned (b : Builder) (id : String) : List String :=
  match b.symbol? id with
  | none => []
  | some v => (mentions v).flatMap fun name => (b.named name).filter (· ≠ id)

/-- Callables with the symbols that they mention. -/
def mentionPairs (b : Builder) : List (String × String) :=
  (b.order.filter (b.isOfKind callerKinds)).flatMap fun id => (b.mentioned id).map (id, ·)

/-- The first method or function of the file of a reference that spans its line. -/
def enclosing? (b : Builder) (l : Location) : Option String :=
  (b.graph.nodes.find? fun n =>
    n.data.fileId == l.fileId && calleeKinds.contains n.kind &&
      n.data.range.any (·.containsLine l.range.start.line)).map (·.id)

/-- Whether one of the references to a symbol stands in the given callable. -/
def readBy (b : Builder) (source : String) (references : List Location) : Bool :=
  references.any fun l => b.enclosing? l == some source

/-- The question for the references to the symbol of a node. -/
def referencesOf? (b : Builder) (target : String) : Option (String × Position) := do
  let v ← b.symbol? target
  let selection ← v.tree.symbol.selection
  return (v.tree.symbol.fileId, selection.start)

/-- Adds the edge of a read if a reference confirms it. -/
def addRead (b : Builder) (source target : String) : Inquiry Builder :=
  match b.referencesOf? target with
  | none => return b
  | some (fileId, position) => do
    match ← Inquiry.query (.references fileId position) with
    | none => return b
    | some references =>
      return if b.readBy source references then (b.addEdge source target .readsFrom).2 else b

/-- Adds the edge from a callable to a symbol that it mentions. -/
def addMention (readsFrom : Bool) (b : Builder) (pair : String × String) : Inquiry Builder :=
  -- what can be called is never read
  if b.isOfKind calleeKinds pair.2 then return (b.addEdge pair.1 pair.2 .calls).2
  else if readsFrom then b.addRead pair.1 pair.2
  else return b

/-- Adds the edges between symbols. -/
def addEdges (b : Builder) (readsFrom : Bool) : Inquiry Builder :=
  let b := b.addInheritanceEdges
  b.mentionPairs.foldlM (addMention readsFrom) b

end CodeAtlas.Builder
