import CodeAtlas.Package.Basic

/-!
Graphs of a program: nodes for symbols, packages and the project, labelled edges between them.
-/
namespace CodeAtlas

/-- What an edge says of its source. -/
inductive EdgeLabel where
  | calls
  | inherits
  | implements
  | instanceOf
  | usesAsType
  | readsFrom
  | writesTo
  | passesAsArgument
  deriving DecidableEq, Repr

namespace EdgeLabel

def word : EdgeLabel → String
  | calls => "CALLS"
  | inherits => "EXTENDS"
  | implements => "IMPLEMENTS"
  | instanceOf => "INSTANCE_OF"
  | usesAsType => "USES_AS_TYPE"
  | readsFrom => "READS_FROM"
  | writesTo => "WRITES_TO"
  | passesAsArgument => "PASSES_AS_ARGUMENT"

/-- All labels. -/
def all : List EdgeLabel :=
  [calls, inherits, implements, instanceOf, usesAsType, readsFrom, writesTo, passesAsArgument]

/-- The label with a given word. -/
def ofWord? (s : String) : Option EdgeLabel := all.find? fun l => l.word == s

def toJson (l : EdgeLabel) : Json := .string l.word

def ofJson? (j : Json) : Option EdgeLabel := j.tag?.bind ofWord?

theorem ofWord_word (l : EdgeLabel) : ofWord? l.word = some l := by cases l <;> decide

end EdgeLabel

/-- The part that a class plays in the architecture. -/
inductive Layer where
  | view
  | state
  | service
  | model
  | utility
  /-- Not a class. -/
  | member
  deriving DecidableEq, Repr

namespace Layer

def word : Layer → String
  | view => "view"
  | state => "state"
  | service => "service"
  | model => "model"
  | utility => "utility"
  | member => "member"

def ofJson? (j : Json) : Option Layer := do
  let s ← j.tag?
  [view, state, service, model, utility, member].find? fun l => l.word == s

end Layer

/-- What a node says of its symbol. -/
structure NodeData where
  fileId : String
  range : Option Range
  selection : Option Range
  access : Option Access
  isSdk : Bool
  layer : Layer
  origin : Option Origin := none
  deriving DecidableEq, Repr

structure Node where
  id : String
  label : String
  kind : String
  data : NodeData
  parent : Option String := none
  inDegree : Nat := 0
  outDegree : Nat := 0
  deriving DecidableEq, Repr

/-- The kind of a package's node. -/
def packageKind : String := "package_container"

/-- The kind of the project's node. -/
def projectKind : String := "project_container"

/-- Whether a node stands for a package or the project. -/
def Node.isContainer (n : Node) : Bool := n.kind == packageKind || n.kind == projectKind

structure Edge where
  id : String
  source : String
  target : String
  label : EdgeLabel
  deriving DecidableEq, Repr

structure Graph where
  nodes : List Node := []
  edges : List Edge := []
  deriving DecidableEq, Repr

namespace Graph

/-- The first node with an id. -/
def node? (g : Graph) (id : String) : Option Node := g.nodes.find? fun n => n.id == id

/-- Whether a node has the id. -/
def hasNode (g : Graph) (id : String) : Bool := g.nodes.any fun n => n.id == id

theorem hasNode_iff {g : Graph} {id : String} :
    g.hasNode id = true ↔ id ∈ g.nodes.map Node.id := by
  simp [hasNode]

end Graph

/-! ## JSON -/

/-- Node data as JSON; an unknown origin is left out. -/
def NodeData.toJson (d : NodeData) : Json :=
  .object ([("fileId", .string d.fileId), ("range", .ofOption Range.toJson d.range),
      ("selectionRange", .ofOption Range.toJson d.selection),
      ("access", .ofOption (fun a => .string a.word) d.access), ("isSdk", .bool d.isSdk),
      ("layer", .string d.layer.word)] ++
    memberIfSome "source" Origin.toJson d.origin)

def NodeData.ofJson? (j : Json) : Option NodeData := do
  let r ← j.record? ["fileId", "range", "selectionRange", "access", "isSdk", "layer", "source"]
  return {
    fileId := ← r.required "fileId" Json.text?
    range := ← r.nullable "range" Range.ofJson?
    selection := ← r.nullable "selectionRange" Range.ofJson?
    access := ← r.nullable "access" Access.ofJson?
    isSdk := ← r.required "isSdk" Json.bool?
    layer := ← r.required "layer" Layer.ofJson?
    origin := ← r.withDefault "source" none (Json.orNull? Origin.ofJson?) }

def Node.toJson (n : Node) : Json :=
  .object [("id", .string n.id), ("label", .string n.label), ("kind", .string n.kind),
    ("data", n.data.toJson), ("parent", .ofText? n.parent), ("inDegree", .ofNat n.inDegree),
    ("outDegree", .ofNat n.outDegree)]

def Node.ofJson? (j : Json) : Option Node := do
  let r ← j.record? ["id", "label", "kind", "data", "parent", "inDegree", "outDegree"]
  return {
    id := ← r.required "id" Json.text?
    label := ← r.required "label" Json.text?
    kind := ← r.required "kind" Json.text?
    data := ← r.required "data" NodeData.ofJson?
    parent := ← r.nullable "parent" Json.text?
    inDegree := ← r.required "inDegree" Json.uint64?
    outDegree := ← r.required "outDegree" Json.uint64? }

def Edge.toJson (e : Edge) : Json :=
  .object [("id", .string e.id), ("source", .string e.source), ("target", .string e.target),
    ("label", e.label.toJson)]

def Graph.toJson (g : Graph) : Json :=
  .object [("nodes", .ofList Node.toJson g.nodes), ("edges", .ofList Edge.toJson g.edges)]

end CodeAtlas
