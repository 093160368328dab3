import CodeAtlas.Enrichment.Steps
import CodeAtlas.Graph.Basic

/-!
Consistency of filled-in symbols and of the finished graph. Nothing here stops a run: what is found
wrong is a `Finding`, and a `Report` collects the wording of findings. Links from symbols to the
symbols that enclose them are checked while the symbols are walked through, against those seen
before.
-/
namespace CodeAtlas

/-- Something found wrong. -/
inductive Finding where
  /-- A constructor has a declaration, but its parameters are not known. -/
  | noParameters (constructor : String)
  /-- A symbol names an enclosing symbol that has not been seen. -/
  | unknownEnclosing (symbol parentId : String)
  /-- A constructor is enclosed by something that is no class. -/
  | notInClass (constructor parent : String)
  /-- A constructor sets a field that its class does not have. -/
  | unknownField (constructor field parent : String)
  /-- A node names a parent that is no node. -/
  | unknownParent (node parent : String)
  /-- An edge ends at no node. -/
  | unknownEnd (edge : Edge) (node : String)
  deriving DecidableEq, Repr

namespace Finding

/-- Whether a finding is an error; if not it is a warning. -/
def isError : Finding → Bool
  | noParameters _ | unknownField _ _ _ => false
  | _ => true

def message : Finding → String
  | noParameters c => "Constructor '" ++ c ++ "' has detail but no parameters were extracted"
  | unknownEnclosing s p => "parentId '" ++ p ++ "' of '" ++ s ++ "' is not a known symbol"
  | notInClass c p => "Constructor '" ++ c ++ "' belongs to '" ++ p ++ "', which is not a class"
  | unknownField c f p =>
    "Constructor '" ++ c ++ "' assigns this." ++ f ++ ", which is not a member of '" ++ p ++ "'"
  | unknownParent n p => "Node '" ++ n ++ "' has unknown parent '" ++ p ++ "'"
  | unknownEnd e n =>
    "Edge '" ++ e.id ++ "' (" ++ e.label.word ++ ") points at unknown node '" ++ n ++ "'"

end Finding

/-- Errors and warnings. -/
structure Report where
  errors : List String := []
  warnings : List String := []
  deriving DecidableEq, Repr

namespace Report

/-- The report of findings, in order. -/
def ofFindings (findings : List Finding) : Report where
  errors := (findings.filter Finding.isError).map Finding.message
  warnings := (findings.filter fun f => !f.isError).map Finding.message

/-- Whether nothing was found. -/
def isClean (r : Report) : Bool := r.errors.isEmpty && r.warnings.isEmpty

/-- A report with another one behind it. -/
def merge (a b : Report) : Report := ⟨a.errors ++ b.errors, a.warnings ++ b.warnings⟩

def toJson (r : Report) : Json :=
  .object [("errors", .ofTexts r.errors), ("warnings", .ofTexts r.warnings)]

end Report

/-! ## Symbols -/

/-- The symbols seen so far by their ids, latest first. -/
abbrev Seen := List (String × SymbolTree)

/-- What is wrong between a constructor and the symbol that it names as enclosing it. -/
def constructorFindings (c : Symbol) (parent : SymbolTree) : List Finding :=
  let members := parent.children.map fun m => m.symbol.name
  let fields := (c.parameters.getD []).filterMap Enrichment.selfFieldOf?
  (if parent.symbol.kind = .classDecl then [] else [.notInClass c.name parent.symbol.name]) ++
    (fields.filter fun f => !members.contains f).map fun f =>
      .unknownField c.name f parent.symbol.name

/-- What is wrong with a symbol, when those in `seen` and the symbol itself are known. -/
def symbolFindings (seen : Seen) (s : Symbol) : List Finding :=
  (if s.kind = .constructor ∧ s.parameters.isNone ∧ s.detail ≠ "" then [.noParameters s.name]
    else []) ++
  match s.parentId with
  | none => []
  | some id =>
    match seen.lookup id with
    | none => [.unknownEnclosing s.name id]
    | some parent => if s.kind = .constructor then constructorFindings s parent else []

mutual

/-- What is wrong in a tree, and the symbols seen behind it. -/
def treeFindings (seen : Seen) : SymbolTree → List Finding × Seen
  | ⟨s, children⟩ =>
    let seen := (s.uniqueId, ⟨s, children⟩) :: seen
    let (found, after) := treesFindings seen children
    (symbolFindings seen s ++ found, after)

/-- What is wrong in trees, and the symbols seen behind them. -/
def treesFindings (seen : Seen) : List SymbolTree → List Finding × Seen
  | [] => ([], seen)
  | t :: rest =>
    let (found, seen) := treeFindings seen t
    let (more, seen) := treesFindings seen rest
    (found ++ more, seen)

end

/-- What is wrong with the symbols of files. -/
def filesReport (files : List SourceFile) : Report :=
  .ofFindings (treesFindings [] (files.flatMap SourceFile.symbols)).1

/-! ## Graphs -/

namespace Graph

/-- Parents and ends of edges that are no nodes. -/
def findings (g : Graph) : List Finding :=
  (g.nodes.filterMap fun n =>
    (n.parent.filter fun p => !g.hasNode p).map fun p => .unknownParent n.id p) ++
  g.edges.flatMap fun e =>
    ([e.source, e.target].filter fun id => !g.hasNode id).map fun id => .unknownEnd e id

def report (g : Graph) : Report := .ofFindings g.findings

end Graph

end CodeAtlas
