import CodeAtlas.Symbol.Basic
import CodeAtlas.Text.Cut

/-!
Identities: the id of a symbol's node in the graph, made of its file, container, kind and name,
and the test that tells files of the language's own libraries by their id.
-/
namespace CodeAtlas

/-- The file that stands in for a missing one. -/
def unknownFile : String := "unknown_uri"

/-- The name given to a constructor that has only its class's name. -/
def unnamedConstructor : String := "_default_"

/-- The id of the node of a symbol inside a container. -/
def nodeId (s : Symbol) (container : Option String) : String :=
  let file := if s.fileId = "" then unknownFile else s.fileId
  match container with
  | none => file ++ "#kind:" ++ s.kind.tag ++ "#name:" ++ s.name
  | some parent =>
    let name := if s.kind = .constructor ∧ s.name = parent then unnamedConstructor else s.name
    file ++ "#parent:" ++ parent ++ "#kind:" ++ s.kind.tag ++ "#name:" ++ name

/-- Whether a file id is one of the language's own libraries. -/
def isSdkFile (fileId : String) : Bool := Text.hasPiece "/dart-sdk/lib/".toList fileId.toList

end CodeAtlas
