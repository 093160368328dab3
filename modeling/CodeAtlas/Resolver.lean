import CodeAtlas.Declaration.Heritage
import CodeAtlas.Symbol.Id
import CodeAtlas.TypeName

/-!
What a run knows about the declarations of a program: where each type is declared, and what each
class is related to. `Resolver.resolve` remembers its answers by the name as it was written.
-/
namespace CodeAtlas

/-! ## Types -/

/-- The declared types in order, and the references given so far, latest first. -/
structure Resolver where
  definitions : List TypeDefinition := []
  cache : List (String × TypeReference) := []
  deriving Repr

namespace Resolver

/-- The declaration that a symbol makes, if it declares a type. -/
def definition? (s : Symbol) : Option TypeDefinition :=
  if s.kind.declaresType then
    some ⟨s.name, s.kind, s.fileId, s.selection, isSdkFile s.fileId⟩
  else none

/-- The types declared in files: files in order, each symbol before the ones nested in it. -/
def definitionsOf (files : List SourceFile) : List TypeDefinition :=
  (files.flatMap SourceFile.preorder).filterMap definition?

/-- Takes the declarations from files. What was resolved before is kept. -/
def index (r : Resolver) (files : List SourceFile) : Resolver :=
  { r with definitions := definitionsOf files }

/-- Forgets the declarations and what was resolved. -/
def clear (_ : Resolver) : Resolver := {}

/-- A reference to a type: the first declaration of its base name counts. -/
def lookup (definitions : List TypeDefinition) (name : String) : TypeReference :=
  let base := String.ofList (TypeName.base name.toList)
  ⟨name, definitions.find? fun d => d.name = base⟩

/-- The reference for a name as written, the same as before if it was asked for before. -/
def resolve (name : String) : StateM Resolver TypeReference := fun r =>
  match r.cache.lookup name with
  | some found => (found, r)
  | none =>
    let found := lookup r.definitions name
    (found, { r with cache := (name, found) :: r.cache })

end Resolver

/-! ## Relations of classes -/

/-- Relations by file and class name, as recorded. -/
structure RelationIndex where
  entries : List ((String × String) × Relations) := []
  deriving Repr

namespace RelationIndex

/-- Records relations in place of earlier ones for the same file and name. -/
def insert (x : RelationIndex) (fileId name : String) (r : Relations) : RelationIndex :=
  ⟨((fileId, name), r) :: x.entries.filter fun e => e.1 ≠ (fileId, name)⟩

/-- Records the relations that a class states. -/
def addSymbol (x : RelationIndex) (s : Symbol) : RelationIndex :=
  if s.kind = .classDecl ∧ s.detail ≠ "" then
    let r := Heritage.parse s.detail.toList
    if r.isEmpty then x else x.insert s.fileId s.name r
  else x

/-- The relations of all classes in files. -/
def ofFiles (files : List SourceFile) : RelationIndex :=
  (files.flatMap SourceFile.preorder).foldl addSymbol {}

/-- The relations recorded under the bare name of a class. -/
def find? (x : RelationIndex) (fileId name : String) : Option Relations :=
  x.entries.lookup (fileId, String.ofList (TypeName.bare name.toList))

/-- The number of classes with relations. -/
def size (x : RelationIndex) : Nat := x.entries.length

end RelationIndex

end CodeAtlas
