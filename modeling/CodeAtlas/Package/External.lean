import CodeAtlas.File.Disk
import CodeAtlas.Graph.Packages
import CodeAtlas.Package.Manifest
import CodeAtlas.Service.Inquiry
import CodeAtlas.Symbol.Codec

/-!
The public declarations of the packages that a project depends on. Of each relevant package only the
library that it is entered by is asked for, and of that only public declarations that say something.
A package whose symbols cannot be had is left out.
-/
namespace CodeAtlas

/-- Words that tell members found in every class. -/
def trivialMembers : List String :=
  ["toString", "hashCode", "operator", "runtimeType", "noSuchMethod", "now", "parse", "tryParse"]

/-- Whether a name is public. -/
def isPublicName (name : String) : Bool := !Text.startsWith ['_'] name.toList

/-- Whether a declaration at the top of a library is kept: a public class, enumeration or function
with a name of more than two characters. -/
def Symbol.isPublicDeclaration (s : Symbol) : Bool :=
  (s.kind = .classDecl || s.kind = .enumDecl || s.kind = .function) && isPublicName s.name &&
    2 < s.name.length

/-- Whether a member of a declaration is kept: a public one without a trivial word in its name. -/
def Symbol.isPublicMember (s : Symbol) : Bool :=
  isPublicName s.name && !trivialMembers.any fun word => Text.hasPiece word.toList s.name.toList

/-- A declaration with the members that are kept. -/
def SymbolTree.publicPart (t : SymbolTree) : SymbolTree :=
  ⟨t.symbol, t.children.filter fun c => c.symbol.isPublicMember⟩

def publicParts (trees : List SymbolTree) : List SymbolTree :=
  (trees.filter fun t => t.symbol.isPublicDeclaration).map SymbolTree.publicPart

/-- The public declarations of a library, if the service knows its symbols. -/
def publicLibrary (disk : Disk) (path : String) : Inquiry (Option SourceFile) :=
  match FileUri.ofPath? path.toList with
  | none => return none
  | some uri => do
    let fileId := String.ofList uri
    match ← Inquiry.query (.symbols fileId) with
    | none => return none
    | some raw =>
      return some {
        fileId
        text := String.ofList ((disk.text? path.toList).getD [])
        symbols := publicParts (symbolsOfRaw fileId raw) }

/-- The libraries that relevant packages are entered by. -/
def entryLibraries (packages : List Package) (f : Filters) : List String :=
  ((relevantPackages packages f).filter Package.hasLibrary).filterMap Package.entryLibrary?

/-- The public declarations of the packages; files without any are left out. -/
def externalFiles (disk : Disk) (packages : List Package) (f : Filters) :
    Inquiry (List SourceFile) := do
  let found ← (entryLibraries packages f).mapM (publicLibrary disk)
  return (found.filterMap id).filter fun file => !file.symbols.isEmpty

end CodeAtlas
