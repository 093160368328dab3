import CodeAtlas.File.Uri
import CodeAtlas.Package.Basic

/-!
Where files come from. A file belongs to the package with the deepest root above it; files of the
language's own libraries are told by their path alone.
-/
namespace CodeAtlas

/-- The path that a file id names: a URI of the scheme `file`, or a path. -/
def pathOfFileId? (fileId : List Char) : Option (List Char) :=
  if fileId.isEmpty then none
  else if Text.startsWith "file:".toList fileId then FileUri.toPath? fileId
  else some fileId

/-- Whether a path lies in the language's own libraries. -/
def isSdkPath (path : List Char) : Bool :=
  let path := Path.withSlashes path
  Text.hasPiece "dart-sdk/lib".toList path ||
    Text.hasPiece "flutter/bin/cache/dart-sdk".toList path

/-- The one of two packages with the deeper root, the second if they are equally deep. -/
def deeper (a b : Package) : Package :=
  if (Path.components a.path.toList).length ≤ (Path.components b.path.toList).length then b else a

/-- The package that a path belongs to. -/
def owner? (path : List Char) (packages : List Package) : Option Package :=
  match packages.filter fun p => Path.isBelow path p.path.toList with
  | [] => none
  | p :: rest => some (rest.foldl deeper p)

/-- The origin of a file of a package. Files of the project's own packages count as its own. -/
def Package.originOf (p : Package) (path : List Char) : Origin where
  kind := if p.type = .custom then .project else .externalPackage
  packageName := p.name
  packageVersion := p.version
  packageType := p.type
  relativePath :=
    String.ofList (Path.withSlashes (Path.behind p.path.toList path))

def originOf (fileId : String) (packages : List Package) : Origin :=
  match pathOfFileId? fileId.toList with
  | none => .project
  | some path =>
    if isSdkPath path then { kind := .sdk, packageType := some .sdk }
    else
      match owner? path packages with
      | none => .project
      | some p => p.originOf path

end CodeAtlas
