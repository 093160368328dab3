import CodeAtlas.Json.Record
import CodeAtlas.Symbol.Codec

/-!
Packages that a program depends on, and the origin of a file: the program itself, one of its
packages or the libraries of the language.
-/
namespace CodeAtlas

/-- What sort of package it is. -/
inductive PackageType where
  | sdk
  | flutterOfficial
  | thirdParty
  | custom
  deriving DecidableEq, Repr

namespace PackageType

/-- The word for a sort of package. -/
def word : PackageType → String
  | sdk => "sdk"
  | flutterOfficial => "flutter_official"
  | thirdParty => "third_party"
  | custom => "custom"

/-- The sort of package with a given word. -/
def ofWord? (s : String) : Option PackageType :=
  [sdk, flutterOfficial, thirdParty, custom].find? fun t => t.word == s

/-- A sort of package as JSON. -/
def toJson (t : PackageType) : Json := .string t.word

def ofJson? (j : Json) : Option PackageType := j.tag?.bind ofWord?

end PackageType

structure Package where
  name : String
  path : String
  version : String
  type : PackageType
  /-- Source files in its library folder, at most as many as the configuration says. -/
  sources : List String
  hasLibrary : Bool
  usesFlutter : Bool
  description : Option String
  deriving DecidableEq, Repr

def Package.toJson (p : Package) : Json :=
  .object [("name", .string p.name), ("path", .string p.path), ("version", .string p.version),
    ("packageType", p.type.toJson), ("dartFiles", .ofTexts p.sources),
    ("hasLibFolder", .bool p.hasLibrary), ("isFlutterPackage", .bool p.usesFlutter),
    ("description", .ofText? p.description)]

def Package.ofJson? (j : Json) : Option Package := do
  let r ← j.record? ["name", "path", "version", "packageType", "dartFiles", "hasLibFolder",
    "isFlutterPackage", "description"]
  return {
    name := ← r.required "name" Json.text?
    path := ← r.required "path" Json.text?
    version := ← r.required "version" Json.text?
    type := ← r.required "packageType" PackageType.ofJson?
    sources := ← r.required "dartFiles" (Json.list? Json.text?)
    hasLibrary := ← r.required "hasLibFolder" Json.bool?
    usesFlutter := ← r.required "isFlutterPackage" Json.bool?
    description := ← r.nullable "description" Json.text? }

/-- Where a file comes from. -/
inductive OriginKind where
  | project
  | externalPackage
  | sdk
  deriving DecidableEq, Repr

def OriginKind.word : OriginKind → String
  | project => "project"
  | externalPackage => "external_package"
  | sdk => "sdk"

def OriginKind.ofJson? (j : Json) : Option OriginKind := do
  let s ← j.tag?
  [project, externalPackage, sdk].find? fun k => k.word == s

/-- The origin of a file, with its package and its path in it where they are known. -/
structure Origin where
  kind : OriginKind
  packageName : Option String := none
  packageVersion : Option String := none
  packageType : Option PackageType := none
  relativePath : Option String := none
  deriving DecidableEq, Repr

/-- The origin of the program's own files. -/
def Origin.project : Origin := { kind := .project }

/-- An origin as JSON; what is not known is left out. -/
def Origin.toJson (o : Origin) : Json :=
  .object (("kind", .string o.kind.word) ::
    memberIfSome "packageName" Json.string o.packageName ++
    memberIfSome "packageVersion" Json.string o.packageVersion ++
    memberIfSome "packageType" PackageType.toJson o.packageType ++
    memberIfSome "relativePath" Json.string o.relativePath)

def Origin.ofJson? (j : Json) : Option Origin := do
  let r ← j.record? ["kind", "packageName", "packageVersion", "packageType", "relativePath"]
  let text? := fun key => r.withDefault key none (Json.orNull? Json.text?)
  return {
    kind := ← r.required "kind" OriginKind.ofJson?
    packageName := ← text? "packageName"
    packageVersion := ← text? "packageVersion"
    packageType := ← r.withDefault "packageType" none (Json.orNull? PackageType.ofJson?)
    relativePath := ← text? "relativePath" }

end CodeAtlas
