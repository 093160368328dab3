import CodeAtlas.Package.Origin

/-!
What the manifest of a project says about its packages, and the sort of a package that follows from
its name, its path and the manifest.
-/
namespace CodeAtlas

/-- What the manifest of a project says. -/
structure Manifest where
  root : String := ""
  /-- Packages that the project takes from a path. -/
  pathPackages : List String := []
  /-- Packages that only the project's development needs. -/
  developmentPackages : List String := []
  deriving DecidableEq, Repr

/-- Whether a package is the project's own: it lies below the project, or the manifest names it. -/
def Manifest.owns (m : Manifest) (name : String) (path : List Char) : Bool :=
  (m.root != "" && Path.isBelow path m.root.toList) || m.pathPackages.contains name ||
    m.developmentPackages.contains name

/-- Packages that come with the framework. -/
def frameworkPackages : List String :=
  ["flutter", "flutter_test", "flutter_web_plugins", "flutter_driver", "integration_test",
    "flutter_localizations", "material", "cupertino"]

def packageTypeOf (name : String) (path : List Char) (m : Manifest) : PackageType :=
  if m.owns name path then .custom
  else if frameworkPackages.contains name || Text.startsWith "flutter_".toList name.toList then
    .flutterOfficial
  else if Text.hasPiece "dart-sdk".toList (Path.withSlashes path) then .sdk
  else .thirdParty

/-- The library that a package is entered by: the one with its name, or the first of its files. -/
def Package.entryLibrary? (p : Package) : Option String :=
  let named := Path.join (Path.join p.path.toList "lib".toList) (p.name.toList ++ ".dart".toList)
  (p.sources.find? fun f => Path.same f.toList named) <|> p.sources.head?

end CodeAtlas
