import CodeAtlas.Fault
import CodeAtlas.Json.Parser
import CodeAtlas.Package.Pubspec

/-!
The packages that a project depends on, found on the disk. The project is the nearest folder with a
manifest; a list that its tools write names the packages and their folders. Entries without name
or folder, and packages that are not there, are left out.
-/
namespace CodeAtlas

/-! ## The project -/

/-- A path and the folders that it lies in, innermost first. -/
def ancestors : Nat → List Char → List (List Char)
  | 0, _ => []
  | fuel + 1, path =>
    path :: match Path.parent? path with
      | some folder => ancestors fuel folder
      | none => []

/-- The nearest folder with a manifest, at most `levels` above the start. -/
def projectRoot? (disk : Disk) (levels : Nat) (start : List Char) : Option (List Char) := do
  let start := (disk.canonical? start).getD start
  let folder ← if disk.isFile start then Path.parent? start else some start
  ((ancestors (folder.length + 1) folder).take (levels + 1)).find? fun folder =>
    disk.isFile (Path.join folder manifestName.toList)

/-- The folder that a package's root names: a URI of the scheme `file`, or a path from the folder
of the list. -/
def packageFolder? (disk : Disk) (listFolder uri : List Char) : Option (List Char) :=
  if Text.startsWith "file:".toList uri then FileUri.toPath? uri
  else
    let path := Path.join listFolder (uri.reverse.dropWhile (· == '/')).reverse
    some ((disk.canonical? path).getD path)

/-! ## One package -/

/-- Whether the names of folders that lead to a file are not hidden. -/
def isVisible (names : List String) : Bool :=
  names.dropLast.all fun name => !Text.startsWith ['.'] name.toList

/-- The source files below a library folder, at most `depth` folders deep and at most `count`. A
depth of all ones leaves none. -/
def sourcesBelow (disk : Disk) (library : List Char) (depth : UInt64) (count : Nat) :
    List (List Char) :=
  let near := (disk.filesBelow library).filter fun names =>
    -- the file itself counts as a level; the sum is taken in machine words
    names.length ≤ (depth + 1).toNat && isVisible names
  ((near.map (Disk.below library)).filter Path.isSource).take count

/-- The package with a name in a folder. -/
def Package.load (disk : Disk) (m : Manifest) (l : Limits) (name : String) (folder : List Char) :
    Except Fault Package := do
  if !disk.exists? folder then throw (.noPackage (String.ofList folder))
  let pubspec := Pubspec.load disk folder
  let library := Path.join folder "lib".toList
  let hasLibrary := disk.isFolder library
  return {
    name
    path := String.ofList folder
    version := pubspec.versionText?.getD "unknown"
    type := packageTypeOf name folder m
    sources := if hasLibrary then
        (sourcesBelow disk library l.packageDepth l.packageFiles).map String.ofList
      else []
    hasLibrary
    usesFlutter := pubspec.usesFlutter
    description := pubspec.summary? }

/-! ## All packages -/

/-- An entry of the list of packages. -/
structure PackageEntry where
  name : Option String
  root : Option String

/-- Reads an entry of the list of packages. -/
def PackageEntry.ofJson? (j : Json) : Option PackageEntry := do
  let r ← j.record? ["name", "rootUri"]
  return ⟨← r.nullable "name" Json.text?, ← r.nullable "rootUri" Json.text?⟩

/-- Reads the list of packages. -/
def packageList? (text : List Char) : Option (List PackageEntry) := do
  let r ← (← Json.outline? text).record? ["packages"]
  r.withDefault "packages" [] (Json.list? PackageEntry.ofJson?)

/-- The package that an entry names, if it is there. -/
def PackageEntry.load? (disk : Disk) (m : Manifest) (l : Limits) (listFolder : List Char)
    (e : PackageEntry) : Option Package := do
  let name ← e.name
  let folder ← packageFolder? disk listFolder (← e.root).toList
  (Package.load disk m l name folder).toOption

/-- The packages of the project at or above a path. -/
def discoverPackages (disk : Disk) (l : Limits) (start : List Char) :
    Except Fault (List Package) := do
  match projectRoot? disk l.rootLevels start with
  | none => throw (.noManifest (String.ofList start))
  | some root =>
    let listFolder := Path.join root ".dart_tool".toList
    let list := Path.join listFolder "package_config.json".toList
    if !disk.isFile list then throw (.noManifest (String.ofList list))
    match disk.text? list with
    | none => throw .file
    | some text =>
      match packageList? text with
      | none => throw .json
      | some entries =>
        return entries.filterMap (PackageEntry.load? disk (Manifest.load disk root) l listFolder)

/-- The packages of the project at or above a path; none if they cannot be found. -/
def packagesOf (disk : Disk) (l : Limits) (start : List Char) : List Package :=
  (discoverPackages disk l start).toOption.getD []

end CodeAtlas
