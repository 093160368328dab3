import CodeAtlas.File.Disk
import CodeAtlas.Package.Manifest
import CodeAtlas.Yaml.Fields

/-!
The manifest file of a package. Of the project's own manifest only the names of some packages
count; of another package's manifest its version, its description and whether it needs the
framework. A manifest that cannot be understood says nothing.
-/
namespace CodeAtlas

/-- The name of the manifest file in the folder of a package. -/
def manifestName : String := "pubspec.yaml"

/-! ## The project -/

/-- The packages of a section that are taken from a path. -/
def pathPackagesIn (v : Yaml.Value) (part : String) : List String :=
  (v.entriesAt part).filterMap fun (name, source) => do
    let name ← name.text?
    let _ ← (← source.get? "path").text?
    return String.ofList name

/-- What the manifest file of a project says, as a value. -/
def Manifest.ofYaml (root : String) (v : Yaml.Value) : Manifest where
  root := root
  pathPackages :=
    ["dependencies", "dev_dependencies", "dependency_overrides"].flatMap (pathPackagesIn v)
  developmentPackages :=
    (v.entriesAt "dev_dependencies").filterMap fun (name, _) => name.text?.map String.ofList

/-- The manifest of the project in a folder. -/
def Manifest.load (disk : Disk) (root : List Char) : Manifest :=
  match (disk.text? (Path.join root manifestName.toList)).bind Yaml.Value.parse? with
  | some v => .ofYaml (String.ofList root) v
  | none => { root := String.ofList root }

/-! ## Other packages -/

/-- What the manifest of a package says. -/
structure Pubspec where
  version : Option Yaml.Value := none
  description : Option String := none
  dependencies : Option Yaml.Value := none

namespace Pubspec

def ofYaml (d : Yaml.Document) (n : Yaml.Node) : Yaml.Reading Pubspec := do
  let f ← d.fields ["version", "description", "dependencies"] n
  let value := d.orNull (d.value (Yaml.maxDepth - 1))
  return {
    version := ← Yaml.Document.field f "version" none value
    description := ← Yaml.Document.field f "description" none (d.orNull d.text)
    dependencies := ← Yaml.Document.field f "dependencies" none value }

/-- Reads the text of a manifest. -/
def parse? (text : List Char) : Option Pubspec := do
  let d ← Yaml.Document.parse? text
  d.read? {} (ofYaml d)

/-- The manifest of the package in a folder. -/
def load (disk : Disk) (folder : List Char) : Pubspec :=
  ((disk.text? (Path.join folder manifestName.toList)).bind parse?).getD {}

/-- The version as a text, if it is a text or a number. -/
def versionText? (p : Pubspec) : Option String :=
  match p.version with
  | some (.text s) => some (String.ofList s)
  | some (.integer n) => some (toString n)
  | some (.float bits) => some (String.ofList (Yaml.floatText bits))
  | _ => none

/-- The description without blanks around it, if something is left. -/
def summary? (p : Pubspec) : Option String := do
  let text := Text.trim (← p.description).toList
  if text.isEmpty then none else return String.ofList text

/-- Whether a dependency is part of the framework. -/
def isFrameworkPart (source : Yaml.Value) : Bool :=
  ((source.get? "sdk").bind Yaml.Value.text?) == some "flutter".toList

/-- Whether the package needs the framework. -/
def usesFlutter (p : Pubspec) : Bool :=
  ((p.dependencies.bind Yaml.Value.entries?).getD []).any fun (_, source) => isFrameworkPart source

end Pubspec

end CodeAtlas
