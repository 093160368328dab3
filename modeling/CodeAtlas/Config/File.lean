import CodeAtlas.Fault
import CodeAtlas.File.Disk
import CodeAtlas.Yaml.Fields

/-!
The configuration file of a project. Groups and fields that the file leaves out have their
defaults; variables override what it says; the outcome must be without fault.
-/
namespace CodeAtlas

def Limits.ofYaml (d : Yaml.Document) (n : Yaml.Node) : Yaml.Reading Limits := do
  let f ← d.fields ["regex_window_lines", "max_package_files", "package_scan_depth",
    "data_flow_max_hops", "root_search_levels"] n
  let usual : Limits := {}
  return {
    window := ← Yaml.Document.field f "regex_window_lines" usual.window d.natural
    packageFiles := ← Yaml.Document.field f "max_package_files" usual.packageFiles d.natural
    packageDepth := ← Yaml.Document.field f "package_scan_depth" usual.packageDepth fun n =>
      return .ofNat (← d.natural n)
    hops := ← Yaml.Document.field f "data_flow_max_hops" usual.hops d.natural
    rootLevels := ← Yaml.Document.field f "root_search_levels" usual.rootLevels d.natural }

/-- Reads the choice of optional passes. -/
def Features.ofYaml (d : Yaml.Document) (n : Yaml.Node) : Yaml.Reading Features := do
  let f ← d.fields ["hover_fallback", "regex_fallback", "reads_from_edges", "package_integration",
    "external_symbols"] n
  return {
    hover := ← Yaml.Document.field f "hover_fallback" true d.truth
    nearbyLines := ← Yaml.Document.field f "regex_fallback" true d.truth
    readEdges := ← Yaml.Document.field f "reads_from_edges" true d.truth
    packages := ← Yaml.Document.field f "package_integration" true d.truth
    externalSymbols := ← Yaml.Document.field f "external_symbols" true d.truth }

def Filters.ofYaml (d : Yaml.Document) (n : Yaml.Node) : Yaml.Reading Filters := do
  let f ← d.fields ["framework_packages", "ignore_globs"] n
  let usual : Filters := {}
  return {
    frameworkPackages := ← Yaml.Document.field f "framework_packages" usual.frameworkPackages
      d.texts
    ignoreGlobs := ← Yaml.Document.field f "ignore_globs" usual.ignoreGlobs d.texts }

namespace Config

def ofYaml (d : Yaml.Document) (n : Yaml.Node) : Yaml.Reading Config := do
  let f ← d.fields ["limits", "features", "filters"] n
  return {
    limits := ← Yaml.Document.field f "limits" {} (Limits.ofYaml d)
    features := ← Yaml.Document.field f "features" {} (Features.ofYaml d)
    filters := ← Yaml.Document.field f "filters" {} (Filters.ofYaml d) }

/-- Reads the text of a configuration file. -/
def parse? (text : List Char) : Option Config := do
  let d ← Yaml.Document.parse? text
  d.read? {} (ofYaml d)

/-- The name of the configuration file in the folder of a project. -/
def fileName : String := "archgraph.yml"

/-- What the configuration file of a project says; the defaults if there is none. -/
def read (disk : Disk) (root : List Char) : Except Fault Config := do
  let path := Path.join root fileName.toList
  if disk.isFile path then
    match disk.text? path with
    | none => throw .file
    | some text =>
      match parse? text with
      | some c => return c
      | none => throw .yaml
  else return {}

def load (disk : Disk) (root : List Char) (lookup : String → Option String) :
    Except Fault Config := do
  let c ← ((← read disk root).override lookup).mapError .config
  match c.fault? with
  | some f => throw (.config f)
  | none => return c

end Config

end CodeAtlas
