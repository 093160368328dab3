import CodeAtlas.Json.Record
import CodeAtlas.Text.Cut
import CodeAtlas.Text.Number
import CodeAtlas.Text.Quoted

/-!
The configuration of an analysis: limits, optional passes and what is left out of the graph. Every
field has a default, named variables override some of them, and `Config.fault?` says what is wrong
with a configuration.
-/
namespace CodeAtlas

/-- Windows, caps and bounds. -/
structure Limits where
  /-- Lines of source above a declaration that are searched for its type. -/
  window : Nat := 5
  /-- Source files taken from one package. -/
  packageFiles : Nat := 20
  /-- How deep below the library folder of a package source files are taken. -/
  packageDepth : UInt64 := 3
  /-- Hops of a data flow in each direction. -/
  hops : Nat := 10
  /-- Folders searched upward for a manifest. -/
  rootLevels : Nat := 10
  deriving DecidableEq, Repr

/-- Optional passes. -/
structure Features where
  hover : Bool := true
  nearbyLines : Bool := true
  readEdges : Bool := true
  packages : Bool := true
  externalSymbols : Bool := true
  deriving DecidableEq, Repr

/-- Packages without a container and files that are not analysed. -/
structure Filters where
  frameworkPackages : List String := ["flutter", "flutter_test"]
  ignoreGlobs : List String :=
    ["**/*.g.dart", "**/*.freezed.dart", "**/.dart_tool/**", "**/build/**"]
  deriving DecidableEq, Repr

structure Config where
  limits : Limits := {}
  features : Features := {}
  filters : Filters := {}
  deriving DecidableEq, Repr

/-- What is wrong with a configuration. -/
inductive ConfigFault where
  /-- The value of a variable is not a number. -/
  | notNumber (setting value : String)
  /-- A field is not between one and its bound. -/
  | outOfBounds (field : String) (bound value : Nat)
  | zero (field : String)
  deriving DecidableEq, Repr

def ConfigFault.message : ConfigFault → String
  | notNumber setting value =>
    setting ++ " is not a number: " ++ String.ofList (Text.quoted value.toList)
  | outOfBounds field bound value =>
    "`" ++ field ++ "` must be within 1..=" ++ toString bound ++ ", got " ++ toString value
  | zero field => "`" ++ field ++ "` must be greater than 0"

namespace Config

/-- The first fault of a configuration. -/
def fault? (c : Config) : Option ConfigFault :=
  if c.limits.window = 0 ∨ 50 < c.limits.window then
    some (.outOfBounds "regex_window_lines" 50 c.limits.window)
  else if c.limits.hops = 0 ∨ 100 < c.limits.hops then
    some (.outOfBounds "data_flow_max_hops" 100 c.limits.hops)
  else if c.limits.packageFiles = 0 then some (.zero "max_package_files")
  else if c.limits.rootLevels = 0 then some (.zero "root_search_levels")
  else none

/-! ## Variables -/

/-- The value of a field after the variable that overrides it, if that is set. -/
def overridden (setting : String) (lookup : String → Option String) (value : Nat) :
    Except ConfigFault Nat :=
  match lookup setting with
  | none => .ok value
  | some text =>
    match Text.number? (Text.trim text.toList) with
    | some n => .ok n
    | none => .error (.notNumber setting text)

/-- Whether a variable is set to a word for yes. -/
def isSet (lookup : String → Option String) (setting : String) : Bool :=
  match lookup setting with
  | none => false
  | some text => ["1", "true", "yes"].contains (String.ofList (Text.trim text.toList))

/-- Applies the variables that override fields. -/
def override (c : Config) (lookup : String → Option String) : Except ConfigFault Config := do
  let window ← overridden "ARCHGRAPH_REGEX_WINDOW" lookup c.limits.window
  let packageFiles ← overridden "ARCHGRAPH_MAX_PACKAGE_FILES" lookup c.limits.packageFiles
  let hover := c.features.hover && !isSet lookup "ARCHGRAPH_DISABLE_HOVER"
  let without := isSet lookup "ARCHGRAPH_DISABLE_PACKAGES"
  return { c with
    limits := { c.limits with window, packageFiles }
    features := { c.features with
      hover
      packages := c.features.packages && !without
      externalSymbols := c.features.externalSymbols && !without } }

/-! ## JSON -/

def toJson (c : Config) : Json :=
  .object [
    ("limits", .object [("regex_window_lines", .ofNat c.limits.window),
      ("max_package_files", .ofNat c.limits.packageFiles),
      ("package_scan_depth", .ofNat c.limits.packageDepth.toNat),
      ("data_flow_max_hops", .ofNat c.limits.hops),
      ("root_search_levels", .ofNat c.limits.rootLevels)]),
    ("features", .object [("hover_fallback", .bool c.features.hover),
      ("regex_fallback", .bool c.features.nearbyLines),
      ("reads_from_edges", .bool c.features.readEdges),
      ("package_integration", .bool c.features.packages),
      ("external_symbols", .bool c.features.externalSymbols)]),
    ("filters", .object [("framework_packages", .ofTexts c.filters.frameworkPackages),
      ("ignore_globs", .ofTexts c.filters.ignoreGlobs)])]

end Config

/-- Reads limits; fields that are left out have their defaults. -/
def Limits.ofJson? (j : Json) : Option Limits := do
  let r ← j.record? ["regex_window_lines", "max_package_files", "package_scan_depth",
    "data_flow_max_hops", "root_search_levels"]
  let d : Limits := {}
  return {
    window := ← r.withDefault "regex_window_lines" d.window Json.uint64?
    packageFiles := ← r.withDefault "max_package_files" d.packageFiles Json.uint64?
    packageDepth := ← r.withDefault "package_scan_depth" d.packageDepth fun j =>
      j.uint64?.map .ofNat
    hops := ← r.withDefault "data_flow_max_hops" d.hops Json.uint64?
    rootLevels := ← r.withDefault "root_search_levels" d.rootLevels Json.uint64? }

/-- Reads the choice of optional passes; fields that are left out have their defaults. -/
def Features.ofJson? (j : Json) : Option Features := do
  let r ← j.record? ["hover_fallback", "regex_fallback", "reads_from_edges",
    "package_integration", "external_symbols"]
  return {
    hover := ← r.withDefault "hover_fallback" true Json.bool?
    nearbyLines := ← r.withDefault "regex_fallback" true Json.bool?
    readEdges := ← r.withDefault "reads_from_edges" true Json.bool?
    packages := ← r.withDefault "package_integration" true Json.bool?
    externalSymbols := ← r.withDefault "external_symbols" true Json.bool? }

/-- Reads filters; fields that are left out have their defaults. -/
def Filters.ofJson? (j : Json) : Option Filters := do
  let r ← j.record? ["framework_packages", "ignore_globs"]
  let d : Filters := {}
  return {
    frameworkPackages :=
      ← r.withDefault "framework_packages" d.frameworkPackages (Json.list? Json.text?)
    ignoreGlobs := ← r.withDefault "ignore_globs" d.ignoreGlobs (Json.list? Json.text?) }

/-- Reads a configuration; groups that are left out have their defaults. -/
def Config.ofJson? (j : Json) : Option Config := do
  let r ← j.record? ["limits", "features", "filters"]
  return {
    limits := ← r.withDefault "limits" {} Limits.ofJson?
    features := ← r.withDefault "features" {} Features.ofJson?
    filters := ← r.withDefault "filters" {} Filters.ofJson? }

end CodeAtlas
