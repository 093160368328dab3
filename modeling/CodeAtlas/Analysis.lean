import CodeAtlas.Enrichment.FieldTypes
import CodeAtlas.Enrichment.Run
import CodeAtlas.Graph.Edges
import CodeAtlas.Graph.Metrics
import CodeAtlas.Package.Discovery
import CodeAtlas.Package.External
import CodeAtlas.Validation

/-!
A whole analysis: the symbols of the files are had and filled in, packages and their public
declarations are added, and the graph of it all is built, checked and measured. Only a faulty
configuration stops it. What a service cannot answer counts as no data.
-/
namespace CodeAtlas

/-- A file handed to an analysis. Without symbols the service is asked for them. -/
structure GivenFile where
  fileId : String
  text : String
  symbols : Option (List RawSymbol) := none

structure Analysis where
  graph : Graph
  files : List SourceFile
  packages : List Package
  report : Report
  /-- Data flows by the node that they start from. -/
  flows : List (String × List String)

def Analysis.toJson (a : Analysis) : Json :=
  .object [("graph", a.graph.toJson), ("files", .ofList SourceFile.toJson a.files),
    ("packages", .ofList Package.toJson a.packages), ("report", a.report.toJson),
    ("data_flows", Graph.flowsToJson a.flows)]

def GivenFile.load (f : GivenFile) : Inquiry SourceFile := do
  let raw : List RawSymbol ← match f.symbols with
    | some raw => pure raw
    | none => do pure ((← Inquiry.query (.symbols f.fileId)).getD [])
  return ⟨f.fileId, f.text, symbolsOfRaw f.fileId raw⟩

/-- Fills in the symbols of files, then the types of fields that constructors set. -/
def fillIn (c : Context) (files : List SourceFile) : StateT Resolver Inquiry (List SourceFile) := do
  return (Enrichment.closeFiles (← Enrichment.enrichFiles c files)).1

/-- The packages of the project, if there is one and packages are wanted. -/
def wantedPackages (disk : Disk) (c : Config) (root : Option String) : List Package :=
  match root with
  | some root => if c.features.packages then packagesOf disk c.limits root.toList else []
  | none => []

/-- The public declarations of packages, if they are wanted. -/
def wantedExternals (disk : Disk) (c : Config) (packages : List Package) :
    Inquiry (List SourceFile) :=
  if c.features.externalSymbols && !packages.isEmpty then externalFiles disk packages c.filters
  else return []

/-- The label of the project in the graph. -/
def projectLabel (root : Option String) : String :=
  ((root.bind fun root => Path.fileName? root.toList).map String.ofList).getD "project"

/-- The graph of files, and of packages if there are any. -/
def graphOfFiles (c : Config) (root : Option String) (packages : List Package)
    (files external : List SourceFile) : Inquiry Graph := do
  let b := (({} : Builder).addFiles files).addFiles external
  let b ← b.addEdges c.features.readEdges
  let b := if packages.isEmpty then b else b.addPackages packages c.filters (projectLabel root)
  return b.graph.withDegrees

/-- Analyses files whose symbols are had. -/
def analyzeLoaded (disk : Disk) (config : Config) (root : Option String)
    (loaded : List SourceFile) : Inquiry Analysis := do
  let context := ({ config } : Context).prepare loaded
  let (files, resolver) ← (fillIn context loaded).run context.resolver
  let packages := wantedPackages disk config root
  let external ← wantedExternals disk config packages
  let (external, _) ← (fillIn context external).run resolver
  let graph ← graphOfFiles config root packages files external
  return {
    graph
    files
    packages
    report := (filesReport files).merge graph.report
    flows := graph.dataFlows config.limits.hops }

/-- The outcome of an analysis with a sound configuration. -/
def analyzeSound (disk : Disk) (config : Config) (root : Option String) (given : List GivenFile) :
    Inquiry Analysis := do
  analyzeLoaded disk config root (← given.mapM GivenFile.load)

/-- Analyses files, those of the project in a folder if one is given. -/
def analyze (disk : Disk) (config : Config) (root : Option String) (given : List GivenFile) :
    Inquiry (Except ConfigFault Analysis) :=
  match config.fault? with
  | some f => return .error f
  | none => do return .ok (← analyzeSound disk config root given)

end CodeAtlas
