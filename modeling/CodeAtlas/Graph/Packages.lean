import CodeAtlas.Config
import CodeAtlas.Graph.Builder
import CodeAtlas.Package.Origin

/-!
Packages in the graph. Each relevant package has a container node, under which the nodes of its
files are put; every node made from a symbol learns its origin. Where an edge leads into another
package, the containers of the two are joined; edges from the project's own files start at the
container of the project.
-/
namespace CodeAtlas

/-- The id of the node of a package. -/
def containerId (package : String) : String := packageKind ++ ":" ++ package

/-- The id of the node of the project. -/
def projectId : String := "project_root"

/-- What stands before the label of a node from a package. -/
def packageMark : String := "🔗 "

/-- What stands before the label of a node from the language's own libraries. -/
def sdkMark : String := "⚙️ "

/-- Whether a package has a container. -/
def Package.isRelevant (p : Package) (f : Filters) : Bool :=
  match p.type with
  | .thirdParty | .custom => true
  | .flutterOfficial => !f.frameworkPackages.contains p.name
  | .sdk => false

/-- The packages that have a container. -/
def relevantPackages (packages : List Package) (f : Filters) : List Package :=
  packages.filter (·.isRelevant f)

/-- The range of a name that stands at the start of a text. -/
def nameRange (name : String) : Range :=
  ⟨⟨0, 0⟩, ⟨0, .ofNat (utf16Length name.toList)⟩⟩

def containerData (fileId label : String) (isSdk : Bool) (origin : Origin) : NodeData where
  fileId := fileId
  range := nameRange label
  selection := nameRange label
  access := some .everyone
  isSdk := isSdk
  layer := .utility
  origin := origin

def Package.container (p : Package) : Node where
  id := containerId p.name
  label := p.name
  kind := packageKind
  data := containerData ("file:///packages/" ++ p.name) p.name (p.type == .sdk) {
    kind := .externalPackage
    packageName := p.name
    packageVersion := p.version
    packageType := p.type }

def projectContainer (label : String) : Node where
  id := projectId
  label := label
  kind := projectKind
  data := containerData ("file:///" ++ projectId) label false .project

namespace Builder

/-- A node with its origin: marked if it is not the project's own, and put under the container of
its package if there is one. -/
def assign (b : Builder) (packages : List Package) (n : Node) : Node :=
  if n.isContainer then n
  else
    let origin := originOf n.data.fileId packages
    let data := { n.data with origin := some origin }
    let container := (origin.packageName.map containerId).filter b.hasNode
    match origin.kind with
    | .project => { n with data }
    | .sdk => { n with data, label := sdkMark ++ n.label }
    | .externalPackage =>
      { n with data, label := packageMark ++ n.label, parent := container <|> n.parent }

/-- Gives every node its origin. -/
def assignAll (b : Builder) (packages : List Package) : Builder :=
  { b with graph := { b.graph with nodes := b.graph.nodes.map (b.assign packages) } }

def packageOf? (b : Builder) (id : String) : Option String := do
  (← (← b.node? id).data.origin).packageName

/-- The package that an edge leads from, if any, and the other package that it leads to. -/
def crossing? (b : Builder) (e : Edge) : Option (Option String × String) :=
  match b.packageOf? e.target with
  | none => none
  | some target =>
    let source := b.packageOf? e.source
    if source = some target then none else some (source, target)

/-- Joins the containers of two packages, or of the project and a package. -/
def join (projectLabel : String) (b : Builder) (crossing : Option String × String) : Builder :=
  let target := containerId crossing.2
  if b.hasNode target then
    match crossing.1 with
    | some source => (b.addEdge (containerId source) target .usesAsType).2
    | none =>
      let b := (b.addNode (projectContainer projectLabel)).2
      (b.addEdge projectId target .usesAsType).2
  else b

/-- Joins the containers wherever an edge leads into another package. -/
def joinAll (b : Builder) (projectLabel : String) : Builder :=
  (b.graph.edges.filterMap b.crossing?).foldl (join projectLabel) b

/-- Puts packages into the graph. -/
def addPackages (b : Builder) (packages : List Package) (f : Filters) (projectLabel : String) :
    Builder :=
  if packages.isEmpty then b
  else
    let b := (relevantPackages packages f).foldl (fun b p => (b.addNode p.container).2) b
    (b.assignAll packages).joinAll projectLabel

end Builder

end CodeAtlas
