import CodeAtlas.Graph.Basic
import CodeAtlas.TypeName

/-!
The layer of a class. A list of named rules looks at the name of the class, the types it is related
to and the members it has; the first rule that holds gives the layer. The rules stand in tiers, from
views to utilities, so the order of the list decides between them. What is no class and no enum is
a member.
-/
namespace CodeAtlas

/-- What the rules look at. Names are in lower case, names of related types without their type
arguments. -/
structure ClassShape where
  kind : SymbolKind
  name : List Char
  related : List (List Char)
  members : List Symbol

namespace ClassShape

/-- The shape of a symbol, seen with the given relations. -/
def of (t : SymbolTree) (relations : Option Relations) : ClassShape where
  kind := t.symbol.kind
  name := Text.lowerWords t.symbol.name.toList
  related := ((relations.map Relations.labels).getD []).map fun name =>
    Text.lowerWords (TypeName.bare name.toList)
  members := t.children.map SymbolTree.symbol

def methods (c : ClassShape) : List Symbol := c.members.filter fun m => m.kind == .method

/-- The fields and properties among the members. -/
def fields (c : ClassShape) : List Symbol := c.members.filter fun m => m.kind.isFieldLike

/-- Whether the name ends with one of the words. -/
def endsWith (c : ClassShape) (words : List String) : Bool :=
  words.any fun w => Text.endsWith w.toList c.name

/-- Whether one of the words occurs in the name. -/
def contains (c : ClassShape) (words : List String) : Bool :=
  words.any fun w => Text.hasPiece w.toList c.name

/-- Whether one of the words is the name of a related type. -/
def isRelated (c : ClassShape) (words : List String) : Bool :=
  c.related.any fun r => words.any fun w => w.toList == r

/-- Whether one of the words occurs in the name of a related type. -/
def relatedContains (c : ClassShape) (words : List String) : Bool :=
  c.related.any fun r => words.any fun w => Text.hasPiece w.toList r

/-- Whether there are methods, and at least `num` of `den` of them satisfy the test. -/
def mostMethods (c : ClassShape) (num den : Nat) (test : Symbol → Bool) : Bool :=
  !c.methods.isEmpty && num * c.methods.length ≤ den * c.methods.countP test

end ClassShape

/-- A named rule that gives a layer to the classes for which it holds. -/
structure LayerRule where
  name : String
  layer : Layer
  holds : ClassShape → Bool

namespace LayerRule

/-- Whether a method builds a view: it takes nothing, or the context alone. -/
def isBuildMethod (m : Symbol) : Bool :=
  m.name == "build" &&
    match m.parameters with
    | none | some [] => true
    | some [p] => TypeName.bare p.type.toList == "BuildContext".toList
    | some _ => false

/-- Whether a method's result or name says that it does not answer at once. -/
def isAsync (m : Symbol) : Bool :=
  let type := Text.lowerWords (m.returnType.getD "").toList
  Text.hasPiece "future".toList type || Text.hasPiece "stream".toList type ||
    Text.hasPiece "async".toList (Text.lowerWords m.name.toList)

/-- Whether a method's declaration says that it belongs to the class. -/
def isStatic (m : Symbol) : Bool := Text.hasPiece "static".toList (Text.lowerWords m.detail.toList)

/-- Methods that a class of plain data has besides its own. -/
def plainMethods : List String :=
  ["tostring", "hashcode", "operator==", "copywith", "tojson", "fromjson"]

/-- Whether a class is plain data: it has fields and at most two methods of its own. -/
def isDataShape (c : ClassShape) : Bool :=
  c.kind == .classDecl && !c.fields.isEmpty &&
    c.methods.countP (fun m =>
      !plainMethods.any fun w => w.toList == Text.lowerWords m.name.toList) ≤ 2

/-- Words of model names. -/
def modelParts : List String := ["model", "entity", "dto", "data"]

def all : List LayerRule := [
  { name := "ui-base-type", layer := .view
    holds := (·.isRelated ["statelesswidget", "statefulwidget", "hookwidget", "widget"]) },
  { name := "build-method", layer := .view, holds := (·.methods.any isBuildMethod) },
  { name := "ui-relation", layer := .view
    holds := (·.relatedContains ["widget", "component", "renderobject", "sliver"]) },
  { name := "view-name", layer := .view
    holds := fun c =>
      c.endsWith ["page", "screen", "view", "widget", "dialog", "modal", "bottomsheet",
        "drawer"] ||
      c.contains ["page", "screen", "widget", "dialog"] },
  { name := "state-base-type", layer := .state
    holds := (·.isRelated ["changenotifier", "statenotifier", "bloc", "cubit", "provider",
      "controller"]) },
  { name := "state-stream", layer := .state
    holds := fun c =>
      c.fields.any (fun f => ["stream", "state"].contains f.name) &&
      c.methods.any fun m => ["add", "emit", "on"].contains m.name },
  { name := "state-name", layer := .state
    holds := fun c =>
      c.endsWith ["bloc", "cubit", "provider", "controller", "notifier", "store", "reducer",
        "manager", "viewmodel"] ||
      c.contains ["bloc", "cubit", "provider", "controller", "notifier"] },
  { name := "async-methods", layer := .service, holds := (·.mostMethods 1 2 isAsync) },
  { name := "service-relation", layer := .service
    holds := (·.relatedContains ["service", "repository", "client", "adapter", "gateway"]) },
  { name := "service-name", layer := .service
    holds := fun c =>
      c.endsWith ["service", "repository", "api", "datasource", "client", "gateway", "adapter",
        "helper", "handler"] ||
      c.contains ["service", "repository", "api", "client", "gateway", "adapter"] },
  { name := "data-shape", layer := .model, holds := isDataShape },
  { name := "model-name", layer := .model
    holds := fun c =>
      c.endsWith ["model", "entity", "dto", "data", "response", "request", "event", "state",
        "vo", "pojo"] ||
      c.contains modelParts || c.relatedContains modelParts },
  { name := "enum", layer := .model, holds := (·.kind == .enumDecl) },
  { name := "utility-name", layer := .utility
    holds := (·.endsWith ["util", "utils", "helper", "extension", "mixin", "constants",
      "config", "settings"]) },
  { name := "static-methods", layer := .utility, holds := (·.mostMethods 7 10 isStatic) }]

end LayerRule

/-- The first rule that holds for a class or enum. -/
def layerRule? (t : SymbolTree) (relations : Option Relations) : Option LayerRule :=
  if t.symbol.kind = .classDecl ∨ t.symbol.kind = .enumDecl then
    LayerRule.all.find? fun rule => rule.holds (.of t relations)
  else none

/-- The layer of a symbol, seen with the given relations. A class without a rule is a utility. -/
def layerOf (t : SymbolTree) (relations : Option Relations) : Layer :=
  if t.symbol.kind = .classDecl ∨ t.symbol.kind = .enumDecl then
    ((layerRule? t relations).map LayerRule.layer).getD .utility
  else .member

end CodeAtlas
