import CodeAtlas.Span
import CodeAtlas.Symbol.Kind

/-!
Symbols of a program: the raw descriptions that a language service gives, and the symbols that the
analysis fills in. A symbol's own data is a flat record; `SymbolTree` nests symbols under the
symbol that encloses them.
-/
namespace CodeAtlas

/-- A symbol as a language service describes it. -/
structure RawSymbol where
  name : String
  kind : UInt32
  detail : Option String := none
  range : Option Range := none
  selection : Option Range := none
  children : List RawSymbol := []
  deriving Repr, Inhabited

/-- Who may use a symbol. -/
inductive Access where
  | everyone
  | library
  deriving DecidableEq, Repr

/-- A leading underscore makes a name private. -/
def Access.ofName (name : String) : Access :=
  if name.toList.head? = some '_' then .library else .everyone

/-- Where a type is declared. -/
structure TypeDefinition where
  name : String
  kind : SymbolKind
  fileId : String
  selection : Option Range
  isSdk : Bool
  deriving DecidableEq, Repr

/-- A type by name, with its declaration if that is known. -/
structure TypeReference where
  name : String
  definition : Option TypeDefinition
  deriving DecidableEq, Repr

/-- A type whose declaration is not known. -/
def TypeReference.unresolved (name : String) : TypeReference := ⟨name, none⟩

/-- What a parameter's type starts with when it stands for the type of a field. -/
def selfFieldMark : String := "self_field:"

/-- A parameter of a callable symbol. -/
structure Parameter where
  type : String
  name : Option String := none
  isNamed : Bool := false
  isRequired : Bool := false
  isOptionalPositional : Bool := false
  typeRef : Option TypeReference := none
  deriving DecidableEq, Repr

/-- A type that a class is related to: its bare name, or a reference to its declaration. -/
inductive RelationTarget where
  | named (name : String)
  | resolved (reference : TypeReference)
  deriving DecidableEq, Repr

/-- The name of a related type. -/
def RelationTarget.label : RelationTarget → String
  | named name => name
  | resolved reference => reference.name

/-- What a class extends, implements and mixes in. -/
structure Relations where
  superclass : Option RelationTarget := none
  implements : List RelationTarget := []
  mixins : List RelationTarget := []
  deriving DecidableEq, Repr

namespace Relations

/-- Whether there is no related type at all. -/
def isEmpty (r : Relations) : Bool :=
  r.superclass.isNone && r.implements.isEmpty && r.mixins.isEmpty

/-- All related types: the extended one, the implemented ones, the mixins. -/
def targets (r : Relations) : List RelationTarget := r.superclass.toList ++ r.implements ++ r.mixins

/-- The names of all related types. -/
def labels (r : Relations) : List String := r.targets.map RelationTarget.label

/-- Replaces every related type. -/
def map (f : RelationTarget → RelationTarget) (r : Relations) : Relations :=
  ⟨r.superclass.map f, r.implements.map f, r.mixins.map f⟩

end Relations

/-- A symbol without the symbols nested in it. -/
structure Symbol where
  name : String
  kind : SymbolKind
  detail : String := ""
  range : Option Range := none
  selection : Option Range := none
  fileId : String
  uniqueId : String
  parentId : Option String := none
  access : Option Access := none
  isSdk : Bool := false
  resolvedType : Option String := none
  resolvedTypeRef : Option TypeReference := none
  returnType : Option String := none
  returnTypeRef : Option TypeReference := none
  parameters : Option (List Parameter) := none
  relations : Option Relations := none
  hoverChecked : Bool := false
  deriving DecidableEq, Repr

/-- The identity of a symbol within a run: its file, name and kind number. -/
def symbolUniqueId (fileId name : String) (kind : SymbolKind) : String :=
  fileId ++ "#" ++ name ++ "#" ++ toString kind.code.toNat

/-- A symbol about which only its name, kind and file are known. -/
def Symbol.ofName (name : String) (kind : SymbolKind) (fileId : String) : Symbol :=
  { name, kind, fileId, uniqueId := symbolUniqueId fileId name kind }

/-- Whether the list of parameters is missing or empty. -/
def Symbol.lacksParameters (s : Symbol) : Bool := (s.parameters.getD []).isEmpty

/-- A symbol with the symbols nested in it. -/
structure SymbolTree where
  symbol : Symbol
  children : List SymbolTree
  deriving Repr

mutual

/-- The symbols of a tree, each before the ones nested in it. -/
def SymbolTree.preorder : SymbolTree → List Symbol
  | ⟨s, children⟩ => s :: preorderAll children

/-- The symbols of a list of trees, each before the ones nested in it. -/
def preorderAll : List SymbolTree → List Symbol
  | [] => []
  | t :: rest => t.preorder ++ preorderAll rest

end

/-- Classes, enums and every symbol with nested symbols contain symbols. -/
def SymbolTree.isContainer (t : SymbolTree) : Bool :=
  t.symbol.kind == .classDecl || t.symbol.kind == .enumDecl || !t.children.isEmpty

/-- A source file with the symbols declared in it. -/
structure SourceFile where
  fileId : String
  text : String := ""
  symbols : List SymbolTree
  deriving Repr

/-- The symbols of a file, each before the ones nested in it. -/
def SourceFile.preorder (f : SourceFile) : List Symbol := preorderAll f.symbols

mutual

/-- The symbol that a raw description stands for, nested under the symbol with the given id. -/
def RawSymbol.toTree (fileId : String) (parentId : Option String) : RawSymbol → SymbolTree
  | ⟨name, kind, detail, range, selection, children⟩ =>
    let kind := SymbolKind.ofCode kind
    let uniqueId := symbolUniqueId fileId name kind
    let symbol : Symbol :=
      { name, kind, detail := detail.getD "", range, selection, fileId, uniqueId, parentId }
    ⟨symbol, toTrees fileId (some uniqueId) children⟩

/-- The symbols that raw descriptions stand for. -/
def toTrees (fileId : String) (parentId : Option String) : List RawSymbol → List SymbolTree
  | [] => []
  | r :: rest => r.toTree fileId parentId :: toTrees fileId parentId rest

end

/-- The symbols of a file from their raw descriptions. Nested symbols name the symbol that
encloses them as their parent. -/
def symbolsOfRaw (fileId : String) (raw : List RawSymbol) : List SymbolTree :=
  toTrees fileId none raw

end CodeAtlas
