/-!
Kinds of symbols. A language service reports them as numbers; the kinds that the analysis reasons
about have names, every other number stays what it is.
-/
namespace CodeAtlas

inductive SymbolKind where
  | extension
  | classDecl
  | method
  | property
  | field
  | constructor
  | enumDecl
  | function
  | typedef
  | other (code : UInt32)
  deriving DecidableEq, Repr

namespace SymbolKind

/-- The kind with a given number. -/
def ofCode (code : UInt32) : SymbolKind :=
  if code = 3 then extension
  else if code = 5 then classDecl
  else if code = 6 then method
  else if code = 7 then property
  else if code = 8 then field
  else if code = 9 then constructor
  else if code = 10 then enumDecl
  else if code = 12 then function
  else if code = 22 then typedef
  else other code

def code : SymbolKind → UInt32
  | extension => 3
  | classDecl => 5
  | method => 6
  | property => 7
  | field => 8
  | constructor => 9
  | enumDecl => 10
  | function => 12
  | typedef => 22
  | other code => code

/-- The name of a kind, as shown in graphs. -/
def name : SymbolKind → String
  | extension => "namespace"
  | classDecl => "class"
  | method => "method"
  | property => "property"
  | field => "field"
  | constructor => "constructor"
  | enumDecl => "enum"
  | function => "function"
  | typedef => "typedef"
  | other code => "kind_" ++ toString code.toNat

/-- The short name of a kind, as used in identifiers of nodes. -/
def tag : SymbolKind → String
  | extension => "ext"
  | classDecl => "class"
  | method => "method"
  | property => "prop"
  | field => "field"
  | constructor => "ctor"
  | enumDecl => "enum"
  | function => "func"
  | typedef => "typedef"
  | other code => "k" ++ toString code.toNat

/-- Classes, enums and type definitions declare types. -/
def declaresType : SymbolKind → Bool
  | classDecl | enumDecl | typedef => true
  | _ => false

/-- Methods, functions and constructors can be called. -/
def isCallable : SymbolKind → Bool
  | method | function | constructor => true
  | _ => false

/-- Methods and functions. -/
def isMethodOrFunction : SymbolKind → Bool
  | method | function => true
  | _ => false

/-- Fields and properties hold a value. -/
def isFieldLike : SymbolKind → Bool
  | field | property => true
  | _ => false

theorem code_ofCode (code : UInt32) : (ofCode code).code = code := by
  unfold ofCode
  repeat' split
  all_goals simp_all [SymbolKind.code]

end SymbolKind

end CodeAtlas
