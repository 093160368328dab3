import CodeAtlas.Declaration.Signature

/-!
What a hover text says about types. The text shows the declaration in a block of code; the type
stands before the name of the symbol.
-/
namespace CodeAtlas.Hover

section Patterns

open Pattern

/-- The start of a block of code, with the blanks behind it. -/
def blockStart : Pattern := lit (List.replicate 3 (Char.ofNat 0x60)) ++ word "dart" ++ blanks

/-- A quotation mark, or nothing. -/
def quoteMark : Pattern :=
  opt (one fun c => c = '"' || c = '\'' || c = Char.ofNat 0x60)

/-- A field in a block of code. Group 1 is its type. -/
def field (name : List Char) : Pattern :=
  blockStart ++ opt (plus (textOr "") ++ blank) ++ group 1 (lazyPlus inLine) ++ gap ++ lit name

/-- A method or getter in a block of code. Group 1 is its return type. -/
def method (name : List Char) : Pattern :=
  blockStart ++ opt (word "static" ++ gap) ++ group 1 (lazyPlus inLine) ++ gap ++
    opt (word "get" ++ gap) ++ quoteMark ++ lit name ++ quoteMark ++ blanks ++ char '('

/-- A reference to a field. Group 1 is the field. -/
def fieldReference : Pattern := word "this." ++ group 1 (plus wordChar)

end Patterns

/-- The type that a hover text gives to a field. -/
def fieldType? (contents name : List Char) : Option (List Char) := do
  let type := Text.trim ((← (field name).find contents).2.group 1)
  if type.isEmpty then none else return type

/-- The return type that a hover text gives to a method or function. -/
def returnType? (contents name : List Char) : Option (List Char) := do
  let type := Text.trim ((← (method name).find contents).2.group 1)
  if type.isEmpty || Signature.isVoid type then none else return type

/-- The fields that a hover text refers to. -/
def fields (contents : List Char) : List (List Char) :=
  (fieldReference.findAll contents).map fun m => m.2.group 1

end CodeAtlas.Hover
