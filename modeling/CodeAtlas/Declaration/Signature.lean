import CodeAtlas.Pattern
import CodeAtlas.Symbol.Basic
import CodeAtlas.Text.Cut

/-!
What the text of a declaration says about types: the type of a field and the return type of a
callable. Annotations and modifiers are no part of a type, and `void` is no return type.
-/
namespace CodeAtlas.Signature

section Patterns

open Pattern

/-- An annotation without arguments, with the blanks behind it. -/
def metadata : Pattern := char '@' ++ plus (wordOr ".") ++ blanks

/-- The declaration of a field. Group 1 is its type. -/
def fieldDeclaration : Pattern :=
  textStart ++ blanks ++
    star (star metadata ++
      words ["late", "final", "const", "static", "required", "covariant"] ++ gap) ++
    group 1 (lazyPlus (textOr "<>[]\x7b\x7d,?().")) ++ gap ++ plus identChar ++ blanks ++
    opt (char '=' ++ star inLine) ++ textEnd

/-- A modifier as a whole word, with the blanks behind it. -/
def modifier : Pattern :=
  wordEdge ++ words ["static", "external", "async", "sync", "factory", "late", "final", "const",
    "required"] ++ wordEdge ++ blanks

/-- The start of a declaration up to the parenthesis behind the given name. Group 1 is the return
type. -/
def returning (name : List Char) : Pattern :=
  textStart ++ group 1 (lazyPlus (textOr "<>\x7b\x7d[].,?()")) ++ gap ++ lit name ++ blanks ++
    char '('

/-- A parameter list that consists of named parameters and begins with a field. -/
def bracedFields : Pattern :=
  textStart ++ blanks ++ char '(' ++ blanks ++ char '\x7b' ++ blanks ++ word "this." ++
    plus identChar

/-- A reference to a field. Group 1 is the field. -/
def fieldReference : Pattern := word "this." ++ group 1 (plus identChar)

end Patterns

/-- Whether a type is `void` in any case. -/
def isVoid (type : List Char) : Bool := Text.lower type == "void".toList

/-- The type in the declaration of a field. -/
def fieldType? (detail : List Char) : Option (List Char) :=
  (fieldDeclaration.atStart detail).map fun stop => Text.trim (stop.group 1)

/-- The return type in the declaration of the callable with the given name. -/
def returnType? (detail name : List Char) : Option (List Char) := do
  let plain := Text.trim (modifier.removeAll (metadata.removeAll detail))
  let type := Text.trim ((← (returning name).atStart plain).group 1)
  if isVoid type then none else return type

/-- The fields that a parameter list of named parameters sets, if it begins with one. -/
def bracedFields? (detail : List Char) : Option (List (List Char)) :=
  if (bracedFields.atStart detail).isSome then
    some ((fieldReference.findAll detail).map fun m => m.2.group 1)
  else none

end CodeAtlas.Signature
