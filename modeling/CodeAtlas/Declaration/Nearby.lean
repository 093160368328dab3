import CodeAtlas.Declaration.Signature

/-!
What the lines of a source file around a declaration say about types: the type stands before the
name, on the same line.
-/
namespace CodeAtlas.Nearby

section Patterns

open Pattern

/-- A space or a tab. -/
def space : Pattern := one fun c => c = ' ' || c = '\t'

/-- An annotation with its arguments. -/
def metadata : Pattern :=
  char '@' ++ plus wordChar ++ opt (char '(' ++ star (one (· != ')')) ++ char ')')

/-- Annotations and the blanks behind them. -/
def metadataList : Pattern := star (metadata ++ blanks)

/-- Words and the blanks behind them. -/
def leadingWords : Pattern := star (plus wordChar ++ gap)

/-- A field up to the end of its declaration or its first value. Group 2 is its type. -/
def field (name : List Char) : Pattern :=
  metadataList ++ leadingWords ++ group 2 (lazyPlus inLine) ++ plus space ++ lit name ++ blanks ++
    (char ';' <|> char '=')

/-- A method or getter up to the parenthesis behind its name. Group 2 is its return type. -/
def method (name : List Char) : Pattern :=
  metadataList ++ opt (word "static" ++ gap) ++ leadingWords ++ group 2 (lazyPlus inLine) ++
    plus space ++ opt (word "get" ++ plus space) ++ lit name ++ blanks ++ char '('

/-- Modifiers at the start of a text, each with the blanks behind it. -/
def modifiers : Pattern :=
  textStart ++ plus (words ["late", "final", "const", "static", "external", "covariant",
    "required", "var"] ++ (gap <|> textEnd))

end Patterns

/-- The text behind its leading modifiers. -/
def dropModifiers (type : List Char) : List Char :=
  match modifiers.atStart type with
  | some stop => stop.rest
  | none => type

/-- The type in the leftmost match of a pattern, without annotations and leading modifiers. -/
def type? (pattern : Pattern) (lines : List Char) : Option (List Char) := do
  let written := (← pattern.find lines).2.group 2
  let type := Text.trim (dropModifiers (Text.trim (metadata.removeAll written)))
  if type.isEmpty then none else return type

/-- The type of the field with the given name. -/
def fieldType? (lines name : List Char) : Option (List Char) := type? (field name) lines

/-- The return type of the method or function with the given name. -/
def returnType? (lines name : List Char) : Option (List Char) := do
  let type ← type? (method name) lines
  if Signature.isVoid type then none else return type

end CodeAtlas.Nearby
