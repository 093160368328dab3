import CodeAtlas.Pattern
import CodeAtlas.Symbol.Basic
import CodeAtlas.Text.Cut

/-!
Parameter lists of declarations. A list has three segments: required positional parameters,
optional positional ones in brackets and named ones in braces. Each segment is read slot by slot;
a slot is a field of the class (`this.x`), a function type with a name, a type with a name, or a
lone token.
-/
namespace CodeAtlas.Parameters

/-! ## Segments -/

/-- The three segments of a parameter list. -/
structure Segments where
  required : List Char
  optional : List Char
  named : List Char
  deriving DecidableEq, Repr

/-- The text between the first parenthesis and the last closing one behind it. -/
def content? (detail : List Char) : Option (List Char) := do
  let (_, rest) ← Text.splitFirst '(' detail
  let (inner, _) ← Text.splitLast ')' rest
  return inner

/-- The text from the last bracket on, or all of it. -/
def fromLastBracket (s : List Char) : List Char :=
  match Text.splitLast '[' s with
  | some (_, rest) => '[' :: rest
  | none => s

/-- Cuts off the named segment: what stands before the first brace, and what stands between it and
the last closing brace. Without such braces all is before. -/
def cutNamed (content : List Char) : List Char × List Char :=
  match Text.splitFirst '{' content with
  | none => (content, [])
  | some (before, rest) =>
    match Text.splitLast '}' rest with
    | none => (content, [])
    | some (inner, _) =>
      -- here a brace is closed before one is opened
      if (fromLastBracket before).contains '}' then (content, [])
      else (Text.trim before, Text.trim inner)

/-- Cuts off the optional segment: what stands before the first bracket, and what stands between
it and the last closing bracket. A bracket with a brace behind it begins no segment. -/
def cutOptional (positional : List Char) : List Char × List Char :=
  match Text.splitFirst '[' positional with
  | none => (positional, [])
  | some (before, rest) =>
    match Text.splitLast ']' rest with
    | none => (positional, [])
    | some (inner, _) =>
      if rest.contains '{' then (positional, [])
      else (Text.trim before, Text.trim inner)

/-- The text without one comma at its end. -/
def dropComma (s : List Char) : List Char :=
  if s.getLast? = some ',' then Text.trim s.dropLast else s

/-- The segments of the text between the parentheses. -/
def segments (content : List Char) : Segments :=
  let (positional, named) := cutNamed content
  let (required, optional) := cutOptional positional
  ⟨dropComma required, optional, named⟩

/-! ## Slots -/

section Patterns

open Pattern

/-- A default value up to the end of the slot, where the slot ends with a comma or the text. -/
def slotEnd : Pattern :=
  blanks ++ opt (char '=' ++ lazyStar inLine) ++ (char ',' <|> textEnd)

/-- A name, behind a gap. -/
def slotName (group : Nat) : Pattern := gap ++ .group group (plus identChar)

/-- The word `required` or `covariant` and a gap, or nothing. -/
def slotFlag : Pattern := opt (group 1 (words ["required", "covariant"]) ++ gap)

/-- A parameter that sets a field. Group 1 is the word `required`, group 2 the field. -/
def fieldSlot : Pattern :=
  textStart ++ blanks ++ opt (group 1 (word "required" ++ gap)) ++ word "this." ++
    group 2 (plus identChar) ++ slotEnd

/-- The word `Function`, its parameters and a question mark. -/
def functionWord (parameterPart : Pattern) : Pattern :=
  word "Function" ++ blanks ++ char '(' ++ opt (parameterPart ++ char ')') ++ blanks ++
    opt (char '?')

/-- Any number of characters other than a closing parenthesis. -/
def withinParens (greedy : Bool) : Pattern := many greedy (one (· != ')'))

/-- A return type and a gap, or nothing. -/
def returnPart : Pattern := opt (plus (textOr "$<>?,.[]") ++ gap)

/-- A parameter of function type. Group 1 is a flag, group 2 the type, group 3 the name. -/
def functionSlot : Pattern :=
  textStart ++ blanks ++ slotFlag ++ group 2 (returnPart ++ functionWord (withinParens false)) ++
    slotName 3 ++ slotEnd

/-- A type with a name. Group 1 is a flag, group 2 the type, group 3 the name. -/
def typedSlot : Pattern :=
  textStart ++ blanks ++ slotFlag ++
    group 2 (lazyPlus (textOr "$.<>?[](),'") <|> functionWord (withinParens true)) ++
    slotName 3 ++ slotEnd

/-- The characters of type arguments. -/
def argumentChars : Pattern := plus (textOr "$,<>?")

/-- Type arguments that may hold type arguments once more. -/
def typeArguments : Pattern :=
  char '<' ++ argumentChars ++ opt (char '<' ++ argumentChars ++ char '>') ++ opt (char '?') ++
    char '>'

/-- A lone token. Group 1 is the token. -/
def loneSlot : Pattern :=
  textStart ++ blanks ++
    group 1 ((plus identChar ++ opt typeArguments ++ opt (char '?')) <|>
      (returnPart ++ functionWord (withinParens false)) <|> plus (wordOr "$.")) ++
    blanks ++ (char ',' <|> textEnd)

end Patterns

/-- The segment that a slot stands in. -/
inductive SlotKind where
  | required
  | optional
  | named
  deriving DecidableEq, Repr

/-- Whether a comma stands outside of all brackets. `depth` counts the brackets left open. The count
has no bounds, so that it never wraps; a counter of 32 bits does, but only beyond `2 ^ 31` brackets
left open. -/
def hasOuterComma (depth : Int) : List Char → Bool
  | [] => false
  | c :: rest =>
    if c = '<' || c = '(' || c = '[' then hasOuterComma (depth + 1) rest
    else if c = '>' || c = ')' || c = ']' then hasOuterComma (depth - 1) rest
    else (c = ',' && depth ≤ 0) || hasOuterComma depth rest

/-- The names of built-in types. -/
def builtinTypes : List String :=
  ["void", "dynamic", "never", "null", "object", "bool", "int", "double", "num", "string"]

/-- The ASCII letter that a character is folded to when case does not matter, if there is one. -/
def foldCase (c : Char) : Char :=
  if c.val.toNat = 0x17F then 's' else if c.val.toNat = 0x212A then 'k' else Text.lowerAscii c

/-- Whether a lone token is a type: it has type arguments, a question mark, parentheses or the
word function in it, or it is a built-in type. Case does not matter. -/
def looksLikeType (token : List Char) : Bool :=
  let folded := token.map foldCase
  token.any (fun c => ['<', '>', '?', '(', ')'].contains c) ||
    Text.hasPiece "function".toList folded || (builtinTypes.map String.toList).contains folded

/-- A parameter of the type of a field. -/
def selfField (field : List Char) (isNamed : Bool) : Parameter :=
  { type := selfFieldMark ++ String.ofList field, name := some (String.ofList field), isNamed }

/-- The parameter of a slot that sets a field. -/
def ofFieldSlot (kind : SlotKind) (stop : Cursor) : Parameter :=
  { selfField (Text.trim (stop.group 2)) (kind = .named) with
    isRequired := kind = .named && (stop.group? 1).isSome }

/-- The parameter of a slot with a type and a name. -/
def ofTypedSlot (kind : SlotKind) (stop : Cursor) : Parameter :=
  { type := String.ofList (Text.squeeze (stop.group 2))
    name := some (String.ofList (Text.trim (stop.group 3)))
    isNamed := kind = .named
    isRequired := kind = .named && stop.group? 1 = some "required".toList
    isOptionalPositional := kind = .optional }

/-- The parameter of a slot with a lone token. Among required parameters a token that does not look
like a type is the name of a parameter of any type. -/
def ofLoneSlot (kind : SlotKind) (slot : List Char) (stop : Cursor) : Parameter :=
  let token := Text.squeeze (stop.group 1)
  let isType := kind ≠ .required || looksLikeType token
  { type := if isType then String.ofList token else "dynamic"
    name := if isType then none else some (String.ofList token)
    isNamed := kind = .named
    isRequired := kind = .named && Text.startsWith "required ".toList slot
    isOptionalPositional := kind = .optional }

/-- A slot with a type and a name, of which the type does not reach into the next slot. -/
def typedStop? (slot : List Char) : Option Cursor :=
  match (functionSlot.atStart slot).orElse fun _ => typedSlot.atStart slot with
  | some stop => if hasOuterComma 0 (stop.group 2) then none else some stop
  | none => none

/-- The parameter at the start of a segment and the place where its slot ends. -/
def slot? (kind : SlotKind) (segment : List Char) : Option (Parameter × Cursor) :=
  match fieldSlot.atStart segment with
  | some stop => some (ofFieldSlot kind stop, stop)
  | none =>
    match typedStop? segment with
    | some stop => some (ofTypedSlot kind stop, stop)
    | none => (loneSlot.atStart segment).map fun stop => (ofLoneSlot kind segment stop, stop)

/-- What follows a slot: a comma that the slot has not taken goes with it. -/
def afterSlot (stop : Cursor) : List Char :=
  if stop.before ≠ some ',' ∧ stop.rest.head? = some ',' then stop.rest.drop 1 else stop.rest

/-- The parameters of a segment without blanks around it, up to the first slot that cannot be
read. -/
def slotsOf (kind : SlotKind) (segment : List Char) : List Parameter :=
  match slot? kind segment with
  | none => []
  | some (parameter, stop) =>
    let rest := Text.trim (afterSlot stop)
    -- a slot that takes no character ends the list
    if _h : 0 < stop.offset ∧ rest.length < segment.length then
      parameter :: (if rest.isEmpty then [] else slotsOf kind rest)
    else []
termination_by segment.length
decreasing_by exact _h.2

/-- The parameters of a segment. -/
def slots (kind : SlotKind) (segment : List Char) : List Parameter :=
  let segment := Text.trim segment
  if segment.isEmpty then [] else slotsOf kind segment

theorem forall_mem_slotsOf {P : Parameter → Prop} {kind : SlotKind}
    (h : ∀ segment p stop, slot? kind segment = some (p, stop) → P p) (segment : List Char) :
    ∀ p ∈ slotsOf kind segment, P p := by
  fun_induction slotsOf kind segment with
  | case1 => exact fun p hp => absurd hp List.not_mem_nil
  | case2 segment parameter stop read rest _ ih =>
    refine List.forall_mem_cons.mpr ⟨h _ _ _ read, ?_⟩
    split
    · exact fun p hp => absurd hp List.not_mem_nil
    · exact ih
  | case3 => exact fun p hp => absurd hp List.not_mem_nil

/-- What holds of the parameter of every slot holds of the parameters of a segment. -/
theorem forall_mem_slots {P : Parameter → Prop} {kind : SlotKind}
    (h : ∀ segment p stop, slot? kind segment = some (p, stop) → P p) (segment : List Char) :
    ∀ p ∈ slots kind segment, P p := by
  unfold slots
  dsimp only
  split
  · exact fun p hp => absurd hp List.not_mem_nil
  · exact forall_mem_slotsOf h _

/-- The parameters that the declaration of a callable states, if it has parentheses. -/
def parse? (detail : List Char) : Option (List Parameter) := do
  let s := segments (Text.trim (← content? detail))
  return slots .required s.required ++ slots .optional s.optional ++ slots .named s.named

end CodeAtlas.Parameters
