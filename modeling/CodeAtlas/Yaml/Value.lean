import CodeAtlas.Json.Decimal
import CodeAtlas.Yaml.Node

/-!
The values that YAML nodes stand for. A plain scalar is null, a truth value or a number if it looks
like one, and a text if not; every other scalar is a text unless its tag says otherwise. Aliases are
followed, so that the depth of nesting and the number of aliases are bounded: `Reading` counts the
aliases, and reading takes the depth that is left.
-/
namespace CodeAtlas.Yaml

inductive Value where
  | null
  | truth (b : Bool)
  | integer (n : Int)
  /-- A floating-point number, by its bits. -/
  | float (bits : UInt64)
  | text (s : List Char)
  | sequence (items : List Value)
  | mapping (entries : List (Value × Value))
  /-- A value with a tag of the document's own. -/
  | tagged (tag : String) (value : Value)
  deriving BEq

/-! ## Plain scalars -/

/-- Whether a scalar is one of the words for null. -/
def isNullWord (s : List Char) : Bool :=
  ["null", "Null", "NULL", "~"].any fun w => w.toList == s

/-- The truth value that a scalar stands for. -/
def truth? (s : List Char) : Option Bool :=
  if ["true", "True", "TRUE"].any fun w => w.toList == s then some true
  else if ["false", "False", "FALSE"].any fun w => w.toList == s then some false
  else none

/-- The number that digits of a base stand for. -/
def digits? (base : Nat) (s : List Char) : Option Nat := do
  let values ← s.mapM Text.hexValue?
  if s.isEmpty || values.any (base ≤ ·) then none
  else return values.foldl (fun n d => n * base + d) 0

/-- Whether a scalar is a zero with digits behind it, perhaps behind a sign. That is no number. -/
def hasLeadingZero (s : List Char) : Bool :=
  let digits := match s with
    | '+' :: rest | '-' :: rest => rest
    | other => other
  1 < digits.length && digits.head? == some '0' && digits.all Text.isAsciiDigit

/-- The number that a text without sign stands for: base sixteen, eight or two is told by the
letter behind a zero. -/
def magnitude? : List Char → Option Nat
  | '0' :: 'x' :: rest => digits? 16 rest
  | '0' :: 'o' :: rest => digits? 8 rest
  | '0' :: 'b' :: rest => digits? 2 rest
  | s => digits? 10 s

/-- The number without minus sign that a scalar stands for. -/
def natural? (s : List Char) : Option Nat :=
  if hasLeadingZero s then none
  else
    match s with
    | '+' :: rest => magnitude? rest
    | _ => magnitude? s

/-- The number that a scalar with a minus sign stands for. -/
def negative? (s : List Char) : Option Int :=
  match s with
  | '-' :: rest => if hasLeadingZero s then none else (magnitude? rest).map fun n => -(n : Int)
  | _ => none

/-- The integer that a scalar stands for. -/
def integer? (s : List Char) : Option Int := (natural? s).map Int.ofNat <|> negative? s

/-! ## Floating-point numbers -/

/-- A text without its sign, and whether that was a minus. -/
def unsigned : List Char → Bool × List Char
  | '-' :: rest => (true, rest)
  | '+' :: rest => (false, rest)
  | s => (false, s)

/-- The exponent behind the digits of a decimal. -/
def exponent? : List Char → Option Int
  | [] => some 0
  | e :: rest =>
    let (below, digits) := unsigned rest
    if (e = 'e' ∨ e = 'E') ∧ !digits.isEmpty ∧ digits.all Text.isAsciiDigit then
      some (if below then -(Text.ofDigits digits : Int) else Text.ofDigits digits)
    else none

/-- The floating-point number nearest to a decimal. Beyond the powers of ten that such numbers
reach, the decimal counts as zero or as infinite. -/
def nearest (digits : List Char) (exponent : Int) : Float :=
  let point := exponent + (digits.dropWhile (· = '0')).length
  let n := Text.ofDigits digits
  if n = 0 ∨ point < -400 then 0
  else if 400 < point then Float.ofScientific 1 false 400
  else Float.ofScientific n (exponent < 0) exponent.natAbs

/-- The bits of the finite number that a decimal stands for. The point may stand at either end of
the digits. -/
def decimal? (s : List Char) : Option UInt64 := do
  let (below, s) := unsigned s
  let (whole, rest) := s.span Text.isAsciiDigit
  let (fraction, rest) := match rest with
    | '.' :: rest => rest.span Text.isAsciiDigit
    | other => ([], other)
  let exponent ← exponent? rest
  let f := nearest (whole ++ fraction) (exponent - fraction.length)
  if (whole.isEmpty && fraction.isEmpty) || f.isInf then none
  else return (if below then -f else f).toBits

/-- Whether a scalar is one of the words for infinity. -/
def isInfinityWord (s : List Char) : Bool :=
  [".inf", ".Inf", ".INF"].any fun w => w.toList == s

/-- The bits of the floating-point number that a scalar stands for. -/
def float? (s : List Char) : Option UInt64 :=
  if isInfinityWord (if s.head? = some '+' then s.tail else s) then some 0x7FF0000000000000
  else if s.head? = some '-' && isInfinityWord s.tail then some 0xFFF0000000000000
  else if [".nan", ".NaN", ".NAN"].any fun w => w.toList == s then some 0x7FF8000000000000
  else match s with
    | '+' :: '+' :: _ | '+' :: '-' :: _ => none
    | _ => decimal? s

/-- The text of a floating-point number. -/
def floatText (bits : UInt64) : List Char :=
  if bits = 0x7FF0000000000000 then ".inf".toList
  else if bits = 0xFFF0000000000000 then "-.inf".toList
  else if bits = 0x7FF8000000000000 then ".nan".toList
  else Json.Decimal.floatText bits

/-! ## Scalars -/

/-- An integer as a value; nothing if it fits neither 64 bits with a sign nor 64 without. -/
def ofInteger? (n : Int) : Option Value :=
  if -(UInt64.size / 2 : Nat) ≤ n ∧ n < UInt64.size then some (.integer n) else none

/-- Whether an integer is taken as one though it may not fit: it has at most 128 bits. -/
def isInteger (n : Int) : Bool :=
  let span : Nat := UInt64.size * UInt64.size
  n < span && -(span / 2 : Nat) ≤ n

/-- The value of a plain scalar without tag. -/
def ofPlain? (s : List Char) : Option Value :=
  if s.isEmpty || isNullWord s then some .null
  else
    match truth? s, (integer? s).filter isInteger with
    | some b, _ => some (.truth b)
    | none, some n => ofInteger? n
    | none, none =>
      match (if hasLeadingZero s then none else float? s) with
      | some bits => some (.float bits)
      | none => some (.text s)

def truthTag : String := "tag:yaml.org,2002:bool"

def integerTag : String := "tag:yaml.org,2002:int"

def floatTag : String := "tag:yaml.org,2002:float"

def nullTag : String := "tag:yaml.org,2002:null"

/-- The name of a tag of the document's own: one that begins with an exclamation mark. -/
def ownTag? (tag : Option String) : Option String := do
  match (← tag).toList with
  | '!' :: rest => return String.ofList (if rest.isEmpty then ['!'] else rest)
  | _ => none

/-- The value of a scalar whose tag is not the document's own. -/
def ofScalar? (tag : Option String) (style : ScalarStyle) (s : List Char) : Option Value :=
  match tag with
  | none => if style = .plain then ofPlain? s else some (.text s)
  | some tag =>
    if tag = truthTag then (truth? s).map .truth
    else if tag = integerTag then ((integer? s).filter isInteger).bind ofInteger?
    else if tag = floatTag then (float? s).map .float
    else if tag = nullTag then if isNullWord s then some .null else none
    else some (.text s)

/-! ## Nodes -/

/-- What limits reading: sequences and mappings that may be nested. -/
def maxDepth : Nat := 128

/-- Reading from a document; the state is the number of aliases that may still be followed. -/
abbrev Reading := StateT Nat Option

/-- The node that a node stands for. -/
def Document.follow (d : Document) : Node → Reading Node
  | .alias n => do
    match ← get with
    | 0 => failure
    | left + 1 =>
      set left
      return d.target (.alias n)
  | other => return other

/-- Whether no two of the values are equal. -/
def allDifferent : List Value → Bool
  | [] => true
  | v :: rest => !rest.contains v && allDifferent rest

/-- A value with the tag of its node, if that is the document's own. -/
def Value.withTag (tag : Option String) (v : Value) : Value :=
  match ownTag? tag with
  | some own => .tagged own v
  | none => v

/-- The value of a node in which sequences and mappings are nested at most so deep. -/
def Document.value (d : Document) : Nat → Node → Reading Value
  | depth, n => do
    match ← d.follow n, depth with
    | .scalar tag style s, _ =>
      match ownTag? tag with
      | some own => (ofScalar? none style s).map (.tagged own)
      | none => ofScalar? tag style s
    | .sequence tag items, depth + 1 =>
      return (Value.sequence (← items.mapM (d.value depth))).withTag tag
    | .mapping tag entries, depth + 1 =>
      let entries ← entries.mapM fun (k, v) => do
        return (← d.value depth k, ← d.value depth v)
      if allDifferent (entries.map (·.1)) then
        return (Value.mapping entries).withTag tag
      else failure
    | _, _ => failure

/-- The number of aliases that may be followed. -/
def Document.aliasLimit (d : Document) : Nat := 100 * d.size

/-- What `f` reads from the root of a document; nothing is read from a missing root. -/
def Document.read? {α : Type} (d : Document) (missing : α) (f : Node → Reading α) : Option α :=
  match d.root with
  | none => some missing
  | some n => (f n).run' d.aliasLimit

/-- Reads the value of the only document of a text. -/
def Value.parse? (text : List Char) : Option Value := do
  let d ← Document.parse? text
  d.read? .null (d.value maxDepth)

namespace Value

def untagged : Value → Value
  | tagged _ v => untagged v
  | other => other

/-- The text that a value is. -/
def text? (v : Value) : Option (List Char) :=
  match v.untagged with
  | text s => some s
  | _ => none

def entries? (v : Value) : Option (List (Value × Value)) :=
  match v.untagged with
  | mapping entries => some entries
  | _ => none

/-- The value under a key of a mapping. -/
def get? (v : Value) (key : String) : Option Value :=
  (v.entries?.getD []).lookup (text key.toList)

/-- The entries of the mapping under a key; none if there is no mapping. -/
def entriesAt (v : Value) (key : String) : List (Value × Value) :=
  ((v.get? key).bind entries?).getD []

end Value

end CodeAtlas.Yaml
