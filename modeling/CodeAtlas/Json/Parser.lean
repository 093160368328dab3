import CodeAtlas.Json.Value
import CodeAtlas.Text.Number

/-!
Reading JSON. A text is read as an outline first: whatever has the grammar of JSON is accepted,
and a part that denotes no value becomes `Json.unreadable`, so that a reader who does not look at
that part is not disturbed by it.
-/
namespace CodeAtlas.Json.Parser

/-- How deep arrays and objects may be nested. -/
def maxDepth : Nat := 127

/-! ## Numbers -/

/-- Appends digits to a significand as long as it fits 64 bits; with the digits that are left. -/
def absorb : Nat → List Char → Nat × List Char
  | significand, [] => (significand, [])
  | significand, c :: rest =>
    let next := significand * 10 + Text.digitValue c
    if next < UInt64.size then absorb next rest else (significand, c :: rest)

/-- Multiplies a floating-point number by a power of ten in at most `fuel` steps; nothing if the
result is beyond all floating-point numbers. -/
def scaleFloat : Nat → Float → Int → Option Float
  | 0, _, _ => some 0.0
  | fuel + 1, f, exponent =>
    if exponent.natAbs ≤ 308 then
      let power := Float.ofScientific 1 false exponent.natAbs
      if 0 ≤ exponent then
        let g := f * power
        if g.isInf then none else some g
      else some (f / power)
    else if f == 0.0 then some f
    else if 0 ≤ exponent then none
    else scaleFloat fuel (f / 1e308) (exponent + 308)

/-- A floating-point number from its sign, significand and decimal exponent. -/
def ofParts (negative : Bool) (significand : Nat) (exponent : Int) : Json :=
  match scaleFloat 4 (UInt64.ofNat significand).toFloat exponent with
  | none => .unreadable
  | some f => .number (.float (if negative then -f else f).toBits)

/-- The number with the given sign, digits before and behind the point and exponent digits.
Integers of 64 bits stay integers; minus zero does not. -/
def number (negative : Bool) (whole fraction : List Char) (exponent : Option (Bool × List Char)) :
    Json :=
  let (significand, dropped) := absorb 0 whole
  if fraction.isEmpty && exponent.isNone && dropped.isEmpty then
    if !negative then .number (.integer significand)
    else if 0 < significand ∧ significand ≤ UInt64.size / 2 then .number (.integer (-(significand : Int)))
    else ofParts true significand 0
  else
    let (significand, ignored) := absorb significand fraction
    let start : Int := dropped.length - ((fraction.length - ignored.length : Nat) : Int)
    match exponent with
    | none => ofParts negative significand start
    | some (down, digits) =>
      let power := Text.ofDigits digits
      if power < UInt32.size / 2 then
        ofParts negative significand (if down then start - power else start + power)
      else if significand ≠ 0 ∧ !down then .unreadable
      else ofParts negative 0 0

/-- The digits at the start of a text and the rest. -/
def digits (s : List Char) : List Char × List Char := s.span Text.isAsciiDigit

/-- An exponent, if one begins here; nothing if it has no digits. -/
def exponent (s : List Char) : Option (Option (Bool × List Char) × List Char) :=
  match s with
  | c :: rest =>
    if c = 'e' || c = 'E' then
      let (down, rest) := match rest with
        | '-' :: rest => (true, rest)
        | '+' :: rest => (false, rest)
        | rest => (false, rest)
      match digits rest with
      | ([], _) => none
      | (power, rest) => some (some (down, power), rest)
    else some (none, s)
  | [] => some (none, [])

/-- A number behind its sign. A leading zero stands alone. -/
def unsigned (negative : Bool) (s : List Char) : Option (Json × List Char) := do
  let (whole, rest) := digits s
  if whole.isEmpty || (whole.head? == some '0' && 1 < whole.length) then none
  else
    let (fraction, rest) ← match rest with
      | '.' :: rest =>
        match digits rest with
        | ([], _) => none
        | found => some found
      | rest => some ([], rest)
    let (power, rest) ← exponent rest
    return (number negative whole fraction power, rest)

/-! ## Strings -/

/-- The character that a one-letter escape stands for. -/
def simpleEscape? : Char → Option Char
  | '"' => some '"'
  | '\\' => some '\\'
  | '/' => some '/'
  | 'b' => some (Char.ofNat 8)
  | 'f' => some (Char.ofNat 12)
  | 'n' => some '\n'
  | 'r' => some '\r'
  | 't' => some '\t'
  | _ => none

/-- What has been read of a string: its characters, latest first; the first half of a surrogate
pair whose second half must follow; whether all surrogates so far were paired. -/
structure Reading where
  done : List Char
  half : Option Nat
  paired : Bool

/-- Adds a character. -/
def Reading.push (r : Reading) (c : Char) : Reading :=
  ⟨c :: r.done, none, r.paired && r.half.isNone⟩

/-- Adds the unit of an escape of four digits. -/
def Reading.unit (r : Reading) (n : Nat) : Reading :=
  let second := 0xDC00 ≤ n ∧ n ≤ 0xDFFF
  match r.half with
  | some first =>
    if second then
      ⟨Char.ofNat (0x10000 + (first - 0xD800) * 0x400 + (n - 0xDC00)) :: r.done, none, r.paired⟩
    else ⟨r.done, none, false⟩
  | none =>
    if 0xD800 ≤ n ∧ n ≤ 0xDBFF then ⟨r.done, some n, r.paired⟩
    else if second then ⟨r.done, none, false⟩
    else ⟨Char.ofNat n :: r.done, none, r.paired⟩

/-- The string, if every surrogate has its partner. -/
def Reading.finish (r : Reading) : Option String :=
  if r.paired && r.half.isNone then some (String.ofList r.done.reverse) else none

/-- The rest of a string behind its opening quote, and what follows it. -/
def string : Reading → List Char → Option (Option String × List Char)
  | _, [] => none
  | r, '"' :: rest => some (r.finish, rest)
  | r, '\\' :: 'u' :: a :: b :: c :: d :: rest =>
    match Text.hexValue? a, Text.hexValue? b, Text.hexValue? c, Text.hexValue? d with
    | some a, some b, some c, some d => string (r.unit (((a * 16 + b) * 16 + c) * 16 + d)) rest
    | _, _, _, _ => none
  | r, '\\' :: e :: rest =>
    match simpleEscape? e with
    | some c => string (r.push c) rest
    | none => none
  | r, c :: rest => if c.val < 32 || c = '\\' then none else string (r.push c) rest

/-! ## Values -/

/-- Blanks of JSON: space, tab, newline, carriage return. -/
def isSpace (c : Char) : Bool := c = ' ' || c = '\t' || c = '\n' || c = '\r'

def skip (s : List Char) : List Char := s.dropWhile isSpace

/-- The word `null`, `true` or `false`. -/
def keyword : List Char → Option (Json × List Char)
  | 'n' :: 'u' :: 'l' :: 'l' :: rest => some (.null, rest)
  | 't' :: 'r' :: 'u' :: 'e' :: rest => some (.bool true, rest)
  | 'f' :: 'a' :: 'l' :: 's' :: 'e' :: rest => some (.bool false, rest)
  | _ => none

/-- A container, unless it is nested too deep. -/
def nested (depth : Nat) (j : Json) : Json := if depth < maxDepth then j else .unreadable

/-- An object from members whose keys may be unreadable. -/
def ofMembers (members : List (Option String × Json)) : Json :=
  match members.mapM fun (key, value) => key.map (·, value) with
  | some members => .object members
  | none => .unreadable

mutual

/-- A value inside `depth` containers and what follows it. -/
def value : Nat → Nat → List Char → Option (Json × List Char)
  | 0, _, _ => none
  | fuel + 1, depth, s =>
    match skip s with
    | '"' :: rest => do
      let (text, rest) ← string ⟨[], none, true⟩ rest
      return ((text.map .string).getD .unreadable, rest)
    | '[' :: rest =>
      match skip rest with
      | ']' :: rest => some (nested depth (.array []), rest)
      | rest => do
        let (list, rest) ← items fuel (depth + 1) rest
        return (nested depth (.array list), rest)
    | '\x7b' :: rest =>
      match skip rest with
      | '\x7d' :: rest => some (nested depth (.object []), rest)
      | rest => do
        let (list, rest) ← members fuel (depth + 1) rest
        return (nested depth (ofMembers list), rest)
    | '-' :: rest => unsigned true rest
    | rest => (keyword rest).orElse fun _ => unsigned false rest

/-- Items up to the closing bracket. -/
def items : Nat → Nat → List Char → Option (List Json × List Char)
  | 0, _, _ => none
  | fuel + 1, depth, s => do
    let (item, rest) ← value fuel depth s
    match skip rest with
    | ']' :: rest => return ([item], rest)
    | ',' :: rest =>
      let (list, rest) ← items fuel depth rest
      return (item :: list, rest)
    | _ => none

/-- Members up to the closing brace. -/
def members : Nat → Nat → List Char → Option (List (Option String × Json) × List Char)
  | 0, _, _ => none
  | fuel + 1, depth, s =>
    match skip s with
    | '"' :: rest => do
      let (key, rest) ← string ⟨[], none, true⟩ rest
      match skip rest with
      | ':' :: rest =>
        let (item, rest) ← value fuel depth rest
        match skip rest with
        | '\x7d' :: rest => return ([(key, item)], rest)
        | ',' :: rest =>
          let (list, rest) ← members fuel depth rest
          return ((key, item) :: list, rest)
        | _ => none
      | _ => none
    | _ => none

end

end CodeAtlas.Json.Parser

namespace CodeAtlas.Json

/-- The outline of a text: its value, if it has the grammar of JSON and nothing follows. -/
def outline? (s : List Char) : Option Json := do
  let (j, rest) ← Parser.value (2 * s.length + 1) 0 s
  if (Parser.skip rest).isEmpty then some j else none

/-- The value of a text, members sorted by key, the last of equal keys counting. -/
def parse? (s : List Char) : Option Json := (outline? s).bind canonical?

end CodeAtlas.Json
