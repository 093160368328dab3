/-!
Places in source text: a line and a number of UTF-16 units in it, both from zero. A range ends
before its last character and on its last line. `Range.slice` cuts a range out of a text; places
beyond a line or the text stand for its end.
-/
namespace CodeAtlas

structure Position where
  line : UInt32
  character : UInt32
  deriving DecidableEq, Repr, Inhabited

structure Range where
  start : Position
  stop : Position
  deriving DecidableEq, Repr, Inhabited

/-- The number of UTF-16 units of a character. -/
def utf16Units (c : Char) : Nat := if c.val.toNat < 0x10000 then 1 else 2

/-- The number of UTF-16 units of a text. -/
def utf16Length : List Char → Nat
  | [] => 0
  | c :: rest => utf16Units c + utf16Length rest

/-- How many characters stand before a line and a number of units in it. -/
def offsetOf : List Char → Nat → Nat → Nat
  | [], _, _ => 0
  | c :: rest, line + 1, units => 1 + offsetOf rest (if c = '\n' then line else line + 1) units
  | _ :: _, 0, 0 => 0
  | c :: rest, 0, units + 1 =>
    if c = '\n' then 0 else 1 + offsetOf rest 0 (units + 1 - utf16Units c)

/-- How many characters of a text stand before a position. -/
def Position.offset (text : List Char) (p : Position) : Nat :=
  offsetOf text p.line.toNat p.character.toNat

namespace Range

/-- Whether a line is one of the lines of the range. -/
def containsLine (r : Range) (line : UInt32) : Bool := r.start.line ≤ line && line ≤ r.stop.line

/-- The characters of a text in the range, none if it ends before it starts. -/
def slice (r : Range) (text : List Char) : List Char :=
  let start := r.start.offset text
  (text.drop start).take (r.stop.offset text - start)

end Range

theorem offsetOf_le_length (text : List Char) (line units : Nat) :
    offsetOf text line units ≤ text.length := by
  fun_induction offsetOf text line units with
  | case1 => simp
  | case2 c rest line units ih => simp only [List.length_cons]; omega
  | case3 => simp
  | case4 => simp
  | case5 c rest units h ih => simp only [List.length_cons]; omega

end CodeAtlas
