import CodeAtlas.Text.Class

/-!
Natural numbers written in ASCII digits, and the digits of base sixteen.
-/
namespace CodeAtlas.Text

/-- The value of a digit. -/
def digitValue (c : Char) : Nat := c.val.toNat - 0x30

/-- The number that digits of base ten stand for. -/
def ofDigits (digits : List Char) : Nat := digits.foldl (fun n c => n * 10 + digitValue c) 0

/-- The value of a digit of base sixteen. -/
def hexValue? (c : Char) : Option Nat :=
  let n := c.val.toNat
  if 0x30 ≤ n ∧ n ≤ 0x39 then some (n - 0x30)
  else if 0x41 ≤ n ∧ n ≤ 0x46 then some (n - 0x37)
  else if 0x61 ≤ n ∧ n ≤ 0x66 then some (n - 0x57)
  else none

/-- A number of 64 bits written in digits, perhaps behind a plus sign. -/
def number? (text : List Char) : Option Nat :=
  let digits := match text with
    | '+' :: rest => rest
    | other => other
  if digits.isEmpty || !digits.all isAsciiDigit then none
  else if ofDigits digits < UInt64.size then some (ofDigits digits)
  else none

end CodeAtlas.Text
