/-!
The shortest decimal of a 64-bit floating-point number: among the decimals that round to it, one
with the fewest digits, and of those the nearest. The number is taken apart into its exact value
and tested against the two neighbours on each decimal grid in natural-number arithmetic.
-/
namespace CodeAtlas.Json

/-- A positive decimal, `digits * 10 ^ exponent`. -/
structure Decimal where
  digits : Nat
  exponent : Int
  deriving DecidableEq, Repr

/-- A fraction of natural numbers and, as numerators over the same denominator, the ends of the
interval of values that round to it. `closed` says that the ends belong to the interval. -/
structure Rounding where
  numerator : Nat
  low : Nat
  high : Nat
  denominator : Nat
  closed : Bool
  deriving Repr

/-- The value and the rounding interval of a finite number, from its bits. -/
def Rounding.ofBits (bits : UInt64) : Rounding :=
  let fraction := bits.toNat % 0x10000000000000
  let power := bits.toNat / 0x10000000000000 % 0x800
  let significand := if power = 0 then fraction else fraction + 0x10000000000000
  let shift := if power = 0 then 1 else power
  let below := if fraction = 0 ∧ 1 < power then 1 else 2
  let scale := Nat.pow 2 (shift - 1077)
  { numerator := 4 * significand * scale
    low := (4 * significand - below) * scale
    high := (4 * significand + 2) * scale
    denominator := Nat.pow 2 (1077 - shift)
    closed := significand % 2 = 0 }

/-- The number of decimal digits of the integer part, or minus the number of zeros that follow
the point. -/
def Decimal.magnitude (numerator denominator : Nat) : Int :=
  let whole := numerator / denominator
  if 0 < whole then (Nat.toDigits 10 whole).length
  else
    let zeros := (List.range 400).find? fun n => denominator ≤ numerator * Nat.pow 10 (n + 1)
    Int.negOfNat (zeros.getD 0)

/-- Whether `digits * 10 ^ grow / 10 ^ scale` rounds to the number. -/
def Rounding.holds (r : Rounding) (digits grow scale : Nat) : Bool :=
  let value := digits * Nat.pow 10 grow * r.denominator
  let low := r.low * Nat.pow 10 scale
  let high := r.high * Nat.pow 10 scale
  if r.closed then low ≤ value && value ≤ high else low < value && value < high

/-- The nearest decimal with `count` digits, if it rounds to the number. -/
def Rounding.onGrid (r : Rounding) (count : Nat) : Option Decimal :=
  let exponent := Decimal.magnitude r.numerator r.denominator - count
  let grow := exponent.toNat
  let scale := (-exponent).toNat
  let numerator := r.numerator * Nat.pow 10 scale
  let step := r.denominator * Nat.pow 10 grow
  let down := numerator / step
  let up := down + 1
  let twice := 2 * (numerator % step)
  -- of the two neighbours the nearer is tried first; a tie goes to the even one
  let upFirst := step < twice ∨ (twice = step ∧ down % 2 = 1)
  let (first, second) := if upFirst then (up, down) else (down, up)
  if r.holds first grow scale then some ⟨first, exponent⟩
  else if r.holds second grow scale then some ⟨second, exponent⟩
  else none

/-- Trailing zeros moved into the exponent, at most `fuel` of them. -/
def Decimal.strip : Nat → Decimal → Decimal
  | 0, d => d
  | fuel + 1, d => if d.digits % 10 = 0 then strip fuel ⟨d.digits / 10, d.exponent + 1⟩ else d

/-- The shortest decimal of a finite positive number, from its bits. -/
def Decimal.shortest (bits : UInt64) : Decimal :=
  let r := Rounding.ofBits bits
  (((List.range 17).findSome? fun n => r.onGrid (n + 1)).getD ⟨0, 0⟩).strip 20

/-- The text of a decimal: a point is always written; from `10 ^ 16` on, and below `10 ^ -5`, the
decimal is written with an exponent. -/
def Decimal.text (d : Decimal) : List Char :=
  let digits := Nat.toDigits 10 d.digits
  let point := d.exponent + digits.length
  if 0 ≤ d.exponent ∧ point ≤ 16 then
    digits ++ List.replicate d.exponent.toNat '0' ++ ['.', '0']
  else if 0 < point ∧ point ≤ 16 then
    digits.take point.toNat ++ '.' :: digits.drop point.toNat
  else if -5 < point ∧ point ≤ 0 then
    ['0', '.'] ++ List.replicate (-point).toNat '0' ++ digits
  else
    let power := point - 1
    let exponent := 'e' :: ((if power < 0 then ['-'] else []) ++ Nat.toDigits 10 power.natAbs)
    match digits with
    | [] => exponent
    | [c] => c :: exponent
    | c :: rest => c :: '.' :: rest ++ exponent

/-- The text of a finite number, from its bits. -/
def Decimal.floatText (bits : UInt64) : List Char :=
  let sign := if bits.toNat < UInt64.size / 2 then [] else ['-']
  let magnitude := UInt64.ofNat (bits.toNat % (UInt64.size / 2))
  sign ++ (if magnitude = 0 then ['0', '.', '0'] else (shortest magnitude).text)

end CodeAtlas.Json
