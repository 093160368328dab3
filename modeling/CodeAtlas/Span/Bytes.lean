import CodeAtlas.Span

/-!
Slices by bytes. A text in memory is its bytes, and a position is looked for among them: the line by
going from newline to newline, the character by counting units along that line in a word of 32 bits.
A piece of a text can only be taken between bytes at which characters begin, in their order. So a
search may fail, where a byte within a character is asked for or the count overflows.
-/
namespace CodeAtlas

/-- The number of bytes of a text. -/
def byteLength : List Char → Nat
  | [] => 0
  | c :: rest => c.utf8Size + byteLength rest

@[simp] theorem byteLength_nil : byteLength [] = 0 := rfl

@[simp] theorem byteLength_cons (c : Char) (rest : List Char) :
    byteLength (c :: rest) = c.utf8Size + byteLength rest := rfl

@[simp] theorem byteLength_append (a b : List Char) :
    byteLength (a ++ b) = byteLength a + byteLength b := by
  induction a with
  | nil => simp
  | cons c a ih => simp [ih, Nat.add_assoc]

/-- What stands before and behind a byte, if a character begins there or the text ends. -/
def cutAtByte? : List Char → Nat → Option (List Char × List Char)
  | text, 0 => some ([], text)
  | [], _ + 1 => none
  | c :: rest, n + 1 =>
    if c.utf8Size ≤ n + 1 then
      (cutAtByte? rest (n + 1 - c.utf8Size)).map fun (before, behind) => (c :: before, behind)
    else none

/-- The text between two bytes. -/
def betweenBytes? (text : List Char) (start stop : Nat) : Option (List Char) :=
  if start ≤ stop then do
    let (_, behind) ← cutAtByte? text start
    let (piece, _) ← cutAtByte? behind (stop - start)
    return piece
  else none

/-- The byte of the first newline. -/
def newlineByte? : List Char → Option Nat
  | [] => none
  | c :: rest => if c = '\n' then some 0 else (newlineByte? rest).map (c.utf8Size + ·)

/-- The byte of the first character of a line that `wanted` units stand before, or its end. Here `byte`
and `units` are those of the part of the line that is counted already. -/
def unitByte? (wanted : UInt32) (stop : Nat) : List Char → Nat → UInt32 → Option Nat
  | [], _, _ => some stop
  | c :: rest, byte, units =>
    if wanted ≤ units then some byte
    else if units.toNat + utf16Units c < UInt32.size then
      unitByte? wanted stop rest (byte + c.utf8Size) (units + UInt32.ofNat (utf16Units c))
    else none

/-- The byte of a character in the line that stands some lines behind the one that begins at a byte. -/
def lineByte? (text : List Char) (wanted : UInt32) : Nat → Nat → Option Nat
  | 0, start => do
    let (_, behind) ← cutAtByte? text start
    let stop := ((newlineByte? behind).map (start + ·)).getD (byteLength text)
    let line ← betweenBytes? text start stop
    unitByte? wanted stop line start 0
  | lines + 1, start => do
    let (_, behind) ← cutAtByte? text start
    match newlineByte? behind with
    | some n => lineByte? text wanted lines (start + n + 1)
    | none => return byteLength text

/-- The byte at which a position stands in a text. -/
def Position.byteOffset? (text : List Char) (p : Position) : Option Nat :=
  lineByte? text p.character p.line.toNat 0

/-- The text between the bytes of a range, none if it ends before it starts. -/
def Range.slice? (r : Range) (text : List Char) : Option (List Char) := do
  let start ← r.start.byteOffset? text
  let stop ← r.stop.byteOffset? text
  betweenBytes? text start (max stop start)

end CodeAtlas
