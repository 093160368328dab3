/-!
UTF-8. `decode?` reads bytes that are well formed; `decodeLossy` reads all bytes and puts the
replacement character for each longest piece that begins a character and does not complete it.
-/
namespace CodeAtlas.Text.Utf8

/-- The bytes of a text. -/
def encode (s : List Char) : List UInt8 := s.flatMap String.utf8EncodeChar

/-- What a first byte announces: the bits it contributes and, for each byte to follow, the range
that byte must lie in. -/
def lead? (b : UInt8) : Option (Nat × List (Nat × Nat)) :=
  let n := b.toNat
  let any := (0x80, 0xBF)
  if n < 0x80 then some (n, [])
  else if n < 0xC2 then none
  else if n < 0xE0 then some (n - 0xC0, [any])
  else if n = 0xE0 then some (0, [(0xA0, 0xBF), any])
  else if n = 0xED then some (0xD, [(0x80, 0x9F), any])
  else if n < 0xF0 then some (n - 0xE0, [any, any])
  else if n = 0xF0 then some (0, [(0x90, 0xBF), any, any])
  else if n < 0xF4 then some (n - 0xF0, [any, any, any])
  else if n = 0xF4 then some (4, [(0x80, 0x8F), any, any])
  else none

/-- Reads the bytes to follow: the code point, if all are in their ranges, and the rest. -/
def follow (code : Nat) : List (Nat × Nat) → List UInt8 → Option Nat × List UInt8
  | [], rest => (some code, rest)
  | _ :: _, [] => (none, [])
  | (low, high) :: ranges, b :: rest =>
    if low ≤ b.toNat ∧ b.toNat ≤ high then follow (code * 64 + (b.toNat - 0x80)) ranges rest
    else (none, b :: rest)

/-- The first character, if it is well formed, and the rest. -/
def next (b : UInt8) (rest : List UInt8) : Option Char × List UInt8 :=
  match lead? b with
  | none => (none, rest)
  | some (code, ranges) =>
    let (code, rest) := follow code ranges rest
    (code.map Char.ofNat, rest)

theorem length_follow_le (code : Nat) (ranges : List (Nat × Nat)) (bytes : List UInt8) :
    (follow code ranges bytes).2.length ≤ bytes.length := by
  fun_induction follow code ranges bytes with
  | case1 => simp
  | case2 => simp
  | case3 code low high ranges b rest h ih => simp only [List.length_cons]; omega
  | case4 => simp

theorem length_next_le (b : UInt8) (rest : List UInt8) : (next b rest).2.length ≤ rest.length := by
  unfold next
  split
  · simp
  · exact length_follow_le _ _ _

/-- The characters of bytes; nothing stands for a piece that is not well formed. -/
def scan : List UInt8 → List (Option Char)
  | [] => []
  | b :: rest => (next b rest).1 :: scan (next b rest).2
termination_by bytes => bytes.length
decreasing_by exact Nat.lt_succ_of_le (length_next_le b rest)

/-- The text of well-formed bytes. -/
def decode? (bytes : List UInt8) : Option (List Char) := (scan bytes).mapM id

/-- The character that stands for bytes that are none. -/
def replacement : Char := Char.ofNat 0xFFFD

/-- The text of any bytes. -/
def decodeLossy (bytes : List UInt8) : List Char := (scan bytes).map (·.getD replacement)

end CodeAtlas.Text.Utf8
