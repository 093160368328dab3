import CodeAtlas.Text.Utf8
import Mathlib.Tactic.SplitIfs

/-!
UTF-8 is read back as it was written: the bytes of a text are well formed and stand for the text,
whatever follows them.
-/
namespace CodeAtlas.Text.Utf8

/-! ## First bytes -/

theorem lead?_one : ∀ n < 0x80, lead? (UInt8.ofNat n) = some (n, []) := by decide

theorem lead?_two :
    ∀ n < 0x20, n < 2 ∨ lead? (UInt8.ofNat (n + 0xC0)) = some (n, [(0x80, 0xBF)]) := by
  decide

/-- The range of the second byte keeps out characters that need no third one, and surrogates. -/
theorem lead?_three : ∀ n < 0x10, lead? (UInt8.ofNat (n + 0xE0)) =
    some (n, [(if n = 0 then 0xA0 else 0x80, if n = 0xD then 0x9F else 0xBF), (0x80, 0xBF)]) := by
  decide

/-- The range of the second byte keeps out characters that need no fourth one, and numbers that
are beyond all characters. -/
theorem lead?_four : ∀ n < 5, lead? (UInt8.ofNat (n + 0xF0)) =
    some (n, [(if n = 0 then 0x90 else 0x80, if n = 4 then 0x8F else 0xBF), (0x80, 0xBF),
      (0x80, 0xBF)]) := by
  decide

/-! ## Characters and texts -/

variable {rest : List UInt8}

/-- The next six bits of a character. -/
theorem follow_bits {code low high n : Nat} {ranges : List (Nat × Nat)} (bits : n < 0x40)
    (above : low ≤ n + 0x80) (below : n + 0x80 ≤ high) :
    follow code ((low, high) :: ranges) (UInt8.ofNat (n + 0x80) :: rest) =
      follow (code * 0x40 + n) ranges rest := by
  have value : (UInt8.ofNat (n + 0x80)).toNat = n + 0x80 := UInt8.toNat_ofNat_of_lt' (by
    have : UInt8.size = 256 := rfl
    omega)
  rw [follow, value, if_pos ⟨above, below⟩, Nat.add_sub_cancel]

theorem scan_of_follow {b : UInt8} {bytes : List UInt8} {code n : Nat} {ranges : List (Nat × Nat)}
    (first : lead? b = some (code, ranges)) (rests : follow code ranges bytes = (some n, rest)) :
    scan (b :: bytes) = some (Char.ofNat n) :: scan rest := by
  rw [scan, next, first]
  simp only [rests, Option.map_some]

/-- The bytes of a character are read as that character. -/
theorem scan_encodeChar (c : Char) :
    scan (String.utf8EncodeChar c ++ rest) = some c :: scan rest := by
  have valid : c.val.toNat < 0xD800 ∨ 0xDFFF < c.val.toNat ∧ c.val.toNat < 0x110000 := c.valid
  rw [← Char.ofNat_toNat c]
  have value : (Char.ofNat c.toNat).val.toNat = c.val.toNat := by rw [Char.ofNat_toNat]
  simp only [String.utf8EncodeChar, value]
  show _ = some (Char.ofNat c.val.toNat) :: scan rest
  generalize c.val.toNat = v at valid
  -- one case for each number of bytes; the six-bit groups of the number are read in turn
  split_ifs with one two three <;> simp only [List.cons_append, List.nil_append]
  · exact scan_of_follow (lead?_one v (by omega)) rfl
  · refine scan_of_follow ((lead?_two (v / 64 % 32) (by omega)).resolve_left (by omega)) ?_
    rw [follow_bits (by omega) (by omega) (by omega)]
    exact congrArg (fun n => (some n, rest)) (by omega)
  · refine scan_of_follow (lead?_three (v / 4096 % 16) (by omega)) ?_
    have low : (if v / 4096 % 16 = 0 then 0xA0 else 0x80) ≤ v / 64 % 64 + 0x80 := by
      split_ifs <;> omega
    have high : v / 64 % 64 + 0x80 ≤ if v / 4096 % 16 = 0xD then 0x9F else 0xBF := by
      split_ifs <;> omega
    rw [follow_bits (by omega) low high,
      follow_bits (by omega) (by omega) (by omega)]
    exact congrArg (fun n => (some n, rest)) (by omega)
  · refine scan_of_follow (lead?_four (v / 262144 % 8) (by omega)) ?_
    have low : (if v / 262144 % 8 = 0 then 0x90 else 0x80) ≤ v / 4096 % 64 + 0x80 := by
      split_ifs <;> omega
    have high : v / 4096 % 64 + 0x80 ≤ if v / 262144 % 8 = 4 then 0x8F else 0xBF := by
      split_ifs <;> omega
    rw [follow_bits (by omega) low high,
      follow_bits (by omega) (by omega) (by omega),
      follow_bits (by omega) (by omega) (by omega)]
    exact congrArg (fun n => (some n, rest)) (by omega)

theorem scan_encode (s : List Char) : scan (encode s) = s.map some := by
  induction s with
  | nil => rw [encode, List.flatMap_nil, scan, List.map_nil]
  | cons c s ih => rw [encode, List.flatMap_cons, scan_encodeChar, List.map_cons, ← ih, encode]

/-- The bytes of a text are read as that text. -/
theorem decode?_encode (s : List Char) : decode? (encode s) = some s := by
  have all : (s.map some).mapM id = some (s.map id) := by
    rw [List.mapM_map]
    exact List.mapM_pure
  rw [decode?, scan_encode, all, List.map_id]

theorem encode_append (a b : List Char) : encode (a ++ b) = encode a ++ encode b :=
  List.flatMap_append

theorem decodeLossy_encode (s : List Char) : decodeLossy (encode s) = s := by
  rw [decodeLossy, scan_encode, List.map_map]
  exact List.map_id' s

theorem encode_inj {a b : List Char} (same : encode a = encode b) : a = b := by
  rw [← decodeLossy_encode a, same, decodeLossy_encode]

/-! ## Bytes of ASCII -/

theorem low_of_lead? : ∀ n < 0x100,
    ∀ r ∈ ((lead? (UInt8.ofNat n)).map Prod.snd).getD [], 0x80 ≤ r.1 := by
  decide +kernel

/-- A byte of ASCII follows no first byte. -/
theorem follow_append {b : UInt8} (ascii : b.toNat < 0x80) {ranges : List (Nat × Nat)}
    (low : ∀ r ∈ ranges, 0x80 ≤ r.1) (code : Nat) (bytes : List UInt8) :
    follow code ranges (bytes ++ b :: rest) =
      ((follow code ranges bytes).1, (follow code ranges bytes).2 ++ b :: rest) := by
  fun_induction follow code ranges bytes with
  | case1 => rfl
  | case2 code range ranges =>
    have first := low range List.mem_cons_self
    exact if_neg fun within => absurd within.1 (by omega)
  | case3 code least most ranges x bytes within ih =>
    rw [List.cons_append, follow, if_pos within]
    exact ih (List.forall_mem_cons.mp low).2
  | case4 code least most ranges x bytes out =>
    rw [List.cons_append, follow, if_neg out]

/-- A byte of ASCII is read as its character, whatever stands around it. -/
theorem scan_append {b : UInt8} (ascii : b.toNat < 0x80) (front : List UInt8) :
    scan (front ++ b :: rest) = scan front ++ some (Char.ofNat b.toNat) :: scan rest := by
  fun_induction scan front with
  | case1 =>
    have one := lead?_one b.toNat ascii
    rw [UInt8.ofNat_toNat] at one
    exact scan_of_follow one rfl
  | case2 x front ih =>
    have ahead : next x (front ++ b :: rest) = ((next x front).1, (next x front).2 ++ b :: rest) := by
      have low := low_of_lead? x.toNat x.toNat_lt
      rw [UInt8.ofNat_toNat] at low
      unfold next
      split
      · rfl
      · rename_i code ranges found
        rw [found, Option.map_some, Option.getD_some] at low
        rw [follow_append ascii low]
    rw [List.cons_append, scan, ahead, ih]
    rfl

theorem scan_ascii {bytes : List UInt8} (ascii : ∀ b ∈ bytes, b.toNat < 0x80) :
    scan (bytes ++ rest) = (bytes.map fun b => some (Char.ofNat b.toNat)) ++ scan rest := by
  induction bytes with
  | nil => rfl
  | cons b bytes ih =>
    obtain ⟨first, others⟩ := List.forall_mem_cons.mp ascii
    have read : scan ([] ++ b :: (bytes ++ rest)) =
        scan [] ++ some (Char.ofNat b.toNat) :: scan (bytes ++ rest) := scan_append first []
    rw [ih others, scan] at read
    exact read

/-- Bytes of ASCII are read as their characters, whatever stands around them. -/
theorem decodeLossy_ascii {b : UInt8} {bytes : List UInt8} (ascii : ∀ x ∈ b :: bytes, x.toNat < 0x80)
    (front : List UInt8) : decodeLossy (front ++ (b :: bytes) ++ rest) =
      decodeLossy front ++ ((b :: bytes).map fun x => Char.ofNat x.toNat) ++ decodeLossy rest := by
  obtain ⟨first, others⟩ := List.forall_mem_cons.mp ascii
  rw [decodeLossy, List.append_assoc, List.cons_append, scan_append first, scan_ascii others]
  simp [decodeLossy]

end CodeAtlas.Text.Utf8
