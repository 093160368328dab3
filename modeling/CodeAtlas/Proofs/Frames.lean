import CodeAtlas.Proofs.Cutting
import CodeAtlas.Proofs.Utf8
import CodeAtlas.Server.Frame
import Mathlib.Data.List.Basic

/-!
Frames are read back as they were written. The header of a frame is a block of lines; its end is
where a line is empty, so no line of it is taken for its end (`readHeader_block`), and the one line
that tells the length tells it wherever it stands (`length?_headerText`). So a stream of frames is cut
exactly between them (`frames_read_back`), whatever the bodies hold and whatever follows. Only a header
that tells more than memory can hold breaks the reading off (`read_overflow`).
-/
namespace CodeAtlas.Frame

/-! ## The end of a header -/

variable {rest : List UInt8}

/-- Bytes without a newline do not end a header. -/
theorem readHeader_skip {bytes : List UInt8} (h : 10 ∉ bytes) (done : List UInt8) (room : Nat) :
    readHeader done (bytes.length + room) (bytes ++ rest) =
      readHeader (bytes.reverse ++ done) room rest := by
  induction bytes generalizing done with
  | nil => rw [List.length_nil, Nat.zero_add, List.nil_append, List.reverse_nil, List.nil_append]
  | cons b bytes ih =>
    obtain ⟨first, others⟩ := not_or.mp (mt List.mem_cons.mpr h)
    have unfinished : headerEnd.isPrefixOf (b :: done) = false := by
      simp [headerEnd, List.isPrefixOf, first]
    rw [List.length_cons, Nat.add_right_comm, List.cons_append, readHeader, unfinished,
      if_neg Bool.false_ne_true, ih others, List.reverse_cons, List.append_assoc,
      List.singleton_append]

/-- A line that is not empty does not end a header. -/
theorem readHeader_line {line : List UInt8} (filled : line ≠ []) (h : 10 ∉ line)
    (done : List UInt8) (room : Nat) :
    readHeader done ((line ++ [13, 10]).length + room) (line ++ [13, 10] ++ rest) =
      readHeader (10 :: 13 :: (line.reverse ++ done)) room rest := by
  have unbroken : 10 ∉ line ++ [13] := by simpa using h
  have skipped := @readHeader_skip (10 :: rest) _ unbroken done (room + 1)
  -- the end has a newline two bytes before its last byte; here the line's last byte stands there
  have unfinished : headerEnd.isPrefixOf (10 :: 13 :: (line.reverse ++ done)) = false := by
    obtain ⟨last, before, hl⟩ := List.exists_cons_of_ne_nil (List.reverse_ne_nil_iff.mpr filled)
    have other : 10 ≠ last := by
      rintro rfl
      exact h (List.mem_reverse.mp (hl ▸ List.mem_cons_self))
    simp [headerEnd, List.isPrefixOf, hl, other]
  rw [List.reverse_append, List.reverse_singleton, List.cons_append, List.cons_append,
    List.nil_append, readHeader, unfinished, if_neg Bool.false_ne_true] at skipped
  rw [← skipped]
  simp only [List.length_append, List.length_cons, List.length_nil, List.append_assoc,
    List.cons_append, List.nil_append]
  congr 1
  omega

/-- The bytes of a header with the given lines. -/
def block (lines : List (List UInt8)) : List UInt8 :=
  lines.flatMap (· ++ [13, 10]) ++ [13, 10]

/-- Behind the end of a line, a header goes on up to its empty line. -/
theorem readHeader_lines {lines : List (List UInt8)}
    (h : ∀ line ∈ lines, line ≠ [] ∧ 10 ∉ line) (done : List UInt8) (room : Nat) :
    readHeader (10 :: 13 :: done) ((block lines).length + room) (block lines ++ rest) =
      (.ok ((10 :: 13 :: done).reverse ++ block lines), rest) := by
  induction lines generalizing done with
  | nil =>
    have size : (block []).length + room = room + 1 + 1 := Nat.add_comm 2 room
    have bytes : block [] ++ rest = 13 :: 10 :: rest := rfl
    rw [size, bytes]
    simp [readHeader, headerEnd, List.isPrefixOf, block]
  | cons line lines ih =>
    obtain ⟨filled, unbroken⟩ := h line List.mem_cons_self
    have split : block (line :: lines) = line ++ [13, 10] ++ block lines := by
      rw [block, List.flatMap_cons, List.append_assoc, block]
    rw [split, List.length_append, Nat.add_assoc, List.append_assoc,
      readHeader_line filled unbroken, ih fun line hl => h line (List.mem_cons_of_mem _ hl)]
    simp

/-- A header of lines that are not empty is read up to its empty line. -/
theorem readHeader_block {lines : List (List UInt8)} (some_line : lines ≠ [])
    (h : ∀ line ∈ lines, line ≠ [] ∧ 10 ∉ line) {room : Nat} (fits : (block lines).length ≤ room) :
    readHeader [] room (block lines ++ rest) = (.ok (block lines), rest) := by
  obtain ⟨line, lines, rfl⟩ := List.exists_cons_of_ne_nil some_line
  obtain ⟨filled, unbroken⟩ := h line List.mem_cons_self
  have split : block (line :: lines) = line ++ [13, 10] ++ block lines := by
    rw [block, List.flatMap_cons, List.append_assoc, block]
  obtain ⟨spare, rfl⟩ := Nat.exists_eq_add_of_le fits
  rw [split, List.length_append, Nat.add_assoc, List.append_assoc, readHeader_line filled unbroken,
    readHeader_lines fun line hl => h line (List.mem_cons_of_mem _ hl)]
  simp

/-- The end of a header. -/
def terminator : List UInt8 := [13, 10, 13, 10]

theorem suffix_of_isPrefixOf {done : List UInt8} (h : headerEnd.isPrefixOf done = true) :
    terminator <:+ done.reverse :=
  List.reverse_prefix.mp (by rw [List.reverse_reverse]; exact List.isPrefixOf_iff_prefix.mp h)

/-- A header that has not ended in the room there is for it is refused one byte behind. -/
theorem readHeader_overflow {stream done : List UInt8} {room : Nat} (more : room < stream.length)
    (h : ¬ terminator <:+: done.reverse ++ stream.take room) :
    readHeader done room stream =
      (.error (.breach .headerTooLarge), stream.drop (room + 1)) := by
  induction room generalizing stream done with
  | zero =>
    obtain ⟨b, rest, rfl⟩ := List.exists_cons_of_length_pos more
    rw [readHeader, List.drop_succ_cons, List.drop_zero]
  | succ room ih =>
    obtain ⟨b, rest, rfl⟩ := List.exists_cons_of_length_pos (Nat.zero_lt_of_lt more)
    have read :
        (b :: done).reverse ++ rest.take room = done.reverse ++ (b :: rest).take (room + 1) := by
      rw [List.reverse_cons, List.append_assoc, List.singleton_append, List.take_succ_cons]
    have unfinished : headerEnd.isPrefixOf (b :: done) = false := by
      refine Bool.eq_false_iff.mpr fun ends => h ?_
      rw [← read]
      exact (suffix_of_isPrefixOf ends).isInfix.trans (List.prefix_append _ _).isInfix
    rw [readHeader, unfinished, if_neg Bool.false_ne_true,
      ih (Nat.lt_of_succ_lt_succ more) (read ▸ h), List.drop_succ_cons]

/-! ## Lines -/

theorem headerLines_append {line rest : List Char} (h : '\r' ∉ line) :
    headerLines (line ++ '\r' :: '\n' :: rest) = line :: headerLines rest := by
  induction line with
  | nil => rw [List.nil_append, headerLines]
  | cons c line ih =>
    obtain ⟨first, others⟩ := not_or.mp (mt List.mem_cons.mpr h)
    rw [List.cons_append, headerLines, ih others]
    rintro - rfl
    exact absurd rfl first

/-- A line of a header: what stands before and behind its first colon. -/
structure HeaderLine where
  key : List Char
  value : List Char

/-- A number without its plus sign. -/
def unsigned : List Char → List Char
  | '+' :: rest => rest
  | other => other

namespace HeaderLine

def text (l : HeaderLine) : List Char := l.key ++ ':' :: l.value

/-- The colon that ends the key is the first one, and nothing in the line ends the line. -/
structure Sound (l : HeaderLine) : Prop where
  key : ':' ∉ l.key
  no_return : '\r' ∉ l.text
  no_newline : '\n' ∉ l.text

/-- The line is about the length of the body. Letter case is immaterial, and so are blanks. -/
def IsLength (l : HeaderLine) : Prop := Text.lower (Text.trim l.key) = "content-length".toList

/-- The line tells a length in decimal digits, perhaps behind a plus sign. -/
structure Tells (l : HeaderLine) (n : Nat) : Prop where
  isLength : l.IsLength
  filled : unsigned (Text.trim l.value) ≠ []
  digits : ∀ c ∈ unsigned (Text.trim l.value), c.isDigit
  value : Nat.ofDigitChars 10 (unsigned (Text.trim l.value)) 0 = n

end HeaderLine

/-- The text of a header with the given lines. -/
def headerText (lines : List HeaderLine) : List Char :=
  lines.flatMap (fun l => l.text ++ ['\r', '\n']) ++ ['\r', '\n']

theorem headerLines_headerText {lines : List HeaderLine} (h : ∀ l ∈ lines, l.Sound) :
    headerLines (headerText lines) = lines.map HeaderLine.text ++ [[], []] := by
  induction lines with
  | nil => rfl
  | cons l lines ih =>
    have split : headerText (l :: lines) = l.text ++ '\r' :: '\n' :: headerText lines := by
      simp [headerText]
    rw [split, headerLines_append (h l List.mem_cons_self).no_return,
      ih fun l hl => h l (List.mem_cons_of_mem _ hl), List.map_cons, List.cons_append]

/-- The pieces of a header that hold a colon are its lines. -/
theorem pieces_headerText {lines : List HeaderLine} (h : ∀ l ∈ lines, l.Sound) :
    (headerLines (headerText lines)).filterMap (Text.splitFirst ':') =
      lines.map fun l => (l.key, l.value) := by
  have cut : ∀ l ∈ lines, Text.splitFirst ':' l.text = some (l.key, l.value) := fun l hl =>
    Text.splitFirst_append (h l hl).key l.value
  have empty : ([[], []] : List (List Char)).filterMap (Text.splitFirst ':') = [] := rfl
  rw [headerLines_headerText h, List.filterMap_append, empty, List.append_nil, List.filterMap_map,
    ← List.filterMap_eq_map]
  exact List.filterMap_congr cut

/-- The one line that tells the length tells it wherever it stands. -/
theorem lengthValue?_headerText {before after : List HeaderLine} {line : HeaderLine}
    (h : ∀ l ∈ before ++ line :: after, l.Sound) (tells : line.IsLength)
    (others : ∀ l ∈ before, ¬ l.IsLength) :
    lengthValue? (headerText (before ++ line :: after)) = some line.value := by
  have skipped : (before.map fun l => (l.key, l.value)).find?
      (fun piece => Text.lower (Text.trim piece.1) == "content-length".toList) = none := by
    rw [List.find?_eq_none]
    intro piece hp
    obtain ⟨l, hl, rfl⟩ := List.mem_map.mp hp
    exact fun is => others l hl (beq_iff_eq.mp is)
  rw [lengthValue?, pieces_headerText h, List.map_append, List.find?_append, skipped,
    Option.none_or, List.map_cons, List.find?_cons, beq_iff_eq.mpr tells]
  rfl

/-! ## Lengths -/

theorem isAsciiDigit_eq (c : Char) : Text.isAsciiDigit c = c.isDigit := by
  simp [Text.isAsciiDigit, Char.isDigit, UInt32.le_iff_toNat_le]

theorem ofDigits_eq (digits : List Char) :
    Text.ofDigits digits = Nat.ofDigitChars 10 digits 0 := by
  rw [Text.ofDigits, Nat.ofDigitChars]
  congr 1
  funext n c
  exact congrArg (· + _) (Nat.mul_comm n 10)

theorem number?_of_digits {s : List Char} (filled : unsigned s ≠ [])
    (digits : ∀ c ∈ unsigned s, c.isDigit)
    (small : Nat.ofDigitChars 10 (unsigned s) 0 < UInt64.size) :
    Text.number? s = some (Nat.ofDigitChars 10 (unsigned s) 0) := by
  have all : (unsigned s).all Text.isAsciiDigit = true :=
    List.all_eq_true.mpr fun c hc => (isAsciiDigit_eq c).trans (digits c hc)
  have counted : ((unsigned s).isEmpty || !(unsigned s).all Text.isAsciiDigit) = false := by
    rw [List.isEmpty_eq_false_iff.mpr filled, all]
    rfl
  have split : Text.number? s =
      if (unsigned s).isEmpty || !(unsigned s).all Text.isAsciiDigit then none
      else if Text.ofDigits (unsigned s) < UInt64.size then some (Text.ofDigits (unsigned s))
      else none := rfl
  rw [split, counted, if_neg Bool.false_ne_true, ofDigits_eq, if_pos small]

theorem unsigned_of_digits {s : List Char} (digits : ∀ c ∈ s, c.isDigit) : unsigned s = s := by
  unfold unsigned
  split
  · exact absurd (digits '+' List.mem_cons_self) (by decide)
  · rfl

/-- A header tells the length that its one line about it tells. -/
theorem length?_headerText {before after : List HeaderLine} {line : HeaderLine} {n : Nat}
    (h : ∀ l ∈ before ++ line :: after, l.Sound) (tells : line.Tells n)
    (others : ∀ l ∈ before, ¬ l.IsLength) (positive : 0 < n) (small : n < UInt64.size) :
    length? (headerText (before ++ line :: after)) = some n := by
  have read : Text.number? (Text.trim line.value) = some n := by
    rw [number?_of_digits tells.filled tells.digits (by rwa [tells.value]), tells.value]
  rw [length?, lengthValue?_headerText h tells.isLength others]
  simp [read, Nat.ne_of_gt positive]

/-! ## Bytes -/

theorem encode_append (s t : List Char) :
    Text.Utf8.encode (s ++ t) = Text.Utf8.encode s ++ Text.Utf8.encode t :=
  List.flatMap_append

theorem encode_headerText (lines : List HeaderLine) :
    Text.Utf8.encode (headerText lines) = block (lines.map fun l => Text.Utf8.encode l.text) := by
  have line : ∀ l : HeaderLine, Text.Utf8.encode (l.text ++ ['\r', '\n']) =
      Text.Utf8.encode l.text ++ [13, 10] := fun l => encode_append _ _
  rw [headerText, encode_append, block, List.flatMap_map]
  congr 1
  rw [Text.Utf8.encode, List.flatMap_assoc]
  exact List.flatMap_congr fun l _ => line l

/-- A byte of ASCII is in no other character's bytes. -/
theorem mem_encodeChar {c : Char} {b : UInt8} (h : b ∈ String.utf8EncodeChar c) :
    b.toNat = c.val.toNat ∨ 0x80 ≤ b.toNat := by
  simp only [String.utf8EncodeChar] at h
  split_ifs at h <;>
    simp only [List.mem_cons, List.not_mem_nil, or_false, ← UInt8.toNat_inj,
      UInt8.toNat_ofNat'] at h <;>
    omega

theorem newline_of_mem_encode {s : List Char} (h : 10 ∈ Text.Utf8.encode s) : '\n' ∈ s := by
  obtain ⟨c, hc, hb⟩ := List.mem_flatMap.mp h
  have same : c = '\n' := Char.ext (UInt32.toNat_inj.mp
    ((mem_encodeChar hb).resolve_right (by decide)).symm)
  exact same ▸ hc

theorem encode_ne_nil {s : List Char} (h : s ≠ []) : Text.Utf8.encode s ≠ [] := by
  obtain ⟨c, s, rfl⟩ := List.exists_cons_of_ne_nil h
  have char := Char.utf8Size_pos c
  rw [← String.length_utf8EncodeChar] at char
  exact List.append_ne_nil_of_left_ne_nil (List.ne_nil_of_length_pos char) _

/-! ## Headers -/

/-- The lines of a header are sound, the header is not too large, and the first of its lines that is
about the length of the body tells it. -/
structure Announces (header : List HeaderLine) (n : Nat) : Prop where
  lines : ∀ l ∈ header, l.Sound
  fits : (Text.Utf8.encode (headerText header)).length ≤ maxHeader
  length : ∃ before line after, header = before ++ line :: after ∧
    line.Tells n ∧ ∀ l ∈ before, ¬ l.IsLength

namespace Announces

variable {header : List HeaderLine} {n : Nat}

theorem readHeader_eq (h : Announces header n) (rest : List UInt8) :
    readHeader [] maxHeader (Text.Utf8.encode (headerText header) ++ rest) =
      (.ok (Text.Utf8.encode (headerText header)), rest) := by
  obtain ⟨before, line, after, split, -, -⟩ := h.length
  have lines : ∀ bytes ∈ header.map fun l => Text.Utf8.encode l.text, bytes ≠ [] ∧ 10 ∉ bytes := by
    refine List.forall_mem_map.mpr fun l hl => ⟨encode_ne_nil ?_, fun newline => ?_⟩
    · simp [HeaderLine.text]
    · exact (h.lines l hl).no_newline (newline_of_mem_encode newline)
  have some_line : (header.map fun l => Text.Utf8.encode l.text) ≠ [] := by simp [split]
  have fits := h.fits
  rw [encode_headerText] at fits ⊢
  exact readHeader_block some_line lines fits

theorem length?_eq (h : Announces header n) (positive : 0 < n) (small : n < UInt64.size) :
    length? (headerText header) = some n := by
  obtain ⟨before, line, after, split, tells, others⟩ := h.length
  have sound := h.lines
  rw [split] at sound ⊢
  exact length?_headerText sound tells others positive small

/-- Behind a header, its body is read. -/
theorem read_eq (h : Announces header n) (positive : 0 < n) (small : n < UInt64.size)
    (rest : List UInt8) :
    read (Text.Utf8.encode (headerText header) ++ rest) =
      if maxBody < n then (.error overflow, rest)
      else if n ≤ rest.length then (.ok (rest.take n), rest.drop n)
      else (.error .io, []) := by
  rw [read, h.readHeader_eq]
  simp only [readBody, Text.Utf8.decode?_encode, h.length?_eq positive small]

end Announces

/-- Where a header tells more bytes than memory can be asked for, reading breaks off right behind
it. -/
theorem read_overflow {header : List HeaderLine} {n : Nat} (h : Announces header n)
    (large : maxBody < n) (small : n < UInt64.size) (rest : List UInt8) :
    read (Text.Utf8.encode (headerText header) ++ rest) = (.error overflow, rest) := by
  rw [h.read_eq (Nat.zero_lt_of_lt large) small, if_pos large]

/-! ## Frames -/

/-- A frame as it may be sent: a header of lines and a body. -/
structure Packet where
  header : List HeaderLine
  body : List UInt8

namespace Packet

def bytes (p : Packet) : List UInt8 := Text.Utf8.encode (headerText p.header) ++ p.body

/-- The header announces the body, which is not empty and can be held in memory. -/
structure Sound (p : Packet) : Prop extends Announces p.header p.body.length where
  filled : p.body ≠ []
  small : p.body.length ≤ maxBody

end Packet

/-- A sound frame is read up to its end. -/
theorem read_packet {p : Packet} (h : p.Sound) (rest : List UInt8) :
    read (p.bytes ++ rest) = (.ok p.body, rest) := by
  have small : p.body.length < UInt64.size := Nat.lt_of_le_of_lt h.small (by decide)
  rw [Packet.bytes, List.append_assoc, h.read_eq (List.length_pos_of_ne_nil h.filled) small,
    if_neg (Nat.not_lt.mpr h.small), if_pos (by simp), List.take_left, List.drop_left]

/-- Reads frames one after another: what each gives, and the rest of the stream. -/
def readMany : Nat → List UInt8 → List (Except ServerFault (List UInt8)) × List UInt8
  | 0, stream => ([], stream)
  | count + 1, stream =>
    let (body, rest) := read stream
    let (bodies, rest) := readMany count rest
    (body :: bodies, rest)

theorem readMany_packets {packets : List Packet} (h : ∀ p ∈ packets, p.Sound)
    (rest : List UInt8) :
    readMany packets.length (packets.flatMap Packet.bytes ++ rest) =
      (packets.map fun p => .ok p.body, rest) := by
  induction packets with
  | nil => rfl
  | cons p packets ih =>
    rw [List.length_cons, List.flatMap_cons, List.append_assoc, readMany,
      read_packet (h p List.mem_cons_self)]
    simp only [ih fun p hp => h p (List.mem_cons_of_mem _ hp), List.map_cons]

/-! ## Frames as they are written -/

/-- The header that is written for a length. -/
def lengthLine (n : Nat) : HeaderLine := ⟨"Content-Length".toList, ' ' :: Nat.toDigits 10 n⟩

theorem not_isBlank_of_isDigit {c : Char} (h : c.isDigit) : Text.isBlank c = false := by
  simp only [← isAsciiDigit_eq, Text.isAsciiDigit, Bool.and_eq_true, decide_eq_true_eq] at h
  simp only [Text.isBlank]
  rw [if_pos (by omega)]
  simp only [Bool.or_eq_false_iff, beq_eq_false_iff_ne, Bool.and_eq_false_iff,
    decide_eq_false_iff_not]
  omega

theorem isDigit_of_mem_decimal {n : Nat} {c : Char} (h : c ∈ Nat.toDigits 10 n) : c.isDigit :=
  Nat.isDigit_of_mem_toDigits (by decide) (by decide) h

theorem lengthLine_tells (n : Nat) : (lengthLine n).Tells n := by
  have spaced : Text.trim (lengthLine n).value = Nat.toDigits 10 n :=
    (Text.trim_cons_blank (by decide)).trans (Text.Tight.of_unblank fun c hc =>
      not_isBlank_of_isDigit (isDigit_of_mem_decimal hc)).trim_eq
  have trimmed : unsigned (Text.trim (lengthLine n).value) = Nat.toDigits 10 n := by
    rw [spaced]
    exact unsigned_of_digits fun c hc => isDigit_of_mem_decimal hc
  have about : Text.lower (Text.trim "Content-Length".toList) = "content-length".toList := by
    decide +kernel
  exact {
    isLength := about
    filled := by rw [trimmed]; exact Nat.toDigits_ne_nil
    digits := by rw [trimmed]; exact fun c => isDigit_of_mem_decimal
    value := by rw [trimmed]; exact Nat.ofDigitChars_ten_toDigits }

theorem text_lengthLine (n : Nat) :
    (lengthLine n).text = "Content-Length: ".toList ++ Nat.toDigits 10 n := by
  have name : "Content-Length: ".toList = "Content-Length".toList ++ [':', ' '] := by decide
  rw [name, List.append_assoc]
  rfl

theorem lengthLine_sound (n : Nat) : (lengthLine n).Sound := by
  have unbroken : ∀ c : Char, c.isDigit = false → c ∉ "Content-Length: ".toList →
      c ∉ (lengthLine n).text := by
    intro c other h mem
    rw [text_lengthLine] at mem
    rcases List.mem_append.mp mem with name | digit
    · exact h name
    · exact Bool.eq_false_iff.mp other (isDigit_of_mem_decimal digit)
  exact ⟨show ':' ∉ "Content-Length".toList by decide, unbroken '\r' (by decide) (by decide),
    unbroken '\n' (by decide) (by decide)⟩

theorem ascii_eq {s : String} (h : ∀ c ∈ s.toList, c.val.toNat ≤ 0x7F) :
    ascii s = Text.Utf8.encode s.toList := by
  have char : ∀ c ∈ s.toList, String.utf8EncodeChar c = [UInt8.ofNat c.val.toNat] := fun c hc =>
    if_pos (h c hc)
  rw [ascii, Text.Utf8.encode, List.flatMap_congr char, List.map_eq_flatMap]

theorem toList_lengthHeader (n : Nat) :
    ("Content-Length: " ++ toString n ++ "\r\n\r\n").toList =
      "Content-Length: ".toList ++ Nat.toDigits 10 n ++ "\r\n\r\n".toList := by
  have digits : (toString n).toList = Nat.toDigits 10 n := by
    rw [Nat.toString_eq_ofList_toDigits, String.toList_ofList]
  rw [String.toList_append, String.toList_append, digits]

theorem ascii_lengthHeader (n : Nat) :
    ascii ("Content-Length: " ++ toString n ++ "\r\n\r\n") =
      Text.Utf8.encode (headerText [lengthLine n]) := by
  have text :
      ("Content-Length: " ++ toString n ++ "\r\n\r\n").toList = headerText [lengthLine n] := by
    rw [toList_lengthHeader]
    simp [headerText, text_lengthLine]
  rw [← text]
  refine ascii_eq fun c hc => ?_
  rw [toList_lengthHeader] at hc
  have small_name : "Content-Length: ".toList.all (·.val.toNat ≤ 0x7F) = true := by decide
  have small_end : "\r\n\r\n".toList.all (·.val.toNat ≤ 0x7F) = true := by decide
  rcases List.mem_append.mp hc with front | last
  · rcases List.mem_append.mp front with name | digit
    · exact of_decide_eq_true (List.all_eq_true.mp small_name c name)
    · have digit := isDigit_of_mem_decimal digit
      simp only [← isAsciiDigit_eq, Text.isAsciiDigit, Bool.and_eq_true, decide_eq_true_eq] at digit
      omega
  · exact of_decide_eq_true (List.all_eq_true.mp small_end c last)

/-- A frame is written with the line that tells its length and no other. -/
theorem ofBody_eq (body : List UInt8) :
    ofBody body = Packet.bytes ⟨[lengthLine body.length], body⟩ :=
  congrArg (· ++ body) (ascii_lengthHeader body.length)

theorem announces_lengthLine {n : Nat} (small : n < UInt64.size) :
    Announces [lengthLine n] n where
  lines := List.forall_mem_singleton.mpr (lengthLine_sound _)
  fits := by
    have digits : (Nat.toDigits 10 n).length ≤ 20 :=
      (Nat.length_toDigits_le_iff (by decide) (by decide)).mpr (Nat.lt_trans small (by decide))
    rw [← ascii_lengthHeader, ascii, List.length_map, toList_lengthHeader, List.length_append,
      List.length_append]
    have names : "Content-Length: ".toList.length = 16 ∧ "\r\n\r\n".toList.length = 4 := by decide
    rw [maxHeader]
    omega
  length := ⟨[], _, [], rfl, lengthLine_tells _, fun l hl => absurd hl List.not_mem_nil⟩

theorem sound_of_body {body : List UInt8} (filled : body ≠ []) (small : body.length ≤ maxBody) :
    Packet.Sound ⟨[lengthLine body.length], body⟩ where
  toAnnounces := announces_lengthLine (Nat.lt_of_le_of_lt small (by decide))
  filled := filled
  small := small

/-- The body of the frame of a value. -/
def bodyOf (j : Json) : List UInt8 := Text.Utf8.encode j.compact.toList

theorem decimalText_ne_nil (d : Json.Decimal) : d.text ≠ [] := by
  simp only [Json.Decimal.text]
  split
  · simp
  split
  · simp
  split
  · simp
  split <;> simp

theorem numberText_ne_nil (n : Json.Number) : n.text.toList ≠ [] := by
  cases n with
  | integer n =>
    cases n with
    | ofNat n =>
      show (toString n).toList ≠ []
      rw [Nat.toString_eq_ofList_toDigits, String.toList_ofList]
      exact Nat.toDigits_ne_nil
    | negSucc n =>
      show ("-" ++ _ : String).toList ≠ []
      simp
  | float bits =>
    rw [Json.Number.text, String.toList_ofList, Json.Decimal.floatText]
    refine List.append_ne_nil_of_right_ne_nil _ ?_
    split_ifs
    · exact List.cons_ne_nil _ _
    · exact decimalText_ne_nil _

/-- A value is written with at least one character. -/
theorem compact_ne_nil (j : Json) : j.compact.toList ≠ [] := by
  unfold Json.compact
  cases j with
  | null | unreadable => simp [Json.write]
  | bool b => cases b <;> simp [Json.write]
  | number n => simpa [Json.write] using numberText_ne_nil n
  | string s => simp [Json.write, Json.quoted]
  | array items => simp [Json.write]
  | object members => simp [Json.write]

theorem flatMap_ofJson (values : List Json) :
    values.flatMap ofJson =
      (values.map fun j => (⟨[lengthLine (bodyOf j).length], bodyOf j⟩ : Packet)).flatMap
        Packet.bytes := by
  rw [List.flatMap_map]
  exact List.flatMap_congr fun j _ => ofBody_eq (bodyOf j)

/-- Frames are read back as they were written. From the frames of any values, whatever bytes follow,
as many reads give the texts of the values in order and leave exactly the bytes that follow. The
same holds for frames with other headers, of at most `maxHeader` bytes, as long as the first line
about the length, in any letter case and position, tells it. A header that is larger is refused with
one byte more read. Texts are not empty, and of at most `maxBody` bytes as all that is in memory is;
a header that tells more breaks the reading off and takes nothing from behind itself. -/
theorem frames_read_back :
    (∀ (values : List Json) (rest : List UInt8), (∀ j ∈ values, (bodyOf j).length ≤ maxBody) →
      readMany values.length (values.flatMap ofJson ++ rest) =
        (values.map fun j => .ok (bodyOf j), rest)) ∧
    (∀ (packets : List Packet) (rest : List UInt8), (∀ p ∈ packets, p.Sound) →
      readMany packets.length (packets.flatMap Packet.bytes ++ rest) =
        (packets.map fun p => .ok p.body, rest)) ∧
    (∀ stream : List UInt8, maxHeader < stream.length → ¬ terminator <:+: stream.take maxHeader →
      read stream = (.error (.breach .headerTooLarge), stream.drop (maxHeader + 1))) ∧
    ∀ (header : List HeaderLine) (n : Nat) (rest : List UInt8), Announces header n → maxBody < n →
      n < UInt64.size →
        read (Text.Utf8.encode (headerText header) ++ rest) = (.error overflow, rest) := by
  refine ⟨fun values rest small => ?_, fun packets rest sound => readMany_packets sound rest, ?_,
    fun header n rest announces large small => read_overflow announces large small rest⟩
  · have sound : ∀ p ∈ values.map fun j => (⟨[lengthLine (bodyOf j).length], bodyOf j⟩ : Packet),
        p.Sound := List.forall_mem_map.mpr fun j hj =>
      sound_of_body (encode_ne_nil (compact_ne_nil j)) (small j hj)
    have all := readMany_packets sound rest
    rwa [← flatMap_ofJson, List.length_map, List.map_map] at all
  · intro stream more unfinished
    have nothing_done : ¬ terminator <:+: ([] : List UInt8).reverse ++ stream.take maxHeader :=
      unfinished
    rw [read, readHeader_overflow more nothing_done]

/-- A line about something else. -/
def typeLine : HeaderLine := ⟨"Content-Type".toList, " a:b".toList⟩

/-- A line about the length, in other letters, with blanks, a plus sign and a zero in front. -/
def sizeLine : HeaderLine := ⟨" CONTENT-length".toList, " +025 ".toList⟩

/-- A frame whose length stands in the second line of the header, and whose body looks like a
header. -/
def tricky : Packet := ⟨[typeLine, sizeLine], ascii "Content-Length: 9\r\n\r\n\r\n\r\n"⟩

theorem tricky_sound : tricky.Sound where
  lines := by
    have first : typeLine.Sound := ⟨by decide, by decide, by decide⟩
    have second : sizeLine.Sound := ⟨by decide, by decide, by decide⟩
    exact List.forall_mem_cons.mpr ⟨first, List.forall_mem_singleton.mpr second⟩
  fits := by decide +kernel
  length := by
    have tells : sizeLine.Tells 25 := {
      isLength := by
        show Text.lower (Text.trim sizeLine.key) = "content-length".toList
        decide +kernel
      filled := by decide +kernel
      digits := List.all_eq_true.mp (by decide +kernel)
      value := by decide +kernel }
    have other : ¬ typeLine.IsLength := by
      show ¬ Text.lower (Text.trim typeLine.key) = "content-length".toList
      decide +kernel
    exact ⟨[typeLine], sizeLine, [], rfl, tells, List.forall_mem_singleton.mpr other⟩
  filled := by decide +kernel
  small := by decide +kernel

/-- Two frames with other headers, the frame of a value, a header without an end, and one that tells
more than memory can hold. -/
theorem frames_read_back_tricky :
    (bodyOf (.array [.null])).length ≤ maxBody ∧ tricky.Sound ∧
      maxHeader < (List.replicate (maxHeader + 2) (97 : UInt8)).length ∧
      ¬ terminator <:+: (List.replicate (maxHeader + 2) 97).take maxHeader ∧
      readMany 1 ([Json.array [.null]].flatMap ofJson ++ [13]) = ([.ok (ascii "[null]")], [13]) ∧
      readMany 2 ([tricky, tricky].flatMap Packet.bytes ++ [13]) =
        ([.ok tricky.body, .ok tricky.body], [13]) ∧
      read (List.replicate (maxHeader + 2) 97) = (.error (.breach .headerTooLarge), [97]) ∧
      Announces [lengthLine (maxBody + 1)] (maxBody + 1) ∧ maxBody < maxBody + 1 ∧
      maxBody + 1 < UInt64.size ∧
      read (Text.Utf8.encode (headerText [lengthLine (maxBody + 1)]) ++ [123, 125]) =
        (.error overflow, [123, 125]) := by
  have small : (bodyOf (.array [.null])).length ≤ maxBody := by decide +kernel
  have text : bodyOf (.array [.null]) = ascii "[null]" := by decide +kernel
  have long : maxHeader < (List.replicate (maxHeader + 2) (97 : UInt8)).length := by
    rw [List.length_replicate]
    exact Nat.lt_add_of_pos_right (by decide)
  have endless : ¬ terminator <:+: (List.replicate (maxHeader + 2) 97).take maxHeader := by
    intro found
    have returns : 13 ∈ List.replicate (maxHeader + 2) (97 : UInt8) :=
      List.mem_of_mem_take (found.subset List.mem_cons_self)
    exact absurd (List.eq_of_mem_replicate returns) (by decide)
  have values := frames_read_back.1 [.array [.null]] [13] (List.forall_mem_singleton.mpr small)
  have packets := frames_read_back.2.1 [tricky, tricky] [13]
    (List.forall_mem_cons.mpr ⟨tricky_sound, List.forall_mem_singleton.mpr tricky_sound⟩)
  have large := frames_read_back.2.2.1 _ long endless
  rw [List.drop_replicate] at large
  rw [List.map_singleton, text] at values
  have announces : Announces [lengthLine (maxBody + 1)] (maxBody + 1) :=
    announces_lengthLine (by decide)
  have more : maxBody < maxBody + 1 := Nat.lt_succ_self _
  have told : maxBody + 1 < UInt64.size := by decide
  have broken := frames_read_back.2.2.2 _ _ [123, 125] announces more told
  exact ⟨small, tricky_sound, long, endless, values, packets, large, announces, more, told, broken⟩

end CodeAtlas.Frame
