import CodeAtlas.File.Uri
import CodeAtlas.Proofs.Paths
import CodeAtlas.Proofs.Utf8
import Mathlib.Data.List.TakeWhile

/-!
URIs of files read back. Percent-encoding leaves characters that mean nothing else in a URI
(`isSegmentChar_of_mem`), it is undone by decoding (`decodeBytes_encodeSegment`), and it makes no dot
segment of what is none (`plainPoints_encodeSegment`). So the URI of a path names the path again, with
or without a slash at its end, but for a first name that looks like a drive: that one is written with
a colon (`toPath?_written`).
-/
namespace CodeAtlas

namespace FileUri

/-! ## Bytes -/

/-- A character that stands within a segment of a URI and means nothing else there. -/
def isSegmentChar (c : Char) : Bool :=
  0x20 < c.val.toNat && c.val.toNat < 0x7F && !(['/', '?', '#', '\\'].contains c)

theorem plain_facts : ∀ n < 0x100, isPlain (UInt8.ofNat n) = true →
    isSegmentChar (Char.ofNat n) = true ∧ Char.ofNat n ≠ '%' ∧
      String.utf8EncodeChar (Char.ofNat n) = [UInt8.ofNat n] := by
  decide +kernel

/-- A digit of base sixteen, as it is written. -/
def digit (n : Nat) : Char := (Nat.digitChar n).toUpper

theorem digit_facts : ∀ n < 16, isSegmentChar (digit n) = true ∧ digit n ≠ '%' ∧ digit n ≠ 'e' ∧
    (digit n = '2' → n = 2) ∧ (digit n = 'E' → n = 14) ∧
    String.utf8EncodeChar (digit n) = [UInt8.ofNat (digit n).toNat] ∧
    hexValue? (UInt8.ofNat (digit n).toNat) = some n := by
  decide +kernel

theorem decodeBytes_cons {b : UInt8} (h : b ≠ 0x25) (rest : List UInt8) :
    decodeBytes (b :: rest) = b :: decodeBytes rest := by
  rw [decodeBytes]
  exact fun _ _ _ same => absurd same h

theorem plainPoints_cons {c : Char} (h : c ≠ '%') (rest : List Char) :
    plainPoints (c :: rest) = c :: plainPoints rest := by
  rw [plainPoints]
  · exact fun _ same => absurd same h
  · exact fun _ same => absurd same h

section Byte

variable (b : UInt8)

/-- A byte stands for itself, or it is written with its two digits of base sixteen. -/
theorem encodeByte_cases : isPlain b = true ∧ encodeByte b = [Char.ofNat b.toNat] ∨
    b.toNat ≠ 0x2E ∧ encodeByte b = ['%', digit (b.toNat / 16), digit (b.toNat % 16)] := by
  cases plain : isPlain b with
  | true => exact .inl ⟨rfl, if_pos plain⟩
  | false =>
    refine .inr ⟨fun point => ?_, if_neg (Bool.eq_false_iff.mp plain)⟩
    rw [← UInt8.ofNat_toNat (x := b), point] at plain
    exact absurd plain (by decide)

theorem plain_of_isPlain {b : UInt8} (plain : isPlain b = true) :
    isSegmentChar (Char.ofNat b.toNat) = true ∧ Char.ofNat b.toNat ≠ '%' ∧
      String.utf8EncodeChar (Char.ofNat b.toNat) = [b] := by
  have facts := plain_facts b.toNat b.toNat_lt
  rw [UInt8.ofNat_toNat] at facts
  exact facts plain

/-- What is written for a byte is read as that byte. -/
theorem decodeBytes_encodeByte (rest : List UInt8) :
    decodeBytes (Text.Utf8.encode (encodeByte b) ++ rest) = b :: decodeBytes rest := by
  rcases encodeByte_cases b with ⟨plain, written⟩ | ⟨-, written⟩
  · obtain ⟨-, no_percent, bytes⟩ := plain_of_isPlain plain
    have other : b ≠ 0x25 := by
      rintro rfl
      exact no_percent rfl
    rw [written, Text.Utf8.encode, List.flatMap_singleton, bytes]
    exact decodeBytes_cons other rest
  · have size : b.toNat < 0x100 := b.toNat_lt
    obtain ⟨-, -, -, -, -, high, high'⟩ := digit_facts (b.toNat / 16) (by omega)
    obtain ⟨-, -, -, -, -, low, low'⟩ := digit_facts (b.toNat % 16) (by omega)
    have bytes : Text.Utf8.encode ['%', digit (b.toNat / 16), digit (b.toNat % 16)] =
        [0x25, UInt8.ofNat (digit (b.toNat / 16)).toNat,
          UInt8.ofNat (digit (b.toNat % 16)).toNat] := by
      simp only [Text.Utf8.encode, List.flatMap_cons, List.flatMap_nil, high, low]
      rfl
    have sum : b.toNat / 16 * 16 + b.toNat % 16 = b.toNat := by omega
    rw [written, bytes]
    show decodeBytes (0x25 :: UInt8.ofNat _ :: UInt8.ofNat _ :: rest) = _
    rw [decodeBytes, high', low']
    simp only [sum, UInt8.ofNat_toNat]

theorem plainPoints_encodeByte (rest : List Char) :
    plainPoints (encodeByte b ++ rest) = encodeByte b ++ plainPoints rest := by
  rcases encodeByte_cases b with ⟨plain, written⟩ | ⟨no_point, written⟩
  · rw [written]
    exact plainPoints_cons (plain_of_isPlain plain).2.1 rest
  · have size : b.toNat < 0x100 := b.toNat_lt
    obtain ⟨-, high, -, two, -⟩ := digit_facts (b.toNat / 16) (by omega)
    obtain ⟨-, low, no_e, -, fourteen, -⟩ := digit_facts (b.toNat % 16) (by omega)
    rw [written]
    show plainPoints ('%' :: digit _ :: digit _ :: rest) = '%' :: digit _ :: digit _ :: _
    rw [plainPoints, plainPoints_cons high, plainPoints_cons low]
    · rfl
    · rintro _ - same
      exact no_e (List.cons.inj (List.cons.inj same).2).1
    · rintro _ - same
      obtain ⟨first, same⟩ := List.cons.inj same
      have high := two first
      have low := fourteen (List.cons.inj same).1
      exact no_point (by omega)

theorem isSegmentChar_of_mem_encodeByte : ∀ c ∈ encodeByte b, isSegmentChar c = true := by
  have size : b.toNat < 0x100 := b.toNat_lt
  rcases encodeByte_cases b with ⟨plain, written⟩ | ⟨-, written⟩
  · rw [written, List.forall_mem_singleton]
    exact (plain_of_isPlain plain).1
  · simp only [written, List.forall_mem_cons]
    exact ⟨by decide, (digit_facts (b.toNat / 16) (by omega)).1,
      (digit_facts (b.toNat % 16) (by omega)).1, fun _ none => absurd none List.not_mem_nil⟩

end Byte

/-! ## Segments -/

section Segment

variable {s s' : List Char}

theorem decodeBytes_flatMap (bytes rest : List UInt8) :
    decodeBytes (Text.Utf8.encode (bytes.flatMap encodeByte) ++ rest) =
      bytes ++ decodeBytes rest := by
  induction bytes with
  | nil => rfl
  | cons b bytes ih =>
    rw [List.flatMap_cons, Text.Utf8.encode_append, List.append_assoc, decodeBytes_encodeByte, ih,
      List.cons_append]

/-- What is written for a segment is read as the bytes of that segment. -/
theorem decodeBytes_encodeSegment (s : List Char) :
    decodeBytes (Text.Utf8.encode (encodeSegment s)) = Text.Utf8.encode s := by
  have read := decodeBytes_flatMap (Text.Utf8.encode s) []
  rwa [List.append_nil, decodeBytes, List.append_nil] at read

theorem encodeSegment_inj : encodeSegment s = encodeSegment s' ↔ s = s' := by
  refine ⟨fun same => Text.Utf8.encode_inj ?_, congrArg encodeSegment⟩
  rw [← decodeBytes_encodeSegment s, same, decodeBytes_encodeSegment]

theorem isSegmentChar_of_mem : ∀ c ∈ encodeSegment s, isSegmentChar c = true := by
  intro c hc
  obtain ⟨b, -, hc⟩ := List.mem_flatMap.mp hc
  exact isSegmentChar_of_mem_encodeByte b c hc

/-- Writing a segment makes no encoded points. -/
theorem plainPoints_encodeSegment (s : List Char) :
    plainPoints (encodeSegment s) = encodeSegment s := by
  have each : ∀ bytes : List UInt8, plainPoints (bytes.flatMap encodeByte) =
      bytes.flatMap encodeByte := by
    intro bytes
    induction bytes with
    | nil => rfl
    | cons b bytes ih => rw [List.flatMap_cons, plainPoints_encodeByte, ih]
  exact each _

/-- A segment that neither stays where it is nor goes up. -/
structure IsStep (s : List Char) : Prop where
  whole : '/' ∉ s
  not_point : s ≠ ['.']
  not_points : s ≠ ['.', '.']

/-- A segment of a URI that is no dot segment, encoded or not. -/
structure IsPlainStep (s : List Char) : Prop where
  not_point : plainPoints s ≠ ['.']
  not_points : plainPoints s ≠ ['.', '.']

theorem encodeSegment_whole (s : List Char) : '/' ∉ encodeSegment s := fun hs =>
  absurd (isSegmentChar_of_mem _ hs) (by decide)

theorem IsStep.encoded (h : IsStep s) : IsPlainStep (encodeSegment s) where
  not_point same := by
    rw [plainPoints_encodeSegment] at same
    have point : encodeSegment ['.'] = ['.'] := by decide +kernel
    exact h.not_point (encodeSegment_inj.mp (same.trans point.symm))
  not_points same := by
    rw [plainPoints_encodeSegment] at same
    have points : encodeSegment ['.', '.'] = ['.', '.'] := by decide +kernel
    exact h.not_points (encodeSegment_inj.mp (same.trans points.symm))

end Segment

/-! ## Reading -/

/-- Segments of a path as they are read: a drive at the front is written with a colon. -/
def withColon : List (List Char) → List (List Char)
  | s :: rest => if isDrive s then [s.headD ' ', ':'] :: rest else s :: rest
  | [] => []

theorem resolve_of_plain {drives : Bool} {segs : List (List Char)}
    (steps : ∀ s ∈ segs, IsPlainStep s) : ∀ {done : List (List Char)}, done ≠ [] ∨ drives = false →
      resolve drives done segs = done.reverse ++ segs := by
  induction segs with
  | nil =>
    intro done _
    rw [resolve, List.append_nil]
  | cons s rest ih =>
    intro done started
    obtain ⟨first, others⟩ := List.forall_mem_cons.mp steps
    have no_drive : ¬((drives && done.isEmpty && isDrive s) = true) := by
      rcases started with started | rfl
      · simp [List.isEmpty_eq_false_iff.mpr started]
      · simp
    rw [resolve, if_neg first.not_points, if_neg first.not_point, if_neg no_drive,
      ih others (.inl (List.cons_ne_nil s done)), List.reverse_cons, List.append_assoc]
    rfl

/-- Where there are no dot segments, only a drive at the front is written anew. -/
theorem resolve_start {segs : List (List Char)} (some_segment : segs ≠ [])
    (steps : ∀ s ∈ segs, IsPlainStep s) : resolve true [] segs = withColon segs := by
  cases segs with
  | nil => exact absurd rfl some_segment
  | cons s rest =>
    obtain ⟨first, others⟩ := List.forall_mem_cons.mp steps
    rw [resolve, if_neg first.not_points, if_neg first.not_point, withColon]
    simp only [List.isEmpty_nil, Bool.and_self, Bool.true_and]
    split <;> exact resolve_of_plain others (.inl (List.cons_ne_nil _ _))

/-- A character that means nothing else in what follows the scheme. -/
def isPathChar (c : Char) : Bool := c == '/' || isSegmentChar c

theorem significant_of_visible {uri : List Char} (visible : ∀ c ∈ uri, 0x20 < c.val.toNat) :
    significant uri = uri := by
  have counts : ∀ c ∈ uri, isControlOrSpace c = false := by
    intro c hc
    exact decide_eq_false (Nat.not_le.mpr (visible c hc))
  have front : ∀ s : List Char, (∀ c ∈ s, isControlOrSpace c = false) →
      s.dropWhile isControlOrSpace = s := by
    intro s hs
    cases s with
    | nil => rfl
    | cons c s => exact List.dropWhile_cons_of_neg (Bool.eq_false_iff.mp (hs c List.mem_cons_self))
  rw [significant, front uri counts, front _ fun c hc => counts c (List.mem_reverse.mp hc),
    List.reverse_reverse, List.filter_eq_self]
  intro c hc
  have above := visible c hc
  simp only [Bool.and_eq_true, bne_iff_ne, ne_eq]
  refine ⟨⟨?_, ?_⟩, ?_⟩ <;>
  · rintro rfl
    exact absurd above (by decide)

/-- Of a URI of the scheme `file` without query and fragment, all that follows the scheme is read. -/
theorem toPath?_of_significant {uri rest : List Char}
    (counted : significant uri = "file:".toList ++ rest) (no_query : '?' ∉ rest) (no_fragment : '#' ∉ rest) :
    toPath? uri = filePath? (Path.withSlashes rest) := by
  have scheme : scheme? ("file:".toList ++ rest) = some ("file".toList, rest) := by
    have split := Text.splitFirst_append (c := ':') (a := "file".toList) (by decide) rest
    have whole : "file:".toList ++ rest = "file".toList ++ ':' :: rest := rfl
    rw [scheme?, whole, split]
    rfl
  have whole : rest.takeWhile (fun c => c != '?' && c != '#') = rest := by
    refine List.takeWhile_eq_self_iff.mpr fun c hc => ?_
    rw [Bool.and_eq_true, bne_iff_ne, bne_iff_ne]
    exact ⟨fun same => no_query (same ▸ hc), fun same => no_fragment (same ▸ hc)⟩
  rw [toPath?, counted, scheme]
  simp only [Option.bind_eq_bind, Option.bind_some, whole, if_true]

/-- Of a URI of the scheme `file` without anything but a path, all that follows the scheme is read. -/
theorem toPath?_of_path {rest : List Char} (chars : ∀ c ∈ rest, isPathChar c = true) :
    toPath? ("file:".toList ++ rest) = filePath? rest := by
  have visible : ∀ c ∈ "file:".toList ++ rest, 0x20 < c.val.toNat := by
    rw [List.forall_mem_append]
    refine ⟨by decide, fun c hc => ?_⟩
    have char := chars c hc
    simp only [isPathChar, isSegmentChar, Bool.or_eq_true, beq_iff_eq, Bool.and_eq_true,
      decide_eq_true_eq] at char
    rcases char with rfl | ⟨⟨above, -⟩, -⟩
    · decide
    · exact above
  have other : ∀ c, isPathChar c = false → c ∉ rest := fun c none hc =>
    Bool.eq_false_iff.mp none (chars c hc)
  have slashes : Path.withSlashes rest = rest := by
    rw [Path.withSlashes]
    refine (List.map_congr_left fun c hc => ?_).trans (List.map_id' rest)
    refine if_neg ?_
    rintro rfl
    exact other _ (by decide) hc
  rw [toPath?_of_significant (significant_of_visible visible) (other _ (by decide))
    (other _ (by decide)), slashes]

theorem filePath?_slashes (path : List Char) :
    filePath? ('/' :: '/' :: '/' :: path) = some (pathOf (dropEmpty (segments true path))) := by
  rfl

/-! ## Writing and reading -/

theorem pathOf_encoded (segs : List (List Char)) : ∃ slash, (slash = [] ∨ slash = ['/']) ∧
    pathOf (segs.map encodeSegment) = segs.flatMap ('/' :: ·) ++ slash := by
  have bytes : (segs.map encodeSegment).flatMap
      (fun s => 0x2F :: decodeBytes (Text.Utf8.encode s)) =
      Text.Utf8.encode (segs.flatMap ('/' :: ·)) := by
    rw [List.flatMap_map, Text.Utf8.encode, List.flatMap_assoc]
    refine List.flatMap_congr fun s _ => ?_
    rw [decodeBytes_encodeSegment]
    rfl
  rw [pathOf, bytes, Text.Utf8.decodeLossy_encode]
  split
  · exact ⟨['/'], .inr rfl, rfl⟩
  · exact ⟨[], .inl rfl, (List.append_nil _).symm⟩

/-- The name of an entry of a folder. -/
structure IsEntryName (s : List Char) : Prop extends IsStep s where
  filled : s ≠ []

theorem IsEntryName.encoded {s : List Char} (h : IsEntryName s) : IsEntryName (encodeSegment s) where
  whole := encodeSegment_whole s
  not_point same := h.toIsStep.encoded.not_point (by rw [same]; rfl)
  not_points same := h.toIsStep.encoded.not_points (by rw [same]; rfl)
  filled none := h.filled (encodeSegment_inj.mp none)

theorem isDrive_iff {s : List Char} : isDrive s = true ↔
    ∃ c d, s = [c, d] ∧ Text.isLetter c = true ∧ (d = ':' ∨ d = '|') := by
  match s with
  | [] => simp [isDrive]
  | [c] => simp [isDrive]
  | [c, d] => simp [isDrive]
  | c :: d :: e :: rest => simp [isDrive]

theorem encodeSegment_append (s t : List Char) :
    encodeSegment (s ++ t) = encodeSegment s ++ encodeSegment t := by
  rw [encodeSegment, Text.Utf8.encode_append, List.flatMap_append, encodeSegment, encodeSegment]

theorem letter_facts : ∀ n < 0x7B, Text.isLetter (Char.ofNat n) = true →
    encodeSegment [Char.ofNat n] = [Char.ofNat n] := by
  decide +kernel

/-- A drive is written as it is. -/
theorem encodeSegment_drive {s : List Char} (h : isDrive s = true) : encodeSegment s = s := by
  obtain ⟨c, d, rfl, letter, mark⟩ := isDrive_iff.mp h
  have small : c.toNat < 0x7B := by
    simp only [Text.isLetter, Bool.or_eq_true, Bool.and_eq_true, decide_eq_true_eq] at letter
    change c.val.toNat < 0x7B
    omega
  have first : encodeSegment [c] = [c] := by
    have facts := letter_facts c.toNat small
    rw [Char.ofNat_toNat] at facts
    exact facts letter
  have second : encodeSegment [d] = [d] := by
    rcases mark with rfl | rfl <;> decide +kernel
  have both : encodeSegment ([c] ++ [d]) = [c] ++ [d] := by
    rw [encodeSegment_append, first, second]
  exact both

theorem isDrive_encodeSegment (s : List Char) : isDrive (encodeSegment s) = isDrive s := by
  rw [Bool.eq_iff_iff]
  constructor
  · intro h
    have same : encodeSegment s = s := encodeSegment_inj.mp (encodeSegment_drive h)
    rwa [same] at h
  · intro h
    rwa [encodeSegment_drive h]

/-- Encoding and writing a drive with a colon do not disturb each other. -/
theorem withColon_encoded (segs : List (List Char)) :
    withColon (segs.map encodeSegment) = (withColon segs).map encodeSegment := by
  cases segs with
  | nil => rfl
  | cons s rest =>
    rw [List.map_cons, withColon, isDrive_encodeSegment, withColon]
    split
    · rename_i h
      obtain ⟨c, d, rfl, letter, -⟩ := isDrive_iff.mp h
      have colon : isDrive [c, ':'] = true := isDrive_iff.mpr ⟨c, ':', rfl, letter, .inl rfl⟩
      rw [encodeSegment_drive h, List.map_cons, List.headD_cons, encodeSegment_drive colon]
    · rfl

theorem withColon_append {names : List (List Char)} (some_name : names ≠ [])
    (rest : List (List Char)) : withColon (names ++ rest) = withColon names ++ rest := by
  cases names with
  | nil => exact absurd rfl some_name
  | cons s names =>
    rw [List.cons_append, withColon, withColon]
    split <;> rfl

theorem IsEntryName.of_mem_withColon {names : List (List Char)}
    (proper : ∀ s ∈ names, IsEntryName s) : ∀ s ∈ withColon names, IsEntryName s := by
  cases names with
  | nil => exact proper
  | cons s rest =>
    rw [withColon]
    split
    · rename_i h
      obtain ⟨c, d, rfl, letter, -⟩ := isDrive_iff.mp h
      refine List.forall_mem_cons.mpr ⟨?_, fun s hs => proper s (List.mem_cons_of_mem _ hs)⟩
      have no_slash : c ≠ '/' := by
        rintro rfl
        exact absurd letter (by decide)
      exact { whole := by simp [no_slash.symm], not_point := by simp, not_points := by simp,
              filled := by simp }
    · exact proper

/-- A path that is put together from names has these for its components, however it ends. -/
theorem components_of_names {names segs : List (List Char)} (proper : ∀ s ∈ names, IsEntryName s)
    (ending : segs = names ∨ segs = names ++ [[]]) {slash : List Char}
    (more : slash = [] ∨ slash = ['/']) :
    Path.components ('/' :: Text.joinWith ['/'] segs ++ slash) = Path.rootComponent :: names := by
  have whole : ∀ s ∈ segs, '/' ∉ s := by
    intro s hs
    rcases ending with rfl | rfl
    · exact (proper s hs).whole
    · rcases List.mem_append.mp hs with hs | hs
      · exact (proper s hs).whole
      · rw [List.mem_singleton.mp hs]
        exact List.not_mem_nil
  have counted : names.filter (fun p => !p.isEmpty && p != ['.']) = names := by
    refine List.filter_eq_self.mpr fun s hs => ?_
    simp [(proper s hs).filled, (proper s hs).not_point]
  have joined : Path.pieces ('/' :: Text.joinWith ['/'] segs) = names := by
    cases segs with
    | nil =>
      obtain rfl : names = [] := by simpa using ending
      rfl
    | cons s rest =>
      have inner : Path.pieces ('/' :: Text.joinWith ['/'] (s :: rest)) =
          Path.pieces (Text.joinWith ['/'] (s :: rest)) := Path.pieces_append [] _
      rw [inner, Path.pieces, Text.splitOn_joinWith (List.cons_ne_nil s rest) whole]
      rcases ending with same | same <;> rw [same]
      · exact counted
      · rw [List.filter_append, counted]
        exact List.append_nil names
  have absolute : Path.isAbsolute ('/' :: Text.joinWith ['/'] segs ++ slash) = true := rfl
  have ended : Path.pieces ('/' :: Text.joinWith ['/'] segs ++ slash) = names := by
    rcases more with rfl | rfl
    · rw [List.append_nil, joined]
    · rw [Path.pieces_append, joined]
      exact List.append_nil names
  rw [Path.components, absolute, if_pos rfl, ended]

theorem dropEmpty_of_filled {s : List Char} (filled : s ≠ []) (rest : List (List Char)) :
    dropEmpty (s :: rest) = s :: rest := by
  cases s with
  | nil => exact absurd rfl filled
  | cons c s => rfl

/-- The URI with given segments, which are yet to be encoded. -/
def written (segs : List (List Char)) : List Char :=
  "file://".toList ++ segs.flatMap fun s => '/' :: encodeSegment s

section Written

variable {names segs : List (List Char)}

theorem withColon_ne_nil (some_segment : segs ≠ []) : withColon segs ≠ [] := by
  cases segs with
  | nil => exact absurd rfl some_segment
  | cons s rest =>
    rw [withColon]
    split <;> exact List.cons_ne_nil _ _

/-- A drive in front does not change what stands behind the names. -/
theorem withColon_ending (ending : segs = names ∨ segs = names ++ [[]]) :
    withColon segs = withColon names ∨ withColon segs = withColon names ++ [[]] := by
  rcases ending with rfl | rfl
  · exact .inl rfl
  · cases names with
    | nil => exact .inr rfl
    | cons s names => exact .inr (withColon_append (List.cons_ne_nil s names) [[]])

/-- No empty segments stand before names. -/
theorem dropEmpty_encoded (proper : ∀ s ∈ names, IsEntryName s)
    (ending : segs = names ∨ segs = names ++ [[]]) (some_segment : segs ≠ []) :
    dropEmpty ((withColon segs).map encodeSegment) = (withColon segs).map encodeSegment := by
  cases empty : withColon names with
  | nil =>
    have only : withColon segs = [[]] := by
      have ends := withColon_ending ending
      rw [empty] at ends
      exact ends.resolve_left (withColon_ne_nil some_segment)
    rw [only]
    rfl
  | cons first rest =>
    have filled : encodeSegment first ≠ [] := by
      have proper' := IsEntryName.of_mem_withColon proper first (empty ▸ List.mem_cons_self)
      exact fun none => proper'.filled (encodeSegment_inj.mp none)
    rcases withColon_ending ending with same | same <;>
    · rw [same, empty]
      exact dropEmpty_of_filled filled _

/-- A path of names, written as a URI, is read as that path, but for a drive in front. -/
theorem toPath?_written (proper : ∀ s ∈ names, IsEntryName s)
    (ending : segs = names ∨ segs = names ++ [[]]) (some_segment : segs ≠ []) :
    ∃ slash, (slash = [] ∨ slash = ['/']) ∧
      toPath? (written segs) = some ('/' :: Text.joinWith ['/'] (withColon segs) ++ slash) := by
  have steps : ∀ s ∈ segs, IsStep s := by
    intro s hs
    have named : s ∈ names ∨ s = [] := by
      rcases ending with rfl | rfl
      · exact .inl hs
      · exact (List.mem_append.mp hs).imp_right List.mem_singleton.mp
    rcases named with hs | rfl
    · exact (proper s hs).toIsStep
    · exact ⟨List.not_mem_nil, by simp, by simp⟩
  have plain : ∀ s ∈ segs.map encodeSegment, IsPlainStep s :=
    List.forall_mem_map.mpr fun s hs => (steps s hs).encoded
  have whole : ∀ s ∈ segs.map encodeSegment, '/' ∉ s :=
    List.forall_mem_map.mpr fun s _ => encodeSegment_whole s
  have some_written : segs.map encodeSegment ≠ [] := by simpa using some_segment
  have joined : segs.flatMap (fun s => '/' :: encodeSegment s) =
      '/' :: Text.joinWith ['/'] (segs.map encodeSegment) := by
    rw [Text.joinWith_cons '/' _ some_written, List.flatMap_map]
  have chars : ∀ c ∈ '/' :: '/' :: segs.flatMap (fun s => '/' :: encodeSegment s),
      isPathChar c = true := by
    have slash : isPathChar '/' = true := by decide
    refine List.forall_mem_cons.mpr ⟨slash, List.forall_mem_cons.mpr ⟨slash, fun c hc => ?_⟩⟩
    obtain ⟨s, -, hc⟩ := List.mem_flatMap.mp hc
    rcases List.mem_cons.mp hc with rfl | hc
    · exact slash
    · rw [isPathChar, isSegmentChar_of_mem c hc, Bool.or_true]
  obtain ⟨slash, more, path⟩ := pathOf_encoded (withColon segs)
  refine ⟨slash, more, (toPath?_of_path chars).trans ?_⟩
  rw [joined, filePath?_slashes, segments, Text.splitOn_joinWith some_written whole,
    resolve_start some_written plain, withColon_encoded,
    dropEmpty_encoded proper ending some_segment, path, Text.joinWith_cons '/' _ (withColon_ne_nil some_segment)]

/-- The components of what is read are the names, but for a drive in front. -/
theorem components_written (proper : ∀ s ∈ names, IsEntryName s)
    (ending : segs = names ∨ segs = names ++ [[]]) (some_segment : segs ≠ []) :
    ∃ path, toPath? (written segs) = some path ∧
      Path.components path = Path.rootComponent :: withColon names := by
  obtain ⟨slash, more, read⟩ := toPath?_written proper ending some_segment
  exact ⟨_, read, components_of_names (IsEntryName.of_mem_withColon proper)
    (withColon_ending ending) more⟩

end Written

/-! ## URIs of paths -/

/-- The names begin with a drive in the old spelling, a letter and a bar. -/
def IsBarred (names : List (List Char)) : Prop :=
  ∃ c rest, Text.isLetter c = true ∧ names = [c, '|'] :: rest

theorem withColon_eq_self {names : List (List Char)} :
    withColon names = names ↔ ¬IsBarred names := by
  cases names with
  | nil => exact iff_of_true rfl fun ⟨_, _, _, same⟩ => List.cons_ne_nil _ _ same.symm
  | cons s rest =>
    rw [withColon]
    constructor
    · rintro kept ⟨c, others, letter, same⟩
      obtain ⟨rfl, rfl⟩ := List.cons.inj same
      rw [if_pos (isDrive_iff.mpr ⟨c, '|', rfl, letter, .inr rfl⟩)] at kept
      simp at kept
    · intro colon
      split
      · rename_i drive
        obtain ⟨c, d, rfl, letter, rfl | rfl⟩ := isDrive_iff.mp drive
        · rfl
        · exact absurd ⟨c, rest, letter, rfl⟩ colon
      · rfl

theorem written_append (segs more : List (List Char)) :
    written (segs ++ more) = written segs ++ more.flatMap fun s => '/' :: encodeSegment s := by
  unfold written
  rw [List.flatMap_append, ← List.append_assoc]

/-- The URI of an absolute path is written from its names; that of the root ends with a slash. -/
theorem ofPath?_of_components {path : List Char} {names : List (List Char)}
    (absolute : Path.isAbsolute path = true)
    (components : Path.components path = Path.rootComponent :: names) :
    ofPath? path = some (written (if names.isEmpty then [[]] else names)) := by
  rw [ofPath?, if_pos absolute, components]
  cases names <;> rfl

/-- The URIs of an absolute path are written from its names, with a slash behind or without. -/
theorem written_of_components {path : List Char} {names : List (List Char)}
    (absolute : Path.isAbsolute path = true)
    (components : Path.components path = Path.rootComponent :: names) :
    ∃ plain slashed, ofPath? path = some plain ∧ ofFolder? path = some slashed ∧
      ∀ uri, uri = plain ∨ uri = slashed →
        ∃ segs, (segs = names ∨ segs = names ++ [[]]) ∧ segs ≠ [] ∧ uri = written segs := by
  have plain := ofPath?_of_components absolute components
  have slashed : ofFolder? path = (some (written (if names.isEmpty then [[]] else names))).map
      fun uri => if uri.getLast? = some '/' then uri else uri ++ ['/'] := congrArg _ plain
  rw [Option.map_some] at slashed
  refine ⟨_, _, plain, slashed, fun uri h => ?_⟩
  cases names with
  | nil => exact ⟨[[]], .inr rfl, List.cons_ne_nil _ _, by rcases h with rfl | rfl <;> decide⟩
  | cons s rest =>
    have unslashed : (if (s :: rest).isEmpty then [[]] else s :: rest) = s :: rest := rfl
    rw [unslashed] at h
    by_cases ends : (written (s :: rest)).getLast? = some '/'
    · rw [if_pos ends, or_self] at h
      exact ⟨s :: rest, .inl rfl, List.cons_ne_nil _ _, h⟩
    · rw [if_neg ends] at h
      rcases h with rfl | rfl
      · exact ⟨s :: rest, .inl rfl, List.cons_ne_nil _ _, rfl⟩
      · refine ⟨s :: rest ++ [[]], .inr rfl, List.append_ne_nil_of_right_ne_nil _ nofun, ?_⟩
        exact (written_append (s :: rest) [[]]).symm

end FileUri
end CodeAtlas
