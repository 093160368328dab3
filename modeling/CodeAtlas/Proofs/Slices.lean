import CodeAtlas.Span.Bytes
import Mathlib.Data.List.Infix

/-!
Slices of a text. In front of a position stand the lines before its own and the shortest part of its
line with enough units (`Front`). The search by characters stops there (`Front.eq_take`), and so does the
search by bytes, which only asks for bytes at which characters begin (`byteOffset?_eq`); as a character
has no more units than bytes, the count cannot overflow in a text of fewer than 2^32 bytes. The searches
keep the order of positions (`offset_le`), so a slice never fails, and slices of adjacent ranges make up
the slice of both (`slices_exact`).
-/
namespace CodeAtlas

/-! ## Bytes -/

theorem cutAtByte?_append (a b : List Char) : cutAtByte? (a ++ b) (byteLength a) = some (a, b) := by
  induction a with
  | nil => simp [cutAtByte?]
  | cons c a ih =>
    have filled := c.utf8Size_pos
    obtain ⟨n, size⟩ : ∃ n, c.utf8Size + byteLength a = n + 1 :=
      Nat.exists_eq_add_one.mpr (by omega)
    have rest : n + 1 - c.utf8Size = byteLength a := by omega
    rw [byteLength_cons, size, List.cons_append, cutAtByte?, if_pos (by omega), rest, ih,
      Option.map_some]

theorem betweenBytes?_append (a piece b : List Char) :
    betweenBytes? (a ++ (piece ++ b)) (byteLength a) (byteLength (a ++ piece)) = some piece := by
  have size : byteLength (a ++ piece) - byteLength a = byteLength piece := by simp
  have order : byteLength a ≤ byteLength (a ++ piece) := by simp
  simp only [betweenBytes?, if_pos order, cutAtByte?_append, size, Option.bind_eq_bind,
    Option.bind_some, Option.pure_def]

theorem newlineByte?_append {line : List Char} (whole : '\n' ∉ line) (rest : List Char) :
    newlineByte? (line ++ '\n' :: rest) = some (byteLength line) := by
  induction line with
  | nil => rfl
  | cons c line ih =>
    obtain ⟨first, others⟩ := List.ne_and_not_mem_of_not_mem_cons whole
    rw [List.cons_append, newlineByte?, if_neg first.symm, ih others]
    rfl

theorem newlineByte?_of_not_mem {line : List Char} (whole : '\n' ∉ line) :
    newlineByte? line = none := by
  induction line with
  | nil => rfl
  | cons c line ih =>
    obtain ⟨first, others⟩ := List.ne_and_not_mem_of_not_mem_cons whole
    rw [newlineByte?, if_neg first.symm, ih others]
    rfl

/-- A character has no more units than bytes. -/
theorem utf16Units_le (c : Char) : utf16Units c ≤ c.utf8Size := by
  unfold utf16Units
  split
  · exact c.utf8Size_pos
  · rename_i wide
    have beyond : (65535 : UInt32) < c.val := by
      rw [UInt32.lt_iff_toNat_lt]
      have last : (65535 : UInt32).toNat = 65535 := rfl
      omega
    rw [Char.utf8Size_eq_four_iff.mpr beyond]
    decide

/-! ## Lines and columns -/

/-- A line of a text, with what stands before and behind it. -/
structure IsLine (text : List Char) (number : Nat) (before line behind : List Char) : Prop where
  text_eq : text = before ++ (line ++ behind)
  number_eq : before.count '\n' = number
  begins : ∀ c ∈ before.getLast?, c = '\n'
  whole : '\n' ∉ line
  ends : ∀ c ∈ behind.head?, c = '\n'

/-- The part of a line in front of a number of units: the shortest one that has so many, or the whole
line if it has fewer. -/
structure IsColumn (line : List Char) (units : Nat) (column : List Char) : Prop where
  within : column <+: line
  enough : units ≤ utf16Length line → units ≤ utf16Length column
  shortest : ∀ other, other <+: line → units ≤ utf16Length other → column.length ≤ other.length
  rest : utf16Length line < units → column = line

/-- What stands in a text in front of a position. -/
inductive Front (text : List Char) (p : Position) : List Char → Prop where
  | inLine {before line behind column : List Char}
      (of_line : IsLine text p.line.toNat before line behind)
      (of_column : IsColumn line p.character.toNat column) : Front text p (before ++ column)
  | beyond (few : text.count '\n' < p.line.toNat) : Front text p text

/-- A text begins with a line. -/
theorem exists_line (text : List Char) :
    ∃ line behind, text = line ++ behind ∧ '\n' ∉ line ∧ ∀ c ∈ behind.head?, c = '\n' := by
  by_cases h : '\n' ∈ text
  · obtain ⟨line, rest, rfl, whole⟩ := List.eq_append_cons_of_mem h
    refine ⟨line, '\n' :: rest, rfl, whole, ?_⟩
    intro c hc
    exact (Option.some.inj hc).symm
  · exact ⟨text, [], by simp, h, nofun⟩

/-- The lines of a text are as many as its newlines, and one more. -/
theorem exists_isLine {text : List Char} {number : Nat} (h : number ≤ text.count '\n') :
    ∃ before line behind, IsLine text number before line behind := by
  induction number generalizing text with
  | zero =>
    obtain ⟨line, behind, rfl, whole, ends⟩ := exists_line text
    exact ⟨[], line, behind, rfl, rfl, nofun, whole, ends⟩
  | succ number ih =>
    have newline : '\n' ∈ text := List.count_pos_iff.mp (by omega)
    obtain ⟨first, rest, rfl, whole⟩ := List.eq_append_cons_of_mem newline
    have none_first : first.count '\n' = 0 := List.count_eq_zero.mpr whole
    rw [List.count_append, none_first, List.count_cons_self] at h
    obtain ⟨before, line, behind, found⟩ := ih (by omega : number ≤ rest.count '\n')
    refine ⟨first ++ '\n' :: before, line, behind, ?_, ?_, ?_, found.whole, found.ends⟩
    · rw [found.text_eq, List.append_assoc, List.cons_append]
    · rw [List.count_append, none_first, List.count_cons_self, found.number_eq]
      omega
    · intro c hc
      rw [List.getLast?_append, List.getLast?_cons] at hc
      cases last : before.getLast? with
      | none =>
        rw [last] at hc
        exact (Option.some.inj hc).symm
      | some d =>
        rw [last] at hc
        exact found.begins c (last.trans hc)

/-- The first characters of a line up to where the search stops are its column. -/
theorem isColumn_take {line : List Char} (whole : '\n' ∉ line) (units : Nat) :
    IsColumn line units (line.take (offsetOf line 0 units)) := by
  induction line generalizing units with
  | nil => exact ⟨List.take_prefix _ _, id, fun _ _ _ => Nat.zero_le _, fun _ => rfl⟩
  | cons c line ih =>
    obtain ⟨first, others⟩ := List.ne_and_not_mem_of_not_mem_cons whole
    cases units with
    | zero =>
      have none_taken : offsetOf (c :: line) 0 0 = 0 := by simp [offsetOf]
      rw [none_taken]
      exact ⟨List.nil_prefix, fun _ => Nat.zero_le _, fun _ _ _ => Nat.zero_le _, by omega⟩
    | succ units =>
      have one_taken : offsetOf (c :: line) 0 (units + 1) =
          offsetOf line 0 (units + 1 - utf16Units c) + 1 := by
        simp [offsetOf, first.symm, Nat.add_comm]
      obtain ⟨within, enough, shortest, rest⟩ := ih others (units + 1 - utf16Units c)
      rw [one_taken, List.take_succ_cons]
      refine ⟨List.cons_prefix_cons.mpr ⟨rfl, within⟩, ?_, ?_, ?_⟩
      · intro many
        simp only [utf16Length] at many ⊢
        have := enough (by omega)
        omega
      · intro other hother many
        rcases List.prefix_cons_iff.mp hother with rfl | ⟨more, rfl, hmore⟩
        · simp [utf16Length] at many
        · simp only [utf16Length] at many
          have := shortest more hmore (by omega)
          simp only [List.length_cons]
          omega
      · intro few
        simp only [utf16Length] at few
        rw [rest (by omega)]

theorem IsColumn.unique {line column column' : List Char} {units : Nat}
    (h : IsColumn line units column) (h' : IsColumn line units column') : column = column' := by
  by_cases few : utf16Length line < units
  · rw [h.rest few, h'.rest few]
  · have le := h.shortest column' h'.within (h'.enough (by omega))
    have ge := h'.shortest column h.within (h.enough (by omega))
    exact (List.prefix_of_prefix_length_le h.within h'.within le).eq_of_length (by omega)

/-! ## The search by characters -/

/-- Lines that all stand in front of the one looked for are passed over. -/
theorem offsetOf_lines {before : List Char} (begins : ∀ c ∈ before.getLast?, c = '\n')
    (rest : List Char) (lines units : Nat) :
    offsetOf (before ++ rest) (before.count '\n' + lines) units =
      before.length + offsetOf rest lines units := by
  induction before with
  | nil => simp
  | cons c before ih =>
    have later : ∀ d ∈ before.getLast?, d = '\n' := by
      intro d hd
      apply begins
      rw [List.getLast?_cons, Option.mem_def.mp hd]
      rfl
    by_cases newline : c = '\n'
    · have number : (c :: before).count '\n' + lines = before.count '\n' + lines + 1 := by
        rw [newline, List.count_cons_self]
        omega
      rw [number, List.cons_append, offsetOf, if_pos newline, ih later, List.length_cons]
      omega
    · -- the newline at the end of these lines is still to come
      have last : before.getLast? ≠ none := by
        intro empty
        apply newline
        apply begins
        rw [List.getLast?_cons, empty]
        rfl
      obtain ⟨d, last⟩ := Option.ne_none_iff_exists'.mp last
      have further : 0 < before.count '\n' :=
        List.count_pos_iff.mpr (later d last ▸ List.mem_of_getLast? last)
      obtain ⟨n, number⟩ : ∃ n, before.count '\n' + lines = n + 1 :=
        Nat.exists_eq_add_one.mpr (by omega)
      rw [List.count_cons_of_ne newline, number, List.cons_append, offsetOf, if_neg newline,
        ← number, ih later, List.length_cons]
      omega

theorem offsetOf_beyond {text : List Char} {lines : Nat} (few : text.count '\n' < lines)
    (units : Nat) : offsetOf text lines units = text.length := by
  induction text generalizing lines with
  | nil => simp [offsetOf]
  | cons c text ih =>
    obtain ⟨n, rfl⟩ : ∃ n, lines = n + 1 := Nat.exists_eq_add_one.mpr (by omega)
    by_cases newline : c = '\n'
    · rw [newline, List.count_cons_self] at few
      rw [offsetOf, if_pos newline, ih (by omega), List.length_cons]
      omega
    · rw [List.count_cons_of_ne newline] at few
      rw [offsetOf, if_neg newline, ih few, List.length_cons]
      omega

/-- Nothing behind a line is looked at. -/
theorem offsetOf_line {line behind : List Char} (whole : '\n' ∉ line)
    (ends : ∀ c ∈ behind.head?, c = '\n') (units : Nat) :
    offsetOf (line ++ behind) 0 units = offsetOf line 0 units := by
  induction line generalizing units with
  | nil =>
    cases behind with
    | nil => rfl
    | cons c behind =>
      obtain rfl := ends c rfl
      cases units <;> simp [offsetOf]
  | cons c line ih =>
    obtain ⟨first, others⟩ := List.ne_and_not_mem_of_not_mem_cons whole
    cases units with
    | zero => simp [offsetOf]
    | succ units => simp [offsetOf, first.symm, ih others]

section Fronts

variable {text front : List Char} {p q : Position}

theorem exists_front (text : List Char) (p : Position) : ∃ front, Front text p front := by
  by_cases few : text.count '\n' < p.line.toNat
  · exact ⟨text, .beyond few⟩
  · obtain ⟨before, line, behind, of_line⟩ := exists_isLine (Nat.le_of_not_lt few)
    exact ⟨_, .inLine of_line (isColumn_take of_line.whole p.character.toNat)⟩

/-- The search stops behind what stands in front of the position. -/
theorem Front.eq_take (h : Front text p front) : front = text.take (p.offset text) := by
  cases h with
  | beyond few => rw [Position.offset, offsetOf_beyond few, List.take_length]
  | @inLine before line behind column of_line of_column =>
    have stop := offsetOf_lines of_line.begins (line ++ behind) 0 p.character.toNat
    rw [Nat.add_zero, of_line.number_eq, offsetOf_line of_line.whole of_line.ends,
      ← of_line.text_eq] at stop
    have within := offsetOf_le_length line 0 p.character.toNat
    rw [Position.offset, stop, of_line.text_eq, List.take_length_add_append,
      List.take_append_of_le_length within, of_column.unique (isColumn_take of_line.whole _)]

/-- Positions in the order in which they are met. -/
instance : LE Position := ⟨fun p q => p.line < q.line ∨ p.line = q.line ∧ p.character ≤ q.character⟩

instance (p q : Position) : Decidable (p ≤ q) :=
  inferInstanceAs (Decidable (p.line < q.line ∨ p.line = q.line ∧ p.character ≤ q.character))

theorem offsetOf_le {lines lines' units units' : Nat}
    (order : lines < lines' ∨ lines = lines' ∧ units ≤ units') :
    offsetOf text lines units ≤ offsetOf text lines' units' := by
  induction text generalizing lines lines' units units' with
  | nil => simp [offsetOf]
  | cons c text ih =>
    cases lines with
    | succ lines =>
      obtain ⟨later, rfl⟩ : ∃ later, lines' = later + 1 :=
        Nat.exists_eq_add_one.mpr (by omega)
      simp only [offsetOf]
      apply Nat.add_le_add_left
      apply ih
      split <;> omega
    | zero =>
      cases units with
      | zero => simp [offsetOf]
      | succ units =>
        by_cases newline : c = '\n'
        · simp [offsetOf, newline]
        · have here : offsetOf (c :: text) 0 (units + 1) =
              1 + offsetOf text 0 (units + 1 - utf16Units c) := by
            simp [offsetOf, newline]
          rw [here]
          cases lines' with
          | zero =>
            obtain ⟨more, rfl⟩ : ∃ more, units' = more + 1 :=
              Nat.exists_eq_add_one.mpr (by omega)
            rw [offsetOf, if_neg newline]
            exact Nat.add_le_add_left (ih (by omega)) 1
          | succ later =>
            rw [offsetOf, if_neg newline]
            exact Nat.add_le_add_left (ih (by omega)) 1

theorem offset_le (h : p ≤ q) : p.offset text ≤ q.offset text := by
  apply offsetOf_le
  rcases h with before | ⟨same, le⟩
  · exact .inl (UInt32.lt_iff_toNat_lt.mp before)
  · exact .inr ⟨congrArg UInt32.toNat same, UInt32.le_iff_toNat_le.mp le⟩

end Fronts

/-! ## The search by bytes -/

/-- Along a line, the byte is that of the character at which the search by characters stops. -/
theorem unitByte?_eq {line : List Char} (whole : '\n' ∉ line) (wanted : UInt32) (start : Nat)
    (units : UInt32) (small : units.toNat + byteLength line < UInt32.size) :
    unitByte? wanted (start + byteLength line) line start units =
      some (start + byteLength (line.take (offsetOf line 0 (wanted.toNat - units.toNat)))) := by
  induction line generalizing start units with
  | nil => simp [unitByte?]
  | cons c line ih =>
    obtain ⟨first, others⟩ := List.ne_and_not_mem_of_not_mem_cons whole
    rw [byteLength_cons] at small
    have fits := utf16Units_le c
    rw [unitByte?]
    by_cases reached : wanted ≤ units
    · have none_left : wanted.toNat - units.toNat = 0 :=
        Nat.sub_eq_zero_of_le (UInt32.le_iff_toNat_le.mp reached)
      rw [if_pos reached, none_left]
      simp [offsetOf]
    · have missing : units.toNat < wanted.toNat := by
        rw [UInt32.le_iff_toNat_le] at reached
        omega
      obtain ⟨n, left⟩ : ∃ n, wanted.toNat - units.toNat = n + 1 :=
        Nat.exists_eq_add_one.mpr (by omega)
      have counted : (units + UInt32.ofNat (utf16Units c)).toNat = units.toNat + utf16Units c := by
        have bound : units.toNat + utf16Units c < UInt32.size := by omega
        rw [UInt32.toNat_add, UInt32.toNat_ofNat_of_lt' (by omega)]
        exact Nat.mod_eq_of_lt bound
      have behind := ih others (start + c.utf8Size) (units + UInt32.ofNat (utf16Units c))
        (by rw [counted]; omega)
      have further : wanted.toNat - (units.toNat + utf16Units c) = n + 1 - utf16Units c := by omega
      rw [counted, further] at behind
      rw [if_neg reached, if_pos (by omega), left, byteLength_cons, ← Nat.add_assoc, behind, offsetOf,
        if_neg first.symm, Nat.add_comm 1, List.take_succ_cons, byteLength_cons, Nat.add_assoc]

/-- From the beginning of a line on, the byte is that of the character at which the search by
characters stops. -/
theorem lineByte?_eq (before text : List Char) (wanted : UInt32) (lines : Nat)
    (small : byteLength text < UInt32.size) :
    lineByte? (before ++ text) wanted lines (byteLength before) =
      some (byteLength (before ++ text.take (offsetOf text lines wanted.toNat))) := by
  induction lines generalizing before text with
  | zero =>
    obtain ⟨line, behind, rfl, whole, ends⟩ := exists_line text
    have stop : ((newlineByte? (line ++ behind)).map (byteLength before + ·)).getD
        (byteLength (before ++ (line ++ behind))) = byteLength before + byteLength line := by
      cases behind with
      | nil => simp [newlineByte?_of_not_mem whole]
      | cons c behind =>
        obtain rfl := ends c rfl
        rw [newlineByte?_append whole]
        rfl
    have piece := betweenBytes?_append before line behind
    have within := offsetOf_le_length line 0 wanted.toNat
    rw [byteLength_append] at piece small
    have none_counted : (0 : UInt32).toNat = 0 := rfl
    have found := unitByte?_eq whole wanted (byteLength before) 0 (by omega)
    rw [none_counted, Nat.sub_zero] at found
    simp only [lineByte?, cutAtByte?_append, Option.bind_eq_bind, Option.bind_some, stop, piece,
      found]
    rw [offsetOf_line whole ends, List.take_append_of_le_length within, byteLength_append]
  | succ lines ih =>
    by_cases newline : '\n' ∈ text
    · obtain ⟨line, rest, rfl, whole⟩ := List.eq_append_cons_of_mem newline
      have passed : byteLength before + byteLength line + 1 =
          byteLength (before ++ (line ++ ['\n'])) := by
        have one : '\n'.utf8Size = 1 := rfl
        simp only [byteLength_append, byteLength_cons, byteLength_nil, one]
        omega
      have found := ih (before ++ (line ++ ['\n'])) rest (by simp at small; omega)
      have ended : ∀ c ∈ (line ++ ['\n']).getLast?, c = '\n' := by simp
      have skipped := offsetOf_lines ended rest lines wanted.toNat
      have number : (line ++ ['\n']).count '\n' + lines = lines + 1 := by
        rw [List.count_append, List.count_eq_zero.mpr whole, List.count_singleton_self]
        omega
      have joined : line ++ '\n' :: rest = line ++ ['\n'] ++ rest := by simp
      rw [number] at skipped
      simp only [lineByte?, cutAtByte?_append, Option.bind_eq_bind, Option.bind_some,
        newlineByte?_append whole, passed]
      rw [joined, skipped, List.take_length_add_append, ← List.append_assoc, found, List.append_assoc]
    · have few : text.count '\n' < lines + 1 := by
        rw [List.count_eq_zero.mpr newline]
        omega
      simp only [lineByte?, cutAtByte?_append, Option.bind_eq_bind, Option.bind_some,
        newlineByte?_of_not_mem newline, Option.pure_def]
      rw [offsetOf_beyond few, List.take_length]

/-! ## Slices -/

theorem byteLength_take_le (text : List Char) {m n : Nat} (h : m ≤ n) :
    byteLength (text.take m) ≤ byteLength (text.take n) := by
  obtain ⟨more, rfl⟩ := Nat.exists_eq_add_of_le h
  rw [List.take_add, byteLength_append]
  exact Nat.le_add_right _ _

/-- Between the bytes of two characters stands what stands between the characters. -/
theorem betweenBytes?_take (text : List Char) (m n : Nat) :
    betweenBytes? text (byteLength (text.take m))
      (max (byteLength (text.take n)) (byteLength (text.take m))) =
      some ((text.drop m).take (n - m)) := by
  have stop : max (byteLength (text.take n)) (byteLength (text.take m)) =
      byteLength (text.take m ++ (text.drop m).take (n - m)) := by
    rw [← List.take_add]
    rcases Nat.le_total m n with order | reversed
    · rw [Nat.add_sub_cancel' order, Nat.max_eq_left (byteLength_take_le text order)]
    · rw [Nat.sub_eq_zero_of_le reversed, Nat.add_zero,
        Nat.max_eq_right (byteLength_take_le text reversed)]
  have pieces : text =
      text.take m ++ ((text.drop m).take (n - m) ++ (text.drop m).drop (n - m)) := by
    rw [List.take_append_drop, List.take_append_drop]
  have between := betweenBytes?_append (text.take m) ((text.drop m).take (n - m))
    ((text.drop m).drop (n - m))
  rw [← pieces, ← stop] at between
  exact between

section Exact

variable {text : List Char} (small : byteLength text < UInt32.size)
include small

/-- Both searches stop at the same place. -/
theorem byteOffset?_eq (p : Position) :
    p.byteOffset? text = some (byteLength (text.take (p.offset text))) :=
  lineByte?_eq [] text p.character p.line.toNat small

/-- A slice by bytes is the one by characters. -/
theorem slice?_eq (r : Range) : r.slice? text = some (r.slice text) := by
  simp only [Range.slice?, byteOffset?_eq small, Option.bind_eq_bind, Option.bind_some]
  exact betweenBytes?_take text (r.start.offset text) (r.stop.offset text)

end Exact

/-- What stands in front of one position and the slice from there make up what stands in front of the
other. -/
theorem Front.append_slice {text front : List Char} {p q : Position} (h : Front text p front)
    (order : p.offset text ≤ q.offset text) : Front text q (front ++ Range.slice ⟨p, q⟩ text) := by
  obtain ⟨later, of_later⟩ := exists_front text q
  have joined : front ++ Range.slice ⟨p, q⟩ text = later :=
    calc front ++ Range.slice ⟨p, q⟩ text
      _ = text.take (p.offset text) ++
          (text.drop (p.offset text)).take (q.offset text - p.offset text) := by
        rw [h.eq_take]
        rfl
      _ = text.take (q.offset text) := by rw [← List.take_add, Nat.add_sub_cancel' order]
      _ = later := of_later.eq_take.symm
  rw [joined]
  exact of_later

/-- A slice that ends where another one begins goes on in it. -/
theorem slice_append_slice {text : List Char} {p q r : Position}
    (first : p.offset text ≤ q.offset text) (second : q.offset text ≤ r.offset text) :
    Range.slice ⟨p, q⟩ text ++ Range.slice ⟨q, r⟩ text = Range.slice ⟨p, r⟩ text := by
  obtain ⟨front, of_front⟩ := exists_front text p
  have in_two := (of_front.append_slice first).append_slice second
  have in_one := of_front.append_slice (first.trans second)
  apply (List.append_right_inj front).mp
  rw [← List.append_assoc]
  exact in_two.eq_take.trans in_one.eq_take.symm

theorem slice_of_le {text : List Char} {p q : Position} (reversed : q.offset text ≤ p.offset text) :
    Range.slice ⟨p, q⟩ text = [] := by
  rw [Range.slice, Nat.sub_eq_zero_of_le reversed, List.take_zero]

/-- In a text of fewer than 2^32 bytes every position is found, behind what stands in front of it: at
a byte at which a character begins or the text ends. Later positions are found at no earlier bytes. A
slice never fails. From one position to a later one it is what more stands in front of the later one,
backwards it is empty, and slices of adjacent ranges make up the slice of both. -/
theorem slices_exact (text : List Char) (small : byteLength text < UInt32.size) :
    (∀ p, ∃ front, Front text p front) ∧
      (∀ p front, Front text p front →
        front <+: text ∧ p.byteOffset? text = some (byteLength front)) ∧
      (∀ p q : Position, p ≤ q →
        ∃ m n, p.byteOffset? text = some m ∧ q.byteOffset? text = some n ∧ m ≤ n) ∧
      (∀ r : Range, r.slice? text = some (r.slice text)) ∧
      (∀ p q front, p ≤ q → Front text p front →
        ∃ piece, Range.slice? ⟨p, q⟩ text = some piece ∧ Front text q (front ++ piece)) ∧
      (∀ p q, q ≤ p → Range.slice? ⟨p, q⟩ text = some []) ∧
      ∀ p q r, p ≤ q → q ≤ r → ∃ a b, Range.slice? ⟨p, q⟩ text = some a ∧
        Range.slice? ⟨q, r⟩ text = some b ∧ Range.slice? ⟨p, r⟩ text = some (a ++ b) := by
  refine ⟨exists_front text, ?found, ?ordered, slice?_eq small, ?further, ?reversed, ?adjacent⟩
  case found =>
    intro p front of_front
    rw [byteOffset?_eq small, of_front.eq_take]
    exact ⟨List.take_prefix _ _, rfl⟩
  case ordered =>
    intro p q h
    exact ⟨_, _, byteOffset?_eq small p, byteOffset?_eq small q,
      byteLength_take_le text (offset_le h)⟩
  case further =>
    intro p q front h of_front
    exact ⟨_, slice?_eq small _, of_front.append_slice (offset_le h)⟩
  case reversed =>
    intro p q h
    rw [slice?_eq small, slice_of_le (offset_le h)]
  case adjacent =>
    intro p q r first second
    refine ⟨_, _, slice?_eq small _, slice?_eq small _, ?_⟩
    rw [slice?_eq small, slice_append_slice (offset_le first) (offset_le second)]

/-- A position between the two units of a character stands behind that character, and one in a missing
line at the end of the text. -/
theorem slices_exact_within_pair :
    byteLength ['a', '😀', 'b', '\n', '\n', 'c'] < UInt32.size ∧
      Front ['a', '😀', 'b', '\n', '\n', 'c'] ⟨0, 2⟩ ['a', '😀'] ∧
      Position.byteOffset? ['a', '😀', 'b', '\n', '\n', 'c'] ⟨0, 2⟩ = some 5 ∧
      (⟨0, 2⟩ : Position) ≤ ⟨7, 0⟩ ∧
      (∃ piece, Range.slice? ⟨⟨0, 2⟩, ⟨7, 0⟩⟩ ['a', '😀', 'b', '\n', '\n', 'c'] = some piece ∧
        Front ['a', '😀', 'b', '\n', '\n', 'c'] ⟨7, 0⟩ (['a', '😀'] ++ piece)) ∧
      Range.slice? ⟨⟨7, 0⟩, ⟨0, 2⟩⟩ ['a', '😀', 'b', '\n', '\n', 'c'] = some [] := by
  have small : byteLength ['a', '😀', 'b', '\n', '\n', 'c'] < UInt32.size := by decide
  have order : (⟨0, 2⟩ : Position) ≤ ⟨7, 0⟩ := by decide
  obtain ⟨total, found, -, -, further, reversed, -⟩ := slices_exact _ small
  obtain ⟨front, of_front⟩ := total ⟨0, 2⟩
  obtain rfl : front = ['a', '😀'] := of_front.eq_take
  exact ⟨small, of_front, (found _ _ of_front).2, order, further _ _ _ order of_front,
    reversed _ _ order⟩

/-- Up to the middle of a pair, the whole character is sliced, and from there nothing of it. -/
example : Range.slice? ⟨⟨0, 1⟩, ⟨0, 2⟩⟩ ['a', '😀', 'b'] = some ['😀'] ∧
    Range.slice? ⟨⟨0, 2⟩, ⟨0, 3⟩⟩ ['a', '😀', 'b'] = some [] := by decide

end CodeAtlas
