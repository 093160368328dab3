import CodeAtlas.Text.Cut
import Mathlib.Data.List.TakeWhile

/-!
What cutting a text leaves alone: a text without blanks at its ends is not trimmed, one with single
spaces is not squeezed, and a text is cut where the character stands that it is cut at.
-/
namespace CodeAtlas.Text

variable {s a b : List Char} {c : Char}

/-- What holds of the characters of a text is decided along the text. -/
instance decidableForallMem {P : Char → Prop} [DecidablePred P] : Decidable (∀ c ∈ s, P c) :=
  List.decidableBAll P s

/-! ## Trimming -/

theorem mem_of_mem_trim (h : c ∈ trim s) : c ∈ s := by
  unfold trim trimEnd trimStart at h
  have kept := (List.dropWhile_suffix isBlank).subset (List.mem_reverse.mp h)
  exact (List.dropWhile_suffix isBlank).subset (List.mem_reverse.mp kept)

/-- A text without blanks at its ends. -/
structure Tight (s : List Char) : Prop where
  first : ∀ c ∈ s.head?, isBlank c = false
  last : ∀ c ∈ s.getLast?, isBlank c = false

theorem Tight.of_unblank (h : ∀ c ∈ s, isBlank c = false) : Tight s where
  first c hc := h c (List.mem_of_mem_head? hc)
  last c hc := h c (List.mem_of_getLast? hc)

theorem dropWhile_isBlank (h : ∀ c ∈ s.head?, isBlank c = false) : s.dropWhile isBlank = s := by
  cases s with
  | nil => rfl
  | cons c s => exact List.dropWhile_cons_of_neg (Bool.eq_false_iff.mp (h c rfl))

theorem Tight.trim_eq (h : Tight s) : trim s = s := by
  have last : ∀ c ∈ s.reverse.head?, isBlank c = false := by
    rw [List.head?_reverse]
    exact h.last
  rw [trim, trimStart, dropWhile_isBlank h.first, trimEnd, dropWhile_isBlank last,
    List.reverse_reverse]

theorem trim_cons_blank (h : isBlank c) : trim (c :: s) = trim s := by
  rw [trim, trim, trimStart, List.dropWhile_cons_of_pos h, trimStart]

theorem trim_blanks_append {blanks : List Char} (h : ∀ c ∈ blanks, isBlank c) :
    trim (blanks ++ s) = trim s := by
  rw [trim, trim, trimStart, List.dropWhile_append_of_pos h, trimStart]

theorem trim_append_blanks {blanks : List Char} (tight : Tight s)
    (h : ∀ c ∈ blanks, isBlank c) : trim (s ++ blanks) = s := by
  have h' : ∀ c ∈ blanks.reverse, isBlank c := fun c hc => h c (List.mem_reverse.mp hc)
  cases s with
  | nil =>
    have start : trimStart blanks = [] := List.dropWhile_eq_nil_iff.mpr h
    rw [List.nil_append, trim, start]
    rfl
  | cons x s =>
    have first : ∀ y ∈ (x :: s ++ blanks).head?, isBlank y = false := tight.first
    have whole := tight.trim_eq
    rw [trim, trimStart, dropWhile_isBlank tight.first] at whole
    rw [trim, trimStart, dropWhile_isBlank first, trimEnd, List.reverse_append,
      List.dropWhile_append_of_pos h']
    exact whole

theorem trim_append_blank (tight : Tight s) (h : isBlank c) : trim (s ++ [c]) = s :=
  trim_append_blanks tight (List.forall_mem_singleton.mpr h)

theorem trim_concat_blank (h : isBlank c) : trim (s ++ [c]) = trim s := by
  rw [trim, trim, trimStart, trimStart, List.dropWhile_append]
  split
  · rename_i empty
    rw [List.isEmpty_iff.mp empty, List.dropWhile_cons_of_pos h]
    rfl
  · rw [trimEnd, List.reverse_append, List.reverse_singleton, List.singleton_append,
      List.dropWhile_cons_of_pos h, trimEnd]

theorem trimEnd_isPrefix (s : List Char) : trimEnd s <+: s := by
  have dropped := List.reverse_prefix.mpr (List.dropWhile_suffix isBlank (l := s.reverse))
  rwa [List.reverse_reverse] at dropped

theorem tight_trim (s : List Char) : Tight (trim s) where
  first c hc := by
    -- what is cut off at the end leaves the first character alone
    obtain ⟨rest, whole⟩ := trimEnd_isPrefix (trimStart s)
    have stops := List.head?_dropWhile_not isBlank s
    rw [show s.dropWhile isBlank = trim s ++ rest from whole.symm, List.head?_append,
      Option.mem_def.mp hc] at stops
    exact stops
  last c hc := by
    have stops := List.head?_dropWhile_not isBlank (trimStart s).reverse
    rw [trim, trimEnd, List.getLast?_reverse] at hc
    rw [Option.mem_def.mp hc] at stops
    exact stops

/-- What a trimmed text begins with stands behind blanks. -/
theorem exists_of_prefix_trim {start : List Char} (h : start <+: trim s) :
    ∃ blanks rest, s = blanks ++ (start ++ rest) ∧ ∀ c ∈ blanks, isBlank c := by
  obtain ⟨rest, whole⟩ := h.trans (trimEnd_isPrefix (trimStart s))
  refine ⟨s.takeWhile isBlank, rest, ?_, fun c hc => List.mem_takeWhile_imp hc⟩
  rw [whole]
  exact List.takeWhile_append_dropWhile.symm

theorem squeeze_go_append (h : ∀ c ∈ a, isBlank c = false) :
    squeeze.go false (a ++ b) = a ++ squeeze.go false b := by
  induction a with
  | nil => rfl
  | cons c a ih =>
    obtain ⟨here, others⟩ := List.forall_mem_cons.mp h
    rw [List.cons_append, squeeze.go, here, if_neg Bool.false_ne_true, ih others, List.cons_append]

theorem squeeze_of_unblank (h : ∀ c ∈ s, isBlank c = false) : squeeze s = s := by
  have whole := squeeze_go_append (b := []) h
  rw [List.append_nil, squeeze.go, List.append_nil] at whole
  rw [squeeze, (Tight.of_unblank h).trim_eq, whole]

theorem squeeze_go_true (h : ∀ c ∈ s.head?, isBlank c = false) :
    squeeze.go true s = squeeze.go false s := by
  cases s with
  | nil => rfl
  | cons c s =>
    have unblank := h c rfl
    rw [squeeze.go, squeeze.go, unblank, if_neg Bool.false_ne_true, if_neg Bool.false_ne_true]

theorem length_squeeze_go_le (afterBlank : Bool) (s : List Char) :
    (squeeze.go afterBlank s).length ≤ s.length := by
  induction s generalizing afterBlank with
  | nil => exact Nat.le_refl 0
  | cons c s ih =>
    rw [squeeze.go]
    split
    · split
      · exact Nat.le_succ_of_le (ih true)
      · exact Nat.succ_le_succ (ih true)
    · exact Nat.succ_le_succ (ih false)

theorem length_squeeze_le (s : List Char) : (squeeze s).length ≤ s.length :=
  Nat.le_trans (length_squeeze_go_le false _) (length_trim_le s)

theorem prefix_of_squeeze_go {start rest : List Char} (h : ∀ c ∈ start, isBlank c = false)
    (same : squeeze.go false s = start ++ rest) : start <+: s := by
  induction start generalizing s with
  | nil => exact List.nil_prefix
  | cons x start ih =>
    obtain ⟨here, others⟩ := List.forall_mem_cons.mp h
    cases s with
    | nil => cases same
    | cons c s =>
      rw [squeeze.go] at same
      cases blank : isBlank c with
      | true =>
        -- a space would be written first
        rw [blank] at same
        obtain ⟨rfl, -⟩ := List.cons.inj same
        exact absurd here (by decide)
      | false =>
        rw [blank] at same
        obtain ⟨rfl, behind⟩ := List.cons.inj same
        exact (List.prefix_cons_inj c).mpr (ih others behind)

/-- A word that a squeezed text begins with stands behind blanks. -/
theorem exists_of_squeeze {start rest : List Char} (h : ∀ c ∈ start, isBlank c = false)
    (same : squeeze s = start ++ rest) :
    ∃ blanks rest', s = blanks ++ (start ++ rest') ∧ ∀ c ∈ blanks, isBlank c :=
  exists_of_prefix_trim (prefix_of_squeeze_go h same)

/-- One space between two words stays as it is. -/
theorem squeeze_words (ha : ∀ c ∈ a, isBlank c = false) (hb : ∀ c ∈ b, isBlank c = false)
    (some_a : a ≠ []) (some_b : b ≠ []) : squeeze (a ++ ' ' :: b) = a ++ ' ' :: b := by
  obtain ⟨x, a, rfl⟩ := List.exists_cons_of_ne_nil some_a
  obtain ⟨y, b, rfl⟩ := List.exists_cons_of_ne_nil some_b
  have tight : Tight (x :: a ++ ' ' :: y :: b) := by
    refine ⟨fun c hc => ha c ?_, fun c hc => hb c ?_⟩
    · exact Option.mem_some_iff.mp hc ▸ List.mem_cons_self
    · rw [List.getLast?_append, List.getLast?_cons_cons] at hc
      refine List.mem_of_getLast? ?_
      rwa [List.getLast?_cons] at hc ⊢
  have rest := squeeze_go_append (b := []) (List.forall_mem_cons.mp hb).2
  rw [List.append_nil, squeeze.go, List.append_nil] at rest
  rw [squeeze, tight.trim_eq, squeeze_go_append ha, squeeze.go, if_pos (by decide),
    if_neg Bool.false_ne_true, squeeze.go, hb y List.mem_cons_self, if_neg Bool.false_ne_true, rest]

/-! ## Splitting -/

theorem beforeFirst_of_not_mem (h : c ∉ s) : beforeFirst c s = s :=
  List.takeWhile_eq_self_iff.mpr fun x hx => decide_eq_true fun same : x = c => h (same ▸ hx)

theorem not_mem_beforeFirst : c ∉ beforeFirst c s := by
  intro h
  unfold beforeFirst at h
  simpa using List.mem_takeWhile_imp h

theorem afterLast_of_not_mem (h : c ∉ s) : afterLast c s = s := by
  have whole : s.reverse.takeWhile (· ≠ c) = s.reverse :=
    beforeFirst_of_not_mem fun hc => h (List.mem_reverse.mp hc)
  rw [afterLast, whole, List.reverse_reverse]

theorem splitFirst_of_not_mem (h : c ∉ s) : splitFirst c s = none := by
  cases found : splitFirst c s with
  | none => rfl
  | some parts =>
    have whole := eq_append_of_splitFirst found
    exact absurd (whole ▸ List.mem_append_right _ List.mem_cons_self) h

/-- A text is cut at the first `c` in one way. -/
theorem eq_of_cut_at_first {a' b' : List Char} (ha : c ∉ a) (ha' : c ∉ a')
    (same : a ++ c :: b = a' ++ c :: b') : a = a' ∧ b = b' := by
  have cut := splitFirst_append ha b
  rw [same, splitFirst_append ha' b', Option.some.injEq, Prod.mk.injEq] at cut
  exact ⟨cut.1.symm, cut.2.symm⟩

theorem splitLast_of_not_mem (h : c ∉ s) : splitLast c s = none := by
  induction s with
  | nil => rfl
  | cons x s ih =>
    obtain ⟨first, others⟩ := not_or.mp (mt List.mem_cons.mpr h)
    rw [splitLast, ih others]
    exact if_neg (Ne.symm first)

theorem splitLast_append (h : c ∉ b) (a : List Char) : splitLast c (a ++ c :: b) = some (a, b) := by
  induction a with
  | nil => rw [List.nil_append, splitLast, splitLast_of_not_mem h]; exact if_pos rfl
  | cons x a ih => rw [List.cons_append, splitLast, ih]

theorem eq_append_of_splitLast (h : splitLast c s = some (a, b)) : s = a ++ c :: b := by
  induction s generalizing a with
  | nil => cases h
  | cons x s ih =>
    rw [splitLast] at h
    cases found : splitLast c s with
    | some parts =>
      rw [found] at h
      cases h
      rw [ih found, List.cons_append]
    | none =>
      rw [found] at h
      dsimp only at h
      split at h
      · rename_i same
        cases h
        rw [same, List.nil_append]
      · cases h

/-- What is read of a text without a character in it is read before that character. -/
theorem exists_of_piece_before {p t : List Char} (same : a ++ c :: b = p ++ t) (h : c ∉ p) :
    ∃ more, a = p ++ more ∧ t = more ++ c :: b := by
  rcases List.append_eq_append_iff.mp same with ⟨more, rfl, behind⟩ | ⟨more, whole, behind⟩
  · cases more with
    | nil => exact ⟨[], by simp, behind.symm⟩
    | cons x more =>
      obtain ⟨rfl, -⟩ := List.cons.inj behind
      exact absurd (List.mem_append_right _ List.mem_cons_self) h
  · exact ⟨more, whole, behind⟩

/-! ## Beginnings -/

theorem eq_append_of_dropStart? {start s rest : List Char} (h : dropStart? start s = some rest) :
    s = start ++ rest := by
  induction start generalizing s with
  | nil => exact Option.some.inj h
  | cons x start ih =>
    cases s with
    | nil => cases h
    | cons c s =>
      rw [dropStart?] at h
      split at h
      · rename_i same
        rw [same, ih h, List.cons_append]
      · cases h

theorem dropStart?_append (start rest : List Char) :
    dropStart? start (start ++ rest) = some rest := by
  induction start with
  | nil => cases rest <;> rfl
  | cons x start ih => rw [List.cons_append, dropStart?, if_pos rfl, ih]

/-! ## Joining -/

theorem joinWith_concat (glue : List Char) (pieces : List (List Char)) (last : List Char) :
    joinWith glue (pieces ++ [last]) =
      (if pieces.isEmpty then [] else joinWith glue pieces ++ glue) ++ last := by
  induction pieces with
  | nil => rfl
  | cons piece pieces ih =>
    cases pieces with
    | nil => rfl
    | cons next pieces =>
      have further : joinWith glue (piece :: (next :: pieces ++ [last])) =
          piece ++ glue ++ joinWith glue (next :: pieces ++ [last]) := rfl
      rw [List.cons_append, further, ih]
      simp [joinWith]

end CodeAtlas.Text
