import CodeAtlas.Proofs.Cutting
import Mathlib.Data.List.Basic

/-!
Runs of a text: the longest pieces of it whose characters all belong to a class. The runs of word
characters are the words of a program text, the runs of other characters than blanks its words as
they are set apart by blanks. A text whose parts meet at a character outside of the class has the
runs of its parts (`runs_append`, `runs_append_of_last`).
-/
namespace CodeAtlas.Text

variable {q : Char → Bool} {s a b w : List Char} {c : Char}

/-- The longest pieces of a text, in order, whose characters all have the property. -/
def runs (q : Char → Bool) (s : List Char) : List (List Char) :=
  (s.splitOnP fun c => !q c).filter (· ≠ [])

/-- The pieces of a text between its blanks. -/
def words (s : List Char) : List (List Char) := runs (fun c => !isBlank c) s

theorem runs_append_cons (h : q c = false) : runs q (a ++ c :: b) = runs q a ++ runs q b := by
  have separates : (!q c) = true := by rw [h]; rfl
  rw [runs, List.splitOnP_append_cons (p := fun c => !q c) a b separates, List.filter_append]
  rfl

theorem runs_cons (h : q c = false) : runs q (c :: s) = runs q s := runs_append_cons (a := []) h

theorem runs_of_all (some_text : w ≠ []) (h : ∀ c ∈ w, q c) : runs q w = [w] := by
  have whole : w.splitOnP (fun c => !q c) = [w] :=
    List.splitOnP_eq_singleton fun c hc => by rw [h c hc]; rfl
  rw [runs, whole]
  exact List.filter_cons_of_pos (decide_eq_true some_text)

/-- The runs of two texts stay apart if the second begins outside of the class. -/
theorem runs_append (h : ∀ c ∈ b.head?, q c = false) : runs q (a ++ b) = runs q a ++ runs q b := by
  cases b with
  | nil => rw [List.append_nil]; exact (List.append_nil _).symm
  | cons c b => rw [runs_append_cons (h c rfl), runs_cons (h c rfl)]

/-- The runs of two texts stay apart if the first ends outside of the class. -/
theorem runs_append_of_last (h : ∀ c ∈ a.getLast?, q c = false) :
    runs q (a ++ b) = runs q a ++ runs q b := by
  rcases List.eq_nil_or_concat' a with rfl | ⟨a, c, rfl⟩
  · rfl
  · have last : q c = false := h c (List.getLast?_concat)
    rw [List.append_assoc, List.singleton_append, runs_append_cons last, runs_append_cons last]
    exact congrArg (· ++ runs q b) (List.append_nil _).symm

theorem runs_of_none (h : ∀ c ∈ a, q c = false) : runs q a = [] := by
  induction a with
  | nil => rfl
  | cons c a ih =>
    obtain ⟨here, others⟩ := List.forall_mem_cons.mp h
    rw [runs_cons here, ih others]

theorem runs_append_of_none (h : ∀ c ∈ a, q c = false) : runs q (a ++ b) = runs q b := by
  rw [runs_append_of_last fun c hc => h c (List.mem_of_getLast? hc), runs_of_none h,
    List.nil_append]

theorem runs_append_none (h : ∀ c ∈ b, q c = false) : runs q (a ++ b) = runs q a := by
  rw [runs_append fun c hc => h c (List.mem_of_mem_head? hc), runs_of_none h, List.append_nil]

/-- A piece within the class that neither begins nor ends within a longer one is a run. -/
theorem mem_runs (some_text : w ≠ []) (h : ∀ c ∈ w, q c) (starts : ∀ c ∈ a.getLast?, q c = false)
    (ends : ∀ c ∈ b.head?, q c = false) : w ∈ runs q (a ++ (w ++ b)) := by
  rw [runs_append_of_last starts, runs_append ends, runs_of_all some_text h]
  simp

theorem head?_dropWhile_outside (q : Char → Bool) (s : List Char) :
    ∀ c ∈ (s.dropWhile q).head?, q c = false := by
  intro c hc
  have stops := List.head?_dropWhile_not q s
  rw [Option.mem_def.mp hc] at stops
  exact stops

/-- The first run of a text that begins within the class, and those behind it. -/
theorem runs_cons_of_pos (h : q c) :
    runs q (c :: s) = (c :: s.takeWhile q) :: runs q (s.dropWhile q) := by
  have all : ∀ x ∈ c :: s.takeWhile q, q x :=
    List.forall_mem_cons.mpr ⟨h, fun x hx => List.mem_takeWhile_imp hx⟩
  have whole : c :: s = (c :: s.takeWhile q) ++ s.dropWhile q := by
    rw [List.cons_append, List.takeWhile_append_dropWhile]
  rw [whole, runs_append (head?_dropWhile_outside q s), runs_of_all (List.cons_ne_nil _ _) all]
  rfl

theorem runs_eq_nil_iff : runs q s = [] ↔ ∀ c ∈ s, q c = false := by
  refine ⟨fun empty => ?_, runs_of_none⟩
  induction s with
  | nil => exact List.forall_mem_nil _
  | cons x s ih =>
    cases hx : q x with
    | false =>
      rw [runs_cons hx] at empty
      exact List.forall_mem_cons.mpr ⟨hx, ih empty⟩
    | true =>
      -- the piece that begins here is a run
      rw [runs_cons_of_pos hx] at empty
      cases empty

/-- A run is a piece within the class that neither begins nor ends within a longer one. -/
theorem exists_of_mem_runs (h : w ∈ runs q s) : ∃ a b, s = a ++ (w ++ b) ∧ w ≠ [] ∧
    (∀ c ∈ w, q c) ∧ (∀ c ∈ a.getLast?, q c = false) ∧ ∀ c ∈ b.head?, q c = false := by
  -- the length, since a run is taken at once
  induction hn : s.length using Nat.strong_induction_on generalizing s with
  | _ n ih =>
    cases s with
    | nil => cases h
    | cons c s =>
      cases here : q c with
      | false =>
        rw [runs_cons here] at h
        obtain ⟨a, b, rfl, some_text, within, starts, ends⟩ := ih s.length (by simp [← hn]) h rfl
        refine ⟨c :: a, b, rfl, some_text, within, fun x hx => ?_, ends⟩
        cases a with
        | nil => exact Option.mem_some_iff.mp hx ▸ here
        | cons y a => exact starts x (by rwa [List.getLast?_cons_cons] at hx)
      | true =>
        rw [runs_cons_of_pos here] at h
        rcases List.mem_cons.mp h with rfl | later
        · refine ⟨[], s.dropWhile q, ?_, List.cons_ne_nil _ _, ?_, (fun _ hx => nomatch hx),
            head?_dropWhile_outside q s⟩
          · simp
          · exact List.forall_mem_cons.mpr ⟨here, fun x hx => List.mem_takeWhile_imp hx⟩
        · have shorter := (List.dropWhile_suffix q (l := s)).length_le
          obtain ⟨a, b, rest, some_text, within, starts, ends⟩ :=
            ih _ (by rw [← hn, List.length_cons]; omega) later rfl
          refine ⟨c :: s.takeWhile q ++ a, b, ?_, some_text, within, fun x hx => ?_, ends⟩
          · rw [List.append_assoc, ← rest, List.cons_append, List.takeWhile_append_dropWhile]
          · -- what is behind the first run does not begin within the class
            cases a with
            | cons y a =>
              rw [List.getLast?_append_of_ne_nil _ (List.cons_ne_nil y a)] at hx
              exact starts x hx
            | nil =>
              obtain ⟨y, w, rfl⟩ := List.exists_cons_of_ne_nil some_text
              have outside := head?_dropWhile_outside q s y (by rw [rest]; rfl)
              rw [within y List.mem_cons_self] at outside
              cases outside

/-- A piece within the class ends before what lies outside of it. -/
theorem prefix_of_ends (h : ∀ c ∈ w, q c) (ends : ∀ c ∈ b.head?, q c = false)
    (start : w <+: a ++ b) : w <+: a := by
  rcases List.prefix_or_prefix_of_prefix start (List.prefix_append a b) with within | ⟨more, rfl⟩
  · exact within
  · cases more with
    | nil => exact ⟨[], by rw [List.append_nil, List.append_nil]⟩
    | cons x more =>
      obtain ⟨rest, behind⟩ := (List.prefix_append_right_inj a).mp start
      have outside := ends x (by rw [← behind]; rfl)
      have inside := h x (List.mem_append_right _ List.mem_cons_self)
      rw [inside] at outside
      cases outside

/-! ## Words and blanks -/

/-- No blank is a word character. -/
theorem isWord_of_isBlank {c : Char} (h : isBlank c) : isWord c = false := by
  let codes := [9, 10, 11, 12, 13, 0x20, 0x85, 0xA0, 0x1680, 0x2028, 0x2029, 0x202F, 0x205F,
    0x3000] ++ List.range' 0x2000 11
  have listed : c.val.toNat ∈ codes := by
    unfold isBlank at h
    dsimp only at h
    generalize c.val.toNat = n at h ⊢
    simp only [codes, List.mem_append, List.mem_cons, List.mem_range'_1, List.not_mem_nil]
    split at h
    all_goals
      simp only [Bool.or_eq_true, Bool.and_eq_true, beq_iff_eq, decide_eq_true_eq] at h
      omega
  have unworded : ∀ n ∈ codes, isWord (Char.ofNat n) = false := by decide +kernel
  have same := unworded _ listed
  rwa [show Char.ofNat c.val.toNat = c from Char.ofNat_toNat c] at same
theorem words_append (h : ∀ c ∈ b.head?, isBlank c) : words (a ++ b) = words a ++ words b :=
  runs_append fun c hc => by rw [h c hc]; rfl

theorem words_append_of_last (h : ∀ c ∈ a.getLast?, isBlank c) :
    words (a ++ b) = words a ++ words b :=
  runs_append_of_last fun c hc => by rw [h c hc]; rfl

theorem words_append_blanks (h : ∀ c ∈ b, isBlank c) : words (a ++ b) = words a :=
  runs_append_none fun c hc => by rw [h c hc]; rfl

theorem words_of_blanks (h : ∀ c ∈ a, isBlank c) : words a = [] :=
  runs_of_none fun c hc => by rw [h c hc]; rfl

theorem words_of_unblank (some_text : w ≠ []) (h : ∀ c ∈ w, isBlank c = false) : words w = [w] :=
  runs_of_all some_text fun c hc => by rw [h c hc]; rfl

theorem words_eq_nil_iff : words s = [] ↔ ∀ c ∈ s, isBlank c := by
  rw [words, runs_eq_nil_iff]
  simp

/-- What holds of the words of a text and of every word that begins with `w` holds of the words of
the text behind `w`. -/
theorem forall_words_glued {P : List Char → Prop} (some_text : w ≠ [])
    (h : ∀ c ∈ w, isBlank c = false) (glued : ∀ v, P (w ++ v)) (others : ∀ v ∈ words s, P v) :
    ∀ v ∈ words (w ++ s), P v := by
  -- the part of the text that is glued to `w`
  let v := s.takeWhile fun c => !isBlank c
  let rest := s.dropWhile fun c => !isBlank c
  have whole : s = v ++ rest := List.takeWhile_append_dropWhile.symm
  have unblank : ∀ c ∈ v, isBlank c = false := fun c hc => by
    simpa using List.mem_takeWhile_imp hc
  have ends : ∀ c ∈ rest.head?, isBlank c := fun c hc => by
    simpa using head?_dropWhile_outside (fun c => !isBlank c) s c hc
  have behind : ∀ u ∈ words rest, P u := by
    rw [whole, words_append ends] at others
    exact (List.forall_mem_append.mp others).2
  rw [whole, ← List.append_assoc, words_append ends,
    words_of_unblank (List.append_ne_nil_of_left_ne_nil some_text v)
      (List.forall_mem_append.mpr ⟨h, unblank⟩)]
  exact List.forall_mem_cons.mpr ⟨glued v, behind⟩

/-- What is trimmed away are blanks. -/
theorem exists_blanks_around (s : List Char) : ∃ l r, s = l ++ (trim s ++ r) ∧
    (∀ c ∈ l, isBlank c) ∧ ∀ c ∈ r, isBlank c := by
  let t := trimStart s
  refine ⟨s.takeWhile isBlank, (t.reverse.takeWhile isBlank).reverse, ?_, ?_, ?_⟩
  · have ends : trim s ++ (t.reverse.takeWhile isBlank).reverse = t := by
      rw [trim, trimEnd, ← List.reverse_append, List.takeWhile_append_dropWhile,
        List.reverse_reverse]
    rw [ends]
    exact List.takeWhile_append_dropWhile.symm
  · exact fun c hc => List.mem_takeWhile_imp hc
  · exact fun c hc => List.mem_takeWhile_imp (List.mem_reverse.mp hc)

theorem words_trim (s : List Char) : words (trim s) = words s := by
  obtain ⟨l, r, whole, before, behind⟩ := exists_blanks_around s
  have first : ∀ c ∈ l.getLast?, isBlank c := fun c hc => before c (List.mem_of_getLast? hc)
  have all := words_append_of_last (b := trim s ++ r) first
  rw [← whole, words_of_blanks before, words_append_blanks behind, List.nil_append] at all
  exact all.symm

/-- A text that does not begin with a blank begins with a word. -/
theorem exists_first_word (some_text : s ≠ []) (first : ∀ c ∈ s.head?, isBlank c = false) :
    ∃ w rest, s = w ++ rest ∧ w ≠ [] ∧ (∀ c ∈ w, isBlank c = false) ∧
      ∀ c ∈ rest.head?, isBlank c := by
  obtain ⟨x, s, rfl⟩ := List.exists_cons_of_ne_nil some_text
  have letter : (!isBlank x) = true := by rw [first x rfl]; rfl
  refine ⟨(x :: s).takeWhile (fun c => !isBlank c), (x :: s).dropWhile (fun c => !isBlank c),
    List.takeWhile_append_dropWhile.symm, ?_, fun c hc => ?_, fun c hc => ?_⟩
  · rw [List.takeWhile_cons_of_pos (p := fun c => !isBlank c) letter]
    exact List.cons_ne_nil _ _
  · simpa using List.mem_takeWhile_imp hc
  · simpa using head?_dropWhile_outside (fun c => !isBlank c) (x :: s) c hc

end CodeAtlas.Text
