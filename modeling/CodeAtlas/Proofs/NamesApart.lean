import CodeAtlas.Proofs.DeclaredParameters
import CodeAtlas.Proofs.Runs
import CodeAtlas.Proofs.Stretches

/-!
Names in code. A name that is left when comments and the contents of literals are gone is put
together from characters of code between which at most comments on one line stand, and the names
that are left are those of the source exactly if no such comment stands between two characters of
names (`names_apart_unless_commented`): of a comment on one line nothing is left (`names_merged`).
-/
namespace CodeAtlas.Source

open Parameters (isNameChar)

/-! ## Letters in pieces -/

section Pieces

variable {α : Type} {f : α → List Char} {q : Char → Bool} {l : List α} {a b w : List Char}
  {c : Char}

/-- Whether each character of a class is all that its piece has. -/
def StandAlone (q : Char → Bool) (f : α → List Char) (l : List α) : Prop :=
  ∀ p ∈ l, ∀ c ∈ f p, q c → f p = [c]

theorem exists_piece (alone : StandAlone q f l) (h : l.flatMap f = a ++ c :: b) (letter : q c) :
    ∃ before p after, l = before ++ p :: after ∧ f p = [c] ∧ before.flatMap f = a ∧
      after.flatMap f = b := by
  induction l generalizing a with
  | nil => exact absurd h.symm (List.append_ne_nil_of_right_ne_nil a (List.cons_ne_nil c b))
  | cons p l ih =>
    obtain ⟨here, others⟩ := List.forall_mem_cons.mp alone
    rw [List.flatMap_cons] at h
    rcases List.append_eq_append_iff.mp h with ⟨more, rfl, behind⟩ | ⟨more, whole, behind⟩
    · obtain ⟨before, x, after, rfl, hx, rfl, rfl⟩ := ih others behind
      exact ⟨p :: before, x, after, rfl, hx, rfl, rfl⟩
    · cases more with
      | nil =>
        rw [List.append_nil] at whole
        obtain ⟨before, x, after, rfl, hx, none_before, rfl⟩ :=
          ih others (show l.flatMap f = [] ++ c :: b from behind.symm)
        refine ⟨p :: before, x, after, rfl, hx, ?_, rfl⟩
        rw [List.flatMap_cons, none_before, List.append_nil, whole]
      | cons y more =>
        -- the letter is in this piece, so it is all of it
        obtain ⟨rfl, rfl⟩ := List.cons.inj behind
        have whole_piece := here c (whole ▸ List.mem_append_right _ List.mem_cons_self) letter
        rw [whole_piece] at whole
        obtain ⟨rfl, rfl⟩ : a = [] ∧ more = [] := by
          cases a with
          | nil => exact ⟨rfl, (List.cons.inj whole).2.symm⟩
          | cons z a => simp at whole
        exact ⟨[], p, l, rfl, whole_piece, rfl, rfl⟩

/-- A text of letters at the beginning is that of pieces with a letter each and of empty ones. -/
theorem exists_pieces (alone : StandAlone q f l) (h : l.flatMap f = w ++ b)
    (letters : ∀ c ∈ w, q c) :
    ∃ mid after, l = mid ++ after ∧ mid.flatMap f = w ∧ after.flatMap f = b ∧
      ∀ p ∈ mid, f p = [] ∨ ∃ c, f p = [c] ∧ q c := by
  induction w generalizing l with
  | nil => exact ⟨[], l, rfl, rfl, h, List.forall_mem_nil _⟩
  | cons c w ih =>
    obtain ⟨letter, others⟩ := List.forall_mem_cons.mp letters
    obtain ⟨before, p, after, rfl, hp, none_before, behind⟩ := exists_piece (a := []) alone h letter
    have alone' : StandAlone q f after := fun p hp => alone p (by simp [hp])
    obtain ⟨mid, after, rfl, rfl, rfl, hmid⟩ := ih alone' behind others
    refine ⟨before ++ p :: mid, after, by simp, ?_, rfl, ?_⟩
    · rw [List.flatMap_append, List.flatMap_cons, none_before, hp]
      rfl
    · refine List.forall_mem_append.mpr ⟨fun p hp => ?_, List.forall_mem_cons.mpr ⟨?_, hmid⟩⟩
      · exact .inl (List.flatMap_eq_nil_iff.mp none_before p hp)
      · exact .inr ⟨c, hp, letter⟩

/-- A text of letters anywhere. -/
theorem exists_pieces_within (alone : StandAlone q f l) (h : l.flatMap f = a ++ (w ++ b))
    (some_text : w ≠ []) (letters : ∀ c ∈ w, q c) :
    ∃ before mid after, l = before ++ (mid ++ after) ∧ before.flatMap f = a ∧ mid.flatMap f = w ∧
      after.flatMap f = b ∧ ∀ p ∈ mid, f p = [] ∨ ∃ c, f p = [c] ∧ q c := by
  obtain ⟨c, w, rfl⟩ := List.exists_cons_of_ne_nil some_text
  obtain ⟨letter, others⟩ := List.forall_mem_cons.mp letters
  obtain ⟨before, p, after, rfl, hp, rfl, behind⟩ := exists_piece alone h letter
  have alone' : StandAlone q f after := fun p hp => alone p (by simp [hp])
  obtain ⟨mid, after, rfl, rfl, rfl, hmid⟩ := exists_pieces alone' behind others
  refine ⟨before, p :: mid, after, by simp, rfl, ?_, rfl, List.forall_mem_cons.mpr ⟨?_, hmid⟩⟩
  · rw [List.flatMap_cons, hp]
    rfl
  · exact .inr ⟨c, hp, letter⟩

end Pieces

/-! ## Stretches with letters -/

/-- Whether nothing is left of a stretch: it is a comment on one line. -/
def Stretch.Silent : Stretch → Prop
  | lineComment _ => True
  | blockComment body _ => '\n' ∉ body
  | char _ | literal _ _ _ => False

/-- A stretch of code, or a blank for anything else. -/
def Stretch.spaced : Stretch → List Char
  | char c => [c]
  | lineComment _ | blockComment _ _ | literal _ _ _ => [' ']

/-- A text with a blank for each comment and each literal. -/
def spacedOf (ps : List Stretch) : List Char := ps.flatMap Stretch.spaced

/-- Whether a name stands in code by itself, with no character of a name next to it. -/
def NameIn (ps : List Stretch) (w : List Char) : Prop :=
  w ≠ [] ∧ (∀ c ∈ w, isNameChar c) ∧ ∃ before after, ps = before ++ (w.map .char ++ after) ∧
    (∀ c, before.getLast? = some (.char c) → isNameChar c = false) ∧
    ∀ c, after.head? = some (.char c) → isNameChar c = false

/-- Whether no two characters of names stand side by side but for comments on one line. -/
def Separated (ps : List Stretch) : Prop :=
  ∀ before a silent b after, ps = before ++ .char a :: (silent ++ .char b :: after) →
    silent ≠ [] → (∀ p ∈ silent, p.Silent) → ¬ (isNameChar a ∧ isNameChar b)

section Names

variable {ps : List Stretch} {p : Stretch} {next : Option Char} {c : Char}

theorem kept_eq_nil : p.kept = [] ↔ p.Silent := by
  cases p with
  | char c => simp [Stretch.kept, Stretch.Silent]
  | lineComment body => simp [Stretch.kept, Stretch.Silent]
  | blockComment body closed => exact newlines_eq_nil
  | literal quote glyphs ending => simp [Stretch.kept, Stretch.Silent]

/-- A character of a name that is left of a stretch is the stretch. -/
theorem eq_char_of_mem_kept (h : p.Fits next) (hc : c ∈ p.kept) (letter : isNameChar c) :
    p = .char c := by
  cases p with
  | char x => rw [List.mem_singleton.mp hc]
  | lineComment body => cases hc
  | blockComment body closed =>
    obtain rfl := eq_newline_of_mem hc
    exact absurd letter (by decide)
  | literal quote glyphs ending =>
    have quoted : c = quote := by
      cases ending <;> simpa [Stretch.kept, Ending.kept] using hc
    rcases isQuote_iff.mp (quoted ▸ h.1) with rfl | rfl <;> exact absurd letter (by decide)

theorem eq_char_of_mem_spaced (hc : c ∈ p.spaced) (letter : isNameChar c) : p = .char c := by
  cases p with
  | char x => rw [List.mem_singleton.mp hc]
  | lineComment | blockComment | literal =>
    obtain rfl := List.mem_singleton.mp hc
    exact absurd letter (by decide)

theorem exists_fits (fit : Fit next ps) (hp : p ∈ ps) : ∃ next, p.Fits next := by
  induction ps with
  | nil => cases hp
  | cons x ps ih =>
    rcases List.mem_cons.mp hp with rfl | later
    · exact ⟨_, fit.1⟩
    · exact ih fit.2 later

theorem kept_standAlone (fit : Fit next ps) : StandAlone isNameChar Stretch.kept ps := by
  intro p hp c hc letter
  obtain ⟨_, fits⟩ := exists_fits fit hp
  rw [eq_char_of_mem_kept fits hc letter, Stretch.kept]

theorem spaced_standAlone : StandAlone isNameChar Stretch.spaced ps := by
  intro p _ c hc letter
  rw [eq_char_of_mem_spaced hc letter, Stretch.spaced]

theorem eq_map_char (h : ∀ p ∈ ps, ∃ c, p = .char c) : ps = (spacedOf ps).map .char := by
  induction ps with
  | nil => rfl
  | cons p ps ih =>
    obtain ⟨⟨c, rfl⟩, others⟩ := List.forall_mem_cons.mp h
    exact congrArg (Stretch.char c :: ·) (ih others)

theorem spacedOf_map_char (w : List Char) : spacedOf (w.map .char) = w := by
  induction w with
  | nil => rfl
  | cons c w ih => exact congrArg (c :: ·) ih

theorem spacedOf_append (ps qs : List Stretch) : spacedOf (ps ++ qs) = spacedOf ps ++ spacedOf qs :=
  List.flatMap_append

theorem getLast?_spacedOf : (∀ c ∈ (spacedOf ps).getLast?, isNameChar c = false) ↔
    ∀ c, ps.getLast? = some (.char c) → isNameChar c = false := by
  have blank : isNameChar ' ' = false := by decide
  rcases List.eq_nil_or_concat' ps with rfl | ⟨ps, p, rfl⟩
  · simp [spacedOf]
  · rw [spacedOf_append]
    cases p <;> simp [spacedOf, Stretch.spaced, blank]

theorem head?_spacedOf : (∀ c ∈ (spacedOf ps).head?, isNameChar c = false) ↔
    ∀ c, ps.head? = some (.char c) → isNameChar c = false := by
  have blank : isNameChar ' ' = false := by decide
  cases ps with
  | nil => simp [spacedOf]
  | cons p ps => cases p <;> simp [spacedOf, Stretch.spaced, blank]

/-- The names that are set apart by blanks are those that stand in code by themselves. -/
theorem mem_runs_spacedOf {w : List Char} :
    w ∈ Text.runs isNameChar (spacedOf ps) ↔ NameIn ps w := by
  constructor
  · intro h
    obtain ⟨a, b, whole, some_text, letters, starts, ends⟩ := Text.exists_of_mem_runs h
    obtain ⟨before, mid, after, rfl, rfl, rfl, rfl, hmid⟩ :=
      exists_pieces_within spaced_standAlone whole some_text letters
    have chars : ∀ p ∈ mid, ∃ c, p = .char c := by
      intro p hp
      rcases hmid p hp with none_left | ⟨c, left, letter⟩
      · cases p <;> cases none_left
      · exact ⟨c, eq_char_of_mem_spaced (left ▸ List.mem_cons_self) letter⟩
    refine ⟨some_text, letters, before, after, ?_, ?_, ?_⟩
    · rw [← spacedOf, ← eq_map_char chars]
    · exact getLast?_spacedOf.mp starts
    · exact head?_spacedOf.mp ends
  · rintro ⟨some_text, letters, before, after, rfl, starts, ends⟩
    rw [spacedOf_append, spacedOf_append, spacedOf_map_char]
    exact Text.mem_runs some_text letters (getLast?_spacedOf.mpr starts) (head?_spacedOf.mpr ends)

/-- A name that is left is put together from characters of code and comments on one line. -/
theorem exists_of_mem_runs_keptOf (fit : Fit next ps) {w : List Char}
    (h : w ∈ Text.runs isNameChar (keptOf ps)) :
    ∃ before mid after, ps = before ++ (mid ++ after) ∧ keptOf mid = w ∧
      ∀ p ∈ mid, p.Silent ∨ ∃ c, p = .char c ∧ isNameChar c := by
  obtain ⟨a, b, whole, some_text, letters, -, -⟩ := Text.exists_of_mem_runs h
  obtain ⟨before, mid, after, rfl, -, left, -, hmid⟩ :=
    exists_pieces_within (kept_standAlone fit) whole some_text letters
  refine ⟨before, mid, after, rfl, left, fun p hp => ?_⟩
  rcases hmid p hp with none_left | ⟨c, one_left, letter⟩
  · exact .inl (kept_eq_nil.mp none_left)
  · have known : p ∈ before ++ (mid ++ after) := by simp [hp]
    obtain ⟨_, fits⟩ := exists_fits fit known
    exact .inr ⟨c, eq_char_of_mem_kept fits (one_left ▸ List.mem_cons_self) letter, letter⟩

/-! ## Names side by side -/

/-- Whether a text begins with a character of a name. -/
def startsInName (s : List Char) : Bool := s.head?.any isNameChar

theorem startsInName_keptOf (fit : Fit next ps) : startsInName (keptOf ps) = true ↔
    ∃ silent b after, ps = silent ++ .char b :: after ∧ (∀ p ∈ silent, p.Silent) ∧
      isNameChar b := by
  constructor
  · intro starts
    cases left : keptOf ps with
    | nil =>
      rw [left] at starts
      cases starts
    | cons b s =>
      rw [left] at starts
      obtain ⟨silent, p, after, rfl, one_left, none_before, -⟩ :=
        exists_piece (a := []) (kept_standAlone fit) left starts
      obtain ⟨_, fits⟩ := exists_fits fit (List.mem_append_right _ List.mem_cons_self)
      rw [eq_char_of_mem_kept fits (one_left ▸ List.mem_cons_self) starts]
      refine ⟨silent, b, after, rfl, fun p hp => ?_, starts⟩
      exact kept_eq_nil.mp (List.flatMap_eq_nil_iff.mp none_before p hp)
  · rintro ⟨silent, b, after, rfl, quiet, letter⟩
    have none_before : keptOf silent = [] :=
      List.flatMap_eq_nil_iff.mpr fun p hp => kept_eq_nil.mpr (quiet p hp)
    rw [keptOf_append, none_before]
    exact letter

theorem startsInName_spacedOf : startsInName (spacedOf ps) = true ↔
    ∃ b after, ps = .char b :: after ∧ isNameChar b := by
  have blank : isNameChar ' ' = false := by decide
  cases ps with
  | nil => simp [spacedOf, startsInName]
  | cons p ps => cases p <;> simp [spacedOf, Stretch.spaced, startsInName, blank]

theorem separated_cons : Separated (p :: ps) ↔
    (∀ a silent b after, p = .char a → ps = silent ++ .char b :: after → silent ≠ [] →
      (∀ p ∈ silent, p.Silent) → ¬ (isNameChar a ∧ isNameChar b)) ∧ Separated ps := by
  constructor
  · intro apart
    refine ⟨fun a silent b after hp hps => ?_, fun before a silent b after hps => ?_⟩
    · exact apart [] a silent b after (by rw [hp, hps]; rfl)
    · exact apart (p :: before) a silent b after (by rw [hps]; rfl)
  · rintro ⟨first, others⟩ before a silent b after whole
    cases before with
    | nil =>
      obtain ⟨hp, hps⟩ := List.cons.inj whole
      exact first a silent b after hp hps
    | cons x before => exact others before a silent b after (List.cons.inj whole).2

/-- A character of a name keeps apart from what follows unless a name goes on behind a comment. -/
theorem separated_cons_char (fit : Fit next ps) (letter : isNameChar c) :
    Separated (.char c :: ps) ↔
      (startsInName (keptOf ps) = true → startsInName (spacedOf ps) = true) ∧ Separated ps := by
  rw [separated_cons, startsInName_keptOf fit, startsInName_spacedOf]
  refine and_congr_left fun _ => ⟨?_, ?_⟩
  · rintro apart ⟨silent, b, after, hps, quiet, hb⟩
    cases silent with
    | nil => exact ⟨b, after, hps, hb⟩
    | cons x silent =>
      exact absurd ⟨letter, hb⟩ (apart c _ b after rfl hps (List.cons_ne_nil x silent) quiet)
  · rintro side_by_side a silent b after hp hps some_silent quiet ⟨-, hb⟩
    obtain ⟨b', after', first, -⟩ := side_by_side ⟨silent, b, after, hps, quiet, hb⟩
    -- what is silent is no character
    obtain ⟨x, silent, rfl⟩ := List.exists_cons_of_ne_nil some_silent
    rw [hps] at first
    obtain ⟨rfl, -⟩ := List.cons.inj first
    exact quiet _ List.mem_cons_self

theorem runs_cons_of_starts {s : List Char} (letter : isNameChar c) (h : startsInName s = true) :
    Text.runs isNameChar (c :: s) = (Text.runs isNameChar s).modifyHead (c :: ·) := by
  cases s with
  | nil => cases h
  | cons x s =>
    have inside : isNameChar x = true := h
    rw [Text.runs_cons_of_pos letter, Text.runs_cons_of_pos inside,
      List.takeWhile_cons_of_pos inside, List.dropWhile_cons_of_pos inside]
    rfl

theorem runs_cons_of_not_starts {s : List Char} (letter : isNameChar c)
    (h : startsInName s = false) :
    Text.runs isNameChar (c :: s) = [c] :: Text.runs isNameChar s := by
  cases s with
  | nil => exact Text.runs_of_all (List.cons_ne_nil c []) (List.forall_mem_singleton.mpr letter)
  | cons x s =>
    have outside : ¬ isNameChar x = true := Bool.eq_false_iff.mp h
    rw [Text.runs_cons_of_pos letter, List.takeWhile_cons_of_neg outside,
      List.dropWhile_cons_of_neg outside]

theorem modifyHead_cons_inj {l l' : List (List Char)} :
    l.modifyHead (c :: ·) = l'.modifyHead (c :: ·) ↔ l = l' := by
  cases l <;> cases l' <;> simp

theorem startsInName_of_spacedOf (h : startsInName (spacedOf ps) = true) :
    startsInName (keptOf ps) = true := by
  obtain ⟨b, after, rfl, letter⟩ := startsInName_spacedOf.mp h
  exact letter

/-- What is no character of a name has no part in names. -/
theorem runs_of_not_letter (fits : p.Fits next) (other : ¬ ∃ c, p = .char c ∧ isNameChar c)
    (ps : List Stretch) :
    Text.runs isNameChar (keptOf (p :: ps)) = Text.runs isNameChar (keptOf ps) ∧
      Text.runs isNameChar (spacedOf (p :: ps)) = Text.runs isNameChar (spacedOf ps) := by
  refine ⟨Text.runs_append_of_none fun c hc => ?_, Text.runs_append_of_none fun c hc => ?_⟩
  · exact Bool.eq_false_iff.mpr fun letter => other ⟨c, eq_char_of_mem_kept fits hc letter, letter⟩
  · exact Bool.eq_false_iff.mpr fun letter => other ⟨c, eq_char_of_mem_spaced hc letter, letter⟩

/-- Names are lost where they are not kept apart, and nowhere else. -/
theorem runs_keptOf (fit : Fit next ps) :
    (Text.runs isNameChar (keptOf ps)).length ≤ (Text.runs isNameChar (spacedOf ps)).length ∧
      (Text.runs isNameChar (keptOf ps) = Text.runs isNameChar (spacedOf ps) ↔ Separated ps) := by
  induction ps with
  | nil =>
    refine ⟨Nat.le_refl _, iff_of_true rfl ?_⟩
    exact fun before a silent b after h => absurd h (by simp)
  | cons p ps ih =>
    obtain ⟨fewer, same_iff⟩ := ih fit.2
    by_cases letter : ∃ c, p = .char c ∧ isNameChar c
    · obtain ⟨c, rfl, letter⟩ := letter
      rw [separated_cons_char fit.2 letter, ← same_iff]
      show (Text.runs isNameChar (c :: keptOf ps)).length ≤
        (Text.runs isNameChar (c :: spacedOf ps)).length ∧ (Text.runs isNameChar (c :: keptOf ps) =
          Text.runs isNameChar (c :: spacedOf ps) ↔ _)
      cases left : startsInName (keptOf ps) with
      | false =>
        have apart : startsInName (spacedOf ps) = false := by
          refine Bool.eq_false_iff.mpr fun starts => ?_
          rw [startsInName_of_spacedOf starts] at left
          cases left
        rw [runs_cons_of_not_starts letter left, runs_cons_of_not_starts letter apart]
        simpa using fewer
      | true =>
        cases apart : startsInName (spacedOf ps) with
        | true =>
          rw [runs_cons_of_starts letter left, runs_cons_of_starts letter apart,
            List.length_modifyHead, List.length_modifyHead, modifyHead_cons_inj]
          exact ⟨fewer, (and_iff_right fun _ => rfl).symm⟩
        | false =>
          -- a name goes on behind a comment, and is one name fewer for it
          rw [runs_cons_of_starts letter left, runs_cons_of_not_starts letter apart]
          refine ⟨?_, iff_of_false (fun same => ?_) fun h => nomatch h.1 rfl⟩
          · rw [List.length_modifyHead, List.length_cons]
            omega
          · have lengths := congrArg List.length same
            rw [List.length_modifyHead, List.length_cons] at lengths
            omega
    · obtain ⟨kept, spaced⟩ := runs_of_not_letter fit.1 letter ps
      rw [kept, spaced, separated_cons]
      refine ⟨fewer, same_iff.trans (and_iff_right ?_).symm⟩
      exact fun a silent b after hp _ _ _ ⟨ha, _⟩ => letter ⟨a, hp, ha⟩

end Names

/-- The names that are left of a source text are put together from characters of code and comments
on one line; and they are the names that stand in its code by themselves, in order, exactly if no
comment on one line stands between two characters of names. -/
theorem names_apart_unless_commented (s : List Char) :
    Nonempty (Reading s) ∧ ∀ r : Reading s,
      (∀ w ∈ Text.runs isNameChar (code s), ∃ before mid after,
        r.stretches = before ++ (mid ++ after) ∧ keptOf mid = w ∧
          ∀ p ∈ mid, p.Silent ∨ ∃ c, p = .char c ∧ isNameChar c) ∧
      (∀ w, w ∈ Text.runs isNameChar (spacedOf r.stretches) ↔ NameIn r.stretches w) ∧
      (Text.runs isNameChar (code s) = Text.runs isNameChar (spacedOf r.stretches) ↔
        Separated r.stretches) := by
  refine ⟨exists_reading s, fun r => ⟨fun w hw => ?_, fun w => mem_runs_spacedOf, ?_⟩⟩
  · rw [r.code_eq] at hw
    exact exists_of_mem_runs_keptOf r.fit hw
  · rw [r.code_eq]
    exact (runs_keptOf r.fit).2

/-- Two names that only a comment separates are left as one, which the text does not have. -/
theorem names_merged :
    let s := "return/**/f();".toList
    code s = "returnf();".toList ∧ Text.runs isNameChar (code s) = ["returnf".toList] ∧
      ¬ "returnf".toList <:+: s := by
  decide

end CodeAtlas.Source
