import CodeAtlas.Proofs.DeclaredParameters
import CodeAtlas.Proofs.Runs
import CodeAtlas.Source.CallSites

/-!
Call sites of a text. Each name that is found stands in front of a parenthesis, with at most blanks
between (`calledIn_of_mem`), and each name that stands there, with no character of a name in front
of it, is found (`mem_callSites`).
-/
namespace CodeAtlas.Source

open Text (isBlank isIdentPart isIdentStart)

variable {s a b gap w name rest tail : List Char} {c : Char}

/-- Whether a text is an identifier. -/
def IsName (w : List Char) : Prop :=
  (∀ c ∈ w, isIdentPart c) ∧ ∃ c ∈ w.head?, isIdentStart c

/-- Whether a text has a name in front of a parenthesis, with at most blanks between. -/
def CalledIn (s name : List Char) : Prop :=
  ∃ a gap b, s = a ++ (name ++ (gap ++ '(' :: b)) ∧ ∀ c ∈ gap, isBlank c

theorem CalledIn.behind (a : List Char) (h : CalledIn s name) : CalledIn (a ++ s) name := by
  obtain ⟨before, gap, b, rfl, blank⟩ := h
  exact ⟨a ++ before, gap, b, (List.append_assoc ..).symm, blank⟩

theorem isIdentPart_of_isIdentStart (h : isIdentStart c) : isIdentPart c :=
  Parameters.isIdentPart_of_isNameChar (by rw [Parameters.isNameChar, h]; rfl)

theorem isIdentPart_of_isBlank (h : isBlank c) : isIdentPart c = false := by
  have dollar : c ≠ '$' := by
    rintro rfl
    exact absurd h (by decide)
  rw [isIdentPart, Text.isWord_of_isBlank h, beq_false_of_ne dollar]
  rfl

theorem isName_cons (first : isIdentStart c) (others : ∀ x ∈ w, isIdentPart x) : IsName (c :: w) :=
  ⟨List.forall_mem_cons.mpr ⟨isIdentPart_of_isIdentStart first, others⟩, c, rfl, first⟩

theorem IsName.exists_cons (h : IsName w) :
    ∃ c t, w = c :: t ∧ isIdentStart c ∧ ∀ x ∈ t, isIdentPart x := by
  obtain ⟨letters, c, hc, first⟩ := h
  obtain ⟨t, rfl⟩ := List.head?_eq_some_iff.mp hc
  exact ⟨c, t, rfl, first, fun x hx => letters x (List.mem_cons_of_mem c hx)⟩

/-! ## What stands behind a name -/

/-- What stands behind blanks and a parenthesis does not go on with a name. -/
theorem not_isIdentPart_of_gap (blank : ∀ c ∈ gap, isBlank c) :
    ∀ c ∈ (gap ++ '(' :: b).head?, isIdentPart c = false := by
  cases gap with
  | nil =>
    intro c hc
    exact Option.mem_some_iff.mp hc ▸ by decide
  | cons x gap =>
    intro c hc
    exact Option.mem_some_iff.mp hc ▸ isIdentPart_of_isBlank (blank x List.mem_cons_self)

theorem behindParenthesis?_iff : behindParenthesis? s = some rest ↔
    ∃ gap, s = gap ++ '(' :: rest ∧ ∀ c ∈ gap, isBlank c := by
  constructor
  · intro h
    unfold behindParenthesis? at h
    split at h
    · rename_i behind here
      obtain rfl := Option.some.inj h
      refine ⟨s.takeWhile isBlank, ?_, fun c hc => List.mem_takeWhile_imp hc⟩
      rw [← here, Text.trimStart, List.takeWhile_append_dropWhile]
    · cases h
  · rintro ⟨gap, rfl, blank⟩
    have here : Text.trimStart (gap ++ '(' :: rest) = '(' :: rest := by
      rw [Text.trimStart, List.dropWhile_append_of_pos blank]
      rfl
    rw [behindParenthesis?, here]
    rfl

theorem takeWhile_name (letters : ∀ c ∈ w, isIdentPart c)
    (ends : ∀ c ∈ rest.head?, isIdentPart c = false) :
    (w ++ rest).takeWhile isIdentPart = w ∧ (w ++ rest).dropWhile isIdentPart = rest := by
  rw [List.takeWhile_append_of_pos letters, List.dropWhile_append_of_pos letters]
  cases rest with
  | nil => simp
  | cons c rest =>
    have stops : ¬ isIdentPart c = true := Bool.eq_false_iff.mp (ends c rfl)
    rw [List.takeWhile_cons_of_neg stops, List.dropWhile_cons_of_neg stops, List.append_nil]
    exact ⟨rfl, rfl⟩

theorem member?_iff : member? s = some (name, rest) ↔
    ∃ gap, s = '.' :: (name ++ (gap ++ '(' :: rest)) ∧ IsName name ∧ ∀ c ∈ gap, isBlank c := by
  constructor
  · intro h
    unfold member? at h
    split at h
    · rename_i c t
      split at h
      · rename_i first
        obtain ⟨behind, here, same⟩ := Option.map_eq_some_iff.mp h
        obtain ⟨rfl, rfl⟩ := Prod.mk.inj same
        obtain ⟨gap, whole, blank⟩ := behindParenthesis?_iff.mp here
        refine ⟨gap, ?_, isName_cons first fun x hx => List.mem_takeWhile_imp hx, blank⟩
        rw [← whole, List.cons_append, List.takeWhile_append_dropWhile]
      · cases h
    · cases h
  · rintro ⟨gap, rfl, named, blank⟩
    obtain ⟨c, t, rfl, first, letters⟩ := named.exists_cons
    obtain ⟨taken, dropped⟩ := takeWhile_name letters (not_isIdentPart_of_gap (b := rest) blank)
    rw [List.cons_append, member?, if_pos first, taken, dropped,
      behindParenthesis?_iff.mpr ⟨gap, rfl, blank⟩]
    rfl

/-! ## What is found -/

/-- Whether a text is an identifier, or one behind a qualifier. -/
def IsCallee (name : List Char) : Prop :=
  IsName name ∨ ∃ q m, name = q ++ '.' :: m ∧ IsName q ∧ IsName m

theorem isName_word (first : isIdentStart c) (s : List Char) :
    IsName (c :: s.takeWhile isIdentPart) :=
  isName_cons first fun _ hx => List.mem_takeWhile_imp hx

/-- The names of call sites stand in front of parentheses. -/
theorem calledIn_of_mem (h : name ∈ callSites s) : IsCallee name ∧ CalledIn s name := by
  have word_dropWhile : ∀ c (s : List Char),
      c :: s = (c :: s.takeWhile isIdentPart) ++ s.dropWhile isIdentPart := fun c s => by
    rw [List.cons_append, List.takeWhile_append_dropWhile]
  fun_induction callSites s with
  | case1 => cases h
  | case2 c s first word m rest found ih =>
    obtain ⟨gap, behind, named, blank⟩ := member?_iff.mp found
    have whole : c :: s = word ++ '.' :: (m ++ (gap ++ '(' :: rest)) := by
      rw [← behind]
      exact word_dropWhile c s
    rcases List.mem_cons.mp h with rfl | h
    · refine ⟨.inr ⟨word, m, rfl, isName_word first s, named⟩, [], gap, rest, ?_, blank⟩
      simp [whole]
    · rcases List.mem_cons.mp h with rfl | later
      · exact ⟨.inl named, word ++ ['.'], gap, rest, by simp [whole], blank⟩
      · obtain ⟨callee, called⟩ := ih later
        refine ⟨callee, ?_⟩
        have further := called.behind (word ++ '.' :: (m ++ (gap ++ ['('])))
        rwa [whole, show word ++ '.' :: (m ++ (gap ++ '(' :: rest)) =
          word ++ '.' :: (m ++ (gap ++ ['('])) ++ rest by simp]
  | case3 c s first word none_member rest found ih =>
    obtain ⟨gap, behind, blank⟩ := behindParenthesis?_iff.mp found
    have whole : c :: s = word ++ (gap ++ '(' :: rest) := by
      rw [← behind]
      exact word_dropWhile c s
    rcases List.mem_cons.mp h with rfl | later
    · exact ⟨.inl (isName_word first s), [], gap, rest, whole, blank⟩
    · obtain ⟨callee, called⟩ := ih later
      refine ⟨callee, ?_⟩
      have further := called.behind (word ++ (gap ++ ['(']))
      rwa [whole, show word ++ (gap ++ '(' :: rest) = word ++ (gap ++ ['(']) ++ rest by simp]
  | case4 c s first none_member none_behind ih =>
    obtain ⟨callee, called⟩ := ih h
    rw [word_dropWhile c s]
    exact ⟨callee, called.behind _⟩
  | case5 c s other ih =>
    obtain ⟨callee, called⟩ := ih h
    exact ⟨callee, called.behind [c]⟩

/-! ## What is not missed -/

/-- Whether a name can begin behind a text. -/
def Apart (a : List Char) : Prop := ∀ c ∈ a.getLast?, isIdentPart c = false

theorem Apart.of_append {more : List Char} (h : Apart (a ++ more)) : Apart more := by
  intro c hc
  exact h c (by rw [List.getLast?_append, Option.mem_def.mp hc]; rfl)

/-- A name in a text is what the text begins with, or it stands behind that. -/
theorem word_or_behind (first : isIdentStart c) (named : IsName name)
    (apart : Apart a) (ends : ∀ x ∈ tail.head?, isIdentPart x = false)
    (h : c :: s = a ++ (name ++ tail)) :
    (name = c :: s.takeWhile isIdentPart ∧ s.dropWhile isIdentPart = tail) ∨
      ∃ more, s.dropWhile isIdentPart = more ++ (name ++ tail) ∧ Apart more ∧ more ≠ [] := by
  cases a with
  | nil =>
    obtain ⟨x, t, rfl, -, letters⟩ := named.exists_cons
    obtain ⟨rfl, rfl⟩ := List.cons.inj h
    obtain ⟨taken, dropped⟩ := takeWhile_name letters ends
    exact .inl ⟨congrArg (c :: ·) taken.symm, dropped⟩
  | cons x a =>
    obtain ⟨rfl, rfl⟩ := List.cons.inj h
    -- the name `c` begins ends before the end of `c :: a`
    obtain ⟨x, hx, outside⟩ : ∃ x ∈ a, isIdentPart x = false := by
      have last := apart _ (List.getLast?_eq_some_getLast (List.cons_ne_nil c a))
      rcases List.mem_cons.mp (List.getLast_mem (List.cons_ne_nil c a)) with same | within
      · rw [same, isIdentPart_of_isIdentStart first] at last
        cases last
      · exact ⟨_, within, last⟩
    have stops : a.dropWhile isIdentPart ≠ [] := by
      intro all
      rw [List.dropWhile_eq_nil_iff.mp all x hx] at outside
      cases outside
    have dropped : (a ++ (name ++ tail)).dropWhile isIdentPart =
        a.dropWhile isIdentPart ++ (name ++ tail) := by
      rw [List.dropWhile_append, if_neg]
      rwa [List.isEmpty_iff]
    refine .inr ⟨a.dropWhile isIdentPart, dropped, ?_, stops⟩
    have whole : c :: a = (c :: a.takeWhile isIdentPart) ++ a.dropWhile isIdentPart := by
      rw [List.cons_append, List.takeWhile_append_dropWhile]
    exact (whole ▸ apart).of_append

/-- A parenthesis behind blanks stands in front of a name that stands behind it. -/
theorem parenthesis_in_front (named : IsName name) (apart : Apart a)
    (blank : ∀ c ∈ gap, isBlank c) (h : gap ++ '(' :: rest = a ++ (name ++ tail)) :
    ∃ more, rest = more ++ (name ++ tail) ∧ Apart more := by
  obtain ⟨c, t, rfl, first, -⟩ := named.exists_cons
  have outside : ∀ x ∈ gap ++ ['('], (!isIdentPart x) = true := by
    refine List.forall_mem_append.mpr ⟨fun x hx => ?_, List.forall_mem_singleton.mpr (by decide)⟩
    rw [isIdentPart_of_isBlank (blank x hx)]
    rfl
  have start : gap ++ ['('] <+: a ++ ((c :: t) ++ tail) := ⟨rest, by rw [← h]; simp⟩
  have stops : ∀ x ∈ ((c :: t) ++ tail).head?, (!isIdentPart x) = false := by
    intro x hx
    rw [← Option.mem_some_iff.mp hx, isIdentPart_of_isIdentStart first]
    rfl
  obtain ⟨more, rfl⟩ := Text.prefix_of_ends outside stops start
  refine ⟨more, ?_, apart.of_append⟩
  rw [List.append_assoc, List.append_assoc] at h
  exact (List.cons.inj (List.append_cancel_left h)).2

/-- A name in front of a parenthesis is found, unless it is the end of a longer one. -/
theorem mem_callSites (named : IsName name) (blank : ∀ c ∈ gap, isBlank c) :
    ∀ {a}, Apart a → s = a ++ (name ++ (gap ++ '(' :: b)) → name ∈ callSites s := by
  have ends : ∀ x ∈ (gap ++ '(' :: b).head?, isIdentPart x = false := not_isIdentPart_of_gap blank
  fun_induction callSites s with
  | case1 =>
    intro a _ h
    simp at h
  | case2 c s first word m rest found =>
    rename_i ih
    intro a apart h
    obtain ⟨gap', behind, named', blank'⟩ := member?_iff.mp found
    rcases word_or_behind first named apart ends h with
      ⟨-, dropped⟩ | ⟨more, dropped, apart', some_text⟩
    · -- the name stands in front of a point
      cases gap with
      | nil => cases dropped.symm.trans behind
      | cons x gap =>
        obtain ⟨rfl, -⟩ := List.cons.inj (dropped.symm.trans behind)
        exact absurd (blank _ List.mem_cons_self) (by decide)
    · obtain ⟨x, more, rfl⟩ := List.exists_cons_of_ne_nil some_text
      obtain ⟨rfl, inside⟩ := List.cons.inj (behind.symm.trans dropped)
      have apart'' : Apart more := Apart.of_append (a := ['.']) apart'
      obtain ⟨y, t, rfl, first', letters⟩ := named'.exists_cons
      obtain ⟨taken, stopped⟩ :=
        takeWhile_name letters (not_isIdentPart_of_gap (b := rest) blank')
      have whole : y :: (t ++ (gap' ++ '(' :: rest)) = more ++ (name ++ (gap ++ '(' :: b)) := inside
      rcases word_or_behind first' named apart'' ends whole with
        ⟨rfl, -⟩ | ⟨after, stopped', apart₃, -⟩
      · rw [taken]
        simp
      · rw [stopped] at stopped'
        obtain ⟨_, later, further⟩ := parenthesis_in_front named apart₃ blank' stopped'
        exact List.mem_cons_of_mem _ (List.mem_cons_of_mem _ (ih further later))
  | case3 c s first word none_member rest found =>
    rename_i ih
    intro a apart h
    obtain ⟨gap', behind, blank'⟩ := behindParenthesis?_iff.mp found
    rcases word_or_behind first named apart ends h with ⟨rfl, -⟩ | ⟨more, dropped, apart', -⟩
    · exact List.mem_cons_self
    · obtain ⟨_, later, further⟩ :=
        parenthesis_in_front named apart' blank' (behind.symm.trans dropped)
      exact List.mem_cons_of_mem _ (ih further later)
  | case4 c s first none_member none_behind ih =>
    intro a apart h
    rcases word_or_behind first named apart ends h with ⟨-, dropped⟩ | ⟨more, dropped, apart', -⟩
    · rw [behindParenthesis?_iff.mpr ⟨gap, dropped, blank⟩] at none_behind
      cases none_behind
    · exact ih apart' dropped
  | case5 c s other ih =>
    intro a apart h
    cases a with
    | nil =>
      obtain ⟨x, t, rfl, first, -⟩ := named.exists_cons
      obtain ⟨rfl, -⟩ := List.cons.inj h
      exact absurd first other
    | cons x a =>
      obtain ⟨-, rfl⟩ := List.cons.inj h
      exact ih (Apart.of_append (a := [x]) apart) rfl

end CodeAtlas.Source
