import CodeAtlas.Source
import Mathlib.Data.List.Infix
import Mathlib.Data.List.TakeWhile

/-!
Source texts as the scanner takes them: one stretch after another, each a character of code, a
comment or a literal. Every text is such a sequence (`exists_reading`), and what the scanner leaves
of a text is what it leaves of the stretches (`code_append`), so that a property of the scanner is
one of each kind of stretch.
-/
namespace CodeAtlas.Source

variable {c quote : Char} {s body rest : List Char}

/-! ## Within literals -/

/-- What the scanner passes over at a time within a literal. -/
inductive Glyph where
  | plain (c : Char)
  /-- A character behind a backslash. -/
  | escaped (c : Char)
  deriving DecidableEq, Repr

namespace Glyph

def text : Glyph → List Char
  | plain c => [c]
  | escaped c => ['\\', c]

/-- Whether a literal with the given quotes goes on behind a glyph. -/
def Within (quote : Char) : Glyph → Prop
  | plain c => c ≠ quote ∧ c ≠ '\\' ∧ c ≠ '\n'
  | escaped _ => True

instance (quote : Char) : DecidablePred (Within quote)
  | plain _ => inferInstanceAs (Decidable (_ ∧ _))
  | escaped _ => inferInstanceAs (Decidable True)

end Glyph

/-- Glyphs one after another. -/
def glyphText (glyphs : List Glyph) : List Char := glyphs.flatMap Glyph.text

/-- How a literal ends. -/
inductive Ending where
  | closed
  /-- At the end of its line, or of the text. -/
  | lineEnd
  /-- Behind a backslash that ends the text. -/
  | torn
  deriving DecidableEq, Repr

namespace Ending

def text (quote : Char) : Ending → List Char
  | closed => [quote]
  | lineEnd => []
  | torn => ['\\']

def kept (quote : Char) : Ending → List Char
  | closed => [quote]
  | lineEnd | torn => []

/-- Whether a literal can end like this in front of a character, or of the end of the text. -/
def Fits (next : Option Char) : Ending → Prop
  | closed => True
  | lineEnd => next = none ∨ next = some '\n'
  | torn => next = none

end Ending

theorem scan_glyphText {glyphs : List Glyph} (within : ∀ g ∈ glyphs, g.Within quote)
    (rest : List Char) :
    scan (.literal quote false) (glyphText glyphs ++ rest) = scan (.literal quote false) rest := by
  induction glyphs with
  | nil => rfl
  | cons g glyphs ih =>
    obtain ⟨here, others⟩ := List.forall_mem_cons.mp within
    rw [glyphText, List.flatMap_cons, List.append_assoc]
    cases g with
    | plain c =>
      obtain ⟨no_quote, no_escape, no_newline⟩ := here
      show scan _ (c :: (glyphText glyphs ++ rest)) = _
      rw [scan, if_neg no_escape, if_neg no_newline, if_neg no_quote, ih others]
    | escaped c =>
      show scan _ ('\\' :: c :: (glyphText glyphs ++ rest)) = _
      rw [scan, if_pos rfl, scan, ih others]

theorem scan_ending {ending : Ending} (h : ending.Fits rest.head?) (no_escape : quote ≠ '\\')
    (no_newline : quote ≠ '\n') :
    scan (.literal quote false) (ending.text quote ++ rest) =
      ending.kept quote ++ scan .code rest := by
  cases ending with
  | closed =>
    show scan _ (quote :: rest) = quote :: scan .code rest
    rw [scan, if_neg no_escape, if_neg no_newline, if_pos rfl]
  | lineEnd =>
    show scan _ rest = scan .code rest
    cases rest with
    | nil => rfl
    | cons c rest =>
      obtain rfl : c = '\n' := by simpa [Ending.Fits] using h
      simp [scan, isQuote]
  | torn =>
    obtain rfl : rest = [] := List.head?_eq_none_iff.mp h
    rfl

/-- From within a literal, a text is glyphs and an end of the literal. -/
theorem exists_ending (quote : Char) : ∀ s, ∃ glyphs ending rest,
    s = glyphText glyphs ++ (Ending.text quote ending ++ rest) ∧
      (∀ g ∈ glyphs, g.Within quote) ∧ ending.Fits rest.head?
  | [] => ⟨[], .lineEnd, [], rfl, List.forall_mem_nil _, .inl rfl⟩
  | c :: s => by
    have further : ∀ g t, c :: s = Glyph.text g ++ t → g.Within quote →
        t.length < (c :: s).length →
        ∃ glyphs ending rest, c :: s = glyphText glyphs ++ (Ending.text quote ending ++ rest) ∧
          (∀ g ∈ glyphs, g.Within quote) ∧ ending.Fits rest.head? := by
      intro g t whole here shorter
      obtain ⟨glyphs, ending, rest, same, within, fits⟩ := exists_ending quote t
      refine ⟨g :: glyphs, ending, rest, ?_, List.forall_mem_cons.mpr ⟨here, within⟩, fits⟩
      rw [whole, same, glyphText, glyphText, List.flatMap_cons, List.append_assoc]
    by_cases escape : c = '\\'
    · subst escape
      cases s with
      | nil => exact ⟨[], .torn, [], rfl, List.forall_mem_nil _, rfl⟩
      | cons x s =>
        have shorter : s.length < ('\\' :: x :: s).length := by
          rw [List.length_cons, List.length_cons]
          omega
        exact further (.escaped x) s rfl trivial shorter
    · by_cases newline : c = '\n'
      · subst newline
        exact ⟨[], .lineEnd, '\n' :: s, rfl, List.forall_mem_nil _, .inr rfl⟩
      · by_cases close : c = quote
        · subst close
          exact ⟨[], .closed, s, rfl, List.forall_mem_nil _, trivial⟩
        · exact further (.plain c) s rfl ⟨close, escape, newline⟩ (by simp)
termination_by s => s.length
decreasing_by exact shorter

/-! ## Within comments -/

theorem scan_lineComment (one_line : '\n' ∉ body)
    (ends : rest.head? = none ∨ rest.head? = some '\n') :
    scan .lineComment (body ++ rest) = scan .code rest := by
  induction body with
  | nil =>
    cases rest with
    | nil => rfl
    | cons c rest =>
      obtain rfl : c = '\n' := by simpa using ends
      simp [scan, isQuote]
  | cons c body ih =>
    obtain ⟨here, others⟩ := not_or.mp (mt List.mem_cons.mpr one_line)
    rw [List.cons_append, scan, if_neg (Ne.symm here), ih others]

/-- The newlines of a text. -/
def newlines (s : List Char) : List Char := s.filter (· = '\n')

theorem newlines_cons_newline (s : List Char) : newlines ('\n' :: s) = '\n' :: newlines s := rfl

theorem newlines_cons_of_ne (h : c ≠ '\n') (s : List Char) : newlines (c :: s) = newlines s :=
  List.filter_cons_of_neg (by simpa using h)

theorem eq_newline_of_mem (h : c ∈ newlines s) : c = '\n' :=
  of_decide_eq_true (List.mem_filter.mp h).2

theorem newlines_eq_nil : newlines s = [] ↔ '\n' ∉ s := by
  rw [newlines, List.filter_eq_nil_iff]
  exact ⟨fun none_newline h => none_newline _ h (decide_eq_true rfl),
    fun one_line c hc newline => one_line (of_decide_eq_true newline ▸ hc)⟩

/-- What ends a block comment. -/
def commentEnd : List Char := ['*', '/']

theorem not_commentEnd_cons (h : ¬ commentEnd <:+: c :: body) :
    ¬ commentEnd <:+: body ∧ (c = '*' → body.head? ≠ some '/') := by
  refine ⟨fun within => h (within.trans (List.suffix_cons c body).isInfix), ?_⟩
  rintro rfl slash
  obtain ⟨body, rfl⟩ : ∃ more, body = '/' :: more := by
    cases body with
    | nil => cases slash
    | cons x more => exact ⟨more, by rw [Option.some.inj slash]⟩
  exact h (List.prefix_append ['*', '/'] body).isInfix

/-- Until it ends, the scanner leaves the newlines of a block comment. -/
theorem scan_blockComment (star : Bool) (unended : ¬ commentEnd <:+: body)
    (starts : star = true → body.head? ≠ some '/') :
    ∃ star', ∀ rest, scan (.blockComment star) (body ++ rest) =
      newlines body ++ scan (.blockComment star') rest := by
  induction body generalizing star with
  | nil => exact ⟨star, fun _ => rfl⟩
  | cons c body ih =>
    obtain ⟨others, no_end⟩ := not_commentEnd_cons unended
    by_cases newline : c = '\n'
    · subst newline
      obtain ⟨star', further⟩ := ih false others (fun h => nomatch h)
      refine ⟨star', fun rest => ?_⟩
      rw [List.cons_append, scan, if_pos rfl, further, newlines_cons_newline, List.cons_append]
    · obtain ⟨star', further⟩ := ih (c = '*') others (by simpa using no_end)
      have stays : ¬ (star && decide (c = '/')) = true := by
        intro h
        obtain ⟨behind_star, slash⟩ := Bool.and_eq_true_iff.mp h
        exact starts behind_star (by rw [of_decide_eq_true slash]; rfl)
      refine ⟨star', fun rest => ?_⟩
      rw [List.cons_append, scan, if_neg newline, if_neg stays, further,
        newlines_cons_of_ne newline]

theorem scan_commentEnd (star : Bool) (rest : List Char) :
    scan (.blockComment star) (commentEnd ++ rest) = scan .code rest := by
  cases star <;> simp [commentEnd, scan]

/-- A text is the inside of a block comment up to its first end, if there is one. -/
theorem exists_commentEnd (s : List Char) :
    (∃ body rest, s = body ++ (commentEnd ++ rest) ∧ ¬ commentEnd <:+: body) ∨
      ¬ commentEnd <:+: s := by
  rw [Classical.or_iff_not_imp_right, not_not]
  intro within
  induction s with
  | nil => exact absurd (List.infix_nil.mp within) (by decide)
  | cons c s ih =>
    by_cases here : commentEnd <+: c :: s
    · obtain ⟨rest, whole⟩ := here
      exact ⟨[], rest, whole.symm, by decide⟩
    · obtain ⟨body, rest, rfl, unended⟩ := ih ((List.infix_cons_iff.mp within).resolve_left here)
      refine ⟨c :: body, rest, rfl, fun again => ?_⟩
      rcases List.infix_cons_iff.mp again with start | later
      · exact here (start.trans (List.prefix_append (c :: body) (commentEnd ++ rest)))
      · exact unended later

/-! ## Stretches -/

/-- What the scanner takes in one go. -/
inductive Stretch where
  /-- A character of code. -/
  | char (c : Char)
  /-- A comment up to the end of its line. -/
  | lineComment (body : List Char)
  | blockComment (body : List Char) (closed : Bool)
  | literal (quote : Char) (glyphs : List Glyph) (ending : Ending)
  deriving DecidableEq, Repr

namespace Stretch

def text : Stretch → List Char
  | char c => [c]
  | lineComment body => '/' :: '/' :: body
  | blockComment body closed => '/' :: '*' :: (body ++ if closed then commentEnd else [])
  | literal quote glyphs ending => quote :: (glyphText glyphs ++ ending.text quote)

/-- What the scanner leaves of a stretch. -/
def kept : Stretch → List Char
  | char c => [c]
  | lineComment _ => []
  | blockComment body _ => newlines body
  | literal quote _ ending => quote :: ending.kept quote

/-- Whether the scanner takes a stretch like this, in front of a character or of the end. -/
def Fits (next : Option Char) : Stretch → Prop
  | char c => isQuote c = false ∧ (c = '/' → next ≠ some '/' ∧ next ≠ some '*')
  | lineComment body => '\n' ∉ body ∧ (next = none ∨ next = some '\n')
  | blockComment body closed => ¬ commentEnd <:+: body ∧ (closed = false → next = none)
  | literal quote glyphs ending =>
    isQuote quote = true ∧ (∀ g ∈ glyphs, g.Within quote) ∧ ending.Fits next

theorem text_ne_nil (p : Stretch) : p.text ≠ [] := by
  cases p <;> exact List.cons_ne_nil _ _

end Stretch

theorem isQuote_iff : isQuote c = true ↔ c = '"' ∨ c = '\'' := by
  simp [isQuote]

theorem ne_of_isQuote {x : Char} (h : isQuote c = true) (other : isQuote x = false) : c ≠ x := by
  intro same
  rw [same, other] at h
  cases h

theorem code_char (h : (Stretch.char c).Fits rest.head?) : code (c :: rest) = c :: code rest := by
  obtain ⟨unquoted, alone⟩ := h
  rw [code, scan, if_neg (by rw [unquoted]; exact Bool.false_ne_true), code]
  · rintro rest rfl rfl
    exact absurd rfl (alone rfl).1
  · rintro rest rfl rfl
    exact absurd rfl (alone rfl).2

theorem code_quote (h : isQuote quote = true) :
    code (quote :: rest) = quote :: scan (.literal quote false) rest := by
  rcases isQuote_iff.mp h with rfl | rfl <;> simp [code, scan, isQuote]

/-- What the scanner leaves of a stretch and what is behind it. -/
theorem code_stretch {p : Stretch} (h : p.Fits rest.head?) :
    code (p.text ++ rest) = p.kept ++ code rest := by
  cases p with
  | char c => exact code_char h
  | lineComment body => exact scan_lineComment h.1 h.2
  | blockComment body closed =>
    obtain ⟨unended, open_end⟩ := h
    obtain ⟨star, inside⟩ := scan_blockComment false unended (fun h => nomatch h)
    show scan (.blockComment false) (body ++ _ ++ rest) = newlines body ++ scan .code rest
    rw [List.append_assoc, inside]
    cases closed with
    | true => exact congrArg _ (scan_commentEnd star rest)
    | false =>
      obtain rfl : rest = [] := List.head?_eq_none_iff.mp (open_end rfl)
      rfl
  | literal quote glyphs ending =>
    obtain ⟨quoted, within, ends⟩ := h
    have no_escape : quote ≠ '\\' := ne_of_isQuote quoted rfl
    have no_newline : quote ≠ '\n' := ne_of_isQuote quoted rfl
    show code (quote :: (glyphText glyphs ++ ending.text quote ++ rest)) = _
    rw [code_quote quoted, List.append_assoc, scan_glyphText within,
      scan_ending ends no_escape no_newline]
    rfl

/-! ## Texts -/

/-- Stretches one after another. -/
def textOf (ps : List Stretch) : List Char := ps.flatMap Stretch.text

/-- What the scanner leaves of stretches. -/
def keptOf (ps : List Stretch) : List Char := ps.flatMap Stretch.kept

/-- Whether the scanner takes a text stretch by stretch, in front of a character or of the end. -/
def Fit (next : Option Char) : List Stretch → Prop
  | [] => True
  | p :: ps => p.Fits ((textOf ps).head?.or next) ∧ Fit next ps

section Texts

variable {ps qs : List Stretch} {p : Stretch} {next : Option Char}

theorem textOf_cons : textOf (p :: ps) = p.text ++ textOf ps := rfl

theorem keptOf_cons : keptOf (p :: ps) = p.kept ++ keptOf ps := rfl

theorem textOf_append : textOf (ps ++ qs) = textOf ps ++ textOf qs := List.flatMap_append

theorem keptOf_append : keptOf (ps ++ qs) = keptOf ps ++ keptOf qs := List.flatMap_append

theorem fit_append : Fit next (ps ++ qs) ↔ Fit ((textOf qs).head?.or next) ps ∧ Fit next qs := by
  induction ps with
  | nil => exact (and_iff_right trivial).symm
  | cons p ps ih =>
    rw [List.cons_append, Fit, Fit, ih, textOf_append, List.head?_append, Option.or_assoc,
      and_assoc]

/-- The scanner leaves of a text what it leaves of its stretches. -/
theorem code_append (fit : Fit rest.head? ps) :
    code (textOf ps ++ rest) = keptOf ps ++ code rest := by
  induction ps with
  | nil => rfl
  | cons p ps ih =>
    obtain ⟨here, others⟩ := fit
    rw [← List.head?_append] at here
    rw [textOf_cons, List.append_assoc, code_stretch here, ih others, keptOf_cons,
      List.append_assoc]

theorem code_textOf (fit : Fit none ps) : code (textOf ps) = keptOf ps := by
  have whole := code_append (show Fit ([] : List Char).head? ps from fit)
  rwa [List.append_nil, show code [] = [] from rfl, List.append_nil] at whole

end Texts

/-- A text as the stretches that the scanner takes. -/
structure Reading (s : List Char) where
  stretches : List Stretch
  fit : Fit none stretches
  text_eq : textOf stretches = s

theorem Reading.code_eq (r : Reading s) : code s = keptOf r.stretches := by
  rw [← code_textOf r.fit, r.text_eq]

/-- A reading begins with a stretch that a reading of the rest follows. -/
def Reading.cons {p : Stretch} (r : Reading rest) (h : p.Fits rest.head?) :
    Reading (p.text ++ rest) where
  stretches := p :: r.stretches
  fit := ⟨by rw [r.text_eq, Option.or_none]; exact h, r.fit⟩
  text_eq := by rw [textOf_cons, r.text_eq]

/-- A text begins with a stretch. -/
theorem exists_stretch (h : s ≠ []) :
    ∃ p : Stretch, ∃ rest, s = p.text ++ rest ∧ p.Fits rest.head? := by
  obtain ⟨c, s, rfl⟩ := List.exists_cons_of_ne_nil h
  cases quoted : isQuote c with
  | true =>
    obtain ⟨glyphs, ending, rest, rfl, within, fits⟩ := exists_ending c s
    exact ⟨.literal c glyphs ending, rest, by simp [Stretch.text], quoted, within, fits⟩
  | false =>
    by_cases line : c = '/' ∧ s.head? = some '/'
    · obtain ⟨rfl, slash⟩ := line
      obtain ⟨s, rfl⟩ := List.head?_eq_some_iff.mp slash
      refine ⟨.lineComment (s.takeWhile (· ≠ '\n')), s.dropWhile (· ≠ '\n'), ?_, ?_, ?_⟩
      · simp [Stretch.text]
      · exact fun h => by simpa using List.mem_takeWhile_imp h
      · have stops := List.head?_dropWhile_not (fun c => decide (c ≠ '\n')) s
        cases first : (s.dropWhile (· ≠ '\n')).head? with
        | none => exact .inl rfl
        | some c =>
          rw [first] at stops
          exact .inr (by simpa using stops)
    · by_cases block : c = '/' ∧ s.head? = some '*'
      · obtain ⟨rfl, asterisk⟩ := block
        obtain ⟨s, rfl⟩ := List.head?_eq_some_iff.mp asterisk
        rcases exists_commentEnd s with ⟨body, rest, rfl, unended⟩ | unended
        · exact ⟨.blockComment body true, rest, by simp [Stretch.text], unended, fun h => nomatch h⟩
        · exact ⟨.blockComment s false, [], by simp [Stretch.text], unended, fun _ => rfl⟩
      · refine ⟨.char c, s, rfl, quoted, fun slash => ⟨fun h => ?_, fun h => ?_⟩⟩
        · exact line ⟨slash, h⟩
        · exact block ⟨slash, h⟩

/-- Every text is read in stretches. -/
theorem exists_reading : ∀ s, Nonempty (Reading s)
  | [] => ⟨⟨[], trivial, rfl⟩⟩
  | c :: s => by
    obtain ⟨p, rest, whole, fits⟩ := exists_stretch (List.cons_ne_nil c s)
    have shorter : rest.length < (c :: s).length := by
      have := List.length_pos_of_ne_nil p.text_ne_nil
      rw [whole, List.length_append]
      omega
    obtain ⟨r⟩ := exists_reading rest
    exact whole ▸ ⟨r.cons fits⟩
termination_by s => s.length
decreasing_by exact shorter

end CodeAtlas.Source
