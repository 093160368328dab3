import CodeAtlas.Proofs.Stretches

/-!
Line numbers in code. Without comments and the contents of literals, code stands behind as many
newlines as in the source, less those that a backslash stands in front of within a literal
(`newlines_kept_unless_escaped`); in a literal over several lines such a newline is lost
(`escaped_newline_lost`).
-/
namespace CodeAtlas.Source

/-- The number of newlines that the scanner loses: those behind a backslash within a literal. -/
def Stretch.lostLines : Stretch → Nat
  | literal _ glyphs _ => glyphs.count (.escaped '\n')
  | char _ | lineComment _ | blockComment _ _ => 0

/-- The number of newlines that the scanner loses in stretches. -/
def lostLines : List Stretch → Nat
  | [] => 0
  | p :: ps => p.lostLines + lostLines ps

theorem count_glyphText {quote : Char} {glyphs : List Glyph}
    (within : ∀ g ∈ glyphs, g.Within quote) :
    (glyphText glyphs).count '\n' = glyphs.count (.escaped '\n') := by
  induction glyphs with
  | nil => rfl
  | cons g glyphs ih =>
    obtain ⟨here, others⟩ := List.forall_mem_cons.mp within
    have step : (glyphText (g :: glyphs)).count '\n' =
        g.text.count '\n' + (glyphText glyphs).count '\n' := List.count_append
    rw [step, ih others, List.count_cons]
    cases g with
    | plain c => simp [Glyph.text, here.2.2]
    | escaped c => simp [Glyph.text, List.count_cons, Nat.add_comm]

theorem count_newlines (s : List Char) : (newlines s).count '\n' = s.count '\n' :=
  List.count_filter (decide_eq_true rfl)

theorem count_kept {p : Stretch} {next : Option Char} (h : p.Fits next) :
    p.kept.count '\n' + p.lostLines = p.text.count '\n' := by
  cases p with
  | char c => rfl
  | lineComment body =>
    simp [Stretch.kept, Stretch.lostLines, Stretch.text, List.count_eq_zero.mpr h.1]
  | blockComment body closed =>
    have around : (if closed then commentEnd else []).count '\n' = 0 := by cases closed <;> rfl
    simp [Stretch.kept, Stretch.lostLines, Stretch.text, count_newlines, around]
  | literal quote glyphs ending =>
    have quoted : quote ≠ '\n' := ne_of_isQuote h.1 rfl
    have ends : (ending.kept quote).count '\n' = (ending.text quote).count '\n' := by
      cases ending <;> rfl
    simp [Stretch.kept, Stretch.lostLines, Stretch.text, count_glyphText h.2.1, ends, quoted,
      Nat.add_comm]

theorem count_keptOf {ps : List Stretch} {next : Option Char} (fit : Fit next ps) :
    (keptOf ps).count '\n' + lostLines ps = (textOf ps).count '\n' := by
  induction ps with
  | nil => rfl
  | cons p ps ih =>
    obtain ⟨here, others⟩ := fit
    have first := count_kept here
    have behind := ih others
    rw [keptOf_cons, textOf_cons, List.count_append, List.count_append, lostLines]
    omega

theorem lostLines_eq_zero {ps : List Stretch} : lostLines ps = 0 ↔
    ∀ quote glyphs ending, .literal quote glyphs ending ∈ ps → .escaped '\n' ∉ glyphs := by
  have each : lostLines ps = 0 ↔ ∀ p ∈ ps, p.lostLines = 0 := by
    induction ps with
    | nil => exact ⟨fun _ => List.forall_mem_nil _, fun _ => rfl⟩
    | cons p ps ih => rw [lostLines, Nat.add_eq_zero_iff, ih, List.forall_mem_cons]
  rw [each]
  constructor
  · intro none_lost quote glyphs ending hp
    exact List.count_eq_zero.mp (none_lost _ hp)
  · intro unescaped p hp
    cases p with
    | literal quote glyphs ending => exact List.count_eq_zero.mpr (unescaped quote glyphs ending hp)
    | char | lineComment | blockComment => rfl

/-- Wherever a source text is cut between two stretches, code in front of the cut has the newlines
of the text in front of it, less the escaped ones within literals; so all newlines survive exactly
if no literal escapes one. -/
theorem newlines_kept_unless_escaped (s : List Char) :
    Nonempty (Reading s) ∧ ∀ r : Reading s,
      (∀ before after, r.stretches = before ++ after →
        s = textOf before ++ textOf after ∧ code s = keptOf before ++ keptOf after ∧
          (keptOf before).count '\n' + lostLines before = (textOf before).count '\n') ∧
      ((code s).count '\n' = s.count '\n' ↔
        ∀ quote glyphs ending, .literal quote glyphs ending ∈ r.stretches →
          .escaped '\n' ∉ glyphs) := by
  refine ⟨exists_reading s, fun r => ⟨?_, ?_⟩⟩
  · intro before after cut
    have fit := r.fit
    rw [cut, fit_append] at fit
    refine ⟨?_, ?_, count_keptOf fit.1⟩
    · rw [← textOf_append, ← cut, r.text_eq]
    · rw [← keptOf_append, ← cut, r.code_eq]
  · have all := count_keptOf r.fit
    rw [r.text_eq, ← r.code_eq] at all
    rw [← lostLines_eq_zero]
    omega

/-- A newline behind a backslash is lost, also where a literal can have one. -/
theorem escaped_newline_lost :
    let s := "'''a\\\nb'''".toList
    s.count '\n' = 1 ∧ code s = "''''''".toList ∧ (code s).count '\n' = 0 := by
  decide

end CodeAtlas.Source
