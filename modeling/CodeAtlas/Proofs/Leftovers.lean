import CodeAtlas.Proofs.Stretches

/-!
What the scanner leaves of a source text, read once more. Nothing new begins where a comment or the
contents of a literal stood: what is left of each stretch is stretches again that the scanner takes
whole (`fit_emptied`), so scanning a second time changes nothing (`code_code`).
-/
namespace CodeAtlas.Source

/-- How a literal ends when its contents are gone. -/
def Ending.emptied : Ending → Ending
  | closed => closed
  | lineEnd | torn => lineEnd

/-- What is left of a stretch, as stretches. -/
def Stretch.emptied : Stretch → List Stretch
  | char c => [char c]
  | lineComment _ => []
  | blockComment body _ => (newlines body).map char
  | literal quote _ ending => [literal quote [] ending.emptied]

/-- What is left of stretches, as stretches. -/
def emptied (ps : List Stretch) : List Stretch := ps.flatMap Stretch.emptied

variable {p : Stretch} {ps : List Stretch} {next : Option Char}

theorem emptied_cons : emptied (p :: ps) = p.emptied ++ emptied ps := rfl

/-! ## Texts -/

theorem textOf_chars (s : List Char) : textOf (s.map .char) = s := by
  induction s with
  | nil => rfl
  | cons c s ih => rw [List.map_cons, textOf_cons, ih]; rfl

theorem keptOf_chars (s : List Char) : keptOf (s.map .char) = s := by
  induction s with
  | nil => rfl
  | cons c s ih => rw [List.map_cons, keptOf_cons, ih]; rfl

theorem Stretch.textOf_emptied (p : Stretch) : textOf p.emptied = p.kept := by
  cases p with
  | char c => rfl
  | lineComment body => rfl
  | blockComment body closed => exact textOf_chars (newlines body)
  | literal quote glyphs ending => cases ending <;> rfl

theorem Stretch.keptOf_emptied (p : Stretch) : keptOf p.emptied = p.kept := by
  cases p with
  | char c => rfl
  | lineComment body => rfl
  | blockComment body closed => exact keptOf_chars (newlines body)
  | literal quote glyphs ending => cases ending <;> rfl

/-- What is left is the text of what is left of the stretches. -/
theorem textOf_emptied (ps : List Stretch) : textOf (emptied ps) = keptOf ps := by
  induction ps with
  | nil => rfl
  | cons p ps ih => rw [emptied_cons, textOf_append, p.textOf_emptied, ih, keptOf_cons]

/-- Of what is left, everything is left. -/
theorem keptOf_emptied (ps : List Stretch) : keptOf (emptied ps) = keptOf ps := by
  induction ps with
  | nil => rfl
  | cons p ps ih => rw [emptied_cons, keptOf_append, p.keptOf_emptied, ih, keptOf_cons]

/-! ## What the scanner sees next -/

/-- Only of a comment, which begins with a slash, the first character may be lost. -/
theorem head?_keptOf (no_comment : (textOf ps).head? ≠ some '/') :
    (keptOf ps).head? = (textOf ps).head? := by
  cases ps with
  | nil => rfl
  | cons p ps =>
    cases p with
    | char c => rfl
    | literal quote glyphs ending => rfl
    | lineComment body => exact absurd rfl no_comment
    | blockComment body closed => exact absurd rfl no_comment

/-- In front of anything but a slash, the scanner sees the same character when comments and the
contents of literals are gone. -/
theorem head?_or_next (h : (textOf ps).head?.or next ≠ some '/') :
    (keptOf ps).head?.or next = (textOf ps).head?.or next := by
  rw [head?_keptOf]
  intro slash
  rw [slash, Option.some_or] at h
  exact h rfl

theorem fit_newlines (body : List Char) : Fit next ((newlines body).map .char) := by
  have newline : ∀ c ∈ newlines body, c = '\n' := fun c hc => eq_newline_of_mem hc
  generalize newlines body = s at newline
  induction s with
  | nil => trivial
  | cons c s ih =>
    obtain ⟨rfl, others⟩ := List.forall_mem_cons.mp newline
    exact ⟨⟨rfl, fun slash => absurd slash (by decide)⟩, ih others⟩

/-- The scanner takes what is left of a stretch, in front of what is left of the others. -/
theorem Stretch.fit_emptied (fits : p.Fits ((textOf ps).head?.or next)) :
    Fit ((keptOf ps).head?.or next) p.emptied := by
  cases p with
  | char c =>
    obtain ⟨unquoted, alone⟩ := fits
    refine ⟨⟨unquoted, fun slash => ?_⟩, trivial⟩
    obtain ⟨no_slash, no_asterisk⟩ := alone slash
    show (keptOf ps).head?.or next ≠ _ ∧ (keptOf ps).head?.or next ≠ _
    rw [head?_or_next no_slash]
    exact ⟨no_slash, no_asterisk⟩
  | lineComment body => trivial
  | blockComment body closed => exact fit_newlines body
  | literal quote glyphs ending =>
    obtain ⟨quoted, -, ends⟩ := fits
    refine ⟨⟨quoted, List.forall_mem_nil _, ?_⟩, trivial⟩
    show ending.emptied.Fits ((keptOf ps).head?.or next)
    -- a literal that is left open stays open: its line or the text ends behind it as before
    have open_end : (textOf ps).head?.or next = none ∨ (textOf ps).head?.or next = some '\n' →
        Ending.lineEnd.Fits ((keptOf ps).head?.or next) := by
      intro line_end
      rw [head?_or_next]
      · exact line_end
      · rcases line_end with none | newline
        · simp [none]
        · simp [newline]
    cases ending with
    | closed => trivial
    | lineEnd => exact open_end ends
    | torn => exact open_end (.inl ends)

/-- The scanner takes what is left of stretches. -/
theorem fit_emptied (fit : Fit next ps) : Fit next (emptied ps) := by
  induction ps with
  | nil => trivial
  | cons p ps ih =>
    obtain ⟨here, others⟩ := fit
    rw [emptied_cons, fit_append, textOf_emptied]
    exact ⟨Stretch.fit_emptied here, ih others⟩

/-- What is left of a text, read. -/
def Reading.emptied {s : List Char} (r : Reading s) : Reading (code s) where
  stretches := Source.emptied r.stretches
  fit := fit_emptied r.fit
  text_eq := by rw [textOf_emptied, r.code_eq]

/-! ## What is taken away -/

theorem Stretch.kept_sublist (p : Stretch) : p.kept.Sublist p.text := by
  cases p with
  | char c => exact .refl _
  | lineComment body => exact List.nil_sublist _
  | blockComment body closed =>
    have inside : (newlines body).Sublist body := List.filter_sublist
    have ended := inside.trans (List.sublist_append_left body (if closed then commentEnd else []))
    exact (ended.cons '*').cons '/'
  | literal quote glyphs ending =>
    have ends : (ending.kept quote).Sublist (ending.text quote) := by
      cases ending with
      | closed => exact .refl _
      | lineEnd => exact .refl _
      | torn => exact List.nil_sublist _
    exact (ends.trans (List.sublist_append_right (glyphText glyphs) _)).cons_cons quote

theorem keptOf_sublist (ps : List Stretch) : (keptOf ps).Sublist (textOf ps) := by
  induction ps with
  | nil => exact .refl _
  | cons p ps ih =>
    rw [keptOf_cons, textOf_cons]
    exact p.kept_sublist.append ih

/-- Whatever a text is and wherever it ends, the scanner only takes characters away, and from what
it leaves it takes nothing more. -/
theorem code_code (s : List Char) : (code s).Sublist s ∧ code (code s) = code s := by
  obtain ⟨r⟩ := exists_reading s
  constructor
  · have taken := keptOf_sublist r.stretches
    rwa [← r.code_eq, r.text_eq] at taken
  · calc code (code s) = keptOf (emptied r.stretches) := r.emptied.code_eq
      _ = keptOf r.stretches := keptOf_emptied r.stretches
      _ = code s := r.code_eq.symm

/-- Comments are taken from between slashes, and a literal is torn at the end of the text. -/
example : code "/ /**//\n\"//\\".toList = "/ /\n\"".toList := by decide

end CodeAtlas.Source
