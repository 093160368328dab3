import CodeAtlas.Proofs.Stretches

/-!
Texts that leave something in code whatever follows them (`Leaves`). Such a text is taken in
stretches none of which goes on behind it (`Leaves.exists_stretches`). So it cannot be the rest of a
comment in which comments nest (`endsComment_textOf`), and three quotes at its end are the ends of
two literals (`Leaves.exists_of_three_quotes`).
-/
namespace CodeAtlas.Source

variable {s t a b k m body w : List Char} {c quote : Char} {depth : Nat}

/-! ## What is left whatever follows -/

/-- Whether a text leaves something in code, whatever follows it. -/
def Leaves (s kept : List Char) : Prop := ∀ rest, code (s ++ rest) = kept ++ code rest

theorem Leaves.append (first : Leaves a k) (second : Leaves b m) : Leaves (a ++ b) (k ++ m) := by
  intro rest
  rw [List.append_assoc, first, second, List.append_assoc]

theorem Leaves.of_append (first : Leaves a k) (both : Leaves (a ++ b) (k ++ m)) : Leaves b m := by
  intro rest
  have whole := both rest
  rw [List.append_assoc, first, List.append_assoc] at whole
  exact List.append_cancel_left whole

theorem Leaves.code_eq (h : Leaves s k) : code s = k := by
  have whole := h []
  rwa [List.append_nil, show code [] = [] from rfl, List.append_nil] at whole

theorem Stretch.leaves {p : Stretch} (h : ∀ next, p.Fits next) : Leaves p.text p.kept :=
  fun _ => code_stretch (h _)

theorem glyphText_concat (glyphs : List Glyph) (g : Glyph) :
    glyphText (glyphs ++ [g]) = glyphText glyphs ++ g.text := by
  simp [glyphText]

/-- A stretch ends at a blank, or another takes the blank too and leaves as much. -/
theorem Stretch.exists_longer {p : Stretch} (h : p.Fits none) :
    p.Fits (some ' ') ∨ ∃ p' : Stretch, p'.text = p.text ++ [' '] ∧ p'.kept = p.kept ∧
      p'.Fits none := by
  cases p with
  | char c => exact .inl ⟨h.1, fun _ => by decide⟩
  | lineComment body =>
    refine .inr ⟨.lineComment (body ++ [' ']), rfl, rfl, ?_, .inl rfl⟩
    simpa using h.1
  | blockComment body closed =>
    obtain ⟨unended, -⟩ := h
    cases closed with
    | true => exact .inl ⟨unended, fun open_end => nomatch open_end⟩
    | false =>
      refine .inr ⟨.blockComment (body ++ [' ']) false, by simp [Stretch.text],
        by simp [Stretch.kept, newlines], fun within => ?_, fun _ => rfl⟩
      rcases List.infix_concat_iff.mp within with ⟨front, last⟩ | earlier
      · -- the mark does not end in a blank
        have same : (front ++ ['*']) ++ ['/'] = body ++ [' '] := by
          rw [← last, List.append_assoc]
          rfl
        exact absurd (List.append_singleton_inj.mp same).2 (by decide)
      · exact unended earlier
  | literal quote glyphs ending =>
    obtain ⟨quoted, within, -⟩ := h
    have unquoted : quote ≠ ' ' := ne_of_isQuote quoted rfl
    cases ending with
    | closed => exact .inl ⟨quoted, within, trivial⟩
    | lineEnd =>
      refine .inr ⟨.literal quote (glyphs ++ [.plain ' ']) .lineEnd, ?_, rfl, quoted, ?_, .inl rfl⟩
      · simp [Stretch.text, Ending.text, glyphText_concat, Glyph.text]
      · refine List.forall_mem_append.mpr ⟨within, List.forall_mem_singleton.mpr ?_⟩
        exact ⟨unquoted.symm, by decide, by decide⟩
    | torn =>
      refine .inr ⟨.literal quote (glyphs ++ [.escaped ' ']) .lineEnd, ?_, rfl, quoted, ?_,
        .inl rfl⟩
      · simp [Stretch.text, Ending.text, glyphText_concat, Glyph.text]
      · exact List.forall_mem_append.mpr ⟨within, List.forall_mem_singleton.mpr trivial⟩

theorem head?_textOf_or (p : Stretch) (next : Option Char) :
    (textOf [p]).head?.or next = p.text.head? := by
  obtain ⟨c, s, whole⟩ := List.exists_cons_of_ne_nil p.text_ne_nil
  rw [textOf, List.flatMap_singleton, whole]
  rfl

/-- What is left whatever follows is what stretches leave that end at a blank. -/
theorem Leaves.exists_stretches (h : Leaves s k) :
    ∃ ps, textOf ps = s ∧ keptOf ps = k ∧ Fit (some ' ') ps := by
  obtain ⟨r⟩ := exists_reading s
  have left : keptOf r.stretches = k := by rw [← r.code_eq, h.code_eq]
  refine ⟨r.stretches, r.text_eq, left, ?_⟩
  rcases List.eq_nil_or_concat' r.stretches with none_there | ⟨qs, p, split⟩
  · rw [none_there]
    trivial
  · have fit := r.fit
    have text_eq := r.text_eq
    rw [split] at left fit text_eq ⊢
    obtain ⟨inside, last, -⟩ := fit_append.mp fit
    rcases p.exists_longer last with ends | ⟨p', longer, same, last'⟩
    · rw [head?_textOf_or] at inside
      exact fit_append.mpr ⟨by rwa [head?_textOf_or], ends, trivial⟩
    · -- the blank would not be left
      have fit' : Fit none (qs ++ [p']) := by
        refine fit_append.mpr ⟨?_, last', trivial⟩
        obtain ⟨c, s, whole⟩ := List.exists_cons_of_ne_nil p.text_ne_nil
        rw [head?_textOf_or, whole] at inside
        rwa [head?_textOf_or, longer, whole]
      have swallowed := code_textOf fit'
      have blank_left := h [' ']
      rw [← text_eq, ← left, textOf_append, keptOf_append] at blank_left
      rw [textOf_append, keptOf_append] at swallowed
      simp only [textOf, keptOf, List.flatMap_singleton, longer, same] at swallowed blank_left
      rw [List.append_assoc, swallowed] at blank_left
      exact absurd (List.self_eq_append_right.mp blank_left) (by decide)

/-! ## Nested comments -/

/-- Whether a block comment, so many comments deep in another, ends with a text. -/
def endsComment : Nat → List Char → Bool
  | depth, '/' :: '*' :: s => endsComment (depth + 1) s
  | 0, '*' :: '/' :: s => s.isEmpty
  | depth + 1, '*' :: '/' :: s => endsComment depth s
  | depth, _ :: s => endsComment depth s
  | _, [] => false

theorem endsComment_cons (no_start : ¬ (c = '/' ∧ s.head? = some '*'))
    (no_end : ¬ (c = '*' ∧ s.head? = some '/')) :
    endsComment depth (c :: s) = endsComment depth s := by
  rw [endsComment]
  · intro s first behind
    exact no_start ⟨first, by rw [behind]; rfl⟩
  · intro s _ first behind
    exact no_end ⟨first, by rw [behind]; rfl⟩
  · intro _ s _ first behind
    exact no_end ⟨first, by rw [behind]; rfl⟩

/-- A comment that ends with a text ends with what is behind a line of it. -/
theorem endsComment_behind_newline (ends : endsComment depth s = true)
    (behind : '\n' :: t <:+ s) : ∃ depth', endsComment depth' t = true := by
  have passed : ∀ {c s}, '\n' :: t <:+ c :: s → '\n' ≠ c → '\n' :: t <:+ s := by
    intro c s behind other
    exact (List.suffix_cons_iff.mp behind).resolve_left fun same => other (List.cons.inj same).1
  fun_induction endsComment depth s with
  | case1 depth s ih => exact ih ends (passed (passed behind (by decide)) (by decide))
  | case2 s =>
    obtain rfl := List.isEmpty_iff.mp ends
    cases List.suffix_nil.mp (passed (passed behind (by decide)) (by decide))
  | case3 depth s ih => exact ih ends (passed (passed behind (by decide)) (by decide))
  | case4 depth c s _ _ _ ih =>
    rcases List.suffix_cons_iff.mp behind with same | later
    · obtain ⟨-, rfl⟩ := List.cons.inj same
      exact ⟨depth, ends⟩
    · exact ih ends later
  | case5 depth => cases ends

theorem eq_of_commentEnd_first (unended : ¬ commentEnd <:+: body)
    (whole : '*' :: '/' :: s = body ++ (commentEnd ++ t)) : s = t := by
  rcases body with _ | ⟨x, _ | ⟨y, body⟩⟩
  · cases whole
    rfl
  · cases whole
  · cases whole
    exact absurd (List.prefix_append commentEnd body).isInfix unended

/-- A comment that ends with a text ends with what is behind the first mark that ends comments,
unless half of that mark is taken for the beginning of a comment. -/
theorem endsComment_behind_end (ends : endsComment depth s = true)
    (whole : s = body ++ (commentEnd ++ t)) (unended : ¬ commentEnd <:+: body) :
    (depth = 0 ∧ t = []) ∨ (∃ depth', endsComment depth' t = true) ∨ t.head? = some '*' := by
  fun_induction endsComment depth s generalizing body with
  | case1 depth s ih =>
    rcases body with _ | ⟨x, _ | ⟨y, body⟩⟩
    · cases whole
    · -- the mark is that of `/*/`
      obtain ⟨rfl, rfl⟩ : x = '/' ∧ s = '/' :: t := by
        cases whole
        exact ⟨rfl, rfl⟩
      by_cases star : t.head? = some '*'
      · exact .inr (.inr star)
      · rw [endsComment_cons (fun h => star h.2) (fun h => absurd h.1 (by decide))] at ends
        exact .inr (.inl ⟨_, ends⟩)
    · obtain ⟨rfl, rfl, rfl⟩ : x = '/' ∧ y = '*' ∧ s = body ++ (commentEnd ++ t) := by
        cases whole
        exact ⟨rfl, rfl, rfl⟩
      have unended' := (not_commentEnd_cons (not_commentEnd_cons unended).1).1
      rcases ih ends rfl unended' with ⟨deeper, -⟩ | further
      · cases deeper
      · exact .inr further
  | case2 s =>
    obtain rfl := eq_of_commentEnd_first unended whole
    exact .inl ⟨rfl, List.isEmpty_iff.mp ends⟩
  | case3 depth s ih =>
    obtain rfl := eq_of_commentEnd_first unended whole
    exact .inr (.inl ⟨depth, ends⟩)
  | case4 depth c s _ no_end no_end' ih =>
    cases body with
    | nil =>
      obtain ⟨rfl, rfl⟩ := List.cons.inj whole
      cases depth with
      | zero => exact (no_end t rfl rfl rfl).elim
      | succ depth => exact (no_end' depth t rfl rfl rfl).elim
    | cons x body =>
      obtain ⟨rfl, rfl⟩ := List.cons.inj whole
      exact ih ends rfl (not_commentEnd_cons unended).1
  | case5 depth => cases ends

/-- A star that is not within a comment is left. -/
theorem star_mem_keptOf {ps : List Stretch} {next : Option Char} (fit : Fit next ps)
    (star : (textOf ps).head? = some '*') : '*' ∈ keptOf ps := by
  cases ps with
  | nil => cases star
  | cons p ps =>
    cases p with
    | char c =>
      obtain rfl := Option.some.inj star
      exact List.mem_cons_self
    | lineComment body => exact absurd (Option.some.inj star) (by decide)
    | blockComment body closed => exact absurd (Option.some.inj star) (by decide)
    | literal quote glyphs ending =>
      obtain rfl := Option.some.inj star
      cases fit.1.1

/-- No comment ends with stretches of which only newlines are left. -/
theorem endsComment_textOf {ps : List Stretch} (fit : Fit (some ' ') ps)
    (left : ∀ c ∈ keptOf ps, c = '\n') (depth : Nat) : endsComment depth (textOf ps) = false := by
  rw [← Bool.not_eq_true]
  intro ends
  induction ps generalizing depth with
  | nil => cases ends
  | cons p ps ih =>
    obtain ⟨here, others⟩ := fit
    rw [keptOf_cons] at left
    obtain ⟨first, later⟩ := List.forall_mem_append.mp left
    cases p with
    | char c =>
      obtain rfl := first c List.mem_cons_self
      exact ih others later depth ends
    | lineComment body =>
      -- it does not end at the blank
      have newline : (textOf ps).head? = some '\n' := by
        rcases here.2 with nothing | newline
        · simp at nothing
        · exact (Option.or_eq_some_iff.mp newline).resolve_right fun h => absurd h.2 (by decide)
      obtain ⟨t, behind⟩ := List.head?_eq_some_iff.mp newline
      rw [textOf_cons, behind] at ends
      obtain ⟨depth', ends'⟩ := endsComment_behind_newline ends (List.suffix_append _ _)
      exact ih others later depth' (by rwa [behind])
    | blockComment body closed =>
      obtain ⟨unended, closes⟩ := here
      cases closed with
      | false => simp at closes
      | true =>
        rw [textOf_cons, Stretch.text, if_pos rfl, List.cons_append, List.cons_append,
          List.append_assoc, endsComment] at ends
        rcases endsComment_behind_end ends rfl unended with ⟨deeper, -⟩ | ⟨depth', ends'⟩ | star
        · cases deeper
        · exact ih others later depth' ends'
        · exact absurd (later _ (star_mem_keptOf others star)) (by decide)
    | literal quote glyphs ending =>
      obtain rfl := first quote List.mem_cons_self
      cases here.1

/-! ## Quotes at the end -/

/-- Stretches that end in a quote, in front of something on the same line, end in a literal. -/
theorem exists_literal_at_end {ps : List Stretch} {next : Char} (fit : Fit (some next) ps)
    (quoted : isQuote quote = true) (other : next ≠ '\n') (ends : textOf ps = w ++ [quote]) :
    ∃ qs glyphs, ps = qs ++ [.literal quote glyphs .closed] ∧ (∀ g ∈ glyphs, g.Within quote) ∧
      w = textOf qs ++ quote :: glyphText glyphs := by
  rcases List.eq_nil_or_concat' ps with rfl | ⟨qs, p, rfl⟩
  · exact absurd ends.symm (List.append_ne_nil_of_right_ne_nil w (List.cons_ne_nil quote []))
  · obtain ⟨-, here, -⟩ := fit_append.mp fit
    rw [textOf_append, show textOf [p] = p.text from List.flatMap_singleton ..] at ends
    obtain ⟨v, x, last⟩ := (List.eq_nil_or_concat' p.text).resolve_left p.text_ne_nil
    rw [last, ← List.append_assoc] at ends
    obtain ⟨rfl, rfl⟩ := List.append_singleton_inj.mp ends
    cases p with
    | char c =>
      have only : [] ++ [c] = v ++ [x] := last
      obtain ⟨-, rfl⟩ := List.append_singleton_inj.mp only
      rw [here.1] at quoted
      cases quoted
    | lineComment body =>
      rcases here.2 with nothing | newline
      · cases nothing
      · exact absurd (Option.some.inj newline) other
    | blockComment body closed =>
      cases closed with
      | false => cases here.2 rfl
      | true =>
        have slash : ('/' :: '*' :: body ++ ['*']) ++ ['/'] = v ++ [x] := by
          simpa [Stretch.text, commentEnd] using last
        exact absurd (List.append_singleton_inj.mp slash).2.symm (ne_of_isQuote quoted rfl)
    | literal q glyphs ending =>
      cases ending with
      | closed =>
        have close : (q :: glyphText glyphs) ++ [q] = v ++ [x] := last
        obtain ⟨start, rfl⟩ := List.append_singleton_inj.mp close
        exact ⟨qs, glyphs, rfl, here.2.1, by rw [start]⟩
      | lineEnd =>
        rcases here.2.2 with nothing | newline
        · cases nothing
        · exact absurd (Option.some.inj newline) other
      | torn => cases here.2.2

/-- Three quotes that end a text of code end two literals. -/
theorem Leaves.exists_of_three_quotes (h : Leaves (w ++ [quote, quote, quote]) k)
    (quoted : isQuote quote = true) : ∃ m, k = m ++ [quote, quote, quote, quote] := by
  obtain ⟨ps, text_eq, rfl, fit⟩ := h.exists_stretches
  obtain ⟨qs, glyphs, rfl, within, two⟩ := exists_literal_at_end (w := w ++ [quote, quote]) fit
    quoted (by decide) (by rw [text_eq]; simp)
  obtain ⟨fit', -⟩ := fit_append.mp fit
  -- the quote in front of the last one opens the literal
  obtain rfl : glyphs = [] := by
    rcases List.eq_nil_or_concat' glyphs with none_within | ⟨glyphs, g, rfl⟩
    · exact none_within
    · have last := within g (List.mem_append_right _ List.mem_cons_self)
      rw [glyphText_concat] at two
      cases g with
      | plain c =>
        have same :
            (w ++ [quote]) ++ [quote] = (textOf qs ++ quote :: glyphText glyphs) ++ [c] := by
          simpa [Glyph.text] using two
        exact absurd (List.append_singleton_inj.mp same).2.symm last.1
      | escaped c =>
        have same : w ++ [quote, quote] =
            (textOf qs ++ quote :: glyphText glyphs) ++ ['\\', c] := by
          simpa [Glyph.text] using two
        exact absurd (List.cons.inj (List.append_inj' same rfl).2).1
          (ne_of_isQuote quoted rfl)
  have start : (w ++ [quote]) ++ [quote] = textOf qs ++ [quote] := by
    simpa [glyphText] using two
  have fit' : Fit (some quote) qs := fit'
  obtain ⟨qs, glyphs, rfl, -, -⟩ := exists_literal_at_end fit' quoted
    (ne_of_isQuote quoted rfl) (List.append_singleton_inj.mp start).1.symm
  exact ⟨keptOf qs, by simp [keptOf, Stretch.kept, Ending.kept]⟩

end CodeAtlas.Source
