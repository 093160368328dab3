import CodeAtlas.Proofs.CallSites
import CodeAtlas.Proofs.ClosedTexts
import CodeAtlas.Proofs.NamesApart

/-!
Source texts as the language reads them: characters of code, comments, which nest, and literals of
one line or of several, raw or with escapes. The scanner knows neither nested comments nor the
quotes of a literal of several lines nor raw ones; it leaves of a lexeme what it should, whatever
follows, exactly if the lexeme needs none of that (`plain_lexemes_left`).
-/
namespace CodeAtlas.Source

open Text (isBlank)

variable {s body content : List Char} {c quote : Char}

/-! ## Lexemes -/

/-- What stands between the quotes of a literal. -/
inductive Content where
  | glyphs (gs : List Glyph)
  /-- Behind the letter `r`, with no escapes. -/
  | raw (s : List Char)
  deriving DecidableEq, Repr

namespace Content

def text : Content → List Char
  | glyphs gs => glyphText gs
  | raw s => s

end Content

/-- A glyph of a literal without interpolation, on one line or on several. -/
def Glyph.Allowed (quote : Char) (triple : Bool) : Glyph → Prop
  | plain c => c ≠ '\\' ∧ c ≠ '$' ∧ (triple = false → c ≠ quote ∧ c ≠ '\n')
  | escaped c => triple = false → c ≠ '\n'

instance (quote : Char) (triple : Bool) : DecidablePred (Glyph.Allowed quote triple)
  | .plain _ => inferInstanceAs (Decidable (_ ∧ _))
  | .escaped _ => inferInstanceAs (Decidable (_ → _))

/-- Whether three in a row, put behind a list, are not the first three in a row. -/
def EndsEarly {α : Type} (x : α) (l : List α) : Prop := [x, x, x] <:+: l ++ [x, x]

instance {α : Type} [DecidableEq α] (x : α) (l : List α) : Decidable (EndsEarly x l) :=
  inferInstanceAs (Decidable (_ <:+: _))

/-- Whether a literal has a content like this. -/
def Content.Proper (quote : Char) (triple : Bool) : Content → Prop
  | glyphs gs =>
    (∀ g ∈ gs, g.Allowed quote triple) ∧ (triple = true → ¬ EndsEarly (.plain quote) gs)
  | raw s => (triple = false → quote ∉ s ∧ '\n' ∉ s) ∧ (triple = true → ¬ EndsEarly quote s)

instance (quote : Char) (triple : Bool) : DecidablePred (Content.Proper quote triple)
  | .glyphs _ => inferInstanceAs (Decidable (_ ∧ _))
  | .raw _ => inferInstanceAs (Decidable (_ ∧ _))

/-- A piece of a source text as the language reads it. -/
inductive Lexeme where
  /-- A character of code, the `r` of a raw literal among them. -/
  | code (c : Char)
  | lineComment (body : List Char)
  | blockComment (body : List Char)
  /-- A literal between single quotes, or between three at each side. -/
  | literal (quote : Char) (triple : Bool) (content : Content)
  deriving DecidableEq, Repr

namespace Lexeme

/-- The quotes at one side of a literal. -/
def quotes (quote : Char) (triple : Bool) : List Char :=
  if triple then [quote, quote, quote] else [quote]

def text : Lexeme → List Char
  | code c => [c]
  | lineComment body => '/' :: '/' :: (body ++ ['\n'])
  | blockComment body => '/' :: '*' :: (body ++ commentEnd)
  | literal quote triple content =>
    quotes quote triple ++ (content.text ++ quotes quote triple)

/-- What should be left of a lexeme: code, newlines, and the quotes of literals. -/
def left : Lexeme → List Char
  | code c => [c]
  | lineComment _ => ['\n']
  | blockComment body => newlines body
  | literal quote triple content =>
    quotes quote triple ++ (newlines content.text ++ quotes quote triple)

/-- Whether the language has a lexeme like this. -/
def Proper : Lexeme → Prop
  | code c => isQuote c = false ∧ c ≠ '/'
  | lineComment body => '\n' ∉ body
  | blockComment body => endsComment 0 (body ++ commentEnd) = true
  | literal quote triple content => isQuote quote = true ∧ content.Proper quote triple

instance : DecidablePred Proper
  | code _ => inferInstanceAs (Decidable (_ ∧ _))
  | lineComment _ => inferInstanceAs (Decidable (_ ∉ _))
  | blockComment _ => inferInstanceAs (Decidable (_ = _))
  | literal _ _ _ => inferInstanceAs (Decidable (_ ∧ _))

end Lexeme

/-- Whether the content of a literal is one for a scanner that knows literals of one line only, each
with escapes: it has no newline, no quote that is not escaped, and no backslash at its end. -/
def Clean (quote : Char) (content : List Char) : Prop :=
  ∃ glyphs, glyphText glyphs = content ∧ ∀ g ∈ glyphs, g.Within quote ∧ g ≠ .escaped '\n'

/-- Whether a comment has no comment within it, and a literal nothing that ends it early. -/
def Lexeme.Plain : Lexeme → Prop
  | code _ | lineComment _ => True
  | blockComment body => ¬ commentEnd <:+: body
  | literal quote _ content => Clean quote content.text

/-! ## Plain lexemes -/

theorem Clean.not_newline (h : Clean quote content) : '\n' ∉ content := by
  obtain ⟨glyphs, rfl, clean⟩ := h
  intro newline
  obtain ⟨g, hg, inside⟩ := List.mem_flatMap.mp newline
  obtain ⟨within, unescaped⟩ := clean g hg
  cases g with
  | plain c => exact within.2.2 (List.mem_singleton.mp inside).symm
  | escaped c =>
    rcases List.mem_cons.mp inside with backslash | escaped
    · exact absurd backslash (by decide)
    · exact unescaped (by rw [List.mem_singleton.mp escaped])

theorem leaves_literal {glyphs : List Glyph} (quoted : isQuote quote = true)
    (within : ∀ g ∈ glyphs, g.Within quote) :
    Leaves (quote :: (glyphText glyphs ++ [quote])) [quote, quote] :=
  Stretch.leaves (p := .literal quote glyphs .closed) fun _ => ⟨quoted, within, trivial⟩

theorem leaves_empty (quoted : isQuote quote = true) : Leaves [quote, quote] [quote, quote] :=
  leaves_literal quoted (List.forall_mem_nil _)

theorem leaves_blockComment (unended : ¬ commentEnd <:+: body) :
    Leaves ('/' :: '*' :: (body ++ commentEnd)) (newlines body) :=
  Stretch.leaves (p := .blockComment body true) fun _ => ⟨unended, fun open_end => nomatch open_end⟩

theorem Lexeme.leaves_of_plain {l : Lexeme} (proper : l.Proper) (plain : l.Plain) :
    Leaves l.text l.left := by
  cases l with
  | code c =>
    exact Stretch.leaves (p := .char c) fun _ => ⟨proper.1, fun slash => absurd slash proper.2⟩
  | lineComment body =>
    intro rest
    have ends : (Stretch.lineComment body).Fits ('\n' :: rest).head? := ⟨proper, .inr rfl⟩
    have line := code_stretch ends
    rw [code_char ⟨rfl, fun slash => absurd slash (by decide)⟩] at line
    simpa [text, Stretch.text, Stretch.kept, left] using line
  | blockComment body => exact leaves_blockComment plain
  | literal quote triple content =>
    obtain ⟨quoted, -⟩ := proper
    have one_line := Clean.not_newline plain
    obtain ⟨glyphs, same, clean⟩ := plain
    have leaves := leaves_literal quoted fun g hg => (clean g hg).1
    rw [text, left, newlines_eq_nil.mpr one_line, ← same]
    cases triple with
    | false => exact leaves
    | true =>
      -- the other quotes are empty literals around the literal that is read
      have whole := ((leaves_empty quoted).append leaves).append (leaves_empty quoted)
      simpa [quotes] using whole

/-! ## Lexemes that are not plain -/

/-- From within a literal, a text on one line is clean, or it ends early, or behind a backslash. -/
theorem clean_or (quote : Char) (one_line : '\n' ∉ content) : Clean quote content ∨
    ∃ glyphs, (∀ g ∈ glyphs, g.Within quote) ∧ (content = glyphText glyphs ++ ['\\'] ∨
      ∃ rest, content = glyphText glyphs ++ quote :: rest) := by
  obtain ⟨glyphs, ending, rest, rfl, within, fits⟩ := exists_ending quote content
  cases ending with
  | closed => exact .inr ⟨glyphs, within, .inr ⟨rest, rfl⟩⟩
  | torn =>
    obtain rfl := List.head?_eq_none_iff.mp fits
    exact .inr ⟨glyphs, within, .inl rfl⟩
  | lineEnd =>
    obtain rfl : rest = [] := by
      rcases fits with nothing | newline
      · exact List.head?_eq_none_iff.mp nothing
      · obtain ⟨t, rfl⟩ := List.head?_eq_some_iff.mp newline
        simp at one_line
    refine .inl ⟨glyphs, by simp [Ending.text], fun g hg => ⟨within g hg, ?_⟩⟩
    rintro rfl
    refine one_line (List.mem_append_left _ (List.mem_flatMap.mpr ⟨_, hg, ?_⟩))
    simp [Glyph.text]

theorem code_of_torn {glyphs : List Glyph} (quoted : isQuote quote = true)
    (within : ∀ g ∈ glyphs, g.Within quote) :
    code (quote :: (glyphText glyphs ++ ['\\', quote])) = [quote] := by
  have fit : Fit none [.literal quote (glyphs ++ [.escaped quote]) .lineEnd] := by
    refine ⟨⟨quoted, ?_, .inl rfl⟩, trivial⟩
    exact List.forall_mem_append.mpr ⟨within, List.forall_mem_singleton.mpr trivial⟩
  have left := code_textOf fit
  simpa [textOf, keptOf, Stretch.text, Stretch.kept, Ending.text, Ending.kept, glyphText_concat,
    Glyph.text] using left

theorem clean_of_single (quoted : isQuote quote = true) (one_line : '\n' ∉ content)
    (unquoted : quote ∉ content) (h : Leaves (quote :: (content ++ [quote])) [quote, quote]) :
    Clean quote content := by
  rcases clean_or quote one_line with clean | ⟨glyphs, within, rfl | ⟨rest, rfl⟩⟩
  · exact clean
  · have left := h.code_eq
    rw [List.append_assoc, show ['\\'] ++ [quote] = ['\\', quote] from rfl,
      code_of_torn quoted within] at left
    cases left
  · simp at unquoted

theorem clean_of_triple (quoted : isQuote quote = true)
    (h : Leaves (quote :: (content ++ [quote, quote, quote]))
      (quote :: (newlines content ++ [quote, quote, quote]))) :
    Clean quote content := by
  have one_line : '\n' ∉ content := by
    obtain ⟨m, last⟩ := Leaves.exists_of_three_quotes (w := quote :: content) h quoted
    have front : quote :: newlines content = m ++ [quote] := by
      refine List.append_cancel_right (show _ ++ [quote, quote, quote] = _ ++ _ from ?_)
      simpa using last
    -- only the first quote is left
    cases m with
    | nil => exact newlines_eq_nil.mp (List.cons.inj front).2
    | cons x m =>
      have within : quote ∈ newlines content := by
        rw [(List.cons.inj front).2]
        exact List.mem_append_right _ List.mem_cons_self
      exact absurd (eq_newline_of_mem within) (ne_of_isQuote quoted rfl)
  rw [newlines_eq_nil.mpr one_line] at h
  rcases clean_or quote one_line with clean | ⟨glyphs, within, rfl | ⟨rest, rfl⟩⟩
  · exact clean
  · -- the quote behind the backslash does not end the literal, and the next one does
    have within' : ∀ g ∈ glyphs ++ [.escaped quote], g.Within quote :=
      List.forall_mem_append.mpr ⟨within, List.forall_mem_singleton.mpr trivial⟩
    have last : Leaves [quote] [quote, quote] := by
      refine (leaves_literal quoted within').of_append ?_
      simpa [glyphText_concat, Glyph.text] using h
    have left := last.code_eq
    rw [code_quote quoted] at left
    cases left
  · -- a quote ends the literal, and the three at the end are too many
    have behind : Leaves (rest ++ [quote, quote, quote]) [quote, quote] := by
      refine (leaves_literal quoted within).of_append ?_
      simpa using h
    obtain ⟨m, last⟩ := behind.exists_of_three_quotes quoted
    have length := congrArg List.length last
    simp at length

theorem unended_of_leaves (nested : endsComment 0 (body ++ commentEnd) = true)
    (h : Leaves ('/' :: '*' :: (body ++ commentEnd)) (newlines body)) :
    ¬ commentEnd <:+: body := by
  rcases exists_commentEnd body with ⟨first, behind, rfl, unended⟩ | unended
  · have later : Leaves (behind ++ commentEnd) (newlines behind) := by
      refine (leaves_blockComment unended).of_append ?_
      have both : newlines (first ++ (commentEnd ++ behind)) =
          newlines first ++ newlines behind := by
        rw [newlines, List.filter_append, List.filter_append]
        rfl
      rw [both] at h
      simpa using h
    obtain ⟨ps, text_eq, kept_eq, fit⟩ := later.exists_stretches
    have only_newlines : ∀ c ∈ keptOf ps, c = '\n' := by
      rw [kept_eq]
      exact fun c hc => eq_newline_of_mem hc
    rw [List.append_assoc, List.append_assoc] at nested
    rcases endsComment_behind_end nested rfl unended with ⟨-, none_behind⟩ | ⟨depth, ends⟩ | star
    · simp [commentEnd] at none_behind
    · rw [← text_eq, endsComment_textOf fit only_newlines] at ends
      cases ends
    · rw [← text_eq] at star
      exact absurd (only_newlines _ (star_mem_keptOf fit star)) (by decide)
  · exact unended

theorem Lexeme.plain_of_leaves {l : Lexeme} (proper : l.Proper) (leaves : Leaves l.text l.left) :
    l.Plain := by
  cases l with
  | code c => trivial
  | lineComment body => trivial
  | blockComment body => exact unended_of_leaves proper leaves
  | literal quote triple content =>
    obtain ⟨quoted, proper⟩ := proper
    cases triple with
    | true =>
      refine clean_of_triple quoted ((leaves_empty quoted).of_append ?_)
      simpa [text, left, quotes] using leaves
    | false =>
      cases content with
      | raw s =>
        obtain ⟨unquoted, one_line⟩ := proper.1 rfl
        refine clean_of_single quoted one_line unquoted ?_
        simpa [text, left, quotes, Content.text, newlines_eq_nil.mpr one_line] using leaves
      | glyphs gs =>
        refine ⟨gs, rfl, fun g hg => ?_⟩
        have allowed := proper.1 g hg
        cases g with
        | plain c =>
          obtain ⟨no_escape, -, one_line⟩ := allowed
          obtain ⟨unquoted, no_newline⟩ := one_line rfl
          exact ⟨⟨unquoted, no_escape, no_newline⟩, nofun⟩
        | escaped c =>
          refine ⟨trivial, fun newline => allowed rfl (Glyph.escaped.inj newline)⟩

/-! ## Call sites -/

/-- Lexemes one after another. -/
def sourceText (ls : List Lexeme) : List Char := ls.flatMap Lexeme.text

/-- What should be left of lexemes. -/
def leftOf (ls : List Lexeme) : List Char := ls.flatMap Lexeme.left

/-- Whether lexemes stand in front of a parenthesis of code, with at most blanks left between. -/
def CallSite (ls before site : List Lexeme) : Prop :=
  ∃ gap after, ls = before ++ (site ++ (gap ++ .code '(' :: after)) ∧ ∀ c ∈ leftOf gap, isBlank c

section CallSites

variable {ls before site : List Lexeme} {l : Lexeme} {name : List Char}

theorem leftOf_append (ls ms : List Lexeme) : leftOf (ls ++ ms) = leftOf ls ++ leftOf ms :=
  List.flatMap_append

theorem code_sourceText (h : ∀ l ∈ ls, Leaves l.text l.left) :
    code (sourceText ls) = leftOf ls := by
  induction ls with
  | nil => rfl
  | cons l ls ih =>
    obtain ⟨here, others⟩ := List.forall_mem_cons.mp h
    rw [sourceText, List.flatMap_cons, here, ← sourceText, ih others]
    rfl

/-- Whether a character is neither a newline nor a quote. -/
def isOfCode (c : Char) : Bool := !(isQuote c || c == '\n')

theorem isOfCode_iff : isOfCode c = true ↔ isQuote c = false ∧ c ≠ '\n' := by
  simp [isOfCode]

theorem isOfCode_of_isIdentPart (h : Text.isIdentPart c) : isOfCode c := by
  have outside : ∀ x, Text.isIdentPart x = false → c ≠ x := by
    rintro x other rfl
    rw [h] at other
    cases other
  have unquoted : ¬ isQuote c = true := by
    intro quoted
    rcases isQuote_iff.mp quoted with same | same
    · exact outside _ (by decide) same
    · exact outside _ (by decide) same
  exact isOfCode_iff.mpr ⟨Bool.eq_false_iff.mpr unquoted, outside _ (by decide)⟩

theorem eq_code_of_mem_left (proper : l.Proper) (hc : c ∈ l.left) (h : isOfCode c) :
    l = .code c := by
  obtain ⟨unquoted, no_newline⟩ := isOfCode_iff.mp h
  cases l with
  | code x => rw [List.mem_singleton.mp hc]
  | lineComment body => exact absurd (List.mem_singleton.mp hc) no_newline
  | blockComment body => exact absurd (eq_newline_of_mem hc) no_newline
  | literal quote triple content =>
    have quotes_only : c ∈ Lexeme.quotes quote triple → c = quote := by
      cases triple <;> simp [Lexeme.quotes]
    have quoted : c = quote := by
      rcases List.mem_append.mp hc with front | behind
      · exact quotes_only front
      · rcases List.mem_append.mp behind with newline | back
        · exact absurd (eq_newline_of_mem newline) no_newline
        · exact quotes_only back
    rw [quoted, proper.1] at unquoted
    cases unquoted

theorem left_standAlone (proper : ∀ l ∈ ls, l.Proper) : StandAlone isOfCode Lexeme.left ls := by
  intro l hl c hc h
  rw [eq_code_of_mem_left (proper l hl) hc h, Lexeme.left]

theorem IsName.isOfCode (h : IsName name) : name ≠ [] ∧ ∀ c ∈ name, isOfCode c := by
  obtain ⟨letters, c, first, -⟩ := h
  refine ⟨fun none_there => ?_, fun c hc => isOfCode_of_isIdentPart (letters c hc)⟩
  rw [none_there] at first
  cases first

theorem IsCallee.isOfCode (h : IsCallee name) : name ≠ [] ∧ ∀ c ∈ name, isOfCode c := by
  rcases h with named | ⟨q, m, rfl, qualifier, member⟩
  · exact named.isOfCode
  · refine ⟨List.append_ne_nil_of_right_ne_nil q (List.cons_ne_nil '.' m), ?_⟩
    refine List.forall_mem_append.mpr ⟨qualifier.isOfCode.2, ?_⟩
    exact List.forall_mem_cons.mpr ⟨by decide, member.isOfCode.2⟩

/-- A name in front of a parenthesis that is left is one in code. -/
theorem exists_callSite (proper : ∀ l ∈ ls, l.Proper) (h : name ∈ callSites (leftOf ls)) :
    IsCallee name ∧ ∃ before site, CallSite ls before site ∧ leftOf site = name ∧
      ∀ l ∈ site, l.left = [] ∨ ∃ c, l = .code c := by
  obtain ⟨callee, a, gap, b, whole, blank⟩ := calledIn_of_mem h
  refine ⟨callee, ?_⟩
  obtain ⟨some_text, letters⟩ := callee.isOfCode
  obtain ⟨before, site, behind, rfl, -, rfl, left, pieces⟩ :=
    exists_pieces_within (left_standAlone proper) whole some_text letters
  have known : ∀ l ∈ behind, l.Proper := fun l hl => proper l (by simp [hl])
  obtain ⟨between, p, after, rfl, opens, rfl, -⟩ :=
    exists_piece (left_standAlone known) left (by decide)
  obtain rfl : p = .code '(' :=
    eq_code_of_mem_left (known p (by simp)) (opens ▸ List.mem_cons_self) (by decide)
  refine ⟨before, site, ⟨between, after, rfl, blank⟩, rfl, fun l hl => ?_⟩
  rcases pieces l hl with nothing | ⟨c, one_left, letter⟩
  · exact .inl nothing
  · have here : l.Proper := proper l (by simp [hl])
    exact .inr ⟨c, eq_code_of_mem_left here (one_left ▸ List.mem_cons_self) letter⟩

theorem CallSite.mem (h : CallSite ls before site) (named : IsName (leftOf site))
    (apart : Apart (leftOf before)) : leftOf site ∈ callSites (leftOf ls) := by
  obtain ⟨gap, after, rfl, blank⟩ := h
  refine mem_callSites (b := leftOf after) named blank apart ?_
  rw [leftOf_append, leftOf_append, leftOf_append]
  rfl

end CallSites

/-- Of a lexeme what should be left is left, whatever follows it, exactly if it is plain. Of plain
lexemes code is left with the newlines and the quotes, and the names at call sites are those of
code: none is found elsewhere, and none is missed that does not stand behind part of a name. -/
theorem plain_lexemes_left (ls : List Lexeme) (proper : ∀ l ∈ ls, l.Proper) :
    (∀ l ∈ ls, Leaves l.text l.left ↔ l.Plain) ∧
      ((∀ l ∈ ls, l.Plain) → code (sourceText ls) = leftOf ls ∧
        (∀ name ∈ callSites (code (sourceText ls)), IsCallee name ∧
          ∃ before site, CallSite ls before site ∧ leftOf site = name ∧
            ∀ l ∈ site, l.left = [] ∨ ∃ c, l = .code c) ∧
        ∀ before site, CallSite ls before site → IsName (leftOf site) → Apart (leftOf before) →
          leftOf site ∈ callSites (code (sourceText ls))) := by
  have leaves_iff : ∀ l ∈ ls, Leaves l.text l.left ↔ l.Plain := fun l hl =>
    ⟨Lexeme.plain_of_leaves (proper l hl), Lexeme.leaves_of_plain (proper l hl)⟩
  refine ⟨leaves_iff, fun plain => ?_⟩
  have left : code (sourceText ls) = leftOf ls :=
    code_sourceText fun l hl => (leaves_iff l hl).mpr (plain l hl)
  rw [left]
  refine ⟨rfl, fun name hname => exists_callSite proper hname, ?_⟩
  intro before site here named apart
  exact here.mem named apart

/-- A call with comments and literals that have parentheses, one of them raw and between three
quotes at each side. -/
def guardedCall : List Lexeme :=
  [.code 'f', .code '(', .blockComment " g( ".toList,
    .literal '"' false (.glyphs [.plain 'h', .escaped '"', .plain '(']), .code ')',
    .lineComment " i(".toList, .code 'r', .literal '\'' true (.raw "j(\"k\")".toList)]

theorem plain_lexemes_left_guarded :
    (∀ l ∈ guardedCall, l.Proper) ∧ (∀ l ∈ guardedCall, l.Plain) ∧
      code (sourceText guardedCall) = "f(\"\")\nr''''''".toList := by
  have proper : ∀ l ∈ guardedCall, l.Proper := by decide
  have plain : ∀ l ∈ guardedCall, l.Plain := by
    simp only [guardedCall, List.forall_mem_cons]
    have comment : ¬ commentEnd <:+: " g( ".toList := by decide
    have raw : Clean '\'' "j(\"k\")".toList :=
      ⟨"j(\"k\")".toList.map .plain, by decide, by decide⟩
    exact ⟨trivial, trivial, comment, ⟨_, rfl, by decide⟩, trivial, trivial, trivial, raw,
      List.forall_mem_nil _⟩
  have left := ((plain_lexemes_left guardedCall proper).2 plain).1
  exact ⟨proper, plain, left.trans (by decide)⟩

/-- Of a literal over several lines all but the first line is taken for code. -/
theorem call_found_in_literal :
    let ls := "x = ".toList.map .code ++
      [.literal '\'' true (.glyphs ("a\nf()".toList.map .plain)), .code ';']
    (∀ l ∈ ls, l.Proper) ∧ leftOf ls = "x = '''\n''';".toList ∧
      code (sourceText ls) = "x = '''\nf()'''".toList ∧
      "f".toList ∈ callSites (code (sourceText ls)) := by
  intro ls
  have left : code (sourceText ls) = "x = '''\nf()'''".toList := by decide
  refine ⟨by decide, by decide, left, ?_⟩
  rw [left]
  have named : IsName "f".toList := ⟨by decide, 'f', rfl, by decide⟩
  have apart : Apart "x = '''\n".toList := by
    intro c hc
    exact Option.mem_some_iff.mp hc ▸ by decide
  exact mem_callSites (b := ")'''".toList) named (List.forall_mem_nil _) apart rfl

end CodeAtlas.Source
