import CodeAtlas.Enrichment.Steps
import CodeAtlas.Proofs.Cutting
import CodeAtlas.Proofs.Searching
import Mathlib.Data.List.Infix

/-!
Return types from the lines above. What is recorded stands in front of a mention of the name, on the
same line and with a parenthesis behind the name (`Mention`). A declaration without a type is a
mention with nothing to record, but not the only one there may be: a call of the same name in the
lines above is read as a declaration. So for a declaration without a type, what is recorded stands
in front of another mention (`recorded_type_stands_elsewhere`).
-/
namespace CodeAtlas.Nearby

open Pattern

variable {fuel : Nat} {c d e : Cursor} {a b s line piece rest name written : List Char}

/-! ## Mentions of a name -/

/-- A space or a tab. -/
def isSpace (c : Char) : Bool := c = ' ' || c = '\t'

/-- What stands between a type and a name: spaces, and perhaps `get` with spaces behind it. -/
def Between (s : List Char) : Prop :=
  ∃ spaces getter, s = spaces ++ getter ∧ spaces ≠ [] ∧ (∀ x ∈ spaces, isSpace x) ∧
    (getter = [] ∨ ∃ more, getter = "get".toList ++ more ∧ more ≠ [] ∧ ∀ x ∈ more, isSpace x)

/-- A mention of a name in a text: `written` stands in front of it on the same line, and `behind`,
which begins with a parenthesis, behind it. -/
def Mention (s name written behind : List Char) : Prop :=
  ∃ lead between blanks rest, s = lead ++ (written ++ (between ++ (name ++ behind))) ∧
    written ≠ [] ∧ '\n' ∉ written ∧ Between between ∧ behind = blanks ++ '(' :: rest ∧
    ∀ x ∈ blanks, Text.isBlank x

/-- What is written in front of a name as a type: without annotations and leading modifiers. -/
def cleaned (written : List Char) : List Char :=
  Text.trim (dropModifiers (Text.trim (metadata.removeAll written)))

/-! ## What may be skipped in front of a type -/

/-- What annotations, `static` and other words end with: a blank, a parenthesis or the name of an
annotation. -/
def Ending (s : List Char) : Prop :=
  (∃ x, s = [x] ∧ (Text.isBlank x ∨ x = ')')) ∨
    ∃ w, s = '@' :: w ∧ w ≠ [] ∧ ∀ x ∈ w, Text.isWord x

/-- Something with such an end stands between two places. -/
def Skipped (c d : Cursor) : Prop :=
  ∃ front tail, Ending tail ∧ c.rest = front ++ (tail ++ d.rest)

theorem Skipped.of_suffix (h : Skipped e d) (before : e.rest <:+ c.rest) : Skipped c d := by
  obtain ⟨front, tail, ending, here⟩ := h
  obtain ⟨lead, there⟩ := before
  exact ⟨lead ++ front, tail, ending, by rw [← there, here, List.append_assoc]⟩

/-- Blanks that are read at least once end in a blank. -/
theorem skipped_of_gap (h : gap.Reaches c d) : Skipped c d := by
  obtain ⟨blanks, rest, some_blanks, here, blank, rfl⟩ := reaches_repeated h
  obtain ⟨front, x, rfl⟩ := (List.eq_nil_or_concat' blanks).resolve_left some_blanks
  refine ⟨front, [x], .inl ⟨x, rfl, .inl (blank x (by simp))⟩, ?_⟩
  rw [here, List.append_assoc]
  rfl

theorem skipped_of_metadata (h : (metadata ++ blanks).Reaches c d) : Skipped c d := by
  obtain ⟨e, annotated, blanked⟩ := h
  obtain ⟨blanks, rest, here, blank, rfl⟩ := reaches_many blanked
  rcases List.eq_nil_or_concat' blanks with rfl | ⟨front, x, rfl⟩
  · obtain ⟨e₁, ⟨e₂, mark, named⟩, arguments⟩ := annotated
    obtain ⟨rest₁, at_mark, rfl⟩ := reaches_char mark
    obtain ⟨w, rest₂, some_word, at_word, word, rfl⟩ := reaches_repeated named
    rcases arguments with ⟨e₃, opened, closed⟩ | rfl
    · obtain ⟨rest₃, at_end, rfl⟩ := reaches_char closed
      have before : e₃.rest <:+ c.rest := by
        have inner : e₃.rest <:+ rest₂ := opened.suffix
        have outer : rest₂ <:+ c.rest := by
          refine ⟨'@' :: w, ?_⟩
          rw [at_mark, show rest₁ = w ++ rest₂ from at_word, List.cons_append]
        exact inner.trans outer
      have last : Skipped e₃ (e₃.past [')'] rest₃) :=
        ⟨[], [')'], .inl ⟨')', rfl, .inr rfl⟩, at_end⟩
      rw [Cursor.past_nil (by exact here)]
      exact last.of_suffix before
    · rw [Cursor.past_nil (by exact here)]
      refine ⟨[], '@' :: w, .inr ⟨w, rfl, some_word, word⟩, ?_⟩
      rw [at_mark, show rest₁ = w ++ rest₂ from at_word]
      rfl
  · have last : Skipped e (e.past (front ++ [x]) rest) := by
      refine ⟨front, [x], .inl ⟨x, rfl, .inl (blank x (by simp))⟩, ?_⟩
      rw [here, List.append_assoc]
      rfl
    exact last.of_suffix annotated.suffix

/-- Of rounds that each skip something, either none is made, or something is skipped. -/
theorem skipped_of_rounds {R : Cursor → Cursor → Prop} (h : Relation.ReflTransGen R c d)
    (suffix : ∀ c d, R c d → d.rest <:+ c.rest) (skip : ∀ c d, R c d → Skipped c d) :
    d = c ∨ Skipped c d := by
  induction h with
  | refl => exact .inl rfl
  | tail before last ih =>
    have start : Skipped _ _ := skip _ _ last
    refine .inr (start.of_suffix ?_)
    clear ih start last
    induction before with
    | refl => exact List.suffix_rfl
    | tail _ last ih => exact (suffix _ _ last).trans ih

/-- What may be skipped in front of a type: annotations, `static` and other words. -/
def lead : Pattern := metadataList ++ opt (word "static" ++ gap) ++ leadingWords

theorem skipped_of_lead (h : lead.Reaches c d) : d = c ∨ Skipped c d := by
  obtain ⟨e₁, ⟨e₂, annotated, static⟩, worded⟩ := h
  have words : d = e₁ ∨ Skipped e₁ d := by
    refine skipped_of_rounds worded (fun _ _ h => h.suffix) fun c d h => ?_
    obtain ⟨e, word, gapped⟩ := h
    exact (skipped_of_gap gapped).of_suffix word.suffix
  have marks : e₂ = c ∨ Skipped c e₂ :=
    skipped_of_rounds annotated (fun _ _ h => h.suffix) fun _ _ h => skipped_of_metadata h
  have before : e₁.rest <:+ c.rest := static.suffix.trans annotated.suffix
  rcases words with rfl | skipped
  · rcases static with ⟨e, word, gapped⟩ | rfl
    · have inner : Skipped e₂ d := (skipped_of_gap gapped).of_suffix word.suffix
      exact .inr (inner.of_suffix annotated.suffix)
    · exact marks
  · exact .inr (skipped.of_suffix before)

/-- What stands behind the words in front of a type: the type as group 2, the name and the
parenthesis. -/
def typedName (name : List Char) : Pattern :=
  group 2 (lazyPlus inLine) ++ plus space ++ opt (word "get" ++ plus space) ++ lit name ++ blanks ++
    char '('

theorem exists_of_typedName (h : (typedName name).Reaches c d) :
    ∃ written between behind blanks rest, d.group 2 = written ∧
      c.rest = written ++ (between ++ (name ++ behind)) ∧ written ≠ [] ∧ '\n' ∉ written ∧
      Between between ∧ behind = blanks ++ '(' :: rest ∧ ∀ x ∈ blanks, Text.isBlank x := by
  obtain ⟨e₁, ⟨e₂, ⟨e₃, ⟨e₄, ⟨e₅, ⟨e₆, typed, rfl⟩, spaced⟩, getting⟩, named⟩, blanked⟩,
    opened⟩ := h
  obtain ⟨written, rest₁, some_text, here, in_line, rfl⟩ := reaches_repeated typed
  obtain ⟨spaces, rest₂, some_spaces, here₂, space, rfl⟩ := reaches_repeated spaced
  obtain ⟨rest₄, here₄, rfl⟩ := reaches_lit named
  obtain ⟨blanks, rest₅, here₅, blank, rfl⟩ := reaches_many blanked
  obtain ⟨rest₆, here₆, rfl⟩ := reaches_char opened
  have captured : ((c.past written rest₁).keep 2 c).group? 2 = some written :=
    Cursor.group?_keep_past here 2
  have one_line : '\n' ∉ written := fun mem => absurd (in_line _ mem) (by decide)
  have behind : rest₄ = blanks ++ '(' :: rest₆ := by
    rw [show rest₄ = blanks ++ rest₅ from here₅, show rest₅ = '(' :: rest₆ from here₆]
  rcases getting with ⟨e, got, spaced'⟩ | rfl
  · obtain ⟨rest₇, here₇, rfl⟩ := reaches_lit got
    obtain ⟨more, rest₈, some_more, here₈, space', rfl⟩ := reaches_repeated spaced'
    refine ⟨written, spaces ++ ("get".toList ++ more), rest₄, blanks, rest₆, ?_, ?_, some_text,
      one_line, ⟨spaces, _, rfl, some_spaces, space, .inr ⟨more, rfl, some_more, space'⟩⟩, behind,
      blank⟩
    · rw [Cursor.group]
      exact congrArg (·.getD []) captured
    · rw [here, show rest₁ = spaces ++ rest₂ from here₂,
        show rest₂ = "get".toList ++ rest₇ from here₇, show rest₇ = more ++ rest₈ from here₈,
        show rest₈ = name ++ rest₄ from here₄]
      simp
  · refine ⟨written, spaces ++ [], rest₄, blanks, rest₆, ?_, ?_, some_text, one_line,
      ⟨spaces, [], rfl, some_spaces, space, .inl rfl⟩, behind, blank⟩
    · rw [Cursor.group]
      exact congrArg (·.getD []) captured
    · rw [here, show rest₁ = spaces ++ rest₂ from here₂, show rest₂ = name ++ rest₄ from here₄,
        List.append_nil]

theorem run_method {α : Type} (k : Cursor → Option α) : run fuel (method name) c k =
    run fuel lead c fun e => run fuel (typedName name) e k := rfl

/-! ## Types that are found -/

/-- A type that is found is written in front of a mention of the name. The match starts at the
leftmost place where one can start, and what it skips in front of the type has such an end as
annotations and words have. -/
theorem exists_of_type? {type : List Char} (h : type? (method name) s = some type) :
    ∃ start skipped written between behind blanks rest,
      s = start ++ (skipped ++ (written ++ (between ++ (name ++ behind)))) ∧
      written ≠ [] ∧ '\n' ∉ written ∧ Between between ∧ behind = blanks ++ '(' :: rest ∧
      (∀ x ∈ blanks, Text.isBlank x) ∧ type = cleaned written ∧ type ≠ [] ∧
      (skipped = [] ∨ ∃ front tail, Ending tail ∧ skipped = front ++ tail) ∧
      ∀ a b, s = a ++ b → a.length < start.length →
        ∃ c, c.rest = b ∧ (method name).matchAt s.length c = none := by
  rw [type?, Option.bind_eq_bind, Option.bind_eq_some_iff] at h
  obtain ⟨⟨start, stop⟩, found, h⟩ := h
  obtain ⟨front, whole, -, matched, leftmost⟩ := exists_of_findFrom found
  rw [matchAt, run_method] at matched
  obtain ⟨e, skipped, matched⟩ := exists_reaches_of_run matched
  obtain ⟨d, reached, ends⟩ := exists_reaches_of_run matched
  obtain rfl := Option.some.inj ends
  obtain ⟨written, between, behind, blanks, rest, captured, here, some_text, one_line, apart,
    opened, blank⟩ := exists_of_typedName reached
  have kept : (if (cleaned written).isEmpty then none else some (cleaned written)) = some type := by
    rw [← captured]
    exact h
  have some_type : (cleaned written).isEmpty = false := by
    by_contra empty
    rw [Bool.not_eq_false] at empty
    rw [if_pos empty] at kept
    cases kept
  rw [some_type, if_neg Bool.false_ne_true] at kept
  obtain rfl := Option.some.inj kept
  have first (a b : List Char) (split : s = a ++ b) (shorter : a.length < front.length) :
      ∃ c, c.rest = b ∧ (method name).matchAt s.length c = none :=
    ⟨_, rfl, leftmost a b split shorter⟩
  have some_cleaned : cleaned written ≠ [] := fun empty => by
    rw [empty] at some_type
    cases some_type
  rcases skipped_of_lead skipped with rfl | ⟨front', tail, ending, before⟩
  · refine ⟨front, [], written, between, behind, blanks, rest, ?_, some_text, one_line, apart,
      opened, blank, rfl, some_cleaned, .inl rfl, first⟩
    rw [List.nil_append, ← here]
    exact whole
  · refine ⟨front, front' ++ tail, written, between, behind, blanks, rest, ?_, some_text, one_line,
      apart, opened, blank, rfl, some_cleaned, .inr ⟨front', tail, ending, rfl⟩, first⟩
    rw [List.append_assoc, ← here, ← before]
    exact whole

/-! ## Declarations without a type -/

/-- Whether a text is made of whole lines. -/
def EndsLine (above : List Char) : Prop := above = [] ∨ ∃ a, above = a ++ ['\n']

/-- What ends a text and has no newline in it ends the last line. -/
theorem exists_of_line {above : List Char} (ends : EndsLine above) (whole : a ++ b = above ++ line)
    (one_line : '\n' ∉ b) : ∃ piece, a = above ++ piece ∧ line = piece ++ b := by
  rcases List.append_eq_append_iff.mp whole with ⟨more, rfl, split⟩ | ⟨more, here, there⟩
  · rcases ends with empty | ⟨lines, last⟩
    · obtain ⟨rfl, rfl⟩ := List.append_eq_nil_iff.mp empty
      exact ⟨[], rfl, split.symm⟩
    · rcases List.eq_nil_or_concat' more with rfl | ⟨more, x, rfl⟩
      · exact ⟨[], by simp, split.symm⟩
      · rw [← List.append_assoc] at last
        obtain ⟨-, same⟩ := List.append_inj' last rfl
        obtain rfl : x = '\n' := by simpa using same
        exact absurd (split ▸ by simp) one_line
  · exact ⟨more, here, there⟩

theorem cleaned_of_blanks (h : ∀ x ∈ written, Text.isBlank x) : cleaned written = [] := by
  have left : ∀ x ∈ metadata.removeAll written, Text.isBlank x := fun x hx =>
    h x (mem_of_mem_leftOver hx)
  have empty : Text.Tight [] := .of_unblank (List.forall_mem_nil _)
  have trimmed : Text.trim (metadata.removeAll written) = [] := Text.trim_append_blanks empty left
  rw [cleaned, trimmed]
  decide

theorem metadata_removeAll (h : '@' ∉ s) : metadata.removeAll s = s := by
  refine removeAll_of_passes (passes_of_first (fun c d reached => ?_) h)
  obtain ⟨e₁, ⟨e₂, mark, -⟩, -⟩ := reached
  obtain ⟨rest, here, -⟩ := reaches_char mark
  rw [here]
  rfl

theorem cleaned_void (h : ∀ x ∈ a, Text.isBlank x) :
    cleaned (a ++ "void".toList) = "void".toList := by
  have unmarked : '@' ∉ a ++ "void".toList := by
    intro mem
    rcases List.mem_append.mp mem with mem | mem
    · exact absurd (h _ mem) (by decide)
    · exact absurd mem (by decide)
  have trimmed : Text.trim (a ++ "void".toList) = "void".toList := by
    rw [Text.trim_blanks_append h]
    decide
  rw [cleaned, metadata_removeAll unmarked, trimmed]
  decide

/-- A declaration without a type, or with `void` in front of its name, can be read from there. -/
theorem isSome_matchAt_void {post : List Char}
    (here : c.rest = "void".toList ++ (' ' :: (name ++ '(' :: post)))
    (room : c.rest.length ≤ fuel) : ((method name).matchAt fuel c).isSome := by
  rw [matchAt, run_method]
  have steady : (typedName name).Steady :=
    ⟨⟨⟨⟨⟨⟨trivial, trivial⟩, trivial, trivial⟩, ⟨steady_lit _, trivial, trivial⟩, trivial⟩,
      steady_lit _⟩, trivial⟩, trivial⟩
  let e₁ := (c.past "void".toList (' ' :: (name ++ '(' :: post))).keep 2 c
  let e₂ := e₁.past [' '] (name ++ '(' :: post)
  let e₃ := e₂.past name ('(' :: post)
  have typed : (group 2 (lazyPlus inLine)).Reaches c e₁ :=
    ⟨_, repeated_reaches false here (by decide) (by decide), rfl⟩
  have spaced : (plus space).Reaches e₁ e₂ :=
    repeated_reaches true rfl (List.cons_ne_nil _ _) (by decide)
  have named : (lit name).Reaches e₂ e₃ := lit_reaches rfl
  have opened : (char '(').Reaches e₃ (e₃.past ['('] post) :=
    ⟨'(', post, rfl, beq_self_eq_true '(', rfl⟩
  have reached : (typedName name).Reaches c (e₃.past ['('] post) :=
    ⟨e₃, ⟨e₃, ⟨e₂, ⟨e₂, ⟨e₁, typed, spaced⟩, .inr rfl⟩, named⟩, .refl⟩, opened⟩
  have accepted : (run fuel (typedName name) c some).isSome := isSome_run steady room reached rfl
  exact isSome_run_many (isSome_run_opt (isSome_run_many accepted))

section Own

variable {above pad void between : List Char}

theorem mem_between {x : Char} (h : Between b) (hx : x ∈ b) : isSpace x ∨ x ∈ "get".toList := by
  obtain ⟨spaces, getter, rfl, -, space, got⟩ := h
  rcases List.mem_append.mp hx with hx | hx
  · exact .inl (space x hx)
  · rcases got with rfl | ⟨more, rfl, -, space'⟩
    · cases hx
    · exact (List.mem_append.mp hx).symm.imp_left (space' x)

theorem not_mem_between {x : Char} (h : Between b) (unspaced : isSpace x = false)
    (other : x ∉ "get".toList) : x ∉ b := fun hx =>
  (mem_between h hx).elim (fun spaced => Bool.false_ne_true (unspaced.symm.trans spaced)) other

theorem between_ne_nil (h : Between b) : b ≠ [] := by
  obtain ⟨spaces, getter, rfl, some_spaces, -⟩ := h
  exact List.append_ne_nil_of_left_ne_nil some_spaces getter

/-- Behind `void` there is one space. -/
theorem void_of_between (apart : Between between)
    (split : (piece ++ written) ++ between = (pad ++ "void".toList) ++ [' ']) :
    piece ++ written = pad ++ "void".toList := by
  rcases List.append_eq_append_iff.mp split with ⟨more, here, there⟩ | ⟨more, here, there⟩
  · rcases List.eq_nil_or_concat' more with rfl | ⟨more, x, rfl⟩
    · rw [here, List.append_nil]
    · -- otherwise the last letter would stand among the spaces
      have letters : (pad ++ "voi".toList) ++ ['d'] = (piece ++ written ++ more) ++ [x] := by
        simpa using here
      obtain ⟨-, same⟩ := List.append_inj' letters rfl
      obtain rfl : 'd' = x := by simpa using same
      have inside : 'd' ∈ between := by rw [there]; simp
      exact absurd inside (not_mem_between apart (by decide) (by decide))
  · cases more with
    | nil => rw [here, List.append_nil]
    | cons x more =>
      have empty : more ++ between = [] := by simpa using (List.cons.inj there).2.symm
      exact absurd (List.append_eq_nil_iff.mp empty).2 (between_ne_nil apart)

theorem isVoid_void : Signature.isVoid "void".toList := by decide +kernel

/-- What is written in front of an untyped name is blank or `void`, unless it begins within
`void`. -/
theorem untyped_of_own (ends : EndsLine above) (blank : ∀ x ∈ pad, Text.isBlank x)
    (voided : void = [] ∨ void = "void ".toList)
    (whole : a ++ (written ++ between) = above ++ (pad ++ void)) (some_text : written ≠ [])
    (one_line : '\n' ∉ written) (apart : Between between) :
    cleaned written = [] ∨ Signature.isVoid (cleaned written) ∨
      ∃ m, m ≠ [] ∧ m <+: "void".toList ∧ void = "void ".toList ∧ a = above ++ (pad ++ m) := by
  have last_line : '\n' ∉ written ++ between := fun mem =>
    (List.mem_append.mp mem).elim one_line (not_mem_between apart (by decide) (by decide))
  obtain ⟨piece, here, split⟩ := exists_of_line ends whole last_line
  rcases voided with rfl | rfl
  · refine .inl (cleaned_of_blanks fun x hx => blank x ?_)
    rw [List.append_nil] at split
    rw [split]
    simp [hx]
  · have regrouped : (piece ++ written) ++ between = (pad ++ "void".toList) ++ [' '] := by
      simpa using split.symm
    have typed := void_of_between apart regrouped
    rcases List.append_eq_append_iff.mp typed with ⟨more, rfl, rfl⟩ | ⟨m, rfl, rest⟩
    · have inner : ∀ x ∈ more, Text.isBlank x := fun x hx => blank x (by simp [hx])
      rw [cleaned_void inner]
      exact .inr (.inl isVoid_void)
    · cases m with
      | nil =>
        have all : written = [] ++ "void".toList := rest.symm
        rw [all, cleaned_void (List.forall_mem_nil _)]
        exact .inr (.inl isVoid_void)
      | cons x m =>
        have within : x :: m <+: "void".toList := ⟨written, rest.symm⟩
        exact .inr (.inr ⟨x :: m, List.cons_ne_nil x m, within, rfl, here⟩)

/-- No end of what is skipped in front of a type lies within `void`. -/
theorem not_ending_within {m front tail : List Char} (ends : EndsLine above)
    (blank : ∀ x ∈ pad, Text.isBlank x) (some_text : m ≠ []) (within : m <+: "void".toList)
    (whole : front ++ tail = above ++ (pad ++ m)) : ¬ Ending tail := by
  have letters : ∀ x ∈ m, Text.isBlank x = false ∧ x ≠ ')' ∧ x ≠ '@' := by
    intro x hx
    have all : ∀ x ∈ "void".toList, Text.isBlank x = false ∧ x ≠ ')' ∧ x ≠ '@' := by decide
    exact all x (within.subset hx)
  rintro (⟨x, rfl, last⟩ | ⟨w, rfl, some_word, word⟩)
  · obtain ⟨m', y, rfl⟩ := (List.eq_nil_or_concat' m).resolve_left some_text
    have regrouped : front ++ [x] = (above ++ (pad ++ m')) ++ [y] := by simpa using whole
    obtain ⟨-, same⟩ := List.append_inj' regrouped rfl
    obtain rfl : x = y := by simpa using same
    obtain ⟨unblank, open_end, -⟩ := letters x (by simp)
    rcases last with blank' | closed
    · exact Bool.false_ne_true (unblank.symm.trans blank')
    · exact open_end closed
  · have one_line : '\n' ∉ '@' :: w := by
      intro mem
      rcases List.mem_cons.mp mem with same | mem
      · exact absurd same (by decide)
      · exact absurd (word _ mem) (by decide)
    obtain ⟨piece, -, split⟩ := exists_of_line ends whole one_line
    have unmarked : '@' ∉ m := fun mem => (letters '@' mem).2.2 rfl
    rcases List.append_eq_append_iff.mp split with ⟨more, -, rest⟩ | ⟨more, rfl, rest⟩
    · exact unmarked (by rw [rest]; simp)
    · cases more with
      | nil => exact unmarked (by rw [← show '@' :: w = m from rest]; simp)
      | cons y more =>
        obtain ⟨rfl, -⟩ := List.cons.inj rest
        exact absurd (blank '@' (by simp)) (by decide)

/-- The return type that is found for a declaration without one is written in front of another
mention of the name. -/
theorem mention_of_returnType? {post type : List Char} (ends : EndsLine above)
    (blank : ∀ x ∈ pad, Text.isBlank x) (voided : void = [] ∨ void = "void ".toList)
    (h : returnType? (above ++ (pad ++ (void ++ (name ++ '(' :: post)))) name = some type) :
    ∃ written behind,
      Mention (above ++ (pad ++ (void ++ (name ++ '(' :: post)))) name written behind ∧
      behind ≠ '(' :: post ∧ type = cleaned written := by
  generalize text : above ++ (pad ++ (void ++ (name ++ '(' :: post))) = s at h
  rw [returnType?, Option.bind_eq_bind, Option.bind_eq_some_iff] at h
  obtain ⟨type', found, kept⟩ := h
  have proper : Signature.isVoid type' = false := by
    by_contra is_void
    rw [Bool.not_eq_false] at is_void
    rw [if_pos is_void] at kept
    cases kept
  rw [proper, if_neg Bool.false_ne_true] at kept
  obtain rfl := Option.some.inj kept
  obtain ⟨start, skipped, written, between, behind, blanks, rest, whole, some_text, one_line, apart,
    opened, blank', rfl, some_type, skipping, leftmost⟩ := exists_of_type? found
  refine ⟨written, behind, ⟨start ++ skipped, between, blanks, rest, ?_, some_text, one_line, apart,
    opened, blank'⟩, ?_, rfl⟩
  · rw [whole, List.append_assoc]
  · -- the mention is not the declaration itself
    rintro rfl
    have own : (start ++ skipped) ++ (written ++ between) = above ++ (pad ++ void) := by
      have same : ((start ++ skipped) ++ (written ++ between)) ++ (name ++ '(' :: post) =
          (above ++ (pad ++ void)) ++ (name ++ '(' :: post) := by
        simpa using (text.trans whole).symm
      exact List.append_cancel_right same
    rcases untyped_of_own ends blank voided own some_text one_line apart with
      empty | is_void | ⟨m, some_m, within, rfl, split⟩
    · exact some_type empty
    · rw [proper] at is_void
      cases is_void
    · rcases skipping with rfl | ⟨front, tail, ending, rfl⟩
      · -- a match starts at `void`, farther to the left
        rw [List.append_nil] at split
        have farther : (above ++ pad).length < start.length := by
          have := List.length_pos_iff.mpr some_m
          simp only [split, List.length_append]
          omega
        have left : s = (above ++ pad) ++ ("void".toList ++ (' ' :: (name ++ '(' :: post))) := by
          rw [← text]
          simp
        obtain ⟨c, here, refused⟩ := leftmost _ _ left farther
        have room : c.rest.length ≤ s.length := by
          rw [here, left]
          exact (List.suffix_append _ _).length_le
        have matched := isSome_matchAt_void here room
        rw [refused] at matched
        cases matched
      · rw [← List.append_assoc] at split
        exact not_ending_within ends blank some_m within split ending

end Own

end CodeAtlas.Nearby

namespace CodeAtlas.Enrichment

open Nearby (EndsLine Mention cleaned)

variable {scope : Scope} {s : Symbol} {r : Resolver} {selection : Range} {type : String}
  {pad void post : List Char}

/-- The last of the lines above a place is the line of the place. -/
theorem exists_linesAbove {line : List Char}
    (h : (Text.lines scope.text.toList)[selection.start.line.toNat]? = some line) :
    ∃ above, EndsLine above ∧ linesAbove scope selection.start = above ++ line := by
  let lines := Text.lines scope.text.toList
  let first := selection.start.line.toNat - scope.config.limits.window
  let earlier := (lines.drop first).take (selection.start.line.toNat - first)
  have window : (lines.drop first).take (selection.start.line.toNat + 1 - first) =
      earlier ++ [line] := by
    have count : selection.start.line.toNat + 1 - first =
        selection.start.line.toNat - first + 1 := by
      omega
    have last : (lines.drop first)[selection.start.line.toNat - first]? = some line := by
      rw [List.getElem?_drop, ← h]
      congr 1
      omega
    rw [count, List.take_add_one, last]
    rfl
  refine ⟨if earlier.isEmpty then [] else Text.joinWith ['\n'] earlier ++ ['\n'], ?_, ?_⟩
  · split
    · exact .inl rfl
    · exact .inr ⟨_, rfl⟩
  · rw [← Text.joinWith_concat, ← window]
    rfl

theorem returnType?_of_nearby (callable : s.kind.isMethodOrFunction) (missing : s.returnType = none)
    (placed : s.selection = some selection)
    (h : (nearby scope s r).1.returnType = some type) :
    Nearby.returnType? (linesAbove scope selection.start) s.name.toList = some type.toList := by
  have other : s.kind.isFieldLike = false := by
    cases hk : s.kind <;> simp_all [SymbolKind.isMethodOrFunction, SymbolKind.isFieldLike]
  rw [nearby, placed] at h
  dsimp only at h
  rw [other, if_neg Bool.false_ne_true] at h
  cases found : Nearby.returnType? (linesAbove scope selection.start) s.name.toList with
  | none =>
    rw [found] at h
    have untouched : s.returnType = some type := h
    rw [missing] at untouched
    cases untouched
  | some read =>
    rw [found] at h
    have recorded : some (String.ofList read) = some type := h
    rw [← Option.some.inj recorded, String.toList_ofList]

/-- If the declaration of a method or function has nothing but blanks or `void` in front of the
name, a return type that is recorded from the lines above is written in front of another mention of
the name there. So without another mention none is recorded. -/
theorem recorded_type_stands_elsewhere (callable : s.kind.isMethodOrFunction)
    (missing : s.returnType = none) (placed : s.selection = some selection)
    (declared : (Text.lines scope.text.toList)[selection.start.line.toNat]? =
      some (pad ++ (void ++ (s.name.toList ++ '(' :: post))))
    (blank : ∀ x ∈ pad, Text.isBlank x) (voided : void = [] ∨ void = "void ".toList)
    (h : (nearby scope s r).1.returnType = some type) :
    ∃ written behind, Mention (linesAbove scope selection.start) s.name.toList written behind ∧
      behind ≠ '(' :: post ∧ type = String.ofList (cleaned written) := by
  obtain ⟨above, ends, lines⟩ := exists_linesAbove declared
  have found := returnType?_of_nearby callable missing placed h
  rw [lines] at found ⊢
  obtain ⟨written, behind, mention, another, same⟩ :=
    Nearby.mention_of_returnType? ends blank voided found
  exact ⟨written, behind, mention, another, by rw [← same, String.ofList_toList]⟩

/-- A class with an untyped method that is called in the lines above it. -/
def callAbove : Scope where
  config := {}
  relations := {}
  text := "class A \x7b\n  int boot() \x7b\n    return load();\n  \x7d\n  load() \x7b\x7d\n\x7d\n"

/-- The method that is called there. -/
def untypedLoad : Symbol :=
  { Symbol.ofName "load" .method "lib/a.dart" with selection := some ⟨⟨4, 2⟩, ⟨4, 6⟩⟩ }

/-- What is recorded for the method stands in front of the call. -/
theorem recorded_type_stands_elsewhere_load :
    ((Text.lines callAbove.text.toList)[4]? =
        some ("  ".toList ++ ([] ++ ("load".toList ++ '(' :: ") \x7b\x7d".toList))) ∧
      (nearby callAbove untypedLoad {}).1.returnType = some "return") ∧
    ∃ written behind, Mention (linesAbove callAbove ⟨4, 2⟩) "load".toList written behind ∧
      behind ≠ "() \x7b\x7d".toList ∧ "return" = String.ofList (cleaned written) := by
  have declared : (Text.lines callAbove.text.toList)[4]? =
      some ("  ".toList ++ ([] ++ ("load".toList ++ '(' :: ") \x7b\x7d".toList))) := by
    decide +kernel
  have recorded : (nearby callAbove untypedLoad {}).1.returnType = some "return" := by
    decide +kernel
  have callable : untypedLoad.kind.isMethodOrFunction := rfl
  have missing : untypedLoad.returnType = none := rfl
  have placed : untypedLoad.selection = some ⟨⟨4, 2⟩, ⟨4, 6⟩⟩ := rfl
  have blank : ∀ x ∈ "  ".toList, Text.isBlank x := by decide
  exact ⟨⟨declared, recorded⟩, recorded_type_stands_elsewhere callable missing placed declared blank
    (.inl rfl) recorded⟩

/-- An untyped method takes what stands in front of a call in the lines above for its type. -/
theorem call_read_as_declaration :
    untypedLoad.kind = .method ∧ untypedLoad.returnType = none ∧
      (Text.lines callAbove.text.toList)[4]? = some "  load() \x7b\x7d".toList ∧
      (nearby callAbove untypedLoad {}).1.returnType = some "return" := by
  decide +kernel

end CodeAtlas.Enrichment
