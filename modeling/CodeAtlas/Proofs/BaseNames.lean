import CodeAtlas.Proofs.Cutting
import CodeAtlas.Proofs.TypeExpressions
import CodeAtlas.TypeName
import Mathlib.Data.List.Infix

/-!
What the base name of a type is. A plain name is its own base name (`base_of_plain`). Of an
expression the search takes the last name, with as many brackets removed in front of it as the
words at the start of the expression open: so it finds a name exactly if these are enough and the
last name stands apart (`TypeExpression.Unwraps`), and keeps a bracket otherwise
(`base_of_expression`).
-/
namespace CodeAtlas
namespace TypeName

open TypeExpression
open Parameters (isNameChar Begins)

variable {a b s w inner name : List Char} {c : Char}

/-! ## Names and arguments -/

/-- A name of one word, without type arguments, a library prefix or a question mark. -/
structure Plain (name : List Char) : Prop where
  no_arguments : '<' ∉ name
  no_prefix : '.' ∉ name
  no_mark : '?' ∉ name
  one_word : ' ' ∉ Text.trim name

theorem required_of_no_mark {name : List Char} (h : '?' ∉ name) :
    required name = Text.trim name :=
  if_neg fun mark => h (Text.mem_of_mem_trim (List.mem_of_getLast? mark))

theorem base_of_no_arguments (h : arguments? (required name) = none) :
    base name = lastWord (required name) := by
  rw [base]
  split
  · rfl
  · rename_i given
    rw [h] at given
    cases given

/-- A plain name is its own base name. -/
theorem base_of_plain {name : List Char} (h : Plain name) : base name = bare name := by
  have required := required_of_no_mark h.no_mark
  have no_arguments : arguments? (TypeName.required name) = none := by
    have no_bracket : '<' ∉ Text.trim name := fun bracket =>
      h.no_arguments (Text.mem_of_mem_trim bracket)
    rw [required, arguments?, Text.splitFirst_of_not_mem no_bracket]
  have no_point : '.' ∉ Text.trim name := fun point => h.no_prefix (Text.mem_of_mem_trim point)
  rw [base_of_no_arguments no_arguments, required, lastWord, Text.afterLast_of_not_mem no_point,
    Text.afterLast_of_not_mem h.one_word, bare, Text.beforeFirst_of_not_mem h.no_arguments]

/-- A name with type arguments has the base name of these. -/
theorem base_of_arguments {name inner : List Char} (h : arguments? (required name) = some inner)
    (named : base inner ≠ []) : base name = base inner := by
  rw [base]
  split
  · rename_i missing
    rw [missing] at h
    cases h
  · rename_i given
    obtain rfl := Option.some.inj (h.symm.trans given)
    exact if_neg fun empty => named (List.isEmpty_iff.mp empty)

/-! ## Last words -/

theorem afterLast_append (h : c ∉ w) : Text.afterLast c (a ++ w) = Text.afterLast c a ++ w := by
  have free : ∀ x ∈ w.reverse, decide (x ≠ c) = true := fun x hx =>
    decide_eq_true fun same => h (same ▸ List.mem_reverse.mp hx)
  rw [Text.afterLast, Text.afterLast, List.reverse_append, List.takeWhile_append_of_pos free,
    List.reverse_append, List.reverse_reverse]

theorem afterLast_concat : Text.afterLast c (a ++ [c]) = [] := by
  simp [Text.afterLast]

/-- A last word goes on through what has no point and no space. -/
theorem lastWord_append (point : '.' ∉ w) (space : ' ' ∉ w) :
    lastWord (a ++ w) = lastWord a ++ w := by
  rw [lastWord, lastWord, afterLast_append point, afterLast_append space]

theorem lastWord_point : lastWord (a ++ ['.']) = [] := by
  rw [lastWord, afterLast_concat]
  rfl

theorem lastWord_space : lastWord (a ++ [' ']) = [] := by
  rw [lastWord, afterLast_append (by decide), afterLast_concat]

theorem bracket_mem_lastWord : '>' ∈ lastWord (a ++ ['>']) := by
  rw [lastWord_append (by decide) (by decide)]
  exact List.mem_append_right _ List.mem_cons_self

/-! ## Wrappers -/

/-- A character that no name in front of type arguments can have. -/
def Obstacle (c : Char) : Prop := c ≠ '<' ∧ Text.isWord c = false ∧ Text.isBlank c = false

instance (c : Char) : Decidable (Obstacle c) := inferInstanceAs (Decidable (_ ∧ _ ∧ _))

theorem arguments?_of_obstacle (obstacle : Obstacle c) (h : '<' ∉ a) :
    arguments? (a ++ c :: b) = none := by
  cases cut : Text.splitFirst '<' (a ++ c :: b) with
  | none => rw [arguments?, cut]
  | some parts =>
    obtain ⟨head, rest⟩ := parts
    have whole := Text.eq_append_of_splitFirst cut
    obtain ⟨more, rfl, behind⟩ := Text.exists_of_piece_before whole.symm h
    -- the obstacle stands in front of the bracket
    cases more with
    | nil => exact absurd (List.cons.inj behind).1 obstacle.1
    | cons x more =>
      obtain ⟨rfl, -⟩ := List.cons.inj behind
      rw [arguments?, cut]
      simp [obstacle.2.1, obstacle.2.2]

theorem arguments?_of_last (h : s.getLast? ≠ some '>') : arguments? s = none := by
  cases cut : Text.splitFirst '<' s with
  | none => rw [arguments?, cut]
  | some parts =>
    obtain ⟨head, rest⟩ := parts
    have last : rest.getLast? ≠ some '>' := by
      intro last
      refine h ?_
      have some_rest : rest ≠ [] := by
        rintro rfl
        cases last
      rw [Text.eq_append_of_splitFirst cut, List.getLast?_append_of_ne_nil _ (List.cons_ne_nil _ _),
        List.getLast?_cons_of_ne_nil some_rest, last]
    rw [arguments?, cut]
    simp [last]

/-- What stands between the brackets behind a word is the arguments. -/
theorem arguments?_wrapped (word : ∀ x ∈ a, Text.isWord x) (some_word : a ≠ [])
    (some_inner : inner ≠ []) (one_line : '\n' ∉ inner) :
    arguments? (a ++ '<' :: (inner ++ ['>'])) = some inner := by
  have unopened : '<' ∉ a := fun h => absurd (word _ h) (by decide)
  have letters : a.all (fun x => Text.isWord x || Text.isBlank x) := by
    rw [List.all_eq_true]
    intro x hx
    rw [word x hx, Bool.true_or]
  rw [arguments?, Text.splitFirst_append unopened]
  simp [List.isEmpty_eq_false_iff.mpr some_word, letters, some_inner, one_line]

theorem isWord_of_isNameChar {c : Char} (h : isNameChar c) (other : c ≠ '$') : Text.isWord c := by
  have part := Parameters.isIdentPart_of_isNameChar h
  rw [Text.isIdentPart, Bool.or_eq_true, beq_iff_eq] at part
  exact part.resolve_right other

/-- A wrapper leads to what it wraps. -/
theorem base_wrapped {name : Identifier} (word : '$' ∉ name.text) (one_line : '\n' ∉ inner)
    (some_inner : inner ≠ []) (found : base inner ≠ [])
    (given : required s = name.text ++ '<' :: (inner ++ ['>'])) : base s = base inner := by
  have letters : ∀ x ∈ name.text, Text.isWord x := fun x hx =>
    isWord_of_isNameChar (name.isNameChar_of_mem x hx) fun same => word (same ▸ hx)
  refine base_of_arguments ?_ found
  rw [given]
  exact arguments?_wrapped letters name.text_ne_nil some_inner one_line

end TypeName

/-! ## How an expression begins and ends -/

namespace TypeExpression

mutual

/-- The names of the types in an expression. -/
def names : TypeExpression → List Identifier
  | ⟨_, name, arguments, _⟩ => name :: namesOf arguments

def namesOf : List TypeExpression → List Identifier
  | [] => []
  | t :: rest => t.names ++ namesOf rest

end

/-- How an expression ends: its last name and what is around it. -/
structure Ending where
  name : Identifier
  /-- Whether a point or a space stands before the name. -/
  apart : Bool
  /-- The brackets that are closed behind the name. -/
  closed : Nat := 0

def Ending.close (e : Ending) : Ending := { e with closed := e.closed + 1 }

mutual

/-- How an expression ends that stands behind a space or not. -/
def ending (spaced : Bool) : TypeExpression → Ending
  | ⟨library, name, arguments, _⟩ =>
    endingOf { name, apart := library.isSome || spaced } false arguments

/-- The last of some arguments gives the ending, if there are any. -/
def endingOf (found : Ending) (spaced : Bool) : List TypeExpression → Ending
  | [] => found
  | t :: rest => endingOf (t.ending spaced).close true rest

end

/-- Whether a name in front of arguments is a plain word: no library and no dollar sign. -/
def isWord (library : Option Identifier) (name : Identifier) : Bool :=
  library.isNone && !name.text.contains '$'

mutual

/-- The brackets that plain words open at the start of an expression. -/
def opened : TypeExpression → Nat
  | ⟨library, name, arguments, _⟩ => if isWord library name then openedBy arguments else 0

def openedBy : List TypeExpression → Nat
  | [] => 0
  | t :: _ => t.opened + 1

end

/-- Whether every list of arguments, one in the other, has a single member. -/
def isChain : TypeExpression → Bool
  | ⟨_, _, [], _⟩ => true
  | ⟨_, _, [t], _⟩ => t.isChain
  | _ => false

/-- Whether the brackets closed at the end are opened by plain words at the start, and the last name
is all that is left between them. -/
def Unwraps (t : TypeExpression) : Prop :=
  (t.ending false).closed ≤ t.opened ∧ (t.isChain ∨ (t.ending false).apart)

instance (t : TypeExpression) : Decidable t.Unwraps := inferInstanceAs (Decidable (_ ∧ _))

theorem endingOf_concat (found : Ending) (spaced : Bool) (init : List TypeExpression)
    (t : TypeExpression) :
    endingOf found spaced (init ++ [t]) = (t.ending (spaced || !init.isEmpty)).close := by
  induction init generalizing found spaced with
  | nil => simp [endingOf]
  | cons u init ih => simp [endingOf, ih]

theorem mem_namesOf {t : TypeExpression} {ts : List TypeExpression} {n : Identifier} (h : t ∈ ts)
    (hn : n ∈ t.names) : n ∈ namesOf ts := by
  induction ts with
  | nil => cases h
  | cons u ts ih =>
    rw [namesOf, List.mem_append]
    rcases List.mem_cons.mp h with rfl | h
    · exact .inl hn
    · exact .inr (ih h)

theorem ending_mem_names (t : TypeExpression) (spaced : Bool) :
    (t.ending spaced).name ∈ t.names := by
  induction t using induct generalizing spaced with
  | step library name arguments nullable ih =>
    rcases List.eq_nil_or_concat' arguments with rfl | ⟨init, last, rfl⟩
    · exact List.mem_cons_self
    · have inside : last ∈ init ++ [last] := List.mem_append_right _ List.mem_cons_self
      rw [ending, endingOf_concat, names]
      exact List.mem_cons_of_mem _ (mem_namesOf inside (ih last inside _))

theorem arguments_of_closed {t : TypeExpression} {spaced : Bool}
    (h : (t.ending spaced).closed = 0) : t.arguments = [] := by
  obtain ⟨library, name, arguments, nullable⟩ := t
  rcases List.eq_nil_or_concat' arguments with rfl | ⟨init, last, rfl⟩
  · rfl
  · rw [ending, endingOf_concat] at h
    cases h

theorem isWord_iff {library : Option Identifier} {name : Identifier} :
    isWord library name ↔ library = none ∧ '$' ∉ name.text := by
  simp [isWord]

theorem exists_of_opened {t : TypeExpression} (h : t.opened ≠ 0) :
    ∃ name u rest nullable, t = ⟨none, name, u :: rest, nullable⟩ ∧ '$' ∉ name.text ∧
      t.opened = u.opened + 1 := by
  obtain ⟨library, name, arguments, nullable⟩ := t
  rw [opened] at h ⊢
  split at h
  · rename_i word
    rw [if_pos word]
    obtain ⟨rfl, plain⟩ := isWord_iff.mp word
    cases arguments with
    | nil => exact absurd rfl h
    | cons u rest => exact ⟨name, u, rest, nullable, rfl, plain, rfl⟩
  · exact absurd rfl h

theorem core_leaf {t : TypeExpression} (h : t.arguments = []) :
    t.core = libraryText t.library ++ t.name.text := by
  rw [core, h, argumentText, List.append_nil]

theorem one_line (t : TypeExpression) : '\n' ∉ t.text := t.not_mem_text (by decide)

end TypeExpression

namespace TypeName

open TypeExpression
open Parameters (Begins)

variable {s : List Char}

/-! ## Question marks -/

theorem required_text (lead : List Char) (t : TypeExpression)
    (unblank : ∀ c ∈ (lead ++ t.text).head?, Text.isBlank c = false) :
    required (lead ++ t.text) = lead ++ t.core := by
  have tight : Text.Tight (lead ++ t.text) := by
    refine ⟨unblank, ?_⟩
    rw [List.getLast?_append_of_ne_nil _ t.text_ne_nil]
    exact t.tight.last
  rw [required, tight.trim_eq, text_eq_core]
  cases t.nullable with
  | true =>
    rw [questionText, if_pos rfl, ← List.append_assoc, List.getLast?_concat, if_pos rfl,
      List.dropLast_concat]
  | false =>
    obtain ⟨front, c, ends, last⟩ := core_last t
    have no_question : some c ≠ some '?' := by
      rw [Ne, Option.some.injEq]
      rcases last with letter | rfl
      · exact Parameters.ne_of_isNameChar letter (by decide)
      · decide
    rw [questionText, if_neg Bool.false_ne_true, List.append_nil, ends, ← List.append_assoc,
      List.getLast?_concat, if_neg no_question]

theorem required_expression (t : TypeExpression) : required t.text = t.core := by
  refine required_text [] t ?_
  simpa using (t.begins : Begins (t.text ++ [])).unblank

theorem mem_of_mem_required {c : Char} (h : c ∈ required s) : c ∈ s := by
  rw [required] at h
  split at h
  · exact Text.mem_of_mem_trim (List.mem_of_mem_dropLast h)
  · exact Text.mem_of_mem_trim h

/-! ## What a search finds -/

/-- A search that finds the name if it can, and otherwise a text with a bracket in it. -/
def Finds (name : Identifier) (can : Prop) (found : List Char) : Prop :=
  (can → found = name.text) ∧ (¬ can → '<' ∈ found ∨ '>' ∈ found)

namespace Finds

variable {name : Identifier} {can can' : Prop} {found : List Char}

theorem ne_nil (h : Finds name can found) : found ≠ [] := by
  rintro rfl
  by_cases able : can
  · exact name.text_ne_nil (h.1 able).symm
  · rcases h.2 able with bracket | bracket <;> cases bracket

theorem congr (h : Finds name can found) (same : can' ↔ can) : Finds name can' found :=
  ⟨fun able => h.1 (same.mp able), fun unable => h.2 (mt same.mpr unable)⟩

theorem of_bracket (bracket : '>' ∈ found) (unable : ¬ can) : Finds name can found :=
  ⟨fun able => absurd able unable, fun _ => .inr bracket⟩

end Finds

theorem lastWord_name (lead : List Char) (library : Option Identifier) (name : Identifier)
    (spaced : Bool) : Finds name (library.isSome || spaced)
      (lastWord (lead ++ separator spaced :: (libraryText library ++ name.text))) := by
  have point : '.' ∉ name.text := name.not_mem (by decide)
  have space : ' ' ∉ name.text := name.not_mem (by decide)
  cases library with
  | some library =>
    have split : lead ++ separator spaced :: (libraryText (some library) ++ name.text) =
        lead ++ separator spaced :: library.text ++ ['.'] ++ name.text := by simp [libraryText]
    refine ⟨fun _ => ?_, fun no => absurd rfl no⟩
    rw [split, lastWord_append point space, lastWord_point, List.nil_append]
  | none =>
    have split : lead ++ separator spaced :: (libraryText none ++ name.text) =
        lead ++ [separator spaced] ++ name.text := by simp [libraryText]
    rw [split, lastWord_append point space]
    cases spaced with
    | true =>
      refine ⟨fun _ => ?_, fun no => absurd rfl no⟩
      rw [separator, if_pos rfl, lastWord_space, List.nil_append]
    | false =>
      refine ⟨fun prefixed => absurd prefixed Bool.false_ne_true, fun _ => .inl ?_⟩
      rw [separator, if_neg Bool.false_ne_true, lastWord_append (by decide) (by decide)]
      simp

/-! ## Expressions that are no wrappers -/

/-- A name that is no plain word is an obstacle to what stands behind it. -/
theorem exists_obstacle_of_not_isWord {library : Option Identifier} {name : Identifier}
    (h : isWord library name = false) (rest : List Char) :
    ∃ lead m behind, libraryText library ++ (name.text ++ rest) = lead ++ m :: behind ∧
      Obstacle m ∧ '<' ∉ lead := by
  cases library with
  | some library =>
    refine ⟨library.text, '.', name.text ++ rest, ?_, by decide, library.not_mem (by decide)⟩
    rw [libraryText, List.append_assoc]
    rfl
  | none =>
    have dollar : '$' ∈ name.text := by
      by_contra dollar
      exact Bool.false_ne_true (h.symm.trans (isWord_iff.mpr ⟨rfl, dollar⟩))
    obtain ⟨front, behind, split⟩ := List.append_of_mem dollar
    have unopened : '<' ∉ front := by
      intro bracket
      refine name.not_mem (m := '<') (by decide) ?_
      rw [split]
      exact List.mem_append_left _ bracket
    refine ⟨front, '$', behind ++ rest, ?_, by decide, unopened⟩
    rw [libraryText, split, List.nil_append, List.append_assoc]
    rfl

/-- An expression that opens no bracket is an obstacle, with what stands behind it. -/
theorem exists_obstacle {t : TypeExpression} (h : t.opened = 0) (rest : List Char) {c : Char}
    (obstacle : Obstacle c) :
    ∃ lead m behind, t.text ++ c :: rest = lead ++ m :: behind ∧ Obstacle m ∧ '<' ∉ lead := by
  obtain ⟨library, name, arguments, nullable⟩ := t
  cases word : isWord library name with
  | false =>
    simp only [text, List.append_assoc]
    exact exists_obstacle_of_not_isWord word _
  | true =>
    obtain ⟨rfl, -⟩ := isWord_iff.mp word
    have unopened : '<' ∉ name.text := name.not_mem (by decide)
    cases arguments with
    | cons t others => simp [opened, word, openedBy] at h
    | nil =>
      cases nullable with
      | false =>
        refine ⟨name.text, c, rest, ?_, obstacle, unopened⟩
        simp [text, libraryText, argumentText, questionText]
      | true =>
        refine ⟨name.text, '?', c :: rest, ?_, by decide, unopened⟩
        simp [text, libraryText, argumentText, questionText]

/-- A text that begins with such a character. -/
def Blocked (s : List Char) : Prop := ∃ c rest, s = c :: rest ∧ Obstacle c

theorem Blocked.append {a : List Char} (h : Blocked a) (b : List Char) : Blocked (a ++ b) := by
  obtain ⟨c, rest, rfl, obstacle⟩ := h
  exact ⟨c, rest ++ b, rfl, obstacle⟩

theorem blocked_comma (s : List Char) : Blocked (',' :: s) := ⟨',', s, rfl, by decide⟩

theorem blocked_furtherText (ts : List TypeExpression) : Blocked (furtherText ts) := by
  cases ts with
  | nil => exact ⟨'>', [], rfl, by decide⟩
  | cons t ts => exact blocked_comma (' ' :: (t.text ++ furtherText ts))

/-- The bracket at the end of a text stays if there is an obstacle in front of the first one. -/
theorem bracket_mem_base_of_obstacle {init lead behind : List Char} {m : Char} (hm : Obstacle m)
    (free : '<' ∉ lead) (split : init ++ ['>'] = lead ++ m :: behind)
    (given : required s = init ++ ['>']) : '>' ∈ base s := by
  have no_arguments : arguments? (required s) = none := by
    rw [given, split]
    exact arguments?_of_obstacle hm free
  rw [base_of_no_arguments no_arguments, given]
  exact bracket_mem_lastWord

/-! ## Unwrapping -/

theorem arguments?_leaf {t : TypeExpression} (h : t.arguments = []) (lead : List Char) :
    arguments? (lead ++ t.core) = none := by
  refine arguments?_of_last fun last => ?_
  rw [core_leaf h, ← List.append_assoc, List.getLast?_append_of_ne_nil _ t.name.text_ne_nil] at last
  exact t.name.not_mem (by decide) (List.mem_of_getLast? last)

theorem base_single {t : TypeExpression} (h : t.arguments = []) : base t.text = t.name.text := by
  have point : '.' ∉ t.name.text := t.name.not_mem (by decide)
  have space : ' ' ∉ t.name.text := t.name.not_mem (by decide)
  have no_arguments : arguments? (required t.text) = none := by
    rw [required_expression]
    exact arguments?_leaf h []
  rw [base_of_no_arguments no_arguments, required_expression, core_leaf h,
    lastWord_append point space]
  cases t.library with
  | none => rfl
  | some library => rw [libraryText, lastWord_point, List.nil_append]

/-- Without arguments at its end a text is searched for its last word. -/
theorem base_leaf {y : TypeExpression} {lead : List Char} {spaced : Bool} (h : y.arguments = [])
    (begins : Begins (lead ++ separator spaced :: y.text)) :
    Finds y.name (y.library.isSome || spaced) (base (lead ++ separator spaced :: y.text)) := by
  have split (s : List Char) :
      lead ++ separator spaced :: s = lead ++ [separator spaced] ++ s := by simp
  rw [split] at begins ⊢
  have without := required_text (lead ++ [separator spaced]) y begins.unblank
  have no_arguments : arguments? (required (lead ++ [separator spaced] ++ y.text)) = none := by
    rw [without, arguments?_leaf h]
  rw [base_of_no_arguments no_arguments, without, core_leaf h, ← split]
  exact lastWord_name lead y.library y.name spaced

/-- The bracket at the end of a text stays if none is opened at its start. -/
theorem bracket_mem_base {x : TypeExpression} {s r : List Char} (h : x.opened = 0)
    (blocked : Blocked r) (given : required s = x.text ++ (r ++ ['>'])) : '>' ∈ base s := by
  obtain ⟨c, rest, rfl, obstacle⟩ := blocked
  obtain ⟨lead, m, behind, split, hm, free⟩ := exists_obstacle h (rest ++ ['>']) obstacle
  have kept : x.text ++ c :: rest ++ ['>'] = lead ++ m :: behind := by
    rw [← split, List.append_assoc, List.cons_append]
  refine bracket_mem_base_of_obstacle hm free kept ?_
  rw [given, List.append_assoc]

/-- The last argument stands behind all that stands before its type. -/
theorem required_last {library : Option Identifier} {name : Identifier} {nullable spaced : Bool}
    {x z : TypeExpression} {init : List TypeExpression} {between lead : List Char}
    (inside : argumentText (init ++ [z]) =
      lead ++ separator (!init.isEmpty) :: (z.text ++ ['>'])) :
    required (x.text ++ (between ++ separator spaced ::
        (mk library name (init ++ [z]) nullable).text)) =
      x.text ++ (between ++ separator spaced :: (libraryText library ++ (name.text ++ lead)) ++
        separator (!init.isEmpty) :: z.text ++ ['>']) := by
  have unblank := (x.begins : Begins (x.text ++ (between ++ separator spaced ::
    (mk library name (init ++ [z]) nullable).text))).unblank
  have stripped := required_text (x.text ++ (between ++ [separator spaced]))
    (mk library name (init ++ [z]) nullable) (by simpa using unblank)
  simpa [core, inside] using stripped

/-- A type at the start of a text and one at its end are unwrapped together, as long as the first
opens brackets. -/
theorem base_between {n : Nat} {x y : TypeExpression} {between : List Char} {spaced : Bool}
    (closed : (y.ending spaced).closed = n) (blocked : Blocked between)
    (line : '\n' ∉ x.text ++ (between ++ separator spaced :: y.text)) :
    Finds (y.ending spaced).name (n ≤ x.opened ∧ (y.ending spaced).apart)
      (base (x.text ++ (between ++ separator spaced :: y.text))) := by
  induction n generalizing x y between spaced with
  | zero =>
    have leaf := arguments_of_closed closed
    have found : Finds y.name (y.library.isSome || spaced)
        (base (x.text ++ between ++ separator spaced :: y.text)) :=
      base_leaf leaf (by rw [List.append_assoc]; exact x.begins)
    rw [List.append_assoc] at found
    obtain ⟨library, name, arguments, nullable⟩ := y
    obtain rfl : arguments = [] := leaf
    exact found.congr ⟨fun h => h.2, fun h => ⟨Nat.zero_le _, h⟩⟩
  | succ n ih =>
    obtain ⟨library, name, arguments, nullable⟩ := y
    rcases List.eq_nil_or_concat' arguments with rfl | ⟨init, z, rfl⟩
    · cases closed
    obtain ⟨lead, inside⟩ := argumentText_concat init z
    rw [ending, endingOf_concat] at closed ⊢
    generalize whole : x.text ++ (between ++ separator spaced ::
      (mk library name (init ++ [z]) nullable).text) = s at line ⊢
    let before := between ++ separator spaced :: (libraryText library ++ (name.text ++ lead))
    have given : required s =
        x.text ++ (before ++ separator (!init.isEmpty) :: z.text ++ ['>']) :=
      whole ▸ required_last inside
    by_cases none_opened : x.opened = 0
    · have bracket := bracket_mem_base none_opened ((blocked.append _).append _) given
      exact .of_bracket bracket (by omega)
    · obtain ⟨word, u, others, mark, rfl, plain, opened⟩ := exists_of_opened none_opened
      let inner := u.text ++ (furtherText others ++ (questionText mark ++ before) ++
        separator (!init.isEmpty) :: z.text)
      have wrapped : required s = word.text ++ '<' :: (inner ++ ['>']) := by
        rw [given]
        simp [inner, text, libraryText, argumentText]
      have inner_line : '\n' ∉ inner := fun h =>
        line (mem_of_mem_required (wrapped ▸ by simp [h]))
      have found := ih (Nat.succ.inj closed) ((blocked_furtherText others).append _) inner_line
      have some_inner : inner ≠ [] := u.begins.ne_nil
      rw [base_wrapped plain inner_line some_inner found.ne_nil wrapped]
      exact found.congr (by simp [Ending.close, opened])

/-- A word applied to types leads to these. -/
theorem base_applied {t : TypeExpression} {inner : List Char}
    (word : isWord t.library t.name) (some_inner : inner ≠ [])
    (inside : argumentText t.arguments = '<' :: (inner ++ ['>'])) (found : base inner ≠ []) :
    base t.text = base inner := by
  obtain ⟨none_before, plain⟩ := isWord_iff.mp word
  have wrapped : required t.text = t.name.text ++ '<' :: (inner ++ ['>']) := by
    rw [required_expression, core, none_before, inside]
    rfl
  have line : '\n' ∉ inner := by
    intro h
    refine t.one_line (mem_of_mem_required ?_)
    simp [wrapped, h]
  exact base_wrapped plain line some_inner found wrapped

/-- What stands behind a name that is no word stays. -/
theorem bracket_mem_base_of_not_isWord {t : TypeExpression} (word : isWord t.library t.name = false)
    (applied : t.arguments ≠ []) : '>' ∈ base t.text := by
  obtain ⟨lead, m, behind, split, hm, free⟩ :=
    exists_obstacle_of_not_isWord word (argumentText t.arguments)
  obtain ⟨init, last, arguments⟩ := (List.eq_nil_or_concat' t.arguments).resolve_left applied
  obtain ⟨front, inside⟩ := argumentText_concat init last
  have ends : libraryText t.library ++ (t.name.text ++ argumentText t.arguments) =
      libraryText t.library ++ (t.name.text ++
        (front ++ separator (!init.isEmpty) :: last.text)) ++ ['>'] := by
    simp [arguments, inside]
  refine bracket_mem_base_of_obstacle hm free (ends.symm.trans split) ?_
  rw [required_expression, core, ends]

section Wrapper

variable {library : Option Identifier} {name : Identifier} {nullable : Bool} {u : TypeExpression}

theorem opened_of_isWord (word : isWord library name) (rest : List TypeExpression) :
    opened ⟨library, name, u :: rest, nullable⟩ = u.opened + 1 := by
  rw [opened, word, if_pos rfl, openedBy]

/-- A single argument is unwrapped in turn. -/
theorem finds_single_argument (word : isWord library name)
    (found : Finds (u.ending false).name u.Unwraps (base u.text)) :
    Finds (ending false ⟨library, name, [u], nullable⟩).name
      (Unwraps ⟨library, name, [u], nullable⟩) (base (text ⟨library, name, [u], nullable⟩)) := by
  rw [base_applied word u.text_ne_nil rfl found.ne_nil]
  refine found.congr ?_
  simp [Unwraps, opened_of_isWord word, ending, endingOf, Ending.close, isChain]

/-- Of several arguments the first and the last are unwrapped together. -/
theorem finds_several_arguments (word : isWord library name) (init : List TypeExpression)
    (z : TypeExpression) :
    Finds (ending false ⟨library, name, u :: (init ++ [z]), nullable⟩).name
      (Unwraps ⟨library, name, u :: (init ++ [z]), nullable⟩)
      (base (text ⟨library, name, u :: (init ++ [z]), nullable⟩)) := by
  obtain ⟨lead, inside⟩ := furtherText_concat init z
  let inner := u.text ++ (',' :: lead ++ separator true :: z.text)
  have inside : argumentText (u :: (init ++ [z])) = '<' :: (inner ++ ['>']) := by
    rw [argumentText_cons, inside]
    simp [inner, separator]
  have line : '\n' ∉ inner := by
    intro h
    refine (mk library name (u :: (init ++ [z])) nullable).one_line ?_
    simp [text, inside, h]
  have found := base_between rfl (blocked_comma lead) line
  rw [base_applied word u.begins.ne_nil inside found.ne_nil]
  have several : isChain ⟨library, name, u :: (init ++ [z]), nullable⟩ = false := by
    cases init <;> rfl
  have last : ending false ⟨library, name, u :: (init ++ [z]), nullable⟩ =
      (z.ending true).close := by
    rw [ending, endingOf, endingOf_concat, Bool.true_or]
  rw [last]
  refine found.congr ?_
  rw [Unwraps, last, several, opened_of_isWord word]
  simp [Ending.close]

end Wrapper

/-- The search finds the last name of an expression, or leaves a bracket. -/
theorem base_text (t : TypeExpression) : Finds (t.ending false).name t.Unwraps (base t.text) := by
  induction t using induct with
  | step library name arguments nullable ih =>
    cases arguments with
    | nil => exact ⟨fun _ => base_single rfl, fun no => absurd ⟨Nat.zero_le _, .inl rfl⟩ no⟩
    | cons u rest =>
      cases word : isWord library name with
      | false =>
        refine .of_bracket (bracket_mem_base_of_not_isWord word (List.cons_ne_nil _ _)) ?_
        rintro ⟨enough, -⟩
        rw [opened, word, if_neg Bool.false_ne_true, Nat.le_zero] at enough
        cases arguments_of_closed enough
      | true =>
        rcases List.eq_nil_or_concat' rest with rfl | ⟨init, z, rfl⟩
        · exact finds_single_argument word (ih u List.mem_cons_self)
        · exact finds_several_arguments word init z

/-- Of a type expression the search finds the last name, which is the name of a type, if the
brackets behind it are opened by plain words and it stands apart. It keeps a bracket otherwise, and
finds nothing that a type can be declared under. -/
theorem base_of_expression (t : TypeExpression) :
    (t.Unwraps → (t.ending false).name ∈ t.names ∧ base t.text = (t.ending false).name.text) ∧
      (¬ t.Unwraps → '<' ∈ base t.text ∨ '>' ∈ base t.text) := by
  obtain ⟨able, unable⟩ := base_text t
  exact ⟨fun unwraps => ⟨t.ending_mem_names false, able unwraps⟩, unable⟩

/-- A library in front of a generic type hides what the type is applied to. -/
theorem base_behind_library :
    ∃ t : TypeExpression, t.text = "async.Future<User>".toList ∧
      base t.text = "Future<User>".toList ∧ ∀ n ∈ t.names, base t.text ≠ n.text := by
  let user : TypeExpression := { name := ⟨"User".toList, by decide⟩ }
  refine ⟨⟨some ⟨"async".toList, by decide⟩, ⟨"Future".toList, by decide⟩, [user], false⟩, ?_⟩
  decide +kernel

end TypeName
end CodeAtlas
