import CodeAtlas.Proofs.SlotChoice
import CodeAtlas.Proofs.TypeExpressions

/-!
Type arguments in a slot. No comma of a type expression stands outside of its brackets
(`hasOuterComma_text`), and squeezing leaves it alone (`squeeze_text`). But a slot can end within an
expression: where a single name stands between two other arguments, the name with the comma behind
it looks like the name of a parameter (`torn_text`).
-/
namespace CodeAtlas.TypeExpression

open Parameters

variable {t : TypeExpression} {ts : List TypeExpression} {n : Identifier} {a b u s : List Char}

/-! ## Where an expression splits -/

/-- A single name: no library, no arguments and no question mark. -/
def isBare : TypeExpression → Bool
  | ⟨library, _, arguments, nullable⟩ => library.isNone && arguments.isEmpty && !nullable

mutual

/-- Whether, at any depth, a single name stands between two other arguments. -/
def splits : TypeExpression → Bool
  | ⟨_, _, arguments, _⟩ => splitsIn false arguments

/-- Whether a single name stands between two arguments; `behind` says that others stand before
these. -/
def splitsIn (behind : Bool) : List TypeExpression → Bool
  | [] => false
  | t :: rest => behind && t.isBare && !rest.isEmpty || t.splits || splitsIn true rest

end

theorem text_of_isBare (h : t.isBare) : t.text = t.name.text := by
  obtain ⟨library, name, arguments, nullable⟩ := t
  simp only [isBare, Bool.and_eq_true, Option.isNone_iff_eq_none, List.isEmpty_iff,
    Bool.not_eq_true'] at h
  obtain ⟨⟨rfl, rfl⟩, rfl⟩ := h
  simp only [text, libraryText, argumentText, questionText, List.nil_append, List.append_nil,
    Bool.false_eq_true, if_false]

theorem not_splits_of_isBare (h : t.isBare) : t.splits = false := by
  obtain ⟨library, name, arguments, nullable⟩ := t
  simp only [isBare, Bool.and_eq_true, List.isEmpty_iff] at h
  obtain ⟨⟨-, rfl⟩, -⟩ := h
  rfl

/-! ## Names that end slots -/

theorem ends_cons {x : Char} (h : Text.isBlank x = false) : Ends (x :: s) ↔ x = ',' ∨ x = '=' := by
  rw [Ends, nextOf_of_unblank h]
  exact ⟨fun ends => ends x rfl, fun ends _ hy => Option.mem_some_iff.mp hy ▸ ends⟩

theorem ends_nil : Ends [] := fun _ h => nomatch (h : _ ∈ none)

theorem not_ends {x : Char} (h : Text.isBlank x = false) (other : x ≠ ',' ∧ x ≠ '=') :
    ¬ Ends (x :: s) := fun ends => ((ends_cons h).mp ends).elim other.1 other.2

/-- A name ends a slot if the slot can end behind all of it. -/
theorem endsName_name (stops : ∀ x ∈ u.head?, ¬ Text.isIdentPart x) :
    EndsName (n.text ++ u) ↔ Ends u := by
  constructor
  · rintro ⟨name, rest, same, -, ident, ends⟩
    rcases List.append_eq_append_iff.mp same with ⟨more, whole, behind⟩ | ⟨more, whole, behind⟩
    · -- no more than the name is read
      cases more with
      | nil =>
        rw [List.nil_append] at behind
        exact behind ▸ ends
      | cons x more =>
        have part := ident x (whole ▸ List.mem_append_right _ List.mem_cons_self)
        exact absurd part (stops x (by rw [behind]; rfl))
    · cases more with
      | nil =>
        rw [List.nil_append] at behind
        exact behind ▸ ends
      | cons x more =>
        have letter := n.isNameChar_of_mem x (whole ▸ List.mem_append_right _ List.mem_cons_self)
        rw [behind] at ends
        exact absurd ends (not_ends (not_isBlank_of_isNameChar letter)
          ⟨ne_of_isNameChar letter (by decide), ne_of_isNameChar letter (by decide)⟩)
  · intro ends
    exact ⟨n.text, u, rfl, n.text_ne_nil,
      fun x hx => isIdentPart_of_isNameChar (n.isNameChar_of_mem x hx), ends⟩

/-- Behind the name of an expression no letter follows. -/
theorem stops_tail (ts : List TypeExpression) (nullable : Bool)
    (stops : ∀ x ∈ u.head?, ¬ Text.isIdentPart x) :
    ∀ x ∈ (argumentText ts ++ (questionText nullable ++ u)).head?, ¬ Text.isIdentPart x := by
  cases ts with
  | cons t ts => exact forall_mem_head?_cons (by decide)
  | nil =>
    cases nullable with
    | false => exact stops
    | true => exact forall_mem_head?_cons (by decide)

theorem ends_tail (ts : List TypeExpression) (nullable : Bool) :
    Ends (argumentText ts ++ (questionText nullable ++ u)) ↔
      ts.isEmpty ∧ nullable = false ∧ Ends u := by
  cases ts with
  | cons t ts =>
    have bracket : ¬ Ends (argumentText (t :: ts) ++ (questionText nullable ++ u)) :=
      not_ends (x := '<') (by decide) (by decide)
    exact ⟨fun ends => absurd ends bracket, fun h => nomatch h.1⟩
  | nil =>
    cases nullable with
    | false => exact ⟨fun ends => ⟨rfl, rfl, ends⟩, fun h => h.2.2⟩
    | true =>
      have question : ¬ Ends (argumentText [] ++ (questionText true ++ u)) :=
        not_ends (x := '?') (by decide) (by decide)
      exact ⟨fun ends => absurd ends question, fun h => nomatch h.2.1⟩

/-- Of the expressions only a single name ends a slot. -/
theorem endsName_text (t : TypeExpression) (stops : ∀ x ∈ u.head?, ¬ Text.isIdentPart x) :
    EndsName (t.text ++ u) ↔ t.isBare ∧ Ends u := by
  obtain ⟨library, name, ts, nullable⟩ := t
  cases library with
  | some library =>
    have whole : (mk (some library) name ts nullable).text ++ u =
        library.text ++
          ('.' :: (name.text ++ (argumentText ts ++ (questionText nullable ++ u)))) := by
      simp [text, libraryText]
    have point : ∀ x ∈ (('.' :: (name.text ++
        (argumentText ts ++ (questionText nullable ++ u)))) : List Char).head?,
        ¬ Text.isIdentPart x := forall_mem_head?_cons (by decide)
    rw [whole, endsName_name point]
    refine ⟨fun ends => absurd ends (not_ends (by decide) (by decide)), fun h => ?_⟩
    cases h.1
  | none =>
    have whole : (mk none name ts nullable).text ++ u =
        name.text ++ (argumentText ts ++ (questionText nullable ++ u)) := by
      simp [text, libraryText]
    rw [whole, endsName_name (stops_tail ts nullable stops), ends_tail]
    simp [isBare, and_assoc]

/-! ## Torn types -/

theorem torn_cons {x : Char} : Torn (x :: s) u ↔ NameFollows (x :: (s ++ u)) ∨ Torn s u := by
  constructor
  · rintro ⟨less, more, same, some_more, follows⟩
    cases less with
    | nil =>
      obtain rfl : x :: s = more := same
      exact .inl follows
    | cons y less =>
      obtain ⟨-, same⟩ := List.cons.inj same
      exact .inr ⟨less, more, same, some_more, follows⟩
  · rintro (follows | ⟨less, more, same, some_more, follows⟩)
    · exact ⟨[], x :: s, rfl, List.cons_ne_nil _ _, follows⟩
    · exact ⟨x :: less, more, congrArg (x :: ·) same, some_more, follows⟩

theorem not_torn_nil : ¬ Torn [] u := not_torn_of_unblank fun _ h => absurd h List.not_mem_nil

theorem torn_append : ∀ a : List Char, Torn (a ++ b) u ↔ Torn a (b ++ u) ∨ Torn b u
  | [] => ⟨.inr, fun h => h.resolve_left not_torn_nil⟩
  | x :: a => by
    rw [List.cons_append, torn_cons, torn_cons, torn_append a, List.append_assoc, or_assoc]

/-- What has no blank is not torn. -/
theorem torn_append_of_unblank (h : ∀ x ∈ a, Text.isBlank x = false) :
    Torn (a ++ b) u ↔ Torn b u := by
  rw [torn_append]
  exact ⟨fun torn => torn.resolve_left (not_torn_of_unblank h), .inr⟩

theorem nameFollows_space (begins : Begins s) : NameFollows (' ' :: s) ↔ EndsName s := by
  constructor
  · rintro ⟨gap, rest, same, some_gap, blank, ends⟩
    obtain ⟨x, gap, rfl⟩ := List.exists_cons_of_ne_nil some_gap
    obtain ⟨-, same⟩ := List.cons.inj same
    -- the gap is the one space
    cases gap with
    | nil => exact same ▸ ends
    | cons y gap =>
      have unblank := begins.unblank y (by rw [same]; rfl)
      rw [blank y (by simp)] at unblank
      cases unblank
  · intro ends
    exact ⟨[' '], s, rfl, List.cons_ne_nil _ _, List.forall_mem_singleton.mpr (by decide), ends⟩

theorem head_furtherText (ts : List TypeExpression) :
    (furtherText ts ++ u).head? = some (if ts.isEmpty then '>' else ',') := by
  cases ts <;> rfl

theorem stops_furtherText (ts : List TypeExpression) :
    ∀ x ∈ (furtherText ts ++ u).head?, ¬ Text.isIdentPart x := by
  intro x hx
  rw [head_furtherText, Option.mem_some_iff] at hx
  rw [← hx]
  cases ts with
  | nil => decide
  | cons t ts => exact (by decide : ¬ Text.isIdentPart ',')

theorem ends_furtherText (ts : List TypeExpression) :
    Ends (furtherText ts ++ u) ↔ ts.isEmpty = false := by
  cases ts with
  | nil => exact ⟨fun ends => absurd ends (not_ends (x := '>') (by decide) (by decide)), nofun⟩
  | cons t ts => exact ⟨fun _ => rfl, fun _ => (ends_cons (x := ',') (by decide)).mpr (.inl rfl)⟩

/-- The arguments behind the first are torn where one of them is, or where a single name is followed
by another. -/
theorem torn_furtherText (h : ∀ t ∈ ts, ∀ u, Torn t.text u ↔ t.splits) :
    ∀ u, Torn (furtherText ts) u ↔ splitsIn true ts := by
  induction ts with
  | nil =>
    have closed : ∀ x ∈ furtherText [], Text.isBlank x = false := by decide
    exact fun u => ⟨fun torn => absurd torn (not_torn_of_unblank closed), nofun⟩
  | cons t ts ih =>
    obtain ⟨here, others⟩ := List.forall_mem_cons.mp h
    intro u
    have word : ", ".toList = [','] ++ [' '] := by decide
    have comma : ∀ x ∈ [','], Text.isBlank x = false := by decide
    rw [furtherText_cons, word, List.append_assoc, torn_append_of_unblank comma,
      List.singleton_append, torn_cons, List.append_assoc, nameFollows_space t.begins,
      endsName_text t (stops_furtherText ts), ends_furtherText, torn_append, here, ih others,
      splitsIn]
    simp [or_assoc]

theorem unblank_question (nullable : Bool) :
    ∀ x ∈ questionText nullable, Text.isBlank x = false := by
  cases nullable <;> decide

theorem unblank_library (library : Option Identifier) :
    ∀ x ∈ libraryText library, Text.isBlank x = false := by
  cases library with
  | none => exact fun _ h => nomatch h
  | some library => exact List.forall_mem_append.mpr ⟨library.unblank, by decide⟩

/-- A slot can end within an expression exactly if the expression splits. -/
theorem torn_text (t : TypeExpression) : ∀ u, Torn t.text u ↔ t.splits := by
  induction t using induct with
  | step library name arguments nullable ih =>
    intro u
    have question : ¬ Torn (questionText nullable) u :=
      not_torn_of_unblank (unblank_question nullable)
    rw [text, torn_append_of_unblank (unblank_library library),
      torn_append_of_unblank name.unblank, torn_append, or_iff_left question, splits]
    cases arguments with
    | nil =>
      exact ⟨fun torn => absurd torn not_torn_nil, fun splits => absurd splits Bool.false_ne_true⟩
    | cons t ts =>
      obtain ⟨here, others⟩ := List.forall_mem_cons.mp ih
      have bracket : ∀ x ∈ ['<'], Text.isBlank x = false := by decide
      rw [argumentText_cons, ← List.singleton_append, torn_append_of_unblank bracket, torn_append,
        here, torn_furtherText others, splitsIn]
      simp

/-! ## Commas -/

theorem isSimple_of_mem_library (library : Option Identifier) :
    ∀ x ∈ libraryText library, isSimple x := by
  cases library with
  | none => exact fun _ h => nomatch h
  | some library =>
    have letters : ∀ x ∈ library.text, isSimple x := fun x hx =>
      isSimple_of_isNameChar (library.isNameChar_of_mem x hx)
    exact List.forall_mem_append.mpr ⟨letters, by decide⟩

/-- A comma between brackets is no outer one. -/
theorem hasOuterComma_furtherText
    (h : ∀ t ∈ ts, ∀ depth, 0 ≤ depth → ∀ u,
      hasOuterComma depth (t.text ++ u) = hasOuterComma depth u)
    {depth : Int} (nested : 0 ≤ depth) (u : List Char) :
    hasOuterComma (depth + 1) (furtherText ts ++ u) = hasOuterComma depth u := by
  induction ts with
  | nil =>
    have closed : hasOuterComma (depth + 1) ('>' :: u) = hasOuterComma (depth + 1 - 1) u := rfl
    rw [furtherText, List.singleton_append, closed, Int.add_sub_cancel]
  | cons t ts ih =>
    obtain ⟨here, others⟩ := List.forall_mem_cons.mp h
    have inner : decide (depth + 1 ≤ 0) = false := decide_eq_false (by omega)
    have comma (s : List Char) : hasOuterComma (depth + 1) (',' :: ' ' :: s) =
        hasOuterComma (depth + 1) s := by
      rw [hasOuterComma, inner, hasOuterComma_cons (by decide)]
      rfl
    have word : ", ".toList = [',', ' '] := by decide
    rw [furtherText_cons, word, List.append_assoc, List.append_assoc]
    exact (comma _).trans ((here _ (by omega) _).trans (ih others))

/-- The commas of an expression all stand between its brackets. -/
theorem hasOuterComma_text (t : TypeExpression) : ∀ depth, 0 ≤ depth → ∀ u,
    hasOuterComma depth (t.text ++ u) = hasOuterComma depth u := by
  induction t using induct with
  | step library name arguments nullable ih =>
    intro depth nested u
    have letters : ∀ x ∈ name.text, isSimple x := fun x hx =>
      isSimple_of_isNameChar (name.isNameChar_of_mem x hx)
    have question : ∀ x ∈ questionText nullable, isSimple x := by cases nullable <;> decide
    rw [text, List.append_assoc, List.append_assoc, List.append_assoc,
      hasOuterComma_append (isSimple_of_mem_library library), hasOuterComma_append letters]
    cases arguments with
    | nil => exact hasOuterComma_append question depth u
    | cons t ts =>
      obtain ⟨here, others⟩ := List.forall_mem_cons.mp ih
      have opened (s : List Char) :
          hasOuterComma depth ('<' :: s) = hasOuterComma (depth + 1) s := rfl
      rw [argumentText_cons, List.cons_append, opened, List.append_assoc, here _ (by omega),
        hasOuterComma_furtherText others nested, hasOuterComma_append question]

/-! ## Blanks -/

theorem squeeze_go_furtherText
    (h : ∀ t ∈ ts, ∀ u, Text.squeeze.go false (t.text ++ u) = t.text ++ Text.squeeze.go false u)
    (u : List Char) :
    Text.squeeze.go false (furtherText ts ++ u) = furtherText ts ++ Text.squeeze.go false u := by
  induction ts with
  | nil => rfl
  | cons t ts ih =>
    obtain ⟨here, others⟩ := List.forall_mem_cons.mp h
    have comma (s : List Char) (begins : Begins s) :
        Text.squeeze.go false (", ".toList ++ s) = ", ".toList ++ Text.squeeze.go false s := by
      rw [← Text.squeeze_go_true begins.unblank]
      rfl
    rw [furtherText_cons, List.append_assoc, List.append_assoc, comma _ t.begins, here, ih others,
      List.append_assoc, List.append_assoc]

/-- The only blanks of an expression are single spaces. -/
theorem squeeze_go_text (t : TypeExpression) : ∀ u,
    Text.squeeze.go false (t.text ++ u) = t.text ++ Text.squeeze.go false u := by
  induction t using induct with
  | step library name arguments nullable ih =>
    intro u
    have question := unblank_question nullable
    simp only [text, List.append_assoc, Text.squeeze_go_append (unblank_library library),
      Text.squeeze_go_append name.unblank]
    cases arguments with
    | nil => exact congrArg _ (congrArg _ (Text.squeeze_go_append question))
    | cons t ts =>
      obtain ⟨here, others⟩ := List.forall_mem_cons.mp ih
      have bracket : ∀ x ∈ ['<'], Text.isBlank x = false := by decide
      rw [argumentText_cons, ← List.singleton_append, List.append_assoc, List.append_assoc,
        Text.squeeze_go_append bracket, here, squeeze_go_furtherText others,
        Text.squeeze_go_append question]
      simp only [List.append_assoc]

theorem squeeze_text (t : TypeExpression) : Text.squeeze t.text = t.text := by
  have whole := squeeze_go_text t []
  rw [List.append_nil, Text.squeeze.go, List.append_nil] at whole
  rw [Text.squeeze, t.tight.trim_eq, whole]

end CodeAtlas.TypeExpression
