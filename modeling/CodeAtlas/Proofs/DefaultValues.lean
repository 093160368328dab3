import CodeAtlas.Proofs.SegmentFlags
import CodeAtlas.Proofs.TypedParameters

/-!
Default values in lists of optional and named parameters. A default value is skipped up to its first
comma, on one line, whatever brackets or quotes that comma stands in. So the members of a list are
read up to the first one with a comma in its default value, this one included (`slots_typed`); what
stands behind the comma is read as if it were the next parameter. Braces in the default values of
optional parameters make an end to the optional segment itself (`unmarked_of_braced`).
-/
namespace CodeAtlas.Parameters

variable {m : Typed} {ms : List Typed} {kind : SlotKind}

/-! ## Members that are read -/

namespace Typed

/-- Whether the member is read, if it is the last one or not: its default value is, up to a comma,
on one line, its type does not split and is no flag that the next member stands behind. -/
def isRead (m : Typed) (isLast : Bool) : Bool :=
  !(Text.beforeFirst ',' m.defaultText).contains '\n' && !m.type.splits &&
    (!m.type.isFlag || m.default?.isSome || isLast)

end Typed

/-- The members of a list up to the first that is not read, or has a comma in its default value. -/
def readable : List Typed → List Typed
  | [] => []
  | m :: ms =>
    if m.isRead ms.isEmpty then
      m :: (if m.defaultText.contains ',' then [] else readable ms)
    else []

/-- What stands behind the readable members: the text from the first that is not read, or the text
behind the comma in a default value. -/
def remainder : List Typed → List Char
  | [] => []
  | m :: ms =>
    if m.isRead ms.isEmpty then
      if m.defaultText.contains ',' then
        (m.defaultText.dropWhile (· ≠ ',') ++ following (ms.map Typed.text)).drop 1
      else remainder ms
    else commaList ((m :: ms).map Typed.text)

/-- The readable members, and what is read of the text behind them. -/
def parametersRead (kind : SlotKind) (ms : List Typed) : List Parameter :=
  (readable ms).map (Typed.parameter kind) ++ slots kind (remainder ms)

/-- Whether the default values have no commas and no line breaks, no type splits and none is a flag,
unless it has a default value or is the last. -/
def Legible (ms : List Typed) : Prop :=
  (∀ m ∈ ms, ',' ∉ m.defaultText ∧ '\n' ∉ m.defaultText ∧ m.type.splits = false) ∧
    ∀ m ∈ ms.dropLast, m.type.isFlag → m.default?.isSome

instance (ms : List Typed) : Decidable (Legible ms) := inferInstanceAs (Decidable (_ ∧ _))

theorem Legible.tail (h : Legible (m :: ms)) : Legible ms := by
  refine ⟨(List.forall_mem_cons.mp h.1).2, fun v hv => h.2 v ?_⟩
  cases ms with
  | nil => cases hv
  | cons w ms => exact List.mem_cons_of_mem _ hv

theorem Legible.isRead (h : Legible (m :: ms)) : m.isRead ms.isEmpty := by
  obtain ⟨comma, line, whole⟩ := h.1 m List.mem_cons_self
  have flag : (!m.type.isFlag || m.default?.isSome || ms.isEmpty) = true := by
    cases ms with
    | nil => rw [List.isEmpty_nil, Bool.or_true]
    | cons v ms =>
      have given := h.2 m List.mem_cons_self
      cases flag : m.type.isFlag with
      | false => rfl
      | true => rw [given flag]; rfl
  rw [Typed.isRead, Text.beforeFirst_of_not_mem comma, whole, flag]
  simpa using line

theorem Legible.no_comma (h : Legible (m :: ms)) : m.defaultText.contains ',' = false := by
  simpa using (h.1 m List.mem_cons_self).1

/-- A legible list is readable in full. -/
theorem Legible.readable_eq (h : Legible ms) : readable ms = ms := by
  induction ms with
  | nil => rfl
  | cons m ms ih =>
    rw [readable, if_pos h.isRead, h.no_comma, if_neg Bool.false_ne_true, ih h.tail]

theorem Legible.remainder_eq (h : Legible ms) : remainder ms = [] := by
  induction ms with
  | nil => rfl
  | cons m ms ih =>
    rw [remainder, if_pos h.isRead, h.no_comma, if_neg Bool.false_ne_true, ih h.tail]

theorem Legible.parametersRead_eq (h : Legible ms) :
    parametersRead kind ms = ms.map (Typed.parameter kind) := by
  have nothing : slots kind [] = [] := rfl
  rw [parametersRead, h.readable_eq, h.remainder_eq, nothing, List.append_nil]

/-! ## Reading -/

/-- A default value is given by its first character on. -/
theorem defaultText_of_some (given : m.default?.isSome) :
    ∃ e, m.defaultText = " =".toList ++ ' ' :: e := by
  obtain ⟨e, he⟩ := Option.isSome_iff_exists.mp given
  refine ⟨e.text, ?_⟩
  rw [Typed.defaultText, he]
  rfl

theorem defaultText_of_none (none_given : m.default?.isSome = false) : m.defaultText = [] := by
  rw [Typed.defaultText, Option.isSome_eq_false_iff.mp none_given |> Option.isNone_iff_eq_none.mp]

/-- Up to a comma a default value is skipped. -/
theorem beforeFirst_defaultText (given : m.default?.isSome) :
    ∃ e, Text.beforeFirst ',' m.defaultText = " =".toList ++ e := by
  obtain ⟨e, text⟩ := defaultText_of_some given
  have free : ∀ c ∈ " =".toList, decide (c ≠ ',') = true := by decide
  refine ⟨(' ' :: e).takeWhile (· ≠ ','), ?_⟩
  rw [text, Text.beforeFirst, List.takeWhile_append_of_pos free]

theorem isDefault_beforeFirst (line : '\n' ∉ Text.beforeFirst ',' m.defaultText) :
    IsDefault (Text.beforeFirst ',' m.defaultText) := by
  have comma : ',' ∉ Text.beforeFirst ',' m.defaultText := Text.not_mem_beforeFirst
  cases given : m.default?.isSome with
  | false =>
    rw [defaultText_of_none given]
    exact .inl rfl
  | true =>
    obtain ⟨e, text⟩ := beforeFirst_defaultText given
    rw [text] at comma line ⊢
    exact .inr ⟨e, rfl, fun h => comma (List.mem_append_right _ h),
      fun h => line (List.mem_append_right _ h)⟩

/-- Behind a default value there is a comma or the end. -/
theorem closes_dropWhile (ms : List Typed) :
    Closes (m.defaultText.dropWhile (· ≠ ',') ++ following (ms.map Typed.text)) := by
  cases behind : m.defaultText.dropWhile (· ≠ ',') with
  | nil => exact closes_following _
  | cons x rest =>
    have stopped := List.head?_dropWhile_not (· ≠ ',') m.defaultText
    rw [behind] at stopped
    exact forall_mem_head?_cons (by simpa using stopped)

/-- A member that is read goes up to the first comma in its default value, or to the next member. -/
theorem slotsOf_read (read : m.isRead ms.isEmpty) :
    slotsOf kind (m.text ++ following (ms.map Typed.text)) = m.parameter kind ::
      slots kind ((m.defaultText.dropWhile (· ≠ ',') ++ following (ms.map Typed.text)).drop 1) := by
  rw [Typed.isRead, Bool.and_eq_true, Bool.and_eq_true] at read
  obtain ⟨⟨line, whole⟩, alone⟩ := read
  have line : '\n' ∉ Text.beforeFirst ',' m.defaultText := by simpa using line
  refine slotsOf_typed kind (by simpa using whole) List.takeWhile_append_dropWhile.symm
    (isDefault_beforeFirst line) (closes_dropWhile ms) fun flag => ?_
  cases given : m.default?.isSome with
  | true =>
    obtain ⟨e, text⟩ := beforeFirst_defaultText given
    left
    show Text.beforeFirst ',' m.defaultText ≠ []
    rw [text]
    exact List.append_ne_nil_of_left_ne_nil (by decide) _
  | false =>
    -- a flag without a default value is the last member
    rw [flag, given, Bool.not_true, Bool.false_or, Bool.false_or, List.isEmpty_iff] at alone
    rw [alone, defaultText_of_none given]
    exact .inr rfl

/-- What is read of a list: its readable members, and then what is read of the text behind them. -/
theorem slots_typed (kind : SlotKind) (ms : List Typed) :
    slots kind (commaList (ms.map Typed.text)) = parametersRead kind ms := by
  induction ms with
  | nil => rfl
  | cons m ms ih =>
    by_cases read : m.isRead ms.isEmpty
    · rw [List.map_cons, slots_commaList (Typed.members ms) m.isMember, slotsOf_read read,
        parametersRead, readable, remainder, if_pos read, if_pos read]
      by_cases comma : m.defaultText.contains ','
      · rw [if_pos comma, if_pos comma]
        rfl
      · have no_comma : ',' ∉ m.defaultText := fun h => comma (List.contains_iff_mem.mpr h)
        have behind : m.defaultText.dropWhile (· ≠ ',') = [] :=
          List.dropWhile_eq_nil_iff.mpr fun c hc => decide_eq_true fun same => no_comma (same ▸ hc)
        rw [if_neg comma, if_neg comma, behind, List.nil_append,
          slots_following (Typed.members ms), ih]
        rfl
    · rw [parametersRead, readable, remainder, if_neg read, if_neg read]
      rfl

/-! ## Whole lists -/

/-- The kind of the segment behind the required parameters. -/
def furtherKind (named : Bool) : SlotKind := if named then .named else .optional

/-- A segment in its brackets or braces. -/
def bracketed (named : Bool) (ms : List Typed) : List Char :=
  if named then '{' :: (commaList (ms.map Typed.text) ++ ['}'])
  else '[' :: (commaList (ms.map Typed.text) ++ [']'])

/-- Required parameters and a segment behind them, as they are written between parentheses. -/
def signatureText (required : List Typed) (named : Bool) (ms : List Typed) : List Char :=
  commaList (required.map Typed.text ++ [bracketed named ms])

section Signatures

variable {required : List Typed} {named : Bool}

/-- The segments of such a text are read one after the other. An optional segment is found if there
is no brace in it. -/
theorem parse?_signature {head : List Char} (h : '(' ∉ head)
    (plain : ∀ m ∈ required, m.default? = none)
    (unbraced : named = false → ∀ m ∈ ms, '{' ∉ m.defaultText) :
    parse? (head ++ '(' :: (signatureText required named ms ++ [')'])) =
      some (slots .required (commaList (required.map Typed.text)) ++
        slots (furtherKind named) (commaList (ms.map Typed.text))) := by
  have members := Typed.members required
  have ends := Typed.ends_texts plain
  have free {x : Char} (hx : TypeExpression.isTypeChar x = false) := Typed.not_mem_texts plain hx
  have tight := tight_commaList (Typed.members ms)
  have nothing (kind : SlotKind) : slots kind [] = [] := rfl
  cases named with
  | true =>
    have text : signatureText required true ms = leading (required.map Typed.text) ++
        '{' :: (commaList (ms.map Typed.text) ++ ['}']) := commaList_bracketed _
    have cut := segments_named members ends (free (by decide)) (free (by decide)) tight
      (free (by decide))
    rw [text, parse?_of_segments h (tight_bracketed members (by decide) (by decide)) cut, nothing,
      List.append_nil]
    rfl
  | false =>
    have text : signatureText required false ms = leading (required.map Typed.text) ++
        '[' :: (commaList (ms.map Typed.text) ++ [']']) := commaList_bracketed _
    have no_brace : '{' ∉ commaList (ms.map Typed.text) := by
      refine not_mem_commaList (by decide) (List.forall_mem_map.mpr fun m hm => ?_)
      simp only [Typed.text, List.mem_append, List.mem_cons, not_or]
      exact ⟨m.type.not_mem_text (by decide), by decide, m.name.not_mem (by decide),
        unbraced rfl m hm⟩
    have cut := segments_optional members ends (free (by decide)) (free (by decide)) tight no_brace
    rw [text, parse?_of_segments h (tight_bracketed members (by decide) (by decide)) cut, nothing,
      List.append_nil]
    rfl

/-- Braces with no brace and no bracket closed before them. -/
def Braced (s : List Char) : Prop :=
  ∃ before inner after, s = before ++ '{' :: (inner ++ '}' :: after) ∧
    (∀ x ∈ ['{', '}', ']'], x ∉ before) ∧ '}' ∉ after

/-- With braces in its default values an optional segment is none: what stands in the braces is read
as named, and what stands before them as required. -/
theorem unmarked_of_braced {head : List Char} (h : '(' ∉ head)
    (plain : ∀ m ∈ required, m.default? = none) (braced : Braced (commaList (ms.map Typed.text))) :
    ∃ ps, parse? (head ++ '(' :: (signatureText required false ms ++ [')'])) = some ps ∧
      ∀ p ∈ ps, p.isOptionalPositional = false := by
  obtain ⟨before, inner, after, split, unopened, last⟩ := braced
  have text : signatureText required false ms = leading (required.map Typed.text) ++
      '[' :: (before ++ '{' :: (inner ++ '}' :: after) ++ [']']) :=
    split ▸ commaList_bracketed (bracketed false ms)
  have marks : ∀ x ∈ ['{', '}', ']'], TypeExpression.isTypeChar x = false := by decide
  have cut : segments (leading (required.map Typed.text) ++
      '[' :: (before ++ '{' :: (inner ++ '}' :: after) ++ [']'])) = _ :=
    segments_braced (fun x hx => ⟨Typed.not_mem_texts plain (marks x hx), unopened x hx⟩) last
  have read := parse?_of_segments h
    (tight_bracketed (Typed.members required) (by decide) (by decide)) cut
  rw [← text] at read
  refine ⟨_, read, fun p hp => ?_⟩
  rcases List.mem_append.mp hp with hp | named
  · rcases List.mem_append.mp hp with required | optional
    · exact (flagged_of_mem_slots required).isOptional
    · cases optional
  · exact (flagged_of_mem_slots named).isOptional

/-- The required parameters and those of the list behind them are read up to the first with a comma
in its default value, each with the flags of its list. A list without such commas is read back as it
is written. With braces in an optional list no parameter is optional. -/
theorem default_values_read {head : List Char} (h : '(' ∉ head)
    (plain : ∀ m ∈ required, m.default? = none) :
    ((named = false → ∀ m ∈ ms, '{' ∉ m.defaultText) →
      parse? (head ++ '(' :: (signatureText required named ms ++ [')'])) =
        some (parametersRead .required required ++ parametersRead (furtherKind named) ms)) ∧
    (Legible required →
      parametersRead .required required = required.map (Typed.parameter .required)) ∧
    (Legible ms →
      parametersRead (furtherKind named) ms = ms.map (Typed.parameter (furtherKind named))) ∧
    (named = false → Braced (commaList (ms.map Typed.text)) →
      ∃ ps, parse? (head ++ '(' :: (signatureText required named ms ++ [')'])) = some ps ∧
        ∀ p ∈ ps, p.isOptionalPositional = false) := by
  refine ⟨fun unbraced => ?_, Legible.parametersRead_eq, Legible.parametersRead_eq, ?_⟩
  · rw [parse?_signature h plain unbraced, slots_typed, slots_typed]
  · rintro rfl braced
    exact unmarked_of_braced h plain braced

end Signatures

section Defaults

/-- A number without a default value. -/
def numberList : List Typed := [{ type := numType, name := ⟨"a".toList, by decide⟩ }]

/-- A number that has a default value, and a label that has one in quotes. -/
def namedList : List Typed :=
  [{ type := numType
     name := ⟨"b".toList, by decide⟩
     default? := some ⟨"3".toList, by decide, .of_unblank (by decide)⟩ },
    { type := { name := ⟨"Label".toList, by decide⟩ }
      name := ⟨"c".toList, by decide⟩
      default? := some ⟨"'(x)'".toList, by decide, .of_unblank (by decide)⟩ }]

/-- A set that is empty by default. -/
def setDefault : List Typed :=
  [{ type := { name := ⟨"Set".toList, by decide⟩ }
     name := ⟨"s".toList, by decide⟩
     default? := some ⟨"\x7b\x7d".toList, by decide, .of_unblank (by decide)⟩ }]

theorem default_values_read_named :
    ('(' ∉ "f".toList ∧ (∀ m ∈ numberList, m.default? = none) ∧
        (true = false → ∀ m ∈ namedList, '{' ∉ m.defaultText) ∧
        Braced (commaList (setDefault.map Typed.text))) ∧
      parse? "f(num a, \x7bnum b = 3, Label c = '(x)'\x7d)".toList =
        some [{ type := "num", name := some "a" },
          { type := "num", name := some "b", isNamed := true },
          { type := "Label", name := some "c", isNamed := true }] ∧
      ∃ ps, parse? "f(num a, [Set s = \x7b\x7d])".toList = some ps ∧
        ∀ p ∈ ps, p.isOptionalPositional = false := by
  have unopened : '(' ∉ "f".toList := by decide
  have plain : ∀ m ∈ numberList, m.default? = none := by decide
  have unbraced : true = false → ∀ m ∈ namedList, '{' ∉ m.defaultText := nofun
  have braced : Braced (commaList (setDefault.map Typed.text)) :=
    ⟨"Set s = ".toList, [], [], by decide, by decide, by decide⟩
  have detail : "f(num a, \x7bnum b = 3, Label c = '(x)'\x7d)".toList =
      "f".toList ++ '(' :: (signatureText numberList true namedList ++ [')']) := by decide
  have optional : "f(num a, [Set s = \x7b\x7d])".toList =
      "f".toList ++ '(' :: (signatureText numberList false setDefault ++ [')']) := by decide
  refine ⟨⟨unopened, plain, unbraced, braced⟩, ?_, ?_⟩
  · obtain ⟨read, required, further, -⟩ := default_values_read unopened plain
    rw [detail, read unbraced, required (by decide), further (by decide)]
    decide
  · obtain ⟨-, -, -, unmarked⟩ := default_values_read unopened plain
    rw [optional]
    exact unmarked rfl braced

/-- A comma in a default value ends the list, and a brace in an optional one makes it a list of
required parameters. -/
theorem default_values_cut :
    parse? "f(\x7bList a = [1, 2], int b = 3\x7d)".toList =
        some [{ type := "List", name := some "a", isNamed := true }] ∧
      parse? "f([Map m = \x7b\x7d])".toList =
        some [{ type := "[Map", name := some "m" }] := by
  decide +kernel

end Defaults

end CodeAtlas.Parameters
