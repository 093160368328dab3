import CodeAtlas.Proofs.DeclaredParameters
import Mathlib.Data.List.Basic

/-!
Types as they are written: names with a library in front of them or not, applied to other types to
any depth, with question marks. The facts about the text of a type are proved along the type
(`TypeExpression.induct`).
-/
namespace CodeAtlas

open Parameters (isIdentifier isNameChar Begins)

/-! ## Identifiers -/

/-- An ASCII identifier. -/
structure Identifier where
  text : List Char
  identifier : isIdentifier text

namespace Identifier

variable (n : Identifier)

theorem text_ne_nil : n.text ≠ [] := Parameters.ne_nil_of_isIdentifier n.identifier

theorem isNameChar_of_mem : ∀ c ∈ n.text, isNameChar c :=
  Parameters.isNameChar_of_isIdentifier n.identifier

theorem unblank : ∀ c ∈ n.text, Text.isBlank c = false := fun c hc =>
  Parameters.not_isBlank_of_isNameChar (n.isNameChar_of_mem c hc)

theorem not_mem {m : Char} (h : isNameChar m = false) : m ∉ n.text := fun hm =>
  Parameters.ne_of_isNameChar (n.isNameChar_of_mem m hm) h rfl

theorem begins {tail : List Char} : Begins (n.text ++ tail) :=
  Parameters.begins_of_isIdentifier n.identifier

end Identifier

/-! ## Type expressions -/

/-- A type as it is written: a name with a library in front of it or not, applied to other types or
not, with a question mark or not. -/
structure TypeExpression where
  library : Option Identifier := none
  name : Identifier
  arguments : List TypeExpression := []
  nullable : Bool := false

namespace TypeExpression

/-- A library in front of a name, with the point between them. -/
def libraryText : Option Identifier → List Char
  | none => []
  | some library => library.text ++ ['.']

def questionText (nullable : Bool) : List Char := if nullable then ['?'] else []

mutual

/-- The expression as it is written. -/
def text : TypeExpression → List Char
  | ⟨library, name, arguments, nullable⟩ =>
    libraryText library ++ (name.text ++ (argumentText arguments ++ questionText nullable))

/-- The arguments of a type with their brackets. -/
def argumentText : List TypeExpression → List Char
  | [] => []
  | t :: rest => '<' :: (t.text ++ furtherText rest)

/-- What follows an argument: the other arguments and the closing bracket. -/
def furtherText : List TypeExpression → List Char
  | [] => ['>']
  | t :: rest => ", ".toList ++ (t.text ++ furtherText rest)

end

mutual

theorem induct {P : TypeExpression → Prop}
    (step : ∀ library name arguments nullable,
      (∀ t ∈ arguments, P t) → P ⟨library, name, arguments, nullable⟩) : ∀ t, P t
  | ⟨_, _, arguments, _⟩ => step _ _ arguments _ (inductAll step arguments)

theorem inductAll {P : TypeExpression → Prop}
    (step : ∀ library name arguments nullable,
      (∀ t ∈ arguments, P t) → P ⟨library, name, arguments, nullable⟩) :
    ∀ ts : List TypeExpression, ∀ t ∈ ts, P t
  | [] => fun _ ht => absurd ht List.not_mem_nil
  | t :: rest => List.forall_mem_cons.mpr ⟨induct step t, inductAll step rest⟩

end

/-- What stands in front of the question mark. -/
def core (t : TypeExpression) : List Char :=
  libraryText t.library ++ (t.name.text ++ argumentText t.arguments)

theorem text_eq_core (t : TypeExpression) : t.text = t.core ++ questionText t.nullable := by
  obtain ⟨library, name, arguments, nullable⟩ := t
  simp only [text, core, List.append_assoc]

theorem furtherText_cons (t : TypeExpression) (rest : List TypeExpression) :
    furtherText (t :: rest) = ", ".toList ++ (t.text ++ furtherText rest) := rfl

theorem argumentText_cons (t : TypeExpression) (rest : List TypeExpression) :
    argumentText (t :: rest) = '<' :: (t.text ++ furtherText rest) := rfl

/-! ## Characters -/

/-- A character of a type expression. -/
def isTypeChar (c : Char) : Bool := isNameChar c || ['.', '<', '>', ',', ' ', '?'].contains c

theorem isTypeChar_of_isNameChar {c : Char} (h : isNameChar c) : isTypeChar c := by
  rw [isTypeChar, h, Bool.true_or]

theorem isTypeChar_of_mem_name (n : Identifier) : ∀ c ∈ n.text, isTypeChar c := fun c hc =>
  isTypeChar_of_isNameChar (n.isNameChar_of_mem c hc)

theorem isTypeChar_of_mem_library (library : Option Identifier) :
    ∀ c ∈ libraryText library, isTypeChar c := by
  cases library with
  | none => exact fun _ h => nomatch h
  | some library =>
    have point : ∀ c ∈ ['.'], isTypeChar c := List.all_eq_true.mp (by decide)
    exact List.forall_mem_append.mpr ⟨isTypeChar_of_mem_name library, point⟩

theorem isTypeChar_of_mem_further {ts : List TypeExpression}
    (h : ∀ t ∈ ts, ∀ c ∈ t.text, isTypeChar c) : ∀ c ∈ furtherText ts, isTypeChar c := by
  induction ts with
  | nil => exact List.all_eq_true.mp (by decide)
  | cons t rest ih =>
    obtain ⟨here, others⟩ := List.forall_mem_cons.mp h
    rw [furtherText_cons]
    have comma : ∀ c ∈ ", ".toList, isTypeChar c := List.all_eq_true.mp (by decide)
    exact List.forall_mem_append.mpr ⟨comma, List.forall_mem_append.mpr ⟨here, ih others⟩⟩

theorem isTypeChar_of_mem (t : TypeExpression) : ∀ c ∈ t.text, isTypeChar c := by
  induction t using induct with
  | step library name arguments nullable ih =>
    have mark : ∀ c ∈ questionText nullable, isTypeChar c :=
      List.all_eq_true.mp (by cases nullable <;> decide)
    have inner : ∀ c ∈ argumentText arguments, isTypeChar c := by
      cases arguments with
      | nil => exact fun _ h => nomatch h
      | cons t rest =>
        obtain ⟨here, others⟩ := List.forall_mem_cons.mp ih
        refine List.forall_mem_cons.mpr ⟨by decide, ?_⟩
        exact List.forall_mem_append.mpr ⟨here, isTypeChar_of_mem_further others⟩
    simp only [text, List.forall_mem_append]
    exact ⟨isTypeChar_of_mem_library library, isTypeChar_of_mem_name name, inner, mark⟩

theorem not_mem_text (t : TypeExpression) {m : Char} (h : isTypeChar m = false) : m ∉ t.text :=
  fun hm => Bool.false_ne_true (h.symm.trans (t.isTypeChar_of_mem m hm))

theorem begins (t : TypeExpression) {tail : List Char} : Begins (t.text ++ tail) := by
  obtain ⟨library, name, arguments, nullable⟩ := t
  cases library with
  | none =>
    simp only [text, libraryText, List.nil_append, List.append_assoc]
    exact name.begins
  | some library =>
    simp only [text, libraryText, List.append_assoc]
    exact library.begins

/-! ## Last arguments -/

theorem furtherText_concat (init : List TypeExpression) (t : TypeExpression) :
    ∃ lead, furtherText (init ++ [t]) = ',' :: (lead ++ ' ' :: (t.text ++ ['>'])) := by
  induction init with
  | nil => exact ⟨[], rfl⟩
  | cons u init ih =>
    obtain ⟨lead, h⟩ := ih
    refine ⟨' ' :: (u.text ++ ',' :: lead), ?_⟩
    rw [List.cons_append, furtherText_cons, h]
    simp

/-- What stands in front of an argument: a space behind another argument, or the bracket. -/
def separator (spaced : Bool) : Char := if spaced then ' ' else '<'

theorem argumentText_concat (init : List TypeExpression) (t : TypeExpression) :
    ∃ lead, argumentText (init ++ [t]) =
      lead ++ separator (!init.isEmpty) :: (t.text ++ ['>']) := by
  cases init with
  | nil => exact ⟨[], rfl⟩
  | cons u init =>
    obtain ⟨lead, h⟩ := furtherText_concat init t
    refine ⟨'<' :: (u.text ++ ',' :: lead), ?_⟩
    rw [List.cons_append, argumentText_cons, h]
    simp [separator]

theorem core_last (t : TypeExpression) :
    ∃ lead c, t.core = lead ++ [c] ∧ (isNameChar c ∨ c = '>') := by
  obtain ⟨library, name, arguments, nullable⟩ := t
  rcases List.eq_nil_or_concat' arguments with rfl | ⟨init, last, rfl⟩
  · rcases List.eq_nil_or_concat' name.text with empty | ⟨letters, c, h⟩
    · exact absurd empty name.text_ne_nil
    · refine ⟨libraryText library ++ letters, c, by simp [core, argumentText, h], .inl ?_⟩
      exact name.isNameChar_of_mem c (by simp [h])
  · obtain ⟨lead, h⟩ := argumentText_concat init last
    refine ⟨libraryText library ++ (name.text ++
      (lead ++ separator (!init.isEmpty) :: last.text)), '>', ?_, .inr rfl⟩
    simp [core, h]

theorem unblank_of_core_last {c : Char} (h : isNameChar c ∨ c = '>') : Text.isBlank c = false := by
  rcases h with letter | rfl
  · exact Parameters.not_isBlank_of_isNameChar letter
  · decide

theorem text_ne_nil (t : TypeExpression) : t.text ≠ [] := by
  have begins : Begins (t.text ++ []) := t.begins
  rw [List.append_nil] at begins
  exact begins.ne_nil

theorem tight (t : TypeExpression) : Text.Tight t.text where
  first := by simpa using (t.begins : Begins (t.text ++ [])).unblank
  last c hc := by
    obtain ⟨lead, d, ends, last⟩ := core_last t
    rw [text_eq_core, ends] at hc
    cases h : t.nullable with
    | false =>
      rw [h, questionText, if_neg Bool.false_ne_true, List.append_nil, List.getLast?_concat,
        Option.mem_some_iff] at hc
      exact hc ▸ unblank_of_core_last last
    | true =>
      rw [h, questionText, if_pos rfl, List.getLast?_concat, Option.mem_some_iff] at hc
      exact hc ▸ (by decide)

end TypeExpression
end CodeAtlas

