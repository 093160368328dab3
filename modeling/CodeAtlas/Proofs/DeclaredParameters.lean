import CodeAtlas.Declaration.Parameters
import CodeAtlas.Proofs.Cutting

/-!
Parameters as a program declares them: a type and a name, a function type and a name, or a field of
the class. Each has a written form (`Written.text`) and is a parameter (`Written.parameter`); a list
is written with commas between its members (`listText`).
-/
namespace CodeAtlas.Parameters

/-! ## Names -/

/-- ASCII characters of identifiers. -/
def isNameChar (c : Char) : Bool := Text.isIdentStart c || Text.isAsciiDigit c

/-- Whether a text is an ASCII identifier. -/
def isIdentifier : List Char → Bool
  | [] => false
  | c :: rest => Text.isIdentStart c && rest.all isNameChar

/-- Words with a meaning of their own in a list of parameters. -/
def reserved : List (List Char) := ["required".toList, "covariant".toList, "this".toList]

/-- An ASCII identifier that is no such word. -/
structure Name where
  text : List Char
  identifier : isIdentifier text
  unreserved : text ∉ reserved

section NameChar

variable {c m : Char}

/-- Where the characters of names stand among the ASCII characters. -/
theorem code_of_isNameChar (h : isNameChar c) :
    (0x41 ≤ c.val.toNat ∧ c.val.toNat ≤ 0x5A) ∨ (0x61 ≤ c.val.toNat ∧ c.val.toNat ≤ 0x7A) ∨
      c = '_' ∨ c = '$' ∨ (0x30 ≤ c.val.toNat ∧ c.val.toNat ≤ 0x39) := by
  simp only [isNameChar, Text.isIdentStart, Text.isLetter, Text.isAsciiDigit, Bool.or_eq_true,
    Bool.and_eq_true, decide_eq_true_eq, beq_iff_eq, or_assoc] at h
  exact h

theorem not_isBlank_of_isNameChar (h : isNameChar c) : Text.isBlank c = false := by
  have other (range : 0x30 ≤ c.val.toNat ∧ c.val.toNat < 0x80) : Text.isBlank c = false := by
    unfold Text.isBlank
    rw [if_pos range.2]
    simp only [Bool.or_eq_false_iff, beq_eq_false_iff_ne, Bool.and_eq_false_iff,
      decide_eq_false_iff_not]
    omega
  rcases code_of_isNameChar h with upper | lower | rfl | rfl | digit
  · exact other (by omega)
  · exact other (by omega)
  · decide
  · decide
  · exact other (by omega)

theorem isIdentPart_of_isNameChar (h : isNameChar c) : Text.isIdentPart c := by
  have word (range : (0x41 ≤ c.val.toNat ∧ c.val.toNat ≤ 0x5A) ∨
      (0x61 ≤ c.val.toNat ∧ c.val.toNat ≤ 0x7A) ∨ (0x30 ≤ c.val.toNat ∧ c.val.toNat ≤ 0x39)) :
      Text.isIdentPart c := by
    have ascii : c.val.toNat < 0x80 := by omega
    unfold Text.isIdentPart Text.isWord
    rw [if_pos ascii]
    simp only [Text.isLetter, Text.isAsciiDigit, Bool.or_eq_true, Bool.and_eq_true,
      decide_eq_true_eq]
    exact .inl (.inl (or_assoc.mpr range))
  rcases code_of_isNameChar h with upper | lower | rfl | rfl | digit
  · exact word (.inl upper)
  · exact word (.inr (.inl lower))
  · decide
  · decide
  · exact word (.inr (.inr digit))

theorem ne_of_isNameChar (h : isNameChar c) (other : isNameChar m = false) : c ≠ m := by
  rintro rfl
  rw [h] at other
  cases other

end NameChar

section Identifiers

variable {s : List Char}

theorem ne_nil_of_isIdentifier (h : isIdentifier s) : s ≠ [] := by
  rintro rfl
  cases h

theorem isNameChar_of_isIdentifier (h : isIdentifier s) : ∀ c ∈ s, isNameChar c := by
  obtain ⟨c, rest, rfl⟩ := List.exists_cons_of_ne_nil (ne_nil_of_isIdentifier h)
  rw [isIdentifier, Bool.and_eq_true, List.all_eq_true] at h
  refine List.forall_mem_cons.mpr ⟨?_, h.2⟩
  rw [isNameChar, h.1, Bool.true_or]

end Identifiers

namespace Name

variable (n : Name)

theorem text_ne_nil : n.text ≠ [] := ne_nil_of_isIdentifier n.identifier

theorem exists_cons : ∃ c rest, n.text = c :: rest := List.exists_cons_of_ne_nil n.text_ne_nil

theorem isNameChar_of_mem : ∀ c ∈ n.text, isNameChar c := isNameChar_of_isIdentifier n.identifier

theorem unblank : ∀ c ∈ n.text, Text.isBlank c = false := fun c hc =>
  not_isBlank_of_isNameChar (n.isNameChar_of_mem c hc)

theorem tight : Text.Tight n.text := .of_unblank n.unblank

/-- What is no character of names does not stand in one. -/
theorem not_mem {m : Char} (h : isNameChar m = false) : m ∉ n.text := fun hm =>
  ne_of_isNameChar (n.isNameChar_of_mem m hm) h rfl

end Name

/-! ## Declarations -/

/-- A parameter as it is declared. -/
inductive Declared where
  | typed (type : Name) (nullable : Bool) (name : Name)
  /-- A parameter that takes functions of one parameter. -/
  | function (result argument name : Name)
  /-- A parameter that sets a field. -/
  | field (name : Name)

namespace Declared

def isTyped : Declared → Bool
  | typed .. => true
  | _ => false

def isFunction : Declared → Bool
  | function .. => true
  | _ => false

def isField : Declared → Bool
  | field _ => true
  | _ => false

def name : Declared → Name
  | typed _ _ name | function _ _ name | field name => name

/-- The word `Function` and the type of its parameter. -/
def functionOf (argument : Name) : List Char :=
  "Function".toList ++ '(' :: (argument.text ++ [')'])

/-- The type of a parameter as it is written; for a field, the mark that stands for its type. -/
def type : Declared → List Char
  | typed type nullable _ => type.text ++ if nullable then ['?'] else []
  | function result argument _ => result.text ++ ' ' :: functionOf argument
  | field name => "self_field:".toList ++ name.text

def text : Declared → List Char
  | field name => "this.".toList ++ name.text
  | p => p.type ++ ' ' :: p.name.text

variable {type name result argument : Name} {nullable : Bool}

theorem functionOf_eq :
    functionOf argument = "Function".toList ++ '(' :: (argument.text ++ [')']) := rfl

theorem functionOf_append {rest : List Char} :
    functionOf argument ++ rest = "Function".toList ++ '(' :: (argument.text ++ ')' :: rest) := by
  rw [functionOf_eq, List.append_assoc, List.cons_append, List.append_assoc, List.singleton_append]

theorem type_typed : (typed type nullable name).type =
    type.text ++ if nullable then ['?'] else [] := rfl

theorem type_function : (function result argument name).type =
    result.text ++ ' ' :: functionOf argument := rfl

theorem type_field : (field name).type = "self_field:".toList ++ name.text := rfl

theorem text_typed : (typed type nullable name).text =
    (typed type nullable name).type ++ ' ' :: name.text := rfl

theorem text_function : (function result argument name).text =
    (function result argument name).type ++ ' ' :: name.text := rfl

theorem text_field : (field name).text = "this.".toList ++ name.text := rfl

end Declared

/-- A parameter in a list, marked as required or not. -/
structure Written where
  marked : Bool := false
  declared : Declared

def markText (marked : Bool) : List Char := if marked then "required ".toList else []

namespace Written

def text (w : Written) : List Char := markText w.marked ++ w.declared.text

/-- The parameter that is declared in a segment. Only named parameters can be required. -/
def parameter (kind : SlotKind) (w : Written) : Parameter where
  type := String.ofList w.declared.type
  name := some (String.ofList w.declared.name.text)
  isNamed := kind = .named
  isRequired := kind = .named && w.marked
  isOptionalPositional := kind = .optional

end Written

/-- A list of parameters with commas between them. -/
def listText (ws : List Written) : List Char := Text.joinWith ", ".toList (ws.map Written.text)

/-- What stands in a list behind a member that `ws` follow. -/
def behind (ws : List Written) : List Char := if ws.isEmpty then [] else ", ".toList ++ listText ws

/-! ## Beginnings -/

section Beginnings

variable {rest tail s : List Char}

theorem forall_mem_head?_cons {P : Char → Prop} {x : Char} (h : P x) :
    ∀ y ∈ (x :: rest).head?, P y :=
  fun _ hy => Option.mem_some_iff.mp hy ▸ h

/-- A text that begins with a character of names. -/
def Begins (s : List Char) : Prop := ∃ x others, s = x :: others ∧ isNameChar x

theorem Begins.unblank (begins : Begins s) : ∀ x ∈ s.head?, Text.isBlank x = false := by
  obtain ⟨x, others, rfl, h⟩ := begins
  exact forall_mem_head?_cons (not_isBlank_of_isNameChar h)

theorem Begins.ne_nil (begins : Begins s) : s ≠ [] := by
  obtain ⟨x, others, rfl, -⟩ := begins
  exact List.cons_ne_nil _ _

theorem begins_of_isIdentifier (h : isIdentifier s) : Begins (s ++ tail) := by
  obtain ⟨x, others, rfl⟩ := List.exists_cons_of_ne_nil (ne_nil_of_isIdentifier h)
  exact ⟨x, others ++ tail, rfl, isNameChar_of_isIdentifier h x List.mem_cons_self⟩

theorem Name.begins (n : Name) : Begins (n.text ++ tail) := begins_of_isIdentifier n.identifier

theorem Declared.begins_functionOf (argument : Name) : Begins (functionOf argument ++ tail) := by
  have word : "Function".toList = 'F' :: "unction".toList := by decide
  rw [functionOf_eq, word]
  exact ⟨'F', _, List.append_assoc _ _ _, by decide⟩

theorem Declared.begins (p : Declared) : Begins (p.text ++ tail) := by
  cases p with
  | typed type nullable name =>
    rw [text_typed, type_typed, List.append_assoc, List.append_assoc]
    exact type.begins
  | function result argument name =>
    rw [text_function, type_function, List.append_assoc, List.append_assoc]
    exact result.begins
  | field name =>
    have word : "this.".toList = 't' :: "his.".toList := by decide
    rw [text_field, word]
    exact ⟨'t', _, rfl, by decide⟩

theorem begins_mark (begins : Begins s) (marked : Bool) : Begins (markText marked ++ s) := by
  cases marked with
  | false => exact begins
  | true =>
    have word : "required ".toList = 'r' :: "equired ".toList := by decide
    rw [markText, if_pos rfl, word]
    exact ⟨'r', _, rfl, by decide⟩

theorem Written.begins (w : Written) : Begins (w.text ++ tail) := by
  rw [Written.text, List.append_assoc]
  exact begins_mark w.declared.begins w.marked

theorem Written.text_ne_nil (w : Written) : w.text ≠ [] := by
  have begins : Begins (w.text ++ []) := w.begins
  rw [List.append_nil] at begins
  exact begins.ne_nil

end Beginnings

/-! ## Characters -/

/-- A character of a parameter without a function type. -/
def isSimple (c : Char) : Bool := isNameChar c || ['.', '?', ' '].contains c

/-- A character of a list of such parameters. -/
def isPlain (c : Char) : Bool := isSimple c || c == ','

/-- A character of a parameter. -/
def isWritten (c : Char) : Bool := isSimple c || ['(', ')'].contains c

theorem isSimple_of_isNameChar {c : Char} (h : isNameChar c) : isSimple c := by
  rw [isSimple, h, Bool.true_or]

theorem isPlain_of_isSimple {c : Char} (h : isSimple c) : isPlain c := by
  rw [isPlain, h, Bool.true_or]

theorem isWritten_of_isSimple {c : Char} (h : isSimple c) : isWritten c := by
  rw [isWritten, h, Bool.true_or]

theorem Name.isSimple_of_mem (n : Name) : ∀ c ∈ n.text, isSimple c := fun c hc =>
  isSimple_of_isNameChar (n.isNameChar_of_mem c hc)

namespace Declared

/-- A name behind a type adds no other characters. -/
theorem forall_mem_named {q : Char → Bool} {type : List Char} (n : Name)
    (simple : ∀ c, isSimple c → q c) (h : ∀ c ∈ type, q c) : ∀ c ∈ type ++ ' ' :: n.text, q c :=
  have name : ∀ c ∈ ' ' :: n.text, isSimple c :=
    List.forall_mem_cons.mpr ⟨by decide, n.isSimple_of_mem⟩
  List.forall_mem_append.mpr ⟨h, fun c hc => simple c (name c hc)⟩

theorem isSimple_of_mem (p : Declared) (h : ¬ p.isFunction) : ∀ c ∈ p.text, isSimple c := by
  cases p with
  | typed type nullable name =>
    have mark : ∀ c ∈ (if nullable then ['?'] else []), isSimple c :=
      List.all_eq_true.mp (by cases nullable <;> decide)
    exact forall_mem_named name (fun _ => id)
      (List.forall_mem_append.mpr ⟨type.isSimple_of_mem, mark⟩)
  | function result argument name => exact absurd rfl h
  | field name =>
    have word : ∀ c ∈ "this.".toList, isSimple c := List.all_eq_true.mp (by decide)
    exact List.forall_mem_append.mpr ⟨word, name.isSimple_of_mem⟩

theorem isWritten_of_mem (p : Declared) : ∀ c ∈ p.text, isWritten c := by
  have simple (h : ¬ p.isFunction) : ∀ c ∈ p.text, isWritten c := fun c hc =>
    isWritten_of_isSimple (p.isSimple_of_mem h c hc)
  cases p with
  | typed type nullable name => exact simple Bool.false_ne_true
  | field name => exact simple Bool.false_ne_true
  | function result argument name =>
    have written (n : Name) : ∀ c ∈ n.text, isWritten c := fun c hc =>
      isWritten_of_isSimple (n.isSimple_of_mem c hc)
    have word : ∀ c ∈ "Function".toList, isWritten c := List.all_eq_true.mp (by decide)
    have paren : isWritten '(' := by decide
    have close : ∀ c ∈ [')'], isWritten c := List.all_eq_true.mp (by decide)
    have space : isWritten ' ' := by decide
    have inner := List.forall_mem_append.mpr ⟨written argument, close⟩
    have called := List.forall_mem_append.mpr ⟨word, List.forall_mem_cons.mpr ⟨paren, inner⟩⟩
    exact forall_mem_named name (fun _ => isWritten_of_isSimple)
      (List.forall_mem_append.mpr ⟨written result, List.forall_mem_cons.mpr ⟨space, called⟩⟩)

end Declared

namespace Written

variable (w : Written)

theorem isSimple_of_mem_mark {marked : Bool} : ∀ c ∈ markText marked, isSimple c :=
  List.all_eq_true.mp (by cases marked <;> decide)

theorem isSimple_of_mem (h : ¬ w.declared.isFunction) : ∀ c ∈ w.text, isSimple c :=
  List.forall_mem_append.mpr ⟨isSimple_of_mem_mark, w.declared.isSimple_of_mem h⟩

theorem isWritten_of_mem : ∀ c ∈ w.text, isWritten c :=
  List.forall_mem_append.mpr
    ⟨fun c hc => isWritten_of_isSimple (isSimple_of_mem_mark c hc), w.declared.isWritten_of_mem⟩

end Written

end CodeAtlas.Parameters
