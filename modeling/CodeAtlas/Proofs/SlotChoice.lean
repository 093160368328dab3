import CodeAtlas.Proofs.Cutting
import CodeAtlas.Proofs.Slots

/-!
Which pattern reads a slot. A field is read off the pattern for fields, a parameter with a type off
one of the patterns for types (`slot?_written`). A parameter without a function type stops the
reader if a function type follows in the list (`slot?_stuck`).
-/
namespace CodeAtlas.Parameters

open Declared (functionOf functionOf_eq)

open Pattern

variable {α : Type} {fuel : Nat} {c : Cursor} {k : Cursor → Option α} {rest tail : List Char}
  {n : Name}

/-! ## Fields -/

section Fields

variable {marked : Bool} {s lead : List Char}

/-- The place behind the flag of a slot that sets a field, if it has one. -/
def fieldFlagged (marked : Bool) (s : List Char) : Cursor :=
  let start := Cursor.ofText (markText marked ++ s)
  if marked then (start.past "required ".toList s).keep 1 start else start

/-- The place behind a slot that sets a field, from the place behind its flag. -/
def fieldTo (c : Cursor) (n : Name) (tail : List Char) : Cursor :=
  let gone := c.past "this.".toList (n.text ++ tail)
  overComma ((gone.past n.text tail).keep 2 gone)

@[simp] theorem rest_fieldFlagged : (fieldFlagged marked s).rest = s := by
  cases marked <;> rfl

theorem run_field (here : c.rest = "this.".toList ++ (n.text ++ tail)) (closes : Closes tail)
    (room : c.rest.length ≤ fuel) :
    run fuel (word "this.") c
        (fun e => run fuel (group 2 (plus identChar)) e fun e => run fuel slotEnd e some) =
      some (fieldTo c n tail) := by
  rw [word, run_lit here, run_group]
  have room' : (n.text ++ tail).length ≤ fuel := by
    rw [here, List.length_append] at room
    omega
  have ends : ∀ x ∈ tail.head?, ¬ Text.isIdentPart x := fun x hx =>
    Bool.eq_false_iff.mp (closes_head closes (by decide) x hx)
  refine run_name n.identifier rfl ends room' ?_
  rw [run_slotEnd closes]
  rfl

theorem run_fieldFlag (here : c.rest = "required ".toList ++ s)
    (unblank : ∀ x ∈ s.head?, Text.isBlank x = false) :
    run fuel (group 1 (word "required" ++ gap)) c k =
      k ((c.past "required ".toList s).keep 1 c) := by
  have flag : "required".toList ++ [' '] = "required ".toList := by decide
  have here : c.rest = "required".toList ++ ' ' :: s := by rw [here, ← flag, List.append_assoc]; rfl
  rw [run_group, run_append, word, run_lit here, run_gap rfl unblank, Cursor.past_past, flag]

/-- A field is read off the pattern for fields. -/
theorem fieldSlot_atStart (closes : Closes tail) :
    fieldSlot.atStart (markText marked ++ ((Declared.field n).text ++ tail)) =
      some (fieldTo (fieldFlagged marked ((Declared.field n).text ++ tail)) n tail) := by
  have begins : Begins ((Declared.field n).text ++ tail) := Declared.begins _
  have here : (fieldFlagged marked ((Declared.field n).text ++ tail)).rest =
      "this.".toList ++ (n.text ++ tail) :=
    rest_fieldFlagged.trans (List.append_assoc _ _ _)
  have room : (fieldFlagged marked ((Declared.field n).text ++ tail)).rest.length ≤
      (markText marked ++ ((Declared.field n).text ++ tail)).length := by
    rw [rest_fieldFlagged]
    exact (List.suffix_append _ _).length_le
  have read := run_field here closes room
  rw [atStart, matchAt, fieldSlot, run_append, run_append, run_append, run_append, run_append,
    run_atStart, run_blanks (begins_mark begins marked).unblank]
  cases marked with
  | false =>
    rw [run_opt_of_none]
    · exact read
    · refine run_lit_eq_none fun starts => ?_
      obtain ⟨t, h⟩ := starts
      have heads : some 'r' = some 't' := congrArg List.head? h
      exact absurd heads (by decide)
  | true =>
    refine run_opt_of_some ?_
    rw [run_fieldFlag rfl begins.unblank]
    exact read

theorem group?_fieldTo_name : (fieldTo c n tail).group? 2 = some n.text := by
  rw [fieldTo, group?_overComma]
  exact Cursor.group?_keep_past rfl 2

theorem group?_fieldTo_flag : (fieldTo c n tail).group? 1 = c.group? 1 := by
  rw [fieldTo, group?_overComma, Cursor.group?_keep_of_ne (by decide), Cursor.group?_past,
    Cursor.group?_past]

theorem afterSlot_fieldTo (closes : Closes tail) : afterSlot (fieldTo c n tail) = tail.drop 1 :=
  afterSlot_overComma closes

theorem offset_fieldTo_pos : 0 < (fieldTo c n tail).offset := by
  have word : "this.".toList.length = 5 := by decide
  simp only [fieldTo, overComma, Cursor.offset_past, Cursor.offset_keep, word]
  omega

/-- Whether no field that ends a slot stands at the start of the text. -/
def Fieldless (s : List Char) : Prop := ∀ rest, s = "this.".toList ++ rest → ¬ EndsName rest

theorem fieldless_of_not_mem (h : '.' ∉ s) : Fieldless s := by
  rintro rest rfl -
  exact h (List.mem_append_left _ (by decide))

/-- What stands before a character that the mark of fields does not have begins with no field, if
there is no point in it. -/
theorem fieldless_of_piece {x : Char} (dot : '.' ∉ lead) (other : x ∉ "this.".toList) :
    Fieldless (lead ++ x :: rest) := by
  intro rest' same _
  obtain ⟨more, rfl, -⟩ := Text.exists_of_piece_before same other
  exact dot (List.mem_append_left _ (by decide))

/-- Without a field at the start or behind the flag no field is read. -/
theorem fieldSlot_eq_none (begins : Begins s) (unflagged : Fieldless s)
    (flagged : ∀ rest, Leads "required".toList s rest → Fieldless rest) :
    fieldSlot.atStart s = none := by
  rw [atStart, matchAt, fieldSlot, run_append, run_append, run_append, run_append, run_append,
    run_atStart, run_blanks begins.unblank]
  show run s.length (opt (group 1 (word "required" ++ gap)) ++
    (word "this." ++ (group 2 (plus identChar) ++ slotEnd))) _ _ = none
  refine run_eq_none fun d reached => ?_
  obtain ⟨e, flag, e', mark, e'', ⟨e₃, letters, rfl⟩, ended⟩ := reached
  obtain ⟨rest, here, rfl⟩ := reaches_lit mark
  obtain ⟨name, rest', some_name, there, ident, rfl⟩ := reaches_repeated letters
  have ends : EndsName rest := ⟨name, rest', there, some_name, ident, ends_of_slotEnd ended⟩
  rcases flag with ⟨e₄, ⟨e₅, word, gapped⟩, rfl⟩ | rfl
  · exact absurd ends (flagged _ (leads_of_word word rfl gapped) rest here)
  · exact absurd ends (unflagged rest here)

/-- What begins with a type is not read as a field. -/
theorem Opens.no_field (opens : Opens s lead rest) :
    fieldSlot.atStart (markText marked ++ s) = none := by
  have bare : Fieldless s := by
    rw [opens.here]
    exact fieldless_of_piece opens.unpunctuated.1 (by decide)
  have word : ∀ x ∈ "required".toList, Text.isBlank x = false := by decide
  refine fieldSlot_eq_none (begins_mark opens.begins marked) ?_ fun rest' leads => ?_
  · cases marked with
    | false => exact bare
    | true => exact fieldless_of_piece (by decide : '.' ∉ "required".toList) (by decide)
  · cases marked with
    | false =>
      -- the first word is not the flag
      have leads : Leads "required".toList s rest' := leads
      rw [opens.here] at leads
      obtain ⟨rfl, -⟩ := eq_of_leads opens.unblank word opens.next leads
      exact absurd List.mem_cons_self opens.unreserved
    | true =>
      obtain ⟨-, rfl⟩ := eq_of_leads word word opens.begins leads
      exact bare

end Fields

/-! ## Lone tokens -/

/-- A lone token ends at a comma or at the end of the text. -/
theorem run_closing_eq_none {x : Char} (next : nextOf c.rest = some x) (h : x ≠ ',') :
    run fuel blanks c (fun e => run fuel (char ',' <|> textEnd) e k) = none := by
  refine run_eq_none fun d reached => ?_
  obtain ⟨piece, rest, here, blank, rfl⟩ := reaches_many reached
  rw [here, nextOf_append blank] at next
  refine run_eq_none fun d reached => ?_
  rcases reached with comma | ⟨empty, -⟩
  · obtain ⟨rest', there, -⟩ := reaches_char comma
    obtain rfl : rest = ',' :: rest' := there
    rw [nextOf_of_unblank (by decide), Option.some.injEq] at next
    exact absurd next.symm h
  · obtain rfl : rest = [] := List.isEmpty_iff.mp empty
    cases next

theorem Begins.nextOf {s : List Char} (begins : Begins s) :
    ∃ x, nextOf s = some x ∧ isNameChar x := by
  obtain ⟨x, others, rfl, h⟩ := begins
  exact ⟨x, nextOf_of_unblank (not_isBlank_of_isNameChar h), h⟩

section LoneTokens

variable {d : Cursor} {lead piece t : List Char} {argument : Name} {marked : Bool} {s : List Char}

/-- What is read of the first of two words is followed by more of it or by the second word. -/
theorem nextOf_behind_word (unblank : ∀ x ∈ lead, Text.isBlank x = false) (comma : ',' ∉ lead)
    (next : ∃ x, nextOf rest = some x ∧ x ≠ ',') (same : lead ++ ' ' :: rest = piece ++ t)
    (no_space : ' ' ∉ piece) : ∃ x, nextOf t = some x ∧ x ≠ ',' := by
  obtain ⟨more, whole, rfl⟩ := Text.exists_of_piece_before same no_space
  cases more with
  | nil =>
    have skipped : nextOf ([' '] ++ rest) = nextOf rest :=
      nextOf_append (List.all_eq_true.mp (by decide))
    exact skipped ▸ next
  | cons x more =>
    have inside : x ∈ lead := whole ▸ List.mem_append_right _ List.mem_cons_self
    exact ⟨x, nextOf_of_unblank (unblank x inside), fun same => comma (same ▸ inside)⟩

/-- Behind a function type that is read comes a parameter of it or the name. -/
theorem nextOf_behind_function
    (here : c.rest = lead ++ '(' :: (argument.text ++ ')' :: ' ' :: (n.text ++ tail)))
    (no_parenthesis : '(' ∉ lead)
    (reached : (returnPart ++ functionWord (withinParens false)).Reaches c d) :
    ∃ x, nextOf d.rest = some x ∧ isNameChar x := by
  obtain ⟨e, result, e₅, ⟨e₄, ⟨e₃, ⟨e₂, called, open_⟩, inner⟩, gapped⟩, mark⟩ := reached
  -- the parenthesis is the first one
  have blank_free : blank.Avoids '(' := (by decide : Text.isBlank '(' = false)
  have text_free : (textOr "$<>?,.[]").Avoids '(' :=
    (by decide : (Text.isWord '(' || Text.isBlank '(' || "$<>?,.[]".toList.contains '(') = false)
  have avoids : (returnPart ++ (word "Function" ++ blanks)).Avoids '(' :=
    And.intro (And.intro (And.intro (And.intro text_free text_free)
      (And.intro blank_free blank_free)) trivial) (And.intro (avoids_lit (by decide)) blank_free)
  have before : (returnPart ++ (word "Function" ++ blanks)).Reaches c e₂ := ⟨e, result, called⟩
  obtain ⟨first, there, free⟩ := before.exists_piece avoids
  obtain ⟨rest₃, second, rfl⟩ := reaches_char open_
  rw [second, here] at there
  obtain ⟨-, behind⟩ := Text.eq_of_cut_at_first no_parenthesis free there
  -- it is closed behind the parameter or left open
  have next : ∃ x, nextOf e₄.rest = some x ∧ isNameChar x := by
    rcases inner with ⟨e, within, close⟩ | rfl
    · obtain ⟨piece, rest, third, inside, rfl⟩ := reaches_many within
      obtain ⟨rest₄, fourth, rfl⟩ := reaches_char close
      obtain rfl : rest = ')' :: rest₄ := fourth
      have outside : ')' ∉ piece := fun h => absurd (inside _ h) (by decide)
      obtain ⟨-, rfl⟩ := Text.eq_of_cut_at_first (argument.not_mem (by decide)) outside
        (behind.trans third)
      rw [Cursor.rest_past, show ' ' :: (n.text ++ tail) = [' '] ++ (n.text ++ tail) from rfl,
        nextOf_append (List.all_eq_true.mp (by decide))]
      exact n.begins.nextOf
    · rw [Cursor.rest_past, ← behind]
      exact argument.begins.nextOf
  obtain ⟨piece, rest₅, fifth, blank, rfl⟩ := reaches_many gapped
  rw [fifth, nextOf_append blank] at next
  rcases mark with mark | rfl
  · obtain ⟨rest₆, sixth, -⟩ := reaches_char mark
    obtain rfl : rest₅ = '?' :: rest₆ := sixth
    obtain ⟨x, there, h⟩ := next
    rw [nextOf_of_unblank (by decide), Option.some.injEq] at there
    exact absurd there.symm (ne_of_isNameChar h (by decide))
  · exact next

/-- The two words at the start of a parameter, of which the first can be its flag. -/
theorem Opens.words {first : List Char} (opens : Opens s first rest) (marked : Bool) :
    ∃ w others, markText marked ++ s = w ++ ' ' :: others ∧ (∀ x ∈ w, Text.isBlank x = false) ∧
      ',' ∉ w ∧ ∃ x, nextOf others = some x ∧ x ≠ ',' := by
  cases marked with
  | false =>
    obtain ⟨x, there, h⟩ := opens.next.nextOf
    exact ⟨first, rest, opens.here, opens.unblank, opens.unpunctuated.2, x, there,
      ne_of_isNameChar h (by decide)⟩
  | true =>
    obtain ⟨x, there, h⟩ := opens.begins.nextOf
    exact ⟨"required".toList, s, rfl, by decide, by decide, x, there,
      ne_of_isNameChar h (by decide)⟩

/-- A parameter that begins with a type is no lone token, if a function type follows. -/
theorem loneSlot_eq_none {first : List Char} (opens : Opens s first rest)
    (here : s = lead ++ '(' :: (argument.text ++ ')' :: ' ' :: (n.text ++ tail)))
    (no_parenthesis : '(' ∉ lead) (no_bracket : '<' ∉ s) :
    loneSlot.atStart (markText marked ++ s) = none := by
  rw [atStart, matchAt, loneSlot, run_append, run_append, run_append, run_append,
    run_atStart, run_blanks (begins_mark opens.begins marked).unblank, run_group]
  refine run_eq_none fun d reached => ?_
  suffices next : ∃ x, nextOf d.rest = some x ∧ x ≠ ',' by
    obtain ⟨x, next, h⟩ := next
    exact run_closing_eq_none next h
  obtain ⟨w, others, whole, unblank, comma, next⟩ := opens.words marked
  have behind_word {p : Pattern} (h : p.Reaches (.ofText (markText marked ++ s)) d)
      (avoids : p.Avoids ' ') : ∃ x, nextOf d.rest = some x ∧ x ≠ ',' := by
    obtain ⟨piece, same, no_space⟩ := h.exists_piece avoids
    exact nextOf_behind_word unblank comma next (whole.symm.trans same) no_space
  rcases reached with ⟨e, ⟨e', letters, arguments⟩, mark⟩ | function | letters
  · rcases arguments with arguments | rfl
    · -- type arguments begin with a bracket
      have needs : typeArguments.Needs '<' :=
        Or.inl (Or.inl (Or.inl (Or.inl fun _ same => eq_of_beq same)))
      have bracket := letters.suffix.subset (arguments.mem_of_needs needs)
      rcases List.mem_append.mp bracket with flag | text
      · have unmarked : '<' ∉ markText marked := by cases marked <;> decide
        exact absurd flag unmarked
      · exact absurd text no_bracket
    · have ident : identChar.Avoids ' ' := (by decide : Text.isIdentPart ' ' = false)
      have question : (char '?').Avoids ' ' := (by decide : (' ' == '?') = false)
      have token : (plus identChar ++ opt (char '?')).Reaches _ d := ⟨e, letters, mark⟩
      exact behind_word token (And.intro (And.intro ident ident) (And.intro question trivial))
  · have all : (Cursor.ofText (markText marked ++ s)).rest =
        markText marked ++ lead ++ '(' :: (argument.text ++ ')' :: ' ' :: (n.text ++ tail)) := by
      rw [List.append_assoc, ← here]
      rfl
    have none_before : '(' ∉ markText marked ++ lead := by
      have unmarked : '(' ∉ markText marked := by cases marked <;> decide
      simp [unmarked, no_parenthesis]
    obtain ⟨x, there, h⟩ := nextOf_behind_function all none_before function
    exact ⟨x, there, ne_of_isNameChar h (by decide)⟩
  · have letter : (wordOr "$.").Avoids ' ' :=
      (by decide : (Text.isWord ' ' || "$.".toList.contains ' ') = false)
    exact behind_word letters (And.intro letter letter)

end LoneTokens

/-! ## Choosing -/

theorem hasOuterComma_eq_false {s : List Char} (h : ',' ∉ s) (depth : Int) :
    hasOuterComma depth s = false := by
  induction s generalizing depth with
  | nil => rfl
  | cons x s ih =>
    obtain ⟨first, others⟩ := not_or.mp (mt List.mem_cons.mpr h)
    have other : decide (x = ',') = false := decide_eq_false (Ne.symm first)
    rw [hasOuterComma]
    split
    · exact ih others _
    · split
      · exact ih others _
      · rw [other, ih others, Bool.false_and, Bool.or_false]

/-- Characters of names, points, question marks and spaces are passed over. -/
theorem hasOuterComma_cons {x : Char} (h : isSimple x) (depth : Int) (s : List Char) :
    hasOuterComma depth (x :: s) = hasOuterComma depth s := by
  have other {m : Char} (hm : isSimple m = false) : decide (x = m) = false := by
    refine decide_eq_false fun same => ?_
    rw [← same, h] at hm
    cases hm
  rw [hasOuterComma, other (by decide), other (by decide), other (by decide), other (by decide),
    other (by decide), other (by decide), other (by decide)]
  simp only [Bool.false_or, Bool.false_and, Bool.false_eq_true, if_false]

theorem hasOuterComma_append {a : List Char} (h : ∀ x ∈ a, isSimple x) (depth : Int)
    (s : List Char) : hasOuterComma depth (a ++ s) = hasOuterComma depth s := by
  induction a with
  | nil => rfl
  | cons x a ih =>
    obtain ⟨here, others⟩ := List.forall_mem_cons.mp h
    rw [List.cons_append, hasOuterComma_cons here, ih others]

/-- A comma before the first bracket is an outer one. -/
theorem hasOuterComma_of_plain {lead s : List Char} (plain : ∀ x ∈ lead, isPlain x)
    (comma : ',' ∈ lead) : hasOuterComma 0 (lead ++ s) = true := by
  induction lead with
  | nil => cases comma
  | cons x lead ih =>
    obtain ⟨here, others⟩ := List.forall_mem_cons.mp plain
    rcases Bool.or_eq_true .. |>.mp here with simple | same
    · have later : ',' ∈ lead := by
        refine (List.mem_cons.mp comma).resolve_left ?_
        rintro rfl
        exact absurd simple (by decide)
      rw [List.cons_append, hasOuterComma_cons simple]
      exact ih others later
    · obtain rfl := eq_of_beq same
      rfl

theorem typedStop?_eq {s : List Char} {stop : Cursor}
    (found : functionSlot.atStart s = some stop ∨
      functionSlot.atStart s = none ∧ typedSlot.atStart s = some stop) :
    typedStop? s = if hasOuterComma 0 (stop.group 2) then none else some stop := by
  rcases found with function | ⟨no_function, typed⟩
  · rw [typedStop?, function]
    rfl
  · rw [typedStop?, no_function, Option.orElse_none, typed]

section Choice

variable {kind : SlotKind} {marked : Bool} {s t type name dflt : List Char}

/-- The parameter that a slot with a type and a name states. -/
def typedParameter (kind : SlotKind) (marked : Bool) (type name : List Char) : Parameter where
  type := String.ofList type
  name := some (String.ofList name)
  isNamed := kind = .named
  isRequired := kind = .named && marked
  isOptionalPositional := kind = .optional

theorem ofTypedSlot_typedTo (identifier : isIdentifier name)
    (here : s = type ++ ' ' :: (name ++ (dflt ++ tail))) (single : Text.squeeze type = type) :
    ofTypedSlot kind (typedTo (flagged marked s) type name dflt tail) =
      typedParameter kind marked type name := by
  have type_held : (typedTo (flagged marked s) type name dflt tail).group 2 = type := by
    rw [Cursor.group, group?_typedTo_type (rest_flagged.trans here), Option.getD_some]
  have name_held : (typedTo (flagged marked s) type name dflt tail).group 3 = name := by
    rw [Cursor.group, group?_typedTo_name, Option.getD_some]
  have tight : Text.Tight name := .of_unblank fun x hx =>
    not_isBlank_of_isNameChar (isNameChar_of_isIdentifier identifier x hx)
  have required : decide ((typedTo (flagged marked s) type name dflt tail).group? 1 =
      some "required".toList) = marked := by
    rw [group?_typedTo_flag, group?_flagged]
    cases marked
    · exact decide_eq_false nofun
    · exact decide_eq_true rfl
  rw [ofTypedSlot, type_held, name_held, required, single, tight.trim_eq, typedParameter]

theorem ofFieldSlot_fieldTo (required : kind ≠ .optional) :
    ofFieldSlot kind (fieldTo (fieldFlagged marked s) n tail) =
      Written.parameter kind ⟨marked, .field n⟩ := by
  have name : (fieldTo (fieldFlagged marked s) n tail).group 2 = n.text := by
    rw [Cursor.group, group?_fieldTo_name, Option.getD_some]
  have flag : ((fieldFlagged marked s).group? 1).isSome = marked := by cases marked <;> rfl
  have type : selfFieldMark ++ String.ofList n.text = String.ofList (Declared.field n).type := by
    rw [Declared.type_field, String.ofList_append, String.ofList_toList, selfFieldMark]
  have no_optional : decide (kind = .optional) = false := decide_eq_false required
  rw [ofFieldSlot, selfField, name, n.tight.trim_eq, group?_fieldTo_flag, flag, type,
    Written.parameter, no_optional]
  rfl

/-- A slot with the text `t` that holds a parameter, up to what `tail` says stands behind it. -/
structure ReadsOff (kind : SlotKind) (t tail : List Char) (p : Parameter) (stop : Cursor) :
    Prop where
  read : slot? kind (t ++ tail) = some (p, stop)
  after : afterSlot stop = tail.drop 1
  taken : 0 < stop.offset

/-- A type with a name is read off the first of the patterns for types that fits, if the type does
not reach into the next slot. -/
theorem readsOff_typedTo (identifier : isIdentifier name)
    (here : s = type ++ ' ' :: (name ++ (dflt ++ tail))) (text : t ++ tail = markText marked ++ s)
    (single : Text.squeeze type = type) (inner : hasOuterComma 0 type = false)
    (closes : Closes tail) (no_field : fieldSlot.atStart (markText marked ++ s) = none)
    (found : functionSlot.atStart (markText marked ++ s) =
        some (typedTo (flagged marked s) type name dflt tail) ∨
      functionSlot.atStart (markText marked ++ s) = none ∧
        typedSlot.atStart (markText marked ++ s) =
          some (typedTo (flagged marked s) type name dflt tail)) :
    ReadsOff kind t tail (typedParameter kind marked type name)
      (typedTo (flagged marked s) type name dflt tail) where
  read := by
    have held : (typedTo (flagged marked s) type name dflt tail).group 2 = type := by
      rw [Cursor.group, group?_typedTo_type (rest_flagged.trans here), Option.getD_some]
    rw [text, slot?, no_field, typedStop?_eq found, held, inner]
    exact congrArg (fun q => some (q, _)) (ofTypedSlot_typedTo identifier here single)
  after := afterSlot_typedTo closes
  taken := offset_typedTo_pos

/-- A parameter without a field is read as it is written. -/
theorem readsOff_written {p : Declared} {lead : List Char}
    (opens : Opens (p.text ++ tail) lead rest)
    (text : p.text = p.type ++ ' ' :: p.name.text) (single : Text.squeeze p.type = p.type)
    (closes : Closes tail)
    (found : functionSlot.atStart (markText marked ++ (p.text ++ tail)) =
        some (typedTo (flagged marked (p.text ++ tail)) p.type p.name.text [] tail) ∨
      functionSlot.atStart (markText marked ++ (p.text ++ tail)) = none ∧
        typedSlot.atStart (markText marked ++ (p.text ++ tail)) =
          some (typedTo (flagged marked (p.text ++ tail)) p.type p.name.text [] tail)) :
    ReadsOff kind (Written.mk marked p).text tail (Written.parameter kind ⟨marked, p⟩)
      (typedTo (flagged marked (p.text ++ tail)) p.type p.name.text [] tail) := by
  have here : p.text ++ tail = p.type ++ ' ' :: (p.name.text ++ ([] ++ tail)) := by
    rw [text, List.append_assoc, List.cons_append, List.nil_append]
  have comma : ',' ∉ p.type := fun h =>
    absurd (p.isWritten_of_mem ',' (text ▸ List.mem_append_left _ h)) (by decide)
  exact readsOff_typedTo p.name.identifier here (List.append_assoc _ _ _) single
    (hasOuterComma_eq_false comma 0) closes opens.no_field found

theorem squeeze_function (result argument : Name) :
    Text.squeeze (result.text ++ ' ' :: functionOf argument) =
      result.text ++ ' ' :: functionOf argument := by
  have word : ∀ c ∈ "Function".toList, Text.isBlank c = false := by decide
  have close : ∀ c ∈ [')'], Text.isBlank c = false := by decide
  have paren : Text.isBlank '(' = false := by decide
  have inner := List.forall_mem_append.mpr ⟨argument.unblank, close⟩
  have function : ∀ c ∈ functionOf argument, Text.isBlank c = false :=
    List.forall_mem_append.mpr ⟨word, List.forall_mem_cons.mpr ⟨paren, inner⟩⟩
  refine Text.squeeze_words result.unblank function result.text_ne_nil ?_
  exact List.append_ne_nil_of_right_ne_nil _ (List.cons_ne_nil _ _)

/-- A parameter is read off its slot, unless it has no function type and one follows. -/
theorem slot?_written (w : Written) (closes : Closes tail)
    (alone : w.declared.isTyped → '(' ∉ tail) (fits : w.declared.isField → kind ≠ .optional) :
    ∃ stop, ReadsOff kind w.text tail (w.parameter kind) stop := by
  obtain ⟨marked, p⟩ := w
  cases p with
  | typed type nullable name =>
    have opens := opens_typed type nullable name tail
    have no_parenthesis :
        '(' ∉ markText marked ++ ((Declared.typed type nullable name).text ++ tail) := by
      have simple :=
        (Written.mk marked (.typed type nullable name)).isSimple_of_mem Bool.false_ne_true
      rw [← List.append_assoc, List.mem_append, not_or]
      exact ⟨fun h => absurd (simple '(' h) (by decide), alone rfl⟩
    have no_function := functionSlot_eq_none (uncalled_of_not_mem no_parenthesis)
    exact ⟨_, readsOff_written opens rfl (Text.squeeze_of_unblank opens.unblank) closes
      (.inr ⟨no_function, typedSlot_atStart_typed type nullable marked name closes⟩)⟩
  | function result argument name =>
    have opens := opens_function result argument name tail
    exact ⟨_, readsOff_written opens rfl (squeeze_function result argument) closes
      (.inl (functionSlot_atStart opens opens.here result.text_ne_nil
        (fun x hx => isPlain_of_isSimple (result.isSimple_of_mem x hx)) closes))⟩
  | field name =>
    refine ⟨fieldTo (fieldFlagged marked ((Declared.field name).text ++ tail)) name tail, ?_,
      afterSlot_fieldTo closes, offset_fieldTo_pos⟩
    rw [Written.text, List.append_assoc, slot?, fieldSlot_atStart closes,
      ← ofFieldSlot_fieldTo (fits rfl)]

/-- Before a function type, behind other parameters, a parameter without one is not read: all the
text up to the function type is taken for its return type, which holds a comma then, and the pattern
for other types is not tried any more. -/
theorem slot?_stuck {type name argument : Name} {nullable : Bool} {lead tail' : List Char}
    (ahead : tail = lead ++ ' ' :: (functionOf argument ++ ' ' :: (n.text ++ tail')))
    (plain : ∀ x ∈ lead, isPlain x) (comma : ',' ∈ lead) (closes : Closes tail')
    (no_bracket : '<' ∉ tail) :
    slot? kind ((Written.mk marked (.typed type nullable name)).text ++ tail) = none := by
  have opens := opens_typed type nullable name tail
  have simple := (Declared.typed type nullable name).isSimple_of_mem Bool.false_ne_true
  have taken : ∀ x ∈ (Declared.typed type nullable name).text ++ lead, isPlain x :=
    List.forall_mem_append.mpr ⟨fun x hx => isPlain_of_isSimple (simple x hx), plain⟩
  have here : (Declared.typed type nullable name).text ++ tail =
      (Declared.typed type nullable name).text ++ lead ++
        ' ' :: (functionOf argument ++ ' ' :: (n.text ++ tail')) := by
    rw [ahead, List.append_assoc]
  have some_lead : (Declared.typed type nullable name).text ++ lead ≠ [] :=
    List.append_ne_nil_of_right_ne_nil _ (List.ne_nil_of_mem comma)
  have function :
      functionSlot.atStart (markText marked ++ ((Declared.typed type nullable name).text ++ tail)) =
        some (typedTo _ _ _ _ _) :=
    functionSlot_atStart opens here some_lead taken closes
  have no_type :
      typedStop? (markText marked ++ ((Declared.typed type nullable name).text ++ tail)) =
        none := by
    have split : (Declared.typed type nullable name).text ++ tail =
        (Declared.typed type nullable name).text ++ lead ++ ' ' :: functionOf argument ++
          ' ' :: (n.text ++ tail') := by
      rw [here]
      simp only [List.append_assoc, List.cons_append]
    have outer := hasOuterComma_of_plain (s := ' ' :: functionOf argument) taken
      (List.mem_append_right _ comma)
    rw [typedStop?_eq (.inl function), Cursor.group, group?_typedTo_type (rest_flagged.trans split),
      Option.getD_some, if_pos outer]
  have no_token :
      loneSlot.atStart (markText marked ++ ((Declared.typed type nullable name).text ++ tail)) =
        none := by
    have paren : (Declared.typed type nullable name).text ++ tail =
        ((Declared.typed type nullable name).text ++ lead ++ ' ' :: "Function".toList) ++
          '(' :: (argument.text ++ ')' :: ' ' :: (n.text ++ tail')) := by
      rw [here, Declared.functionOf_append]
      simp only [List.append_assoc, List.cons_append]
    refine loneSlot_eq_none opens paren ?_ ?_
    · have word : '(' ∉ ' ' :: "Function".toList := by decide
      rw [List.mem_append, not_or]
      exact ⟨fun h => absurd (taken '(' h) (by decide), word⟩
    · rw [List.mem_append, not_or]
      exact ⟨fun h => absurd (simple '<' h) (by decide), no_bracket⟩
  rw [Written.text, List.append_assoc, slot?, opens.no_field, no_type, no_token]
  rfl

end Choice

end CodeAtlas.Parameters
