import CodeAtlas.Proofs.CommaLists
import CodeAtlas.Proofs.TypeArguments

/-!
Parameters with any type expression for their type, and perhaps a default value. One of them is read
off its slot if its type does not split and is no flag that the next parameter stands behind
(`readsOff_typed`); otherwise its slot is read as another parameter (`not_read`). So a list without
default values is read back exactly if that holds of all its members (`type_arguments_read`).
-/
namespace CodeAtlas

/-! ## Types in front of names -/

namespace TypeExpression

open Parameters

variable {t : TypeExpression} {rest u w : List Char}

/-- Whether the expression is one of the words that flag a parameter. -/
def isFlag (t : TypeExpression) : Bool := t.isBare && flagWords.contains t.name.text

theorem isFlag_iff : t.isFlag ↔ t.isBare ∧ t.name.text ∈ flagWords := by
  rw [isFlag, Bool.and_eq_true, List.contains_iff_mem]

/-- An expression that is more than a name has a mark behind a name. -/
theorem exists_mark (h : ¬ t.isBare) : ∃ (n : Identifier) (x : Char) (rest : List Char),
    t.text = n.text ++ x :: rest ∧ x ∈ ['.', '<', '?'] := by
  obtain ⟨library, name, arguments, nullable⟩ := t
  cases library with
  | some library =>
    refine ⟨library, '.', name.text ++ (argumentText arguments ++ questionText nullable), ?_,
      by decide⟩
    simp [text, libraryText]
  | none =>
    cases arguments with
    | cons t ts =>
      refine ⟨name, '<', t.text ++ furtherText ts ++ questionText nullable, ?_, by decide⟩
      simp [text, libraryText, argumentText]
    | nil =>
      cases nullable with
      | true =>
        refine ⟨name, '?', [], ?_, by decide⟩
        simp [text, libraryText, argumentText, questionText]
      | false => exact absurd rfl h

/-- A word with a gap behind it stands before a name only if it is the type. -/
theorem eq_of_leads_text (unblank : ∀ x ∈ w, Text.isBlank x = false)
    (unmarked : ∀ x ∈ ['.', '<', '?'], x ∉ w) (begins : Begins rest)
    (leads : Leads w (t.text ++ ' ' :: rest) u) : t.isBare ∧ t.name.text = w ∧ rest = u := by
  by_cases bare : t.isBare
  · rw [text_of_isBare bare] at leads
    exact ⟨bare, eq_of_leads t.name.unblank unblank begins leads⟩
  · -- behind the word a mark would stand, and no gap
    obtain ⟨n, x, behind, marked, mark⟩ := exists_mark bare
    obtain ⟨gap, here, some_gap, blank⟩ := leads
    rw [marked, List.append_assoc, List.cons_append] at here
    obtain ⟨more, whole, behind⟩ := Text.exists_of_piece_before here (unmarked x mark)
    obtain ⟨y, gap, rfl⟩ := List.exists_cons_of_ne_nil some_gap
    have hy := blank y List.mem_cons_self
    cases more with
    | nil =>
      obtain ⟨rfl, -⟩ := List.cons.inj behind
      have unblank_marks : ∀ x ∈ ['.', '<', '?'], Text.isBlank x = false := by decide
      rw [unblank_marks y mark] at hy
      cases hy
    | cons z more =>
      obtain ⟨rfl, -⟩ := List.cons.inj behind
      rw [n.unblank y (whole ▸ List.mem_append_right _ List.mem_cons_self)] at hy
      cases hy

/-- No field stands where a type and a name do. -/
theorem fieldless_text (t : TypeExpression) (begins : Begins rest) :
    Fieldless (t.text ++ ' ' :: rest) := by
  obtain ⟨library, name, arguments, nullable⟩ := t
  cases library with
  | none =>
    have dot : '.' ∉ name.text := name.not_mem (by decide)
    have whole : (mk none name arguments nullable).text ++ ' ' :: rest =
        name.text ++ (argumentText arguments ++ (questionText nullable ++ ' ' :: rest)) := by
      simp [text, libraryText]
    rw [whole]
    cases arguments with
    | cons t ts => exact fieldless_of_piece (x := '<') dot (by decide)
    | nil =>
      cases nullable with
      | true => exact fieldless_of_piece (x := '?') dot (by decide)
      | false => exact fieldless_of_piece (x := ' ') dot (by decide)
  | some library =>
    intro field same ends
    -- what stands behind the point ends no slot, since a name follows
    have word : "this.".toList = "this".toList ++ ['.'] := by decide
    have whole : (mk (some library) name arguments nullable).text ++ ' ' :: rest =
        library.text ++ '.' :: ((mk none name arguments nullable).text ++ ' ' :: rest) := by
      simp [text, libraryText]
    rw [whole, word, List.append_assoc, List.singleton_append] at same
    obtain ⟨-, rfl⟩ := Text.eq_of_cut_at_first (library.not_mem (by decide)) (by decide) same
    have space : ∀ x ∈ (' ' :: rest).head?, ¬ Text.isIdentPart x :=
      forall_mem_head?_cons (by decide)
    obtain ⟨-, ends⟩ := (endsName_text _ space).mp ends
    obtain ⟨x, others, rfl, letter⟩ := begins
    have next : nextOf ([' '] ++ x :: others) = some x := by
      rw [nextOf_append (List.forall_mem_singleton.mpr (by decide)),
        nextOf_of_unblank (not_isBlank_of_isNameChar letter)]
    rcases ends x next with rfl | rfl
    · exact absurd letter (by decide)
    · exact absurd letter (by decide)

theorem typeChar_of_mem (t : TypeExpression) : ∀ x ∈ t.text, typeChar x := by
  intro x hx
  rcases Bool.or_eq_true .. |>.mp (t.isTypeChar_of_mem x hx) with letter | mark
  · exact textOr_of_isNameChar (by decide) letter
  · have marks : ∀ y ∈ ['.', '<', '>', ',', ' ', '?'], typeChar y := by decide
    exact marks x (List.contains_iff_mem.mp mark)

end TypeExpression

namespace Parameters

open Pattern TypeExpression

/-! ## Parameters -/

/-- A default value as it is written. -/
structure Expression where
  text : List Char
  some_text : text ≠ []
  tight : Text.Tight text

/-- A parameter with a type and a name, and perhaps a default value. -/
structure Typed where
  type : TypeExpression
  name : Identifier
  default? : Option Expression := none

namespace Typed

def defaultText (m : Typed) : List Char :=
  match m.default? with
  | none => []
  | some e => " = ".toList ++ e.text

def text (m : Typed) : List Char := m.type.text ++ ' ' :: (m.name.text ++ m.defaultText)

/-- The parameter that is declared in a segment. -/
def parameter (kind : SlotKind) (m : Typed) : Parameter where
  type := String.ofList m.type.text
  name := some (String.ofList m.name.text)
  isNamed := kind = .named
  isOptionalPositional := kind = .optional

variable (m : Typed)

theorem parameter_eq (kind : SlotKind) :
    m.parameter kind = typedParameter kind false m.type.text m.name.text := by
  rw [parameter, typedParameter, Bool.and_false]

theorem text_ne_nil : m.text ≠ [] := List.append_ne_nil_of_left_ne_nil m.type.text_ne_nil _

theorem last_name : ∀ c ∈ (m.type.text ++ ' ' :: m.name.text).getLast?, isNameChar c := by
  intro c hc
  rw [← List.singleton_append, ← List.append_assoc,
    List.getLast?_append_of_ne_nil _ m.name.text_ne_nil] at hc
  exact m.name.isNameChar_of_mem c (List.mem_of_getLast? hc)

theorem last_of_plain (plain : m.default? = none) : ∀ c ∈ m.text.getLast?, isNameChar c := by
  have named : m.text = m.type.text ++ ' ' :: m.name.text := by
    rw [text, defaultText, plain, List.append_nil]
  rw [named]
  exact m.last_name

theorem isMember : IsMember m.text where
  some_text := m.text_ne_nil
  tight := by
    refine ⟨?_, fun c hc => ?_⟩
    · have begins : Begins m.text := m.type.begins
      exact begins.unblank
    · have split : m.text = m.type.text ++ ' ' :: m.name.text ++ m.defaultText := by simp [text]
      rw [split] at hc
      cases h : m.default? with
      | none =>
        rw [defaultText, h, List.append_nil] at hc
        exact not_isBlank_of_isNameChar (m.last_name c hc)
      | some e =>
        rw [defaultText, h, ← List.append_assoc,
          List.getLast?_append_of_ne_nil _ e.some_text] at hc
        exact e.tight.last c hc

theorem members (ms : List Typed) : ∀ t ∈ ms.map text, IsMember t :=
  List.forall_mem_map.mpr fun m _ => m.isMember

/-- Without default values there are only characters of types. -/
theorem not_mem_texts {ms : List Typed} (plain : ∀ m ∈ ms, m.default? = none) {x : Char}
    (h : isTypeChar x = false) : ∀ t ∈ ms.map text, x ∉ t := by
  refine List.forall_mem_map.mpr fun m hm => ?_
  have space : x ≠ ' ' := by
    rintro rfl
    cases h
  have name : x ∉ m.name.text := fun hx =>
    Bool.false_ne_true (h.symm.trans (isTypeChar_of_mem_name m.name x hx))
  rw [text, defaultText, plain m hm, List.append_nil, List.mem_append, List.mem_cons, not_or,
    not_or]
  exact ⟨m.type.not_mem_text h, space, name⟩

theorem ends_texts {ms : List Typed} (plain : ∀ m ∈ ms, m.default? = none) :
    ∀ t ∈ ms.map text, ∀ c ∈ t.getLast?, c ≠ ',' :=
  List.forall_mem_map.mpr fun m hm c hc =>
    ne_of_isNameChar (m.last_of_plain (plain m hm) c hc) (by decide)

/-- Parentheses stand in default values only. -/
theorem uncalled_default {rest : List Char} (h : Uncalled rest) :
    Uncalled (m.defaultText ++ rest) := by
  cases default : m.default? with
  | none =>
    rw [defaultText, default]
    exact h
  | some e =>
    have word : " = ".toList = [' '] ++ ['=', ' '] := by decide
    rw [defaultText, default, word]
    exact uncalled_of_equals (a := [' ']) (by decide) (' ' :: (e.text ++ rest))

theorem uncalled_following (ms : List Typed) : Uncalled (following (ms.map text)) := by
  induction ms with
  | nil => exact uncalled_of_not_mem List.not_mem_nil
  | cons m ms ih =>
    have before : '(' ∉ ", ".toList ++ (m.type.text ++ ' ' :: m.name.text) := by
      simp only [List.mem_append, List.mem_cons, not_or]
      exact ⟨by decide, m.type.not_mem_text (by decide), by decide, m.name.not_mem (by decide)⟩
    rw [List.map_cons, following_cons]
    simpa [text] using (m.uncalled_default ih).append before

end Typed

section Slots

variable {kind : SlotKind} {t : TypeExpression} {n : Identifier} {c d : Cursor}
  {dflt tail : List Char} {fuel : Nat}

/-- Between a name and its default value, or the end of the text, there is no other name. -/
theorem not_nameFollows {piece rest : List Char} (same : n.text ++ (dflt ++ tail) = piece ++ rest)
    (unset : '=' ∉ piece) (default : IsDefault dflt) (alone : dflt ≠ [] ∨ tail = []) :
    ¬ NameFollows rest := by
  rintro ⟨gap, rest, rfl, some_gap, blank, name, rest', rfl, some_name, ident, -⟩
  obtain ⟨x, gap, rfl⟩ := List.exists_cons_of_ne_nil some_gap
  have hx : x ∈ x :: gap := List.mem_cons_self
  -- the gap would stand within the name
  suffices inside : x ∈ n.text by
    have unblank := n.unblank x inside
    rw [blank x hx] at unblank
    cases unblank
  rcases default with rfl | ⟨e, rfl, -, -⟩
  · obtain rfl := alone.resolve_left (not_not_intro rfl)
    rw [List.append_nil, List.append_nil] at same
    exact same ▸ List.mem_append_right _ (List.mem_append_left _ hx)
  · have word : " =".toList = [' '] ++ ['='] := by decide
    have read : n.text ++ [' '] ++ '=' :: (e ++ tail) = piece ++ (x :: gap) ++ name ++ rest' := by
      simpa [word] using same
    have free : '=' ∉ piece ++ (x :: gap) ++ name := by
      rw [List.mem_append, List.mem_append, not_or, not_or]
      exact ⟨⟨unset, fun h => absurd (blank _ h) (by decide)⟩,
        fun h => absurd (ident _ h) (by decide)⟩
    obtain ⟨more, whole, -⟩ := Text.exists_of_piece_before read free
    -- the last character of the name and the space is none of the gap
    have some_rest : name ++ more ≠ [] := List.append_ne_nil_of_left_ne_nil some_name _
    have shorter : n.text = piece ++ (x :: gap) ++ (name ++ more).dropLast := by
      have cut := congrArg List.dropLast whole
      rwa [List.dropLast_concat, List.append_assoc, List.dropLast_append_of_ne_nil some_rest] at cut
    rw [shorter]
    exact List.mem_append_left _ (List.mem_append_right _ hx)

/-- Behind a flag word the name alone makes no slot. -/
theorem run_typedPart_of_flag (here : d.rest = n.text ++ (dflt ++ tail))
    (default : IsDefault dflt) (uncalled : Uncalled (dflt ++ tail))
    (alone : dflt ≠ [] ∨ tail = []) : run fuel typedPart d some = none := by
  have called : Uncalled d.rest := by
    rw [here]
    exact uncalled.append (n.not_mem (by decide))
  refine run_eq_none fun e reached => ?_
  obtain ⟨e₂, ⟨e₁, ⟨f, inner, rfl⟩, named⟩, ended⟩ := reached
  have behind : (slotName 3 ++ slotEnd).Reaches (f.keep 2 d) e := ⟨e₂, named, ended⟩
  have follows : NameFollows (f.keep 2 d).rest := nameFollows_of_slotName behind
  rw [Cursor.rest_keep] at follows
  rcases inner with letters | function
  · obtain ⟨piece, rest, -, there, fits, rfl⟩ := reaches_repeated letters
    have unset : '=' ∉ piece := fun h => absurd (fits _ h) (by decide)
    exact absurd follows (not_nameFollows (here.symm.trans there) unset default alone)
  · exact absurd function (not_functionWord called)

theorem head_behind (default : IsDefault dflt) (closes : Closes tail) :
    ∀ x ∈ (dflt ++ tail).head?, x = ' ' ∨ x = ',' := by
  rcases default with rfl | ⟨e, rfl, -, -⟩
  · exact fun x hx => .inr (closes x hx)
  · exact forall_mem_head?_cons (.inl rfl)

/-- A name with nothing or a default value behind it is no field. -/
theorem fieldless_name (default : IsDefault dflt) (closes : Closes tail) :
    Fieldless (n.text ++ (dflt ++ tail)) := by
  have dot : '.' ∉ n.text := n.not_mem (by decide)
  have head := head_behind default closes
  cases behind : dflt ++ tail with
  | nil =>
    rw [List.append_nil]
    exact fieldless_of_not_mem dot
  | cons x rest =>
    rcases head x (by rw [behind]; rfl) with rfl | rfl
    · exact fieldless_of_piece dot (by decide)
    · exact fieldless_of_piece dot (by decide)

theorem no_field_typed (default : IsDefault dflt) (closes : Closes tail) :
    fieldSlot.atStart (t.text ++ ' ' :: (n.text ++ (dflt ++ tail))) = none := by
  refine fieldSlot_eq_none t.begins (fieldless_text t n.begins) fun rest leads => ?_
  obtain ⟨-, -, rfl⟩ := eq_of_leads_text (by decide) (by decide) n.begins leads
  exact fieldless_name default closes

theorem no_function_typed (uncalled : Uncalled (dflt ++ tail)) :
    functionSlot.atStart (t.text ++ ' ' :: (n.text ++ (dflt ++ tail))) = none := by
  have before : '(' ∉ t.text ++ ' ' :: n.text := by
    rw [List.mem_append, List.mem_cons, not_or, not_or]
    exact ⟨t.not_mem_text (by decide), by decide, n.not_mem (by decide)⟩
  exact functionSlot_eq_none (by simpa using uncalled.append before)

/-- A parameter is read off its slot, unless its type splits or is a flag that another parameter
follows. -/
theorem readsOff_typed (whole : t.splits = false) (default : IsDefault dflt)
    (closes : Closes tail) (uncalled : Uncalled (dflt ++ tail))
    (alone : t.isFlag → dflt ≠ [] ∨ tail = []) :
    ReadsOff kind (t.text ++ ' ' :: (n.text ++ dflt)) tail
      (typedParameter kind false t.text n.text)
      (typedTo (flagged false (t.text ++ ' ' :: (n.text ++ (dflt ++ tail)))) t.text n.text dflt
        tail) := by
  have begins : Begins (t.text ++ ' ' :: (n.text ++ (dflt ++ tail))) := t.begins
  have untorn : ¬ Torn t.text (' ' :: (n.text ++ (dflt ++ tail))) := by
    rw [torn_text, whole]
    exact Bool.false_ne_true
  have inner : hasOuterComma 0 t.text = false := by
    have commas := hasOuterComma_text t 0 (by decide) []
    rwa [List.append_nil] at commas
  have refused : ∀ d, flagPart.Reaches (.ofText (t.text ++ ' ' :: (n.text ++ (dflt ++ tail)))) d →
      run (t.text ++ ' ' :: (n.text ++ (dflt ++ tail))).length typedPart d some = none := by
    intro d reached
    obtain ⟨w, flag, leads⟩ := exists_of_flagPart reached
    have unmarked : ∀ w ∈ flagWords, ∀ x ∈ ['.', '<', '?'], x ∉ w := by decide
    obtain ⟨bare, rfl, behind⟩ := eq_of_leads_text (unblank_of_mem_flagWords w flag)
      (unmarked w flag) n.begins leads
    exact run_typedPart_of_flag behind.symm default uncalled (alone (isFlag_iff.mpr ⟨bare, flag⟩))
  have typed := typedSlot_atStart false begins rfl t.text_ne_nil t.typeChar_of_mem
    untorn n.identifier default closes fun _ => refused
  exact readsOff_typedTo n.identifier rfl (by simp [markText]) t.squeeze_text inner closes
    (no_field_typed default closes) (.inr ⟨no_function_typed uncalled, typed⟩)

end Slots

/-! ## Parameters that are not read -/

section Unread

variable {t : TypeExpression} {n : Identifier} {c d stop : Cursor} {p : Parameter} {fuel : Nat}
  {s lead tail : List Char}

/-- Without a field and a function type a slot holds a type and a name, or a lone token. -/
theorem slot?_cases (no_field : fieldSlot.atStart s = none)
    (no_function : functionSlot.atStart s = none) (h : slot? .required s = some (p, stop)) :
    (typedSlot.atStart s = some stop ∧ hasOuterComma 0 (stop.group 2) = false ∧
      p.type = String.ofList (Text.squeeze (stop.group 2))) ∨
    p.name = none ∨ p.type = "dynamic" := by
  rw [slot?, no_field] at h
  cases typed : typedStop? s with
  | some stop' =>
    rw [typed] at h
    cases h
    rw [typedStop?, no_function, Option.orElse_none] at typed
    cases found : typedSlot.atStart s with
    | none =>
      rw [found] at typed
      cases typed
    | some stop' =>
      rw [found] at typed
      dsimp only at typed
      split at typed
      · cases typed
      · rename_i inner
        cases typed
        exact .inl ⟨rfl, Bool.eq_false_iff.mpr inner, rfl⟩
  | none =>
    rw [typed] at h
    obtain ⟨stop', -, same⟩ := Option.map_eq_some_iff.mp h
    cases same
    right
    by_cases isType : looksLikeType (Text.squeeze (stop.group 1))
    · exact .inl (by simp [ofLoneSlot, isType])
    · exact .inr (by simp [ofLoneSlot, isType])

/-- Of a type that splits only a part is read. -/
theorem typedSlot_of_splits (splits : t.splits) (plain : '=' ∉ tail) :
    ∃ stop less, typedSlot.atStart (t.text ++ ' ' :: (n.text ++ tail)) = some stop ∧
      stop.group? 2 = some less ∧ less.length < t.text.length := by
  have begins : Begins (t.text ++ ' ' :: (n.text ++ tail)) := t.begins
  have unset : '=' ∉ t.text ++ ' ' :: (n.text ++ tail) := by
    simp only [List.mem_append, List.mem_cons, not_or]
    exact ⟨t.not_mem_text (by decide), by decide, n.not_mem (by decide), plain⟩
  obtain ⟨less, stop, shorter, found, held⟩ := exists_run_typedPart
    (c := flagged false (t.text ++ ' ' :: (n.text ++ tail))) rest_flagged t.tight.first
    t.typeChar_of_mem ((torn_text t _).mpr splits) unset (Nat.le_refl _)
  refine ⟨stop, less, ?_, held, shorter⟩
  rw [atStart, matchAt, run_typedSlot]
  refine run_slotFlag false begins found fun _ d reached => ?_
  -- a type that splits is no flag
  obtain ⟨w, flag, leads⟩ := exists_of_flagPart reached
  have unmarked : ∀ w ∈ flagWords, ∀ x ∈ ['.', '<', '?'], x ∉ w := by decide
  obtain ⟨bare, -, -⟩ := eq_of_leads_text (unblank_of_mem_flagWords w flag) (unmarked w flag)
    n.begins leads
  rw [not_splits_of_isBare bare] at splits
  cases splits

theorem typedPart_reaches (here : c.rest = lead ++ ' ' :: n.text) (some_lead : lead ≠ [])
    (fits : ∀ x ∈ lead, typeChar x) : ∃ d, typedPart.Reaches c d := by
  have typed := repeated_reaches false here some_lead fits
  have begins : Begins (n.text ++ []) := n.begins
  have stops : ∀ x ∈ ([] : List Char).head?, ¬ Text.isIdentPart x := fun _ h => nomatch h
  have follows : NameFollows (' ' :: (n.text ++ [])) :=
    (nameFollows_space begins).mpr ((endsName_name stops).mpr ends_nil)
  have plain : '=' ∉ ' ' :: n.text := by
    rw [List.mem_cons, not_or]
    exact ⟨by decide, n.not_mem (by decide)⟩
  rw [List.append_nil] at follows
  obtain ⟨d, e, named, ended⟩ :=
    slotName_reaches (c := (c.past lead (' ' :: n.text)).keep 2 c) follows plain
  exact ⟨d, e, ⟨_, ⟨_, .inl typed, rfl⟩, named⟩, ended⟩

/-- What is taken for a type before a comma reaches over the comma. -/
theorem outer_of_typedPart {rest : List Char} (here : c.rest = n.text ++ ',' :: rest)
    (reached : typedPart.Reaches c d) :
    hasOuterComma 0 (d.group 2) = true := by
  obtain ⟨e₂, ⟨e₁, captured, named⟩, ended⟩ := reached
  obtain ⟨f, piece, -, read, same, held⟩ := captured.exists_captured
  have follows : NameFollows e₁.rest := nameFollows_of_slotName ⟨e₂, named, ended⟩
  have kept : d.group? 2 = some piece := by
    rw [ended.group?_eq (by decide), named.group?_eq (by decide), held]
  rw [Cursor.group, kept, Option.getD_some]
  rw [same] at follows
  have letters : ∀ x ∈ n.text, isSimple x := fun x hx =>
    isSimple_of_isNameChar (n.isNameChar_of_mem x hx)
  rcases List.append_eq_append_iff.mp (here.symm.trans read) with
    ⟨more, rfl, behind⟩ | ⟨more, whole, behind⟩
  · cases more with
    | nil =>
      rw [List.nil_append] at behind
      exact absurd (behind ▸ follows) (not_nameFollows_cons (by decide))
    | cons x more =>
      obtain ⟨rfl, -⟩ := List.cons.inj behind
      rw [hasOuterComma_append letters]
      rfl
  · -- no gap stands before the comma
    rw [behind] at follows
    cases more with
    | nil => exact absurd follows (not_nameFollows_cons (by decide))
    | cons x more =>
      have inside : x ∈ n.text := whole ▸ List.mem_append_right _ List.mem_cons_self
      exact absurd follows (not_nameFollows_cons (n.unblank x inside))

/-- Behind a flag word the slot reaches into the next parameter. -/
theorem typedSlot_of_flag {last : Identifier} (flag : t.isFlag)
    (here : tail = ',' :: (lead ++ ' ' :: last.text)) (fits : ∀ x ∈ lead, typeChar x) :
    ∃ stop, typedSlot.atStart (t.text ++ ' ' :: (n.text ++ tail)) = some stop ∧
      hasOuterComma 0 (stop.group 2) = true := by
  obtain ⟨bare, word⟩ := isFlag_iff.mp flag
  have begins : Begins (t.text ++ ' ' :: (n.text ++ tail)) := t.begins
  generalize whole : t.text ++ ' ' :: (n.text ++ tail) = s at begins ⊢
  -- the slot that begins behind the flag can end with the last parameter
  obtain ⟨d, flagged, rest⟩ : ∃ d, flagPart.Reaches (.ofText s) d ∧ d.rest = n.text ++ tail :=
    flagPart_reaches word (by rw [← whole, text_of_isBare bare]; rfl)
  have split : d.rest = n.text ++ ',' :: lead ++ ' ' :: last.text := by
    rw [rest, here]
    simp
  have letters : ∀ x ∈ n.text ++ ',' :: lead, typeChar x := by
    refine List.forall_mem_append.mpr ⟨fun x hx => ?_, List.forall_mem_cons.mpr ⟨by decide, fits⟩⟩
    exact textOr_of_isNameChar (by decide) (n.isNameChar_of_mem x hx)
  obtain ⟨e, typed⟩ := typedPart_reaches split
    (List.append_ne_nil_of_left_ne_nil n.text_ne_nil _) letters
  have room : d.rest.length ≤ s.length := flagged.suffix.length_le
  have accepted : (run s.length flagPart (.ofText s)
      fun e => run s.length typedPart e some).isSome :=
    isSome_run steady_flagPart (Nat.le_refl _) flagged (isSome_run steady_typedPart room typed rfl)
  obtain ⟨stop, found⟩ := Option.isSome_iff_exists.mp accepted
  refine ⟨stop, ?_, ?_⟩
  · rw [atStart, matchAt, run_typedSlot, run_append, run_append, run_atStart,
      run_blanks begins.unblank, slotFlag_eq]
    exact run_opt_of_some found
  · obtain ⟨d', flagged', found'⟩ := exists_reaches_of_run found
    obtain ⟨stop', typed', same⟩ := exists_reaches_of_run found'
    obtain rfl : stop' = stop := Option.some.inj same
    -- whichever way the flag is read, the name comes next
    obtain ⟨w, flag', leads⟩ := exists_of_flagPart flagged'
    have unmarked : ∀ w ∈ flagWords, ∀ x ∈ ['.', '<', '?'], x ∉ w := by decide
    have leads : Leads w s d'.rest := leads
    rw [← whole] at leads
    obtain ⟨-, -, behind⟩ := eq_of_leads_text (unblank_of_mem_flagWords w flag')
      (unmarked w flag') n.begins leads
    rw [here] at behind
    exact outer_of_typedPart behind.symm typed'

end Unread

/-! ## Lists -/

section Lists

variable {m : Typed} {ms : List Typed} {stop : Cursor}

/-- A parameter is read with its default value up to a comma, and then what stands behind the
comma. -/
theorem slotsOf_typed (kind : SlotKind) {dflt more : List Char} (whole : m.type.splits = false)
    (split : m.defaultText = dflt ++ more) (default : IsDefault dflt)
    (closes : Closes (more ++ following (ms.map Typed.text)))
    (alone : m.type.isFlag → dflt ≠ [] ∨ more ++ following (ms.map Typed.text) = []) :
    slotsOf kind (m.text ++ following (ms.map Typed.text)) =
      m.parameter kind :: slots kind ((more ++ following (ms.map Typed.text)).drop 1) := by
  have uncalled : Uncalled (dflt ++ (more ++ following (ms.map Typed.text))) := by
    rw [← List.append_assoc, ← split]
    exact m.uncalled_default (Typed.uncalled_following ms)
  have reads : ReadsOff kind (m.type.text ++ ' ' :: (m.name.text ++ dflt))
      (more ++ following (ms.map Typed.text)) _ _ :=
    readsOff_typed whole default closes uncalled alone
  have text : m.text ++ following (ms.map Typed.text) =
      (m.type.text ++ ' ' :: (m.name.text ++ dflt)) ++ (more ++ following (ms.map Typed.text)) := by
    simp [Typed.text, split]
  rw [text, m.parameter_eq]
  exact slotsOf_step (List.append_ne_nil_of_left_ne_nil m.type.text_ne_nil _) reads

/-- A list without default values ends with a name behind a space. -/
theorem exists_last (plain : ∀ m ∈ ms, m.default? = none) (some_member : ms ≠ []) :
    ∃ lead, ∃ last : Identifier, following (ms.map Typed.text) = ',' :: (lead ++ ' ' :: last.text) ∧
      ∀ x ∈ lead, typeChar x := by
  induction ms with
  | nil => exact absurd rfl some_member
  | cons m ms ih =>
    obtain ⟨here, others⟩ := List.forall_mem_cons.mp plain
    have word : ", ".toList = [',', ' '] := by decide
    have text : m.text = m.type.text ++ ' ' :: m.name.text := by
      rw [Typed.text, Typed.defaultText, here, List.append_nil]
    have space : typeChar ' ' := by decide
    rw [List.map_cons, following_cons, word, text]
    by_cases more : ms = []
    · subst more
      refine ⟨' ' :: m.type.text, m.name, ?_, ?_⟩
      · simp [following]
      · exact List.forall_mem_cons.mpr ⟨space, m.type.typeChar_of_mem⟩
    · obtain ⟨lead, last, behind, fits⟩ := ih others more
      refine ⟨' ' :: (m.type.text ++ ' ' :: m.name.text ++ ',' :: lead), last, ?_, ?_⟩
      · simp [behind]
      · have name : ∀ x ∈ ' ' :: m.name.text, typeChar x :=
          List.forall_mem_cons.mpr ⟨space, fun x hx =>
            textOr_of_isNameChar (by decide) (m.name.isNameChar_of_mem x hx)⟩
        have comma : ∀ x ∈ ',' :: lead, typeChar x := List.forall_mem_cons.mpr ⟨by decide, fits⟩
        exact List.forall_mem_cons.mpr ⟨space, List.forall_mem_append.mpr
          ⟨List.forall_mem_append.mpr ⟨m.type.typeChar_of_mem, name⟩, comma⟩⟩

/-- The type of a parameter that is read is what the slot has for its type, or `dynamic`. -/
theorem type_of_slot? (here : m.default? = none)
    (read : slot? .required (m.text ++ following (ms.map Typed.text)) =
      some (m.parameter .required, stop)) :
    (typedSlot.atStart (m.type.text ++ ' ' :: (m.name.text ++ following (ms.map Typed.text))) =
        some stop ∧ hasOuterComma 0 (stop.group 2) = false ∧
      m.type.text = Text.squeeze (stop.group 2)) ∨ m.type.text = "dynamic".toList := by
  have text : m.text ++ following (ms.map Typed.text) =
      m.type.text ++ ' ' :: (m.name.text ++ ([] ++ following (ms.map Typed.text))) := by
    simp [Typed.text, Typed.defaultText, here]
  have uncalled : Uncalled ([] ++ following (ms.map Typed.text)) := Typed.uncalled_following ms
  have no_field := no_field_typed (t := m.type) (n := m.name) (.inl rfl)
    (closes_following (ms.map Typed.text))
  have no_function := no_function_typed (t := m.type) (n := m.name) uncalled
  rw [text] at read
  rcases slot?_cases no_field no_function read with ⟨found, inner, type⟩ | unnamed | dynamic
  · exact .inl ⟨found, inner, String.ofList_injective type⟩
  · cases unnamed
  · exact .inr (String.ofList_injective dynamic)

/-- A parameter whose type splits is not read. -/
theorem slot?_ne_of_splits (here : m.default? = none) (others : ∀ v ∈ ms, v.default? = none)
    (splits : m.type.splits) : slot? .required (m.text ++ following (ms.map Typed.text)) ≠
      some (m.parameter .required, stop) := by
  intro read
  rcases type_of_slot? here read with ⟨found, -, type⟩ | dynamic
  · have unset : '=' ∉ following (ms.map Typed.text) :=
      not_mem_following (by decide) (Typed.not_mem_texts others (by decide))
    obtain ⟨stop', less, found', held, shorter⟩ := typedSlot_of_splits (n := m.name) splits unset
    obtain rfl : stop' = stop := Option.some.inj (found'.symm.trans found)
    -- what is read is too short
    have le := Text.length_squeeze_le less
    rw [Cursor.group, held, Option.getD_some] at type
    rw [← type] at le
    omega
  · -- a type that splits has a blank in it
    have torn := (torn_text m.type []).mpr splits
    rw [dynamic] at torn
    exact absurd torn (not_torn_of_unblank (by decide))

/-- A parameter whose type is a flag is not read, if another follows. -/
theorem slot?_ne_of_flag (here : m.default? = none) (others : ∀ v ∈ ms, v.default? = none)
    (flag : m.type.isFlag) (further : ms ≠ []) :
    slot? .required (m.text ++ following (ms.map Typed.text)) ≠
      some (m.parameter .required, stop) := by
  intro read
  rcases type_of_slot? here read with ⟨found, inner, -⟩ | dynamic
  · obtain ⟨lead, last, behind, fits⟩ := exists_last others further
    obtain ⟨stop', found', outer⟩ := typedSlot_of_flag (n := m.name) flag behind fits
    obtain rfl : stop' = stop := Option.some.inj (found'.symm.trans found)
    rw [outer] at inner
    cases inner
  · obtain ⟨bare, word⟩ := isFlag_iff.mp flag
    rw [← text_of_isBare bare, dynamic] at word
    exact absurd word (by decide)

theorem head_slotsOf {kind : SlotKind} {s : List Char} {p : Parameter} {ps : List Parameter}
    (h : slotsOf kind s = p :: ps) : ∃ stop, slot? kind s = some (p, stop) := by
  rw [slotsOf] at h
  split at h
  · cases h
  · rename_i parameter stop read
    dsimp only at h
    split at h
    · obtain ⟨rfl, -⟩ := List.cons.inj h
      exact ⟨stop, read⟩
    · cases h

/-- The first parameter of a list is read exactly if its type does not split and is no flag that
another follows. -/
theorem slotsOf_plain_iff (plain : ∀ v ∈ m :: ms, v.default? = none) (ps : List Parameter) :
    slotsOf .required (m.text ++ following (ms.map Typed.text)) = m.parameter .required :: ps ↔
      (m.type.splits = false ∧ (ms ≠ [] → m.type.isFlag = false)) ∧
        slots .required (commaList (ms.map Typed.text)) = ps := by
  obtain ⟨here, others⟩ := List.forall_mem_cons.mp plain
  by_cases good : m.type.splits = false ∧ (ms ≠ [] → m.type.isFlag = false)
  · obtain ⟨whole, unflagged⟩ := good
    have none_given : m.defaultText = [] ++ [] := by rw [Typed.defaultText, here]; rfl
    have alone : m.type.isFlag → ([] : List Char) ≠ [] ∨
        [] ++ following (ms.map Typed.text) = [] := by
      intro flag
      obtain rfl : ms = [] := not_not.mp fun further =>
        Bool.false_ne_true ((unflagged further).symm.trans flag)
      exact .inr rfl
    rw [slotsOf_typed .required whole none_given (.inl rfl) (closes_following _) alone,
      List.nil_append, slots_following (Typed.members ms), List.cons.injEq, and_iff_right rfl,
      and_iff_right ⟨whole, unflagged⟩]
  · refine ⟨fun read => ?_, fun read => absurd read.1 good⟩
    obtain ⟨stop, read⟩ := head_slotsOf read
    refine absurd ⟨?_, fun further => ?_⟩ good
    · exact Bool.eq_false_iff.mpr fun splits => slot?_ne_of_splits here others splits read
    · exact Bool.eq_false_iff.mpr fun flag => slot?_ne_of_flag here others flag further read

theorem forall_mem_dropLast_cons {P : Typed → Prop} :
    (∀ v ∈ (m :: ms).dropLast, P v) ↔ (ms ≠ [] → P m) ∧ ∀ v ∈ ms.dropLast, P v := by
  cases ms with
  | nil => simp
  | cons v ms =>
    rw [List.dropLast_cons_of_ne_nil (List.cons_ne_nil v ms), List.forall_mem_cons,
      forall_prop_of_true (List.cons_ne_nil v ms)]

/-- A list is read in full exactly if no type splits and none but the last is a flag. -/
theorem slots_typed_iff (plain : ∀ m ∈ ms, m.default? = none) :
    slots .required (commaList (ms.map Typed.text)) = ms.map (Typed.parameter .required) ↔
      (∀ m ∈ ms, m.type.splits = false) ∧ ∀ m ∈ ms.dropLast, m.type.isFlag = false := by
  induction ms with
  | nil => exact ⟨fun _ => ⟨List.forall_mem_nil _, List.forall_mem_nil _⟩, fun _ => rfl⟩
  | cons m ms ih =>
    rw [List.map_cons, slots_commaList (Typed.members ms) m.isMember, List.map_cons,
      slotsOf_plain_iff plain, ih (List.forall_mem_cons.mp plain).2, List.forall_mem_cons,
      forall_mem_dropLast_cons, and_and_and_comm]

/-- What a list without default values is cut into. -/
theorem segments_plain (plain : ∀ m ∈ ms, m.default? = none) :
    segments (commaList (ms.map Typed.text)) = ⟨commaList (ms.map Typed.text), [], []⟩ :=
  segments_required (Typed.members ms) (Typed.ends_texts plain)
    (Typed.not_mem_texts plain (by decide)) (Typed.not_mem_texts plain (by decide))

/-- A list of required parameters is read back exactly if nowhere in a type a single name stands
between two other arguments, and no type but the last is a flag. -/
theorem type_arguments_read {head : List Char} (h : '(' ∉ head)
    (plain : ∀ m ∈ ms, m.default? = none) :
    parse? (head ++ '(' :: (commaList (ms.map Typed.text) ++ [')'])) =
        some (ms.map (Typed.parameter .required)) ↔
      (∀ m ∈ ms, m.type.splits = false) ∧ ∀ m ∈ ms.dropLast, m.type.isFlag = false := by
  rw [parse?_of_segments h (tight_commaList (Typed.members ms)) (segments_plain plain),
    Option.some.injEq, ← slots_typed_iff plain]
  have optional : slots .optional [] = [] := rfl
  have named : slots .named [] = [] := rfl
  rw [optional, named, List.append_nil, List.append_nil]

end Lists

section Maps

/-- Numbers, as a type. -/
def numType : TypeExpression := { name := ⟨"num".toList, by decide⟩ }

/-- A map of lists that can be missing, and a number. -/
def mapList : List Typed :=
  let lists : TypeExpression :=
    { name := ⟨"List".toList, by decide⟩, arguments := [numType], nullable := true }
  let keys : TypeExpression := { name := ⟨"Key".toList, by decide⟩ }
  [{ type := { name := ⟨"Map".toList, by decide⟩, arguments := [keys, lists] }
     name := ⟨"byKey".toList, by decide⟩ },
    { type := numType, name := ⟨"depth".toList, by decide⟩ }]

theorem type_arguments_read_map :
    ('(' ∉ "f".toList ∧ ∀ m ∈ mapList, m.default? = none) ∧
      parse? "f(Map<Key, List<num>?> byKey, num depth)".toList =
        some [{ type := "Map<Key, List<num>?>", name := some "byKey" },
          { type := "num", name := some "depth" }] := by
  have unopened : '(' ∉ "f".toList := by decide
  have plain : ∀ m ∈ mapList, m.default? = none := by decide
  have detail : "f(Map<Key, List<num>?> byKey, num depth)".toList =
      "f".toList ++ '(' :: (commaList (mapList.map Typed.text) ++ [')']) := by decide
  refine ⟨⟨unopened, plain⟩, ?_⟩
  rw [detail, (type_arguments_read unopened plain).mpr ⟨by decide, by decide⟩]
  decide

/-- The middle one of three names is taken for the name of a parameter. -/
theorem type_arguments_split : parse? "f(Triple<A, B, C> t)".toList =
    some [{ type := "Triple<A,", name := some "B" }, { type := "C>", name := some "t" }] := by
  decide +kernel

end Maps

end Parameters
end CodeAtlas
