import CodeAtlas.Proofs.CommaLists

/-!
What is read of a parameter list that is written out. Every segment is read up to the first
parameter without a function type that a function type follows (`slots_listText`), and the segments
are told apart by their brackets (`parse?_text`). So a list without function types is read in full,
and a list with them if they come first.
-/
namespace CodeAtlas.Parameters

open Declared (functionOf)

/-! ## Lists as text -/

section Texts

variable {ws : List Written}

theorem behind_eq (ws : List Written) : behind ws = following (ws.map Written.text) := by
  rw [behind, following, List.isEmpty_map]
  rfl

/-- A parameter ends with its name. -/
theorem Written.last_isNameChar (w : Written) : ∀ c ∈ w.text.getLast?, isNameChar c := by
  have named : ∃ before, w.text = before ++ w.declared.name.text := by
    obtain ⟨marked, p⟩ := w
    cases p with
    | typed type nullable name =>
      exact ⟨markText marked ++ (Declared.typed type nullable name).type ++ [' '], by
        simp [Written.text, Declared.text_typed, Declared.name]⟩
    | function result argument name =>
      exact ⟨markText marked ++ (Declared.function result argument name).type ++ [' '], by
        simp [Written.text, Declared.text_function, Declared.name]⟩
    | field name =>
      exact ⟨markText marked ++ "this.".toList, (List.append_assoc _ _ _).symm⟩
  obtain ⟨before, h⟩ := named
  intro c hc
  rw [h, List.getLast?_append_of_ne_nil _ w.declared.name.text_ne_nil] at hc
  exact w.declared.name.isNameChar_of_mem c (List.mem_of_getLast? hc)

theorem Written.isMember (w : Written) : IsMember w.text := by
  refine ⟨w.text_ne_nil, ?_, fun c hc => not_isBlank_of_isNameChar (w.last_isNameChar c hc)⟩
  have begins : Begins (w.text ++ []) := w.begins
  rw [List.append_nil] at begins
  exact begins.unblank

theorem members_text (ws : List Written) : ∀ t ∈ ws.map Written.text, IsMember t :=
  List.forall_mem_map.mpr fun w _ => w.isMember

theorem behind_cons (w : Written) (ws : List Written) :
    behind (w :: ws) = ", ".toList ++ (w.text ++ behind ws) := by
  rw [behind_eq, behind_eq]
  exact following_cons w.text _

theorem closes_behind (ws : List Written) : Closes (behind ws) := by
  rw [behind_eq]
  exact closes_following _

/-- A character of a list of parameters. -/
def isListed (c : Char) : Bool := isWritten c || c == ','

theorem isListed_of_isWritten {c : Char} (h : isWritten c) : isListed c := by
  rw [isListed, h, Bool.true_or]

theorem Written.isListed_of_mem (w : Written) : ∀ c ∈ w.text, isListed c := fun c hc =>
  isListed_of_isWritten (w.isWritten_of_mem c hc)

theorem isListed_of_mem_behind : ∀ c ∈ behind ws, isListed c := by
  rw [behind_eq]
  exact forall_mem_following (List.all_eq_true.mp (by decide))
    (List.forall_mem_map.mpr fun w _ => w.isListed_of_mem)

theorem Written.isPlain_of_mem (w : Written) (h : ¬ w.declared.isFunction) :
    ∀ c ∈ w.text, isPlain c := fun c hc => isPlain_of_isSimple (w.isSimple_of_mem h c hc)

/-- Without function types there are no parentheses. -/
theorem isPlain_of_mem_behind (h : ∀ w ∈ ws, ¬ w.declared.isFunction) :
    ∀ c ∈ behind ws, isPlain c := by
  rw [behind_eq]
  exact forall_mem_following (List.all_eq_true.mp (by decide))
    (List.forall_mem_map.mpr fun w hw => w.isPlain_of_mem (h w hw))

/-- The first function type in the rest of a list, with what stands before it. -/
theorem exists_function_ahead (h : ∃ w ∈ ws, w.declared.isFunction) :
    ∃ lead argument n ws', behind ws =
        lead ++ ' ' :: (functionOf argument ++ ' ' :: (Name.text n ++ behind ws')) ∧
      (∀ c ∈ lead, isPlain c) ∧ ',' ∈ lead := by
  induction ws with
  | nil => obtain ⟨_, hw, -⟩ := h; cases hw
  | cons w ws ih =>
    rw [behind_cons]
    by_cases here : w.declared.isFunction
    · -- this one is the first
      obtain ⟨marked, _ | ⟨result, argument, n⟩ | _⟩ := w
      · cases here
      · refine ⟨", ".toList ++ (markText marked ++ result.text), argument, n, ws, ?_, ?_, ?_⟩
        · simp only [Written.text, Declared.text_function, Declared.type_function,
            List.append_assoc, List.cons_append]
        · have comma : ∀ c ∈ ", ".toList, isPlain c := List.all_eq_true.mp (by decide)
          have mark : ∀ c ∈ markText marked, isPlain c := fun c hc =>
            isPlain_of_isSimple (Written.isSimple_of_mem_mark c hc)
          have name : ∀ c ∈ result.text, isPlain c := fun c hc =>
            isPlain_of_isSimple (result.isSimple_of_mem c hc)
          exact List.forall_mem_append.mpr ⟨comma, List.forall_mem_append.mpr ⟨mark, name⟩⟩
        · exact List.mem_append_left _ (by decide)
      · cases here
    · have later : ∃ w ∈ ws, w.declared.isFunction := by
        obtain ⟨v, hv, function⟩ := h
        rcases List.mem_cons.mp hv with rfl | hv
        · exact absurd function here
        · exact ⟨v, hv, function⟩
      obtain ⟨lead, argument, n, ws', ahead, plain, comma⟩ := ih later
      refine ⟨", ".toList ++ (w.text ++ lead), argument, n, ws', ?_, ?_, ?_⟩
      · simp only [ahead, List.append_assoc]
      · have comma : ∀ c ∈ ", ".toList, isPlain c := List.all_eq_true.mp (by decide)
        exact List.forall_mem_append.mpr
          ⟨comma, List.forall_mem_append.mpr ⟨w.isPlain_of_mem here, plain⟩⟩
      · exact List.mem_append_left _ (by decide)

end Texts

/-! ## Segments -/

/-- The members of a list up to the first without a function type that a function type follows. -/
def legible : List Written → List Written
  | [] => []
  | w :: ws =>
    if w.declared.isTyped && ws.any (·.declared.isFunction) then [] else w :: legible ws

theorem hides_iff {w : Written} {ws : List Written} :
    (w.declared.isTyped && ws.any (·.declared.isFunction)) = true ↔
      w.declared.isTyped ∧ ∃ v ∈ ws, v.declared.isFunction := by
  rw [Bool.and_eq_true, List.any_eq_true]

/-- A list is read in full if no parameter without a function type stands before one with it. -/
theorem legible_eq_self_iff {ws : List Written} :
    legible ws = ws ↔ ws.Pairwise fun v w => v.declared.isTyped → ¬ w.declared.isFunction := by
  induction ws with
  | nil => exact ⟨fun _ => .nil, fun _ => rfl⟩
  | cons w ws ih =>
    rw [legible, List.pairwise_cons]
    split
    · rename_i hidden
      obtain ⟨typed, v, hv, function⟩ := hides_iff.mp hidden
      exact ⟨nofun, fun h => absurd function (h.1 v hv typed)⟩
    · rename_i shown
      constructor
      · intro h
        exact ⟨fun v hv typed function => shown (hides_iff.mpr ⟨typed, v, hv, function⟩),
          ih.mp (List.cons.inj h).2⟩
      · intro h
        rw [ih.mpr h.2]

theorem legible_isPrefix (ws : List Written) : legible ws <+: ws := by
  induction ws with
  | nil => exact List.prefix_rfl
  | cons w ws ih =>
    rw [legible]
    split
    · exact List.nil_prefix
    · exact List.prefix_cons_inj w |>.mpr ih

theorem legible_of_no_function {ws : List Written} (h : ∀ w ∈ ws, ¬ w.declared.isFunction) :
    legible ws = ws :=
  legible_eq_self_iff.mpr (List.pairwise_of_forall_mem_list fun _ _ w hw _ => h w hw)

section Steps

variable {kind : SlotKind} {w : Written} {ws : List Written}

/-- The reader stops at a parameter without a function type that a function type follows. -/
theorem slotsOf_hidden (typed : w.declared.isTyped) (function : ∃ v ∈ ws, v.declared.isFunction) :
    slotsOf kind (w.text ++ behind ws) = [] := by
  obtain ⟨lead, argument, n, ws', ahead, plain, comma⟩ := exists_function_ahead function
  have no_bracket : '<' ∉ behind ws := fun h => absurd (isListed_of_mem_behind '<' h) (by decide)
  obtain ⟨marked, ⟨type, nullable, name⟩ | _ | _⟩ := w
  · rw [slotsOf, slot?_stuck ahead plain comma (closes_behind ws') no_bracket]
  · cases typed
  · cases typed

/-- Any other parameter is read, and then the rest of the list. -/
theorem slotsOf_shown (shown : w.declared.isTyped → ∀ v ∈ ws, ¬ v.declared.isFunction)
    (fits : w.declared.isField → kind ≠ .optional) :
    slotsOf kind (w.text ++ behind ws) = w.parameter kind :: slots kind (listText ws) := by
  have alone : w.declared.isTyped → '(' ∉ behind ws := fun typed h =>
    absurd (isPlain_of_mem_behind (shown typed) '(' h) (by decide)
  obtain ⟨stop, reads⟩ := slot?_written w (closes_behind ws) alone fits
  rw [slotsOf_step w.text_ne_nil reads, behind_eq, slots_following (members_text ws)]
  rfl

end Steps

/-- What is read of a segment. -/
theorem slots_listText {kind : SlotKind} {ws : List Written}
    (fits : ∀ w ∈ ws, w.declared.isField → kind ≠ .optional) :
    slots kind (listText ws) = (legible ws).map (Written.parameter kind) := by
  induction ws with
  | nil => rfl
  | cons w ws ih =>
    obtain ⟨here, others⟩ := List.forall_mem_cons.mp fits
    have read : slots kind (listText (w :: ws)) = slotsOf kind (w.text ++ behind ws) := by
      rw [behind_eq]
      exact slots_commaList (members_text ws) w.isMember
    rw [read, legible]
    by_cases hidden : (w.declared.isTyped && ws.any (·.declared.isFunction)) = true
    · obtain ⟨typed, function⟩ := hides_iff.mp hidden
      rw [if_pos hidden, slotsOf_hidden typed function, List.map_nil]
    · have shown : w.declared.isTyped → ∀ v ∈ ws, ¬ v.declared.isFunction :=
        fun typed v hv function => hidden (hides_iff.mpr ⟨typed, v, hv, function⟩)
      rw [if_neg hidden, slotsOf_shown shown here, ih others, List.map_cons]

/-! ## Characters of lists -/

/-- Brackets, braces and commas stand in no parameter. -/
theorem not_mem_texts (ws : List Written) {m : Char} (h : isWritten m = false) :
    ∀ t ∈ ws.map Written.text, m ∉ t :=
  List.forall_mem_map.mpr fun w _ hm =>
    Bool.false_ne_true (h.symm.trans (w.isWritten_of_mem m hm))

theorem ends_texts (ws : List Written) : ∀ t ∈ ws.map Written.text, ∀ c ∈ t.getLast?, c ≠ ',' :=
  List.forall_mem_map.mpr fun w _ c hc => ne_of_isNameChar (w.last_isNameChar c hc) (by decide)

/-! ## Whole lists -/

namespace Written

/-- A parameter without a mark. -/
def unmarked (p : Declared) : Written := { declared := p }

end Written

/-- What follows the required parameters of a list. Optional parameters set no fields. -/
inductive Further where
  | nothing
  | optional (members : List Declared) (unset : ∀ p ∈ members, ¬ p.isField)
  | named (members : List Written)

namespace Further

def optionals : Further → List Written
  | optional members _ => members.map .unmarked
  | _ => []

def nameds : Further → List Written
  | named members => members
  | _ => []

theorem unset_optionals (further : Further) :
    ∀ w ∈ further.optionals, ¬ w.declared.isField := by
  cases further with
  | nothing | named => exact fun _ h => nomatch h
  | optional members unset => exact List.forall_mem_map.mpr unset

/-- The last member of a list, with its brackets. -/
def pieces : Further → List (List Char)
  | nothing => []
  | optional members _ => ['[' :: (listText (members.map .unmarked) ++ [']'])]
  | named members => ['{' :: (listText members ++ ['}'])]

end Further

/-- A parameter list: required parameters and what follows them. -/
structure ParameterList where
  required : List Declared
  further : Further

namespace ParameterList

/-- The list as it is written between parentheses. -/
def text (l : ParameterList) : List Char :=
  Text.joinWith ", ".toList (l.required.map Declared.text ++ l.further.pieces)

/-- The members of all segments. -/
def members (l : ParameterList) : List Written :=
  l.required.map .unmarked ++ l.further.optionals ++ l.further.nameds

/-- The parameters that are declared. -/
def parameters (l : ParameterList) : List Parameter :=
  (l.required.map .unmarked).map (Written.parameter .required) ++
    l.further.optionals.map (Written.parameter .optional) ++
    l.further.nameds.map (Written.parameter .named)

theorem text_eq (ps : List Declared) (further : Further) :
    (mk ps further).text = Text.joinWith ", ".toList
      ((ps.map Written.unmarked).map Written.text ++ further.pieces) := by
  rw [text, List.map_map]
  rfl

theorem text_nothing (ps : List Declared) :
    (mk ps .nothing).text = listText (ps.map .unmarked) := by
  rw [text_eq, Further.pieces, List.append_nil]
  rfl

theorem segments_text (l : ParameterList) :
    Text.Tight l.text ∧ segments l.text = ⟨listText (l.required.map .unmarked),
      listText l.further.optionals, listText l.further.nameds⟩ := by
  obtain ⟨ps, further⟩ := l
  have members := members_text (ps.map .unmarked)
  have ends := ends_texts (ps.map .unmarked)
  have free {m : Char} (h : isWritten m = false) := not_mem_texts (ps.map .unmarked) h
  cases further with
  | nothing =>
    rw [text_nothing]
    exact ⟨tight_commaList members,
      segments_required members ends (free (by decide)) (free (by decide))⟩
  | optional vs unset =>
    have bracketed : (mk ps (.optional vs unset)).text = _ :=
      (text_eq ps _).trans (commaList_bracketed _)
    have unbraced : '{' ∉ listText (vs.map .unmarked) :=
      not_mem_commaList (by decide) (not_mem_texts _ (by decide))
    rw [bracketed]
    exact ⟨tight_bracketed members (by decide) (by decide), segments_optional members ends
      (free (by decide)) (free (by decide)) (tight_commaList (members_text _)) unbraced⟩
  | named vs =>
    have bracketed : (mk ps (.named vs)).text = _ := (text_eq ps _).trans (commaList_bracketed _)
    rw [bracketed]
    exact ⟨tight_bracketed members (by decide) (by decide), segments_named members ends
      (free (by decide)) (free (by decide)) (tight_commaList (members_text _))
      (free (by decide))⟩

end ParameterList

/-- What is read of a list: each segment up to the first of its members that is not read. -/
theorem parse?_text {head : List Char} (h : '(' ∉ head) (l : ParameterList) :
    parse? (head ++ '(' :: (l.text ++ [')'])) =
      some ((legible (l.required.map .unmarked)).map (Written.parameter .required) ++
        (legible l.further.optionals).map (Written.parameter .optional) ++
        (legible l.further.nameds).map (Written.parameter .named)) := by
  obtain ⟨tight, cut⟩ := l.segments_text
  have required : slots .required (listText (l.required.map .unmarked)) = _ :=
    slots_listText fun _ _ _ => nofun
  have optional : slots .optional (listText l.further.optionals) = _ :=
    slots_listText fun w hw field => absurd field (l.further.unset_optionals w hw)
  have named : slots .named (listText l.further.nameds) = _ :=
    slots_listText fun _ _ _ => nofun
  rw [parse?_of_segments h tight cut, required, optional, named]

/-- A list of parameters without function types is read back as it is written. -/
theorem parameters_round_trip {head : List Char} (h : '(' ∉ head) (l : ParameterList)
    (plain : ∀ w ∈ l.members, ¬ w.declared.isFunction) :
    parse? (head ++ '(' :: (l.text ++ [')'])) = some l.parameters := by
  obtain ⟨positional, named⟩ := List.forall_mem_append.mp plain
  obtain ⟨required, optional⟩ := List.forall_mem_append.mp positional
  rw [parse?_text h, legible_of_no_function required, legible_of_no_function optional,
    legible_of_no_function named]
  rfl

section Compute

def intName : Name := ⟨"int".toList, by decide, by decide⟩

def xName : Name := ⟨"x".toList, by decide, by decide⟩

/-- A positional parameter, a type that can be null and a field that is required. -/
def computeList : ParameterList where
  required := [.typed intName false xName]
  further := .named
    [{ declared := .typed ⟨"String".toList, by decide, by decide⟩ true
        ⟨"name".toList, by decide, by decide⟩ },
      { marked := true, declared := .field ⟨"flag".toList, by decide, by decide⟩ }]

theorem parameters_round_trip_compute :
    ('(' ∉ "Card compute".toList ∧ ∀ w ∈ computeList.members, ¬ w.declared.isFunction) ∧
      parse? "Card compute(int x, \x7bString? name, required this.flag\x7d)".toList =
        some [{ type := "int", name := some "x" },
          { type := "String?", name := some "name", isNamed := true },
          { type := "self_field:flag", name := some "flag", isNamed := true,
            isRequired := true }] := by
  have unopened : '(' ∉ "Card compute".toList := by decide
  have plain : ∀ w ∈ computeList.members, ¬ w.declared.isFunction := by decide
  have detail : "Card compute(int x, \x7bString? name, required this.flag\x7d)".toList =
      "Card compute".toList ++ '(' :: (computeList.text ++ [')']) := by decide
  refine ⟨⟨unopened, plain⟩, ?_⟩
  rw [detail, parameters_round_trip unopened computeList plain]
  decide

end Compute

/-- Of required parameters those are read that stand before the first parameter without a function
type that a function type follows. So all are read exactly if no such parameter does. -/
theorem function_types_read {head : List Char} (h : '(' ∉ head) (ps : List Declared) :
    parse? (head ++ '(' :: (listText (ps.map .unmarked) ++ [')'])) =
        some ((legible (ps.map .unmarked)).map (Written.parameter .required)) ∧
      (parse? (head ++ '(' :: (listText (ps.map .unmarked) ++ [')'])) =
          some ((ps.map .unmarked).map (Written.parameter .required)) ↔
        ps.Pairwise fun p q => p.isTyped → ¬ q.isFunction) := by
  have read : parse? (head ++ '(' :: (listText (ps.map .unmarked) ++ [')'])) =
      some ((legible (ps.map .unmarked)).map (Written.parameter .required)) := by
    have whole := parse?_text h ⟨ps, .nothing⟩
    rw [ParameterList.text_nothing] at whole
    simpa [Further.optionals, Further.nameds, legible] using whole
  refine ⟨read, ?_⟩
  have pairs : (ps.map Written.unmarked).Pairwise (fun v w =>
      v.declared.isTyped → ¬ w.declared.isFunction) ↔
      ps.Pairwise fun p q => p.isTyped → ¬ q.isFunction := List.pairwise_map
  rw [read, Option.some.injEq, ← pairs, ← legible_eq_self_iff]
  constructor
  · -- a prefix of the same length is the whole list
    intro same
    have lengths := congrArg List.length same
    rw [List.length_map, List.length_map] at lengths
    exact (legible_isPrefix _).eq_of_length lengths
  · intro all
    rw [all]

section Listening

def voidName : Name := ⟨"void".toList, by decide, by decide⟩

def callback : Declared := .function voidName intName ⟨"cb".toList, by decide, by decide⟩

theorem function_types_read_first :
    '(' ∉ "f".toList ∧ parse? "f(void Function(int) cb, int x)".toList =
      some [{ type := "void Function(int)", name := some "cb" },
        { type := "int", name := some "x" }] := by
  have unopened : '(' ∉ "f".toList := by decide
  have detail : "f(void Function(int) cb, int x)".toList = "f".toList ++
      '(' :: (listText ([callback, .typed intName false xName].map .unmarked) ++ [')']) := by
    decide
  refine ⟨unopened, ?_⟩
  rw [detail, (function_types_read unopened _).2.mpr (by decide)]
  decide

/-- Behind another parameter a function type hides both. -/
theorem function_type_unread : parse? "f(int x, void Function(int) cb)".toList = some [] := by
  have detail : "f(int x, void Function(int) cb)".toList = "f".toList ++ '(' ::
      ((ParameterList.mk [.typed intName false xName, callback] .nothing).text ++ [')']) := by
    decide
  rw [detail, parse?_text (by decide)]
  decide

end Listening

end CodeAtlas.Parameters
