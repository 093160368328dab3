import CodeAtlas.Enrichment.Steps
import CodeAtlas.Proofs.Runs
import CodeAtlas.Proofs.Searching
import CodeAtlas.Proofs.Slots

/-!
The type in the declaration of a field. Annotations and modifiers in front of the type are left out
as long as something is left for the type: where nothing stands between the modifiers and the name,
the last modifier is taken for the type, or blanks are. Which words of a declaration are those of
its type is told by `typeWords`; they are what is recorded (`declared_types_are_types`).
-/
namespace CodeAtlas.Signature

open Pattern

variable {fuel n : Nat} {c d e : Cursor} {a b s w type detail : List Char}

/-! ## Words of a declaration -/

/-- The modifiers in front of the type of a field. -/
def fieldModifiers : List String := ["late", "final", "const", "static", "required", "covariant"]

/-- Whether a word stands in front of a type: an annotation or a modifier. -/
def isLead (w : List Char) : Bool :=
  w.head? == some '@' || (fieldModifiers.map String.toList).contains w

/-- The words of the type in the declaration of a field: those between the annotations and modifiers
in front and the name. -/
def typeWords (detail : List Char) : List (List Char) :=
  ((Text.words (detail.takeWhile (· != '='))).dropLast).dropWhile isLead

/-- What can stand in front of a type: annotations and modifiers with blanks behind them. -/
structure Lead (s : List Char) : Prop where
  words : ∀ w ∈ Text.words s, isLead w
  spaced : ∀ x ∈ s.getLast?, Text.isBlank x
  unassigned : '=' ∉ s

theorem Lead.append (ha : Lead a) (hb : Lead b) : Lead (a ++ b) where
  words := by
    rw [Text.words_append_of_last ha.spaced]
    exact List.forall_mem_append.mpr ⟨ha.words, hb.words⟩
  spaced x hx := by
    rw [List.getLast?_append, Option.mem_def, Option.or_eq_some_iff] at hx
    exact hx.elim (hb.spaced x) fun h => ha.spaced x h.2
  unassigned h := (List.mem_append.mp h).elim ha.unassigned hb.unassigned

theorem ne_equals_of_isBlank {x : Char} (h : Text.isBlank x) : x ≠ '=' := by
  rintro rfl
  exact absurd h (by decide)

theorem Lead.of_blanks (h : ∀ x ∈ s, Text.isBlank x) : Lead s where
  words := by
    rw [Text.words_of_blanks h]
    exact List.forall_mem_nil _
  spaced x hx := h x (List.mem_of_getLast? hx)
  unassigned hx := ne_equals_of_isBlank (h _ hx) rfl

theorem unblank_of_fieldModifier : ∀ m ∈ fieldModifiers,
    m.toList ≠ [] ∧ (∀ x ∈ m.toList, Text.isBlank x = false) ∧ '=' ∉ m.toList ∧ '@' ∉ m.toList := by
  decide

/-- A modifier with blanks behind it. -/
theorem Lead.of_modifier {m : String} (hm : m ∈ fieldModifiers) (some_blanks : s ≠ [])
    (blank : ∀ x ∈ s, Text.isBlank x) : Lead (m.toList ++ s) where
  words := by
    obtain ⟨some_text, unblank, -⟩ := unblank_of_fieldModifier m hm
    rw [Text.words_append_blanks blank, Text.words_of_unblank some_text unblank,
      List.forall_mem_singleton, isLead, Bool.or_eq_true, List.contains_iff_mem]
    exact .inr (List.mem_map_of_mem hm)
  spaced x hx := by
    rw [List.getLast?_append_of_ne_nil _ some_blanks] at hx
    exact blank x (List.mem_of_getLast? hx)
  unassigned hx := by
    rcases List.mem_append.mp hx with hx | hx
    · exact (unblank_of_fieldModifier m hm).2.2.1 hx
    · exact ne_equals_of_isBlank (blank _ hx) rfl

/-- An annotation, with blanks behind it or not, in front of a lead. -/
theorem Lead.annotated {name : List Char} (h : Lead s) (some_lead : s ≠ [])
    (letters : ∀ x ∈ name, Text.isWord x || ".".toList.contains x)
    (blank : ∀ x ∈ a, Text.isBlank x) : Lead ('@' :: name ++ (a ++ s)) where
  words := by
    have unblank : ∀ x ∈ '@' :: name, Text.isBlank x = false := by
      refine List.forall_mem_cons.mpr ⟨by decide, fun x hx => ?_⟩
      by_contra found
      have word := Text.isWord_of_isBlank (Bool.not_eq_false _ ▸ found)
      have point := letters x hx
      rw [word, Bool.false_or, List.contains_iff_mem] at point
      obtain rfl : x = '.' := List.mem_singleton.mp point
      exact found (by decide)
    refine Text.forall_words_glued (List.cons_ne_nil _ _) unblank (fun v => ?_) ?_
    · rfl
    · rw [Text.words_append_of_last fun x hx => blank x (List.mem_of_getLast? hx),
        Text.words_of_blanks blank]
      exact h.words
  spaced x hx := by
    rw [← List.append_assoc, List.getLast?_append_of_ne_nil _ some_lead] at hx
    exact h.spaced x hx
  unassigned hx := by
    simp only [List.cons_append, List.mem_cons, List.mem_append] at hx
    rcases hx with same | hx | hx | hx
    · exact absurd same (by decide)
    · exact absurd (letters _ hx) (by decide)
    · exact ne_equals_of_isBlank (blank _ hx) rfl
    · exact h.unassigned hx

/-! ## Rounds of annotations and modifiers -/

/-- Annotations and the modifier behind them. -/
def leadRound : Pattern := star metadata ++ words fieldModifiers ++ gap

theorem exists_lead_of_leadRound (h : leadRound.Reaches c d) :
    ∃ s, s ≠ [] ∧ c.rest = s ++ d.rest ∧ Lead s := by
  obtain ⟨e₁, ⟨e₂, annotated, modified⟩, gapped⟩ := h
  obtain ⟨m, hm, rest, here, rfl⟩ := reaches_words modified
  obtain ⟨blanks, rest', some_blanks, there, blank, rfl⟩ := reaches_repeated gapped
  induction annotated using Relation.ReflTransGen.head_induction_on with
  | refl =>
    refine ⟨m.toList ++ blanks, List.append_ne_nil_of_right_ne_nil _ some_blanks, ?_,
      .of_modifier hm some_blanks blank⟩
    rw [here, show rest = blanks ++ rest' from there]
    exact (List.append_assoc _ _ _).symm
  | head first _ ih =>
    obtain ⟨s, some_lead, behind, lead⟩ := ih
    obtain ⟨e₄, ⟨e₅, mark, named⟩, spaced⟩ := first
    obtain ⟨rest₁, at_mark, rfl⟩ := reaches_char mark
    obtain ⟨name, rest₂, -, at_name, letters, rfl⟩ := reaches_repeated named
    obtain ⟨blanks', rest₃, at_blanks, blank', rfl⟩ := reaches_many spaced
    refine ⟨'@' :: name ++ (blanks' ++ s), by simp, ?_, lead.annotated some_lead letters blank'⟩
    rw [at_mark, show rest₁ = name ++ rest₂ from at_name,
      show rest₂ = blanks' ++ rest₃ from at_blanks, show rest₃ = s ++ _ from behind]
    simp

/-- Rounds of annotations and modifiers are a lead. -/
theorem exists_lead (h : Relation.ReflTransGen leadRound.Reaches c d) :
    ∃ s, c.rest = s ++ d.rest ∧ Lead s := by
  induction h with
  | refl => exact ⟨[], rfl, .of_blanks (List.forall_mem_nil _)⟩
  | tail _ last ih =>
    obtain ⟨s, before, lead⟩ := ih
    obtain ⟨s', -, behind, lead'⟩ := exists_lead_of_leadRound last
    exact ⟨s ++ s', by rw [before, behind, List.append_assoc], lead.append lead'⟩

/-- Whether a place lies behind another one with nothing but blanks between them, at least one. -/
def BehindBlanks (d e : Cursor) : Prop :=
  ∃ more rest, more ≠ [] ∧ d.rest = more ++ rest ∧ (∀ x ∈ more, Text.isBlank x) ∧
    e = d.past more rest

/-- A round ends behind all blanks, unless the rest of the declaration begins with some. -/
theorem exists_of_leadRound {α : Type} {k : Cursor → Option α} {r : α} (room : c.rest.length ≤ fuel)
    (h : run fuel leadRound c k = some r) :
    ∃ d, leadRound.Reaches c d ∧ k d = some r ∧ ∀ e, BehindBlanks d e → k e = none := by
  obtain ⟨e, modified, gapped⟩ :=
    exists_reaches_of_run (p := star metadata ++ words fieldModifiers) h
  have room' : e.rest.length ≤ fuel := modified.suffix.length_le.trans room
  obtain ⟨blanks, rest, some_blanks, here, blank, accepted, longer⟩ := first_of_plus room' gapped
  refine ⟨e.past blanks rest, ⟨e, modified, repeated_reaches true here some_blanks blank⟩, accepted,
    ?_⟩
  rintro _ ⟨more, rest', some_more, there, blank', rfl⟩
  rw [Cursor.past_past]
  exact longer more rest' some_more there blank'

theorem length_lt_of_leadRound (h : leadRound.Reaches c d) : d.rest.length < c.rest.length := by
  obtain ⟨s, some_lead, here, -⟩ := exists_lead_of_leadRound h
  have := List.length_pos_iff.mpr some_lead
  rw [here, List.length_append]
  omega

/-! ## The rest of a declaration -/

/-- A character of the type of a field. -/
def fieldTypeChar (x : Char) : Bool :=
  Text.isWord x || Text.isBlank x || "<>[]\x7b\x7d,?().".toList.contains x

/-- What stands behind the modifiers: the type as group 1, the name and the value. -/
def declaredRest : Pattern :=
  group 1 (lazyPlus (one fieldTypeChar)) ++ gap ++ plus identChar ++ blanks ++
    opt (char '=' ++ star inLine) ++ textEnd

theorem run_fieldDeclaration (s : List Char) :
    fieldDeclaration.atStart s = run s.length blanks (.ofText s) fun c =>
      run s.length (star leadRound) c fun d => run s.length declaredRest d some := rfl

/-- A name behind a type: blanks, the name, more blanks and a value or none. -/
structure Named (spaces name blanks value : List Char) : Prop where
  some_spaces : spaces ≠ []
  spaced : ∀ x ∈ spaces, Text.isBlank x
  some_name : name ≠ []
  letters : ∀ x ∈ name, Text.isIdentPart x
  blank : ∀ x ∈ blanks, Text.isBlank x
  value : value = [] ∨ ∃ line, value = '=' :: line ∧ ∀ x ∈ line, x ≠ '\n'

theorem exists_of_declaredRest (h : declaredRest.Reaches c d) :
    ∃ type spaces name blanks value, d.group 1 = type ∧ type ≠ [] ∧ (∀ x ∈ type, fieldTypeChar x) ∧
      Named spaces name blanks value ∧
      c.rest = type ++ (spaces ++ (name ++ (blanks ++ value))) := by
  obtain ⟨e₁, ⟨e₂, ⟨e₃, ⟨e₄, ⟨e₅, ⟨e₆, typed, rfl⟩, gapped⟩, named⟩, blanked⟩, valued⟩, ends⟩ := h
  obtain ⟨type, rest₁, some_type, here, fits, rfl⟩ := reaches_repeated typed
  obtain ⟨spaces, rest₂, some_spaces, here₂, spaced, rfl⟩ := reaches_repeated gapped
  obtain ⟨name, rest₃, some_name, here₃, letters, rfl⟩ := reaches_repeated named
  obtain ⟨blanks, rest₄, here₄, blank, rfl⟩ := reaches_many blanked
  obtain ⟨finished, rfl⟩ := ends
  have captured : ((c.past type rest₁).keep 1 c).group? 1 = some type :=
    Cursor.group?_keep_past here 1
  have captured_text {e : Cursor} (h : e.group? 1 = some type) : e.group 1 = type := by
    rw [Cursor.group, h]
    rfl
  have whole : c.rest = type ++ (spaces ++ (name ++ (blanks ++ rest₄))) := by
    rw [here, show rest₁ = spaces ++ rest₂ from here₂, show rest₂ = name ++ rest₃ from here₃,
      show rest₃ = blanks ++ rest₄ from here₄]
  -- a value is behind the group too
  rcases valued with ⟨e, mark, lined⟩ | rfl
  · obtain ⟨rest₅, here₅, rfl⟩ := reaches_char mark
    obtain ⟨line, rest₆, here₆, in_line, rfl⟩ := reaches_many lined
    have last : rest₆ = [] := List.isEmpty_iff.mp finished
    have assigned : rest₄ = '=' :: line := by
      rw [show rest₄ = '=' :: rest₅ from here₅, show rest₅ = line ++ rest₆ from here₆, last,
        List.append_nil]
    refine ⟨type, spaces, name, blanks, '=' :: line, captured_text captured, some_type, fits,
      ⟨some_spaces, spaced, some_name, letters, blank, .inr ⟨line, rfl, ?_⟩⟩, assigned ▸ whole⟩
    exact fun x hx => bne_iff_ne.mp (in_line x hx)
  · have nothing : rest₄ = [] := List.isEmpty_iff.mp finished
    exact ⟨type, spaces, name, blanks, [], captured_text captured, some_type, fits,
      ⟨some_spaces, spaced, some_name, letters, blank, .inl rfl⟩, nothing ▸ whole⟩

theorem steady_declaredRest : declaredRest.Steady :=
  ⟨⟨⟨⟨⟨⟨trivial, trivial⟩, trivial, trivial⟩, trivial, trivial⟩, trivial⟩,
    ⟨trivial, trivial⟩, trivial⟩, trivial⟩

/-- The rest of a declaration is read wherever it stands. -/
theorem declaredRest_accepts {spaces name blanks value : List Char} (some_type : type ≠ [])
    (fits : ∀ x ∈ type, fieldTypeChar x) (named : Named spaces name blanks value)
    (here : c.rest = type ++ (spaces ++ (name ++ (blanks ++ value))))
    (room : c.rest.length ≤ fuel) :
    (run fuel declaredRest c some).isSome := by
  let e₁ := (c.past type (spaces ++ (name ++ (blanks ++ value)))).keep 1 c
  let e₂ := e₁.past spaces (name ++ (blanks ++ value))
  let e₃ := e₂.past name (blanks ++ value)
  let e₄ := e₃.past blanks value
  have typed : (group 1 (lazyPlus (one fieldTypeChar))).Reaches c e₁ :=
    ⟨_, repeated_reaches false here some_type fits, rfl⟩
  have gapped : gap.Reaches e₁ e₂ := repeated_reaches true rfl named.some_spaces named.spaced
  have lettered : (plus identChar).Reaches e₂ e₃ :=
    repeated_reaches true rfl named.some_name named.letters
  have blanked : Pattern.blanks.Reaches e₃ e₄ := many_reaches true rfl named.blank
  have valued : ∃ e₅, (opt (char '=' ++ star inLine)).Reaches e₄ e₅ ∧ e₅.rest = [] := by
    rcases named.value with empty | ⟨line, assigned, in_line⟩
    · exact ⟨e₄, .inr rfl, empty⟩
    · have all : ∀ x ∈ line, (x != '\n') = true := fun x hx => bne_iff_ne.mpr (in_line x hx)
      have marked : (char '=').Reaches e₄ (e₄.past ['='] line) :=
        ⟨'=', line, assigned, beq_self_eq_true '=', rfl⟩
      have lined : (star inLine).Reaches (e₄.past ['='] line) ((e₄.past ['='] line).past line []) :=
        many_reaches true (List.append_nil line).symm all
      exact ⟨_, .inl ⟨_, marked, lined⟩, rfl⟩
  obtain ⟨e₅, valued, finished⟩ := valued
  have reached : declaredRest.Reaches c e₅ :=
    ⟨e₅, ⟨e₄, ⟨e₃, ⟨e₂, ⟨e₁, typed, gapped⟩, lettered⟩, blanked⟩, valued⟩,
      List.isEmpty_iff.mpr finished, rfl⟩
  exact isSome_run steady_declaredRest room reached rfl

/-! ## Where the type begins -/

/-- What a type begins with: it is blank, or it begins with a word, and with a modifier only if
nothing is left behind it. -/
def Begun (type : List Char) : Prop :=
  (∀ x ∈ type, Text.isBlank x) ∨
    ∃ w more, type = w ++ more ∧ w ≠ [] ∧ (∀ x ∈ w, Text.isBlank x = false) ∧
      (∀ x ∈ more.head?, Text.isBlank x) ∧
      (w ∈ fieldModifiers.map String.toList → ∀ x ∈ more, Text.isBlank x)

/-- A text that is not blank has blanks in front of something else. -/
theorem exists_blanks_before (h : ¬ ∀ x ∈ s, Text.isBlank x) :
    ∃ blanks rest, s = blanks ++ rest ∧ (∀ x ∈ blanks, Text.isBlank x) ∧ rest ≠ [] ∧
      ∀ x ∈ rest.head?, Text.isBlank x = false := by
  refine ⟨s.takeWhile Text.isBlank, s.dropWhile Text.isBlank,
    List.takeWhile_append_dropWhile.symm, fun x hx => List.mem_takeWhile_imp hx, ?_, fun x hx => ?_⟩
  · rwa [Ne, List.dropWhile_eq_nil_iff]
  · have stops := List.head?_dropWhile_not Text.isBlank s
    rw [Option.mem_def.mp hx] at stops
    exact stops

section Rounds

variable {spaces name blanks value : List Char}

/-- No further round is made only if the type has begun. -/
theorem begun_of_last_round (fits : ∀ x ∈ type, fieldTypeChar x)
    (named : Named spaces name blanks value)
    (here : d.rest = type ++ (spaces ++ (name ++ (blanks ++ value)))) (room : d.rest.length ≤ fuel)
    (preferred : ∀ e, BehindBlanks d e → run fuel declaredRest e some = none)
    (last : ∃ m, run fuel leadRound d (fun e =>
      rounds (run fuel leadRound) true m e fun e => run fuel declaredRest e some) = none) :
    Begun type := by
  by_cases blank : ∀ x ∈ type, Text.isBlank x
  · exact .inl blank
  -- wherever a part of the type is left, the rest of the declaration is read
  have accepts {before left : List Char} (split : type = before ++ left) (some_left : left ≠ []) :
      (run fuel declaredRest
        (d.past before (left ++ (spaces ++ (name ++ (blanks ++ value))))) some).isSome := by
    refine declaredRest_accepts some_left (fun x hx => ?_) named rfl ?_
    · exact fits x (split ▸ List.mem_append_right before hx)
    · rw [here, split, List.append_assoc, List.length_append] at room
      exact (Nat.le_add_left _ _).trans room
  obtain ⟨front, left, split, front_blank, some_left, first⟩ := exists_blanks_before blank
  have no_front : front = [] := by
    by_contra some_front
    have refused := preferred _ ⟨front, left ++ (spaces ++ (name ++ (blanks ++ value))), some_front,
      by rw [here, split, List.append_assoc], front_blank, rfl⟩
    have found := accepts split some_left
    rw [refused] at found
    cases found
  rw [no_front, List.nil_append] at split
  subst split
  obtain ⟨w, more, rfl, some_text, unblank, ends⟩ := Text.exists_first_word some_left first
  refine .inr ⟨w, more, rfl, some_text, unblank, ends, fun modifier => ?_⟩
  by_contra unfinished
  -- otherwise one more round would have been made
  obtain ⟨gaps, left, rfl, gaps_blank, some_left', first'⟩ := exists_blanks_before unfinished
  have some_gaps : gaps ≠ [] := by
    rintro rfl
    obtain ⟨x, left, rfl⟩ := List.exists_cons_of_ne_nil some_left'
    have outside := first' x rfl
    rw [ends x rfl] at outside
    cases outside
  obtain ⟨m, hm, rfl⟩ := List.mem_map.mp modifier
  obtain ⟨n, refused⟩ := last
  let rest := left ++ (spaces ++ (name ++ (blanks ++ value)))
  have there : d.rest = m.toList ++ (gaps ++ rest) := by rw [here]; simp [rest]
  have reached : (words fieldModifiers ++ gap).Reaches d
      ((d.past m.toList (gaps ++ rest)).past gaps rest) :=
    ⟨_, words_reaches hm there, repeated_reaches true rfl some_gaps gaps_blank⟩
  have found := accepts (List.append_assoc m.toList gaps left).symm some_left'
  have further : (run fuel (words fieldModifiers ++ gap) d (fun e =>
      rounds (run fuel leadRound) true n e fun e => run fuel declaredRest e some)).isSome := by
    refine isSome_run ⟨steady_words _, trivial, trivial⟩ room reached ?_
    rw [Cursor.past_past]
    exact isSome_rounds_of_accepted found
  have more_rounds : (run fuel leadRound d (fun e =>
      rounds (run fuel leadRound) true n e fun e => run fuel declaredRest e some)).isSome :=
    isSome_run_many further
  rw [refused] at more_rounds
  cases more_rounds

/-- The parts of the declaration of a field. -/
theorem exists_parts {stop : Cursor} (h : fieldDeclaration.atStart s = some stop) :
    ∃ lead type spaces name blanks value, stop.group 1 = type ∧ Lead lead ∧ Begun type ∧
      (∀ x ∈ type, fieldTypeChar x) ∧ Named spaces name blanks value ∧
      s = lead ++ (type ++ (spaces ++ (name ++ (blanks ++ value)))) := by
  rw [run_fieldDeclaration] at h
  obtain ⟨front, rest, whole, front_blank, found, longer⟩ := first_of_star
    (c := Cursor.ofText s) (q := Text.isBlank) (Nat.le_refl _) h
  have room : rest.length ≤ s.length := by
    rw [show s = front ++ rest from whole, List.length_append]
    exact Nat.le_add_left _ _
  obtain ⟨d, leads, accepted, preferred, last⟩ := exists_last_round
    (fun c k room h => exists_of_leadRound room h) (fun c d => length_lt_of_leadRound) room
    (Nat.le_refl _) found
  obtain ⟨lead, between, is_lead⟩ := exists_lead leads
  obtain ⟨d', reached, same⟩ := exists_reaches_of_run accepted
  obtain rfl := Option.some.inj same
  obtain ⟨type, spaces, name, blanks, value, captured, some_type, fits, named, behind⟩ :=
    exists_of_declaredRest reached
  have split : s = (front ++ lead) ++ (type ++ (spaces ++ (name ++ (blanks ++ value)))) := by
    rw [List.append_assoc, ← behind, ← between]
    exact whole
  have room' : d.rest.length ≤ s.length := by
    rw [split, ← behind, List.length_append]
    exact Nat.le_add_left _ _
  have refused (e : Cursor) (he : BehindBlanks d e) : run s.length declaredRest e some = none := by
    rcases preferred with rfl | refused
    · obtain ⟨more, rest', some_more, there, blank, rfl⟩ := he
      have stuck := longer more rest' some_more there blank
      rw [Cursor.past_past]
      by_contra accepted
      have found : (run s.length (star leadRound) ((Cursor.ofText s).past (front ++ more) rest')
          fun d => run s.length declaredRest d some).isSome :=
        isSome_run_many (Option.isSome_iff_ne_none.mpr accepted)
      rw [stuck] at found
      cases found
    · exact refused e he
  refine ⟨front ++ lead, type, spaces, name, blanks, value, captured,
    (Lead.of_blanks front_blank).append is_lead, ?_, fits, named, split⟩
  refine begun_of_last_round fits named behind room' refused (last.resolve_left fun empty => ?_)
  rw [behind] at empty
  exact some_type (List.append_eq_nil_iff.mp empty).1

/-! ## The words of the type -/

theorem typeWords_of_parts {lead : List Char} (h : Lead lead) (fits : ∀ x ∈ type, fieldTypeChar x)
    (named : Named spaces name blanks value) :
    typeWords (lead ++ (type ++ (spaces ++ (name ++ (blanks ++ value))))) =
      (Text.words type).dropWhile isLead := by
  let front := lead ++ (type ++ (spaces ++ (name ++ blanks)))
  have name_unblank : ∀ x ∈ name, Text.isBlank x = false := by
    intro x hx
    have letter := named.letters x hx
    by_contra found
    rw [Bool.not_eq_false] at found
    rw [Text.isIdentPart, Text.isWord_of_isBlank found, Bool.false_or, beq_iff_eq] at letter
    subst letter
    exact absurd found (by decide)
  have unassigned : ∀ x ∈ front, (x != '=') = true := by
    intro x hx
    rw [bne_iff_ne]
    rintro rfl
    simp only [front, List.mem_append] at hx
    rcases hx with hx | hx | hx | hx | hx
    · exact h.unassigned hx
    · exact absurd (fits _ hx) (by decide)
    · exact ne_equals_of_isBlank (named.spaced _ hx) rfl
    · exact absurd (named.letters _ hx) (by decide)
    · exact ne_equals_of_isBlank (named.blank _ hx) rfl
  have ends : value.takeWhile (· != '=') = [] := by
    rcases named.value with rfl | ⟨line, rfl, -⟩
    · rfl
    · exact List.takeWhile_cons_of_neg (by decide)
  have kept : (lead ++ (type ++ (spaces ++ (name ++ (blanks ++ value))))).takeWhile (· != '=') =
      front := by
    have split : lead ++ (type ++ (spaces ++ (name ++ (blanks ++ value)))) = front ++ value := by
      simp [front]
    rw [split, List.takeWhile_append_of_pos unassigned, ends, List.append_nil]
  have spaced : ∀ x ∈ spaces.getLast?, Text.isBlank x := fun x hx =>
    named.spaced x (List.mem_of_getLast? hx)
  have before : Text.words (type ++ spaces) = Text.words type :=
    Text.words_append_blanks named.spaced
  have all : Text.words front = (Text.words lead ++ Text.words type) ++ [name] := by
    have last : ∀ x ∈ (type ++ spaces).getLast?, Text.isBlank x := by
      rw [List.getLast?_append_of_ne_nil _ named.some_spaces]
      exact spaced
    have regroup : front = lead ++ ((type ++ spaces) ++ (name ++ blanks)) := by simp [front]
    rw [regroup, Text.words_append_of_last h.spaced, Text.words_append_of_last last, before,
      Text.words_append_blanks named.blank, Text.words_of_unblank named.some_name name_unblank,
      List.append_assoc]
  rw [typeWords, kept, all, List.dropLast_concat, List.dropWhile_append_of_pos h.words]

end Rounds

/-- What is read as the type of a field are the words between the modifiers and the name, if there
are any. -/
theorem fieldType?_words (h : fieldType? detail = some type) :
    (typeWords detail ≠ [] ∧ Text.words type = typeWords detail) ∨
      (typeWords detail = [] ∧ (type = [] ∨ type ∈ fieldModifiers.map String.toList)) := by
  obtain ⟨stop, found, rfl⟩ := Option.map_eq_some_iff.mp h
  obtain ⟨lead, type, spaces, name, blanks, value, captured, is_lead, begun, fits, named, rfl⟩ :=
    exists_parts found
  rw [captured, typeWords_of_parts is_lead fits named, Text.words_trim]
  rcases begun with blank | ⟨w, more, rfl, some_text, unblank, ends, single⟩
  · rw [Text.words_of_blanks blank]
    have empty : Text.Tight [] := .of_unblank (List.forall_mem_nil _)
    exact .inr ⟨rfl, .inl (Text.trim_append_blanks empty blank)⟩
  · have first : Text.words (w ++ more) = w :: Text.words more := by
      rw [Text.words_append ends, Text.words_of_unblank some_text unblank, List.singleton_append]
    rw [first]
    by_cases modifier : w ∈ fieldModifiers.map String.toList
    · have lead_word : isLead w = true := by
        rw [isLead, List.contains_iff_mem.mpr modifier, Bool.or_true]
      rw [Text.words_of_blanks (single modifier), List.dropWhile_cons_of_pos lead_word,
        Text.trim_append_blanks (.of_unblank unblank) (single modifier)]
      exact .inr ⟨rfl, .inr modifier⟩
    · have type_word : ¬ isLead w = true := by
        obtain ⟨x, w, rfl⟩ := List.exists_cons_of_ne_nil some_text
        have other : x ≠ '@' := by
          rintro rfl
          exact absurd (fits '@' List.mem_cons_self) (by decide)
        simp [isLead, other, modifier]
      rw [List.dropWhile_cons_of_neg type_word]
      exact .inl ⟨List.cons_ne_nil _ _, rfl⟩

/-- Whether a text can be a type: it is not empty, and no modifier is among its words. -/
def IsType (type : List Char) : Prop :=
  type ≠ [] ∧ ∀ w ∈ Text.words type, w ∉ fieldModifiers.map String.toList

theorem words_of_fieldModifier (h : w ∈ fieldModifiers.map String.toList) : Text.words w = [w] := by
  obtain ⟨m, hm, rfl⟩ := List.mem_map.mp h
  obtain ⟨some_text, unblank, -⟩ := unblank_of_fieldModifier m hm
  exact Text.words_of_unblank some_text unblank

/-- A type is read exactly if words that are no modifiers stand between the modifiers and the
name. -/
theorem isType_iff (h : fieldType? detail = some type) :
    IsType type ↔
      typeWords detail ≠ [] ∧ ∀ w ∈ typeWords detail, w ∉ fieldModifiers.map String.toList := by
  rcases fieldType?_words h with ⟨some_words, same⟩ | ⟨no_words, rfl | modifier⟩
  · have some_type : type ≠ [] := by
      rintro rfl
      exact some_words same.symm
    simp [IsType, same, some_words, some_type]
  · simp [IsType, no_words]
  · have refused : ¬ IsType type := by
      intro is_type
      exact is_type.2 type (by rw [words_of_fieldModifier modifier]; simp) modifier
    simp [refused, no_words]

end CodeAtlas.Signature

namespace CodeAtlas.Enrichment

open Signature (IsType fieldModifiers typeWords)

variable {s : Symbol} {r : Resolver} {type : String}

theorem fieldType?_of_declared (field : s.kind.isFieldLike) (missing : s.resolvedType = none)
    (h : (declared s r).1.resolvedType = some type) :
    Signature.fieldType? s.detail.toList = some type.toList := by
  have typed : declared s = declaredType s := if_pos field
  rw [typed, declaredType, missing, if_neg (by decide)] at h
  cases found : Signature.fieldType? s.detail.toList with
  | none =>
    rw [found] at h
    have untouched : s.resolvedType = some type := h
    rw [missing] at untouched
    cases untouched
  | some read =>
    rw [found] at h
    have recorded : some (String.ofList read) = some type := h
    rw [← Option.some.inj recorded, String.toList_ofList]

/-- The type that is recorded from the declaration of a field has the words between the modifiers
and the name, if there are any; otherwise it is empty or a modifier. So it is a type exactly if
there are such words and none of them is a modifier. -/
theorem declared_types_are_types (field : s.kind.isFieldLike) (missing : s.resolvedType = none)
    (h : (declared s r).1.resolvedType = some type) :
    (IsType type.toList ↔ typeWords s.detail.toList ≠ [] ∧
        ∀ w ∈ typeWords s.detail.toList, w ∉ fieldModifiers.map String.toList) ∧
      (typeWords s.detail.toList ≠ [] → Text.words type.toList = typeWords s.detail.toList) ∧
      (typeWords s.detail.toList = [] → type = "" ∨ type ∈ fieldModifiers) := by
  have read := fieldType?_of_declared field missing h
  refine ⟨Signature.isType_iff read, ?_⟩
  rcases Signature.fieldType?_words read with ⟨some_words, same⟩ | ⟨no_words, untyped⟩
  · exact ⟨fun _ => same, fun empty => absurd empty some_words⟩
  · refine ⟨fun some_words => absurd no_words some_words, fun _ => ?_⟩
    rcases untyped with empty | modifier
    · exact .inl (String.toList_eq_nil_iff.mp empty)
    · obtain ⟨m, hm, same⟩ := List.mem_map.mp modifier
      exact .inr (String.toList_inj.mp same ▸ hm)

/-- A field with a modifier in front of its type. -/
def palette : Symbol :=
  { Symbol.ofName "palette" .field "lib/a.dart" with
    detail := "@observable late final Palette palette" }

theorem declared_types_are_types_palette :
    (palette.kind.isFieldLike ∧ palette.resolvedType = none ∧
      (declared palette {}).1.resolvedType = some "Palette") ∧ IsType "Palette".toList := by
  have field : palette.kind.isFieldLike := rfl
  have missing : palette.resolvedType = none := rfl
  have recorded : (declared palette {}).1.resolvedType = some "Palette" := by decide +kernel
  have words : typeWords palette.detail.toList = ["Palette".toList] := by decide +kernel
  refine ⟨⟨field, missing, recorded⟩, ?_⟩
  rw [(declared_types_are_types field missing recorded).1, words]
  decide

/-- A field without a type. -/
def untyped : Symbol := { Symbol.ofName "x" .field "lib/a.dart" with detail := "final x" }

/-- Without a type the modifier is recorded. -/
theorem modifier_recorded : (declared untyped {}).1.resolvedType = some "final" := by decide +kernel

end CodeAtlas.Enrichment
