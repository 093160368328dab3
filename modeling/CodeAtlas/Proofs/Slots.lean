import CodeAtlas.Proofs.DeclaredParameters
import CodeAtlas.Proofs.Matching

/-!
How a slot with a type and a name is read. The pattern for function types and the one for other
types both end behind the name and its default value, with the type and the name captured
(`typedTo`). The pattern for other types takes as little as it can for the type, and so all of it
only if no part of it can be followed by a name that ends the slot (`Torn`).
-/
namespace CodeAtlas.Parameters

open Pattern

variable {α : Type} {fuel : Nat} {c : Cursor} {k : Cursor → Option α} {r : α}
  {rest tail type name dflt : List Char}

/-! ## Blanks, gaps and ends -/

theorem run_atStart {s : List Char} : run fuel textStart (.ofText s) k = k (.ofText s) :=
  run_textStart

theorem run_blanks (h : ∀ x ∈ c.rest.head?, Text.isBlank x = false) :
    run fuel blanks c k = k c :=
  run_many_of_none fun x hx => Bool.eq_false_iff.mp (h x hx)

theorem run_gap (here : c.rest = ' ' :: rest) (next : ∀ x ∈ rest.head?, Text.isBlank x = false) :
    run fuel gap c k = k (c.past [' '] rest) :=
  run_plus_single here (by decide) fun x hx => Bool.eq_false_iff.mp (next x hx)

theorem run_gap_of_none (h : ∀ x ∈ c.rest.head?, Text.isBlank x = false) :
    run fuel gap c k = none :=
  run_plus_of_none fun x hx => Bool.eq_false_iff.mp (h x hx)

/-- What stands behind a slot: a comma or nothing. -/
def Closes (tail : List Char) : Prop := ∀ x ∈ tail.head?, x = ','

/-- The place behind the comma that closes a slot. -/
def overComma (c : Cursor) : Cursor := c.past (c.rest.take 1) (c.rest.drop 1)

theorem run_closing (closes : Closes c.rest) :
    run fuel (char ',' <|> textEnd) c k = k (overComma c) := by
  rw [run_orElse, run_textEnd]
  rcases here : c.rest with _ | ⟨x, rest⟩
  · have stays : overComma c = c := by
      rw [overComma, here]
      exact Cursor.past_nil here
    rw [run_char_of_ne (by simp [here]), Option.none_or, stays]
    rfl
  · obtain rfl : x = ',' := closes x (by rw [here]; rfl)
    have moves : overComma c = c.past [','] rest := by
      rw [overComma, here]
      rfl
    rw [run_char here, moves]
    exact Option.or_none

theorem closes_head (closes : Closes tail) {q : Char → Bool} (h : q ',' = false) :
    ∀ x ∈ tail.head?, q x = false := fun x hx => by rw [closes x hx, h]

theorem run_slotEnd (closes : Closes c.rest) : run fuel slotEnd c k = k (overComma c) := by
  have no_default : run fuel (char '=' ++ lazyStar inLine) c
      (fun e => run fuel (char ',' <|> textEnd) e k) = none := by
    rw [run_append]
    exact run_char_of_ne fun h => absurd (closes _ h) (by decide)
  rw [slotEnd, run_append, run_append, run_blanks (closes_head closes (by decide)),
    run_opt_of_none no_default, run_closing closes]

/-- What follows a slot starts behind its comma. -/
theorem afterSlot_overComma (closes : Closes c.rest) : afterSlot (overComma c) = c.rest.drop 1 := by
  rcases here : c.rest with _ | ⟨x, rest⟩
  · simp [afterSlot, overComma, here]
  · obtain rfl : x = ',' := closes x (by rw [here]; rfl)
    simp [afterSlot, overComma, here]

@[simp] theorem group?_overComma (n : Nat) : (overComma c).group? n = c.group? n := rfl

/-! ## Default values -/

/-- What stands between a name and the end of its slot: nothing or a default value up to a comma. -/
def IsDefault (dflt : List Char) : Prop :=
  dflt = [] ∨ ∃ e, dflt = " =".toList ++ e ∧ ',' ∉ e ∧ '\n' ∉ e

theorem run_slotEnd_default (default : IsDefault dflt) (closes : Closes tail)
    (here : c.rest = dflt ++ tail) (room : c.rest.length ≤ fuel) :
    run fuel slotEnd c some = some (overComma (c.past dflt tail)) := by
  rcases default with rfl | ⟨e, rfl, no_comma, one_line⟩
  · have stays : c.past [] tail = c := Cursor.past_nil here
    rw [run_slotEnd (by rw [here]; exact closes), stays]
  · have word : " =".toList = [' ', '='] := by decide
    rw [word] at here ⊢
    have here : c.rest = [' '] ++ ('=' :: (e ++ tail)) := here
    have inner_room : (e ++ tail).length ≤ fuel := by
      rw [here, List.length_append, List.length_cons, List.length_cons] at room
      omega
    rw [slotEnd, run_append, run_append]
    refine run_star here (List.forall_mem_singleton.mpr (by decide)) room ?_ ?_
    · refine run_opt_of_some ?_
      rw [run_append, run_char rfl]
      have in_line : ∀ x ∈ e, (x != '\n') = true := fun x hx =>
        bne_iff_ne.mpr fun same => one_line (same ▸ hx)
      refine run_lazyStar rfl in_line inner_room ?_ ?_
      · rw [run_closing (by exact closes), Cursor.past_past, Cursor.past_past]
        rfl
      · -- within the default value there is no comma
        intro less more some_more split
        obtain ⟨x, more, rfl⟩ := List.exists_cons_of_ne_nil some_more
        have other : x ≠ ',' := fun same => no_comma (split ▸ same ▸ by simp)
        rw [run_orElse, run_textEnd, run_char_of_ne fun h => other (Option.mem_some_iff.mp h)]
        rfl
    · -- there is only one blank
      rintro more rest' some_more split blank
      obtain ⟨x, more, rfl⟩ := List.exists_cons_of_ne_nil some_more
      obtain ⟨rfl, -⟩ := List.cons.inj split
      exact absurd (blank '=' List.mem_cons_self) (by decide)

/-- Behind a name comes no other character of it. -/
theorem ends_name (default : IsDefault dflt) (closes : Closes tail) :
    ∀ x ∈ (dflt ++ tail).head?, ¬ Text.isIdentPart x := by
  rcases default with rfl | ⟨e, rfl, -, -⟩
  · exact fun x hx => Bool.eq_false_iff.mp (closes_head closes (by decide) x hx)
  · exact forall_mem_head?_cons (by decide)

/-! ## Names -/

/-- All of a name is read. -/
theorem run_name (identifier : isIdentifier name) (here : c.rest = name ++ rest)
    (ends : ∀ x ∈ rest.head?, ¬ Text.isIdentPart x) (room : c.rest.length ≤ fuel)
    (goes_on : k (c.past name rest) = some r) : run fuel (plus identChar) c k = some r :=
  run_plus_all here (ne_nil_of_isIdentifier identifier)
    (fun x hx => isIdentPart_of_isNameChar (isNameChar_of_isIdentifier identifier x hx)) room ends
    goes_on

/-- The place behind a slot of the given type and name, from the place where its type starts. -/
def typedTo (c : Cursor) (type name dflt tail : List Char) : Cursor :=
  let typed := (c.past type (' ' :: (name ++ (dflt ++ tail)))).keep 2 c
  let gone := typed.past [' '] (name ++ (dflt ++ tail))
  overComma (((gone.past name (dflt ++ tail)).keep 3 gone).past dflt tail)

section TypedTo

/-- A gap, a name and a default value are read behind a type. -/
theorem run_slotName (identifier : isIdentifier name) (default : IsDefault dflt)
    (closes : Closes tail) (here : c.rest = type ++ ' ' :: (name ++ (dflt ++ tail)))
    (room : c.rest.length ≤ fuel) :
    run fuel (slotName 3) ((c.past type (' ' :: (name ++ (dflt ++ tail)))).keep 2 c)
      (fun e => run fuel slotEnd e some) = some (typedTo c type name dflt tail) := by
  have room' : (name ++ (dflt ++ tail)).length ≤ fuel := by
    rw [here, List.length_append, List.length_cons] at room
    omega
  have room'' : (dflt ++ tail).length ≤ fuel := by
    rw [List.length_append] at room'
    omega
  rw [slotName, run_append, run_gap rfl (begins_of_isIdentifier identifier).unblank, run_group]
  refine run_name identifier rfl (ends_name default closes) room' ?_
  exact run_slotEnd_default default closes rfl room''

/-- Without a gap no name is read. -/
theorem run_slotName_of_none (h : ∀ x ∈ c.rest.head?, Text.isBlank x = false) :
    run fuel (slotName 3) c k = none :=
  run_gap_of_none h

theorem group?_typedTo_type (here : c.rest = type ++ ' ' :: (name ++ (dflt ++ tail))) :
    (typedTo c type name dflt tail).group? 2 = some type := by
  rw [typedTo, group?_overComma, Cursor.group?_past, Cursor.group?_keep_of_ne (by decide),
    Cursor.group?_past, Cursor.group?_past]
  exact Cursor.group?_keep_past here 2

theorem group?_typedTo_name : (typedTo c type name dflt tail).group? 3 = some name := by
  rw [typedTo, group?_overComma, Cursor.group?_past]
  exact Cursor.group?_keep_past rfl 3

theorem group?_typedTo_flag : (typedTo c type name dflt tail).group? 1 = c.group? 1 := by
  rw [typedTo, group?_overComma, Cursor.group?_past, Cursor.group?_keep_of_ne (by decide),
    Cursor.group?_past, Cursor.group?_past, Cursor.group?_keep_of_ne (by decide),
    Cursor.group?_past]

theorem afterSlot_typedTo (closes : Closes tail) :
    afterSlot (typedTo c type name dflt tail) = tail.drop 1 :=
  afterSlot_overComma closes

theorem offset_typedTo_pos : 0 < (typedTo c type name dflt tail).offset := by
  simp only [typedTo, overComma, Cursor.offset_past, Cursor.offset_keep, List.length_singleton]
  omega

end TypedTo

/-! ## Torn types -/

/-- What comes next in a text, blanks aside. -/
def nextOf (s : List Char) : Option Char := (Text.trimStart s).head?

theorem nextOf_of_unblank {x : Char} (h : Text.isBlank x = false) :
    nextOf (x :: rest) = some x := by
  rw [nextOf, Text.trimStart, List.dropWhile_cons_of_neg (Bool.eq_false_iff.mp h), List.head?_cons]

theorem nextOf_append {piece : List Char} (blank : ∀ x ∈ piece, Text.isBlank x) :
    nextOf (piece ++ rest) = nextOf rest := by
  rw [nextOf, nextOf, Text.trimStart, Text.trimStart, List.dropWhile_append_of_pos blank]

/-- Whether a slot or the name in it can end before the text. -/
def Ends (s : List Char) : Prop := ∀ x ∈ nextOf s, x = ',' ∨ x = '='

/-- Whether the text begins with a name that ends a slot. -/
def EndsName (s : List Char) : Prop :=
  ∃ name rest, s = name ++ rest ∧ name ≠ [] ∧ (∀ x ∈ name, Text.isIdentPart x) ∧ Ends rest

/-- Whether the text begins with a gap and such a name. -/
def NameFollows (s : List Char) : Prop :=
  ∃ gap rest, s = gap ++ rest ∧ gap ≠ [] ∧ (∀ x ∈ gap, Text.isBlank x) ∧ EndsName rest

/-- Whether a part of a type, with `behind` behind the type, is followed by such a name. -/
def Torn (type behind : List Char) : Prop :=
  ∃ less more, type = less ++ more ∧ more ≠ [] ∧ NameFollows (more ++ behind)

theorem ends_of_slotEnd {d : Cursor} (h : slotEnd.Reaches c d) : Ends c.rest := by
  obtain ⟨e, ⟨e', blanks, default⟩, closing⟩ := h
  obtain ⟨piece, rest, here, blank, rfl⟩ := reaches_many blanks
  intro x hx
  rw [here, nextOf_append blank] at hx
  have next {y : Char} {rest' : List Char} (there : rest = y :: rest')
      (unblank : Text.isBlank y = false) : y = x := by
    rw [there, nextOf_of_unblank unblank] at hx
    exact Option.mem_some_iff.mp hx
  rcases default with ⟨e'', sign, -⟩ | rfl
  · obtain ⟨rest', there, -⟩ := reaches_char sign
    exact .inr (next there (by decide)).symm
  · rcases closing with comma | ⟨empty, -⟩
    · obtain ⟨rest', there, -⟩ := reaches_char comma
      exact .inl (next there (by decide)).symm
    · obtain rfl : rest = [] := List.isEmpty_iff.mp empty
      cases hx

theorem nameFollows_of_slotName {d : Cursor} (h : (slotName 3 ++ slotEnd).Reaches c d) :
    NameFollows c.rest := by
  obtain ⟨e, ⟨e', gapped, e'', letters, rfl⟩, ended⟩ := h
  obtain ⟨gap, rest, some_gap, here, blank, rfl⟩ := reaches_repeated gapped
  obtain ⟨name, rest', some_name, there, ident, rfl⟩ := reaches_repeated letters
  exact ⟨gap, rest, here, some_gap, blank, name, rest', there, some_name, ident,
    ends_of_slotEnd ended⟩

theorem slotEnd_reaches (ends : Ends c.rest) (plain : '=' ∉ c.rest) :
    ∃ d, slotEnd.Reaches c d := by
  have here : c.rest = c.rest.takeWhile Text.isBlank ++ Text.trimStart c.rest :=
    List.takeWhile_append_dropWhile.symm
  have skipped := many_reaches true here fun x hx => List.mem_takeWhile_imp hx
  cases next : Text.trimStart c.rest with
  | nil =>
    rw [next] at skipped
    exact ⟨_, _, ⟨_, skipped, .inr rfl⟩, .inr ⟨rfl, rfl⟩⟩
  | cons x rest =>
    rw [next] at here skipped
    rcases ends x (by rw [nextOf, next]; rfl) with rfl | rfl
    · exact ⟨_, _, ⟨_, skipped, .inr rfl⟩, .inl ⟨',', rest, rfl, beq_self_eq_true _, rfl⟩⟩
    · exact absurd (here ▸ List.mem_append_right _ List.mem_cons_self) plain

/-- A name that follows is read, if there is no default value behind it. -/
theorem slotName_reaches (follows : NameFollows c.rest) (plain : '=' ∉ c.rest) :
    ∃ d, (slotName 3 ++ slotEnd).Reaches c d := by
  obtain ⟨gap, rest, here, some_gap, blank, name, rest', rfl, some_name, ident, ends⟩ := follows
  let gone := c.past gap (name ++ rest')
  have gapped := repeated_reaches true here some_gap blank
  have named := repeated_reaches (c := gone) true rfl some_name ident
  have plain' : '=' ∉ rest' := fun h => plain (by simp [here, h])
  obtain ⟨d, closing⟩ := slotEnd_reaches (c := (gone.past name rest').keep 3 gone) ends plain'
  exact ⟨d, _, ⟨_, gapped, _, named, rfl⟩, closing⟩

theorem not_nameFollows_cons {x : Char} (h : Text.isBlank x = false) :
    ¬ NameFollows (x :: rest) := by
  rintro ⟨gap, rest', same, some_gap, blank, -⟩
  obtain ⟨y, gap, rfl⟩ := List.exists_cons_of_ne_nil some_gap
  obtain ⟨rfl, -⟩ := List.cons.inj same
  rw [blank x List.mem_cons_self] at h
  cases h

theorem not_torn_of_unblank (h : ∀ x ∈ type, Text.isBlank x = false) {behind : List Char} :
    ¬ Torn type behind := by
  rintro ⟨less, more, rfl, some_more, follows⟩
  obtain ⟨x, more, rfl⟩ := List.exists_cons_of_ne_nil some_more
  exact not_nameFollows_cons (h x (by simp)) follows

/-- Behind a part of a type that is not torn no name is read. -/
theorem run_slotName_of_not_torn {less more behind : List Char} (whole : ¬ Torn type behind)
    (split : type = less ++ more) (some_more : more ≠ []) (here : c.rest = more ++ behind) :
    run fuel (slotName 3) c (fun e => run fuel slotEnd e (some : Cursor → _)) = none := by
  show run fuel (slotName 3 ++ slotEnd) c some = none
  refine run_eq_none fun d reached => ?_
  exact absurd ⟨less, more, split, some_more, here ▸ nameFollows_of_slotName reached⟩ whole

/-! ## Flags -/

/-- A flag and the gap behind it. -/
def flagPart : Pattern := group 1 (words ["required", "covariant"]) ++ gap

theorem slotFlag_eq : slotFlag = opt flagPart := rfl

/-- The words that are flags. -/
def flagWords : List (List Char) := ["required".toList, "covariant".toList]

/-- Whether a word stands at the start of a text, and `rest` behind the word and a gap. -/
def Leads (w s rest : List Char) : Prop :=
  ∃ gap, s = w ++ (gap ++ rest) ∧ gap ≠ [] ∧ ∀ x ∈ gap, Text.isBlank x

theorem leads_of_word {e e' d : Cursor} {w : List Char} (first : (lit w).Reaches c e)
    (same : e'.rest = e.rest) (second : gap.Reaches e' d) : Leads w c.rest d.rest := by
  obtain ⟨rest', here, rfl⟩ := reaches_lit first
  obtain ⟨piece, rest'', some_piece, there, blank, rfl⟩ := reaches_repeated second
  refine ⟨piece, ?_, some_piece, blank⟩
  rw [here, Cursor.rest_past, ← there, same, Cursor.rest_past]

theorem steady_flagPart : flagPart.Steady :=
  ⟨⟨steady_lit _, steady_lit _⟩, trivial, trivial⟩

/-- A flag is read where it stands with a space behind it. -/
theorem flagPart_reaches {w : List Char} (flag : w ∈ flagWords) (here : c.rest = w ++ ' ' :: rest) :
    ∃ d, flagPart.Reaches c d ∧ d.rest = rest := by
  have read : ∃ e, (words ["required", "covariant"]).Reaches c e ∧ e.rest = ' ' :: rest := by
    rcases List.mem_cons.mp flag with rfl | flag
    · exact ⟨_, .inl (lit_reaches here), rfl⟩
    · obtain rfl := List.mem_singleton.mp flag
      exact ⟨_, .inr (lit_reaches here), rfl⟩
  obtain ⟨e, word, behind⟩ := read
  have behind : (e.keep 1 c).rest = [' '] ++ rest := behind
  have space : ∀ x ∈ [' '], Text.isBlank x := by decide
  have gapped := repeated_reaches true behind (List.cons_ne_nil _ _) space
  exact ⟨_, ⟨_, ⟨e, word, rfl⟩, gapped⟩, rfl⟩

theorem exists_of_flagPart {d : Cursor} (h : flagPart.Reaches c d) :
    ∃ w ∈ flagWords, Leads w c.rest d.rest := by
  obtain ⟨e, ⟨e', flag, same⟩, gapped⟩ := h
  have rest_same : e.rest = e'.rest := by rw [same, Cursor.rest_keep]
  rcases flag with flag | flag
  · exact ⟨_, List.mem_cons_self, leads_of_word flag rest_same gapped⟩
  · exact ⟨_, List.mem_cons_of_mem _ List.mem_cons_self, leads_of_word flag rest_same gapped⟩

/-- The first word of a parameter that begins with a type, and what follows it. -/
structure Opens (s lead rest : List Char) : Prop where
  here : s = lead ++ ' ' :: rest
  begins : Begins s
  unblank : ∀ x ∈ lead, Text.isBlank x = false
  unpunctuated : '.' ∉ lead ∧ ',' ∉ lead
  unreserved : lead ∉ reserved
  next : Begins rest

/-- A word that stands at the start of a text, and a gap behind it, is the first word. -/
theorem eq_of_leads {lead w u : List Char} (lead_unblank : ∀ x ∈ lead, Text.isBlank x = false)
    (w_unblank : ∀ x ∈ w, Text.isBlank x = false) (begins : Begins rest)
    (leads : Leads w (lead ++ ' ' :: rest) u) : lead = w ∧ rest = u := by
  obtain ⟨gap, here, some_gap, blank⟩ := leads
  have no_space : ' ' ∉ w := fun hw => absurd (w_unblank ' ' hw) (by decide)
  obtain ⟨more, rfl, behind⟩ := Text.exists_of_piece_before here no_space
  obtain ⟨x, gap, rfl⟩ := List.exists_cons_of_ne_nil some_gap
  obtain ⟨hx, blank⟩ := List.forall_mem_cons.mp blank
  cases more with
  | nil =>
    obtain ⟨-, others⟩ := List.cons.inj behind
    refine ⟨List.append_nil w, ?_⟩
    cases gap with
    | nil => exact others.symm
    | cons y gap =>
      have unblank := begins.unblank y (by rw [← others]; rfl)
      rw [blank y List.mem_cons_self] at unblank
      cases unblank
  | cons y more =>
    -- a rest of the first word would begin with the first blank of the gap
    obtain ⟨rfl, -⟩ := List.cons.inj behind
    have unblank := lead_unblank x (List.mem_append_right _ List.mem_cons_self)
    rw [hx] at unblank
    cases unblank

theorem unblank_of_mem_flagWords : ∀ w ∈ flagWords, ∀ x ∈ w, Text.isBlank x = false := by decide

theorem Opens.not_flag {s lead : List Char} (opens : Opens s lead rest) (d : Cursor) :
    ¬ flagPart.Reaches (.ofText s) d := by
  intro reached
  obtain ⟨w, flag, leads⟩ := exists_of_flagPart reached
  have leads : Leads w s d.rest := leads
  rw [opens.here] at leads
  obtain ⟨rfl, -⟩ := eq_of_leads opens.unblank (unblank_of_mem_flagWords w flag) opens.next leads
  have known : ∀ w ∈ flagWords, w ∈ reserved := by decide
  exact opens.unreserved (known _ flag)

open Declared (functionOf functionOf_eq begins_functionOf)

theorem opens_typed (type : Name) (nullable : Bool) (name : Name) (tail : List Char) :
    Opens ((Declared.typed type nullable name).text ++ tail)
      (Declared.typed type nullable name).type (name.text ++ tail) where
  here := List.append_assoc _ _ _
  begins := Declared.begins _
  unblank := by
    have mark : ∀ x ∈ (if nullable then ['?'] else []), Text.isBlank x = false := by
      cases nullable <;> decide
    exact List.forall_mem_append.mpr ⟨type.unblank, mark⟩
  unpunctuated := by
    have dot : '.' ∉ type.text := type.not_mem (by decide)
    have comma : ',' ∉ type.text := type.not_mem (by decide)
    rw [Declared.type_typed]
    cases nullable <;> simp [dot, comma]
  unreserved := by
    cases nullable with
    | false => simpa [Declared.type_typed] using type.unreserved
    | true =>
      -- no reserved word has a question mark
      have plain : ∀ w ∈ reserved, '?' ∉ w := by decide
      exact fun hw => plain _ hw (List.mem_append_right _ List.mem_cons_self)
  next := name.begins

theorem opens_function (result argument name : Name) (tail : List Char) :
    Opens ((Declared.function result argument name).text ++ tail) result.text
      (functionOf argument ++ ' ' :: (name.text ++ tail)) where
  here := by simp [Declared.text_function, Declared.type_function]
  begins := Declared.begins _
  unblank := result.unblank
  unpunctuated := ⟨result.not_mem (by decide), result.not_mem (by decide)⟩
  unreserved := result.unreserved
  next := begins_functionOf argument

/-- The place behind the flag of a slot, if it has one. -/
def flagged (marked : Bool) (s : List Char) : Cursor :=
  let start := Cursor.ofText (markText marked ++ s)
  if marked then ((start.past "required".toList (' ' :: s)).keep 1 start).past [' '] s else start

section Flagged

variable {marked : Bool} {s lead : List Char}

@[simp] theorem rest_flagged : (flagged marked s).rest = s := by
  cases marked <;> rfl

theorem group?_flagged :
    (flagged marked s).group? 1 = if marked then some "required".toList else none := by
  cases marked with
  | false => rfl
  | true => exact Cursor.group?_keep_past rfl 1

/-- Behind the flag, if there is one, the slot goes on. -/
theorem run_slotFlag (marked : Bool) (begins : Begins s) (goes_on : k (flagged marked s) = some r)
    (refused : marked = false → ∀ d, flagPart.Reaches (.ofText s) d → k d = none) :
    run fuel (textStart ++ blanks ++ slotFlag) (.ofText (markText marked ++ s)) k = some r := by
  rw [run_append, run_append, run_atStart, run_blanks (begins_mark begins marked).unblank,
    slotFlag_eq]
  cases marked with
  | false =>
    have no_flag : run fuel flagPart (.ofText s) k = none := run_eq_none (refused rfl)
    exact (run_opt_of_none no_flag).trans goes_on
  | true =>
    have here : (Cursor.ofText (markText true ++ s)).rest = "required".toList ++ ' ' :: s := rfl
    refine run_opt_of_some ?_
    rw [flagPart, run_append, run_group]
    refine run_orElse_of_some ?_
    rw [word, run_lit here, run_gap rfl begins.unblank]
    exact goes_on

end Flagged

/-! ## Types -/

theorem textOr_of_isNameChar {marks : String} {x : Char} (dollar : '$' ∈ marks.toList)
    (h : isNameChar x) :
    (Text.isWord x || Text.isBlank x || marks.toList.contains x) = true := by
  have part := isIdentPart_of_isNameChar h
  rw [Text.isIdentPart, Bool.or_eq_true, beq_iff_eq] at part
  rcases part with word | rfl
  · rw [word, Bool.true_or, Bool.true_or]
  · rw [List.contains_iff_mem.mpr dollar, Bool.or_true]

/-- The characters of types, parentheses among them. -/
def typeChar (x : Char) : Bool :=
  Text.isWord x || Text.isBlank x || "$.<>?[](),'".toList.contains x

/-- What stands in a slot behind its flag. -/
def typedPart : Pattern :=
  group 2 (lazyPlus (textOr "$.<>?[](),'") <|> functionWord (withinParens true)) ++
    slotName 3 ++ slotEnd

theorem steady_slotName : (slotName 3 ++ slotEnd).Steady :=
  ⟨⟨⟨trivial, trivial⟩, trivial, trivial⟩,
    ⟨trivial, ⟨trivial, trivial⟩, trivial⟩, trivial, trivial⟩

theorem steady_typedPart : typedPart.Steady := by
  have function : (functionWord (withinParens true)).Steady :=
    ⟨⟨⟨⟨⟨steady_lit _, trivial⟩, trivial⟩, ⟨trivial, trivial⟩, trivial⟩, trivial⟩, trivial, trivial⟩
  exact ⟨⟨⟨⟨trivial, trivial⟩, function⟩, steady_slotName.1⟩, steady_slotName.2⟩

theorem run_typedSlot : run fuel typedSlot c k =
    run fuel (textStart ++ blanks ++ slotFlag) c fun e => run fuel typedPart e k := by
  simp only [typedSlot, typedPart, run_append]

section TypedSlot

variable {marked : Bool} {s : List Char}

theorem run_typedPart (here : c.rest = type ++ ' ' :: (name ++ (dflt ++ tail)))
    (some_type : type ≠ []) (fits : ∀ x ∈ type, typeChar x)
    (whole : ¬ Torn type (' ' :: (name ++ (dflt ++ tail)))) (identifier : isIdentifier name)
    (default : IsDefault dflt) (closes : Closes tail) (room : c.rest.length ≤ fuel) :
    run fuel typedPart c some = some (typedTo c type name dflt tail) := by
  rw [typedPart, run_append, run_append, run_group]
  refine run_orElse_of_some ?_
  refine run_lazyPlus here some_type fits room (run_slotName identifier default closes here room) ?_
  intro less more _ some_more split
  exact run_slotName_of_not_torn whole split some_more rfl

/-- A type and a name that are written out are read off the pattern for them. -/
theorem typedSlot_atStart (marked : Bool) (begins : Begins s)
    (here : s = type ++ ' ' :: (name ++ (dflt ++ tail)))
    (some_type : type ≠ []) (fits : ∀ x ∈ type, typeChar x)
    (whole : ¬ Torn type (' ' :: (name ++ (dflt ++ tail)))) (identifier : isIdentifier name)
    (default : IsDefault dflt) (closes : Closes tail)
    (refused : marked = false → ∀ d, flagPart.Reaches (.ofText s) d →
      run s.length typedPart d some = none) :
    typedSlot.atStart (markText marked ++ s) =
      some (typedTo (flagged marked s) type name dflt tail) := by
  have room : (flagged marked s).rest.length ≤ (markText marked ++ s).length := by
    rw [rest_flagged]
    exact (List.suffix_append _ _).length_le
  rw [atStart, matchAt, run_typedSlot]
  refine run_slotFlag _ begins ?_ ?_
  · exact run_typedPart (rest_flagged.trans here) some_type fits whole identifier default closes
      room
  · rintro rfl d reached
    exact refused rfl d reached

/-- Of a type that is torn only a part is read. -/
theorem exists_run_typedPart {behind : List Char} (here : c.rest = type ++ behind)
    (begins : ∀ x ∈ type.head?, Text.isBlank x = false) (fits : ∀ x ∈ type, typeChar x)
    (torn : Torn type behind) (plain : '=' ∉ c.rest) (room : c.rest.length ≤ fuel) :
    ∃ less r, less.length < type.length ∧ run fuel typedPart c some = some r ∧
      r.group? 2 = some less := by
  obtain ⟨part, more, rfl, some_more, follows⟩ := torn
  have some_part : part ≠ [] := by
    rintro rfl
    obtain ⟨x, more, rfl⟩ := List.exists_cons_of_ne_nil some_more
    exact not_nameFollows_cons (begins x rfl) follows
  have here : c.rest = part ++ (more ++ behind) := here.trans (List.append_assoc _ _ _)
  -- behind the part the slot can go on
  have accepted : (run fuel (slotName 3 ++ slotEnd) ((c.past part (more ++ behind)).keep 2 c)
      some).isSome := by
    have plain' : '=' ∉ more ++ behind := fun h => plain (here ▸ List.mem_append_right _ h)
    have room' : (more ++ behind).length ≤ fuel := by
      rw [here, List.length_append] at room
      omega
    obtain ⟨d, reached⟩ := slotName_reaches (c := (c.past part (more ++ behind)).keep 2 c)
      follows plain'
    exact isSome_run steady_slotName room' reached rfl
  have fits' : ∀ x ∈ part, typeChar x := fun x hx => fits x (List.mem_append_left _ hx)
  obtain ⟨less, others, r, rfl, goes_on, found⟩ := exists_run_lazyPlus
    (k := fun e => run fuel (slotName 3 ++ slotEnd) (e.keep 2 c) some) here some_part fits' room
    accepted
  have shorter : less.length < (less ++ others ++ more).length := by
    have some_length := List.length_pos_iff.mpr some_more
    rw [List.length_append, List.length_append]
    omega
  refine ⟨less, r, shorter, ?_, ?_⟩
  · rw [typedPart, run_append, run_append, run_group]
    exact run_orElse_of_some found
  · obtain ⟨d, reached, same⟩ := exists_reaches_of_run goes_on
    obtain rfl : d = r := Option.some.inj same
    rw [reached.group?_eq (by decide)]
    exact Cursor.group?_keep_past (here.trans (List.append_assoc _ _ _)) 2

end TypedSlot

theorem typedSlot_atStart_typed (type : Name) (nullable marked : Bool) (n : Name)
    (closes : Closes tail) :
    typedSlot.atStart (markText marked ++ ((Declared.typed type nullable n).text ++ tail)) =
      some (typedTo (flagged marked ((Declared.typed type nullable n).text ++ tail))
        (Declared.typed type nullable n).type n.text [] tail) := by
  have opens := opens_typed type nullable n tail
  have some_type : (Declared.typed type nullable n).type ≠ [] :=
    List.append_ne_nil_of_left_ne_nil type.text_ne_nil _
  have fits : ∀ x ∈ (Declared.typed type nullable n).type, typeChar x := by
    rw [Declared.type_typed]
    refine List.forall_mem_append.mpr ⟨fun x hx => ?_, ?_⟩
    · exact textOr_of_isNameChar (by decide) (type.isNameChar_of_mem x hx)
    · exact List.all_eq_true.mp (by cases nullable <;> decide)
  exact typedSlot_atStart marked opens.begins opens.here some_type fits
    (not_torn_of_unblank opens.unblank) n.identifier (.inl rfl) closes
    fun _ d reached => absurd reached (opens.not_flag d)

section FunctionTypes

variable {n argument : Name} {lead : List Char}

theorem run_functionWord
    (here : c.rest = functionOf argument ++ ' ' :: (n.text ++ tail)) (room : c.rest.length ≤ fuel)
    (goes_on : k (c.past (functionOf argument) (' ' :: (n.text ++ tail))) = some r)
    (late : k (c.past (functionOf argument ++ [' ']) (n.text ++ tail)) = none) :
    run fuel (functionWord (withinParens false)) c k = some r := by
  have begins := here.trans Declared.functionOf_append
  have inner_room : (argument.text ++ ')' :: ' ' :: (n.text ++ tail)).length ≤ fuel := by
    rw [begins, List.length_append, List.length_cons] at room
    omega
  have outer_room : (' ' :: (n.text ++ tail)).length ≤ fuel := by
    rw [List.length_append, List.length_cons] at inner_room
    omega
  -- no question mark stands behind the parenthesis
  have no_mark {x : Char} {t : List Char} {e : Cursor} (there : e.rest = x :: t) (h : x ≠ '?') :
      run fuel (opt (char '?')) e k = k e := by
    refine run_opt_of_none (run_char_of_ne ?_)
    rw [there, List.head?_cons, Option.mem_some_iff]
    exact h
  rw [functionWord, run_append, run_append, run_append, run_append, run_append, word,
    run_lit begins, run_blanks (forall_mem_head?_cons (by decide)), run_char rfl]
  refine run_opt_of_some ?_
  rw [run_append]
  refine run_lazyStar rfl (fun x hx => ?_) inner_room ?_ ?_
  · exact bne_iff_ne.mpr (ne_of_isNameChar (argument.isNameChar_of_mem x hx) (by decide))
  · rw [run_char rfl]
    refine run_star (List.nil_append _).symm (fun _ hx => absurd hx List.not_mem_nil) outer_room
      ?_ ?_
    · rw [no_mark rfl (by decide)]
      simpa [functionOf_eq] using goes_on
    · -- a blank that is taken here is missing before the name
      rintro more rest' some_more split blank
      obtain ⟨x, more, rfl⟩ := List.exists_cons_of_ne_nil some_more
      obtain ⟨rfl, others⟩ := List.cons.inj split
      obtain rfl : more = [] := by
        cases more with
        | nil => rfl
        | cons y more =>
          have unblank := (n.begins : Begins (n.text ++ tail)).unblank y (by rw [others]; rfl)
          rw [blank y (by simp)] at unblank
          cases unblank
      obtain ⟨y, letters, name⟩ := n.exists_cons
      have first : y ≠ '?' := ne_of_isNameChar (n.isNameChar_of_mem y (by simp [name])) (by decide)
      obtain rfl : n.text ++ tail = rest' := others
      rw [no_mark (by rw [Cursor.rest_past, name]; rfl) first]
      simpa [functionOf_eq] using late
  · intro less more some_more split
    obtain ⟨x, more, rfl⟩ := List.exists_cons_of_ne_nil some_more
    have inside : x ∈ argument.text := split ▸ List.mem_append_right _ List.mem_cons_self
    have other : x ≠ ')' := ne_of_isNameChar (argument.isNameChar_of_mem x inside) (by decide)
    exact run_char_of_ne fun h => other (Option.mem_some_iff.mp h)

/-- A function type and a name are read off the pattern for them, with all the text before the first
parenthesis in the type. -/
theorem run_functionType
    (here : c.rest = lead ++ ' ' :: (functionOf argument ++ ' ' :: (n.text ++ tail)))
    (some_lead : lead ≠ []) (plain : ∀ x ∈ lead, isPlain x) (closes : Closes tail)
    (room : c.rest.length ≤ fuel) :
    run fuel (group 2 (returnPart ++ functionWord (withinParens false))) c
        (fun e => run fuel (slotName 3) e fun e => run fuel slotEnd e some) =
      some (typedTo c (lead ++ ' ' :: functionOf argument) n.text [] tail) := by
  rw [run_group, run_append, returnPart]
  -- the return type is taken as long as possible: up to the last space before the parenthesis
  refine run_opt_of_some ?_
  rw [run_append]
  refine run_plus here some_lead (fun x hx => ?_) room ?_ ?_
  · have marks : ∀ y ∈ ['.', '?', ' '] ++ [','],
        (Text.isWord y || Text.isBlank y || "$<>?,.[]".toList.contains y) = true :=
      List.all_eq_true.mp (by decide)
    rcases Bool.or_eq_true .. |>.mp (plain x hx) with simple | comma
    · rcases Bool.or_eq_true .. |>.mp simple with letter | mark
      · exact textOr_of_isNameChar (by decide) letter
      · exact marks x (List.mem_append_left _ (List.contains_iff_mem.mp mark))
    · exact marks x (List.mem_append_right _ (by simpa using comma))
  · rw [run_gap rfl (begins_functionOf argument).unblank, Cursor.past_past]
    refine run_functionWord rfl ?_ ?_ ?_
    · rw [here, List.length_append, List.length_cons] at room
      rw [Cursor.rest_past]
      omega
    · rw [Cursor.past_past, List.append_assoc]
      exact run_slotName n.identifier (.inl rfl) closes (here.trans (by simp)) room
    · exact run_slotName_of_none n.begins.unblank
  · -- behind the space, up to the parenthesis, there is no other gap
    rintro more rest' some_more split fits
    obtain ⟨x, more, rfl⟩ := List.exists_cons_of_ne_nil some_more
    obtain ⟨rfl, others⟩ := List.cons.inj split
    have no_parenthesis : '(' ∉ more := fun h =>
      absurd (fits '(' (List.mem_cons_of_mem _ h)) (by decide)
    obtain ⟨letters, whole, rfl⟩ :=
      Text.exists_of_piece_before (Declared.functionOf_append.symm.trans others) no_parenthesis
    have unblank : ∀ y ∈ "Function".toList, Text.isBlank y = false := by decide
    refine run_gap_of_none fun y hy => ?_
    cases letters with
    | nil => exact Option.mem_some_iff.mp hy ▸ (by decide)
    | cons z letters =>
      obtain rfl : z = y := Option.mem_some_iff.mp hy
      exact unblank z (whole ▸ List.mem_append_right _ List.mem_cons_self)

theorem functionSlot_atStart {marked : Bool} {s first : List Char} (opens : Opens s first rest)
    (here : s = lead ++ ' ' :: (functionOf argument ++ ' ' :: (n.text ++ tail)))
    (some_lead : lead ≠ []) (plain : ∀ x ∈ lead, isPlain x) (closes : Closes tail) :
    functionSlot.atStart (markText marked ++ s) = some (typedTo (flagged marked s)
      (lead ++ ' ' :: functionOf argument) n.text [] tail) := by
  have room : (flagged marked s).rest.length ≤ (markText marked ++ s).length := by
    rw [rest_flagged]
    exact (List.suffix_append _ _).length_le
  rw [atStart, matchAt, functionSlot, run_append, run_append, run_append]
  refine run_slotFlag _ opens.begins ?_ fun _ d reached => absurd reached (opens.not_flag d)
  exact run_functionType (rest_flagged.trans here) some_lead plain closes room

/-- Whether every parenthesis stands behind an equals sign. -/
def Uncalled (s : List Char) : Prop := ∀ lead rest, s = lead ++ '(' :: rest → '=' ∈ lead

theorem uncalled_of_not_mem {s : List Char} (h : '(' ∉ s) : Uncalled s := fun lead _ same =>
  absurd (same ▸ List.mem_append_right lead List.mem_cons_self) h

theorem Uncalled.append {a b : List Char} (ha : '(' ∉ a) (hb : Uncalled b) : Uncalled (a ++ b) := by
  intro lead rest same
  rcases List.append_eq_append_iff.mp same with ⟨more, rfl, behind⟩ | ⟨more, rfl, behind⟩
  · exact List.mem_append_right _ (hb more rest behind)
  · cases more with
    | nil => exact absurd (hb [] rest behind.symm) List.not_mem_nil
    | cons x more =>
      obtain ⟨rfl, -⟩ := List.cons.inj behind
      exact absurd (List.mem_append_right _ List.mem_cons_self) ha

/-- Behind an equals sign there may be parentheses. -/
theorem uncalled_of_equals {a : List Char} (h : '(' ∉ a) (b : List Char) :
    Uncalled (a ++ '=' :: b) := by
  intro lead rest same
  by_contra free
  obtain ⟨more, rfl, behind⟩ := Text.exists_of_piece_before same free
  cases more with
  | nil => exact absurd (List.cons.inj behind).1 (by decide)
  | cons x more =>
    obtain ⟨rfl, -⟩ := List.cons.inj behind
    exact h (List.mem_append_right _ List.mem_cons_self)

theorem Uncalled.behind {a b : List Char} (h : Uncalled (a ++ b)) (free : '=' ∉ a) :
    Uncalled b := by
  rintro lead rest rfl
  have inside := h (a ++ lead) rest (List.append_assoc _ _ _).symm
  exact (List.mem_append.mp inside).resolve_left free

theorem blank_avoids_equals : blank.Avoids '=' := (by decide : Text.isBlank '=' = false)

/-- Without a parenthesis before the first equals sign no function type is read. -/
theorem not_functionWord {p : Pattern} {d : Cursor} (h : Uncalled c.rest) :
    ¬ (functionWord p).Reaches c d := by
  rintro ⟨e₅, ⟨e₄, ⟨e₃, ⟨e₂, called, opened⟩, -⟩, -⟩, -⟩
  have avoids : (word "Function" ++ blanks).Avoids '=' :=
    And.intro (avoids_lit (by decide)) blank_avoids_equals
  obtain ⟨lead, here, free⟩ := called.exists_piece avoids
  obtain ⟨rest, parenthesis, -⟩ := reaches_char opened
  rw [parenthesis] at here
  exact free (h lead rest here)

theorem functionSlot_eq_none {s : List Char} (h : Uncalled s) : functionSlot.atStart s = none := by
  refine atStart_eq_none fun d reached => ?_
  obtain ⟨f, ⟨f', ⟨start, front, stop, ⟨e, result, called⟩, -⟩, -⟩, -⟩ := reached
  have text_free : (textOr "$<>?,.[]").Avoids '=' :=
    (by decide : (Text.isWord '=' || Text.isBlank '=' || "$<>?,.[]".toList.contains '=') = false)
  have gap_free : gap.Avoids '=' := And.intro blank_avoids_equals blank_avoids_equals
  have flag_free : slotFlag.Avoids '=' :=
    ⟨⟨⟨avoids_lit (by decide), avoids_lit (by decide)⟩, gap_free⟩, trivial⟩
  have avoids : (textStart ++ blanks ++ slotFlag ++ returnPart).Avoids '=' :=
    ⟨⟨⟨trivial, blank_avoids_equals⟩, flag_free⟩, ⟨⟨text_free, text_free⟩, gap_free⟩, trivial⟩
  have before : (textStart ++ blanks ++ slotFlag ++ returnPart).Reaches (.ofText s) e :=
    ⟨start, front, result⟩
  obtain ⟨lead, here, free⟩ := before.exists_piece avoids
  have here : s = lead ++ e.rest := here
  rw [here] at h
  exact not_functionWord (h.behind free) called

end FunctionTypes

end CodeAtlas.Parameters
