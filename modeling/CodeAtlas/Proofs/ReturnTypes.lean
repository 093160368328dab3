import CodeAtlas.Declaration.Signature
import CodeAtlas.Proofs.Searching
import CodeAtlas.Proofs.Slots
import CodeAtlas.Proofs.TypeWords

/-!
The return type in a declaration. Modifiers are cut out of the whole declaration before it is read:
those in front of the type, but also a name that is the same word. So the type is read back whatever
modifiers and parameters stand around it, except for a callable that is named like a modifier, which
has no return type then (`return_types_read`).
-/
namespace CodeAtlas

namespace Signature

open Pattern
open Parameters (isNameChar Begins forall_mem_head?_cons run_blanks run_gap textOr_of_isNameChar)

variable {fuel count : Nat} {c d : Cursor} {before : Option Char} {w : String}
  {piece rest s blanks : List Char}

/-! ## Modifiers -/

/-- The words that are cut out of a declaration before its return type is read. -/
def modifierWords : List String :=
  ["static", "external", "async", "sync", "factory", "late", "final", "const", "required"]

/-- Modifiers with a space behind each. -/
def modifierText (mods : List String) : List Char := mods.flatMap fun m => m.toList ++ [' ']

theorem modifier_eq : modifier = wordEdge ++ words modifierWords ++ wordEdge ++ Pattern.blanks :=
  rfl

theorem letters_of_modifier : ∀ w ∈ modifierWords,
    w.toList ≠ [] ∧ ∀ x ∈ w.toList, Text.isWord x := by
  decide

/-- No modifier begins with another. -/
theorem eq_of_prefix : ∀ v ∈ modifierWords, ∀ w ∈ modifierWords, v.toList <+: w.toList → v = w := by
  decide

/-- A modifier is read as a whole word. -/
theorem exists_of_modifier (h : modifier.Reaches c d) : ∃ w ∈ modifierWords, ∃ rest,
    c.rest = w.toList ++ rest ∧ (∀ x ∈ c.before, Text.isWord x = false) ∧
      ∀ x ∈ rest.head?, Text.isWord x = false := by
  obtain ⟨e₁, ⟨e₂, ⟨e₃, ⟨starts, rfl⟩, read⟩, ends, rfl⟩, -⟩ := h
  obtain ⟨w, hw, rest, here, rfl⟩ := reaches_words read
  obtain ⟨some_word, letters⟩ := letters_of_modifier w hw
  exact ⟨w, hw, rest, here, (atWordEdge_before here some_word letters).mp starts,
    (atWordEdge_behind some_word letters).mp ends⟩

/-- Of a text none of whose words is a modifier nothing is cut out. -/
theorem modifier_passes (plain : ∀ w ∈ modifierWords, w.toList ∉ Text.runs Text.isWord piece)
    (ends : ∀ x ∈ rest.head?, Text.isWord x = false) :
    modifier.Passes fuel before piece rest := by
  refine passes_of_misses fun a b split some_b =>
    misses_of_not_reaches fun c d hc here reached => ?_
  obtain ⟨w, hw, rest', here', starts, edge⟩ := exists_of_modifier reached
  obtain ⟨some_word, letters⟩ := letters_of_modifier w hw
  have same : b ++ rest = w.toList ++ rest' := here.symm.trans here'
  -- the word stands within the piece
  obtain ⟨more, rfl⟩ := Text.prefix_of_ends letters ends ⟨rest', same.symm⟩
  rw [List.append_assoc] at same
  have behind := List.append_cancel_left same
  refine plain w hw ?_
  rw [split]
  refine Text.mem_runs some_word letters (fun y hy => ?_) fun y hy => ?_
  · refine starts y ?_
    rw [hc, Option.mem_def.mp hy]
    rfl
  · refine edge y ?_
    rw [← behind, List.head?_append, Option.mem_def.mp hy]
    rfl

theorem modifier_matchAt (hw : w ∈ modifierWords) (here : c.rest = w.toList ++ (blanks ++ rest))
    (starts : ∀ x ∈ c.before, Text.isWord x = false)
    (edge : ∀ x ∈ (blanks ++ rest).head?, Text.isWord x = false)
    (blank : ∀ x ∈ blanks, Text.isBlank x) (next : ∀ x ∈ rest.head?, Text.isBlank x = false)
    (room : c.rest.length ≤ fuel) :
    modifier.matchAt fuel c = some (c.past (w.toList ++ blanks) rest) := by
  obtain ⟨some_word, letters⟩ := letters_of_modifier w hw
  have begins : c.atWordEdge := (atWordEdge_before here some_word letters).mpr starts
  have alone : ∀ v ∈ modifierWords, v.toList <+: c.rest → v = w := fun v hv start =>
    eq_of_prefix v hv w hw (Text.prefix_of_ends (letters_of_modifier v hv).2 edge (here ▸ start))
  have stops : (c.past w.toList (blanks ++ rest)).atWordEdge :=
    (atWordEdge_behind some_word letters).mpr edge
  have inner_room : (c.past w.toList (blanks ++ rest)).rest.length ≤ fuel := by
    rw [here, List.length_append] at room
    exact Nat.le_trans (Nat.le_add_left _ _) room
  rw [matchAt, modifier_eq, run_append, run_append, run_append, run_wordEdge, if_pos begins,
    run_words hw here alone, run_wordEdge, if_pos stops]
  refine run_star_all rfl blank inner_room (fun y hy => ?_) ?_
  · rw [next y hy]
    exact Bool.false_ne_true
  · rw [Cursor.past_past]

/-! ## What is cut out of a declaration -/

theorem metadata_passes (h : '@' ∉ piece) : metadata.Passes fuel before piece rest := by
  refine passes_of_first (fun c d reached => ?_) h
  obtain ⟨e₁, ⟨e₂, mark, -⟩, -⟩ := reached
  obtain ⟨rest, here, -⟩ := reaches_char mark
  rw [here]
  rfl

theorem metadata_removeAll (h : '@' ∉ piece) (s : List Char) :
    ∃ s', metadata.removeAll (piece ++ s) = piece ++ s' ∧ ∀ x ∈ s', x ∈ s := by
  refine ⟨_, leftOver_of_passes rfl (metadata_passes h), fun x hx => ?_⟩
  exact (mem_of_mem_leftOver hx : x ∈ s)

/-- Modifiers in front of a text are cut out, with the spaces behind them. -/
theorem leftOver_modifierText {mods : List String} (h : ∀ m ∈ mods, m ∈ modifierWords)
    (begins : Begins rest) (here : c.rest = modifierText mods ++ rest)
    (starts : ∀ x ∈ c.before, Text.isWord x = false) (room : c.rest.length ≤ fuel)
    (enough : c.rest.length ≤ count) :
    ∃ e count', e.rest = rest ∧ (∀ x ∈ e.before, Text.isWord x = false) ∧ rest.length ≤ count' ∧
      modifier.leftOver fuel count c = modifier.leftOver fuel count' e := by
  induction mods generalizing c count with
  | nil => exact ⟨c, count, here, starts, by rw [here] at enough; exact enough, rfl⟩
  | cons m mods ih =>
    obtain ⟨hm, others⟩ := List.forall_mem_cons.mp h
    have here : c.rest = m.toList ++ ([' '] ++ (modifierText mods ++ rest)) := by
      simpa [modifierText] using here
    have next : ∀ x ∈ (modifierText mods ++ rest).head?, Text.isBlank x = false := by
      cases mods with
      | nil => exact begins.unblank
      | cons m' mods =>
        have blank_free : ∀ w ∈ modifierWords, ∀ x ∈ w.toList, Text.isBlank x = false := by decide
        have first := others m' List.mem_cons_self
        intro x hx
        rw [modifierText, List.flatMap_cons, List.append_assoc, List.append_assoc,
          List.head?_append_of_ne_nil _ (letters_of_modifier m' first).1] at hx
        exact blank_free m' first x (List.mem_of_mem_head? hx)
    have matched := modifier_matchAt (c := c.bare) hm here starts
      (forall_mem_head?_cons (by decide)) (by decide) next room
    have long : (modifierText mods ++ rest).length < c.rest.length := by
      rw [here]
      simp only [List.length_append, List.length_singleton]
      omega
    obtain ⟨count', rfl⟩ : ∃ count', count = count' + 1 := ⟨count - 1, by omega⟩
    have stops : ∀ x ∈ (c.bare.past (m.toList ++ [' ']) (modifierText mods ++ rest)).before,
        Text.isWord x = false := by
      rw [Cursor.before_past, List.getLast?_concat]
      exact fun x hx => Option.mem_some_iff.mp hx ▸ (by decide)
    have shorter : (modifierText mods ++ rest).length ≤ count' :=
      Nat.le_of_lt_succ (Nat.lt_of_lt_of_le long enough)
    obtain ⟨e, count'', same, edge, left, cut⟩ :=
      ih others rfl stops (Nat.le_trans long.le room) shorter
    exact ⟨e, count'', same, edge, left, (leftOver_of_match matched).trans cut⟩

theorem not_mem_modifierText {mods : List String} (h : ∀ m ∈ mods, m ∈ modifierWords) :
    '@' ∉ modifierText mods := by
  have unmarked : ∀ m ∈ modifierWords, '@' ∉ m.toList ++ [' '] := by decide
  intro mem
  obtain ⟨m, hm, mem⟩ := List.mem_flatMap.mp mem
  exact unmarked m (h m hm) mem

section Declaration

variable {t : TypeExpression} {n : Identifier}

/-- A name as it is left in a declaration. -/
def leftName (n : Identifier) : List Char :=
  if n.text ∈ modifierWords.map String.toList then [] else n.text

/-- No modifier begins with another character than those of words. -/
theorem modifier_passes_mark {m : Char} (h : Text.isWord m = false) (s : List Char) :
    modifier.Passes fuel before [m] s := by
  refine passes_singleton.mpr (misses_of_not_reaches fun c d _ here reached => ?_)
  obtain ⟨w, hw, rest', there, -, -⟩ := exists_of_modifier reached
  obtain ⟨some_word, letters⟩ := letters_of_modifier w hw
  obtain ⟨x, w', split⟩ := List.exists_cons_of_ne_nil some_word
  rw [here, split] at there
  obtain ⟨rfl, -⟩ := List.cons.inj there
  exact Bool.false_ne_true (h.symm.trans (letters m (split ▸ List.mem_cons_self)))

/-- The type in a declaration is left, with the space behind it. -/
theorem modifier_passes_type
    (plain : ∀ m ∈ t.identifiers, '$' ∉ m.text ∧ m.text ∉ modifierWords.map String.toList)
    (s : List Char) : modifier.Passes fuel before (t.text ++ [' ']) s := by
  refine passes_append.mpr ⟨modifier_passes (fun w hw mem => ?_) ?_,
    modifier_passes_mark (by decide) s⟩
  · rw [t.runs_text fun m hm => (plain m hm).1] at mem
    obtain ⟨m, hm, same⟩ := List.mem_map.mp mem
    exact (plain m hm).2 (same ▸ List.mem_map_of_mem hw)
  · exact forall_mem_head?_cons (by decide)

/-- The name in a declaration is left if it is no modifier. -/
theorem leftOver_name (plain : '$' ∉ n.text) (here : c.rest = n.text ++ '(' :: s)
    (spaced : c.before = some ' ') (room : c.rest.length ≤ fuel) (some_count : 0 < count) :
    ∃ s', modifier.leftOver fuel count c = leftName n ++ '(' :: s' ∧ ∀ x ∈ s', x ∈ s := by
  have paren (before : Option Char) : modifier.Passes fuel before ['('] s :=
    modifier_passes_mark (by decide) s
  by_cases named : n.text ∈ modifierWords.map String.toList
  · obtain ⟨w, hw, same⟩ := List.mem_map.mp named
    have word : c.bare.rest = w.toList ++ ([] ++ '(' :: s) := by
      rw [same]
      exact here
    have starts : ∀ x ∈ c.bare.before, Text.isWord x = false := by
      rw [show c.bare.before = c.before from rfl, spaced]
      exact fun x hx => Option.mem_some_iff.mp hx ▸ (by decide)
    have matched := modifier_matchAt hw word starts (forall_mem_head?_cons (by decide))
      (List.forall_mem_nil _) (forall_mem_head?_cons (by decide)) room
    obtain ⟨count, rfl⟩ : ∃ count', count = count' + 1 := ⟨count - 1, by omega⟩
    have behind (e : Cursor) (here : e.rest = ['('] ++ s) : modifier.leftOver fuel count e =
        ['('] ++ modifier.leftOver fuel count (e.past ['('] s) :=
      leftOver_of_passes here (paren e.before)
    rw [leftOver_of_match matched, behind _ rfl, leftName, if_pos named]
    exact ⟨_, rfl, fun x hx => mem_of_mem_leftOver hx⟩
  · have here : c.rest = (n.text ++ ['(']) ++ s := by rw [here]; simp
    have passes : modifier.Passes fuel c.before (n.text ++ ['(']) s := by
      refine passes_append.mpr ⟨modifier_passes (fun w hw mem => ?_) ?_, paren _⟩
      · rw [Text.runs_of_all n.text_ne_nil (TypeExpression.isWord_of_plain plain),
          List.mem_singleton] at mem
        exact named (mem ▸ List.mem_map_of_mem hw)
      · exact forall_mem_head?_cons (by decide)
    rw [leftOver_of_passes here passes, leftName, if_neg named, List.append_assoc,
      List.singleton_append]
    exact ⟨_, rfl, fun x hx => mem_of_mem_leftOver hx⟩

/-- Of a declaration only the type, the name and what stands behind them is left. -/
theorem modifier_removeAll {mods : List String} (h : ∀ m ∈ mods, m ∈ modifierWords)
    (plain : ∀ m ∈ t.identifiers, '$' ∉ m.text ∧ m.text ∉ modifierWords.map String.toList)
    (plain_name : '$' ∉ n.text) (s : List Char) : ∃ s',
    modifier.removeAll (modifierText mods ++ (t.text ++ ' ' :: (n.text ++ '(' :: s))) =
        t.text ++ ' ' :: (leftName n ++ '(' :: s') ∧ ∀ x ∈ s', x ∈ s := by
  rw [removeAll_eq]
  generalize length : (modifierText mods ++ (t.text ++ ' ' :: (n.text ++ '(' :: s))).length = fuel
  have long : (t.text ++ ' ' :: (n.text ++ '(' :: s)).length ≤ fuel := by
    rw [← length]
    exact (List.suffix_append _ _).length_le
  obtain ⟨c, count, here, starts, enough, cut⟩ := leftOver_modifierText h t.begins
    (show (Cursor.ofText _).rest = _ from rfl) (fun _ h => nomatch h) length.le length.le
  have typed : c.rest = (t.text ++ [' ']) ++ (n.text ++ '(' :: s) := by rw [here]; simp
  rw [List.length_append, List.length_cons] at long enough
  let d := c.past (t.text ++ [' ']) (n.text ++ '(' :: s)
  have room : d.rest.length ≤ fuel := by
    show (n.text ++ '(' :: s).length ≤ fuel
    omega
  have some_count : 0 < count := by omega
  have spaced : d.before = some ' ' := by simp [d]
  obtain ⟨s', left, inside⟩ := leftOver_name plain_name rfl spaced room some_count
  refine ⟨s', ?_, inside⟩
  rw [cut, leftOver_of_passes typed (modifier_passes_type plain _), left]
  simp

/-! ## Reading the type -/

/-- Blanks at the end of a text are cut off, but no parenthesis. -/
theorem trim_parenthesis {a : List Char} (begins : Begins a) (s : List Char) :
    ∃ s', Text.trim (a ++ '(' :: s) = a ++ '(' :: s' ∧ ∀ x ∈ s', x ∈ s := by
  obtain ⟨l, r, whole, before, behind⟩ := Text.exists_blanks_around (a ++ '(' :: s)
  have starts : l = [] := by
    cases l with
    | nil => rfl
    | cons x l =>
      obtain ⟨y, a, rfl, letter⟩ := begins
      obtain ⟨rfl, -⟩ := List.cons.inj whole
      have blank := before _ List.mem_cons_self
      rw [Parameters.not_isBlank_of_isNameChar letter] at blank
      cases blank
  rw [starts, List.nil_append] at whole
  rcases List.append_eq_append_iff.mp whole with ⟨more, same, rest⟩ | ⟨more, same, rest⟩
  · cases more with
    | nil =>
      rw [List.nil_append] at rest
      exact absurd (behind '(' (rest ▸ List.mem_cons_self)) (by decide)
    | cons x more =>
      obtain ⟨rfl, behind_it⟩ := List.cons.inj rest
      refine ⟨more, same, fun y hy => ?_⟩
      rw [behind_it]
      exact List.mem_append_left _ hy
  · exact absurd (behind '(' (rest ▸ List.mem_append_right _ List.mem_cons_self)) (by decide)

/-- What stands in front of a name and its parenthesis, read from a place on. -/
theorem exists_of_named {name : List Char}
    (h : (gap ++ lit name ++ Pattern.blanks ++ char '(').Reaches c d) :
    ∃ spaces blanks rest, c.rest = spaces ++ (name ++ (blanks ++ '(' :: rest)) ∧ spaces ≠ [] ∧
      (∀ x ∈ spaces, Text.isBlank x) ∧ ∀ x ∈ blanks, Text.isBlank x := by
  obtain ⟨e₁, ⟨e₂, ⟨e₃, gapped, named⟩, blanked⟩, mark⟩ := h
  obtain ⟨spaces, rest₁, some_spaces, here, blank, rfl⟩ := reaches_repeated gapped
  obtain ⟨rest₂, there, rfl⟩ := reaches_lit named
  obtain ⟨blanks, rest₃, behind, blank', rfl⟩ := reaches_many blanked
  obtain ⟨rest, last, -⟩ := reaches_char mark
  refine ⟨spaces, blanks, rest, ?_, some_spaces, blank, blank'⟩
  rw [here, show rest₁ = name ++ rest₂ from there, show rest₂ = blanks ++ rest₃ from behind,
    show rest₃ = '(' :: rest from last]

/-- A text is cut at the only place where a character stands. -/
theorem eq_of_only {x : Char} {a a' b b' : List Char} (before : x ∉ a) (behind : x ∉ b)
    (same : a ++ x :: b = a' ++ x :: b') : a = a' ∧ b = b' := by
  rcases List.append_eq_append_iff.mp same with ⟨more, -, rest⟩ | ⟨more, split, rest⟩
  · cases more with
    | nil => simp_all
    | cons y more =>
      obtain ⟨rfl, rfl⟩ := List.cons.inj rest
      exact absurd (List.mem_append_right more List.mem_cons_self) behind
  · cases more with
    | nil => simp_all
    | cons y more =>
      obtain ⟨rfl, -⟩ := List.cons.inj rest
      exact absurd (split ▸ List.mem_append_right a' List.mem_cons_self) before

/-- Within the type no match can end. -/
theorem not_named {less more : List Char} (split : t.text = less ++ more) (some_more : more ≠ [])
    (single : '(' ∉ s) (here : c.rest = more ++ ' ' :: (n.text ++ '(' :: s)) :
    ¬ (gap ++ lit n.text ++ Pattern.blanks ++ char '(').Reaches c d := by
  intro reached
  obtain ⟨spaces, blanks, rest, there, -, blank, blank'⟩ := exists_of_named reached
  have same : (more ++ ' ' :: n.text) ++ '(' :: s =
      (spaces ++ (n.text ++ blanks)) ++ '(' :: rest := by
    simpa using here.symm.trans there
  have free : '(' ∉ more ++ ' ' :: n.text := by
    have typed : '(' ∉ less ++ more := split ▸ t.not_mem_text (by decide)
    simp only [List.mem_append, List.mem_cons, not_or] at typed ⊢
    exact ⟨typed.2, by decide, n.not_mem (by decide)⟩
  obtain ⟨same, -⟩ := eq_of_only free single same
  -- one word stands there, so what is left of the type is blank
  have first : Text.words (more ++ ' ' :: n.text) = Text.words more ++ [n.text] := by
    rw [Text.words, Text.runs_append_cons (by decide)]
    exact congrArg _ (Text.words_of_unblank n.text_ne_nil n.unblank)
  have second : Text.words (spaces ++ (n.text ++ blanks)) = [n.text] := by
    rw [Text.words_append_of_last fun x hx => blank x (List.mem_of_getLast? hx),
      Text.words_of_blanks blank, Text.words_append_blanks blank',
      Text.words_of_unblank n.text_ne_nil n.unblank, List.nil_append]
  rw [same, second] at first
  have empty : Text.words more = [] := by simpa using first.symm
  have last : t.text.getLast? = some (more.getLast some_more) := by
    rw [split, List.getLast?_append, List.getLast?_eq_getLast_of_ne_nil some_more, Option.some_or]
  have unblank := t.tight.last _ last
  rw [Text.words_eq_nil_iff.mp empty _ (List.getLast_mem some_more)] at unblank
  cases unblank

/-- The type in front of a name and its parenthesis is captured. -/
theorem atStart_returning (plain : ∀ m ∈ t.identifiers, '$' ∉ m.text) (single : '(' ∉ s) :
    ∃ stop, (returning n.text).atStart (t.text ++ ' ' :: (n.text ++ '(' :: s)) = some stop ∧
      stop.group 1 = t.text := by
  generalize whole : t.text ++ ' ' :: (n.text ++ '(' :: s) = text
  let c := Cursor.ofText text
  let typed := (c.past t.text (' ' :: (n.text ++ '(' :: s))).keep 1 c
  have here : c.rest = t.text ++ ' ' :: (n.text ++ '(' :: s) := whole.symm
  have fits : ∀ x ∈ t.text, (Text.isWord x || Text.isBlank x ||
      "<>\x7b\x7d[].,?()".toList.contains x) = true := by
    refine TypeExpression.forall_mem_text (by decide) fun m hm x hx => ?_
    rw [TypeExpression.isWord_of_plain (plain m hm) x hx, Bool.true_or, Bool.true_or]
  refine ⟨((typed.past [' '] (n.text ++ '(' :: s)).past n.text ('(' :: s)).past ['('] s, ?_, ?_⟩
  · refine run_lazyPlus here t.text_ne_nil fits (Nat.le_refl _) ?_ ?_
    · have unblank : ∀ x ∈ (n.text ++ '(' :: s).head?, Text.isBlank x = false := n.begins.unblank
      refine (run_gap rfl unblank).trans ?_
      refine (run_lit rfl).trans ?_
      refine (run_blanks (forall_mem_head?_cons (by decide))).trans ?_
      exact run_char rfl
    · intro less more _ some_more split
      exact run_eq_none (p := gap ++ lit n.text ++ Pattern.blanks ++ char '(') fun d reached =>
        absurd reached (not_named split some_more single rfl)
  · have captured : typed.group? 1 = some t.text := Cursor.group?_keep_past here 1
    rw [Cursor.group, Cursor.group?_past, Cursor.group?_past, Cursor.group?_past, captured]
    rfl

/-- Without its name a declaration has no type to capture. -/
theorem atStart_nameless (plain : ∀ m ∈ t.identifiers, '$' ∉ m.text) (plain_name : '$' ∉ n.text)
    (other : ∀ m ∈ t.identifiers, m.text ≠ n.text) (single : '(' ∉ s) :
    (returning n.text).atStart (t.text ++ ' ' :: '(' :: s) = none := by
  refine atStart_eq_none fun d reached => ?_
  obtain ⟨e₁, ⟨e₂, ⟨e₃, ⟨e₄, ⟨e₅, ⟨-, rfl⟩, typed⟩, gapped⟩, named⟩, blanked⟩, mark⟩ := reached
  obtain ⟨e, typed, rfl⟩ := typed
  obtain ⟨type, rest, -, here, -, rfl⟩ := reaches_repeated typed
  obtain ⟨spaces, blanks, rest', there, some_spaces, blank, blank'⟩ :=
    exists_of_named ⟨e₁, ⟨e₂, ⟨e₃, gapped, named⟩, blanked⟩, mark⟩
  have same : (t.text ++ [' ']) ++ '(' :: s =
      (type ++ spaces ++ (n.text ++ blanks)) ++ '(' :: rest' := by
    have whole : t.text ++ ' ' :: '(' :: s = type ++ rest := here
    have inner : rest = spaces ++ (n.text ++ (blanks ++ '(' :: rest')) := there
    simpa [inner] using whole
  have free : '(' ∉ t.text ++ [' '] := by
    simp only [List.mem_append, not_or]
    exact ⟨t.not_mem_text (by decide), by decide⟩
  obtain ⟨same, -⟩ := eq_of_only free single same
  -- the name would be a word of the type
  have mem : n.text ∈ Text.runs Text.isWord (type ++ spaces ++ (n.text ++ blanks)) := by
    refine Text.mem_runs n.text_ne_nil (TypeExpression.isWord_of_plain plain_name) ?_ ?_
    · intro x hx
      rw [List.getLast?_append_of_ne_nil _ some_spaces] at hx
      exact Text.isWord_of_isBlank (blank x (List.mem_of_getLast? hx))
    · exact fun x hx => Text.isWord_of_isBlank (blank' x (List.mem_of_mem_head? hx))
  rw [← same, Text.runs_append_none (by decide), t.runs_text plain] at mem
  obtain ⟨m, hm, same⟩ := List.mem_map.mp mem
  exact other m hm same

/-- The return type of a declaration is its type without the modifiers in front of it, whatever the
parameters are: none if that is `void`, and none if the name is itself a modifier. -/
theorem return_types_read {mods : List String} {parameters : List Char}
    (h : ∀ m ∈ mods, m ∈ modifierWords)
    (plain : ∀ m ∈ t.identifiers, '$' ∉ m.text ∧ m.text ∉ modifierWords.map String.toList)
    (plain_name : '$' ∉ n.text) (flat : '(' ∉ parameters) :
    returnType? (modifierText mods ++ (t.text ++ ' ' :: (n.text ++ '(' :: (parameters ++ [')']))))
        n.text =
      if n.text ∈ modifierWords.map String.toList ∨ isVoid t.text then none else some t.text := by
  have no_mark : '@' ∉ modifierText mods ++ (t.text ++ ' ' :: (n.text ++ ['('])) := by
    simp only [List.mem_append, List.mem_cons, List.not_mem_nil, not_or]
    exact ⟨not_mem_modifierText h, t.not_mem_text (by decide), by decide, n.not_mem (by decide),
      by decide, not_false⟩
  obtain ⟨s, unmarked, within⟩ := metadata_removeAll no_mark (parameters ++ [')'])
  obtain ⟨s', unmodified, within'⟩ := modifier_removeAll h plain plain_name s
  have begins : Begins (t.text ++ ' ' :: leftName n) := t.begins
  obtain ⟨s'', trimmed, within''⟩ := trim_parenthesis begins s'
  have single : '(' ∉ s'' := fun mem => by
    have inside := within _ (within' _ (within'' _ mem))
    simp only [List.mem_append, List.mem_singleton] at inside
    exact inside.elim flat (by decide)
  have left : Text.trim (modifier.removeAll (metadata.removeAll (modifierText mods ++
      (t.text ++ ' ' :: (n.text ++ '(' :: (parameters ++ [')'])))))) =
      t.text ++ ' ' :: (leftName n ++ '(' :: s'') := by
    simp only [List.append_assoc, List.cons_append, List.nil_append] at unmarked trimmed
    rw [unmarked, unmodified, trimmed]
  have plain_type : ∀ m ∈ t.identifiers, '$' ∉ m.text := fun m hm => (plain m hm).1
  unfold returnType?
  dsimp only
  rw [left]
  by_cases named : n.text ∈ modifierWords.map String.toList
  · have missing := atStart_nameless plain_type plain_name
      (fun m hm same => (plain m hm).2 (same ▸ named)) single
    rw [leftName, if_pos named, List.nil_append, missing, if_pos (.inl named)]
    rfl
  · obtain ⟨stop, found, captured⟩ := atStart_returning plain_type single
    rw [leftName, if_neg named, found]
    simp only [Option.bind_eq_bind, Option.bind_some, captured, t.tight.trim_eq, named, false_or]
    rfl

/-- A failure or a score that can be missing. -/
def failureOrScore : TypeExpression where
  name := ⟨"Either".toList, by decide⟩
  arguments := [{ name := ⟨"Failure".toList, by decide⟩ },
    { name := ⟨"Score".toList, by decide⟩, nullable := true }]

theorem return_types_read_load :
    ((∀ m ∈ ["static", "final"], m ∈ modifierWords) ∧
      (∀ m ∈ failureOrScore.identifiers,
        '$' ∉ m.text ∧ m.text ∉ modifierWords.map String.toList) ∧
      '$' ∉ "load".toList ∧ '(' ∉ "int x".toList) ∧
    returnType? "static final Either<Failure, Score?> load(int x)".toList "load".toList =
      some "Either<Failure, Score?>".toList := by
  have modifiers : ∀ m ∈ ["static", "final"], m ∈ modifierWords := by decide
  have plain : ∀ m ∈ failureOrScore.identifiers,
      '$' ∉ m.text ∧ m.text ∉ modifierWords.map String.toList := by decide
  let load : Identifier := ⟨"load".toList, by decide⟩
  have plain_name : '$' ∉ load.text := by decide
  have flat : '(' ∉ "int x".toList := by decide
  have detail : "static final Either<Failure, Score?> load(int x)".toList =
      modifierText ["static", "final"] ++ (failureOrScore.text ++ ' ' :: (load.text ++ '(' ::
        ("int x".toList ++ [')']))) := by decide
  refine ⟨⟨modifiers, plain, plain_name, flat⟩, ?_⟩
  rw [detail, show "load".toList = load.text from rfl,
    return_types_read modifiers plain plain_name flat, if_neg (by decide)]
  decide

/-- A callable that is named like a modifier has no return type. -/
theorem no_return_type_of_sync : returnType? "Future<int> sync()".toList "sync".toList = none := by
  decide +kernel

end Declaration

end Signature
end CodeAtlas
