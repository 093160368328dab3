import CodeAtlas.Pattern
import Mathlib.Data.List.Basic
import Mathlib.Logic.Relation

/-!
How patterns match. `Pattern.Reaches` tells where a match can end, whichever way of matching comes
first: a match ends at a place that is reached (`exists_reaches_of_run`), so a pattern that reaches
no place the continuation accepts does not match (`run_eq_none`), and one that reaches such a place
does (`isSome_run`). A group holds what its pattern reads (`Reaches.exists_captured`), and other
patterns leave it alone. Which way comes first is told for repeated characters: the longest piece
that lets the continuation go on if the repetition is greedy (`run_plus`), the shortest if it is not
(`run_lazyPlus`).
-/
namespace CodeAtlas

/-! ## Places behind a piece of text -/

namespace Cursor

variable {c start : Cursor} {piece rest : List Char}

/-- The place behind a piece of text, when `rest` follows it. -/
def past (c : Cursor) (piece rest : List Char) : Cursor :=
  ⟨piece.getLast?.or c.before, rest, c.offset + piece.length, c.groups⟩

/-- The place with the text from `start` up to it captured as group `n`. -/
def keep (c : Cursor) (n : Nat) (start : Cursor) : Cursor :=
  { c with groups := (n, ⟨start.rest, c.offset - start.offset⟩) :: c.groups }

@[simp] theorem rest_past : (c.past piece rest).rest = rest := rfl

@[simp] theorem before_past : (c.past piece rest).before = piece.getLast?.or c.before := rfl

@[simp] theorem offset_past : (c.past piece rest).offset = c.offset + piece.length := rfl

@[simp] theorem rest_keep (n : Nat) : (c.keep n start).rest = c.rest := rfl

@[simp] theorem offset_keep (n : Nat) : (c.keep n start).offset = c.offset := rfl

theorem past_nil (h : c.rest = rest) : c.past [] rest = c := by
  subst h
  rfl

@[simp] theorem past_past (a b : List Char) {rest' : List Char} :
    (c.past a rest).past b rest' = c.past (a ++ b) rest' := by
  simp [past, Nat.add_assoc, Option.or_assoc]

@[simp] theorem group?_past (n : Nat) : (c.past piece rest).group? n = c.group? n := rfl

/-- A group that has just been captured holds the piece of text passed over. -/
theorem group?_keep_past (h : c.rest = piece ++ rest) (n : Nat) :
    ((c.past piece rest).keep n c).group? n = some piece := by
  have taken : c.offset + piece.length - c.offset = piece.length := Nat.add_sub_cancel_left _ _
  simp [group?, keep, past, Capture.text, taken, h]

@[simp] theorem group?_keep_of_ne {m n : Nat} (h : m ≠ n) :
    (c.keep n start).group? m = c.group? m := by
  have other : (m == n) = false := beq_false_of_ne h
  simp [group?, keep, List.lookup_cons, other]

end Cursor

namespace Pattern

variable {α : Type} {fuel : Nat} {c d : Cursor} {k : Cursor → Option α} {r : α}
  {p a b : Pattern} {q : Char → Bool} {piece rest : List Char}

/-! ## Where a match can end -/

/-- Where a match that starts at a place can end. -/
def Reaches : Pattern → Cursor → Cursor → Prop
  | nothing, c, d => d = c
  | one q, c, d => ∃ x rest, c.rest = x :: rest ∧ q x ∧ d = c.past [x] rest
  | seq a b, c, d => ∃ e, a.Reaches c e ∧ b.Reaches e d
  | alt a b, c, d => a.Reaches c d ∨ b.Reaches c d
  | many _ a, c, d => Relation.ReflTransGen a.Reaches c d
  | group n a, c, d => ∃ e, a.Reaches c e ∧ d = e.keep n c
  | textStart, c, d => c.before.isNone ∧ d = c
  | textEnd, c, d => c.rest.isEmpty ∧ d = c
  | wordEdge, c, d => c.atWordEdge ∧ d = c

theorem exists_reaches_of_rounds {R : Cursor → Cursor → Prop}
    {step : Cursor → (Cursor → Option α) → Option α} {greedy : Bool}
    (sound : ∀ c k, step c k = some r → ∃ d, R c d ∧ k d = some r)
    (h : rounds step greedy fuel c k = some r) :
    ∃ d, Relation.ReflTransGen R c d ∧ k d = some r := by
  induction fuel generalizing c with
  | zero => exact ⟨c, .refl, h⟩
  | succ fuel ih =>
    have again (h : step c (fun c' => rounds step greedy fuel c' k) = some r) :
        ∃ d, Relation.ReflTransGen R c d ∧ k d = some r := by
      obtain ⟨e, first, h⟩ := sound c _ h
      obtain ⟨d, others, h⟩ := ih h
      exact ⟨d, .head first others, h⟩
    unfold rounds at h
    split at h
    · split at h
      · rename_i found
        exact again (found.trans h)
      · exact ⟨c, .refl, h⟩
    · split at h
      · rename_i found
        exact ⟨c, .refl, found.trans h⟩
      · exact again h

/-- A match ends at a place that is reached and that the continuation accepts. -/
theorem exists_reaches_of_run (h : run fuel p c k = some r) :
    ∃ d, p.Reaches c d ∧ k d = some r := by
  induction p generalizing c k with
  | nothing => exact ⟨c, rfl, h⟩
  | one q =>
    unfold run at h
    split at h
    · cases h
    · rename_i x rest here
      split at h
      · rename_i fits
        exact ⟨c.past [x] rest, ⟨x, rest, here, fits, rfl⟩, h⟩
      · cases h
  | seq a b iha ihb =>
    obtain ⟨e, first, h⟩ := iha h
    obtain ⟨d, second, h⟩ := ihb h
    exact ⟨d, ⟨e, first, second⟩, h⟩
  | alt a b iha ihb =>
    unfold run at h
    split at h
    · rename_i found
      obtain ⟨d, left, h⟩ := iha (found.trans h)
      exact ⟨d, .inl left, h⟩
    · obtain ⟨d, right, h⟩ := ihb h
      exact ⟨d, .inr right, h⟩
  | many greedy a ih => exact exists_reaches_of_rounds (fun _ _ => ih) h
  | group n a ih =>
    obtain ⟨e, inner, h⟩ := ih h
    exact ⟨e.keep n c, ⟨e, inner, rfl⟩, h⟩
  | textStart | textEnd | wordEdge =>
    unfold run at h
    split at h
    · rename_i here
      exact ⟨c, ⟨here, rfl⟩, h⟩
    · cases h

/-- A pattern that reaches no place that the continuation accepts does not match. -/
theorem run_eq_none (h : ∀ d, p.Reaches c d → k d = none) : run fuel p c k = none := by
  cases found : run fuel p c k with
  | none => rfl
  | some r =>
    obtain ⟨d, reached, accepted⟩ := exists_reaches_of_run found
    rw [h d reached] at accepted
    cases accepted

theorem atStart_eq_none {s : List Char} (h : ∀ d, ¬ p.Reaches (.ofText s) d) :
    p.atStart s = none :=
  run_eq_none fun d reached => absurd reached (h d)

theorem reaches_char {x : Char} (h : (char x).Reaches c d) :
    ∃ rest, c.rest = x :: rest ∧ d = c.past [x] rest := by
  obtain ⟨y, rest, here, same, there⟩ := h
  obtain rfl := eq_of_beq same
  exact ⟨rest, here, there⟩

theorem reaches_lit {w : List Char} (h : (lit w).Reaches c d) :
    ∃ rest, c.rest = w ++ rest ∧ d = c.past w rest := by
  induction w generalizing c with
  | nil => exact ⟨c.rest, rfl, h.trans (Cursor.past_nil rfl).symm⟩
  | cons x w ih =>
    obtain ⟨e, first, others⟩ := h
    obtain ⟨rest, here, rfl⟩ := reaches_char first
    obtain ⟨rest', there, rfl⟩ := ih others
    refine ⟨rest', ?_, Cursor.past_past [x] w⟩
    rw [here, List.cons_append]
    exact congrArg _ there

theorem lit_reaches {w : List Char} (here : c.rest = w ++ rest) :
    (lit w).Reaches c (c.past w rest) := by
  induction w generalizing c with
  | nil =>
    rw [Cursor.past_nil (by exact here)]
    exact rfl
  | cons x w ih =>
    have others := ih (c := c.past [x] (w ++ rest)) rfl
    rw [Cursor.past_past] at others
    exact ⟨_, ⟨x, w ++ rest, here, beq_self_eq_true x, rfl⟩, others⟩

theorem reaches_many {greedy : Bool} (h : (many greedy (one q)).Reaches c d) :
    ∃ piece rest, c.rest = piece ++ rest ∧ (∀ x ∈ piece, q x) ∧ d = c.past piece rest := by
  induction h with
  | refl => exact ⟨[], c.rest, rfl, by simp, (Cursor.past_nil rfl).symm⟩
  | tail _ last ih =>
    obtain ⟨piece, rest, here, fits, rfl⟩ := ih
    obtain ⟨x, rest', there, hx, rfl⟩ := last
    refine ⟨piece ++ [x], rest', ?_, ?_, Cursor.past_past piece [x]⟩
    · rw [here, show rest = x :: rest' from there, List.append_assoc, List.singleton_append]
    · simpa [or_imp, forall_and] using And.intro fits hx

/-- Repeated characters are a piece of text, not an empty one. -/
theorem reaches_repeated {greedy : Bool} (h : (seq (one q) (many greedy (one q))).Reaches c d) :
    ∃ piece rest, piece ≠ [] ∧ c.rest = piece ++ rest ∧ (∀ x ∈ piece, q x) ∧
      d = c.past piece rest := by
  obtain ⟨e, ⟨x, rest, here, hx, rfl⟩, more⟩ := h
  obtain ⟨piece, rest', there, fits, rfl⟩ := reaches_many more
  refine ⟨x :: piece, rest', List.cons_ne_nil _ _, ?_, List.forall_mem_cons.mpr ⟨hx, fits⟩,
    Cursor.past_past [x] piece⟩
  rw [here, show rest = piece ++ rest' from there, List.cons_append]

theorem many_reaches (greedy : Bool) (here : c.rest = piece ++ rest) (fits : ∀ x ∈ piece, q x) :
    (many greedy (one q)).Reaches c (c.past piece rest) := by
  induction piece generalizing c with
  | nil =>
    rw [Cursor.past_nil (by exact here)]
    exact .refl
  | cons x piece ih =>
    obtain ⟨hx, fits⟩ := List.forall_mem_cons.mp fits
    have others := ih (c := c.past [x] (piece ++ rest)) rfl fits
    rw [Cursor.past_past] at others
    exact .head ⟨x, piece ++ rest, here, hx, rfl⟩ others

theorem repeated_reaches (greedy : Bool) (here : c.rest = piece ++ rest) (some_piece : piece ≠ [])
    (fits : ∀ x ∈ piece, q x) :
    (seq (one q) (many greedy (one q))).Reaches c (c.past piece rest) := by
  obtain ⟨x, piece, rfl⟩ := List.exists_cons_of_ne_nil some_piece
  obtain ⟨hx, fits⟩ := List.forall_mem_cons.mp fits
  have others := many_reaches (c := c.past [x] (piece ++ rest)) greedy rfl fits
  rw [Cursor.past_past] at others
  exact ⟨_, ⟨x, piece ++ rest, here, hx, rfl⟩, others⟩

theorem Reaches.suffix (h : p.Reaches c d) : d.rest <:+ c.rest := by
  induction p generalizing c d with
  | nothing =>
    obtain rfl := h
    exact List.suffix_rfl
  | one q =>
    obtain ⟨x, rest, here, -, rfl⟩ := h
    rw [here]
    exact List.suffix_cons x rest
  | seq a b iha ihb =>
    obtain ⟨e, first, second⟩ := h
    exact (ihb second).trans (iha first)
  | alt a b iha ihb => exact h.elim iha ihb
  | many greedy a ih =>
    induction h with
    | refl => exact List.suffix_rfl
    | tail _ last before => exact (ih last).trans before
  | group n a ih =>
    obtain ⟨e, inner, rfl⟩ := h
    exact (ih inner : e.rest <:+ c.rest)
  | textStart | textEnd | wordEdge =>
    obtain ⟨-, rfl⟩ := h
    exact List.suffix_rfl

/-- Whether every match takes the character. -/
def Needs (x : Char) : Pattern → Prop
  | one q => ∀ y, q y → y = x
  | seq a b => a.Needs x ∨ b.Needs x
  | alt a b => a.Needs x ∧ b.Needs x
  | group _ a => a.Needs x
  | _ => False

/-- A pattern that needs a character does not match a text without it. -/
theorem Reaches.mem_of_needs {x : Char} (h : p.Reaches c d) (needs : p.Needs x) : x ∈ c.rest := by
  induction p generalizing c d with
  | one q =>
    obtain ⟨y, rest, here, fits, -⟩ := h
    rw [here, ← needs y fits]
    exact List.mem_cons_self
  | seq a b iha ihb =>
    obtain ⟨e, first, second⟩ := h
    rcases needs with left | right
    · exact iha first left
    · exact first.suffix.subset (ihb second right)
  | alt a b iha ihb =>
    rcases h with left | right
    · exact iha left needs.1
    · exact ihb right needs.2
  | group n a ih =>
    obtain ⟨e, inner, -⟩ := h
    exact ih inner needs
  | nothing | many | textStart | textEnd | wordEdge => cases needs

/-- Whether no match takes the character. -/
def Avoids (x : Char) : Pattern → Prop
  | one q => q x = false
  | seq a b | alt a b => a.Avoids x ∧ b.Avoids x
  | many _ a | group _ a => a.Avoids x
  | _ => True

theorem avoids_lit {x : Char} {w : List Char} (h : x ∉ w) : (lit w).Avoids x := by
  induction w with
  | nil => exact trivial
  | cons y w ih =>
    obtain ⟨first, others⟩ := not_or.mp (mt List.mem_cons.mpr h)
    exact ⟨beq_false_of_ne first, ih others⟩

/-- A pattern that avoids a character matches pieces without it. -/
theorem Reaches.exists_piece {x : Char} (h : p.Reaches c d) (avoids : p.Avoids x) :
    ∃ piece, c.rest = piece ++ d.rest ∧ x ∉ piece := by
  induction p generalizing c d with
  | one q =>
    obtain ⟨y, rest, here, fits, rfl⟩ := h
    refine ⟨[y], here, fun hx => ?_⟩
    obtain rfl := List.mem_singleton.mp hx
    exact Bool.false_ne_true (avoids.symm.trans fits)
  | seq a b iha ihb =>
    obtain ⟨e, first, second⟩ := h
    obtain ⟨piece, here, free⟩ := iha first avoids.1
    obtain ⟨piece', there, free'⟩ := ihb second avoids.2
    exact ⟨piece ++ piece', by rw [here, there, List.append_assoc], by simp [free, free']⟩
  | alt a b iha ihb =>
    rcases h with left | right
    · exact iha left avoids.1
    · exact ihb right avoids.2
  | many greedy a ih =>
    induction h with
    | refl => exact ⟨[], rfl, List.not_mem_nil⟩
    | tail _ last before =>
      obtain ⟨piece, here, free⟩ := before
      obtain ⟨piece', there, free'⟩ := ih last avoids
      exact ⟨piece ++ piece', by rw [here, there, List.append_assoc], by simp [free, free']⟩
  | group n a ih =>
    obtain ⟨e, inner, rfl⟩ := h
    exact (ih inner avoids : ∃ piece, c.rest = piece ++ e.rest ∧ x ∉ piece)
  | nothing =>
    obtain rfl := h
    exact ⟨[], rfl, List.not_mem_nil⟩
  | textStart | textEnd | wordEdge =>
    obtain ⟨-, rfl⟩ := h
    exact ⟨[], rfl, List.not_mem_nil⟩

/-- What is read by a pattern that avoids a character is free of it. -/
theorem Reaches.not_mem {x : Char} (h : p.Reaches c d) (avoids : p.Avoids x)
    (here : c.rest = piece ++ d.rest) : x ∉ piece := by
  obtain ⟨read, there, free⟩ := h.exists_piece avoids
  obtain rfl := List.append_cancel_right (there.symm.trans here)
  exact free

/-! ## What a match captures -/

/-- What a match reads is a piece of the text, as long as the way it goes. -/
theorem Reaches.exists_read (h : p.Reaches c d) :
    ∃ piece, c.rest = piece ++ d.rest ∧ d.offset = c.offset + piece.length := by
  induction p generalizing c d with
  | one q =>
    obtain ⟨x, rest, here, -, rfl⟩ := h
    exact ⟨[x], here, rfl⟩
  | seq a b iha ihb =>
    obtain ⟨e, first, second⟩ := h
    obtain ⟨piece, here, far⟩ := iha first
    obtain ⟨piece', there, farther⟩ := ihb second
    refine ⟨piece ++ piece', by rw [here, there, List.append_assoc], ?_⟩
    rw [farther, far, List.length_append, Nat.add_assoc]
  | alt a b iha ihb => exact h.elim iha ihb
  | many greedy a ih =>
    induction h with
    | refl => exact ⟨[], rfl, rfl⟩
    | tail _ last before =>
      obtain ⟨piece, here, far⟩ := before
      obtain ⟨piece', there, farther⟩ := ih last
      refine ⟨piece ++ piece', by rw [here, there, List.append_assoc], ?_⟩
      rw [farther, far, List.length_append, Nat.add_assoc]
  | group n a ih =>
    obtain ⟨e, inner, rfl⟩ := h
    exact (ih inner : ∃ piece, c.rest = piece ++ e.rest ∧ e.offset = c.offset + piece.length)
  | nothing =>
    obtain rfl := h
    exact ⟨[], rfl, rfl⟩
  | textStart | textEnd | wordEdge =>
    obtain ⟨-, rfl⟩ := h
    exact ⟨[], rfl, rfl⟩

/-- The groups that a match can capture. -/
def captures : Pattern → List Nat
  | seq a b | alt a b => a.captures ++ b.captures
  | many _ a => a.captures
  | group n a => n :: a.captures
  | _ => []

/-- A match leaves the groups alone that it does not capture. -/
theorem Reaches.group?_eq {n : Nat} (h : p.Reaches c d) (other : n ∉ p.captures) :
    d.group? n = c.group? n := by
  induction p generalizing c d with
  | one q =>
    obtain ⟨x, rest, -, -, rfl⟩ := h
    exact Cursor.group?_past n
  | seq a b iha ihb =>
    obtain ⟨left, right⟩ := not_or.mp (mt List.mem_append.mpr other)
    obtain ⟨e, first, second⟩ := h
    exact (ihb second right).trans (iha first left)
  | alt a b iha ihb =>
    obtain ⟨left, right⟩ := not_or.mp (mt List.mem_append.mpr other)
    rcases h with first | second
    · exact iha first left
    · exact ihb second right
  | many greedy a ih =>
    induction h with
    | refl => rfl
    | tail _ last before => exact (ih last other).trans before
  | group m a ih =>
    obtain ⟨here, inside⟩ := not_or.mp (mt List.mem_cons.mpr other)
    obtain ⟨e, inner, rfl⟩ := h
    exact (Cursor.group?_keep_of_ne here).trans (ih inner inside)
  | nothing =>
    obtain rfl := h
    rfl
  | textStart | textEnd | wordEdge =>
    obtain ⟨-, rfl⟩ := h
    rfl

/-- A group holds what its pattern reads. -/
theorem Reaches.exists_captured {n : Nat} (h : (group n a).Reaches c d) :
    ∃ e piece, a.Reaches c e ∧ c.rest = piece ++ e.rest ∧ d.rest = e.rest ∧
      d.group? n = some piece := by
  obtain ⟨e, inner, rfl⟩ := h
  obtain ⟨piece, here, far⟩ := inner.exists_read
  refine ⟨e, piece, inner, here, rfl, ?_⟩
  simp [Cursor.group?, Cursor.keep, Capture.text, far, here]

/-! ## Matches that are found -/

/-- Whether only single characters are repeated. -/
def Steady : Pattern → Prop
  | seq a b | alt a b => a.Steady ∧ b.Steady
  | many _ (one _) => True
  | many _ _ => False
  | group _ a => a.Steady
  | _ => True

theorem steady_lit (w : List Char) : (lit w).Steady := by
  induction w with
  | nil => exact trivial
  | cons x w ih => exact ⟨trivial, ih⟩

theorem isSome_rounds {greedy : Bool} {n : Nat} (here : c.rest = piece ++ rest)
    (fits : ∀ x ∈ piece, q x) (enough : piece.length ≤ n)
    (accepted : (k (c.past piece rest)).isSome) :
    (rounds (run fuel (one q)) greedy n c k).isSome := by
  induction piece generalizing c n with
  | nil =>
    rw [Cursor.past_nil (by exact here)] at accepted
    cases n with
    | zero => exact accepted
    | succ n =>
      rw [rounds]
      split
      · split
        · rfl
        · exact accepted
      · split
        · rfl
        · rename_i refused
          rw [refused] at accepted
          cases accepted
  | cons x piece ih =>
    obtain ⟨hx, fits⟩ := List.forall_mem_cons.mp fits
    cases n with
    | zero => cases enough
    | succ n =>
      have first : (run fuel (one q) c fun e => rounds (run fuel (one q)) greedy n e k).isSome := by
        unfold run
        rw [here]
        dsimp only [List.cons_append]
        rw [if_pos hx]
        refine ih rfl fits (Nat.le_of_succ_le_succ enough) ?_
        rw [show c.advance x (piece ++ rest) = c.past [x] (piece ++ rest) from rfl,
          Cursor.past_past]
        exact accepted
      rw [rounds]
      split
      · split
        · rfl
        · rename_i refused
          rw [refused] at first
          cases first
      · split
        · rfl
        · exact first

/-- A pattern matches if it reaches a place that the continuation accepts. -/
theorem isSome_run (steady : p.Steady) (room : c.rest.length ≤ fuel) (reached : p.Reaches c d)
    (accepted : (k d).isSome) : (run fuel p c k).isSome := by
  induction p generalizing c d k with
  | nothing =>
    obtain rfl := reached
    exact accepted
  | one q =>
    obtain ⟨x, rest, here, fits, rfl⟩ := reached
    unfold run
    rw [here]
    dsimp only
    rw [if_pos fits]
    exact accepted
  | seq a b iha ihb =>
    obtain ⟨e, first, second⟩ := reached
    have room' : e.rest.length ≤ fuel := Nat.le_trans first.suffix.length_le room
    exact iha steady.1 room first (ihb steady.2 room' second accepted)
  | alt a b iha ihb =>
    unfold run
    split
    · rfl
    · rename_i refused
      rcases reached with left | right
      · have found := iha steady.1 room left accepted
        rw [refused] at found
        cases found
      · exact ihb steady.2 room right accepted
  | many greedy a ih =>
    cases a with
    | one q =>
      obtain ⟨piece, rest, here, fits, rfl⟩ := reaches_many reached
      refine isSome_rounds here fits ?_ accepted
      rw [here, List.length_append] at room
      omega
    | nothing | seq | alt | many | group | textStart | textEnd | wordEdge => cases steady
  | group n a ih =>
    obtain ⟨e, inner, rfl⟩ := reached
    exact ih steady room inner accepted
  | textStart | textEnd | wordEdge =>
    obtain ⟨here, rfl⟩ := reached
    unfold run
    rw [if_pos here]
    exact accepted

/-! ## Which match comes first -/

theorem run_append : run fuel (a ++ b) c k = run fuel a c fun e => run fuel b e k := rfl

theorem run_textStart : run fuel textStart c k = if c.before.isNone then k c else none := rfl

theorem run_textEnd : run fuel textEnd c k = if c.rest.isEmpty then k c else none := rfl

theorem run_group (n : Nat) : run fuel (group n a) c k = run fuel a c fun e => k (e.keep n c) := rfl

theorem run_orElse : run fuel (a <|> b) c k = (run fuel a c k).or (run fuel b c k) := by
  show run fuel (alt a b) c k = _
  rw [run]
  cases run fuel a c k <;> rfl

theorem run_orElse_of_some (h : run fuel a c k = some r) : run fuel (a <|> b) c k = some r := by
  rw [run_orElse, h, Option.some_or]

theorem run_orElse_of_none (h : run fuel a c k = none) :
    run fuel (a <|> b) c k = run fuel b c k := by
  rw [run_orElse, h, Option.none_or]

theorem run_opt_of_some (h : run fuel a c k = some r) : run fuel (opt a) c k = some r :=
  run_orElse_of_some h

theorem run_opt_of_none (h : run fuel a c k = none) : run fuel (opt a) c k = k c :=
  run_orElse_of_none h

theorem run_one {x : Char} (here : c.rest = x :: rest) (fits : q x) :
    run fuel (one q) c k = k (c.past [x] rest) := by
  unfold run
  rw [here]
  exact if_pos fits

theorem run_one_of_none (h : ∀ x ∈ c.rest.head?, ¬ q x) : run fuel (one q) c k = none := by
  refine run_eq_none fun d reached => ?_
  obtain ⟨x, rest, here, fits, -⟩ := reached
  exact absurd fits (h x (by rw [here]; rfl))

theorem run_char {x : Char} (here : c.rest = x :: rest) :
    run fuel (char x) c k = k (c.past [x] rest) :=
  run_one here (beq_self_eq_true x)

theorem run_char_of_ne {x : Char} (h : x ∉ c.rest.head?) : run fuel (char x) c k = none :=
  run_one_of_none fun _ hy same => h (eq_of_beq same ▸ hy)

theorem run_lit {w : List Char} (here : c.rest = w ++ rest) :
    run fuel (lit w) c k = k (c.past w rest) := by
  induction w generalizing c with
  | nil => exact congrArg k (Cursor.past_nil here).symm
  | cons x w ih =>
    show run fuel (char x) c (fun e => run fuel (lit w) e k) = _
    rw [run_char here, ih rfl, Cursor.past_past, List.singleton_append]

theorem run_plus_of_none (h : ∀ x ∈ c.rest.head?, ¬ q x) :
    run fuel (plus (one q)) c k = none := by
  show run fuel (one q) c (fun e => run fuel (many true (one q)) e k) = none
  exact run_one_of_none h

theorem run_lit_eq_none {w : List Char} (h : ¬ w <+: c.rest) :
    run fuel (lit w) c k = none := by
  refine run_eq_none fun d reached => ?_
  obtain ⟨rest, here, -⟩ := reaches_lit reached
  exact absurd ⟨rest, here.symm⟩ h

/-- A repetition ends where its first character does not fit. -/
theorem run_many_of_none {greedy : Bool} (h : ∀ x ∈ c.rest.head?, ¬ q x) :
    run fuel (many greedy (one q)) c k = k c := by
  show rounds (run fuel (one q)) greedy fuel c k = k c
  have stuck (k' : Cursor → Option α) : run fuel (one q) c k' = none := run_one_of_none h
  cases fuel with
  | zero => rfl
  | succ n =>
    rw [rounds, stuck]
    cases greedy <;> cases k c <;> rfl

/-- Of a single character that fits nothing is given back. -/
theorem run_plus_single {x : Char} (here : c.rest = x :: rest) (fits : q x)
    (ends : ∀ y ∈ rest.head?, ¬ q y) : run fuel (plus (one q)) c k = k (c.past [x] rest) := by
  show run fuel (one q) c (fun e => run fuel (many true (one q)) e k) = _
  rw [run_one here fits]
  exact run_many_of_none ends

/-- Of greedy rounds as many are made as the continuation goes on with. -/
theorem rounds_greedy {n : Nat} (here : c.rest = piece ++ rest) (fits : ∀ x ∈ piece, q x)
    (enough : piece.length ≤ n) (goes_on : k (c.past piece rest) = some r)
    (longer : ∀ more rest', more ≠ [] → rest = more ++ rest' → (∀ x ∈ more, q x) →
      k (c.past (piece ++ more) rest') = none) :
    rounds (run fuel (one q)) true n c k = some r := by
  induction piece generalizing c n with
  | nil =>
    rw [Cursor.past_nil (by exact here)] at goes_on
    cases n with
    | zero => exact goes_on
    | succ n =>
      -- one more round would take a longer piece
      have stuck : run fuel (one q) c (fun e => rounds (run fuel (one q)) true n e k) = none := by
        refine run_eq_none fun e first => Option.eq_none_iff_forall_ne_some.mpr fun r' h => ?_
        have sound (e : Cursor) (k' : Cursor → Option α) (h : run fuel (one q) e k' = some r') :
            ∃ d, (one q).Reaches e d ∧ k' d = some r' := exists_reaches_of_run h
        obtain ⟨d, others, accepted⟩ := exists_reaches_of_rounds sound h
        have all : (seq (one q) (many true (one q))).Reaches c d := ⟨e, first, others⟩
        obtain ⟨more, rest', some_more, there, fits', rfl⟩ := reaches_repeated all
        have none_there := longer more rest' some_more (here.symm.trans there) fits'
        exact Option.some_ne_none r' (accepted.symm.trans none_there)
      rw [rounds, if_pos rfl, stuck]
      exact goes_on
  | cons x piece ih =>
    obtain ⟨hx, fits⟩ := List.forall_mem_cons.mp fits
    cases n with
    | zero => cases enough
    | succ n =>
      have first : run fuel (one q) c (fun e => rounds (run fuel (one q)) true n e k) = some r := by
        rw [run_one here hx]
        refine ih rfl fits (Nat.le_of_succ_le_succ enough) ?_ fun more rest' => ?_
        · rw [Cursor.past_past]
          exact goes_on
        · rw [Cursor.past_past]
          exact longer more rest'
      rw [rounds, if_pos rfl, first]

/-- Of rounds that are not greedy no more are made than the continuation needs to go on. -/
theorem rounds_lazy {n : Nat} (here : c.rest = piece ++ rest) (fits : ∀ x ∈ piece, q x)
    (enough : piece.length ≤ n) (goes_on : k (c.past piece rest) = some r)
    (shorter : ∀ less more, more ≠ [] → piece = less ++ more →
      k (c.past less (more ++ rest)) = none) :
    rounds (run fuel (one q)) false n c k = some r := by
  induction piece generalizing c n with
  | nil =>
    rw [Cursor.past_nil (by exact here)] at goes_on
    cases n with
    | zero => exact goes_on
    | succ n => rw [rounds, if_neg Bool.false_ne_true, goes_on]
  | cons x piece ih =>
    obtain ⟨hx, fits⟩ := List.forall_mem_cons.mp fits
    cases n with
    | zero => cases enough
    | succ n =>
      have not_yet := shorter [] (x :: piece) (List.cons_ne_nil _ _) rfl
      rw [Cursor.past_nil here] at not_yet
      rw [rounds, if_neg Bool.false_ne_true, not_yet]
      show run fuel (one q) c (fun e => rounds (run fuel (one q)) false n e k) = some r
      rw [run_one here hx]
      refine ih rfl fits (Nat.le_of_succ_le_succ enough) ?_ fun less more some_more split => ?_
      · rw [Cursor.past_past]
        exact goes_on
      · rw [Cursor.past_past]
        exact shorter (x :: less) more some_more (congrArg (x :: ·) split)

/-- There is room for as many rounds as a piece has characters. -/
theorem length_le_of_room (here : c.rest = piece ++ rest) (room : c.rest.length ≤ fuel) :
    piece.length ≤ fuel := by
  rw [here, List.length_append] at room
  omega

/-- A greedy repetition takes a piece with which the continuation goes on, if it does not go on with
a longer one. -/
theorem run_star (here : c.rest = piece ++ rest) (fits : ∀ x ∈ piece, q x)
    (room : c.rest.length ≤ fuel) (goes_on : k (c.past piece rest) = some r)
    (longer : ∀ more rest', more ≠ [] → rest = more ++ rest' → (∀ x ∈ more, q x) →
      k (c.past (piece ++ more) rest') = none) :
    run fuel (star (one q)) c k = some r :=
  rounds_greedy here fits (length_le_of_room here room) goes_on longer

/-- A repetition that is not greedy takes a piece with which the continuation goes on, if it does
not go on with a shorter one. -/
theorem run_lazyStar (here : c.rest = piece ++ rest) (fits : ∀ x ∈ piece, q x)
    (room : c.rest.length ≤ fuel) (goes_on : k (c.past piece rest) = some r)
    (shorter : ∀ less more, more ≠ [] → piece = less ++ more →
      k (c.past less (more ++ rest)) = none) :
    run fuel (lazyStar (one q)) c k = some r :=
  rounds_lazy here fits (length_le_of_room here room) goes_on shorter

theorem run_plus (here : c.rest = piece ++ rest) (some_piece : piece ≠ [])
    (fits : ∀ x ∈ piece, q x) (room : c.rest.length ≤ fuel)
    (goes_on : k (c.past piece rest) = some r)
    (longer : ∀ more rest', more ≠ [] → rest = more ++ rest' → (∀ x ∈ more, q x) →
      k (c.past (piece ++ more) rest') = none) :
    run fuel (plus (one q)) c k = some r := by
  obtain ⟨x, piece, rfl⟩ := List.exists_cons_of_ne_nil some_piece
  obtain ⟨hx, fits⟩ := List.forall_mem_cons.mp fits
  have enough := Nat.le_of_succ_le (length_le_of_room here room)
  show run fuel (one q) c (fun e => run fuel (many true (one q)) e k) = some r
  rw [run_one here hx]
  refine rounds_greedy rfl fits enough ?_ fun more rest' => ?_
  · rw [Cursor.past_past]
    exact goes_on
  · rw [Cursor.past_past]
    exact longer more rest'

theorem run_lazyPlus (here : c.rest = piece ++ rest) (some_piece : piece ≠ [])
    (fits : ∀ x ∈ piece, q x) (room : c.rest.length ≤ fuel)
    (goes_on : k (c.past piece rest) = some r)
    (shorter : ∀ less more, less ≠ [] → more ≠ [] → piece = less ++ more →
      k (c.past less (more ++ rest)) = none) :
    run fuel (lazyPlus (one q)) c k = some r := by
  obtain ⟨x, piece, rfl⟩ := List.exists_cons_of_ne_nil some_piece
  obtain ⟨hx, fits⟩ := List.forall_mem_cons.mp fits
  have enough := Nat.le_of_succ_le (length_le_of_room here room)
  show run fuel (one q) c (fun e => run fuel (many false (one q)) e k) = some r
  rw [run_one here hx]
  refine rounds_lazy rfl fits enough ?_ fun less more some_more split => ?_
  · rw [Cursor.past_past]
    exact goes_on
  · rw [Cursor.past_past]
    exact shorter (x :: less) more (List.cons_ne_nil _ _) some_more (congrArg (x :: ·) split)

/-- If the continuation goes on behind a piece, a repetition that is not greedy takes the shortest
part of the piece with which it does. -/
theorem exists_run_lazyPlus (here : c.rest = piece ++ rest) (some_piece : piece ≠ [])
    (fits : ∀ x ∈ piece, q x) (room : c.rest.length ≤ fuel)
    (goes_on : (k (c.past piece rest)).isSome) :
    ∃ less more r, piece = less ++ more ∧ k (c.past less (more ++ rest)) = some r ∧
      run fuel (lazyPlus (one q)) c k = some r := by
  generalize long : piece.length = n
  induction n using Nat.strongRecOn generalizing piece rest with
  | ind n ih =>
    by_cases earlier : ∃ less more, less ≠ [] ∧ more ≠ [] ∧ piece = less ++ more ∧
        (k (c.past less (more ++ rest))).isSome
    · obtain ⟨less, more, some_less, some_more, rfl, accepted⟩ := earlier
      have shorter : less.length < n := by
        rw [← long, List.length_append]
        have := List.length_pos_iff.mpr some_more
        omega
      have fits' : ∀ x ∈ less, q x := fun x hx => fits x (List.mem_append_left _ hx)
      obtain ⟨least, others, r, rfl, goes_on, found⟩ := ih _ shorter
        (here.trans (List.append_assoc _ _ _)) some_less fits' accepted rfl
      refine ⟨least, others ++ more, r, List.append_assoc _ _ _, ?_, found⟩
      rw [List.append_assoc]
      exact goes_on
    · obtain ⟨r, accepted⟩ := Option.isSome_iff_exists.mp goes_on
      refine ⟨piece, [], r, (List.append_nil _).symm, accepted, ?_⟩
      refine run_lazyPlus here some_piece fits room accepted ?_
      intro less more some_less some_more split
      by_contra found
      exact earlier ⟨less, more, some_less, some_more, split, Option.isSome_iff_ne_none.mpr found⟩

/-- A greedy repetition takes all characters that fit, if the continuation goes on behind them. -/
theorem run_plus_all (here : c.rest = piece ++ rest) (some_piece : piece ≠ [])
    (fits : ∀ x ∈ piece, q x) (room : c.rest.length ≤ fuel)
    (ends : ∀ x ∈ rest.head?, ¬ q x) (goes_on : k (c.past piece rest) = some r) :
    run fuel (plus (one q)) c k = some r := by
  refine run_plus here some_piece fits room goes_on ?_
  rintro more rest' some_more rfl fits'
  obtain ⟨x, more, rfl⟩ := List.exists_cons_of_ne_nil some_more
  exact absurd (fits' x List.mem_cons_self) (ends x rfl)

end Pattern

end CodeAtlas
