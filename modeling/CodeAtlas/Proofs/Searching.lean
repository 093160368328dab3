import CodeAtlas.Proofs.Matching

/-!
Which matches are found in a text. A search passes over a piece of text in which no match starts
(`Pattern.Passes`), and all matches of a text are found one behind the other
(`findAllFrom_of_passes`, `findAllFrom_of_match`); what is left of a text without them is put
together likewise (`Pattern.leftOver`). Of a greedy repetition that has matched it is known that no
longer one would have (`first_of_star`, `exists_last_round`).
-/
namespace CodeAtlas

/-- A place without its groups, from where a search goes on. -/
def Cursor.bare (c : Cursor) : Cursor := { c with groups := [] }

/-- The character before the end of a text, if its first one stands behind `before`. -/
theorem getLast?_cons_or (x : Char) (s : List Char) (before : Option Char) :
    (x :: s).getLast?.or before = s.getLast?.or (some x) := by
  cases s <;> simp [List.getLast?_cons]

namespace Pattern

variable {α : Type} {fuel count n offset : Nat} {p : Pattern} {c d stop : Cursor}
  {before : Option Char} {k : Cursor → Option α} {r : α} {q : Char → Bool} {x : Char}
  {s a b piece rest : List Char}

/-! ## Words -/

theorem run_wordEdge : run fuel wordEdge c k = if c.atWordEdge then k c else none := rfl

/-- A word edge is where a word begins that is not a part of a longer one. -/
theorem atWordEdge_before {w : List Char} (here : c.rest = w ++ rest) (some_word : w ≠ [])
    (letters : ∀ x ∈ w, Text.isWord x) :
    c.atWordEdge ↔ ∀ x ∈ c.before, Text.isWord x = false := by
  obtain ⟨x, w, rfl⟩ := List.exists_cons_of_ne_nil some_word
  have letter : Text.isWord x := letters x List.mem_cons_self
  cases hb : c.before with
  | none => simp [Cursor.atWordEdge, hb, here, letter]
  | some y => simp [Cursor.atWordEdge, hb, here, letter]

/-- A word edge is where a word ends that is not a part of a longer one. -/
theorem atWordEdge_behind {w : List Char} (some_word : w ≠ [])
    (letters : ∀ x ∈ w, Text.isWord x) :
    (c.past w rest).atWordEdge ↔ ∀ x ∈ rest.head?, Text.isWord x = false := by
  have letter : Text.isWord (w.getLast some_word) := letters _ (List.getLast_mem some_word)
  rw [Cursor.atWordEdge, Cursor.before_past, List.getLast?_eq_getLast_of_ne_nil some_word,
    Cursor.rest_past]
  cases rest with
  | nil => simp [letter]
  | cons y rest => simp [letter]

theorem reaches_words {ws : List String} (h : (words ws).Reaches c d) :
    ∃ w ∈ ws, ∃ rest, c.rest = w.toList ++ rest ∧ d = c.past w.toList rest := by
  induction ws with
  | nil =>
    obtain ⟨x, rest, -, none_fits, -⟩ := h
    cases none_fits
  | cons w ws ih =>
    have here (h : (word w).Reaches c d) :
        ∃ v ∈ w :: ws, ∃ rest, c.rest = v.toList ++ rest ∧ d = c.past v.toList rest := by
      obtain ⟨rest, here, there⟩ := reaches_lit h
      exact ⟨w, List.mem_cons_self, rest, here, there⟩
    cases ws with
    | nil => exact here h
    | cons v ws =>
      rcases h with first | others
      · exact here first
      · obtain ⟨u, hu, found⟩ := ih others
        exact ⟨u, List.mem_cons_of_mem w hu, found⟩

theorem words_reaches {ws : List String} {w : String} (mem : w ∈ ws)
    (here : c.rest = w.toList ++ rest) : (words ws).Reaches c (c.past w.toList rest) := by
  induction ws with
  | nil => cases mem
  | cons v ws ih =>
    have read (same : w = v) : (word v).Reaches c (c.past w.toList rest) := by
      subst same
      exact lit_reaches here
    cases ws with
    | nil => exact read (List.mem_singleton.mp mem)
    | cons u ws =>
      rcases List.mem_cons.mp mem with same | later
      · exact .inl (read same)
      · exact .inr (ih later)

theorem steady_words (ws : List String) : (words ws).Steady := by
  induction ws with
  | nil => exact trivial
  | cons w ws ih =>
    cases ws with
    | nil => exact steady_lit _
    | cons v ws => exact ⟨steady_lit _, ih⟩

/-- A word is read if no other of the words stands at the same place. -/
theorem run_words {ws : List String} {w : String} (mem : w ∈ ws)
    (here : c.rest = w.toList ++ rest) (alone : ∀ v ∈ ws, v.toList <+: c.rest → v = w) :
    run fuel (words ws) c k = k (c.past w.toList rest) := by
  induction ws with
  | nil => cases mem
  | cons v ws ih =>
    have read (same : v = w) : run fuel (word v) c k = k (c.past w.toList rest) := by
      subst same
      exact run_lit here
    cases ws with
    | nil =>
      obtain rfl := List.mem_singleton.mp mem
      exact read rfl
    | cons u ws =>
      show run fuel (word v <|> words (u :: ws)) c k = _
      have alone' : ∀ v ∈ u :: ws, v.toList <+: c.rest → v = w := fun v hv =>
        alone v (List.mem_cons_of_mem _ hv)
      by_cases later : w ∈ u :: ws
      · rw [run_orElse, ih later alone']
        by_cases same : v = w
        · rw [read same, Option.or_self]
        · have missed : run fuel (word v) c k = none :=
            run_lit_eq_none fun start => same (alone v List.mem_cons_self start)
          rw [missed, Option.none_or]
      · have same : w = v := (List.mem_cons.mp mem).resolve_right later
        have missed : run fuel (words (u :: ws)) c k = none := by
          refine run_eq_none fun d reached => ?_
          obtain ⟨v', hv', rest', here', -⟩ := reaches_words reached
          exact absurd (alone' v' hv' ⟨rest', here'.symm⟩ ▸ hv') later
        rw [run_orElse, read same.symm, missed, Option.or_none]

/-! ## What a greedy repetition prefers -/

/-- A greedy repetition takes all characters that fit, if the continuation goes on behind them. -/
theorem run_star_all (here : c.rest = piece ++ rest) (fits : ∀ x ∈ piece, q x)
    (room : c.rest.length ≤ fuel) (ends : ∀ x ∈ rest.head?, ¬ q x)
    (goes_on : k (c.past piece rest) = some r) : run fuel (star (one q)) c k = some r := by
  refine run_star here fits room goes_on ?_
  rintro more rest' some_more rfl fits'
  obtain ⟨x, more, rfl⟩ := List.exists_cons_of_ne_nil some_more
  exact absurd (fits' x List.mem_cons_self) (ends x rfl)

/-- A repetition goes on if it can go on at once. -/
theorem isSome_rounds_of_accepted {step : Cursor → (Cursor → Option α) → Option α} {greedy : Bool}
    (accepted : (k c).isSome) : (rounds step greedy n c k).isSome := by
  cases n with
  | zero => exact accepted
  | succ n =>
    rw [rounds]
    split
    · split
      · rfl
      · exact accepted
    · split
      · rfl
      · rename_i refused
        rw [refused] at accepted
        cases accepted

theorem isSome_run_many {greedy : Bool} (accepted : (k c).isSome) :
    (run fuel (many greedy p) c k).isSome :=
  isSome_rounds_of_accepted accepted

theorem isSome_run_opt (accepted : (k c).isSome) : (run fuel (opt p) c k).isSome := by
  rw [opt]
  show (run fuel (p <|> nothing) c k).isSome
  rw [run_orElse]
  show ((run fuel p c k).or (k c)).isSome
  cases run fuel p c k with
  | none => exact accepted
  | some r => rfl

/-- Greedy rounds end behind a piece that the continuation prefers to longer ones. -/
theorem first_of_rounds (room : c.rest.length ≤ n)
    (h : rounds (run fuel (one q)) true n c k = some r) :
    ∃ piece rest, c.rest = piece ++ rest ∧ (∀ x ∈ piece, q x) ∧ k (c.past piece rest) = some r ∧
      ∀ more rest', more ≠ [] → rest = more ++ rest' → (∀ x ∈ more, q x) →
        k (c.past (piece ++ more) rest') = none := by
  induction n generalizing c with
  | zero =>
    have empty : c.rest = [] := List.length_eq_zero_iff.mp (Nat.le_zero.mp room)
    refine ⟨[], [], empty, List.forall_mem_nil _, ?_, fun more rest' some_more split => ?_⟩
    · rw [Cursor.past_nil empty]
      exact h
    · exact absurd (List.append_eq_nil_iff.mp split.symm).1 some_more
  | succ n ih =>
    rw [rounds, if_pos rfl] at h
    split at h
    · rename_i found
      obtain rfl := Option.some.inj h
      unfold run at found
      split at found
      · cases found
      · rename_i x rest here
        split at found
        · rename_i fits
          have room' : rest.length ≤ n := by
            rw [here] at room
            exact Nat.le_of_succ_le_succ room
          obtain ⟨piece, rest', there, fits', accepted, longer⟩ := ih room' found
          refine ⟨x :: piece, rest', ?_, List.forall_mem_cons.mpr ⟨fits, fits'⟩, ?_, ?_⟩
          · rw [here, show rest = piece ++ rest' from there, List.cons_append]
          · rwa [show c.advance x rest = c.past [x] rest from rfl, Cursor.past_past] at accepted
          · intro more rest'' some_more split hm
            have refused := longer more rest'' some_more split hm
            rwa [show c.advance x rest = c.past [x] rest from rfl, Cursor.past_past] at refused
        · cases found
    · rename_i refused
      refine ⟨[], c.rest, rfl, List.forall_mem_nil _, ?_, ?_⟩
      · rw [Cursor.past_nil rfl]
        exact h
      · -- one more round would have been made
        intro more rest' some_more split fits
        obtain ⟨y, more, rfl⟩ := List.exists_cons_of_ne_nil some_more
        obtain ⟨hy, fits⟩ := List.forall_mem_cons.mp fits
        rw [run_one (show c.rest = y :: (more ++ rest') from split) hy] at refused
        have enough : more.length ≤ n := by
          rw [split, List.length_append, List.length_cons] at room
          omega
        by_contra accepted
        have found : (rounds (run fuel (one q)) true n (c.past [y] (more ++ rest')) k).isSome := by
          refine isSome_rounds rfl fits enough ?_
          rw [Cursor.past_past]
          exact Option.isSome_iff_ne_none.mpr accepted
        rw [refused] at found
        cases found

/-- A greedy repetition ends behind a piece that the continuation prefers to longer ones. -/
theorem first_of_star (room : c.rest.length ≤ fuel)
    (h : run fuel (star (one q)) c k = some r) :
    ∃ piece rest, c.rest = piece ++ rest ∧ (∀ x ∈ piece, q x) ∧ k (c.past piece rest) = some r ∧
      ∀ more rest', more ≠ [] → rest = more ++ rest' → (∀ x ∈ more, q x) →
        k (c.past (piece ++ more) rest') = none :=
  first_of_rounds room h

theorem first_of_plus (room : c.rest.length ≤ fuel)
    (h : run fuel (plus (one q)) c k = some r) :
    ∃ piece rest, piece ≠ [] ∧ c.rest = piece ++ rest ∧ (∀ x ∈ piece, q x) ∧
      k (c.past piece rest) = some r ∧
      ∀ more rest', more ≠ [] → rest = more ++ rest' → (∀ x ∈ more, q x) →
        k (c.past (piece ++ more) rest') = none := by
  have h : run fuel (one q) c (fun e => run fuel (star (one q)) e k) = some r := h
  obtain ⟨e, ⟨x, rest, here, fits, rfl⟩, h⟩ := exists_reaches_of_run h
  have room' : rest.length ≤ fuel := by
    rw [here] at room
    exact Nat.le_of_succ_le room
  obtain ⟨piece, rest', there, fits', accepted, longer⟩ := first_of_star room' h
  refine ⟨x :: piece, rest', List.cons_ne_nil _ _, ?_, List.forall_mem_cons.mpr ⟨fits, fits'⟩,
    ?_, ?_⟩
  · rw [here, show rest = piece ++ rest' from there, List.cons_append]
  · rwa [Cursor.past_past] at accepted
  · intro more rest'' some_more split hm
    have refused := longer more rest'' some_more split hm
    rwa [Cursor.past_past] at refused

/-- The last of greedy rounds of a step: no further round leads on. `R` says where a step can end,
`Q` which places it prefers to the one where it ends. -/
theorem exists_last_round {R Q : Cursor → Cursor → Prop}
    {step : Cursor → (Cursor → Option α) → Option α}
    (sound : ∀ c k, c.rest.length ≤ fuel → step c k = some r →
      ∃ d, R c d ∧ k d = some r ∧ ∀ e, Q d e → k e = none)
    (shrinks : ∀ c d, R c d → d.rest.length < c.rest.length)
    (room : c.rest.length ≤ n) (room' : n ≤ fuel) (h : rounds step true n c k = some r) :
    ∃ d, Relation.ReflTransGen R c d ∧ k d = some r ∧ (d = c ∨ ∀ e, Q d e → k e = none) ∧
      (d.rest = [] ∨ ∃ m, step d (fun e => rounds step true m e k) = none) := by
  induction n generalizing c with
  | zero =>
    have empty : c.rest = [] := List.length_eq_zero_iff.mp (Nat.le_zero.mp room)
    exact ⟨c, .refl, h, .inl rfl, .inl empty⟩
  | succ n ih =>
    rw [rounds, if_pos rfl] at h
    split at h
    · rename_i found
      obtain rfl := Option.some.inj h
      obtain ⟨e, first, h, preferred⟩ := sound c _ (Nat.le_trans room room') found
      have shorter := shrinks c e first
      obtain ⟨d, others, accepted, here, last⟩ := ih (by omega) (by omega) h
      refine ⟨d, .head first others, accepted, .inr ?_, last⟩
      rcases here with rfl | refused
      · intro e' he'
        by_contra accepted'
        have found : (rounds step true n e' k).isSome :=
          isSome_rounds_of_accepted (Option.isSome_iff_ne_none.mpr accepted')
        rw [preferred e' he'] at found
        cases found
      · exact refused
    · rename_i refused
      exact ⟨c, .refl, h, .inl rfl, .inr ⟨n, refused⟩⟩

/-! ## Where no match starts -/

/-- Whether no match starts before the text `s`, behind the character `before`. -/
def Misses (p : Pattern) (fuel : Nat) (before : Option Char) (s : List Char) : Prop :=
  ∀ offset, p.matchAt fuel ⟨before, s, offset, []⟩ = none

/-- Whether no match starts within a piece of text, behind `before` and with `rest` behind it. -/
def Passes (p : Pattern) (fuel : Nat) (before : Option Char) : List Char → List Char → Prop
  | [], _ => True
  | x :: piece, rest =>
    p.Misses fuel before (x :: (piece ++ rest)) ∧ p.Passes fuel (some x) piece rest

theorem misses_of_not_reaches
    (h : ∀ c d, c.before = before → c.rest = s → ¬ p.Reaches c d) : p.Misses fuel before s :=
  fun _ => run_eq_none fun d reached => absurd reached (h _ d rfl rfl)

theorem passes_append : p.Passes fuel before (a ++ b) rest ↔
    p.Passes fuel before a (b ++ rest) ∧ p.Passes fuel (a.getLast?.or before) b rest := by
  induction a generalizing before with
  | nil => exact ⟨fun h => ⟨trivial, h⟩, fun h => h.2⟩
  | cons x a ih =>
    rw [List.cons_append, Passes, Passes, ih, getLast?_cons_or, List.append_assoc, and_assoc]

theorem passes_singleton : p.Passes fuel before [x] rest ↔ p.Misses fuel before (x :: rest) :=
  ⟨fun h => h.1, fun h => ⟨h, trivial⟩⟩

/-- A piece is passed over if no match starts before any end of it. -/
theorem passes_of_misses (h : ∀ a b, piece = a ++ b → b ≠ [] →
    p.Misses fuel (a.getLast?.or before) (b ++ rest)) : p.Passes fuel before piece rest := by
  induction piece generalizing before with
  | nil => exact trivial
  | cons x piece ih =>
    refine ⟨h [] (x :: piece) rfl (List.cons_ne_nil _ _), ih fun a b split some_b => ?_⟩
    have later := h (x :: a) b (congrArg (x :: ·) split) some_b
    rwa [getLast?_cons_or] at later

/-- A pattern passes over a text without the character that each match begins with. -/
theorem passes_of_first (first : ∀ c d, p.Reaches c d → x ∈ c.rest.head?) (h : x ∉ piece) :
    p.Passes fuel before piece rest := by
  refine passes_of_misses fun a b split some_b => misses_of_not_reaches fun c d _ here reached => ?_
  obtain ⟨y, b, rfl⟩ := List.exists_cons_of_ne_nil some_b
  have head := first c d reached
  rw [here, List.cons_append, List.head?_cons, Option.mem_some_iff] at head
  exact h (split ▸ head ▸ List.mem_append_right a List.mem_cons_self)

/-! ## Leftmost matches -/

theorem findFrom_of_passes (h : p.Passes fuel before piece rest) :
    p.findFrom fuel before offset (piece ++ rest) =
      p.findFrom fuel (piece.getLast?.or before) (offset + piece.length) rest := by
  induction piece generalizing before offset with
  | nil => rfl
  | cons x piece ih =>
    have missed := h.1 offset
    rw [List.cons_append, findFrom, missed]
    dsimp only
    rw [ih h.2, getLast?_cons_or, List.length_cons, Nat.add_assoc, Nat.add_comm 1]

theorem findFrom_of_match (h : p.matchAt fuel ⟨before, s, offset, []⟩ = some stop) :
    p.findFrom fuel before offset s = some (⟨before, s, offset, []⟩, stop) := by
  cases s with
  | nil => rw [findFrom, h]; rfl
  | cons x s => rw [findFrom, h]

/-- The leftmost match has no match before it. -/
theorem exists_of_findFrom {start : Cursor}
    (h : p.findFrom fuel before offset s = some (start, stop)) :
    ∃ a, s = a ++ start.rest ∧
      start = ⟨a.getLast?.or before, start.rest, offset + a.length, []⟩ ∧
      p.matchAt fuel start = some stop ∧
      ∀ a' b, s = a' ++ b → a'.length < a.length →
        p.matchAt fuel ⟨a'.getLast?.or before, b, offset + a'.length, []⟩ = none := by
  induction s generalizing before offset with
  | nil =>
    rw [findFrom, Option.map_eq_some_iff] at h
    obtain ⟨stop', found, same⟩ := h
    obtain ⟨rfl, rfl⟩ := Prod.mk.inj same
    exact ⟨[], rfl, rfl, found, fun _ _ _ shorter => nomatch shorter⟩
  | cons x s ih =>
    rw [findFrom] at h
    split at h
    · rename_i stop' found
      obtain ⟨rfl, rfl⟩ := Prod.mk.inj (Option.some.inj h)
      exact ⟨[], rfl, rfl, found, fun _ _ _ shorter => nomatch shorter⟩
    · rename_i missed
      have far (a : List Char) : offset + 1 + a.length = offset + (x :: a).length := by
        rw [List.length_cons, Nat.add_assoc, Nat.add_comm 1]
      obtain ⟨a, whole, place, found, leftmost⟩ := ih h
      rw [← getLast?_cons_or x a before, far] at place
      refine ⟨x :: a, congrArg (x :: ·) whole, place, found, fun a' b split shorter => ?_⟩
      cases a' with
      | nil =>
        obtain rfl : x :: s = b := split
        exact missed
      | cons y a' =>
        obtain ⟨rfl, behind⟩ := List.cons.inj split
        have refused := leftmost a' b behind (Nat.lt_of_succ_lt_succ shorter)
        rwa [← getLast?_cons_or x a' before, far] at refused

/-! ## All matches -/

theorem findAllFrom_of_passes (here : c.rest = piece ++ rest)
    (h : p.Passes fuel c.before piece rest) :
    p.findAllFrom fuel count c = p.findAllFrom fuel count (c.past piece rest) := by
  cases count with
  | zero => rfl
  | succ count =>
    rw [findAllFrom, findAllFrom, here, findFrom_of_passes h]
    rfl

theorem findAllFrom_of_match (h : p.matchAt fuel c.bare = some stop) :
    p.findAllFrom fuel (count + 1) c = (c.bare, stop) :: p.findAllFrom fuel count stop := by
  rw [findAllFrom, findFrom_of_match h]
  rfl

theorem findAllFrom_of_end (here : c.rest = []) (h : p.Misses fuel c.before []) :
    p.findAllFrom fuel count c = [] := by
  cases count with
  | zero => rfl
  | succ count =>
    rw [findAllFrom, here, findFrom, h c.offset]
    rfl

/-! ## What is left of a text -/

/-- What is left from a place on when the matches found from there on are cut out. -/
def leftOver (p : Pattern) (fuel count : Nat) (c : Cursor) : List Char :=
  cutOut c (p.findAllFrom fuel count c)

theorem removeAll_eq (p : Pattern) (s : List Char) :
    p.removeAll s = p.leftOver s.length s.length (.ofText s) := rfl

theorem leftOver_of_match (h : p.matchAt fuel c.bare = some stop) :
    p.leftOver fuel (count + 1) c = p.leftOver fuel count stop := by
  have here : c.bare.offset - c.offset = 0 := Nat.sub_self _
  rw [leftOver, findAllFrom_of_match h, cutOut, here]
  rfl

/-- What is passed over is left. -/
theorem leftOver_of_passes (here : c.rest = piece ++ rest) (h : p.Passes fuel c.before piece rest) :
    p.leftOver fuel count c = piece ++ p.leftOver fuel count (c.past piece rest) := by
  rw [leftOver, leftOver, findAllFrom_of_passes here h]
  cases count with
  | zero => exact here
  | succ count =>
    rw [findAllFrom]
    split
    · exact here
    · rename_i start stop found
      obtain ⟨a, -, place, -⟩ := exists_of_findFrom found
      have far : start.offset = c.offset + piece.length + a.length := by rw [place]; rfl
      have first : start.offset - c.offset = piece.length + a.length := by omega
      have second : start.offset - (c.past piece rest).offset = a.length := by
        rw [Cursor.offset_past]
        omega
      rw [cutOut, cutOut, first, second, here, List.take_length_add_append, List.append_assoc]
      rfl

/-- Nothing is added to what is left. -/
theorem mem_of_mem_leftOver (h : x ∈ p.leftOver fuel count c) : x ∈ c.rest := by
  induction count generalizing c with
  | zero => exact h
  | succ count ih =>
    rw [leftOver, findAllFrom] at h
    split at h
    · exact h
    · rename_i start stop found
      obtain ⟨a, whole, -, matched, -⟩ := exists_of_findFrom found
      obtain ⟨d, reached, ends⟩ := exists_reaches_of_run matched
      obtain rfl := Option.some.inj ends
      rw [cutOut, List.mem_append] at h
      rcases h with before | behind
      · exact List.mem_of_mem_take before
      · have inside : x ∈ d.rest := ih behind
        rw [whole]
        exact List.mem_append_right _ (reached.suffix.subset inside)

/-- Nothing is cut out of a text that is passed over. -/
theorem removeAll_of_passes (h : p.Passes s.length none s []) : p.removeAll s = s := by
  have here : (Cursor.ofText s).rest = s ++ [] := (List.append_nil s).symm
  have nothing : p.leftOver s.length s.length ((Cursor.ofText s).past s []) = [] :=
    List.eq_nil_iff_forall_not_mem.mpr fun _ hx => List.not_mem_nil (mem_of_mem_leftOver hx)
  rw [removeAll_eq, leftOver_of_passes here h, nothing, List.append_nil]

end Pattern

end CodeAtlas
