import CodeAtlas.Declaration.Heritage
import CodeAtlas.Proofs.Runs
import CodeAtlas.Proofs.Searching
import Mathlib.Data.List.Chain

/-!
How the clauses of a class header are found. Clause words are looked for in the whole text, brackets
or not; a header whose blanks stand only behind commas and around clause words is read clause by
clause (`parse_of_clauses`). Where a text that another clause follows ends in a clause word behind a
character that belongs to no word, it is cut short there (`shown`).
-/
namespace CodeAtlas.Heritage

open Pattern

variable {fuel count : Nat} {c d start stop : Cursor} {before : Option Char} {w : String}
  {a b s t piece rest : List Char} {x : Char} {r : Relations}

/-! ## Clause words -/

/-- The words that begin a clause. -/
def clauseWords : List String := ["extends", "with", "implements", "on"]

theorem clauseWord_eq : clauseWord = wordEdge ++ group 1 (words clauseWords) ++ gap := rfl

theorem letters_of_clauseWord : ∀ w ∈ clauseWords,
    w.toList ≠ [] ∧ ∀ x ∈ w.toList, Text.isWord x ∧ Text.isBlank x = false ∧ x ≠ ',' := by
  decide

/-- No clause word begins with another. -/
theorem eq_of_prefix : ∀ v ∈ clauseWords, ∀ w ∈ clauseWords,
    v.toList <+: w.toList → v = w := by
  decide

/-- A clause word is read behind a character that belongs to no word and in front of a blank. -/
theorem exists_of_clauseWord (h : clauseWord.Reaches c d) : ∃ w ∈ clauseWords, ∃ x rest,
    c.rest = w.toList ++ x :: rest ∧ Text.isBlank x ∧ ∀ y ∈ c.before, Text.isWord y = false := by
  obtain ⟨e₁, ⟨e₂, ⟨starts, rfl⟩, e₃, read, rfl⟩, gapped⟩ := h
  obtain ⟨w, hw, rest, here, rfl⟩ := reaches_words read
  obtain ⟨blanks, rest', some_blanks, there, blank, -⟩ := reaches_repeated gapped
  obtain ⟨x, blanks, rfl⟩ := List.exists_cons_of_ne_nil some_blanks
  obtain ⟨some_word, letters⟩ := letters_of_clauseWord w hw
  refine ⟨w, hw, x, blanks ++ rest', ?_, blank x List.mem_cons_self,
    (atWordEdge_before here some_word fun y hy => (letters y hy).1).mp starts⟩
  rw [here, show rest = x :: blanks ++ rest' from there]
  rfl

theorem clauseWord_matchAt (hw : w ∈ clauseWords) (here : c.rest = w.toList ++ ' ' :: rest)
    (starts : ∀ x ∈ c.before, Text.isWord x = false)
    (next : ∀ x ∈ rest.head?, Text.isBlank x = false) :
    ∃ stop, clauseWord.matchAt fuel c = some stop ∧ stop.rest = rest ∧ stop.before = some ' ' ∧
      stop.group 1 = w.toList := by
  obtain ⟨some_word, letters⟩ := letters_of_clauseWord w hw
  have begins : c.atWordEdge :=
    (atWordEdge_before here some_word fun y hy => (letters y hy).1).mpr starts
  have alone : ∀ v ∈ clauseWords, v.toList <+: c.rest → v = w := by
    intro v hv start
    refine eq_of_prefix v hv w hw ?_
    refine Text.prefix_of_ends (q := Text.isWord) (b := ' ' :: rest) ?_ ?_ ?_
    · exact fun x hx => ((letters_of_clauseWord v hv).2 x hx).1
    · exact fun x hx => Option.mem_some_iff.mp hx ▸ (by decide)
    · rwa [here] at start
  let e := (c.past w.toList (' ' :: rest)).keep 1 c
  refine ⟨e.past [' '] rest, ?_, rfl, rfl, ?_⟩
  · rw [matchAt, clauseWord_eq, run_append, run_append, run_wordEdge, if_pos begins, run_group,
      run_words hw here alone]
    exact run_plus_single rfl (by decide) fun y hy => Bool.eq_false_iff.mp (next y hy)
  · have captured : e.group? 1 = some w.toList := Cursor.group?_keep_past here 1
    rw [Cursor.group, Cursor.group?_past, captured]
    rfl

/-! ## Texts without clauses -/

/-- Whether no clause begins in a text: a clause word with a blank behind it is only the end of a
longer word. -/
def Quiet (s : List Char) : Prop :=
  ∀ a w x b, w ∈ clauseWords → s = a ++ (w.toList ++ x :: b) → Text.isBlank x →
    ∃ y ∈ a.getLast?, Text.isWord y

/-- Whether blanks stand only behind commas. -/
def Spaced (s : List Char) : Prop := s.IsChain fun x y => Text.isBlank y → x = ','

theorem Spaced.append (ha : Spaced a) (hb : Spaced b) (h : ∀ x ∈ b.head?, Text.isBlank x = false) :
    Spaced (a ++ b) := by
  refine List.isChain_append.mpr ⟨ha, hb, fun x _ y hy blank => ?_⟩
  rw [h y hy] at blank
  cases blank

theorem Spaced.of_unblank (h : ∀ x ∈ s, Text.isBlank x = false) : Spaced s := by
  induction s with
  | nil => exact .nil
  | cons x s ih =>
    obtain ⟨-, others⟩ := List.forall_mem_cons.mp h
    have first : ∀ y ∈ s.head?, Text.isBlank y = false := fun y hy =>
      others y (List.mem_of_mem_head? hy)
    exact Spaced.append (a := [x]) (.singleton x) (ih others) first

/-- A comma and a space may stand in front of anything that does not begin with a blank. -/
theorem Spaced.comma (h : Spaced s) (first : ∀ x ∈ s.head?, Text.isBlank x = false) :
    Spaced (", ".toList ++ s) := by
  have comma : Spaced ", ".toList := by
    refine List.isChain_cons_cons.mpr ⟨fun _ => rfl, .singleton _⟩
  exact comma.append h first

theorem Spaced.quiet (h : Spaced s) : Quiet s := by
  rintro a w x b hw rfl blank
  obtain ⟨some_text, letters⟩ := letters_of_clauseWord w hw
  obtain ⟨w', z, split⟩ := (List.eq_nil_or_concat' w.toList).resolve_left some_text
  have regrouped : a ++ (w.toList ++ x :: b) = (a ++ w') ++ z :: x :: b := by rw [split]; simp
  rw [regrouped] at h
  have comma : z = ',' := (List.isChain_append_cons_cons.mp h).2.1 blank
  exact absurd comma (letters z (by rw [split]; simp)).2.2

/-- A quiet text is passed over if nothing follows it or it does not end within a word. -/
theorem Quiet.passes (h : Quiet piece)
    (ends : rest = [] ∨ ∀ x ∈ piece.getLast?, Text.isWord x = false) :
    clauseWord.Passes fuel before piece rest := by
  refine passes_of_misses fun a b split some_b =>
    misses_of_not_reaches fun c d hc here reached => ?_
  obtain ⟨w, hw, x, rest', there, blank, edge⟩ := exists_of_clauseWord reached
  have same : b ++ rest = w.toList ++ x :: rest' := here.symm.trans there
  have letters := (letters_of_clauseWord w hw).2
  -- the clause word and its blank stand within the piece
  have within : ∃ b', b = w.toList ++ x :: b' := by
    rcases ends with rfl | last
    · exact ⟨rest', by rw [← same, List.append_nil]⟩
    · have last_b : ∀ y ∈ b.getLast?, Text.isWord y = false := fun y hy => by
        refine last y ?_
        rw [split, List.getLast?_append, Option.mem_def.mp hy]
        rfl
      have last_letter : Text.isWord (b.getLast some_b) = false :=
        last_b _ (List.getLast?_eq_getLast_of_ne_nil some_b)
      have outside (inside : b.getLast some_b ∈ w.toList) : False := by
        rw [(letters _ inside).1] at last_letter
        cases last_letter
      rcases List.append_eq_append_iff.mp same with ⟨more, split, -⟩ | ⟨more, split, behind⟩
      · exact (outside (split ▸ List.mem_append_left more (List.getLast_mem some_b))).elim
      · cases more with
        | nil =>
          rw [List.append_nil] at split
          exact (outside (split ▸ List.getLast_mem some_b)).elim
        | cons y more =>
          obtain ⟨rfl, -⟩ := List.cons.inj behind
          exact ⟨more, split⟩
  obtain ⟨b', rfl⟩ := within
  obtain ⟨y, hy, word⟩ := h a w x b' hw split blank
  have other := edge y (by rw [hc, Option.mem_def.mp hy]; rfl)
  rw [word] at other
  cases other

/-! ## Texts that end in a clause word -/

/-- The word that a text ends with, empty if it ends with none. -/
def endWord (s : List Char) : List Char := (s.reverse.takeWhile Text.isWord).reverse

/-- What stands in front of the word that a text ends with. -/
def beforeEndWord (s : List Char) : List Char := (s.reverse.dropWhile Text.isWord).reverse

/-- Whether a text ends in a clause word. -/
def hides (s : List Char) : Bool := (clauseWords.map String.toList).contains (endWord s)

/-- What is read of the text of a clause when another clause follows it. -/
def shown (s : List Char) : List Char := if hides s then beforeEndWord s else s

theorem beforeEndWord_append_endWord (s : List Char) : beforeEndWord s ++ endWord s = s := by
  rw [beforeEndWord, endWord, ← List.reverse_append, List.takeWhile_append_dropWhile,
    List.reverse_reverse]

theorem last_beforeEndWord (s : List Char) :
    ∀ x ∈ (beforeEndWord s).getLast?, Text.isWord x = false := by
  intro x hx
  rw [beforeEndWord, List.getLast?_reverse] at hx
  have stops := List.head?_dropWhile_not Text.isWord s.reverse
  rw [Option.mem_def.mp hx] at stops
  exact stops

theorem endWord_append (letters : ∀ x ∈ t, Text.isWord x)
    (ends : ∀ x ∈ a.getLast?, Text.isWord x = false) : endWord (a ++ t) = t := by
  have stuck : a.reverse.takeWhile Text.isWord = [] := by
    rcases List.eq_nil_or_concat' a with rfl | ⟨a, x, rfl⟩
    · rfl
    · have other : ¬ Text.isWord x = true := Bool.eq_false_iff.mp (ends x (by simp))
      rw [List.reverse_append, List.reverse_singleton, List.singleton_append,
        List.takeWhile_cons_of_neg other]
  rw [endWord, List.reverse_append, List.takeWhile_append_of_pos fun x hx =>
    letters x (List.mem_reverse.mp hx), stuck, List.append_nil, List.reverse_reverse]

/-- The end of a text does not depend on what stands in front of a character that belongs to no
word. -/
theorem endWord_behind (h : Text.isWord x = false) : endWord (a ++ x :: s) = endWord s := by
  have split : a ++ x :: s = (a ++ x :: beforeEndWord s) ++ endWord s := by
    rw [List.append_assoc, List.cons_append, beforeEndWord_append_endWord]
  rw [split]
  refine endWord_append (fun y hy => ?_) fun y hy => ?_
  · exact List.mem_takeWhile_imp (List.mem_reverse.mp hy)
  · rw [List.getLast?_append, List.getLast?_cons] at hy
    rcases List.eq_nil_or_concat' (beforeEndWord s) with empty | ⟨front, z, last⟩
    · rw [empty] at hy
      exact Option.mem_some_iff.mp hy ▸ h
    · have final := last_beforeEndWord s z (by rw [last]; simp)
      rw [last] at hy
      simp only [List.getLast?_concat, Option.getD_some, Option.some_or, Option.mem_some_iff] at hy
      exact hy ▸ final

theorem hides_behind (h : Text.isWord x = false) : hides (a ++ x :: s) = hides s := by
  rw [hides, endWord_behind h, hides]

theorem shown_behind (h : Text.isWord x = false) : shown (a ++ x :: s) = a ++ x :: shown s := by
  have before : beforeEndWord (a ++ x :: s) = a ++ x :: beforeEndWord s := by
    refine (List.append_left_inj (endWord s)).mp ?_
    rw [List.append_assoc, List.cons_append, beforeEndWord_append_endWord, ← endWord_behind h,
      beforeEndWord_append_endWord]
  rw [shown, hides_behind h, before, shown]
  split <;> rfl

theorem shown_of_not_hides (h : hides s = false) : shown s = s := by
  rw [shown, h, if_neg Bool.false_ne_true]

/-- A hidden clause word stands behind what is shown. -/
theorem exists_of_hides (h : hides s) : ∃ w ∈ clauseWords, s = shown s ++ w.toList ∧
    ∀ x ∈ (shown s).getLast?, Text.isWord x = false := by
  have shows : shown s = beforeEndWord s := if_pos h
  obtain ⟨w, hw, same⟩ := List.mem_map.mp (List.contains_iff_mem.mp h)
  refine ⟨w, hw, ?_, ?_⟩
  · rw [shows, same, beforeEndWord_append_endWord]
  · rw [shows]
    exact last_beforeEndWord s

theorem shown_length_lt (h : hides s) : (shown s).length < s.length := by
  obtain ⟨w, hw, split, -⟩ := exists_of_hides h
  have some_word := List.length_pos_iff.mpr (letters_of_clauseWord w hw).1
  have length := congrArg List.length split
  rw [List.length_append] at length
  omega

/-- A text that hides no clause word stays quiet in front of a space. -/
theorem Spaced.quiet_space (h : Spaced s) (open_end : hides s = false) : Quiet (s ++ [' ']) := by
  intro a w x b hw split blank
  rcases List.eq_nil_or_concat' b with rfl | ⟨b, z, rfl⟩
  · have whole : s ++ [' '] = (a ++ w.toList) ++ [x] := by rw [split]; simp
    obtain ⟨same, -⟩ := List.append_inj' whole rfl
    by_contra no_word
    have edge : ∀ y ∈ a.getLast?, Text.isWord y = false := by
      intro y hy
      by_contra word
      rw [Bool.not_eq_false] at word
      exact no_word ⟨y, hy, word⟩
    have letters := fun x hx => ((letters_of_clauseWord w hw).2 x hx).1
    have hidden : hides s = true := by
      rw [hides, same, endWord_append letters edge, List.contains_iff_mem]
      exact List.mem_map_of_mem hw
    rw [open_end] at hidden
    cases hidden
  · have whole : s ++ [' '] = (a ++ (w.toList ++ x :: b)) ++ [z] := by rw [split]; simp
    obtain ⟨same, -⟩ := List.append_inj' whole rfl
    exact h.quiet a w x b hw same blank

/-! ## Reading clause by clause -/

/-- A clause: its clause word and its text. -/
structure Clause where
  word : String
  text : List Char

/-- The clause as it is written behind a text. -/
def Clause.written (k : Clause) : List Char := ' ' :: (k.word.toList ++ ' ' :: k.text)

/-- What clauses say that are read one after another. Of all but the last one what is shown is
read. -/
def readClauses (r : Relations) : List Clause → Relations
  | [] => r
  | k :: rest =>
    let text := if rest.isEmpty then k.text else shown k.text
    readClauses (addClause r k.word.toList (namesOf text)) rest

/-- Whether a text can stand between two clause words: it is not empty, and blanks stand only
behind commas. -/
structure Proper (s : List Char) : Prop where
  some_text : s ≠ []
  first : ∀ x ∈ s.head?, Text.isBlank x = false
  spaced : Spaced s

theorem addClause_nil (word : List Char) : addClause r word [] = r := by
  unfold addClause
  split
  · rfl
  · split
    · rw [List.append_nil]
    · split
      · rw [List.append_nil]
      · rfl

/-- A space at the end only makes the last name longer. -/
theorem splitNames_space (depth : Int) (s : List Char) : ∃ names name,
    splitNames depth s = names ++ [name] ∧
      splitNames depth (s ++ [' ']) = names ++ [name ++ [' ']] := by
  induction s generalizing depth with
  | nil => exact ⟨[], [], rfl, by simp [splitNames]⟩
  | cons c s ih =>
    by_cases split : c = ',' ∧ depth = 0
    · obtain ⟨names, name, first, second⟩ := ih depth
      refine ⟨[] :: names, name, ?_, ?_⟩
      · rw [splitNames, if_pos split, first, List.cons_append]
      · rw [List.cons_append, splitNames, if_pos split, second, List.cons_append]
    · obtain ⟨names, name, first, second⟩ :=
        ih (if c = '<' then depth + 1 else if c = '>' then depth - 1 else depth)
      rw [splitNames, if_neg split, List.cons_append, splitNames, if_neg split]
      simp only [first, second]
      cases names with
      | nil => exact ⟨[], c :: name, rfl, rfl⟩
      | cons other names => exact ⟨(c :: other) :: names, name, rfl, rfl⟩

theorem namesOf_space (s : List Char) : namesOf (s ++ [' ']) = namesOf s := by
  obtain ⟨names, name, first, second⟩ := splitNames_space 0 s
  rw [namesOf, namesOf, first, second, List.map_append, List.map_append, List.map_singleton,
    List.map_singleton, Text.trim_concat_blank (by decide)]

/-- A clause word is found where it stands. -/
theorem findAllFrom_clause (fuel count : Nat) (hw : w ∈ clauseWords)
    (here : c.rest = w.toList ++ ' ' :: rest)
    (starts : ∀ x ∈ c.before, Text.isWord x = false)
    (next : ∀ x ∈ rest.head?, Text.isBlank x = false) :
    ∃ stop, clauseWord.findAllFrom fuel (count + 1) c =
        (c.bare, stop) :: clauseWord.findAllFrom fuel count stop ∧
      stop.rest = rest ∧ stop.before = some ' ' ∧ stop.group 1 = w.toList := by
  obtain ⟨stop, matched, behind, spaced, word⟩ :=
    clauseWord_matchAt (c := c.bare) hw here starts next
  exact ⟨stop, findAllFrom_of_match matched, behind, spaced, word⟩

theorem unworded_space {c : Cursor} (h : c.before = some ' ') :
    ∀ x ∈ c.before, Text.isWord x = false := by
  rw [h]
  exact fun x hx => Option.mem_some_iff.mp hx ▸ (by decide)

/-- The text of a clause runs to the next clause word. -/
theorem addClauses_cons {next stop' : Cursor} {rest' : List (Cursor × Cursor)}
    (here : stop.rest = piece ++ rest) (place : next.offset = stop.offset + piece.length) :
    addClauses r ((start, stop) :: (next, stop') :: rest') =
      addClauses (addClause r (stop.group 1) (namesOf piece)) ((next, stop') :: rest') := by
  have length : next.offset - stop.offset = piece.length := by omega
  have taken : stop.rest.take (next.offset - stop.offset) = piece := by
    rw [length, here, List.take_left]
  rw [addClauses, taken]

/-- Behind a clause word its text is read, and then the clauses that follow. -/
theorem addClauses_read {clauses : List Clause} (proper : Proper s)
    (sound : ∀ k ∈ clauses, k.word ∈ clauseWords ∧ Proper k.text)
    (here : stop.rest = s ++ clauses.flatMap Clause.written) (enough : stop.rest.length ≤ count)
    (spaced : stop.before = some ' ') :
    addClauses r ((start, stop) :: clauseWord.findAllFrom fuel count stop) =
      readClauses (addClause r (stop.group 1) (namesOf (if clauses.isEmpty then s else shown s)))
        clauses := by
  induction clauses generalizing r start stop s count with
  | nil =>
    have rest : stop.rest = s ++ [] := here
    have missed : clauseWord.Misses fuel (stop.past s []).before [] :=
      misses_of_not_reaches fun c d _ empty reached => by
        obtain ⟨w, -, x, rest, there, -⟩ := exists_of_clauseWord reached
        rw [empty] at there
        exact List.append_ne_nil_of_right_ne_nil _ (List.cons_ne_nil x rest) there.symm
    have nothing : clauseWord.findAllFrom fuel count stop = [] := by
      rw [findAllFrom_of_passes rest (proper.spaced.quiet.passes (.inl rfl))]
      exact findAllFrom_of_end rfl missed
    rw [nothing, addClauses, rest, List.append_nil, List.take_length]
    rfl
  | cons k clauses ih =>
    obtain ⟨⟨hk, inner⟩, others⟩ := List.forall_mem_cons.mp sound
    let behind := k.text ++ clauses.flatMap Clause.written
    have whole : stop.rest = s ++ ' ' :: (k.word.toList ++ ' ' :: behind) := by
      rw [here, List.flatMap_cons]
      simp [Clause.written, behind]
    have next : ∀ x ∈ behind.head?, Text.isBlank x = false := by
      intro x hx
      refine inner.first x ?_
      rwa [List.head?_append_of_ne_nil _ inner.some_text] at hx
    have room := congrArg List.length whole
    simp only [List.length_append, List.length_cons] at room
    rw [if_neg (by simp)]
    cases open_end : hides s with
    | false =>
      have split : stop.rest = (s ++ [' ']) ++ (k.word.toList ++ ' ' :: behind) := by
        rw [whole]
        simp
      have passes : clauseWord.Passes fuel stop.before (s ++ [' '])
          (k.word.toList ++ ' ' :: behind) := by
        refine (proper.spaced.quiet_space open_end).passes (.inr ?_)
        rw [List.getLast?_concat]
        exact fun x hx => Option.mem_some_iff.mp hx ▸ (by decide)
      obtain ⟨n, rfl⟩ : ∃ n, count = n + 1 := ⟨count - 1, by omega⟩
      obtain ⟨stop', found, there, spaced', word⟩ := findAllFrom_clause fuel n
        (c := stop.past (s ++ [' ']) (k.word.toList ++ ' ' :: behind)) hk rfl
        (unworded_space (by simp)) next
      have left : stop'.rest.length ≤ n := by
        rw [there]
        simp only [behind, List.length_append] at room ⊢
        omega
      rw [findAllFrom_of_passes split passes, found, addClauses_cons split rfl, namesOf_space,
        shown_of_not_hides open_end, ih inner others there left spaced', word]
      rfl
    | true =>
      -- the hidden word is read as a clause without text
      obtain ⟨w, hw, cut, edge⟩ := exists_of_hides open_end
      have split : stop.rest =
          shown s ++ (w.toList ++ ' ' :: (k.word.toList ++ ' ' :: behind)) := by
        rw [whole, ← List.append_assoc, ← cut]
      have shown_spaced : Spaced (shown s) := List.IsChain.left_of_append (cut ▸ proper.spaced)
      have passes : clauseWord.Passes fuel stop.before (shown s)
          (w.toList ++ ' ' :: (k.word.toList ++ ' ' :: behind)) :=
        shown_spaced.quiet.passes (.inr edge)
      have first : ∀ x ∈ (k.word.toList ++ ' ' :: behind).head?, Text.isBlank x = false := by
        obtain ⟨some_text, letters⟩ := letters_of_clauseWord k.word hk
        intro x hx
        rw [List.head?_append_of_ne_nil _ some_text] at hx
        exact (letters x (List.mem_of_mem_head? hx)).2.1
      have starts : ∀ x ∈ (shown s).getLast?.or stop.before, Text.isWord x = false := by
        intro x hx
        rw [Option.mem_def, Option.or_eq_some_iff] at hx
        exact hx.elim (edge x) fun h => unworded_space spaced x h.2
      obtain ⟨n, rfl⟩ : ∃ n, count = n + 2 := ⟨count - 2, by omega⟩
      obtain ⟨stop₁, found₁, there₁, spaced₁, word₁⟩ := findAllFrom_clause fuel (n + 1)
        (c := stop.past (shown s) (w.toList ++ ' ' :: (k.word.toList ++ ' ' :: behind))) hw rfl
        starts first
      obtain ⟨stop₂, found₂, there₂, spaced₂, word₂⟩ := findAllFrom_clause fuel n hk there₁
        (unworded_space spaced₁) next
      have left : stop₂.rest.length ≤ n := by
        rw [there₂]
        simp only [behind, List.length_append] at room ⊢
        omega
      have nothing : stop₁.rest = [] ++ (k.word.toList ++ ' ' :: behind) := there₁
      have place : stop₁.bare.offset = stop₁.offset + ([] : List Char).length := rfl
      rw [findAllFrom_of_passes split passes, found₁, found₂, addClauses_cons split rfl,
        addClauses_cons nothing place, word₁]
      have unnamed : namesOf [] = [] := by decide
      rw [unnamed, addClause_nil, ih inner others there₂ left spaced₂, word₂]
      rfl

theorem quiet_class : Quiet "class ".toList := by
  intro a w x b hw split _
  have other : ∀ w ∈ clauseWords, ¬ w.toList <:+: "class ".toList := by decide +kernel
  have within : w.toList <:+: "class ".toList := ⟨a, x :: b, by rw [split, List.append_assoc]⟩
  exact absurd within (other w hw)

/-- A class with clauses behind its name is read clause by clause. -/
theorem parse_of_clauses {clauses : List Clause} (proper : Proper s)
    (sound : ∀ k ∈ clauses, k.word ∈ clauseWords ∧ Proper k.text)
    (unbraced : '{' ∉ "class ".toList ++ (s ++ clauses.flatMap Clause.written)) :
    parse ("class ".toList ++ (s ++ clauses.flatMap Clause.written)) = readClauses {} clauses := by
  let behind := s ++ clauses.flatMap Clause.written
  have whole : Text.beforeFirst '{' ("class ".toList ++ behind) = "class ".toList ++ behind :=
    Text.beforeFirst_of_not_mem unbraced
  show addClauses {} (clauseWord.findAll (Text.beforeFirst '{' ("class ".toList ++ behind))) = _
  rw [whole, findAll]
  generalize length : ("class ".toList ++ behind).length = n
  let c := (Cursor.ofText ("class ".toList ++ behind)).past "class ".toList behind
  have ends : ∀ x ∈ "class ".toList.getLast?, Text.isWord x = false := by
    rw [show "class ".toList.getLast? = some ' ' by decide]
    exact fun x hx => Option.mem_some_iff.mp hx ▸ (by decide)
  have passes : clauseWord.Passes n none "class ".toList behind := quiet_class.passes (.inr ends)
  have enough : c.rest.length ≤ n := by
    rw [← length]
    exact (List.suffix_append _ _).length_le
  have moved : clauseWord.findAllFrom n n (.ofText ("class ".toList ++ behind)) =
      clauseWord.findAllFrom n n c := findAllFrom_of_passes rfl passes
  -- what stands in front of the first clause belongs to no clause word
  have unclaimed (matches' : List (Cursor × Cursor)) :
      addClauses {} matches' = addClauses {} ((c, c) :: matches') := rfl
  have here : c.rest = s ++ clauses.flatMap Clause.written := rfl
  rw [moved, unclaimed, addClauses_read proper sound here enough rfl]
  rfl

end CodeAtlas.Heritage
