import CodeAtlas.Proofs.Clauses
import CodeAtlas.Proofs.CommaLists
import CodeAtlas.Proofs.TypeWords

/-!
Class headers as they are written: a name with type parameters that can have bounds, and the types
behind `extends`, `with` and `implements`. A header is read back as written exactly if it has a
superclass or no bounds, and no type that another clause follows ends in a clause word
(`class_headers_read`): the word in front of a bound is read as the beginning of a clause.
-/
namespace CodeAtlas.Heritage

open Parameters (Begins commaList commaList_cons following following_cons leading)

variable {s t y rest : List Char} {x : Char} {r : Relations} {depth : Int}

/-! ## Names between commas -/

/-- Text in front of the first of several pieces. -/
def prepend (s : List Char) : List (List Char) → List (List Char)
  | [] => [s]
  | piece :: pieces => (s ++ piece) :: pieces

theorem prepend_append (s t : List Char) (pieces : List (List Char)) :
    prepend (s ++ t) pieces = prepend s (prepend t pieces) := by
  cases pieces with
  | nil => rfl
  | cons piece pieces => rw [prepend, prepend, prepend, List.append_assoc]

theorem prepend_nil {pieces : List (List Char)} (h : pieces ≠ []) : prepend [] pieces = pieces := by
  obtain ⟨piece, pieces, rfl⟩ := List.exists_cons_of_ne_nil h
  rfl

/-- The depth behind a character. -/
def depthBehind (depth : Int) (c : Char) : Int :=
  if c = '<' then depth + 1 else if c = '>' then depth - 1 else depth

theorem splitNames_cons {c : Char} (h : ¬ (c = ',' ∧ depth = 0)) (s : List Char) :
    splitNames depth (c :: s) = prepend [c] (splitNames (depthBehind depth c) s) := by
  rw [splitNames, if_neg h]
  dsimp only
  rw [depthBehind]
  cases splitNames (if c = '<' then depth + 1 else if c = '>' then depth - 1 else depth) s <;> rfl

theorem splitNames_ne_nil (depth : Int) (s : List Char) : splitNames depth s ≠ [] := by
  cases s with
  | nil => exact List.cons_ne_nil _ _
  | cons c s =>
    by_cases split : c = ',' ∧ depth = 0
    · rw [splitNames, if_pos split]
      exact List.cons_ne_nil _ _
    · rw [splitNames_cons split]
      cases splitNames (depthBehind depth c) s <;> exact List.cons_ne_nil _ _

/-- Whether commas in a text do not split, at any depth, and its brackets are closed. -/
def Whole (s : List Char) : Prop :=
  ∀ depth rest, 0 ≤ depth → splitNames depth (s ++ rest) = prepend s (splitNames depth rest)

theorem Whole.append (hs : Whole s) (ht : Whole t) : Whole (s ++ t) := by
  intro depth rest open_brackets
  rw [List.append_assoc, hs depth _ open_brackets, ht depth _ open_brackets, prepend_append]

theorem whole_nil : Whole [] := fun depth rest _ =>
  (prepend_nil (splitNames_ne_nil depth rest)).symm

theorem whole_of_plain (h : ∀ c ∈ s, c ≠ ',' ∧ c ≠ '<' ∧ c ≠ '>') : Whole s := by
  induction s with
  | nil => exact whole_nil
  | cons c s ih =>
    obtain ⟨⟨no_comma, no_open, no_close⟩, others⟩ := List.forall_mem_cons.mp h
    intro depth rest open_brackets
    have stays : depthBehind depth c = depth := by rw [depthBehind, if_neg no_open, if_neg no_close]
    rw [List.cons_append, splitNames_cons fun h => no_comma h.1, stays,
      ih others depth rest open_brackets, ← prepend_append]
    rfl

theorem whole_name (n : Identifier) : Whole n.text :=
  whole_of_plain fun c hc => by
    have letter := n.isNameChar_of_mem c hc
    refine ⟨?_, ?_, ?_⟩ <;> exact Parameters.ne_of_isNameChar letter (by decide)

/-- Within brackets commas do not split. -/
theorem splitNames_furtherText {ts : List TypeExpression} (h : ∀ t ∈ ts, Whole t.text)
    (depth : Int) (rest : List Char) (open_brackets : 0 ≤ depth) :
    splitNames (depth + 1) (TypeExpression.furtherText ts ++ rest) =
      prepend (TypeExpression.furtherText ts) (splitNames depth rest) := by
  have inner : ∀ c, ¬ (c = ',' ∧ depth + 1 = 0) := fun c h => by omega
  induction ts with
  | nil =>
    have closes : depthBehind (depth + 1) '>' = depth := by
      rw [depthBehind, if_neg (by decide), if_pos rfl]
      omega
    show splitNames (depth + 1) ('>' :: rest) = _
    rw [splitNames_cons (inner '>'), closes]
    rfl
  | cons t ts ih =>
    obtain ⟨here, others⟩ := List.forall_mem_cons.mp h
    have stays : ∀ c ∈ [',', ' '], depthBehind (depth + 1) c = depth + 1 := by
      intro c hc
      simp only [List.mem_cons, List.not_mem_nil, or_false] at hc
      rcases hc with rfl | rfl <;> rfl
    rw [TypeExpression.furtherText_cons]
    show splitNames (depth + 1)
      (',' :: ' ' :: (t.text ++ TypeExpression.furtherText ts ++ rest)) = _
    rw [splitNames_cons (inner ','), stays ',' (by simp), splitNames_cons (inner ' '),
      stays ' ' (by simp), List.append_assoc, here (depth + 1) _ (by omega), ih others,
      ← prepend_append, ← prepend_append, ← prepend_append]
    rfl

theorem whole_text (t : TypeExpression) : Whole t.text := by
  induction t using TypeExpression.induct with
  | step library name arguments nullable ih =>
    have mark : Whole (TypeExpression.questionText nullable) :=
      whole_of_plain (by cases nullable <;> decide)
    have outer : Whole (TypeExpression.libraryText library) := by
      cases library with
      | none => exact whole_nil
      | some library => exact (whole_name library).append (whole_of_plain (by decide))
    have inner : Whole (TypeExpression.argumentText arguments) := by
      cases arguments with
      | nil => exact whole_nil
      | cons t ts =>
        obtain ⟨here, others⟩ := List.forall_mem_cons.mp ih
        intro depth rest open_brackets
        have opens : depthBehind depth '<' = depth + 1 := by rw [depthBehind, if_pos rfl]
        rw [TypeExpression.argumentText_cons, List.cons_append,
          splitNames_cons fun h => absurd h.1 (by decide), opens, List.append_assoc,
          here (depth + 1) _ (by omega), splitNames_furtherText others depth rest open_brackets,
          ← prepend_append, ← prepend_append]
        rfl
    rw [TypeExpression.text]
    exact outer.append ((whole_name name).append (inner.append mark))

/-- The related type that a piece of a clause names, if it is not blank. -/
def nameOf? (piece : List Char) : Option RelationTarget :=
  if (Text.trim piece).isEmpty then none else some (.named (String.ofList (Text.trim piece)))

theorem namesOf_eq (s : List Char) : namesOf s = (splitNames 0 s).filterMap nameOf? :=
  List.filterMap_map ..

/-- A type as a related type. -/
def target (t : TypeExpression) : RelationTarget := .named (String.ofList t.text)

theorem nameOf?_text (t : TypeExpression) : nameOf? t.text = some (target t) := by
  have some_text : t.text.isEmpty = false := List.isEmpty_eq_false_iff.mpr t.text_ne_nil
  rw [nameOf?, t.tight.trim_eq, some_text, if_neg Bool.false_ne_true, target]

theorem namesOf_text (t : TypeExpression) : namesOf t.text = [target t] := by
  have alone : splitNames 0 t.text = [t.text] := by
    have split := whole_text t 0 [] (Int.le_refl 0)
    rw [List.append_nil] at split
    rw [split, splitNames, prepend, List.append_nil]
  rw [namesOf_eq, alone, List.filterMap_cons, nameOf?_text]
  rfl

theorem namesOf_comma (t : TypeExpression) (s : List Char) :
    namesOf (t.text ++ ',' :: s) = target t :: namesOf s := by
  have split : splitNames 0 (t.text ++ ',' :: s) = t.text :: splitNames 0 s := by
    rw [whole_text t 0 _ (Int.le_refl 0), splitNames, if_pos ⟨rfl, rfl⟩, prepend, List.append_nil]
  rw [namesOf_eq, namesOf_eq, split, List.filterMap_cons, nameOf?_text]

theorem namesOf_blank (s : List Char) : namesOf (' ' :: s) = namesOf s := by
  have first (piece : List Char) : nameOf? (' ' :: piece) = nameOf? piece := by
    rw [nameOf?, nameOf?, Text.trim_cons_blank (by decide)]
  have split : splitNames 0 (' ' :: s) = prepend [' '] (splitNames 0 s) :=
    splitNames_cons (fun h => absurd h.1 (by decide)) s
  obtain ⟨piece, pieces, here⟩ := List.exists_cons_of_ne_nil (splitNames_ne_nil 0 s)
  rw [namesOf_eq, namesOf_eq, split, here, prepend, List.filterMap_cons, List.filterMap_cons,
    List.singleton_append, first]

/-- A text that begins with a name names something. -/
theorem namesOf_ne_nil (h : Begins s) : namesOf s ≠ [] := by
  obtain ⟨c, s, rfl, letter⟩ := h
  have other : ¬ (c = ',' ∧ (0 : Int) = 0) := fun h =>
    Parameters.ne_of_isNameChar letter (by decide) h.1
  obtain ⟨piece, pieces, here⟩ :=
    List.exists_cons_of_ne_nil (splitNames_ne_nil (depthBehind 0 c) s)
  have some_name : (nameOf? (c :: piece)).isSome := by
    have unblank : Text.trim (c :: piece) ≠ [] := by
      intro empty
      have words := Text.words_trim (c :: piece)
      rw [empty] at words
      have blank := Text.words_eq_nil_iff.mp words.symm c List.mem_cons_self
      rw [Parameters.not_isBlank_of_isNameChar letter] at blank
      cases blank
    rw [nameOf?, List.isEmpty_eq_false_iff.mpr unblank]
    rfl
  obtain ⟨name, found⟩ := Option.isSome_iff_exists.mp some_name
  rw [namesOf_eq, splitNames_cons other, here, prepend, List.filterMap_cons, List.singleton_append,
    found]
  exact List.cons_ne_nil _ _

theorem length_le_of_mem_splitNames {piece : List Char} (h : piece ∈ splitNames depth s) :
    piece.length ≤ s.length := by
  induction s generalizing depth piece with
  | nil =>
    obtain rfl := List.mem_singleton.mp h
    exact Nat.le_refl _
  | cons c s ih =>
    by_cases split : c = ',' ∧ depth = 0
    · rw [splitNames, if_pos split] at h
      rcases List.mem_cons.mp h with rfl | h
      · exact Nat.zero_le _
      · exact Nat.le_succ_of_le (ih h)
    · rw [splitNames_cons split] at h
      obtain ⟨first, pieces, here⟩ :=
        List.exists_cons_of_ne_nil (splitNames_ne_nil (depthBehind depth c) s)
      rw [here, prepend] at h
      rcases List.mem_cons.mp h with rfl | h
      · exact Nat.succ_le_succ (ih (here ▸ List.mem_cons_self))
      · exact Nat.le_succ_of_le (ih (here ▸ List.mem_cons_of_mem _ h))

/-- A text names no type that is longer than the text. -/
theorem length_le_of_mem_namesOf {t : TypeExpression} (h : target t ∈ namesOf s) :
    t.text.length ≤ s.length := by
  rw [namesOf_eq, List.mem_filterMap] at h
  obtain ⟨piece, mem, named⟩ := h
  have same : Text.trim piece = t.text := by
    unfold nameOf? at named
    split at named
    · cases named
    · have equal : RelationTarget.named (String.ofList (Text.trim piece)) = target t :=
        Option.some.inj named
      exact String.ofList_inj.mp (RelationTarget.named.inj equal)
  calc t.text.length = (Text.trim piece).length := by rw [same]
    _ ≤ piece.length := Text.length_trim_le piece
    _ ≤ s.length := length_le_of_mem_splitNames mem

/-- Types with commas between them. -/
def typeList (ts : List TypeExpression) : List Char := commaList (ts.map TypeExpression.text)

theorem typeList_concat (init : List TypeExpression) (t : TypeExpression) :
    typeList (init ++ [t]) = leading (init.map TypeExpression.text) ++ t.text := by
  rw [typeList, List.map_append, List.map_singleton, commaList, Text.joinWith_concat]
  rfl

theorem namesOf_leading (init : List TypeExpression) (s : List Char) :
    namesOf (leading (init.map TypeExpression.text) ++ s) = init.map target ++ namesOf s := by
  induction init with
  | nil => rfl
  | cons t init ih =>
    have first : leading ((t :: init).map TypeExpression.text) ++ s =
        t.text ++ ',' :: ' ' :: (leading (init.map TypeExpression.text) ++ s) := by
      cases init with
      | nil => simp [leading, commaList_cons, following]
      | cons u init => simp [leading, commaList_cons, following]
    rw [first, namesOf_comma, namesOf_blank, ih]
    rfl

theorem namesOf_typeList (ts : List TypeExpression) : namesOf (typeList ts) = ts.map target := by
  rcases List.eq_nil_or_concat' ts with rfl | ⟨init, t, rfl⟩
  · decide
  · rw [typeList_concat, namesOf_leading, namesOf_text, List.map_append, List.map_singleton]

/-- Only the last type of a list can hide a clause word. -/
theorem shown_leading (init : List TypeExpression) (s : List Char) :
    shown (leading (init.map TypeExpression.text) ++ s) =
      leading (init.map TypeExpression.text) ++ shown s := by
  cases init with
  | nil => rfl
  | cons t init =>
    let front := commaList ((t :: init).map TypeExpression.text) ++ [',']
    have split (s : List Char) :
        leading ((t :: init).map TypeExpression.text) ++ s = front ++ ' ' :: s := by
      simp [leading, front]
    rw [split, split, shown_behind (by decide)]

/-- The types that are read in a clause, when another clause follows it or not. -/
def readTypes (followed : Bool) (ts : List TypeExpression) : List RelationTarget :=
  namesOf (if followed then shown (typeList ts) else typeList ts)

theorem readTypes_nil (followed : Bool) : readTypes followed [] = [] := by
  cases followed <;> decide

/-- The types of a clause are read as written exactly if the last one hides no clause word from the
next clause. -/
theorem readTypes_eq_iff (followed : Bool) (ts : List TypeExpression) :
    readTypes followed ts = ts.map target ↔
      (followed = true → ∀ t ∈ ts.getLast?, hides t.text = false) := by
  cases followed with
  | false => exact iff_of_true (namesOf_typeList ts) fun h => nomatch h
  | true =>
    rcases List.eq_nil_or_concat' ts with rfl | ⟨init, t, rfl⟩
    · exact iff_of_true (readTypes_nil true) fun _ _ h => nomatch h
    · have read : readTypes true (init ++ [t]) = init.map target ++ namesOf (shown t.text) := by
        rw [readTypes, if_pos rfl, typeList_concat, shown_leading, namesOf_leading]
      rw [read, List.map_append, List.map_singleton, List.append_cancel_left_eq]
      constructor
      · intro same _ u hu
        rw [List.getLast?_concat, Option.mem_some_iff] at hu
        subst hu
        by_contra hidden
        rw [Bool.not_eq_false] at hidden
        have long := length_le_of_mem_namesOf (s := shown t.text) (t := t) (by rw [same]; simp)
        have short := shown_length_lt hidden
        omega
      · intro open_end
        rw [shown_of_not_hides (open_end rfl t (by simp)), namesOf_text]

/-! ## Type parameters -/

/-- A type parameter with a bound or without. -/
structure TypeParameter where
  name : Identifier
  bound : Option TypeExpression := none

/-- The parameter as it is written. -/
def TypeParameter.text (p : TypeParameter) : List Char :=
  match p.bound with
  | none => p.name.text
  | some t => p.name.text ++ (" extends ".toList ++ t.text)

/-- What follows a parameter: the other parameters and the closing bracket. -/
def furtherParameters : List TypeParameter → List Char
  | [] => ['>']
  | p :: rest => ", ".toList ++ (p.text ++ furtherParameters rest)

/-- Type parameters in their brackets. -/
def parameterText : List TypeParameter → List Char
  | [] => []
  | p :: rest => '<' :: (p.text ++ furtherParameters rest)

/-- A text cut at each `extends` in it: what stands in front of the first one and behind each. -/
structure Pieces where
  front : List Char
  behind : List (List Char)

/-- The pieces with a text in front of them. -/
def Pieces.after (s : List Char) (p : Pieces) : Pieces := ⟨s ++ p.front, p.behind⟩

/-- The pieces with a parameter in front of them. -/
def TypeParameter.before (p : TypeParameter) (pieces : Pieces) : Pieces :=
  match p.bound with
  | none => pieces.after p.name.text
  | some t => ⟨p.name.text, (t.text ++ pieces.front) :: pieces.behind⟩

def furtherPieces : List TypeParameter → Pieces
  | [] => ⟨['>'], []⟩
  | p :: rest => (p.before (furtherPieces rest)).after ", ".toList

def parameterPieces : List TypeParameter → Pieces
  | [] => ⟨[], []⟩
  | p :: rest => (p.before (furtherPieces rest)).after ['<']

/-- The text of pieces. -/
def Pieces.text (p : Pieces) : List Char :=
  p.front ++ (p.behind.map fun s => (⟨"extends", s⟩ : Clause)).flatMap Clause.written

theorem Pieces.text_after (s : List Char) (p : Pieces) : (p.after s).text = s ++ p.text :=
  List.append_assoc ..

theorem TypeParameter.text_before (p : TypeParameter) (pieces : Pieces) :
    (p.before pieces).text = p.text ++ pieces.text := by
  unfold TypeParameter.before TypeParameter.text
  cases p.bound with
  | none => exact pieces.text_after _
  | some t =>
    have word : " extends ".toList = ' ' :: ("extends".toList ++ [' ']) := by decide
    simp [Pieces.text, Clause.written, word]

theorem text_furtherPieces (ps : List TypeParameter) :
    (furtherPieces ps).text = furtherParameters ps := by
  induction ps with
  | nil => rfl
  | cons p ps ih =>
    rw [furtherPieces, Pieces.text_after, TypeParameter.text_before, ih, furtherParameters]

theorem text_parameterPieces (ps : List TypeParameter) :
    (parameterPieces ps).text = parameterText ps := by
  cases ps with
  | nil => rfl
  | cons p ps =>
    rw [parameterPieces, Pieces.text_after, TypeParameter.text_before, text_furtherPieces]
    rfl

/-- Bounds are what is cut off. -/
theorem behind_eq_nil_iff (ps : List TypeParameter) :
    (parameterPieces ps).behind = [] ↔ ∀ p ∈ ps, p.bound = none := by
  have before (p : TypeParameter) (pieces : Pieces) :
      (p.before pieces).behind = [] ↔ p.bound = none ∧ pieces.behind = [] := by
    unfold TypeParameter.before
    cases p.bound <;> simp [Pieces.after]
  have further (ps : List TypeParameter) :
      (furtherPieces ps).behind = [] ↔ ∀ p ∈ ps, p.bound = none := by
    induction ps with
    | nil => simp [furtherPieces]
    | cons p ps ih => rw [furtherPieces, Pieces.after, before, ih, List.forall_mem_cons]
  cases ps with
  | nil => simp [parameterPieces]
  | cons p ps => rw [parameterPieces, Pieces.after, before, further, List.forall_mem_cons]

/-! ## Where blanks stand -/

theorem unblank_of_begins (h : Begins s) : ∀ x ∈ s.head?, Text.isBlank x = false := by
  obtain ⟨c, s, rfl, letter⟩ := h
  exact Parameters.forall_mem_head?_cons (Parameters.not_isBlank_of_isNameChar letter)

theorem begins_text (t : TypeExpression) : Begins t.text := by
  simpa using (t.begins : Begins (t.text ++ []))

theorem begins_name (n : Identifier) : Begins n.text := by
  simpa using (n.begins : Begins (n.text ++ []))

theorem Proper.of_begins (h : Begins s) (spaced : Spaced s) : Proper s :=
  ⟨h.ne_nil, unblank_of_begins h, spaced⟩

theorem spaced_furtherText {ts : List TypeExpression} (h : ∀ t ∈ ts, Spaced t.text) :
    Spaced (TypeExpression.furtherText ts) ∧
      ∀ x ∈ (TypeExpression.furtherText ts).head?, Text.isBlank x = false := by
  induction ts with
  | nil => exact ⟨.singleton _, Parameters.forall_mem_head?_cons (by decide)⟩
  | cons t ts ih =>
    obtain ⟨here, others⟩ := List.forall_mem_cons.mp h
    obtain ⟨behind, first⟩ := ih others
    exact ⟨(here.append behind first).comma t.begins.unblank,
      Parameters.forall_mem_head?_cons (by decide)⟩

theorem spaced_name (n : Identifier) : Spaced n.text := .of_unblank n.unblank

/-- In a type blanks stand only behind commas. -/
theorem spaced_text (t : TypeExpression) : Spaced t.text := by
  induction t using TypeExpression.induct with
  | step library name arguments nullable ih =>
    have mark : ∀ x ∈ TypeExpression.questionText nullable, Text.isBlank x = false := by
      cases nullable <;> decide
    have unmarked : ∀ x ∈ (TypeExpression.questionText nullable).head?, Text.isBlank x = false :=
      fun x hx => mark x (List.mem_of_mem_head? hx)
    have inner : Spaced (TypeExpression.argumentText arguments) ∧
        ∀ x ∈ (TypeExpression.argumentText arguments).head?, Text.isBlank x = false := by
      cases arguments with
      | nil => exact ⟨.nil, fun _ h => nomatch h⟩
      | cons t ts =>
        obtain ⟨here, others⟩ := List.forall_mem_cons.mp ih
        obtain ⟨behind, first⟩ := spaced_furtherText others
        have bracket : Spaced ['<'] := .singleton _
        exact ⟨bracket.append (here.append behind first) t.begins.unblank,
          Parameters.forall_mem_head?_cons (by decide)⟩
    have core : Spaced (name.text ++
        (TypeExpression.argumentText arguments ++ TypeExpression.questionText nullable)) := by
      refine (spaced_name name).append (inner.1.append (.of_unblank mark) unmarked) ?_
      intro x hx
      rw [List.head?_append, Option.mem_def, Option.or_eq_some_iff] at hx
      exact hx.elim (inner.2 x) fun h => unmarked x h.2
    rw [TypeExpression.text]
    cases library with
    | none => exact core
    | some library =>
      have point : ∀ x ∈ TypeExpression.libraryText (some library), Text.isBlank x = false := by
        rw [TypeExpression.libraryText]
        exact List.forall_mem_append.mpr ⟨library.unblank, by decide⟩
      exact (Spaced.of_unblank point).append core name.begins.unblank

theorem spaced_typeList (ts : List TypeExpression) : Spaced (typeList ts) := by
  have further (ts : List TypeExpression) : Spaced (following (ts.map TypeExpression.text)) ∧
      ∀ x ∈ (following (ts.map TypeExpression.text)).head?, Text.isBlank x = false := by
    induction ts with
    | nil => exact ⟨.nil, fun _ h => nomatch h⟩
    | cons t ts ih =>
      rw [List.map_cons, following_cons]
      exact ⟨((spaced_text t).append ih.1 ih.2).comma t.begins.unblank,
        Parameters.forall_mem_head?_cons (by decide)⟩
  cases ts with
  | nil => exact .nil
  | cons t ts =>
    rw [typeList, List.map_cons, commaList_cons]
    exact (spaced_text t).append (further ts).1 (further ts).2

theorem proper_typeList {ts : List TypeExpression} (h : ts ≠ []) : Proper (typeList ts) := by
  obtain ⟨t, ts, rfl⟩ := List.exists_cons_of_ne_nil h
  refine .of_begins ?_ (spaced_typeList (t :: ts))
  rw [typeList, List.map_cons, commaList_cons]
  exact t.begins

/-- What stands behind the `extends` of a bound: the bound, and behind it a comma or the closing
bracket. -/
structure Bound (s : List Char) : Prop where
  spaced : Spaced s
  bounded : ∃ (t : TypeExpression) (x : Char) (rest : List Char),
    s = t.text ++ x :: rest ∧ Text.isWord x = false

/-- Whether pieces can stand behind a parameter. -/
structure Pieces.Sound (p : Pieces) : Prop where
  closing : ∃ x rest, p.front = x :: rest ∧ Text.isBlank x = false ∧ Text.isWord x = false
  spaced : Spaced p.front
  bounds : ∀ s ∈ p.behind, Bound s

theorem Pieces.Sound.first {p : Pieces} (h : p.Sound) :
    ∀ x ∈ p.front.head?, Text.isBlank x = false := by
  obtain ⟨x, rest, here, unblank, -⟩ := h.closing
  rw [here]
  exact Parameters.forall_mem_head?_cons unblank

theorem TypeParameter.sound_before (p : TypeParameter) {pieces : Pieces} (h : pieces.Sound) :
    Begins (p.before pieces).front ∧ Spaced (p.before pieces).front ∧
      ∀ s ∈ (p.before pieces).behind, Bound s := by
  unfold TypeParameter.before
  cases p.bound with
  | none => exact ⟨p.name.begins, (spaced_name p.name).append h.spaced h.first, h.bounds⟩
  | some t =>
    obtain ⟨x, rest, here, -, unworded⟩ := h.closing
    refine ⟨begins_name p.name, spaced_name p.name, List.forall_mem_cons.mpr ⟨?_, h.bounds⟩⟩
    exact ⟨(spaced_text t).append h.spaced h.first, t, x, rest, by rw [here], unworded⟩

theorem sound_furtherPieces (ps : List TypeParameter) : (furtherPieces ps).Sound := by
  induction ps with
  | nil => exact ⟨⟨'>', [], rfl, by decide, by decide⟩, .singleton _, fun _ h => nomatch h⟩
  | cons p ps ih =>
    obtain ⟨begins, spaced, bounds⟩ := p.sound_before ih
    exact ⟨⟨',', _, rfl, by decide, by decide⟩, spaced.comma (unblank_of_begins begins), bounds⟩

theorem sound_parameterPieces (ps : List TypeParameter) (n : Identifier) :
    Proper (n.text ++ (parameterPieces ps).front) ∧
      ∀ s ∈ (parameterPieces ps).behind, Bound s := by
  cases ps with
  | nil =>
    refine ⟨.of_begins n.begins ?_, fun _ h => nomatch h⟩
    exact (spaced_name n).append .nil fun _ h => nomatch h
  | cons p ps =>
    obtain ⟨begins, spaced, bounds⟩ := p.sound_before (sound_furtherPieces ps)
    have bracket : Spaced ['<'] := .singleton _
    refine ⟨.of_begins n.begins ?_, bounds⟩
    exact (spaced_name n).append (bracket.append spaced (unblank_of_begins begins))
      (Parameters.forall_mem_head?_cons (by decide))

theorem Bound.begins (h : Bound s) : Begins s := by
  obtain ⟨t, x, rest, rfl, -⟩ := h.bounded
  exact t.begins

theorem Bound.begins_shown (h : Bound s) : Begins (shown s) := by
  obtain ⟨t, x, rest, rfl, unworded⟩ := h.bounded
  rw [shown_behind unworded]
  exact t.begins

/-! ## Headers -/

/-- The header of a class. -/
structure ClassHeader where
  name : Identifier
  parameters : List TypeParameter := []
  superclass : Option TypeExpression := none
  mixins : List TypeExpression := []
  interfaces : List TypeExpression := []

/-- The clause that names types, if there are any. -/
def clauseOf (word : String) (ts : List TypeExpression) : List Clause :=
  if ts.isEmpty then [] else [⟨word, typeList ts⟩]

namespace ClassHeader

variable (h : ClassHeader)

/-- The clauses of a header in their order. -/
def clauses : List Clause :=
  clauseOf "extends" h.superclass.toList ++ (clauseOf "with" h.mixins ++
    clauseOf "implements" h.interfaces)

/-- The header as it is written. -/
def text : List Char :=
  "class ".toList ++ (h.name.text ++ (parameterText h.parameters ++
    h.clauses.flatMap Clause.written))

/-- The relations that a header states. -/
def relations : Relations where
  superclass := h.superclass.map target
  implements := h.interfaces.map target
  mixins := h.mixins.map target

end ClassHeader

/-! ## Reading headers -/

theorem addClause_extends (names : List RelationTarget) :
    addClause r "extends".toList names = { r with superclass := names.head? <|> r.superclass } :=
  if_pos rfl

theorem addClause_with (names : List RelationTarget) :
    addClause r "with".toList names = { r with mixins := r.mixins ++ names } := by
  rw [addClause, if_neg (by decide), if_pos rfl]

theorem addClause_implements (names : List RelationTarget) :
    addClause r "implements".toList names = { r with implements := r.implements ++ names } := by
  rw [addClause, if_neg (by decide), if_neg (by decide), if_pos rfl]

/-- Each bound is read as a superclass. -/
theorem readClauses_bounds {bounds : List (List Char)} (h : ∀ s ∈ bounds, Bound s)
    (r : Relations) (clauses : List Clause) : ∃ superclass,
      readClauses r (bounds.map (fun s => ⟨"extends", s⟩) ++ clauses) =
        readClauses { r with superclass } clauses ∧
      (bounds = [] → superclass = r.superclass) ∧ (bounds ≠ [] → superclass.isSome) := by
  induction bounds generalizing r with
  | nil => exact ⟨r.superclass, rfl, fun _ => rfl, fun some_bounds => absurd rfl some_bounds⟩
  | cons s bounds ih =>
    obtain ⟨here, others⟩ := List.forall_mem_cons.mp h
    let behind := bounds.map (fun s => (⟨"extends", s⟩ : Clause)) ++ clauses
    let names := namesOf (if behind.isEmpty then s else shown s)
    have some_names : names ≠ [] := by
      show namesOf (if behind.isEmpty then s else shown s) ≠ []
      split
      · exact namesOf_ne_nil here.begins
      · exact namesOf_ne_nil here.begins_shown
    obtain ⟨superclass, read, kept, found⟩ :=
      ih others { r with superclass := names.head? <|> r.superclass }
    have first : (names.head? <|> r.superclass).isSome := by
      obtain ⟨name, rest, split⟩ := List.exists_cons_of_ne_nil some_names
      rw [split]
      rfl
    refine ⟨superclass, ?_, fun empty => absurd empty (List.cons_ne_nil _ _), fun _ => ?_⟩
    · show readClauses (addClause r "extends".toList names) behind = _
      rw [addClause_extends]
      exact read
    · by_cases last : bounds = []
      · rw [kept last]
        exact first
      · exact found last

theorem readClauses_clauseOf (word : String) (ts : List TypeExpression) (clauses : List Clause) :
    readClauses r (clauseOf word ts ++ clauses) =
      readClauses (addClause r word.toList (readTypes (!clauses.isEmpty) ts)) clauses := by
  cases ts with
  | nil =>
    rw [readTypes_nil, addClause_nil]
    rfl
  | cons t ts =>
    have text : (if clauses.isEmpty then typeList (t :: ts) else shown (typeList (t :: ts))) =
        if (!clauses.isEmpty) = true then shown (typeList (t :: ts)) else typeList (t :: ts) := by
      cases clauses.isEmpty <;> rfl
    show readClauses (addClause r word.toList
      (namesOf (if clauses.isEmpty then _ else _))) clauses = _
    rw [text]
    rfl

section Header

variable (h : ClassHeader)

/-- Whether a clause follows the superclass of a header. -/
def ClassHeader.continues : Bool := !(h.mixins.isEmpty && h.interfaces.isEmpty)

theorem clauseOf_isEmpty (word : String) (ts : List TypeExpression) :
    (clauseOf word ts).isEmpty = ts.isEmpty := by
  cases ts <;> rfl

/-- Behind a superclass the clauses of a header replace it, and add their types. -/
theorem readClauses_clauses (superclass : Option RelationTarget) :
    readClauses { superclass } h.clauses = {
      superclass := (readTypes h.continues h.superclass.toList).head? <|> superclass
      implements := h.interfaces.map target
      mixins := readTypes (!h.interfaces.isEmpty) h.mixins } := by
  have follows : (!(clauseOf "with" h.mixins ++ clauseOf "implements" h.interfaces).isEmpty) =
      h.continues := by
    rw [ClassHeader.continues]
    cases h.mixins <;> cases h.interfaces <;> rfl
  have last (r : Relations) : readClauses r (clauseOf "implements" h.interfaces) =
      { r with implements := r.implements ++ h.interfaces.map target } := by
    have all : readTypes (!([] : List Clause).isEmpty) h.interfaces = h.interfaces.map target :=
      namesOf_typeList h.interfaces
    rw [← List.append_nil (clauseOf "implements" h.interfaces), readClauses_clauseOf, all,
      readClauses, addClause_implements]
  rw [ClassHeader.clauses, readClauses_clauseOf, follows, readClauses_clauseOf, clauseOf_isEmpty,
    last, addClause_with, addClause_extends]
  rfl

theorem proper_of_mem_clauseOf {word : String} {ts : List TypeExpression} {k : Clause}
    (hw : word ∈ clauseWords) (hk : k ∈ clauseOf word ts) :
    k.word ∈ clauseWords ∧ Proper k.text := by
  cases ts with
  | nil => cases hk
  | cons t ts =>
    obtain rfl := List.mem_singleton.mp hk
    exact ⟨hw, proper_typeList (List.cons_ne_nil t ts)⟩

theorem proper_of_mem_clauses : ∀ k ∈ h.clauses, k.word ∈ clauseWords ∧ Proper k.text := by
  rw [ClassHeader.clauses, List.forall_mem_append, List.forall_mem_append]
  exact ⟨fun k => proper_of_mem_clauseOf (by decide), fun k => proper_of_mem_clauseOf (by decide),
    fun k => proper_of_mem_clauseOf (by decide)⟩

theorem unbraced_parameterText (ps : List TypeParameter) : '{' ∉ parameterText ps := by
  have parameter (p : TypeParameter) : '{' ∉ p.text := by
    unfold TypeParameter.text
    cases p.bound with
    | none => exact p.name.not_mem (by decide)
    | some t =>
      simp only [List.mem_append, not_or]
      exact ⟨p.name.not_mem (by decide), by decide, t.not_mem_text (by decide)⟩
  have further (ps : List TypeParameter) : '{' ∉ furtherParameters ps := by
    induction ps with
    | nil => decide
    | cons p ps ih =>
      rw [furtherParameters, List.mem_append, List.mem_append, not_or, not_or]
      exact ⟨by decide, parameter p, ih⟩
  cases ps with
  | nil => exact List.not_mem_nil
  | cons p ps =>
    rw [parameterText, List.mem_cons, List.mem_append, not_or, not_or]
    exact ⟨by decide, parameter p, further ps⟩

theorem unbraced_clauseOf {word : String} (hw : '{' ∉ word.toList) (ts : List TypeExpression) :
    '{' ∉ (clauseOf word ts).flatMap Clause.written := by
  cases ts with
  | nil => exact List.not_mem_nil
  | cons t ts =>
    have types : '{' ∉ typeList (t :: ts) := by
      refine Parameters.not_mem_commaList (by decide) fun s hs => ?_
      obtain ⟨u, -, rfl⟩ := List.mem_map.mp hs
      exact u.not_mem_text (by decide)
    simp [clauseOf, Clause.written, hw, types]

theorem unbraced_text : '{' ∉ h.text := by
  unfold ClassHeader.text
  rw [ClassHeader.clauses, List.flatMap_append, List.flatMap_append]
  simp only [List.mem_append, not_or]
  exact ⟨by decide, h.name.not_mem (by decide), unbraced_parameterText _,
    unbraced_clauseOf (by decide) _, unbraced_clauseOf (by decide) _,
    unbraced_clauseOf (by decide) _⟩

/-- What is read of a header: the types of its clauses, and a superclass from its bounds if there
are any. -/
theorem parse_header : ∃ superclass,
    parse h.text = {
      superclass := (readTypes h.continues h.superclass.toList).head? <|> superclass
      implements := h.interfaces.map target
      mixins := readTypes (!h.interfaces.isEmpty) h.mixins } ∧
    (superclass = none ↔ ∀ p ∈ h.parameters, p.bound = none) := by
  let pieces := parameterPieces h.parameters
  let bounds := pieces.behind.map fun s => (⟨"extends", s⟩ : Clause)
  obtain ⟨proper, bounded⟩ := sound_parameterPieces h.parameters h.name
  have text : h.text = "class ".toList ++ ((h.name.text ++ pieces.front) ++
      (bounds ++ h.clauses).flatMap Clause.written) := by
    unfold ClassHeader.text
    rw [← text_parameterPieces, Pieces.text, List.flatMap_append]
    simp [pieces, bounds]
  have sound : ∀ k ∈ bounds ++ h.clauses, k.word ∈ clauseWords ∧ Proper k.text := by
    refine List.forall_mem_append.mpr ⟨fun k hk => ?_, proper_of_mem_clauses h⟩
    obtain ⟨s, hs, rfl⟩ := List.mem_map.mp hk
    have bound := bounded s hs
    have word : "extends" ∈ clauseWords := by decide
    exact ⟨word, .of_begins bound.begins bound.spaced⟩
  have read := parse_of_clauses proper sound (text ▸ unbraced_text h)
  obtain ⟨superclass, skipped, unbounded, found⟩ := readClauses_bounds bounded {} h.clauses
  have none_iff : superclass = none ↔ ∀ p ∈ h.parameters, p.bound = none := by
    rw [← behind_eq_nil_iff]
    constructor
    · rintro rfl
      by_contra some_bounds
      cases found some_bounds
    · exact unbounded
  refine ⟨superclass, ?_, none_iff⟩
  rw [text, read, skipped, readClauses_clauses]

/-- A superclass is read as written exactly if it hides no clause word from the next clause. -/
theorem superclass_read_iff {t : TypeExpression} (proper : t.text ∉ clauseWords.map String.toList)
    (followed : Bool) (superclass : Option RelationTarget) :
    ((readTypes followed [t]).head? <|> superclass) = some (target t) ↔
      (followed = true → hides t.text = false) := by
  constructor
  · rintro read rfl
    by_contra hidden
    rw [Bool.not_eq_false] at hidden
    obtain ⟨w, hw, cut, -⟩ := exists_of_hides hidden
    -- what is shown is the beginning of the type, so it names some type
    have begins : Begins (shown t.text) := by
      obtain ⟨c, s, here, letter⟩ := begins_text t
      cases first : shown t.text with
      | nil =>
        rw [first, List.nil_append] at cut
        exact absurd (cut ▸ List.mem_map_of_mem hw) proper
      | cons x rest =>
        rw [first, here] at cut
        obtain ⟨rfl, -⟩ := List.cons.inj cut
        exact ⟨c, rest, rfl, letter⟩
    obtain ⟨name, names, split⟩ := List.exists_cons_of_ne_nil (namesOf_ne_nil begins)
    have named : namesOf (shown t.text) = readTypes true [t] := rfl
    rw [← named, split] at read
    obtain rfl := Option.some.inj read
    have long := length_le_of_mem_namesOf (s := shown t.text) (t := t) (split ▸ List.mem_cons_self)
    have short := shown_length_lt hidden
    omega
  · intro open_end
    have read : readTypes followed [t] = [target t] :=
      (readTypes_eq_iff followed [t]).mpr fun h u hu => Option.mem_some_iff.mp hu ▸ open_end h
    rw [read]
    rfl

/-- A class header is read back as written exactly if it has a superclass or no bounds, and no type
that another clause follows ends in a clause word. -/
theorem class_headers_read (proper : ∀ t ∈ h.superclass, t.text ∉ clauseWords.map String.toList) :
    parse h.text = h.relations ↔
      (h.superclass = none → ∀ p ∈ h.parameters, p.bound = none) ∧
      (h.mixins ≠ [] ∨ h.interfaces ≠ [] → ∀ t ∈ h.superclass, hides t.text = false) ∧
      (h.interfaces ≠ [] → ∀ t ∈ h.mixins.getLast?, hides t.text = false) := by
  obtain ⟨superclass, read, unbounded⟩ := parse_header h
  have mixed : readTypes (!h.interfaces.isEmpty) h.mixins = h.mixins.map target ↔
      (h.interfaces ≠ [] → ∀ t ∈ h.mixins.getLast?, hides t.text = false) := by
    rw [readTypes_eq_iff, Bool.not_eq_true', List.isEmpty_eq_false_iff]
  have followed : h.continues = true ↔ h.mixins ≠ [] ∨ h.interfaces ≠ [] := by
    simp [ClassHeader.continues, Classical.or_iff_not_imp_left]
  rw [read, ClassHeader.relations, Relations.mk.injEq, mixed]
  simp only [true_and, ← and_assoc]
  refine and_congr_left fun _ => ?_
  cases none_or_some : h.superclass with
  | none =>
    rw [Option.toList_none, readTypes_nil]
    simp [← unbounded]
  | some t =>
    have other : t.text ∉ clauseWords.map String.toList := proper t none_or_some
    rw [Option.toList_some, Option.map_some, superclass_read_iff other, followed]
    simp

end Header

/-- A type hides a clause word only behind a dollar sign, or if it is written with one. -/
theorem hides_of_plain {t : TypeExpression} (plain : ∀ n ∈ t.identifiers,
    '$' ∉ n.text ∧ n.text ∉ clauseWords.map String.toList) : hides t.text = false := by
  by_contra hidden
  rw [Bool.not_eq_false] at hidden
  obtain ⟨w, hw, cut, edge⟩ := exists_of_hides hidden
  obtain ⟨some_text, letters⟩ := letters_of_clauseWord w hw
  have word : w.toList ∈ Text.runs Text.isWord (shown t.text ++ (w.toList ++ [])) :=
    Text.mem_runs some_text (fun c hc => (letters c hc).1) edge fun _ h => nomatch h
  rw [List.append_nil, ← cut, TypeExpression.runs_text fun n hn => (plain n hn).1] at word
  obtain ⟨n, hn, same⟩ := List.mem_map.mp word
  exact (plain n hn).2 (same ▸ List.mem_map_of_mem hw)

/-- The header of a class with all clauses and no bounds. -/
def home : ClassHeader where
  name := ⟨"Home".toList, by decide⟩
  parameters := [{ name := ⟨"T".toList, by decide⟩ }]
  superclass := some {
    name := ⟨"Base".toList, by decide⟩
    arguments := [{ name := ⟨"T".toList, by decide⟩ }] }
  mixins := [{ name := ⟨"Loggable".toList, by decide⟩ }]
  interfaces := [{
    name := ⟨"Api".toList, by decide⟩
    arguments := [{ name := ⟨"Route".toList, by decide⟩ },
      { name := ⟨"Page".toList, by decide⟩ }] }]

theorem class_headers_read_home :
    (∀ t ∈ home.superclass, t.text ∉ clauseWords.map String.toList) ∧
      home.text = "class Home<T> extends Base<T> with Loggable implements Api<Route, Page>".toList ∧
      parse home.text = home.relations := by
  have proper : ∀ t ∈ home.superclass, t.text ∉ clauseWords.map String.toList := by decide
  refine ⟨proper, by decide, (class_headers_read home proper).mpr ⟨?_, fun _ => ?_, fun _ => ?_⟩⟩
  · exact fun missing => nomatch missing
  · rintro t ⟨⟩
    exact hides_of_plain (by decide)
  · rintro t ⟨⟩
    exact hides_of_plain (by decide)

/-- A class with a bound and no superclass. -/
def box : ClassHeader where
  name := ⟨"Box".toList, by decide⟩
  parameters := [{
    name := ⟨"T".toList, by decide⟩
    bound := some { name := ⟨"Base".toList, by decide⟩ } }]

/-- The bound of a class without a superclass is read as one, with its closing bracket. -/
theorem bound_read_as_superclass :
    box.text = "class Box<T extends Base>".toList ∧ box.relations.superclass = none ∧
      (parse box.text).superclass = some (.named "Base>") :=
  ⟨by decide, rfl, by decide +kernel⟩

end CodeAtlas.Heritage
