import CodeAtlas.File.Path
import Mathlib.Data.List.Infix

/-!
Components of paths. A text is split at a slash into what is split before it and behind it, so a path
into a folder has the components of the folder in front (`components_append`). A path into a folder is
not below what stands beside that folder, however much of the text they share (`not_below_sibling`).
-/
namespace CodeAtlas

namespace Text

theorem splitOn_ne_nil (c : Char) (s : List Char) : splitOn c s ≠ [] := by
  cases s with
  | nil => simp [splitOn]
  | cons x s =>
    rw [splitOn]
    split
    · simp
    · split <;> simp

theorem splitOn_append (c : Char) (a b : List Char) :
    splitOn c (a ++ c :: b) = splitOn c a ++ splitOn c b := by
  induction a with
  | nil =>
    obtain ⟨piece, pieces, split⟩ := List.exists_cons_of_ne_nil (splitOn_ne_nil c b)
    simp [splitOn, split]
  | cons x a ih =>
    obtain ⟨piece, pieces, split⟩ := List.exists_cons_of_ne_nil (splitOn_ne_nil c a)
    rw [List.cons_append, splitOn, ih, splitOn, split]
    by_cases h : x = c <;> simp [h]

theorem splitOn_cons_self (c : Char) (s : List Char) : splitOn c (c :: s) = [] :: splitOn c s :=
  splitOn_append c [] s

theorem splitOn_of_not_mem {c : Char} {s : List Char} (h : c ∉ s) : splitOn c s = [s] := by
  induction s with
  | nil => rfl
  | cons x s ih =>
    obtain ⟨first, others⟩ := List.ne_and_not_mem_of_not_mem_cons h
    rw [splitOn, ih others]
    exact if_neg first.symm

/-- Pieces that are joined are split again. -/
theorem splitOn_joinWith {c : Char} {pieces : List (List Char)} (some_piece : pieces ≠ [])
    (whole : ∀ p ∈ pieces, c ∉ p) : splitOn c (joinWith [c] pieces) = pieces := by
  induction pieces with
  | nil => exact absurd rfl some_piece
  | cons p rest ih =>
    obtain ⟨first, others⟩ := List.forall_mem_cons.mp whole
    cases rest with
    | nil => exact splitOn_of_not_mem first
    | cons q rest =>
      have joined : joinWith [c] (p :: q :: rest) = p ++ c :: joinWith [c] (q :: rest) := by
        simp [joinWith]
      rw [joined, splitOn_append, splitOn_of_not_mem first, ih (List.cons_ne_nil _ _) others]
      rfl

theorem joinWith_cons (c : Char) (pieces : List (List Char)) (some_piece : pieces ≠ []) :
    c :: joinWith [c] pieces = pieces.flatMap (c :: ·) := by
  induction pieces with
  | nil => exact absurd rfl some_piece
  | cons p rest ih =>
    cases rest with
    | nil => simp [joinWith]
    | cons q rest =>
      have joined : joinWith [c] (p :: q :: rest) = p ++ c :: joinWith [c] (q :: rest) := by
        simp [joinWith]
      rw [joined, ← List.cons_append, ih (List.cons_ne_nil _ _)]
      rfl

/-- Pieces that are split are joined again. -/
theorem joinWith_splitOn (c : Char) (s : List Char) : joinWith [c] (splitOn c s) = s := by
  induction s with
  | nil => rfl
  | cons x s ih =>
    obtain ⟨piece, pieces, split⟩ := List.exists_cons_of_ne_nil (splitOn_ne_nil c s)
    rw [split] at ih
    rw [splitOn, split]
    by_cases h : x = c
    · simp [h, joinWith, ih]
    · cases pieces <;> simp_all [joinWith]

theorem joinWith_append (c : Char) {a b : List (List Char)} (some_a : a ≠ []) (some_b : b ≠ []) :
    joinWith [c] (a ++ b) = joinWith [c] a ++ c :: joinWith [c] b := by
  have both : a ++ b ≠ [] := List.append_ne_nil_of_left_ne_nil some_a b
  have whole : c :: joinWith [c] (a ++ b) = c :: (joinWith [c] a ++ c :: joinWith [c] b) := by
    rw [joinWith_cons c _ both, List.flatMap_append, ← joinWith_cons c a some_a,
      ← joinWith_cons c b some_b, List.cons_append]
  exact (List.cons.inj whole).2

end Text

namespace Path

theorem pieces_append (a b : List Char) : pieces (a ++ '/' :: b) = pieces a ++ pieces b := by
  rw [pieces, Text.splitOn_append, List.filter_append, pieces, pieces]

/-- A text that stands for itself in a path. -/
structure IsName (name : List Char) : Prop where
  filled : name ≠ []
  not_point : name ≠ ['.']
  whole : '/' ∉ name

theorem IsName.pieces_eq {name : List Char} (h : IsName name) : pieces name = [name] := by
  rw [pieces, Text.splitOn_of_not_mem h.whole]
  simp [h.filled, h.not_point]

/-- The component that a path begins with before any name: the root, a point or none. -/
def lead (path : List Char) : List (List Char) :=
  if isAbsolute path then [rootComponent]
  else if path = ['.'] || Text.startsWith ['.', '/'] path then [['.']]
  else []

theorem components_eq (path : List Char) : components path = lead path ++ pieces path := by
  unfold components lead
  split
  · rfl
  · split <;> rfl

/-- What a path begins with is decided by the text up to any slash of it. -/
theorem lead_append (a b : List Char) : lead (a ++ '/' :: b) = lead (a ++ ['/']) := by
  cases a with
  | nil => rfl
  | cons c a =>
    have absolute : ∀ rest, isAbsolute (c :: a ++ '/' :: rest) = isAbsolute (c :: a) := by
      intro rest
      rfl
    have long : ∀ rest, c :: a ++ '/' :: rest ≠ ['.'] := by
      intro rest same
      simp at same
    have pointed : ∀ rest, Text.startsWith ['.', '/'] (c :: a ++ '/' :: rest) =
        Text.startsWith ['.', '/'] (c :: a ++ ['/']) := by
      intro rest
      rw [Bool.eq_iff_iff]
      cases a with
      | nil => simp [Text.startsWith, Text.dropStart?]
      | cons d a =>
        rcases eq_or_ne d '/' with rfl | other
        · simp [Text.startsWith, Text.dropStart?]
        · simp [Text.startsWith, Text.dropStart?, other.symm]
    simp only [lead, absolute, pointed, decide_eq_false (long _)]

theorem components_append (a b : List Char) :
    components (a ++ '/' :: b) = components (a ++ ['/']) ++ pieces b := by
  have folder : pieces (a ++ ['/']) = pieces a := by
    rw [pieces_append]
    exact List.append_nil _
  rw [components_eq, components_eq, lead_append, pieces_append, folder, List.append_assoc]

/-- Of two names in a folder, what lies below one does not lie below the other. -/
theorem not_below_sibling {folder name sibling rest : List Char} (hn : IsName name)
    (hs : IsName sibling) (differ : name ≠ sibling) :
    ¬components (folder ++ '/' :: name) <+:
      components (folder ++ '/' :: (sibling ++ '/' :: rest)) := by
  intro below
  rw [components_append folder name, components_append folder (sibling ++ '/' :: rest),
    pieces_append, hn.pieces_eq, hs.pieces_eq] at below
  have names := (List.prefix_append_right_inj _).mp below
  exact differ (List.cons_prefix_cons.mp names).1

end Path

end CodeAtlas
