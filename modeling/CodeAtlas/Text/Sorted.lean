/-!
Sorted lists of texts without repetitions, and counts kept in such order.
-/
namespace CodeAtlas.Text

/-- Puts a text into its place; a text that is there already is not repeated. -/
def insertSorted (s : String) : List String → List String
  | [] => [s]
  | t :: rest =>
    if s = t then t :: rest
    else if s < t then s :: t :: rest
    else t :: insertSorted s rest

/-- The different texts of a list in ascending order. -/
def sorted (texts : List String) : List String := texts.foldr insertSorted []

/-- How often each text occurs, in ascending order of the texts. -/
def tally (texts : List String) : List (String × Nat) :=
  (sorted texts).map fun s => (s, texts.count s)

theorem mem_insertSorted {s t : String} {l : List String} :
    t ∈ insertSorted s l ↔ t = s ∨ t ∈ l := by
  induction l with
  | nil => simp [insertSorted]
  | cons x rest ih =>
    simp only [insertSorted]
    split
    · next h => simp [h]
    · split
      · simp
      · simp only [List.mem_cons, ih]
        constructor
        · rintro (h | h | h) <;> simp [h]
        · rintro (h | h | h) <;> simp [h]

theorem mem_sorted {t : String} {l : List String} : t ∈ sorted l ↔ t ∈ l := by
  induction l with
  | nil => simp [sorted]
  | cons x rest ih =>
    have hs : sorted (x :: rest) = insertSorted x (sorted rest) := rfl
    rw [hs, mem_insertSorted, ih, List.mem_cons]

theorem pairwise_insertSorted {s : String} {l : List String} (h : l.Pairwise (· < ·)) :
    (insertSorted s l).Pairwise (· < ·) := by
  induction l with
  | nil => exact List.pairwise_singleton _ s
  | cons x rest ih =>
    obtain ⟨first, h⟩ := List.pairwise_cons.mp h
    simp only [insertSorted]
    split
    · exact List.pairwise_cons.mpr ⟨first, h⟩
    · next differ =>
      split
      · next below =>
        refine List.pairwise_cons.mpr ⟨fun t ht => ?_, List.pairwise_cons.mpr ⟨first, h⟩⟩
        rcases List.mem_cons.mp ht with rfl | ht
        · exact below
        · exact String.lt_trans below (first t ht)
      · next above =>
        have above : x < s := Std.lt_of_le_of_ne (String.not_lt.mp above) (Ne.symm differ)
        refine List.pairwise_cons.mpr ⟨fun t ht => ?_, ih h⟩
        rcases mem_insertSorted.mp ht with rfl | ht
        · exact above
        · exact first t ht

theorem pairwise_sorted (l : List String) : (sorted l).Pairwise (· < ·) := by
  induction l with
  | nil => exact .nil
  | cons x rest ih => exact pairwise_insertSorted ih

theorem nodup_sorted (l : List String) : (sorted l).Nodup := by
  refine (pairwise_sorted l).imp fun {a b} below same => ?_
  exact String.lt_irrefl b (same ▸ below)

end CodeAtlas.Text
