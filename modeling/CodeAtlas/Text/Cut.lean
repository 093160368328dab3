import CodeAtlas.Text.Class

/-!
Cutting text, kept as a list of characters: trimming, splitting at a character, lines, the test
whether one text occurs in another. Every function recurses on its text; the lemmas say which
pieces are shorter than the whole, for the recursions that cut again.
-/
namespace CodeAtlas.Text

/-! ## Trimming -/

/-- The text without leading blanks. -/
def trimStart (s : List Char) : List Char := s.dropWhile isBlank

/-- The text without trailing blanks. -/
def trimEnd (s : List Char) : List Char := (s.reverse.dropWhile isBlank).reverse

/-- The text without leading and trailing blanks. -/
def trim (s : List Char) : List Char := trimEnd (trimStart s)

theorem length_dropWhile_le (p : Char → Bool) (s : List Char) :
    (s.dropWhile p).length ≤ s.length :=
  (List.dropWhile_suffix p).length_le

theorem length_trimStart_le (s : List Char) : (trimStart s).length ≤ s.length :=
  length_dropWhile_le _ _

theorem length_trimEnd_le (s : List Char) : (trimEnd s).length ≤ s.length := by
  have h := length_dropWhile_le isBlank s.reverse
  simpa [trimEnd] using h

theorem length_trim_le (s : List Char) : (trim s).length ≤ s.length :=
  Nat.le_trans (length_trimEnd_le _) (length_trimStart_le _)

/-! ## Splitting at a character -/

/-- What stands before and after the first `c`. -/
def splitFirst (c : Char) : List Char → Option (List Char × List Char)
  | [] => none
  | x :: rest => if x = c then some ([], rest) else (splitFirst c rest).map fun (a, b) => (x :: a, b)

/-- What stands before and after the last `c`. -/
def splitLast (c : Char) : List Char → Option (List Char × List Char)
  | [] => none
  | x :: rest =>
    match splitLast c rest with
    | some (a, b) => some (x :: a, b)
    | none => if x = c then some ([], rest) else none

/-- The pieces between the occurrences of `c`, always at least one. -/
def splitOn (c : Char) : List Char → List (List Char)
  | [] => [[]]
  | x :: rest =>
    match splitOn c rest with
    | [] => [[x]]
    | piece :: pieces => if x = c then [] :: piece :: pieces else (x :: piece) :: pieces

/-- What stands before the first `c`, or all of the text. -/
def beforeFirst (c : Char) (s : List Char) : List Char := s.takeWhile (· ≠ c)

/-- What stands after the last `c`, or all of the text. -/
def afterLast (c : Char) (s : List Char) : List Char := (s.reverse.takeWhile (· ≠ c)).reverse

theorem eq_append_of_splitFirst {c : Char} {s a b : List Char} (h : splitFirst c s = some (a, b)) :
    s = a ++ c :: b := by
  induction s generalizing a with
  | nil => simp [splitFirst] at h
  | cons x rest ih =>
    simp only [splitFirst] at h
    split at h
    · next hx =>
      simp only [Option.some.injEq, Prod.mk.injEq] at h
      simp [← h.1, ← h.2, hx]
    · cases hr : splitFirst c rest with
      | none => simp [hr] at h
      | some p =>
        obtain ⟨a', b'⟩ := p
        simp only [hr, Option.map_some, Option.some.injEq, Prod.mk.injEq] at h
        rw [ih (a := a') (by rw [hr, h.2]), ← h.1, List.cons_append]

theorem splitFirst_append {c : Char} {a : List Char} (h : c ∉ a) (b : List Char) :
    splitFirst c (a ++ c :: b) = some (a, b) := by
  induction a with
  | nil => simp [splitFirst]
  | cons x a ih =>
    obtain ⟨first, others⟩ := not_or.mp (mt List.mem_cons.mpr h)
    rw [List.cons_append, splitFirst, if_neg (Ne.symm first), ih others, Option.map_some]

theorem length_lt_of_splitFirst {c : Char} {s a b : List Char}
    (h : splitFirst c s = some (a, b)) : b.length < s.length := by
  rw [eq_append_of_splitFirst h, List.length_append, List.length_cons]
  omega

/-! ## Prefixes and pieces -/

/-- What follows `start` in a text that begins with it. -/
def dropStart? : List Char → List Char → Option (List Char)
  | [], s => some s
  | _ :: _, [] => none
  | x :: start, c :: s => if x = c then dropStart? start s else none

/-- Whether the text begins with `start`. -/
def startsWith (start s : List Char) : Bool := (dropStart? start s).isSome

/-- Whether the text ends with `tail`. -/
def endsWith (tail s : List Char) : Bool := startsWith tail.reverse s.reverse

/-- Whether `piece` occurs in the text. -/
def hasPiece (piece : List Char) : List Char → Bool
  | [] => piece.isEmpty
  | c :: s => startsWith piece (c :: s) || hasPiece piece s

/-- The texts joined with `glue` between neighbours. -/
def joinWith (glue : List Char) : List (List Char) → List Char
  | [] => []
  | [s] => s
  | s :: rest => s ++ glue ++ joinWith glue rest

/-- The text with ASCII letters in lower case. -/
def lower (s : List Char) : List Char := s.map lowerAscii

/-- The characters that a letter becomes in lower case, as far as ASCII letters come out of it: the
Kelvin sign becomes a letter, the dotted capital a letter and a dot above. -/
def lowered (c : Char) : List Char :=
  if c.val = 0x212A then ['k'] else if c.val = 0x130 then ['i', Char.ofNat 0x307]
  else [lowerAscii c]

/-- The text in lower case, for the search for ASCII words in it. -/
def lowerWords (s : List Char) : List Char := s.flatMap lowered

/-- Each run of blanks as one space, none at the ends. -/
def squeeze (s : List Char) : List Char :=
  go false (trim s)
where
  /-- `afterBlank` says that the last character written stands for a run of blanks. -/
  go (afterBlank : Bool) : List Char → List Char
    | [] => []
    | c :: rest =>
      if isBlank c then if afterBlank then go true rest else ' ' :: go true rest
      else c :: go false rest

/-! ## Lines -/

/-- A line without the carriage return that stood before its newline. -/
def dropReturn (line : List Char) : List Char :=
  if line.getLast? = some '\r' then line.dropLast else line

/-- The lines of a text. A newline ends a line, alone or after a carriage return; an empty last
line is none. -/
def lines (s : List Char) : List (List Char) :=
  let pieces := splitOn '\n' s
  let last := pieces.getLast?.getD []
  pieces.dropLast.map dropReturn ++ (if last.isEmpty then [] else [last])

/-- Lines `first` up to but not including `stop`, joined by newlines. -/
def lineWindow (s : List Char) (first stop : Nat) : List Char :=
  joinWith ['\n'] (((lines s).drop first).take (stop - first))

end CodeAtlas.Text
