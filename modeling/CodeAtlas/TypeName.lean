import CodeAtlas.Text.Cut

/-!
Names of types as written in source text: with type arguments, a library prefix, a question mark.
`TypeName.base` finds the name under which the innermost type is declared.
-/
namespace CodeAtlas.TypeName

/-- What stands before the type arguments, without blanks around it. -/
def bare (name : List Char) : List Char := Text.trim (Text.beforeFirst '<' name)

/-- The name without blanks around it and without one question mark at its end. -/
def required (name : List Char) : List Char :=
  let name := Text.trim name
  if name.getLast? = some '?' then name.dropLast else name

/-- The type arguments, if the name is one generic type of words, applied on one line. -/
def arguments? (name : List Char) : Option (List Char) :=
  match Text.splitFirst '<' name with
  | none => none
  | some (head, rest) =>
    let inner := rest.dropLast
    if !head.isEmpty && head.all (fun c => Text.isWord c || Text.isBlank c) &&
        rest.getLast? = some '>' && !inner.isEmpty && !inner.contains '\n' then
      some inner
    else none

/-- The last word behind the last point. -/
def lastWord (name : List Char) : List Char := Text.afterLast ' ' (Text.afterLast '.' name)

theorem length_required_le (name : List Char) : (required name).length ≤ name.length := by
  have h := Text.length_trim_le name
  unfold required
  simp only
  split
  · rw [List.length_dropLast]; omega
  · exact h

theorem length_lt_of_arguments {name inner : List Char} (h : arguments? name = some inner) :
    inner.length < name.length := by
  unfold arguments? at h
  split at h
  · simp at h
  · next head rest hs =>
    simp only at h
    split at h
    · have := Text.length_lt_of_splitFirst hs
      simp only [Option.some.injEq] at h
      rw [← h, List.length_dropLast]
      omega
    · simp at h

/-- The name under which a type is declared: that of its type arguments, if they have one, or its
last word, without the question mark. -/
def base (name : List Char) : List Char :=
  match _h : arguments? (required name) with
  | none => lastWord (required name)
  | some inner =>
    let found := base inner
    if found.isEmpty then lastWord (required name) else found
termination_by name.length
decreasing_by exact Nat.lt_of_lt_of_le (length_lt_of_arguments _h) (length_required_le name)

end CodeAtlas.TypeName
