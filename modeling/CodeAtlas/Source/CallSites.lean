import CodeAtlas.Text.Cut

/-!
Call sites: names in front of an opening parenthesis. `Source.callSites` reads them off a text from
left to right; a name behind a qualifier is found both with the qualifier and without it.
-/
namespace CodeAtlas.Source

/-- What follows an opening parenthesis that stands behind blanks. -/
def behindParenthesis? (s : List Char) : Option (List Char) :=
  match Text.trimStart s with
  | '(' :: rest => some rest
  | _ => none

/-- The name behind a point that a parenthesis follows, and what follows the parenthesis. -/
def member? : List Char → Option (List Char × List Char)
  | '.' :: c :: s =>
    if Text.isIdentStart c then
      (behindParenthesis? (s.dropWhile Text.isIdentPart)).map
        (c :: s.takeWhile Text.isIdentPart, ·)
    else none
  | _ => none

theorem length_lt_of_behindParenthesis {s rest : List Char}
    (h : behindParenthesis? s = some rest) : rest.length < s.length := by
  have hs := Text.length_trimStart_le s
  unfold behindParenthesis? at h
  split at h
  · next r e =>
    obtain rfl := Option.some.inj h
    rw [e, List.length_cons] at hs
    omega
  · simp at h

theorem length_lt_of_member {s m rest : List Char} (h : member? s = some (m, rest)) :
    rest.length < s.length := by
  unfold member? at h
  split at h
  · next c t =>
    split at h
    · obtain ⟨r, hr, hp⟩ := Option.map_eq_some_iff.1 h
      simp only [Prod.mk.injEq] at hp
      have h₁ := length_lt_of_behindParenthesis hr
      have h₂ := Text.length_dropWhile_le Text.isIdentPart t
      rw [← hp.2, List.length_cons, List.length_cons]
      omega
    · simp at h
  · simp at h

/-- The names that call sites of a text may refer to, with repetitions. -/
def callSites : List Char → List (List Char)
  | [] => []
  | c :: s =>
    if Text.isIdentStart c then
      let word := c :: s.takeWhile Text.isIdentPart
      match _hm : member? (s.dropWhile Text.isIdentPart) with
      | some (name, rest) => (word ++ '.' :: name) :: name :: callSites rest
      | none =>
        match _hp : behindParenthesis? (s.dropWhile Text.isIdentPart) with
        | some rest => word :: callSites rest
        | none => callSites (s.dropWhile Text.isIdentPart)
    else callSites s
termination_by s => s.length
decreasing_by
  all_goals have := Text.length_dropWhile_le Text.isIdentPart s
  · have := length_lt_of_member _hm
    simp only [List.length_cons]; omega
  · have := length_lt_of_behindParenthesis _hp
    simp only [List.length_cons]; omega
  · simp only [List.length_cons]; omega
  · simp only [List.length_cons]; omega

end CodeAtlas.Source
