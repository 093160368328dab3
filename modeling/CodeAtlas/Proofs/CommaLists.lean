import CodeAtlas.Proofs.SlotChoice

/-!
Lists of parameters as text: members with commas between them, and behind the required ones perhaps
a segment in brackets or braces. The text is cut into its segments again (`segments_optional`,
`segments_named`), and a segment is read member by member (`slotsOf_step`).
-/
namespace CodeAtlas.Parameters

variable {ts vs : List (List Char)} {t tail : List Char}

/-! ## Members with commas between them -/

/-- The members of a list with commas between them. -/
def commaList (ts : List (List Char)) : List Char := Text.joinWith ", ".toList ts

/-- What stands in a list behind a member that `ts` follow. -/
def following (ts : List (List Char)) : List Char :=
  if ts.isEmpty then [] else ", ".toList ++ commaList ts

/-- The required members before another segment, with a comma if there are any. -/
def leading (ts : List (List Char)) : List Char :=
  if ts.isEmpty then [] else commaList ts ++ ", ".toList

/-- A text that can stand in a list. -/
structure IsMember (t : List Char) : Prop where
  some_text : t ≠ []
  tight : Text.Tight t

theorem commaList_cons (t : List Char) (ts : List (List Char)) :
    commaList (t :: ts) = t ++ following ts := by
  cases ts with
  | nil => exact (List.append_nil _).symm
  | cons v ts => exact List.append_assoc _ _ _

theorem following_cons (t : List Char) (ts : List (List Char)) :
    following (t :: ts) = ", ".toList ++ (t ++ following ts) := by
  rw [← commaList_cons]
  rfl

theorem closes_following (ts : List (List Char)) : Closes (following ts) := by
  cases ts with
  | nil => exact fun _ h => nomatch h
  | cons t ts =>
    rw [following_cons]
    exact forall_mem_head?_cons rfl

/-- What holds of the characters of all members holds behind the first. -/
theorem forall_mem_following {P : Char → Prop} (comma : ∀ c ∈ ", ".toList, P c)
    (h : ∀ t ∈ ts, ∀ c ∈ t, P c) : ∀ c ∈ following ts, P c := by
  induction ts with
  | nil => exact fun _ h => nomatch h
  | cons t ts ih =>
    obtain ⟨here, others⟩ := List.forall_mem_cons.mp h
    rw [following_cons]
    exact List.forall_mem_append.mpr ⟨comma, List.forall_mem_append.mpr ⟨here, ih others⟩⟩

theorem not_mem_following {m : Char} (comma : m ∉ ", ".toList) (h : ∀ t ∈ ts, m ∉ t) :
    m ∉ following ts := by
  have other : ∀ c ∈ following ts, c ≠ m :=
    forall_mem_following (fun c hc same => comma (same ▸ hc))
      fun t ht c hc same => h t ht (same ▸ hc)
  exact fun hm => other m hm rfl

theorem not_mem_commaList {m : Char} (comma : m ∉ ", ".toList) (h : ∀ t ∈ ts, m ∉ t) :
    m ∉ commaList ts := by
  cases ts with
  | nil => exact List.not_mem_nil
  | cons t ts =>
    obtain ⟨here, others⟩ := List.forall_mem_cons.mp h
    rw [commaList_cons, List.mem_append, not_or]
    exact ⟨here, not_mem_following comma others⟩

theorem not_mem_leading {m : Char} (comma : m ∉ ", ".toList) (h : ∀ t ∈ ts, m ∉ t) :
    m ∉ leading ts := by
  rw [leading]
  split
  · exact List.not_mem_nil
  · rw [List.mem_append, not_or]
    exact ⟨not_mem_commaList comma h, comma⟩

/-! ## Ends -/

theorem commaList_ne_nil (h : IsMember t) : commaList (t :: ts) ≠ [] := by
  rw [commaList_cons]
  exact List.append_ne_nil_of_left_ne_nil h.some_text _

/-- A list ends as its last member does. -/
theorem forall_mem_last {P : Char → Prop} (members : ∀ t ∈ ts, IsMember t)
    (h : ∀ t ∈ ts, ∀ c ∈ t.getLast?, P c) : ∀ c ∈ (commaList ts).getLast?, P c := by
  induction ts with
  | nil => exact fun _ h => nomatch h
  | cons t ts ih =>
    obtain ⟨-, members⟩ := List.forall_mem_cons.mp members
    obtain ⟨here, others⟩ := List.forall_mem_cons.mp h
    rw [commaList_cons]
    cases ts with
    | nil =>
      rw [show following [] = [] from rfl, List.append_nil]
      exact here
    | cons v ts =>
      have some_text : commaList (v :: ts) ≠ [] := commaList_ne_nil (members v List.mem_cons_self)
      rw [following_cons, ← commaList_cons, ← List.append_assoc,
        List.getLast?_append_of_ne_nil _ some_text]
      exact ih members others

theorem head?_commaList (h : IsMember t) : (commaList (t :: ts)).head? = t.head? := by
  obtain ⟨c, rest, same⟩ := List.exists_cons_of_ne_nil h.some_text
  rw [commaList_cons, same]
  rfl

theorem tight_commaList (members : ∀ t ∈ ts, IsMember t) : Text.Tight (commaList ts) where
  first := by
    cases ts with
    | nil => exact fun _ h => nomatch h
    | cons t ts =>
      have member := members t List.mem_cons_self
      rw [head?_commaList member]
      exact member.tight.first
  last := forall_mem_last members fun t ht => (members t ht).tight.last

/-- The rest of a list follows the comma behind its first member. -/
theorem trim_drop_following (members : ∀ t ∈ ts, IsMember t) :
    Text.trim ((following ts).drop 1) = commaList ts := by
  cases ts with
  | nil => rfl
  | cons t ts =>
    have word : ", ".toList = [',', ' '] := by decide
    rw [following_cons, ← commaList_cons, word]
    exact (Text.trim_cons_blank (by decide)).trans (tight_commaList members).trim_eq

/-! ## Cutting a list into its segments -/

theorem not_mem_fromLastBracket {x : Char} {s : List Char} (h : x ∉ s) : x ∉ fromLastBracket s := by
  rw [fromLastBracket]
  split
  · rename_i before rest cut
    rw [Text.eq_append_of_splitLast cut] at h
    exact fun inside => h (List.mem_append_right _ inside)
  · exact h

/-- Without a closing bracket there is no optional segment. -/
theorem cutOptional_eq {s : List Char} (h : ']' ∉ s) : cutOptional s = (s, []) := by
  cases cut : Text.splitFirst '[' s with
  | none => rw [cutOptional, cut]
  | some parts =>
    obtain ⟨before, rest⟩ := parts
    have open_only : ']' ∉ rest := by
      rw [Text.eq_append_of_splitFirst cut] at h
      exact fun inside => h (List.mem_append_right _ (List.mem_cons_of_mem _ inside))
    simp only [cutOptional, cut, Text.splitLast_of_not_mem open_only]

section Segments

variable (members : ∀ t ∈ ts, IsMember t) (ends : ∀ t ∈ ts, ∀ c ∈ t.getLast?, c ≠ ',')

include members ends

theorem dropComma_commaList : dropComma (commaList ts) = commaList ts :=
  if_neg fun comma => forall_mem_last members ends ',' comma rfl

/-- The comma behind the required members is cut off with the blank. -/
theorem dropComma_leading : dropComma (Text.trim (leading ts)) = commaList ts := by
  cases ts with
  | nil => rfl
  | cons t ts =>
    have word : ", ".toList = [','] ++ [' '] := by decide
    have whole := tight_commaList members
    have tight : Text.Tight (commaList (t :: ts) ++ [',']) := by
      refine ⟨?_, fun c hc => ?_⟩
      · rw [List.head?_append_of_ne_nil _ (commaList_ne_nil (members t List.mem_cons_self))]
        exact whole.first
      · rw [List.getLast?_concat, Option.mem_some_iff] at hc
        exact hc ▸ (by decide)
    have trimmed : Text.trim (leading (t :: ts)) = commaList (t :: ts) ++ [','] := by
      rw [leading, word, ← List.append_assoc]
      exact Text.trim_append_blank tight (by decide)
    rw [trimmed, dropComma, List.getLast?_concat, if_pos rfl, List.dropLast_concat, whole.trim_eq]

variable (no_brace : ∀ t ∈ ts, '{' ∉ t) (no_bracket : ∀ t ∈ ts, '[' ∉ t)

include no_brace no_bracket

theorem segments_required : segments (commaList ts) = ⟨commaList ts, [], []⟩ := by
  have uncut_brace : Text.splitFirst '{' (commaList ts) = none :=
    Text.splitFirst_of_not_mem (not_mem_commaList (by decide) no_brace)
  have uncut_bracket : Text.splitFirst '[' (commaList ts) = none :=
    Text.splitFirst_of_not_mem (not_mem_commaList (by decide) no_bracket)
  simp only [segments, cutNamed, uncut_brace, cutOptional, uncut_bracket,
    dropComma_commaList members ends]

/-- A segment in brackets is found if there is no brace in it. -/
theorem segments_optional {s : List Char} (tight : Text.Tight s) (unbraced : '{' ∉ s) :
    segments (leading ts ++ '[' :: (s ++ [']'])) = ⟨commaList ts, s, []⟩ := by
  have inner : '{' ∉ s ++ [']'] := by
    rw [List.mem_append, not_or]
    exact ⟨unbraced, by decide⟩
  have no_named : cutNamed (leading ts ++ '[' :: (s ++ [']'])) =
      (leading ts ++ '[' :: (s ++ [']']), []) := by
    have unbraced : '{' ∉ leading ts ++ '[' :: (s ++ [']']) := by
      rw [List.mem_append, List.mem_cons, not_or, not_or]
      exact ⟨not_mem_leading (by decide) no_brace, by decide, inner⟩
    simp only [cutNamed, Text.splitFirst_of_not_mem unbraced]
  have optional : cutOptional (leading ts ++ '[' :: (s ++ [']'])) =
      (Text.trim (leading ts), Text.trim s) := by
    have bracket := Text.splitFirst_append (not_mem_leading (by decide) no_bracket) (s ++ [']'])
    have closed : Text.splitLast ']' (s ++ [']']) = some (s, []) :=
      Text.splitLast_append List.not_mem_nil _
    simp only [cutOptional, bracket, closed]
    exact if_neg fun h => inner (List.contains_iff_mem.mp h)
  simp only [segments, no_named, optional, dropComma_leading members ends, tight.trim_eq]

/-- A segment in braces is found, whatever stands in it. -/
theorem segments_named {s : List Char} (tight : Text.Tight s) (unclosed : ∀ t ∈ ts, '}' ∉ t) :
    segments (leading ts ++ '{' :: (s ++ ['}'])) = ⟨commaList ts, [], s⟩ := by
  have named : cutNamed (leading ts ++ '{' :: (s ++ ['}'])) =
      (Text.trim (leading ts), Text.trim s) := by
    have brace := Text.splitFirst_append (not_mem_leading (by decide) no_brace) (s ++ ['}'])
    have closed : Text.splitLast '}' (s ++ ['}']) = some (s, []) :=
      Text.splitLast_append List.not_mem_nil _
    have uncut : Text.splitLast '[' (leading ts) = none :=
      Text.splitLast_of_not_mem (not_mem_leading (by decide) no_bracket)
    simp only [cutNamed, brace, closed, fromLastBracket, uncut]
    exact if_neg fun h => not_mem_leading (by decide) unclosed (List.contains_iff_mem.mp h)
  have no_optional : cutOptional (Text.trim (leading ts)) = (Text.trim (leading ts), []) := by
    have unopened : '[' ∉ Text.trim (leading ts) := fun h =>
      not_mem_leading (by decide) no_bracket (Text.mem_of_mem_trim h)
    simp only [cutOptional, Text.splitFirst_of_not_mem unopened]
  simp only [segments, named, no_optional, dropComma_leading members ends, tight.trim_eq]

end Segments

/-- Braces in a segment in brackets make what stands before them required, and what stands in them
named. -/
theorem segments_braced {before inner after : List Char}
    (unopened : ∀ x ∈ ['{', '}', ']'], (∀ t ∈ ts, x ∉ t) ∧ x ∉ before) (last : '}' ∉ after) :
    segments (leading ts ++ '[' :: (before ++ '{' :: (inner ++ '}' :: after) ++ [']'])) =
      ⟨dropComma (Text.trim (leading ts ++ '[' :: before)), [], Text.trim inner⟩ := by
  have free : ∀ x ∈ ['{', '}', ']'], x ∉ leading ts ++ '[' :: before := by
    intro x hx
    have separators : ∀ x ∈ ['{', '}', ']'], x ∉ ", ".toList ∧ x ≠ '[' := by decide
    obtain ⟨comma, bracket⟩ := separators x hx
    obtain ⟨required, further⟩ := unopened x hx
    rw [List.mem_append, List.mem_cons, not_or, not_or]
    exact ⟨not_mem_leading comma required, bracket, further⟩
  have split : leading ts ++ '[' :: (before ++ '{' :: (inner ++ '}' :: after) ++ [']']) =
      (leading ts ++ '[' :: before) ++ '{' :: (inner ++ '}' :: (after ++ [']'])) := by
    simp
  have brace := Text.splitFirst_append (free '{' (by decide)) (inner ++ '}' :: (after ++ [']']))
  have closed : Text.splitLast '}' (inner ++ '}' :: (after ++ [']'])) =
      some (inner, after ++ [']']) := by
    refine Text.splitLast_append ?_ inner
    rw [List.mem_append, not_or]
    exact ⟨last, by decide⟩
  have closes : (fromLastBracket (leading ts ++ '[' :: before)).contains '}' = false := by
    simpa using not_mem_fromLastBracket (free '}' (by decide))
  have none_optional : cutOptional (Text.trim (leading ts ++ '[' :: before)) =
      (Text.trim (leading ts ++ '[' :: before), []) :=
    cutOptional_eq fun h => free ']' (by decide) (Text.mem_of_mem_trim h)
  simp only [segments, split, cutNamed, brace, closed, closes, Bool.false_eq_true, if_false,
    none_optional]

/-- A list with a bracketed segment at its end has no blanks around it. -/
theorem tight_bracketed (members : ∀ t ∈ ts, IsMember t) {x y : Char} {s : List Char}
    (hx : Text.isBlank x = false) (hy : Text.isBlank y = false) :
    Text.Tight (leading ts ++ x :: (s ++ [y])) where
  first := by
    cases ts with
    | nil => exact forall_mem_head?_cons hx
    | cons t ts =>
      have some_text : commaList (t :: ts) ≠ [] := commaList_ne_nil (members t List.mem_cons_self)
      rw [leading, List.isEmpty_cons, if_neg Bool.false_ne_true, List.append_assoc,
        List.head?_append_of_ne_nil _ some_text]
      exact (tight_commaList members).first
  last c hc := by
    rw [← List.cons_append, ← List.append_assoc, List.getLast?_concat, Option.mem_some_iff] at hc
    exact hc ▸ hy

/-- A last member in brackets stands behind the required ones. -/
theorem commaList_bracketed (last : List Char) :
    commaList (ts ++ [last]) = leading ts ++ last :=
  Text.joinWith_concat _ _ _

/-! ## Reading a list -/

/-- The parentheses around a list are found, whatever stands before them. -/
theorem content?_eq {head s : List Char} (h : '(' ∉ head) :
    content? (head ++ '(' :: (s ++ [')'])) = some s := by
  have inner : Text.splitLast ')' (s ++ [')']) = some (s, []) :=
    Text.splitLast_append List.not_mem_nil s
  rw [content?, Text.splitFirst_append h]
  show (Text.splitLast ')' (s ++ [')'])).bind (fun p => some p.1) = some s
  rw [inner]
  rfl

theorem parse?_of_segments {head s a b d : List Char} (h : '(' ∉ head) (tight : Text.Tight s)
    (cut : segments s = ⟨a, b, d⟩) : parse? (head ++ '(' :: (s ++ [')'])) =
      some (slots .required a ++ slots .optional b ++ slots .named d) := by
  rw [parse?, content?_eq h]
  show some (slots .required (segments (Text.trim s)).required ++
    slots .optional (segments (Text.trim s)).optional ++
    slots .named (segments (Text.trim s)).named) = _
  rw [tight.trim_eq, cut]

theorem slots_of_tight {kind : SlotKind} {s : List Char} (tight : Text.Tight s) :
    slots kind s = if s.isEmpty then [] else slotsOf kind s := by
  rw [slots, tight.trim_eq]

theorem slots_commaList {kind : SlotKind} (members : ∀ t ∈ ts, IsMember t) (member : IsMember t) :
    slots kind (commaList (t :: ts)) = slotsOf kind (t ++ following ts) := by
  have tight := tight_commaList (List.forall_mem_cons.mpr ⟨member, members⟩)
  have some_text : (commaList (t :: ts)).isEmpty = false :=
    List.isEmpty_eq_false_iff.mpr (commaList_ne_nil member)
  rw [slots_of_tight tight, some_text, if_neg Bool.false_ne_true, commaList_cons]

/-- A parameter is read off its slot, and then the others off the rest. -/
theorem slotsOf_step {kind : SlotKind} {p : Parameter} {stop : Cursor} (some_text : t ≠ [])
    (reads : ReadsOff kind t tail p stop) :
    slotsOf kind (t ++ tail) = p :: slots kind (tail.drop 1) := by
  -- the slot takes characters, so the reader goes on
  have shorter : (Text.trim (afterSlot stop)).length < (t ++ tail).length := by
    have trimmed := Text.length_trim_le (tail.drop 1)
    have some_length := List.length_pos_iff.mpr some_text
    rw [reads.after, List.length_append]
    rw [List.length_drop] at trimmed
    omega
  rw [slotsOf, reads.read]
  show (if _ : 0 < stop.offset ∧
      (Text.trim (afterSlot stop)).length < (t ++ tail).length then _ else _) = _
  rw [dif_pos ⟨reads.taken, shorter⟩, reads.after]
  rfl

theorem slots_following {kind : SlotKind} (members : ∀ t ∈ ts, IsMember t) :
    slots kind ((following ts).drop 1) = slots kind (commaList ts) := by
  rw [slots, trim_drop_following members, slots_of_tight (tight_commaList members)]

end CodeAtlas.Parameters
