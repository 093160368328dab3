import CodeAtlas.Proofs.Runs
import CodeAtlas.Proofs.SegmentFlags
import CodeAtlas.Proofs.Slices

/-!
The loop over the slots of a segment. A round takes the bytes of a slot off the text that is left
(`round?`); where a cut falls within a character the loop fails. A slot takes a comma at its end or all
of the text (`exists_taken`), so a round never fails, never takes nothing and finds no comma to skip
behind a slot (`round_progress`), and a run has one round more than the text has commas at most
(`SlotRun.length_le`). The segments of a declaration share its commas (`count_segments_le`).
-/
namespace CodeAtlas.Parameters

open Pattern

variable {kind : SlotKind} {left taken behind s a b : List Char} {c d stop : Cursor}
  {p : Parameter} {ps qs : List Parameter} {n : Nat} {x : Char}

/-! ## Where a slot ends -/

/-- Whether a place lies behind a comma that was taken on the way there, or at the end of the text. -/
def StopsAt (c d : Cursor) : Prop :=
  ∃ taken, c.rest = taken ++ d.rest ∧ d.offset = c.offset + taken.length ∧
    (taken.getLast? = some ',' ∧ d.before = some ',' ∨ d.rest = [])

theorem StopsAt.after {body : Pattern} {e : Cursor} (first : body.Reaches c e)
    (h : StopsAt e d) : StopsAt c d := by
  obtain ⟨lead, here, far⟩ := first.exists_read
  obtain ⟨taken, there, farther, ends⟩ := h
  refine ⟨lead ++ taken, by rw [here, there, List.append_assoc], ?_, ?_⟩
  · rw [farther, far, List.length_append, Nat.add_assoc]
  · refine ends.imp_left fun ⟨last, before⟩ => ⟨?_, before⟩
    rw [List.getLast?_append, last, Option.some_or]

theorem stopsAt_of_closing (h : (char ',' <|> textEnd).Reaches c d) : StopsAt c d := by
  rcases h with comma | ⟨empty, rfl⟩
  · obtain ⟨rest, here, rfl⟩ := reaches_char comma
    exact ⟨[','], here, rfl, .inl ⟨rfl, rfl⟩⟩
  · exact ⟨[], rfl, rfl, .inr (List.isEmpty_iff.mp empty)⟩

theorem stopsAt_of_slotEnd (h : slotEnd.Reaches c d) : StopsAt c d := by
  obtain ⟨e, default, closing⟩ := h
  exact .after default (stopsAt_of_closing closing)

theorem stopsAt_of_atStart {body ending : Pattern}
    (ends : ∀ c d, ending.Reaches c d → StopsAt c d)
    (h : (body ++ ending).atStart s = some stop) : StopsAt (.ofText s) stop := by
  obtain ⟨d, ⟨e, first, last⟩, same⟩ := exists_reaches_of_run h
  cases same
  exact .after first (ends e stop last)

/-- A slot of any shape takes a comma at its end, or all of the text. -/
theorem stopsAt_of_slot? (h : slot? kind s = some (p, stop)) : StopsAt (.ofText s) stop := by
  unfold slot? at h
  split at h
  · rename_i field
    cases h
    exact stopsAt_of_atStart (fun _ _ => stopsAt_of_slotEnd) field
  · split at h
    · rename_i typed
      cases h
      rcases atStart_of_typedStop? typed with found | found
      · exact stopsAt_of_atStart (fun _ _ => stopsAt_of_slotEnd) found
      · exact stopsAt_of_atStart (fun _ _ => stopsAt_of_slotEnd) found
    · obtain ⟨stop, lone, same⟩ := Option.map_eq_some_iff.mp h
      cases same
      exact stopsAt_of_atStart (fun _ _ => stopsAt_of_closing) lone

/-- What a slot takes of a text, and that no comma is left to be skipped behind it. -/
theorem exists_taken (some_text : s ≠ []) (h : slot? kind s = some (p, stop)) :
    ∃ taken, s = taken ++ stop.rest ∧ taken ≠ [] ∧ stop.offset = taken.length ∧
      (taken.getLast? = some ',' ∨ stop.rest = []) ∧ afterSlot stop = stop.rest := by
  obtain ⟨taken, here, far, ends⟩ := stopsAt_of_slot? h
  have here : s = taken ++ stop.rest := here
  have far : stop.offset = taken.length := far.trans (Nat.zero_add _)
  refine ⟨taken, here, ?_, far, ends.imp_left And.left, ?_⟩
  · rintro rfl
    rcases ends with ⟨none_taken, -⟩ | all
    · cases none_taken
    · exact some_text (here.trans all)
  · rcases ends with ⟨-, before⟩ | all
    · rw [afterSlot, before]
      rfl
    · rw [afterSlot, all]
      simp

/-! ## Rounds -/

/-- The parameter that a round of the loop records, and how many bytes it takes off the text that is
left; none where the loop ends. -/
def round? (kind : SlotKind) (left : List Char) : Option (Parameter × Nat) :=
  if left.isEmpty then none
  else do
    let (parameter, stop) ← slot? kind left
    let matched := left.take stop.offset
    let consumed := byteLength matched
    if consumed = 0 then none
    else if matched.getLast? ≠ some ',' ∧ (left.drop stop.offset).head? = some ',' then
      return (parameter, consumed + 1)
    else return (parameter, consumed)

/-- A run of the loop to its end, with the parameters that it records. -/
inductive SlotRun (kind : SlotKind) : List Char → List Parameter → Prop
  | stop {left : List Char} (ends : round? kind left = none) : SlotRun kind left []
  | more {left taken behind : List Char} {p : Parameter} {ps : List Parameter} {n : Nat}
      (round : round? kind left = some (p, n)) (cut : cutAtByte? left n = some (taken, behind))
      (rest : SlotRun kind (Text.trim behind) ps) : SlotRun kind left (p :: ps)

theorem byteLength_ne_zero (some_text : s ≠ []) : byteLength s ≠ 0 := by
  obtain ⟨c, s, rfl⟩ := List.exists_cons_of_ne_nil some_text
  have filled := c.utf8Size_pos
  rw [byteLength_cons]
  omega

/-- A round takes what the slot takes. -/
theorem round?_of_slot? (some_text : left ≠ []) (h : slot? kind left = some (p, stop)) :
    ∃ taken, left = taken ++ stop.rest ∧ taken ≠ [] ∧
      (taken.getLast? = some ',' ∨ stop.rest = []) ∧ afterSlot stop = stop.rest ∧
      0 < stop.offset ∧ round? kind left = some (p, byteLength taken) := by
  obtain ⟨taken, here, some_taken, far, ends, after⟩ := exists_taken some_text h
  refine ⟨taken, here, some_taken, ends, after, far ▸ List.length_pos_iff.mpr some_taken, ?_⟩
  have matched : left.take stop.offset = taken := by rw [here, far, List.take_left]
  have behind : left.drop stop.offset = stop.rest := by
    conv_lhs => rw [here, far, List.drop_left]
  have nothing_skipped : ¬(taken.getLast? ≠ some ',' ∧ stop.rest.head? = some ',') := by
    rintro ⟨no_comma, comma⟩
    rcases ends with last | all
    · exact no_comma last
    · rw [all] at comma
      cases comma
  rw [round?, if_neg (mt List.isEmpty_iff.mp some_text), h]
  simp only [Option.bind_eq_bind, Option.bind_some, matched, behind,
    if_neg (byteLength_ne_zero some_taken), if_neg nothing_skipped]
  rfl

/-- A round that records a parameter takes characters off the text, all of it or up to a comma. -/
theorem round_progress (h : round? kind left = some (p, n)) :
    ∃ taken behind, cutAtByte? left n = some (taken, behind) ∧ left = taken ++ behind ∧ taken ≠ [] ∧
      (taken.getLast? = some ',' ∨ behind = []) := by
  have round := h
  unfold round? at h
  split at h
  · cases h
  · rename_i filled
    obtain ⟨⟨p', stop⟩, found, -⟩ := Option.bind_eq_some_iff.mp h
    obtain ⟨taken, here, some_taken, ends, -, -, same⟩ :=
      round?_of_slot? (mt List.isEmpty_iff.mpr filled) found
    cases round.symm.trans same
    exact ⟨taken, stop.rest, by rw [here, cutAtByte?_append], here, some_taken, ends⟩

theorem round?_eq_none (h : slot? kind left = none) : round? kind left = none := by
  rw [round?, h]
  split <;> rfl

theorem slotRun_nil : SlotRun kind [] [] := .stop rfl

/-! ## Runs -/

/-- The loop comes to its end, and the parameters are those that it records. -/
theorem slotRun_slotsOf (some_text : left ≠ []) : SlotRun kind left (slotsOf kind left) := by
  fun_induction slotsOf kind left with
  | case1 left none_found => exact .stop (round?_eq_none none_found)
  | case2 left p stop found rest _ ih =>
    obtain ⟨taken, here, -, -, after, -, round⟩ := round?_of_slot? some_text found
    have cut : cutAtByte? left (byteLength taken) = some (taken, stop.rest) := by
      rw [here, cutAtByte?_append]
    have behind : rest = Text.trim stop.rest := congrArg Text.trim after
    refine .more round cut ?_
    rw [← behind]
    split
    · rename_i empty
      rw [List.isEmpty_iff.mp empty]
      exact slotRun_nil
    · rename_i filled
      exact ih (mt List.isEmpty_iff.mpr filled)
  | case3 left p stop found rest stuck =>
    -- the bound on the rest holds of every slot
    obtain ⟨taken, here, some_taken, -, after, far, -⟩ := round?_of_slot? some_text found
    have shorter : rest.length < left.length := by
      have trimmed := Text.length_trim_le stop.rest
      have some_length := List.length_pos_iff.mpr some_taken
      rw [here, List.length_append, show rest = Text.trim stop.rest from congrArg Text.trim after]
      omega
    exact absurd ⟨far, shorter⟩ stuck

theorem slotRun_slots (kind : SlotKind) (segment : List Char) :
    SlotRun kind (Text.trim segment) (slots kind segment) := by
  unfold slots
  dsimp only
  split
  · rename_i empty
    rw [List.isEmpty_iff.mp empty]
    exact slotRun_nil
  · rename_i filled
    exact slotRun_slotsOf (mt List.isEmpty_iff.mpr filled)

theorem SlotRun.unique (h : SlotRun kind left ps) (h' : SlotRun kind left qs) : ps = qs := by
  induction h generalizing qs with
  | stop ends =>
    cases h' with
    | stop => rfl
    | more round => cases ends.symm.trans round
  | more round cut _ ih =>
    cases h' with
    | stop ends => cases ends.symm.trans round
    | more round' cut' rest' =>
      cases round.symm.trans round'
      cases cut.symm.trans cut'
      rw [ih rest']

/-! ## Commas -/

theorem count_trim_le (x : Char) (s : List Char) : (Text.trim s).count x ≤ s.count x := by
  obtain ⟨l, r, whole, -, -⟩ := Text.exists_blanks_around s
  have all := congrArg (List.count x) whole
  simp only [List.count_append] at all
  omega

/-- All rounds but the last take a comma. -/
theorem SlotRun.length_le (h : SlotRun kind left ps) : ps.length ≤ left.count ',' + 1 := by
  induction h with
  | stop => exact Nat.zero_le _
  | @more left taken behind p ps n round cut rest ih =>
    obtain ⟨taken', behind', cut', here, -, ends⟩ := round_progress round
    cases cut.symm.trans cut'
    rcases ends with comma | rfl
    · have some_comma : 0 < taken.count ',' := List.count_pos_iff.mpr (List.mem_of_getLast? comma)
      have trimmed := count_trim_le ',' behind
      rw [here, List.count_append, List.length_cons]
      omega
    · -- nothing is left for another round
      rw [rest.unique slotRun_nil]
      exact Nat.le_add_left 1 _

theorem length_slots_le (kind : SlotKind) (segment : List Char) :
    (slots kind segment).length ≤ segment.count ',' + 1 :=
  (slotRun_slots kind segment).length_le.trans
    (Nat.add_le_add_right (count_trim_le ',' segment) 1)

/-- Of two texts and two marks around the second, the text that is cut has the characters. -/
theorem count_cut_le {y z : Char} {tail : List Char} (x : Char)
    (h : s = a ++ y :: (b ++ z :: tail)) :
    (Text.trim a).count x + (Text.trim b).count x ≤ s.count x := by
  have before := count_trim_le x a
  have inside := count_trim_le x b
  simp only [h, List.count_append, List.count_cons]
  omega

theorem count_cutNamed_le (x : Char) (s : List Char) :
    (cutNamed s).1.count x + (cutNamed s).2.count x ≤ s.count x := by
  unfold cutNamed
  split
  · simp
  · rename_i before rest opened
    split
    · simp
    · rename_i inner tail closed
      split
      · simp
      · have here : s = before ++ '{' :: (inner ++ '}' :: tail) := by
          rw [Text.eq_append_of_splitFirst opened, Text.eq_append_of_splitLast closed]
        exact count_cut_le x here

theorem count_cutOptional_le (x : Char) (s : List Char) :
    (cutOptional s).1.count x + (cutOptional s).2.count x ≤ s.count x := by
  unfold cutOptional
  split
  · simp
  · rename_i before rest opened
    split
    · simp
    · rename_i inner tail closed
      split
      · simp
      · have here : s = before ++ '[' :: (inner ++ ']' :: tail) := by
          rw [Text.eq_append_of_splitFirst opened, Text.eq_append_of_splitLast closed]
        exact count_cut_le x here

theorem count_dropComma_le (x : Char) (s : List Char) : (dropComma s).count x ≤ s.count x := by
  unfold dropComma
  split
  · exact (count_trim_le x s.dropLast).trans ((List.dropLast_sublist s).count_le x)
  · exact Nat.le_refl _

/-- No character of a parameter list stands in two of its segments. -/
theorem count_segments_le (x : Char) (content : List Char) :
    (segments content).required.count x + (segments content).optional.count x +
      (segments content).named.count x ≤ content.count x := by
  have named := count_cutNamed_le x content
  have optional := count_cutOptional_le x (cutNamed content).1
  have required := count_dropComma_le x (cutOptional (cutNamed content).1).1
  show (dropComma (cutOptional (cutNamed content).1).1).count x +
    (cutOptional (cutNamed content).1).2.count x + (cutNamed content).2.count x ≤ _
  omega

theorem count_content?_le {detail content : List Char} (h : content? detail = some content) :
    content.count x ≤ detail.count x := by
  obtain ⟨⟨head, rest⟩, opened, h⟩ := Option.bind_eq_some_iff.mp h
  obtain ⟨⟨inner, tail⟩, closed, same⟩ := Option.bind_eq_some_iff.mp h
  cases same
  rw [Text.eq_append_of_splitFirst opened, Text.eq_append_of_splitLast closed]
  simp only [List.count_append, List.count_cons]
  omega

theorem length_parse?_le {detail : List Char} (h : parse? detail = some ps) :
    ps.length ≤ detail.count ',' + 3 := by
  obtain ⟨content, found, same⟩ := Option.bind_eq_some_iff.mp h
  cases same
  have outer := count_content?_le (x := ',') found
  have trimmed := count_trim_le ',' content
  have shared := count_segments_le ',' (Text.trim content)
  have required := length_slots_le .required (segments (Text.trim content)).required
  have optional := length_slots_le .optional (segments (Text.trim content)).optional
  have named := length_slots_le .named (segments (Text.trim content)).named
  rw [List.length_append, List.length_append]
  omega

/-- The loop over a segment ends on every text, and the parameters are those that it has recorded. A
round that records one takes characters off the text that is left, as a whole number of characters. So
there is one parameter more than commas at most, and in a declaration there are three more. -/
theorem slots_progress :
    (∀ kind segment ps, SlotRun kind (Text.trim segment) ps ↔ ps = slots kind segment) ∧
    (∀ kind left p n, round? kind left = some (p, n) →
      ∃ taken behind, cutAtByte? left n = some (taken, behind) ∧ left = taken ++ behind ∧
        taken ≠ [] ∧ (Text.trim behind).length < left.length) ∧
    (∀ kind segment, (slots kind segment).length ≤ segment.count ',' + 1) ∧
    ∀ detail ps, parse? detail = some ps → ps.length ≤ detail.count ',' + 3 := by
  refine ⟨fun kind segment ps => ⟨fun h => h.unique (slotRun_slots kind segment), ?_⟩, ?_,
    length_slots_le, fun _ _ => length_parse?_le⟩
  · rintro rfl
    exact slotRun_slots kind segment
  · intro kind left p n round
    obtain ⟨taken, behind, cut, here, some_taken, -⟩ := round_progress round
    refine ⟨taken, behind, cut, here, some_taken, ?_⟩
    have trimmed := Text.length_trim_le behind
    have some_length := List.length_pos_iff.mpr some_taken
    rw [here, List.length_append]
    omega

/-- The first of two slots is cut off with its comma; the second needs none. -/
theorem slots_progress_pair :
    round? .required "int é, b".toList = some ({ type := "int", name := some "é" }, 7) ∧
      (∃ taken behind, cutAtByte? "int é, b".toList 7 = some (taken, behind) ∧
        "int é, b".toList = taken ++ behind ∧ taken ≠ [] ∧
        (Text.trim behind).length < "int é, b".toList.length) ∧
      parse? "f(int é, b)".toList = some [{ type := "int", name := some "é" },
        { type := "dynamic", name := some "b" }] ∧
      2 ≤ "f(int é, b)".toList.count ',' + 3 := by
  have round : round? .required "int é, b".toList =
      some ({ type := "int", name := some "é" }, 7) := by decide +kernel
  have read : parse? "f(int é, b)".toList = some [{ type := "int", name := some "é" },
      { type := "dynamic", name := some "b" }] := by decide +kernel
  obtain ⟨-, cuts, -, bound⟩ := slots_progress
  exact ⟨round, cuts _ _ _ _ round, read, bound _ _ read⟩

end CodeAtlas.Parameters
