import CodeAtlas.Enrichment.Steps
import CodeAtlas.Proofs.Cutting
import CodeAtlas.Proofs.Matching

/-!
The flags of parameters. A parameter list is read segment by segment, and a parameter has the flags
of the segment that it stands in (`flagged_of_slot?`), with one exception: an optional parameter
that sets a field is not marked as optional (`field_unmarked`). Such a parameter is known by its
type, which no type that is written out looks like (`selfFieldOf?_of_colonless`).
-/
namespace CodeAtlas.Parameters

open Pattern

variable {kind : SlotKind} {segment type : List Char} {c d stop : Cursor} {p : Parameter}

/-! ## Types that are no fields -/

/-- A type without a colon before its first parenthesis. -/
def Colonless (type : List Char) : Prop :=
  ':' ∉ type ∨ ∃ lead rest, type = lead ++ '(' :: rest ∧ ':' ∉ lead

/-- The mark of a field has a colon, so such a type does not begin with it. -/
theorem selfFieldOf?_of_colonless (h : Colonless type)
    (same : p.type = String.ofList (Text.squeeze type)) : Enrichment.selfFieldOf? p = none := by
  rw [Enrichment.selfFieldOf?, Option.map_eq_none_iff, same, String.toList_ofList]
  refine Option.eq_none_iff_forall_ne_some.mpr fun rest marked => ?_
  have unblank : ∀ c ∈ selfFieldMark.toList, Text.isBlank c = false := by decide
  obtain ⟨blanks, more, whole, blank⟩ :=
    Text.exists_of_squeeze unblank (Text.eq_append_of_dropStart? marked)
  have colon : ':' ∈ blanks ++ selfFieldMark.toList := List.mem_append_right _ (by decide)
  rw [← List.append_assoc] at whole
  rcases h with none_at_all | ⟨lead, inner, parenthesis, free⟩
  · exact none_at_all (whole ▸ List.mem_append_left _ colon)
  · have unopened : '(' ∉ blanks ++ selfFieldMark.toList := by
      rw [List.mem_append, not_or]
      exact ⟨fun h => absurd (blank _ h) (by decide), by decide⟩
    obtain ⟨between, ahead, -⟩ :=
      Text.exists_of_piece_before (parenthesis.symm.trans whole) unopened
    exact free (ahead ▸ List.mem_append_left _ colon)

theorem selfFieldOf?_selfField (field : List Char) (isNamed : Bool) :
    Enrichment.selfFieldOf? (selfField field isNamed) = some (String.ofList field) := by
  rw [Enrichment.selfFieldOf?, selfField, String.toList_append, String.toList_ofList,
    Text.dropStart?_append, Option.map_some]

/-! ## What the patterns read as a type -/

/-- The parenthesis of a function type stands before any colon. -/
theorem colonless_functionType {within : Pattern} {piece : List Char}
    (h : (returnPart ++ functionWord within).Reaches c d) (here : c.rest = piece ++ d.rest) :
    Colonless piece := by
  obtain ⟨e, result, e₅, ⟨e₄, ⟨e₃, ⟨e₂, called, opened⟩, inner⟩, gapped⟩, mark⟩ := h
  have blank_free : blank.Avoids ':' := (by decide : Text.isBlank ':' = false)
  have text_free : (textOr "$<>?,.[]").Avoids ':' :=
    (by decide : (Text.isWord ':' || Text.isBlank ':' || "$<>?,.[]".toList.contains ':') = false)
  have avoids : (returnPart ++ (word "Function" ++ blanks)).Avoids ':' :=
    And.intro (And.intro (And.intro (And.intro text_free text_free)
      (And.intro blank_free blank_free)) trivial) (And.intro (avoids_lit (by decide)) blank_free)
  have before : (returnPart ++ (word "Function" ++ blanks)).Reaches c e₂ := ⟨e, result, called⟩
  obtain ⟨lead, there, free⟩ := before.exists_piece avoids
  obtain ⟨rest, parenthesis, rfl⟩ := reaches_char opened
  have behind : d.rest <:+ rest := (mark.suffix.trans gapped.suffix).trans inner.suffix
  obtain ⟨inside, rfl⟩ := behind
  rw [there, parenthesis, ← List.cons_append, ← List.append_assoc] at here
  exact .inr ⟨lead, inside, (List.append_cancel_right here).symm, free⟩

/-- The type of a slot with a name is what its group for types holds. -/
theorem colonless_of_captured {lead body : Pattern}
    (h : (lead ++ group 2 body ++ slotName 3 ++ slotEnd).Reaches c stop)
    (free : ∀ c d piece, body.Reaches c d → c.rest = piece ++ d.rest → Colonless piece) :
    Colonless (stop.group 2) := by
  obtain ⟨named, ⟨typed, ⟨start, -, captured⟩, name⟩, ended⟩ := h
  obtain ⟨d, piece, inner, here, -, held⟩ := captured.exists_captured
  have kept : stop.group? 2 = some piece := by
    rw [ended.group?_eq (by decide), name.group?_eq (by decide), held]
  rw [Cursor.group, kept, Option.getD_some]
  exact free _ _ _ inner here

theorem atStart_of_typedStop? (h : typedStop? segment = some stop) :
    functionSlot.atStart segment = some stop ∨ typedSlot.atStart segment = some stop := by
  unfold typedStop? at h
  split at h
  · rename_i found
    split at h
    · cases h
    · cases h
      cases function : functionSlot.atStart segment with
      | some stop => exact .inl (by simpa [function] using found)
      | none => exact .inr (by simpa [function] using found)
  · cases h

theorem colonless_of_typedStop? (h : typedStop? segment = some stop) :
    Colonless (stop.group 2) := by
  rcases atStart_of_typedStop? h with function | typed
  · obtain ⟨d, reached, same⟩ := exists_reaches_of_run function
    cases same
    exact colonless_of_captured reached fun c d piece => colonless_functionType
  · obtain ⟨d, reached, same⟩ := exists_reaches_of_run typed
    cases same
    refine colonless_of_captured reached fun c d piece inner here => ?_
    rcases inner with letters | function
    · have letter : (textOr "$.<>?[](),'").Avoids ':' :=
        (by decide : (Text.isWord ':' || Text.isBlank ':' ||
          "$.<>?[](),'".toList.contains ':') = false)
      have avoids : (lazyPlus (textOr "$.<>?[](),'")).Avoids ':' := And.intro letter letter
      exact .inl (letters.not_mem avoids here)
    · -- without a return type
      have bare : (returnPart ++ functionWord (withinParens true)).Reaches c d :=
        ⟨c, .inr rfl, function⟩
      exact colonless_functionType bare here

theorem colonless_of_loneSlot (h : loneSlot.atStart segment = some stop) :
    Colonless (stop.group 1) := by
  obtain ⟨d, ⟨e, ⟨e', ⟨start, -, captured⟩, gapped⟩, ended⟩, same⟩ := exists_reaches_of_run h
  cases same
  obtain ⟨d, piece, inner, here, -, held⟩ := captured.exists_captured
  have kept : stop.group? 1 = some piece := by
    rw [ended.group?_eq (by decide), gapped.group?_eq (by decide), held]
  rw [Cursor.group, kept, Option.getD_some]
  have other {x : Char} (h : (':' == x) = false) : (char x).Avoids ':' := h
  have ident : identChar.Avoids ':' := (by decide : Text.isIdentPart ':' = false)
  have argument : (textOr "$,<>?").Avoids ':' :=
    (by decide : (Text.isWord ':' || Text.isBlank ':' || "$,<>?".toList.contains ':') = false)
  have question : (opt (char '?')).Avoids ':' := And.intro (other (by decide)) trivial
  have arguments : typeArguments.Avoids ':' :=
    ⟨⟨⟨⟨other (by decide), argument, argument⟩,
      ⟨⟨other (by decide), argument, argument⟩, other (by decide)⟩, trivial⟩, question⟩,
      other (by decide)⟩
  have letter : (wordOr "$.").Avoids ':' :=
    (by decide : (Text.isWord ':' || "$.".toList.contains ':') = false)
  rcases inner with token | function | letters
  · have avoids : (plus identChar ++ opt typeArguments ++ opt (char '?')).Avoids ':' :=
      ⟨⟨⟨ident, ident⟩, arguments, trivial⟩, question⟩
    exact .inl (token.not_mem avoids here)
  · exact colonless_functionType function here
  · have avoids : (plus (wordOr "$.")).Avoids ':' := And.intro letter letter
    exact .inl (letters.not_mem avoids here)

/-! ## Flags -/

/-- The flags of a parameter that is read in a segment. -/
structure Flagged (kind : SlotKind) (p : Parameter) : Prop where
  isNamed : p.isNamed = decide (kind = .named)
  isRequired : p.isRequired → kind = .named
  isOptional : p.isOptionalPositional =
    (decide (kind = .optional) && (Enrichment.selfFieldOf? p).isNone)

theorem Flagged.unrequired (flags : Flagged kind p) (other : kind ≠ .named) :
    p.isRequired = false :=
  Bool.eq_false_iff.mpr fun required => other (flags.isRequired required)

/-- One case for each shape of a slot. -/
theorem flagged_of_slot? (h : slot? kind segment = some (p, stop)) : Flagged kind p := by
  unfold slot? at h
  split at h
  · -- a slot that sets a field does not ask for the segment it stands in
    cases h
    have field : Enrichment.selfFieldOf? (ofFieldSlot kind stop) =
        some (String.ofList (Text.trim (stop.group 2))) :=
      selfFieldOf?_selfField (Text.trim (stop.group 2)) (kind = .named)
    refine ⟨rfl, fun required => ?_, ?_⟩
    · exact of_decide_eq_true (Bool.and_eq_true_iff.mp required).1
    · rw [field, Option.isNone_some, Bool.and_false]
      rfl
  · split at h
    · rename_i typed
      cases h
      have no_field : Enrichment.selfFieldOf? (ofTypedSlot kind stop) = none :=
        selfFieldOf?_of_colonless (colonless_of_typedStop? typed) rfl
      refine ⟨rfl, fun required => ?_, ?_⟩
      · exact of_decide_eq_true (Bool.and_eq_true_iff.mp required).1
      · rw [no_field, Option.isNone_none, Bool.and_true]
        rfl
    · obtain ⟨stop, lone, same⟩ := Option.map_eq_some_iff.mp h
      cases same
      refine ⟨rfl, fun required => ?_, ?_⟩
      · exact of_decide_eq_true (Bool.and_eq_true_iff.mp required).1
      · cases kind with
        | required => rfl
        | named => rfl
        | optional =>
          have no_field : Enrichment.selfFieldOf? (ofLoneSlot .optional segment stop) = none :=
            selfFieldOf?_of_colonless (colonless_of_loneSlot lone) rfl
          rw [no_field, Option.isNone_none, Bool.and_true]
          rfl

theorem flagged_of_mem_slots (hp : p ∈ slots kind segment) : Flagged kind p :=
  forall_mem_slots (fun _ _ _ => flagged_of_slot?) segment p hp

/-! ## Whole lists -/

/-- The segments of the parameter list that a declaration states, if it states one. -/
def segmentsOf? (detail : List Char) : Option Segments :=
  (content? detail).map fun content => segments (Text.trim content)

/-- A parameter list is what is read of its required, its optional and its named segment. Each
parameter has the flags of its segment, but for the optional ones that set a field: these have no
flag at all. -/
theorem flags_follow_segments (detail : List Char) :
    (parse? detail = (segmentsOf? detail).map fun s =>
      slots .required s.required ++ slots .optional s.optional ++ slots .named s.named) ∧
    ∀ s, segmentsOf? detail = some s →
      (∀ p ∈ slots .required s.required,
        p.isNamed = false ∧ p.isRequired = false ∧ p.isOptionalPositional = false) ∧
      (∀ p ∈ slots .optional s.optional,
        p.isNamed = false ∧ p.isRequired = false ∧
          p.isOptionalPositional = (Enrichment.selfFieldOf? p).isNone) ∧
      (∀ p ∈ slots .named s.named, p.isNamed = true ∧ p.isOptionalPositional = false) := by
  constructor
  · rw [parse?, segmentsOf?, Option.map_map]
    cases content? detail <;> rfl
  · intro s _
    refine ⟨?_, ?_, ?_⟩
    · intro p hp
      have flags := flagged_of_mem_slots hp
      exact ⟨flags.isNamed, flags.unrequired nofun, flags.isOptional⟩
    · intro p hp
      have flags := flagged_of_mem_slots hp
      exact ⟨flags.isNamed, flags.unrequired nofun, flags.isOptional⟩
    · intro p hp
      have flags := flagged_of_mem_slots hp
      exact ⟨flags.isNamed, flags.isOptional⟩

/-- Of two optional parameters the one that sets no field is marked as optional. -/
theorem flags_follow_segments_point :
    segmentsOf? "Point(int a, [this.x, int y])".toList =
        some ⟨"int a".toList, "this.x, int y".toList, []⟩ ∧
      { type := "int", name := some "y", isOptionalPositional := true } ∈
        slots .optional "this.x, int y".toList ∧
      (true = (Enrichment.selfFieldOf?
        { type := "int", name := some "y", isOptionalPositional := true }).isNone) := by
  have cut : segmentsOf? "Point(int a, [this.x, int y])".toList =
      some ⟨"int a".toList, "this.x, int y".toList, []⟩ := by decide +kernel
  have read : { type := "int", name := some "y", isOptionalPositional := true } ∈
      slots .optional "this.x, int y".toList := by decide +kernel
  have flags := (flags_follow_segments "Point(int a, [this.x, int y])".toList).2 _ cut
  exact ⟨cut, read, (flags.2.1 _ read).2.2⟩

/-- An optional parameter that sets a field is not marked as optional. -/
theorem field_unmarked :
    (segmentsOf? "Point([this.x])".toList).map Segments.optional = some "this.x".toList ∧
      parse? "Point([this.x])".toList =
        some [{ type := "self_field:x", name := some "x", isOptionalPositional := false }] := by
  decide +kernel

end CodeAtlas.Parameters
