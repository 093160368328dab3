import CodeAtlas.Proofs.Members
import CodeAtlas.Server.Message

/-!
The kinds of messages. Where no member of a message is written twice, its kind is told by which
members it has: the value of its text has an id and a method, an id alone, or a method alone
(`ofBody?_eq`). A member that is written twice spoils the kinds that know it, and so may turn a
message into one of a later kind.
-/
namespace CodeAtlas.Message

/-- The members that messages are made of. -/
def memberNames : List String := ["id", "method", "params", "result", "error"]

/-- A member that is there and not null. -/
def present? (v : Json) (key : String) : Option Json := (v.member? key).filter (!·.isNull)

/-- The name of the method, if there is a text for it. -/
def methodName? (v : Json) : Option String := (v.member? "method").bind Json.text?

/-- The parameters, null if there are none. -/
def paramsOf (v : Json) : Json := (v.member? "params").getD .null

/-- The message that a value is, by the members it has. -/
def ofValue? (v : Json) : Option Message :=
  match v.member? "id", methodName? v with
  | some id, some method => some (.request id method (paramsOf v))
  | some id, none => some (.response id (present? v "result") (present? v "error"))
  | none, some method => some (.notification method (paramsOf v))
  | none, none => none

/-- The value of the text that is the body of a frame. -/
def valueOf? (body : List UInt8) : Option Json := (Text.Utf8.decode? body).bind Json.parse?

/-- No member of a message is written twice. -/
def Distinct (members : List (String × Json)) : Prop :=
  ((members.filter fun m => memberNames.contains m.1).map Prod.fst).Nodup

instance (members : List (String × Json)) : Decidable (Distinct members) :=
  inferInstanceAs (Decidable (List.Nodup _))

variable {members : List (String × Json)}

theorem Distinct.known (h : Distinct members) {names : List String} (sub : names ⊆ memberNames) :
    ((members.filter fun m => names.contains m.1).map Prod.fst).Nodup := by
  refine h.sublist (List.Sublist.map _ ?_)
  refine List.monotone_filter_right _ fun m known => ?_
  exact List.contains_iff_mem.mpr (sub (List.contains_iff_mem.mp known))

theorem request?_eq (h : Distinct members) : request? (.object members) =
    match (Json.object members).member? "id", methodName? (.object members) with
    | some id, some method => some (.request id method (paramsOf (.object members)))
    | _, _ => none := by
  have known : ["id", "method", "params"] ⊆ memberNames := by decide
  obtain ⟨r, hr, -, found⟩ := Json.exists_record (h.known known)
  simp only [request?, hr, Option.bind_eq_bind, Option.bind_some, Json.Record.required,
    Json.Record.withDefault, methodName?, paramsOf]
  rw [found "id" (by decide), found "method" (by decide), found "params" (by decide)]
  cases (Json.object members).member? "id" <;>
    cases ((Json.object members).member? "method").bind Json.text? <;>
    cases (Json.object members).member? "params" <;> rfl

/-- A member that may be null or missing. -/
theorem withDefault_orNull (r : Json.Record) (key : String) :
    r.withDefault key none (Json.orNull? any?) = some ((r.get? key).filter (!·.isNull)) := by
  unfold Json.Record.withDefault
  rcases r.get? key with _ | j
  · rfl
  · cases j <;> rfl

theorem response?_eq (h : Distinct members) : response? (.object members) =
    ((Json.object members).member? "id").map fun id =>
      .response id (present? (.object members) "result") (present? (.object members) "error") := by
  have known : ["id", "result", "error"] ⊆ memberNames := by decide
  obtain ⟨r, hr, -, found⟩ := Json.exists_record (h.known known)
  simp only [response?, hr, Option.bind_eq_bind, Option.bind_some, Json.Record.required,
    withDefault_orNull, present?]
  rw [found "id" (by decide), found "result" (by decide), found "error" (by decide)]
  cases (Json.object members).member? "id" <;> rfl

theorem notification?_eq (h : Distinct members) : notification? (.object members) =
    (methodName? (.object members)).map fun method =>
      .notification method (paramsOf (.object members)) := by
  have known : ["method", "params"] ⊆ memberNames := by decide
  obtain ⟨r, hr, -, found⟩ := Json.exists_record (h.known known)
  simp only [notification?, hr, Option.bind_eq_bind, Option.bind_some, Json.Record.required,
    Json.Record.withDefault, methodName?, paramsOf]
  rw [found "method" (by decide), found "params" (by decide)]
  cases ((Json.object members).member? "method").bind Json.text? <;>
    cases (Json.object members).member? "params" <;> rfl

/-! ## Values -/

section

variable {j v : Json}

theorem methodName?_canonical (h : j.canonical? = some v) : methodName? v = methodName? j := by
  unfold methodName?
  cases written : j.member? "method" with
  | none => rw [Json.member?_canonical h, written, Option.bind_none]
  | some w =>
    obtain ⟨w', hw, found⟩ := Json.exists_member?_canonical h written
    rw [found, Option.bind_some, Option.bind_some, Json.text?_canonical hw]

theorem paramsOf_canonical (h : j.canonical? = some v) :
    (paramsOf j).canonical? = some (paramsOf v) := by
  unfold paramsOf
  cases written : j.member? "params" with
  | none => rw [Json.member?_canonical h, written]; rfl
  | some w =>
    obtain ⟨w', hw, found⟩ := Json.exists_member?_canonical h written
    rw [found]
    exact hw

theorem present?_canonical (h : j.canonical? = some v) (key : String) :
    (present? j key).mapM Json.canonical? = some (present? v key) := by
  unfold present?
  cases written : j.member? key with
  | none => rw [Json.member?_canonical h, written]; rfl
  | some w =>
    obtain ⟨w', hw, found⟩ := Json.exists_member?_canonical h written
    rw [found, Option.filter_some, Option.filter_some, Json.isNull_canonical hw]
    cases w.isNull
    · simp [hw]
    · rfl

/-- Where no member is written twice, a message is what the members of the value say. -/
theorem ofJson?_eq (h : Distinct members) :
    ofJson? (.object members) = (Json.object members).canonical?.bind ofValue? := by
  rw [ofJson?, request?_eq h, response?_eq h, notification?_eq h]
  cases value : (Json.object members).canonical? with
  | none => rfl
  | some v =>
    have name := methodName?_canonical value
    have params := paramsOf_canonical value
    have result := present?_canonical value "result"
    have error := present?_canonical value "error"
    rw [Option.bind_some, ofValue?, name]
    cases written : (Json.object members).member? "id" with
    | none =>
      rw [Json.member?_canonical value, written]
      cases methodName? (.object members) with
      | none => rfl
      | some method => simp [canonical?, params]
    | some id =>
      obtain ⟨id', hid, found⟩ := Json.exists_member?_canonical value written
      rw [found]
      cases methodName? (.object members) with
      | none => simp [canonical?, hid, result, error]
      | some method => simp [canonical?, hid, params]

theorem ofValue?_eq_none (h : ∀ members, v ≠ .object members) : ofValue? v = none := by
  have no_member : ∀ key, v.member? key = none := by
    intro key
    cases v with
    | object members => exact absurd rfl (h members)
    | _ => rfl
  rw [ofValue?, methodName?, no_member, no_member, Option.bind_none]

end

/-- The body of a frame writes no member of a message twice. -/
def NamedOnce (body : List UInt8) : Prop :=
  ∀ text members, Text.Utf8.decode? body = some text →
    Json.outline? text = some (.object members) → Distinct members

/-- Where no member is written twice, the message in a frame is what the members of the value of
its text say. -/
theorem ofBody?_eq {body : List UInt8} (h : NamedOnce body) :
    ofBody? body = (valueOf? body).bind ofValue? := by
  unfold ofBody? valueOf?
  cases decoded : Text.Utf8.decode? body with
  | none => rfl
  | some text =>
    rw [Option.bind_some, Option.bind_some, parse?, Json.parse?]
    cases outline : Json.outline? text with
    | none => rfl
    | some j =>
      rw [Option.bind_some, Option.bind_some]
      cases j with
      | object members => exact ofJson?_eq (h text members decoded outline)
      | array items =>
        cases value : (Json.array items).canonical? with
        | none => rfl
        | some v =>
          rw [Option.bind_some, ofValue?_eq_none fun members same => ?_]
          · rfl
          · subst same
            rw [Json.canonical?] at value
            cases found : Json.canonicalItems? items <;> simp [found] at value
      | unreadable => rfl
      | null | bool | number | string =>
        simp only [Json.canonical?, Option.bind_some]
        exact (ofValue?_eq_none (by simp)).symm

end CodeAtlas.Message
