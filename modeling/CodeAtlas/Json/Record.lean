import CodeAtlas.Json.Value

/-!
Reading records from JSON. A record is written as an object, in which unknown members are ignored
and a known one may stand only once, or as the array of its first fields in the order of their
declaration.
-/
namespace CodeAtlas.Json

/-- The fields found for a record. `positional` says that it was written as an array. -/
structure Record where
  positional : Bool
  fields : List (String × Json)

/-- The members with known names, if none of them is repeated. -/
def knownMembers? (names : List String) (members : List (String × Json)) :
    Option (List (String × Json)) :=
  let known := members.filter fun m => names.contains m.1
  if (known.map (·.1)).Nodup then some known else none

/-- The fields of a record with the given field names. -/
def record? (names : List String) : Json → Option Record
  | .object members => (knownMembers? names members).map (⟨false, ·⟩)
  | .array items => if items.length ≤ names.length then some ⟨true, names.zip items⟩ else none
  | _ => none

/-- The items of an array, each read by `f`. -/
def list? {α : Type} (f : Json → Option α) : Json → Option (List α)
  | .array items => items.mapM f
  | _ => none

/-- A value read by `f`, or null. -/
def orNull? {α : Type} (f : Json → Option α) : Json → Option (Option α)
  | .null => some none
  | j => (f j).map some

namespace Record

/-- The value of a field, if it was written. -/
def get? (r : Record) (key : String) : Option Json := r.fields.lookup key

/-- A field that must be written. -/
def required {α : Type} (r : Record) (key : String) (f : Json → Option α) : Option α :=
  (r.get? key).bind f

/-- A field that may be null, and may be left out of an object but not of an array. -/
def nullable {α : Type} (r : Record) (key : String) (f : Json → Option α) : Option (Option α) :=
  match r.get? key with
  | some j => orNull? f j
  | none => if r.positional then none else some none

/-- A field that has the value `default` where it is left out. -/
def withDefault {α : Type} (r : Record) (key : String) (default : α) (f : Json → Option α) :
    Option α :=
  match r.get? key with
  | some j => f j
  | none => some default

end Record

/-! ## Fields are smaller than their record -/

theorem mem_of_lookup {key : String} {fields : List (String × Json)} {j : Json}
    (h : fields.lookup key = some j) : ∃ k, (k, j) ∈ fields := by
  induction fields with
  | nil => simp at h
  | cons f rest ih =>
    obtain ⟨k, v⟩ := f
    rw [List.lookup_cons] at h
    split at h
    · exact ⟨k, by simp_all⟩
    · obtain ⟨k', hk⟩ := ih h
      exact ⟨k', List.mem_cons_of_mem _ hk⟩

theorem sizeOf_field_lt {names : List String} {j v : Json} {r : Record} {key : String}
    (hr : record? names j = some r) (hv : r.get? key = some v) : sizeOf v < sizeOf j := by
  obtain ⟨k, hk⟩ := mem_of_lookup hv
  cases j with
  | object members =>
    simp only [record?, knownMembers?, Option.map_eq_some_iff] at hr
    obtain ⟨known, hknown, rfl⟩ := hr
    split at hknown
    · obtain rfl := Option.some.inj hknown
      have := List.sizeOf_lt_of_mem (List.mem_filter.1 hk).1
      simp only [Json.object.sizeOf_spec, Prod.mk.sizeOf_spec] at *
      omega
    · simp at hknown
  | array items =>
    simp only [record?] at hr
    split at hr
    · obtain rfl := Option.some.inj hr
      have := List.sizeOf_lt_of_mem (List.of_mem_zip hk).2
      simp only [Json.array.sizeOf_spec]
      omega
    · simp at hr
  | _ => simp [record?] at hr

theorem sizeOf_item_lt {items : List Json} {v : Json} (h : v ∈ items) :
    sizeOf v < sizeOf (Json.array items) := by
  have := List.sizeOf_lt_of_mem h
  simp only [Json.array.sizeOf_spec]
  omega

end CodeAtlas.Json
