import CodeAtlas.Proofs.Members
import CodeAtlas.Symbol.Codec
import Mathlib.Data.Option.Basic
import Mathlib.Data.List.Forall2

/-!
Reading back what was written. A value that was written shows again as it is, or in canonical form,
with the members of its objects sorted (`Json.Shows`). A reader that gets the same from both reads
what was written (`Json.Reads`): lists and optional values are read if their parts are, and the
fields of a record are read wherever they stand (`Json.exists_record_of_shows`).
-/
namespace CodeAtlas.Json

/-- A value as it was written, or in canonical form. -/
def Shows (j v : Json) : Prop := v = j ∨ j.canonical? = some v

variable {v : Json}

/-! ## What shows of a value -/

theorem Shows.null (h : Shows .null v) : v = .null :=
  h.elim id fun same => (Option.some.inj same).symm

theorem Shows.bool {b : Bool} (h : Shows (.bool b) v) : v = .bool b :=
  h.elim id fun same => (Option.some.inj same).symm

theorem Shows.number {n : Number} (h : Shows (.number n) v) : v = .number n :=
  h.elim id fun same => (Option.some.inj same).symm

theorem Shows.string {s : String} (h : Shows (.string s) v) : v = .string s :=
  h.elim id fun same => (Option.some.inj same).symm

theorem Shows.isNull {j : Json} (h : Shows j v) : v.isNull = j.isNull :=
  h.elim (fun same => same ▸ rfl) isNull_canonical

theorem forall₂_canonicalItems? {items shown : List Json} (h : canonicalItems? items = some shown) :
    List.Forall₂ Shows items shown := by
  induction items generalizing shown with
  | nil =>
    obtain rfl := Option.some.inj h
    exact .nil
  | cons item rest ih =>
    rw [canonicalItems?] at h
    obtain ⟨w, hw, h⟩ := Option.bind_eq_some_iff.mp h
    obtain ⟨ws, hws, h⟩ := Option.bind_eq_some_iff.mp h
    obtain rfl := Option.some.inj h
    exact .cons (.inr hw) (ih hws)

theorem Shows.array {items : List Json} (h : Shows (.array items) v) :
    ∃ shown, v = .array shown ∧ List.Forall₂ Shows items shown := by
  rcases h with rfl | h
  · exact ⟨items, rfl, List.forall₂_same.mpr fun _ _ => .inl rfl⟩
  · rw [canonical?] at h
    obtain ⟨shown, items, rfl⟩ := Option.map_eq_some_iff.mp h
    exact ⟨shown, rfl, forall₂_canonicalItems? items⟩

/-- Of an object whose keys are written once, the same keys show, each with its value. -/
theorem Shows.object {members : List (String × Json)} (h : Shows (.object members) v)
    (once : (members.map Prod.fst).Nodup) :
    ∃ shown, v = .object shown ∧ (shown.map Prod.fst).Nodup ∧
      ∀ key, Option.Rel Shows (members.lookup key) (v.member? key) := by
  rcases h with rfl | h
  · refine ⟨members, rfl, once, fun key => ?_⟩
    rw [member?_eq_lookup once]
    cases members.lookup key with
    | none => exact .none
    | some w => exact .some (.inl rfl)
  · -- sorting moves members, so they are compared by what stands under a key
    have value := h
    rw [canonical?] at h
    obtain ⟨shown, hs, rfl⟩ := Option.map_eq_some_iff.mp h
    refine ⟨shown, rfl, nodup_canonicalMembers? hs, fun key => ?_⟩
    rw [← member?_eq_lookup once]
    cases written : (Json.object members).member? key with
    | none =>
      rw [member?_canonical value, written]
      exact .none
    | some w =>
      obtain ⟨w', hw, found⟩ := exists_member?_canonical value written
      rw [found]
      exact .some (.inr hw)

/-! ## Values without unreadable parts -/

variable {α : Type}

/-- A value that has a canonical form. -/
def Readable (j : Json) : Prop := j.canonical?.isSome = true

theorem readable_object {members : List (String × Json)} (h : ∀ m ∈ members, Readable m.2) :
    Readable (.object members) := by
  have placed : ∀ sorted, (canonicalMembers? members sorted).isSome = true := by
    induction members with
    | nil => exact fun _ => rfl
    | cons m rest ih =>
      intro sorted
      obtain ⟨key, value⟩ := m
      obtain ⟨first, others⟩ := List.forall_mem_cons.mp h
      obtain ⟨w, hw⟩ := Option.isSome_iff_exists.mp first
      rw [canonicalMembers?, hw]
      exact ih others _
  rw [Readable, canonical?, Option.isSome_map]
  exact placed []

theorem readable_array {items : List Json} (h : ∀ j ∈ items, Readable j) :
    Readable (.array items) := by
  rw [Readable, canonical?, Option.isSome_map]
  induction items with
  | nil => rfl
  | cons item rest ih =>
    obtain ⟨first, others⟩ := List.forall_mem_cons.mp h
    obtain ⟨w, hw⟩ := Option.isSome_iff_exists.mp first
    obtain ⟨ws, hws⟩ := Option.isSome_iff_exists.mp (ih others)
    rw [canonicalItems?, hw, hws]
    rfl

@[simp] theorem readable_string (s : String) : Readable (.string s) := rfl

@[simp] theorem readable_bool (b : Bool) : Readable (.bool b) := rfl

@[simp] theorem readable_ofNat (n : Nat) : Readable (.ofNat n) := rfl

theorem readable_ofOption {f : α → Json} (h : ∀ a, Readable (f a)) (o : Option α) :
    Readable (.ofOption f o) := by
  cases o with
  | none => rfl
  | some a => exact h a

@[simp] theorem readable_ofText? (o : Option String) : Readable (.ofText? o) := by
  cases o <;> rfl

theorem readable_ofList {f : α → Json} (h : ∀ a, Readable (f a)) (l : List α) :
    Readable (.ofList f l) :=
  readable_array (List.forall_mem_map.mpr fun a _ => h a)

/-! ## Readers -/

/-- A reader gets the same from everything that shows a value. -/
def Reads (f : Json → Option α) (j : Json) (a : α) : Prop := ∀ v, Shows j v → f v = some a

theorem reads_text (s : String) : Reads text? (.string s) s := by
  intro v shows
  rw [shows.string]
  rfl

theorem reads_bool (b : Bool) : Reads bool? (.bool b) b := by
  intro v shows
  rw [shows.bool]
  rfl

theorem reads_uint32 (n : UInt32) : Reads uint32? (.ofNat n.toNat) n := by
  intro v shows
  rw [ofNat] at shows
  rw [shows.number, uint32?, natBelow?, if_pos ⟨Int.natCast_nonneg _, Int.ofNat_lt.mpr n.toNat_lt⟩]
  simp

theorem orNull?_of_isNull {f : Json → Option α} (h : v.isNull = false) :
    orNull? f v = (f v).map some := by
  cases v with
  | null => cases h
  | _ => rfl

/-- An optional value is read, where a value that is there is read and not written as null. -/
theorem reads_orNull {f : Json → Option α} {g : α → Json} {o : Option α}
    (h : ∀ a ∈ o, Reads f (g a) a) (filled : ∀ a, (g a).isNull = false) :
    Reads (orNull? f) (ofOption g o) o := by
  intro v shows
  cases o with
  | none =>
    rw [shows.null]
    rfl
  | some a =>
    have there : v.isNull = false := shows.isNull.trans (filled a)
    rw [orNull?_of_isNull there, h a rfl v shows, Option.map_some]

/-- Reading items that are known to be items is reading them. -/
theorem attach_mapM (f : Json → Option α) (items : List Json) :
    (items.attach.mapM fun item => f item.1) = items.mapM f := by
  have through := @List.mapM_map Option _ _ _ _ _ Subtype.val f items.attach
  rw [List.attach_map_subtype_val] at through
  exact through.symm

theorem mapM_of_shows {f : Json → Option α} {g : α → Json} {l : List α} {shown : List Json}
    (h : ∀ a ∈ l, Reads f (g a) a) (items : List.Forall₂ Shows (l.map g) shown) :
    shown.mapM f = some l := by
  induction l generalizing shown with
  | nil =>
    cases items
    rfl
  | cons a rest ih =>
    obtain ⟨first, others⟩ := List.forall_mem_cons.mp h
    cases items with
    | cons item items =>
      rw [List.mapM_cons, first _ item, ih others items]
      rfl

theorem reads_list {f : Json → Option α} {g : α → Json} {l : List α}
    (h : ∀ a ∈ l, Reads f (g a) a) : Reads (list? f) (ofList g l) l := by
  intro v shows
  obtain ⟨shown, rfl, items⟩ := Shows.array shows
  exact mapM_of_shows h items

/-! ## Records -/

/-- A record of the members written under the given names, each as it shows. -/
structure Record.Shows (r : Record) (names : List String) (members : List (String × Json)) :
    Prop where
  keyed : r.positional = false
  found : ∀ key ∈ names, Option.Rel Json.Shows (members.lookup key) (r.get? key)

theorem exists_record_of_shows {members : List (String × Json)} (names : List String)
    (h : Shows (.object members) v) (written : (members.map Prod.fst).Sublist names)
    (once : names.Nodup) : ∃ r, v.record? names = some r ∧ r.Shows names members := by
  obtain ⟨shown, rfl, distinct, found⟩ := h.object (once.sublist written)
  have known : ((shown.filter fun m => names.contains m.1).map Prod.fst).Nodup :=
    distinct.sublist (List.filter_sublist.map _)
  obtain ⟨r, hr, keyed, same⟩ := exists_record known
  exact ⟨r, hr, keyed, fun key hk => same key hk ▸ found key⟩

namespace Record.Shows

variable {r : Record} {names : List String} {members : List (String × Json)} {key : String}
  {f : Json → Option α} {g : α → Json} {w : Json} {a : α} {o : Option α}

theorem missing (h : r.Shows names members) (known : key ∈ names)
    (written : members.lookup key = none) : r.get? key = none := by
  have found := h.found key known
  rw [written] at found
  generalize r.get? key = got at found
  cases found
  rfl

theorem written (h : r.Shows names members) (known : key ∈ names)
    (written : members.lookup key = some w) : ∃ v, r.get? key = some v ∧ Json.Shows w v := by
  have found := h.found key known
  rw [written] at found
  generalize r.get? key = got at found
  cases found with
  | some shows => exact ⟨_, rfl, shows⟩

theorem required (h : r.Shows names members) (known : key ∈ names)
    (at_key : members.lookup key = some w) (reads : Reads f w a) : r.required key f = some a := by
  obtain ⟨v, got, shows⟩ := h.written known at_key
  rw [Record.required, got, Option.bind_some, reads v shows]

theorem withDefault (h : r.Shows names members) (known : key ∈ names)
    (at_key : members.lookup key = some w) (reads : Reads f w a) (default : α) :
    r.withDefault key default f = some a := by
  obtain ⟨v, got, shows⟩ := h.written known at_key
  rw [Record.withDefault, got]
  exact reads v shows

theorem nullable (h : r.Shows names members) (known : key ∈ names)
    (at_key : members.lookup key = some (ofOption g o)) (reads : ∀ a ∈ o, Reads f (g a) a)
    (filled : ∀ a, (g a).isNull = false) : r.nullable key f = some o := by
  obtain ⟨v, got, shows⟩ := h.written known at_key
  rw [Record.nullable, got]
  exact reads_orNull reads filled v shows

/-- A text that may be null. -/
theorem nullableText {o : Option String} (h : r.Shows names members) (known : key ∈ names)
    (at_key : members.lookup key = some (ofText? o)) : r.nullable key text? = some o := by
  have same : ofText? o = ofOption string o := by cases o <;> rfl
  rw [same] at at_key
  exact h.nullable known at_key (fun s _ => reads_text s) fun _ => rfl

/-- A field that is left out where its value is absent. -/
theorem optional (h : r.Shows names members) (known : key ∈ names)
    (at_key : members.lookup key = o.map g) (reads : ∀ a ∈ o, Reads f (g a) a)
    (filled : ∀ a, (g a).isNull = false) : r.withDefault key none (orNull? f) = some o := by
  cases o with
  | none => rw [Record.withDefault, h.missing known at_key]
  | some a =>
    have reads_some : Reads (orNull? f) (ofOption g (some a)) (some a) := reads_orNull reads filled
    exact h.withDefault known at_key reads_some none

/-- A field that is left out where its list is empty. -/
theorem listed {l : List α} (h : r.Shows names members) (known : key ∈ names)
    (at_key : members.lookup key = if l.isEmpty then none else some (ofList g l))
    (reads : ∀ a ∈ l, Reads f (g a) a) : r.withDefault key [] (list? f) = some l := by
  cases l with
  | nil => rw [Record.withDefault, h.missing known at_key]
  | cons a rest => exact h.withDefault known at_key (reads_list reads) []

end Record.Shows

end CodeAtlas.Json
