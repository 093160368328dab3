import CodeAtlas.Json.Record
import CodeAtlas.Text.Sorted
import Mathlib.Data.List.Basic

/-!
Members of objects. Where keys are written once, the order of the members is immaterial: a record
finds under a key what the object has there (`exists_record`). The value of a text has its members
sorted, with the values of the last members written under their keys (`member?_canonical`).
-/
namespace CodeAtlas.Json

/-! ## The last member under a key -/

variable {members : List (String × Json)} {key : String}

theorem member?_cons (k : String) (value : Json) (rest : List (String × Json)) :
    (object ((k, value) :: rest)).member? key =
      ((object rest).member? key).or (if k = key then some value else none) := by
  simp only [member?, List.reverse_cons, List.find?_append, Option.map_or]
  congr 1
  by_cases same : k = key <;> simp [same]

theorem member?_eq_none (h : key ∉ members.map Prod.fst) :
    (object members).member? key = none := by
  rw [member?, Option.map_eq_none_iff, List.find?_eq_none]
  intro m hm same
  exact h (List.mem_map.mpr ⟨m, List.mem_reverse.mp hm, beq_iff_eq.mp same⟩)

theorem lookup_cons_eq (k : String) (value : Json) (rest : List (String × Json)) :
    ((k, value) :: rest).lookup key = if key = k then some value else rest.lookup key := by
  rw [List.lookup_cons]
  by_cases same : key = k
  · simp [same]
  · rw [if_neg same, beq_eq_false_iff_ne.mpr same]

theorem member?_eq_lookup (h : (members.map Prod.fst).Nodup) :
    (object members).member? key = members.lookup key := by
  induction members with
  | nil => rfl
  | cons m rest ih =>
    obtain ⟨k, value⟩ := m
    obtain ⟨once, h⟩ := List.nodup_cons.mp h
    rw [member?_cons, lookup_cons_eq, ih h]
    by_cases same : k = key
    · subst same
      rw [← ih h, member?_eq_none once, if_pos rfl, Option.none_or]
    · rw [if_neg same, if_neg (Ne.symm same), Option.or_none]

/-! ## Records -/

/-- The members of an object with one of the given names are found by their names, if none of them
is written twice. -/
theorem exists_record {names : List String}
    (h : ((members.filter fun m => names.contains m.1).map Prod.fst).Nodup) :
    ∃ r, (object members).record? names = some r ∧ r.positional = false ∧
      ∀ key ∈ names, r.get? key = (object members).member? key := by
  refine ⟨⟨false, members.filter fun m => names.contains m.1⟩, ?_, rfl, fun key known => ?_⟩
  · rw [record?, knownMembers?, if_pos h, Option.map_some]
  · rw [Record.get?, ← member?_eq_lookup h]
    simp only [member?, ← List.filter_reverse, List.find?_filter]
    congr 2
    funext m
    by_cases same : m.1 = key <;> simp [same, known]

/-! ## Sorted members -/

theorem map_fst_insertMember (value : Json) (sorted : List (String × Json)) :
    (insertMember key value sorted).map Prod.fst =
      Text.insertSorted key (sorted.map Prod.fst) := by
  induction sorted with
  | nil => rfl
  | cons m rest ih =>
    obtain ⟨k, v⟩ := m
    simp only [insertMember, List.map_cons, Text.insertSorted]
    split
    · next same => rw [List.map_cons, same]
    · split
      · rfl
      · rw [List.map_cons, ih]

theorem lookup_insertMember (k : String) (value : Json) (sorted : List (String × Json)) :
    (insertMember k value sorted).lookup key =
      if key = k then some value else sorted.lookup key := by
  induction sorted with
  | nil => exact lookup_cons_eq k value []
  | cons m rest ih =>
    obtain ⟨k', v⟩ := m
    simp only [insertMember]
    split
    · next same =>
      subst same
      rw [lookup_cons_eq, lookup_cons_eq]
      by_cases found : key = k
      · rw [if_pos found, if_pos found]
      · rw [if_neg found, if_neg found, if_neg found]
    · next differ =>
      split
      · exact lookup_cons_eq k value _
      · rw [lookup_cons_eq, ih, lookup_cons_eq]
        by_cases found : key = k'
        · rw [if_pos found, if_pos found, if_neg (found ▸ Ne.symm differ)]
        · rw [if_neg found, if_neg found]

/-- Putting members into sorted ones keeps them sorted, and the last member under a key counts. -/
theorem canonicalMembers?_spec {sorted result : List (String × Json)}
    (h : canonicalMembers? members sorted = some result)
    (ordered : (sorted.map Prod.fst).Pairwise (· < ·)) :
    (result.map Prod.fst).Pairwise (· < ·) ∧
      ∀ key, result.lookup key = match (object members).member? key with
        | some value => canonical? value
        | none => sorted.lookup key := by
  induction members generalizing sorted with
  | nil =>
    obtain rfl : sorted = result := Option.some.inj h
    exact ⟨ordered, fun _ => rfl⟩
  | cons m rest ih =>
    obtain ⟨k, value⟩ := m
    rw [canonicalMembers?] at h
    obtain ⟨w, hw, h⟩ := Option.bind_eq_some_iff.mp h
    have step : ((insertMember k w sorted).map Prod.fst).Pairwise (· < ·) := by
      rw [map_fst_insertMember]
      exact Text.pairwise_insertSorted ordered
    obtain ⟨ordered, found⟩ := ih h step
    refine ⟨ordered, fun key => ?_⟩
    rw [found, member?_cons]
    cases (object rest).member? key with
    | some value => rfl
    | none =>
      rw [lookup_insertMember, Option.none_or]
      by_cases same : key = k
      · simp [same, hw]
      · simp [same, Ne.symm same]

theorem nodup_canonicalMembers? {result : List (String × Json)}
    (h : canonicalMembers? members [] = some result) : (result.map Prod.fst).Nodup := by
  refine (canonicalMembers?_spec h .nil).1.imp fun {a b} below same => ?_
  exact String.lt_irrefl b (same ▸ below)

/-- The value of a text has under a key the value of what is written last under that key. -/
theorem member?_canonical {j v : Json} (h : j.canonical? = some v) (key : String) :
    v.member? key = (j.member? key).bind canonical? := by
  cases j with
  | object members =>
    rw [canonical?] at h
    obtain ⟨result, hr, rfl⟩ := Option.map_eq_some_iff.mp h
    rw [member?_eq_lookup (nodup_canonicalMembers? hr), (canonicalMembers?_spec hr .nil).2]
    cases (object members).member? key <;> rfl
  | array items =>
    rw [canonical?] at h
    obtain ⟨items', -, rfl⟩ := Option.map_eq_some_iff.mp h
    rfl
  | unreadable => cases h
  | null | bool b | number n | string s =>
    obtain rfl := Option.some.inj h
    rfl

theorem canonical?_of_mem {sorted result : List (String × Json)}
    (h : canonicalMembers? members sorted = some result) {m : String × Json} (hm : m ∈ members) :
    ∃ v, canonical? m.2 = some v := by
  induction members generalizing sorted with
  | nil => exact absurd hm List.not_mem_nil
  | cons first rest ih =>
    obtain ⟨k, value⟩ := first
    rw [canonicalMembers?] at h
    obtain ⟨w, hw, h⟩ := Option.bind_eq_some_iff.mp h
    rcases List.mem_cons.mp hm with rfl | hm
    · exact ⟨w, hw⟩
    · exact ih h hm

/-- What is written under a key has a value where the whole has one. -/
theorem exists_member?_canonical {j v w : Json} (h : j.canonical? = some v)
    (written : j.member? key = some w) :
    ∃ w', w.canonical? = some w' ∧ v.member? key = some w' := by
  have found := member?_canonical h key
  rw [written, Option.bind_some] at found
  cases j with
  | object members =>
    rw [canonical?] at h
    obtain ⟨result, hr, rfl⟩ := Option.map_eq_some_iff.mp h
    rw [member?] at written
    obtain ⟨m, hm, rfl⟩ := Option.map_eq_some_iff.mp written
    obtain ⟨w', hw⟩ := canonical?_of_mem hr (List.mem_reverse.mp (List.mem_of_find?_eq_some hm))
    exact ⟨w', hw, found.trans hw⟩
  | _ => cases written

theorem text?_canonical {j v : Json} (h : j.canonical? = some v) : v.text? = j.text? := by
  cases j with
  | object | array =>
    rw [canonical?] at h
    obtain ⟨_, -, rfl⟩ := Option.map_eq_some_iff.mp h
    rfl
  | unreadable => cases h
  | null | bool | number | string =>
    obtain rfl := Option.some.inj h
    rfl

theorem isNull_canonical {j v : Json} (h : j.canonical? = some v) : v.isNull = j.isNull := by
  cases j with
  | object | array =>
    rw [canonical?] at h
    obtain ⟨_, -, rfl⟩ := Option.map_eq_some_iff.mp h
    rfl
  | unreadable => cases h
  | null | bool | number | string =>
    obtain rfl := Option.some.inj h
    rfl

end CodeAtlas.Json
