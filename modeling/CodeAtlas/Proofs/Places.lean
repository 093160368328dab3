import CodeAtlas.File.Disk
import Mathlib.Data.List.Induction

/-!
Places on a disk. A walk that arrives goes on from where it arrived, whatever comes behind
(`locateFrom_append`). Within folders that are there it goes up by double points (`locateFrom_up`) and
down by names (`locateFrom_down`). Where there are no links it arrives nowhere else
(`eq_of_locateFrom`).
-/
namespace CodeAtlas

namespace Entry

/-- What names lead to lies where the first of them lead. -/
theorem at?_append (e : Entry) (a b : List String) : e.at? (a ++ b) = (e.at? a).bind (·.at? b) := by
  induction a generalizing e with
  | nil => rfl
  | cons name a ih =>
    rw [List.cons_append, at?, at?, Option.bind_assoc]
    exact Option.bind_congr fun inner _ => ih inner

/-- Only folders lead further. -/
theorem folder_of_at?_cons {e found : Entry} {name : String} {rest : List String}
    (h : e.at? (name :: rest) = some found) :
    ∃ entries inner, e = .folder entries ∧ entries.lookup name = some inner ∧
      inner.at? rest = some found := by
  obtain ⟨inner, first, others⟩ := Option.bind_eq_some_iff.mp h
  cases e with
  | file | link => cases first
  | folder entries => exact ⟨entries, inner, rfl, first, others⟩

/-- What lies on the way to a folder is a folder. -/
theorem folder_of_at? {e : Entry} {names : List String} {entries : List (String × Entry)}
    (h : e.at? names = some (.folder entries)) : ∃ entries, e = .folder entries := by
  cases names with
  | nil => exact ⟨entries, Option.some.inj h⟩
  | cons name rest =>
    obtain ⟨entries, -, folder, -⟩ := folder_of_at?_cons h
    exact ⟨entries, folder⟩

theorem folder_of_at?_append {e : Entry} {a b : List String} {entries : List (String × Entry)}
    (h : e.at? (a ++ b) = some (.folder entries)) : ∃ entries, e.at? a = some (.folder entries) := by
  rw [at?_append] at h
  obtain ⟨inner, first, others⟩ := Option.bind_eq_some_iff.mp h
  obtain ⟨entries, rfl⟩ := folder_of_at? others
  exact ⟨entries, first⟩

/-- There are no links below. -/
def Linkless (e : Entry) : Prop := ∀ names target, e.at? names ≠ some (.link target)

theorem linkless_folder {entries : List (String × Entry)} (h : ∀ p ∈ entries, p.2.Linkless) :
    (folder entries).Linkless := by
  intro names target link
  cases names with
  | nil => cases link
  | cons name rest =>
    obtain ⟨_, inner, same, found, inside⟩ := folder_of_at?_cons link
    cases same
    obtain ⟨before, behind, rfl, -⟩ := List.lookup_eq_some_iff.mp found
    exact h (name, inner) (List.mem_append_right before List.mem_cons_self) rest target inside

end Entry

namespace Disk

/-- A name by which a walk goes down. -/
structure IsDown (name : String) : Prop where
  filled : name ≠ ""
  not_point : name ≠ "."
  not_points : name ≠ ".."

/-! ## One step -/

section Step

variable {root : Entry} {follow : Bool} {links : Nat} {place rest : List String} {name : String}
  {entries : List (String × Entry)}

theorem locateFrom_stay (folder : root.at? place = some (.folder entries))
    (h : name = "" ∨ name = ".") :
    locateFrom root follow links place (name :: rest) = locateFrom root follow links place rest := by
  rw [locateFrom, folder]
  exact if_pos h

theorem locateFrom_leave (folder : root.at? place = some (.folder entries)) :
    locateFrom root follow links place (".." :: rest) =
      locateFrom root follow links place.dropLast rest := by
  rw [locateFrom, folder]
  rfl

theorem locateFrom_enter (folder : root.at? place = some (.folder entries)) (down : IsDown name)
    {inner : Entry} (found : entries.lookup name = some inner) (real : ∀ t, inner ≠ .link t) :
    locateFrom root follow links place (name :: rest) =
      locateFrom root follow links (place ++ [name]) rest := by
  rw [locateFrom, folder]
  simp only [down.filled, down.not_point, down.not_points, or_self, if_false, found]

theorem locateFrom_through (folder : root.at? place = some (.folder entries)) (down : IsDown name)
    {target : String} (found : entries.lookup name = some (.link target)) :
    locateFrom root true (links + 1) place (name :: rest) =
      locateFrom root true links (if Path.isAbsolute target.toList then [] else place)
        (pieces target.toList ++ rest) := by
  rw [locateFrom, folder]
  simp only [down.filled, down.not_point, down.not_points, or_self, if_false, found,
    Bool.not_true, Bool.and_false, Bool.false_eq_true]

end Step

/-! ## Walks -/

/-- A walk that arrives goes on from there, whatever comes behind. -/
theorem locateFrom_append {root : Entry} {links : Nat} {place todo goal : List String} {e : Entry}
    (h : locateFrom root true links place todo = some (goal, some e)) :
    root.at? goal = some e ∧ ∃ links', ∀ more,
      locateFrom root true links place (todo ++ more) = locateFrom root true links' goal more := by
  fun_induction locateFrom root true links place todo with
  | case1 links place =>
    obtain ⟨e', found, same⟩ := Option.map_eq_some_iff.mp h
    cases same
    exact ⟨found, links, fun _ => rfl⟩
  | case2 links place name rest entries folder stays ih =>
    obtain ⟨found, links', on⟩ := ih h
    exact ⟨found, links', fun more => (locateFrom_stay folder stays).trans (on more)⟩
  | case3 links place rest entries folder _ ih =>
    obtain ⟨found, links', on⟩ := ih h
    exact ⟨found, links', fun more => (locateFrom_leave folder).trans (on more)⟩
  | case4 => simp at h
  | case6 _ _ _ _ _ _ _ _ _ _ last => simp at last
  | case5 | case7 | case10 => cases h
  | case8 place name rest entries folder moves not_up target link _ links start ih =>
    obtain ⟨filled, not_point⟩ := not_or.mp moves
    obtain ⟨found, links', on⟩ := ih h
    refine ⟨found, links', fun more => ?_⟩
    rw [List.cons_append, locateFrom_through folder ⟨filled, not_point, not_up⟩ link,
      ← List.append_assoc]
    exact on more
  | case9 links place name rest entries folder moves not_up inner real found' ih =>
    obtain ⟨filled, not_point⟩ := not_or.mp moves
    obtain ⟨found, links', on⟩ := ih h
    exact ⟨found, links', fun more =>
      (locateFrom_enter folder ⟨filled, not_point, not_up⟩ found' real).trans (on more)⟩

/-- From a folder, double points lead to the folders that it lies in. -/
theorem locateFrom_up {root : Entry} {follow : Bool} {links : Nat} {place : List String}
    (up more : List String) {entries : List (String × Entry)}
    (there : root.at? (place ++ up) = some (.folder entries)) :
    locateFrom root follow links (place ++ up) (List.replicate up.length ".." ++ more) =
      locateFrom root follow links place more := by
  induction up using List.reverseRecOn generalizing entries with
  | nil => rw [List.append_nil]; rfl
  | append_singleton up name ih =>
    rw [← List.append_assoc] at there ⊢
    obtain ⟨inner, folder⟩ := Entry.folder_of_at?_append there
    rw [List.length_append, List.length_singleton, List.replicate_succ, List.cons_append,
      locateFrom_leave there, List.dropLast_concat]
    exact ih folder

/-- Names lead down to a folder that is there. -/
theorem locateFrom_down {root : Entry} {follow : Bool} {links : Nat} {place names : List String}
    (down : ∀ n ∈ names, IsDown n) {entries : List (String × Entry)}
    (there : root.at? (place ++ names) = some (.folder entries)) :
    locateFrom root follow links place names = some (place ++ names, some (.folder entries)) := by
  induction names generalizing place with
  | nil =>
    rw [List.append_nil] at there ⊢
    rw [locateFrom, there]
    rfl
  | cons name names ih =>
    obtain ⟨first, others⟩ := List.forall_mem_cons.mp down
    obtain ⟨found, folder⟩ := Entry.folder_of_at?_append there
    have inside := there
    rw [Entry.at?_append, folder, Option.bind_some] at inside
    obtain ⟨_, inner, same, here, rest⟩ := Entry.folder_of_at?_cons inside
    cases same
    obtain ⟨entries', rfl⟩ := Entry.folder_of_at? rest
    rw [List.append_cons] at there ⊢
    rw [locateFrom_enter folder first here fun _ => Entry.noConfusion]
    exact ih others there

/-- Where there are no links, names lead nowhere else. -/
theorem eq_of_locateFrom {root : Entry} (bare : root.Linkless) {links : Nat}
    {place names goal : List String} {found : Option Entry} (down : ∀ n ∈ names, IsDown n)
    (h : locateFrom root true links place names = some (goal, found)) : goal = place ++ names := by
  have no_link : ∀ {place name entries target}, root.at? place = some (.folder entries) →
      entries.lookup name ≠ some (.link target) := by
    intro place name entries target folder link
    refine bare (place ++ [name]) target ?_
    rw [Entry.at?_append, folder, Option.bind_some, Entry.at?, Entry.entries, link]
    rfl
  fun_induction locateFrom root true links place names with
  | case1 links place =>
    obtain ⟨e, -, same⟩ := Option.map_eq_some_iff.mp h
    cases same
    exact (List.append_nil _).symm
  | case2 links place name rest entries folder stays =>
    have first := down name List.mem_cons_self
    exact absurd stays (not_or.mpr ⟨first.filled, first.not_point⟩)
  | case3 => exact absurd rfl (down ".." List.mem_cons_self).not_points
  | case4 links place name rest entries folder _ _ missing last =>
    cases h
    rw [List.isEmpty_iff.mp last]
  | case5 | case10 => cases h
  | case6 _ _ _ _ _ folder _ _ _ link | case7 _ _ _ _ folder _ _ _ link
  | case8 _ _ _ _ folder _ _ _ link => exact absurd link (no_link folder)
  | case9 links place name rest entries folder _ _ inner _ _ ih =>
    rw [ih (fun n hn => down n (List.mem_cons_of_mem _ hn)) h, List.append_assoc]
    rfl

end Disk
end CodeAtlas
