import CodeAtlas.File.Archive
import CodeAtlas.Proofs.Listings

/-!
Disks whose folders hold proper names in their order. What is put into a tidy tree or taken from it
leaves it tidy (`Entry.tidy_put`, `Entry.tidy_remove`), and a walk arrives at a place with proper names
only (`proper_of_locateFrom`). So a tidy disk stays tidy through every write (`Disk.Tidy.write`,
`Disk.Tidy.remove`, `Disk.Tidy.makeFolders`), a disk that is read from JSON is tidy
(`Archive.tidy_read`), and what the paths of a tidy disk lead to is tidy (`Disk.Tidy.of_reached`).
-/
namespace CodeAtlas

theorem Text.not_mem_of_mem_splitOn {c : Char} {s : List Char} : ∀ piece ∈ splitOn c s, c ∉ piece := by
  induction s with
  | nil => exact List.forall_mem_singleton.mpr List.not_mem_nil
  | cons x s ih =>
    obtain ⟨first, others, split⟩ := List.exists_cons_of_ne_nil (splitOn_ne_nil c s)
    rw [split] at ih
    rw [splitOn, split]
    dsimp only
    split
    · exact List.forall_mem_cons.mpr ⟨List.not_mem_nil, ih⟩
    · rename_i other
      obtain ⟨first_whole, others_whole⟩ := List.forall_mem_cons.mp ih
      refine List.forall_mem_cons.mpr ⟨?_, others_whole⟩
      exact List.not_mem_cons_of_ne_of_not_mem (Ne.symm other) first_whole

/-! ## Trees -/

namespace Entry

variable {e new found : Entry} {entries : List (String × Entry)} {name : String}
  {names : List String} {p : String × Entry}

theorem mem_of_mem_insert (h : p ∈ Entry.insert name e entries) : p = (name, e) ∨ p ∈ entries := by
  induction entries with
  | nil => exact .inl (List.mem_singleton.mp h)
  | cons q entries ih =>
    rw [Entry.insert] at h
    split at h
    · exact (List.mem_cons.mp h).imp_right (List.mem_cons_of_mem q)
    · split at h
      · exact List.mem_cons.mp h
      · rcases List.mem_cons.mp h with rfl | later
        · exact .inr List.mem_cons_self
        · exact (ih later).imp_right (List.mem_cons_of_mem q)

theorem insert_sorted (sorted : entries.Pairwise fun a b => a.1 < b.1) :
    (Entry.insert name e entries).Pairwise fun a b => a.1 < b.1 := by
  induction entries with
  | nil => exact List.pairwise_singleton _ _
  | cons q entries ih =>
    obtain ⟨first, others⟩ := List.pairwise_cons.mp sorted
    rw [Entry.insert]
    split
    · rename_i same
      exact List.pairwise_cons.mpr ⟨same ▸ first, others⟩
    · rename_i other
      split
      · rename_i before
        refine List.pairwise_cons.mpr ⟨?_, sorted⟩
        exact List.forall_mem_cons.mpr ⟨before, fun p hp => String.lt_trans before (first p hp)⟩
      · rename_i not_before
        have behind : q.1 < name := by
          by_contra not_behind
          exact other (String.le_antisymm (String.not_lt.mp not_behind) (String.not_lt.mp not_before))
        refine List.pairwise_cons.mpr ⟨fun p hp => ?_, ih others⟩
        rcases mem_of_mem_insert hp with rfl | old
        · exact behind
        · exact first p old

theorem tidy_insert (tidy : (folder entries).Tidy) (proper : FileUri.IsEntryName name.toList)
    (inside : e.Tidy) : (folder (Entry.insert name e entries)).Tidy := by
  cases tidy with
  | folder sorted proper' inner =>
    refine .folder (insert_sorted sorted) (fun p hp => ?_) (fun p hp => ?_)
    · rcases mem_of_mem_insert hp with rfl | old
      · exact proper
      · exact proper' p old
    · rcases mem_of_mem_insert hp with rfl | old
      · exact inside
      · exact inner p old

theorem tidy_entries (tidy : e.Tidy) : (folder e.entries).Tidy := by
  cases tidy with
  | file | link => exact tidy_nil
  | folder sorted proper inner => exact .folder sorted proper inner

theorem tidy_of_lookup (tidy : (folder entries).Tidy) (h : entries.lookup name = some e) :
    e.Tidy := by
  cases tidy with
  | folder sorted _ inner => exact inner _ ((lookup_eq_some_iff sorted).mp h)

theorem tidy_of_at? (tidy : e.Tidy) (h : e.at? names = some found) : found.Tidy := by
  induction names generalizing e with
  | nil =>
    cases h
    exact tidy
  | cons name names ih =>
    obtain ⟨entries, inner, rfl, here, inside⟩ := folder_of_at?_cons h
    exact ih (tidy_of_lookup tidy here) inside

/-- What is put into a tree keeps it tidy, with the folders that are made on the way. -/
theorem tidy_put (tidy : e.Tidy) (new_tidy : new.Tidy)
    (proper : ∀ n ∈ names, FileUri.IsEntryName n.toList) : (Entry.put new names e).Tidy := by
  induction names generalizing e with
  | nil => exact new_tidy
  | cons name names ih =>
    obtain ⟨first, others⟩ := List.forall_mem_cons.mp proper
    have inner : ((e.entries.lookup name).getD (folder [])).Tidy := by
      cases there : e.entries.lookup name with
      | none => exact tidy_nil
      | some found => exact tidy_of_lookup (tidy_entries tidy) there
    exact tidy_insert (tidy_entries tidy) first (ih inner others)

theorem tidy_remove (tidy : e.Tidy) (proper : ∀ n ∈ names, FileUri.IsEntryName n.toList) :
    (Entry.remove names e).Tidy := by
  fun_induction Entry.remove names e with
  | case1 => exact tidy_nil
  | case2 e name =>
    cases tidy_entries tidy with
    | folder sorted proper' inner =>
      exact .folder (sorted.filter _) (fun p hp => proper' p (List.mem_of_mem_filter hp))
        fun p hp => inner p (List.mem_of_mem_filter hp)
  | case3 e name names _ none_there => exact tidy
  | case4 e name names _ inner there ih =>
    obtain ⟨first, others⟩ := List.forall_mem_cons.mp proper
    exact tidy_insert (tidy_entries tidy) first (ih (tidy_of_lookup (tidy_entries tidy) there) others)

end Entry

namespace Disk

variable {disk disk' : Disk} {path : List Char} {goal : List String}

/-! ## Walks -/

theorem pieces_whole (path : List Char) : ∀ n ∈ pieces path, '/' ∉ n.toList := by
  intro n hn
  obtain ⟨piece, split, rfl⟩ := List.mem_map.mp hn
  rw [String.toList_ofList]
  exact Text.not_mem_of_mem_splitOn piece split

theorem IsDown.isEntryName {name : String} (down : IsDown name) (whole : '/' ∉ name.toList) :
    FileUri.IsEntryName name.toList where
  whole := whole
  filled same := down.filled (String.toList_inj.mp same)
  not_point same := down.not_point (String.toList_inj.mp same)
  not_points same := down.not_points (String.toList_inj.mp same)

/-- A step down adds a proper name. -/
theorem proper_concat {place : List String} {name : String}
    (proper : ∀ n ∈ place, FileUri.IsEntryName n.toList) (moves : ¬(name = "" ∨ name = "."))
    (not_up : name ≠ "..") (whole : '/' ∉ name.toList) :
    ∀ n ∈ place ++ [name], FileUri.IsEntryName n.toList := by
  obtain ⟨filled, not_point⟩ := not_or.mp moves
  have named := IsDown.isEntryName ⟨filled, not_point, not_up⟩ whole
  exact List.forall_mem_append.mpr ⟨proper, List.forall_mem_singleton.mpr named⟩

/-- A walk goes down by proper names only. -/
theorem proper_of_locateFrom {root : Entry} {follow : Bool} {links : Nat} {place todo : List String}
    {found : Option Entry} (proper : ∀ n ∈ place, FileUri.IsEntryName n.toList)
    (whole : ∀ n ∈ todo, '/' ∉ n.toList)
    (h : locateFrom root follow links place todo = some (goal, found)) :
    ∀ n ∈ goal, FileUri.IsEntryName n.toList := by
  fun_induction locateFrom root follow links place todo with
  | case1 =>
    obtain ⟨_, -, same⟩ := Option.map_eq_some_iff.mp h
    cases same
    exact proper
  | case2 _ _ _ _ _ _ _ ih => exact ih proper (List.forall_mem_cons.mp whole).2 h
  | case3 _ _ _ _ _ _ ih =>
    exact ih (fun n hn => proper n (List.mem_of_mem_dropLast hn)) (List.forall_mem_cons.mp whole).2 h
  | case4 _ _ _ _ _ _ moves not_up =>
    cases h
    exact proper_concat proper moves not_up (List.forall_mem_cons.mp whole).1
  | case6 _ _ _ _ _ _ moves not_up =>
    cases h
    exact proper_concat proper moves not_up (List.forall_mem_cons.mp whole).1
  | case5 | case7 | case10 => cases h
  | case8 place name rest entries folder moves not_up target link _ links start ih =>
    -- the pieces of the target are whole, whatever the link says
    refine ih ?_ ?_ h
    · show ∀ n ∈ (if Path.isAbsolute target.toList then [] else place), _
      split
      · exact List.forall_mem_nil _
      · exact proper
    · exact List.forall_mem_append.mpr ⟨pieces_whole _, (List.forall_mem_cons.mp whole).2⟩
  | case9 links place name rest entries folder moves not_up inner real found' ih =>
    obtain ⟨here, others⟩ := List.forall_mem_cons.mp whole
    exact ih (proper_concat proper moves not_up here) others h

/-! ## Writes -/

/-- A disk with a tidy tree and a working folder that is reached by proper names. -/
structure Tidy (disk : Disk) : Prop where
  root : disk.root.Tidy
  here : ∀ n ∈ disk.here, FileUri.IsEntryName n.toList

theorem Tidy.proper_of_locate {follow : Bool} {found : Option Entry} (tidy : disk.Tidy)
    (h : disk.locate follow path = some (goal, found)) : ∀ n ∈ goal, FileUri.IsEntryName n.toList := by
  unfold locate at h
  split at h
  · cases h
  · refine proper_of_locateFrom ?_ (pieces_whole path) h
    split
    · exact List.forall_mem_nil _
    · exact tidy.here

/-- What a path leads to on a tidy disk is tidy. -/
theorem Tidy.of_reached {e : Entry} (tidy : disk.Tidy) (h : disk.entry? path = some e) : e.Tidy := by
  obtain ⟨⟨goal, found⟩, located, same⟩ := Option.bind_eq_some_iff.mp h
  obtain rfl : found = some e := same
  unfold locate at located
  split at located
  · cases located
  · exact Entry.tidy_of_at? tidy.root (locateFrom_append located).1

theorem Tidy.put {new : Entry} {follow : Bool} {found : Option Entry} (tidy : disk.Tidy)
    (new_tidy : new.Tidy) (h : disk.locate follow path = some (goal, found)) :
    Tidy { disk with root := new.put goal disk.root } where
  root := Entry.tidy_put tidy.root new_tidy (tidy.proper_of_locate h)
  here := tidy.here

theorem Tidy.write {bytes : List UInt8} (tidy : disk.Tidy) (h : disk.write? path bytes = some disk') :
    disk'.Tidy := by
  unfold write? at h
  split at h
  · rename_i located
    cases h
    exact tidy.put (.file bytes false) located
  · rename_i executable located
    cases h
    exact tidy.put (.file bytes executable) located
  · cases h

theorem Tidy.makeFolder (tidy : disk.Tidy) (h : disk.makeFolder? path = some disk') :
    disk'.Tidy := by
  unfold makeFolder? at h
  split at h
  · cases h
    exact tidy
  · split at h
    · rename_i located
      cases h
      exact tidy.put Entry.tidy_nil located
    · cases h

theorem Tidy.makeFolders (tidy : disk.Tidy) (h : disk.makeFolders? path = some disk') :
    disk'.Tidy := by
  unfold makeFolders? at h
  generalize steps path = todo at h
  induction todo generalizing disk with
  | nil =>
    cases h
    exact tidy
  | cons first rest ih =>
    rw [List.foldlM_cons] at h
    obtain ⟨between, made, others⟩ := Option.bind_eq_some_iff.mp h
    exact ih (tidy.makeFolder made) others

theorem Tidy.remove (tidy : disk.Tidy) (h : disk.remove? path = some disk') : disk'.Tidy := by
  unfold remove? at h
  split at h
  · rename_i located
    cases h
    exact { root := Entry.tidy_remove tidy.root (tidy.proper_of_locate located), here := tidy.here }
  · cases h

end Disk

/-! ## Disks that are read -/

namespace Archive

variable {disk disk' : Disk} {path folder : List Char} {e : Entry} {j : Json}

theorem tidy_empty : Disk.Tidy {} where
  root := Entry.tidy_nil
  here := List.forall_mem_nil _

theorem tidy_put (tidy : disk.Tidy) (h : put? disk path e = some disk') : disk'.Tidy := by
  obtain ⟨between, made, h⟩ := Option.bind_eq_some_iff.mp h
  have tidy := tidy.makeFolders made
  split at h
  · exact tidy.write h
  · exact tidy.makeFolders h
  · split at h
    · rename_i located
      cases h
      exact tidy.put (.link _) located
    · cases h

/-- Entries that are put on a tidy disk one after the other leave it tidy. -/
theorem tidy_addTo (tidy : disk.Tidy) (h : addTo? folder disk j = some disk') : disk'.Tidy := by
  obtain ⟨entries, -, run⟩ := Option.bind_eq_some_iff.mp h
  clear h
  induction entries generalizing disk with
  | nil =>
    cases run
    exact tidy
  | cons first rest ih =>
    rw [List.foldlM_cons] at run
    obtain ⟨between, put, others⟩ := Option.bind_eq_some_iff.mp run
    exact ih (tidy_put tidy put) others

/-- What is read from JSON is tidy. -/
theorem tidy_read (h : addTo? folder {} j = some disk) : disk.Tidy := tidy_addTo tidy_empty h

end Archive

end CodeAtlas
