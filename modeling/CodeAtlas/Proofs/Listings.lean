import CodeAtlas.Proofs.Cutting
import CodeAtlas.Proofs.FileUris
import CodeAtlas.Proofs.Paths
import CodeAtlas.Proofs.Pieces
import CodeAtlas.Proofs.Places

/-!
Listings of folders. In a tree whose folders hold proper names in their order (`Entry.Tidy`) a listing
holds exactly the names that lead to a file (`mem_files_iff`), each once and in their order
(`files_sorted`); the paths that the names make have the names as their last components
(`components_below`), so they stand in the order of their components (`below_lt`). A folder is listed
as it is reached, through a link or not (`filesBelow_eq`). A walk that opens only some folders and only
so many in a row finds what the listing has in its reach (`walk_eq_filter`).
-/
namespace CodeAtlas

instance (s : List Char) : Decidable (FileUri.IsEntryName s) :=
  decidable_of_iff ('/' ∉ s ∧ s ≠ ['.'] ∧ s ≠ ['.', '.'] ∧ s ≠ [])
    ⟨fun ⟨whole, not_point, not_points, filled⟩ => ⟨⟨whole, not_point, not_points⟩, filled⟩,
      fun h => ⟨h.whole, h.not_point, h.not_points, h.filled⟩⟩

namespace Entry

variable {e found : Entry} {entries : List (String × Entry)} {name : String}
  {names names' : List String} {opens : String → Bool} {levels : Option Nat}

/-- A tree whose folders have entries with proper names, in their order. -/
inductive Tidy : Entry → Prop
  | file (bytes : List UInt8) (executable : Bool) : Tidy (.file bytes executable)
  | link (target : String) : Tidy (.link target)
  | folder {entries : List (String × Entry)} (sorted : entries.Pairwise fun a b => a.1 < b.1)
      (proper : ∀ p ∈ entries, FileUri.IsEntryName p.1.toList) (inner : ∀ p ∈ entries, Tidy p.2) :
      Tidy (.folder entries)

theorem tidy_nil : (folder []).Tidy := .folder .nil nofun nofun

/-- Whether names lead to a file. -/
def HasFile (e : Entry) (names : List String) : Prop :=
  ∃ bytes executable, e.at? names = some (.file bytes executable)

/-! ## Files of a tree -/

theorem filesOf_eq (entries : List (String × Entry)) :
    filesOf entries = entries.flatMap fun p => p.2.files.map (p.1 :: ·) := by
  induction entries with
  | nil => rw [filesOf]; rfl
  | cons p entries ih => rw [filesOf, ih, List.flatMap_cons]

theorem lookup_eq_some_iff (sorted : entries.Pairwise fun a b => a.1 < b.1) :
    entries.lookup name = some found ↔ (name, found) ∈ entries := by
  induction entries with
  | nil => simp
  | cons p entries ih =>
    obtain ⟨first, others⟩ := List.pairwise_cons.mp sorted
    rw [List.lookup_cons, List.mem_cons]
    cases same : name == p.1 with
    | true =>
      obtain rfl := eq_of_beq same
      have later : (p.1, found) ∉ entries := fun h => String.lt_irrefl p.1 (first (p.1, found) h)
      simp [later, Prod.ext_iff, eq_comm]
    | false =>
      have other : (name, found) ≠ p := by
        rintro rfl
        exact Bool.false_ne_true (same.symm.trans (beq_self_eq_true name))
      simp only [other, false_or]
      exact ih others

theorem hasFile_cons : (folder entries).HasFile (name :: names) ↔
    ∃ e, entries.lookup name = some e ∧ e.HasFile names := by
  simp only [HasFile, at?, Entry.entries, Option.bind_eq_some_iff]
  grind

/-- A listing holds exactly the names that lead to a file. -/
theorem mem_files_iff (tidy : e.Tidy) : names ∈ e.files ↔ e.HasFile names := by
  induction tidy generalizing names with
  | file bytes executable =>
    cases names with
    | nil => simp [files, HasFile, at?]
    | cons name names => simp [files, HasFile, at?, entries]
  | link target =>
    cases names with
    | nil => simp [files, HasFile, at?]
    | cons name names => simp [files, HasFile, at?, entries]
  | @folder entries sorted proper inner ih =>
    rw [files, filesOf_eq, List.mem_flatMap]
    cases names with
    | nil => simp [HasFile, at?]
    | cons name names =>
      rw [hasFile_cons]
      constructor
      · rintro ⟨⟨name', e⟩, mem, listed⟩
        obtain ⟨rest, hrest, same⟩ := List.mem_map.mp listed
        obtain ⟨rfl, rfl⟩ := List.cons.inj same
        exact ⟨e, (lookup_eq_some_iff sorted).mpr mem, (ih _ mem).mp hrest⟩
      · rintro ⟨e, here, inside⟩
        have mem := (lookup_eq_some_iff sorted).mp here
        exact ⟨(name, e), mem, List.mem_map_of_mem ((ih _ mem).mpr inside)⟩

/-- A listing follows the order of the names: what lies in a folder comes together, and entries of one
folder come in their order. -/
theorem files_sorted (tidy : e.Tidy) : e.files.Pairwise (· < ·) := by
  induction tidy with
  | file => exact List.pairwise_singleton _ _
  | link => exact List.Pairwise.nil
  | @folder entries sorted proper inner ih =>
    rw [files, filesOf_eq, List.pairwise_flatMap]
    constructor
    · intro p hp
      rw [List.pairwise_map]
      exact (ih p hp).imp fun before => List.cons_lt_cons_iff.mpr (.inr ⟨rfl, before⟩)
    · refine sorted.imp fun before => ?_
      simp only [List.forall_mem_map]
      exact fun _ _ _ _ => List.cons_lt_cons_iff.mpr (.inl before)

/-- Names that lead somewhere are proper. -/
theorem Tidy.proper_of_at? (tidy : e.Tidy) (h : e.at? names = some found) :
    ∀ n ∈ names, FileUri.IsEntryName n.toList := by
  induction names generalizing e with
  | nil => exact List.forall_mem_nil _
  | cons name names ih =>
    obtain ⟨entries, inner, rfl, here, inside⟩ := folder_of_at?_cons h
    cases tidy with
    | folder sorted proper tidy =>
      have mem := (lookup_eq_some_iff sorted).mp here
      exact List.forall_mem_cons.mpr ⟨proper _ mem, ih (tidy _ mem) inside⟩

theorem HasFile.ne_nil (h : (folder entries).HasFile names) : names ≠ [] := by
  rintro rfl
  obtain ⟨bytes, executable, same⟩ := h
  cases same

/-! ## Walks -/

/-- Whether a walk passes an entry over: a folder that it does not open. -/
def isShut (opens : String → Bool) (name : String) : Entry → Bool
  | folder _ => !opens name
  | _ => false

mutual

/-- The files of an entry that a walk finds which opens folders by their names and goes down a number
of levels, or as far as it can. -/
def walk (opens : String → Bool) (levels : Option Nat) : Entry → List (List String)
  | file _ _ => [[]]
  | folder entries => if levels = some 0 then [] else walkOf opens (levels.map (· - 1)) entries
  | link _ => []

/-- The files that a walk finds among the entries of a folder. -/
def walkOf (opens : String → Bool) (levels : Option Nat) :
    List (String × Entry) → List (List String)
  | [] => []
  | (name, e) :: rest =>
    (if e.isShut opens name then [] else (e.walk opens levels).map (name :: ·)) ++
      walkOf opens levels rest

end

/-- Whether a walk comes to names: not too many, and of folders that it opens. -/
def inReach (opens : String → Bool) (levels : Option Nat) (names : List String) : Bool :=
  levels.all (names.length ≤ ·) && names.dropLast.all opens

theorem nil_notMem_filesOf (entries : List (String × Entry)) : [] ∉ filesOf entries := by
  rw [filesOf_eq]
  simp

/-- Behind the name of an entry that is not passed over, a walk has one level less to go. -/
theorem inReach_cons (deeper : levels ≠ some 0) (listed : names ∈ e.files) :
    inReach opens levels (name :: names) =
      (!e.isShut opens name && inReach opens (levels.map (· - 1)) names) := by
  have fewer : levels.all (names.length + 1 ≤ ·) = (levels.map (· - 1)).all (names.length ≤ ·) := by
    cases levels with
    | none => rfl
    | some n =>
      have some_level : n ≠ 0 := fun none => deeper (congrArg some none)
      simp only [Option.all_some, Option.map_some, decide_eq_decide]
      omega
  cases e with
  | file bytes executable =>
    obtain rfl := List.mem_singleton.mp listed
    simp only [inReach, isShut, List.length_cons, fewer]
    rfl
  | link target => cases listed
  | folder entries =>
    have some_name : names ≠ [] := fun none => nil_notMem_filesOf entries (none ▸ listed)
    simp only [inReach, isShut, List.length_cons, fewer, List.dropLast_cons_of_ne_nil some_name,
      List.all_cons, Bool.not_not]
    ac_rfl

mutual

/-- A walk finds of all files those that it comes to. -/
theorem walk_eq_filter (opens : String → Bool) (levels : Option Nat) :
    ∀ e : Entry, e.walk opens levels = e.files.filter (inReach opens levels)
  | file _ _ => by
    cases levels with
    | none => rfl
    | some n => rfl
  | link _ => rfl
  | folder entries => by
    rw [walk, files]
    split
    · rename_i bottom
      subst bottom
      symm
      rw [List.filter_eq_nil_iff]
      intro names listed reached
      have none : names = [] := by simpa [inReach] using (Bool.and_eq_true_iff.mp reached).1
      exact nil_notMem_filesOf entries (none ▸ listed)
    · rename_i deeper
      exact walkOf_eq_filter opens levels deeper entries

theorem walkOf_eq_filter (opens : String → Bool) (levels : Option Nat) (deeper : levels ≠ some 0) :
    ∀ entries : List (String × Entry), walkOf opens (levels.map (· - 1)) entries =
      (filesOf entries).filter (inReach opens levels)
  | [] => rfl
  | (name, e) :: rest => by
    rw [walkOf, filesOf, List.filter_append, walkOf_eq_filter opens levels deeper rest,
      List.filter_map, walk_eq_filter opens (levels.map (· - 1)) e]
    congr 1
    have one := List.filter_congr (l := e.files)
      (p := inReach opens levels ∘ (name :: ·)) fun names listed => inReach_cons deeper listed
    rw [one]
    cases e.isShut opens name with
    | true => simp
    | false => simp

end

end Entry

/-! ## Paths into a folder -/

namespace Path

variable {folder path name : List Char}

theorem isAbsolute_of_isName (h : IsName name) : isAbsolute name = false := by
  cases name with
  | nil => rfl
  | cons c name =>
    have other : c ≠ '/' := fun same => h.whole (same ▸ List.mem_cons_self)
    simp [isAbsolute, other]

/-- A slash behind a path changes nothing. -/
theorem components_slash (filled : folder ≠ []) : components (folder ++ ['/']) = components folder := by
  have same_pieces : pieces (folder ++ ['/']) = pieces folder := by
    rw [pieces_append]
    exact List.append_nil _
  have same_lead : lead (folder ++ ['/']) = lead folder := by
    obtain ⟨c, rest, rfl⟩ := List.exists_cons_of_ne_nil filled
    have absolute : isAbsolute (c :: rest ++ ['/']) = isAbsolute (c :: rest) := rfl
    have pointed : (decide (c :: rest ++ ['/'] = ['.']) ||
        Text.startsWith ['.', '/'] (c :: rest ++ ['/'])) =
        (decide (c :: rest = ['.']) || Text.startsWith ['.', '/'] (c :: rest)) := by
      rcases eq_or_ne c '.' with rfl | other
      · cases rest with
        | nil => rfl
        | cons d rest =>
          rcases eq_or_ne d '/' with rfl | other'
          · simp [Text.startsWith, Text.dropStart?]
          · simp [Text.startsWith, Text.dropStart?, other'.symm]
      · simp [Text.startsWith, Text.dropStart?, other, other.symm]
    simp only [lead, absolute]
    split
    · rfl
    · rw [pointed]
  rw [components_eq, components_eq, same_lead, same_pieces]

theorem join_ne_nil (filled : folder ≠ []) (h : IsName name) : join folder name ≠ [] := by
  unfold join
  rw [isAbsolute_of_isName h, if_neg Bool.false_ne_true]
  split
  · exact List.append_ne_nil_of_left_ne_nil filled _
  · exact List.append_ne_nil_of_left_ne_nil filled _

theorem components_join (filled : folder ≠ []) (h : IsName name) :
    components (join folder name) = components folder ++ [name] := by
  unfold join
  rw [isAbsolute_of_isName h, if_neg Bool.false_ne_true]
  split
  · rename_i slashed
    have last : folder.getLast? = some '/' := by simpa [filled] using slashed
    obtain ⟨front, rfl⟩ := List.getLast?_eq_some_iff.mp last
    rw [List.append_assoc, List.singleton_append, components_append, h.pieces_eq]
  · rw [components_append, h.pieces_eq, components_slash filled]

end Path

namespace FileUri

theorem IsEntryName.isName {s : List Char} (h : IsEntryName s) : Path.IsName s :=
  ⟨h.filled, h.not_point, h.whole⟩

end FileUri

namespace Disk

variable {disk : Disk} {folder path : List Char} {entries : List (String × Entry)}
  {names names' : List String}

/-- The components of a path into a folder are those of the folder and the names. -/
theorem components_below (filled : folder ≠ [])
    (proper : ∀ n ∈ names, FileUri.IsEntryName n.toList) :
    Path.components (below folder names) = Path.components folder ++ names.map String.toList := by
  induction names generalizing folder with
  | nil => exact (List.append_nil _).symm
  | cons name names ih =>
    obtain ⟨first, others⟩ := List.forall_mem_cons.mp proper
    have entered : below folder (name :: names) = below (Path.join folder name.toList) names := rfl
    rw [entered, ih (Path.join_ne_nil filled first.isName) others,
      Path.components_join filled first.isName, List.append_assoc]
    rfl

/-- Paths into a folder stand in the order of the names. -/
theorem below_lt (filled : folder ≠ []) (proper : ∀ n ∈ names, FileUri.IsEntryName n.toList)
    (proper' : ∀ n ∈ names', FileUri.IsEntryName n.toList) (before : names < names') :
    Path.components (below folder names) < Path.components (below folder names') := by
  rw [components_below filled proper, components_below filled proper']
  exact List.append_left_lt (List.map_lt (fun _ _ => String.lt_iff.mp) before)

/-- A name with the extension of source text. -/
def IsSourceName (name : String) : Prop :=
  ∃ stem, stem ≠ [] ∧ name.toList = stem ++ ".dart".toList

/-- A path names a file of source text if its last name does. -/
theorem isSource_below (filled : folder ≠ []) (proper : ∀ n ∈ names, FileUri.IsEntryName n.toList)
    (some_name : names ≠ []) :
    Path.isSource (below folder names) = true ↔ ∃ n ∈ names.getLast?, IsSourceName n := by
  obtain ⟨front, name, rfl⟩ := List.eq_nil_or_concat' names |>.resolve_left some_name
  have last := proper name (List.mem_append_right _ List.mem_cons_self)
  have no_root : name.toList ≠ Path.rootComponent := fun same =>
    last.whole (same ▸ List.mem_cons_self)
  have named : Path.fileName? (below folder (front ++ [name])) = some name.toList := by
    rw [Path.fileName?, components_below filled proper, List.map_append, List.map_singleton,
      ← List.append_assoc, List.getLast?_concat]
    simp [no_root, last.not_point, last.not_points]
  have extension : Path.extension? (below folder (front ++ [name])) =
      (Text.splitLast '.' name.toList).bind fun p => if p.1.isEmpty then none else some p.2 := by
    rw [Path.extension?, named]
    rfl
  rw [Path.isSource, beq_iff_eq, extension, Option.bind_eq_some_iff, List.getLast?_concat]
  constructor
  · rintro ⟨⟨stem, found⟩, cut, kept⟩
    split at kept
    · cases kept
    · rename_i some_stem
      obtain rfl := Option.some.inj kept
      refine ⟨name, rfl, stem, fun none => some_stem (List.isEmpty_iff.mpr none), ?_⟩
      rw [Text.eq_append_of_splitLast cut]
      rfl
  · rintro ⟨_, same, stem, some_stem, whole⟩
    obtain rfl := Option.some.inj same
    have cut : Text.splitLast '.' name.toList = some (stem, "dart".toList) := by
      rw [whole]
      exact Text.splitLast_append (by decide) stem
    exact ⟨_, cut, if_neg (mt List.isEmpty_iff.mp some_stem)⟩

/-! ## Source files of a folder -/

/-- Whether a name is that of a hidden file or folder. -/
theorem startsWith_point_iff {name : List Char} :
    Text.startsWith ['.'] name = true ↔ name.head? = some '.' := by
  rw [Text.startsWith_iff]
  cases name with
  | nil => simp
  | cons c name => simp [eq_comm]

/-- The files of a listing that a condition keeps and that are source text, by the paths they have in
a folder. -/
def sourceNames (folder : List Char) (keep : List String → Bool) (e : Entry) : List (List String) :=
  (e.files.filter keep).filter fun names => Path.isSource (below folder names)

variable {keep : List String → Bool}

theorem filter_isSource_map_below (folder : List Char) (e : Entry) :
    ((e.files.filter keep).map (below folder)).filter Path.isSource =
      (sourceNames folder keep e).map (below folder) := by
  rw [List.filter_map]
  rfl

theorem sourceNames_sorted {e : Entry} (tidy : e.Tidy) :
    (sourceNames folder keep e).Pairwise (· < ·) :=
  ((Entry.files_sorted tidy).filter _).filter _

/-- Names that lead to a file of source text. -/
structure HasSource (e : Entry) (names : List String) : Prop where
  file : e.HasFile names
  source : ∃ name ∈ names.getLast?, IsSourceName name

theorem mem_sourceNames_iff (filled : folder ≠ []) (tidy : (Entry.folder entries).Tidy) :
    names ∈ sourceNames folder keep (.folder entries) ↔
      HasSource (.folder entries) names ∧ keep names = true := by
  have named (there : (Entry.folder entries).HasFile names) :
      Path.isSource (below folder names) = true ↔ ∃ name ∈ names.getLast?, IsSourceName name := by
    have ⟨bytes, executable, found⟩ := there
    exact isSource_below filled (tidy.proper_of_at? found) there.ne_nil
  rw [sourceNames, List.mem_filter, List.mem_filter, Entry.mem_files_iff tidy]
  constructor
  · intro ⟨⟨file, kept⟩, source⟩
    exact ⟨⟨file, (named file).mp source⟩, kept⟩
  · intro ⟨⟨file, source⟩, kept⟩
    exact ⟨⟨file, kept⟩, (named file).mpr source⟩

/-! ## Listing a folder -/

theorem locateFrom_over {root : Entry} {follow : Bool} {links : Nat} {place rest : List String}
    {name target : String} (here : root.at? place = some (.folder entries)) (down : IsDown name)
    (found : entries.lookup name = some (.link target)) (more : rest ≠ []) :
    locateFrom root follow (links + 1) place (name :: rest) =
      locateFrom root follow links (if Path.isAbsolute target.toList then [] else place)
        (pieces target.toList ++ rest) := by
  have goes_on : rest.isEmpty = false := List.isEmpty_eq_false_iff.mpr more
  rw [locateFrom, here]
  simp only [down.filled, down.not_point, down.not_points, or_self, if_false, found, goes_on,
    Bool.false_and, Bool.false_eq_true]

theorem locateFrom_last_link {root : Entry} {links : Nat} {place : List String}
    {name target : String} (here : root.at? place = some (.folder entries)) (down : IsDown name)
    (found : entries.lookup name = some (.link target)) :
    locateFrom root false links place [name] = some (place ++ [name], some (.link target)) := by
  rw [locateFrom, here]
  simp only [down.filled, down.not_point, down.not_points, or_self, if_false, found]
  rfl

/-- Without following the last link a walk arrives at the same place, or at a link. -/
theorem locateFrom_unfollowed {root : Entry} {links : Nat} {place todo goal : List String} {e : Entry}
    (h : locateFrom root true links place todo = some (goal, some e)) :
    locateFrom root false links place todo = some (goal, some e) ∨
      ∃ goal' target, locateFrom root false links place todo = some (goal', some (.link target)) := by
  -- both walks take the same steps until the last name is a link
  fun_induction locateFrom root true links place todo with
  | case1 links place =>
    rw [locateFrom]
    exact .inl h
  | case2 links place name rest entries here stays ih =>
    rw [locateFrom_stay here stays]
    exact ih h
  | case3 links place rest entries here _ ih =>
    rw [locateFrom_leave here]
    exact ih h
  | case4 => simp at h
  | case6 _ _ _ _ _ _ _ _ _ _ last => simp at last
  | case5 | case7 | case10 => cases h
  | case8 place name rest entries here moves not_up target found _ links start ih =>
    obtain ⟨filled, not_point⟩ := not_or.mp moves
    have down : IsDown name := ⟨filled, not_point, not_up⟩
    cases rest with
    | nil => exact .inr ⟨_, _, locateFrom_last_link here down found⟩
    | cons next rest =>
      rw [locateFrom_over here down found (List.cons_ne_nil _ _)]
      exact ih h
  | case9 links place name rest entries here moves not_up inner real found ih =>
    obtain ⟨filled, not_point⟩ := not_or.mp moves
    rw [locateFrom_enter here ⟨filled, not_point, not_up⟩ found real]
    exact ih h

theorem filled_of_reached {e : Entry} (there : disk.entry? path = some e) : path ≠ [] := by
  rintro rfl
  cases there

/-- The listing of what a path leads to, if that is a folder. -/
theorem filesBelow_eq (there : disk.entry? path = some (.folder entries)) :
    disk.filesBelow path = (Entry.folder entries).files := by
  obtain ⟨⟨goal, found⟩, located, same⟩ := Option.bind_eq_some_iff.mp there
  obtain rfl : found = some (.folder entries) := same
  have filled : path.isEmpty = false := List.isEmpty_eq_false_iff.mpr (filled_of_reached there)
  have start : ∀ follow, disk.locate follow path = locateFrom disk.root follow maxLinks
      (if Path.isAbsolute path then [] else disk.here) (pieces path) := by
    intro follow
    rw [locate, filled, if_neg Bool.false_ne_true]
  rw [start] at located
  unfold filesBelow
  rw [start, Entry.files]
  rcases locateFrom_unfollowed located with same | ⟨goal', target, link⟩
  · rw [same]
    rfl
  · rw [link, there]

end Disk

end CodeAtlas
