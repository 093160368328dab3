import CodeAtlas.Package.Discovery
import CodeAtlas.Proofs.Listings
import CodeAtlas.Proofs.TidyDisks
import Mathlib

/-!
The source files of a package. They are the first that a walk through the library folder finds, which
opens no hidden folder and goes down one level more than the depth says (`sourcesBelow_eq_walk`). The
number of levels is a machine word: below the greatest depth the files are the first of exactly those
that lie near enough, and a greater depth loses none of them except through the cap; the greatest depth
leaves no level, and no file (`package_sources_up_to_greatest_depth`).
-/
namespace CodeAtlas

variable {disk : Disk} {library : List Char} {entries : List (String × Entry)} {names : List String}
  {depth depth' : UInt64} {count : Nat}

/-! ## Levels -/

/-- Whether a walk for the source of a package opens a folder. -/
def isOpen (name : String) : Bool := !Text.startsWith ['.'] name.toList

/-- The levels of a walk for the source of a package: the file itself is one, and the sum is a machine
word. -/
theorem levels_eq (depth : UInt64) : (depth + 1).toNat = (depth.toNat + 1) % UInt64.size :=
  UInt64.toNat_add depth 1

theorem levels_of_lt (fits : depth.toNat + 1 < UInt64.size) :
    (depth + 1).toNat = depth.toNat + 1 := by
  rw [levels_eq, Nat.mod_eq_of_lt fits]

theorem levels_of_greatest (greatest : depth.toNat + 1 = UInt64.size) : (depth + 1).toNat = 0 := by
  rw [levels_eq, greatest, Nat.mod_self]

/-! ## The walk -/

/-- The source files of a package are the first that a walk finds. -/
theorem sourcesBelow_eq_walk (there : disk.entry? library = some (.folder entries)) :
    sourcesBelow disk library depth count =
      ((((Entry.folder entries).walk isOpen (some (depth + 1).toNat)).map (Disk.below library)).filter
        Path.isSource).take count := by
  rw [sourcesBelow, Disk.filesBelow_eq there, Entry.walk_eq_filter]
  rfl

/-- The greatest depth leaves no level to the walk. -/
theorem sourcesBelow_greatest (there : disk.entry? library = some (.folder entries))
    (greatest : depth.toNat + 1 = UInt64.size) : sourcesBelow disk library depth count = [] := by
  rw [sourcesBelow_eq_walk there, levels_of_greatest greatest, Entry.walk, if_pos rfl]
  exact List.take_nil

/-! ## Files that are near enough -/

/-- The names of the source files in reach of the walk. -/
def nearNames (entries : List (String × Entry)) (library : List Char) (depth : UInt64) :
    List (List String) :=
  Disk.sourceNames library (Entry.inReach isOpen (some (depth + 1).toNat)) (.folder entries)

theorem sourcesBelow_eq_take (there : disk.entry? library = some (.folder entries)) :
    sourcesBelow disk library depth count =
      ((nearNames entries library depth).take count).map (Disk.below library) := by
  rw [sourcesBelow_eq_walk there, Entry.walk_eq_filter, Disk.filter_isSource_map_below, List.map_take]
  rfl

/-- Names that lead to a file of source text through at most so many folders, none of them hidden. -/
structure IsNearSource (e : Entry) (depth : Nat) (names : List String) : Prop
    extends Disk.HasSource e names where
  near : names.dropLast.length ≤ depth
  visible : ∀ folder ∈ names.dropLast, folder.toList.head? ≠ some '.'

theorem IsNearSource.mono {e : Entry} {depth depth' : Nat} (h : IsNearSource e depth names)
    (deeper : depth ≤ depth') : IsNearSource e depth' names :=
  { h with near := h.near.trans deeper }

/-- Below the greatest depth a walk comes just to what is near enough. -/
theorem inReach_iff (fits : depth.toNat + 1 < UInt64.size) :
    Entry.inReach isOpen (some (depth + 1).toNat) names = true ↔
      names.dropLast.length ≤ depth.toNat ∧
        ∀ folder ∈ names.dropLast, folder.toList.head? ≠ some '.' := by
  have one_more : names.length ≤ depth.toNat + 1 ↔ names.dropLast.length ≤ depth.toNat := by
    rw [List.length_dropLast]
    omega
  have visible (folder : String) : isOpen folder = true ↔ folder.toList.head? ≠ some '.' := by
    rw [isOpen, Bool.not_eq_true', ← Bool.not_eq_true]
    exact not_congr Disk.startsWith_point_iff
  rw [Entry.inReach, levels_of_lt fits, Bool.and_eq_true, Option.all_some, decide_eq_true_eq,
    List.all_eq_true, one_more]
  simp only [visible]

theorem mem_nearNames_iff (filled : library ≠ []) (tidy : (Entry.folder entries).Tidy)
    (fits : depth.toNat + 1 < UInt64.size) :
    names ∈ nearNames entries library depth ↔
      IsNearSource (.folder entries) depth.toNat names := by
  rw [nearNames, Disk.mem_sourceNames_iff filled tidy, inReach_iff fits]
  constructor
  · intro ⟨source, near, visible⟩
    exact ⟨source, near, visible⟩
  · intro h
    exact ⟨h.toHasSource, h.near, h.visible⟩

/-! ## Depth and cap -/

/-- What is cut off a list is cut off at the cap. -/
theorem mem_take_of_mem {found : List (List String)} (h : names ∈ found) :
    names ∈ found.take count ∨ (found.take count).length = count := by
  rcases Nat.le_total found.length count with few | many
  · rw [List.take_of_length_le few]
    exact .inl h
  · exact .inr (List.length_take_of_le many)

/-- The source files of a package on a tidy disk, at any depth and any cap. -/
theorem package_sources_up_to_greatest_depth (disk : Disk) (tidy : disk.Tidy) (library : List Char)
    (entries : List (String × Entry)) (there : disk.entry? library = some (.folder entries))
    (count : Nat) :
    (∀ depth : UInt64, depth.toNat + 1 < UInt64.size → ∃ found : List (List String),
      found.Pairwise (· < ·) ∧
      (∀ names, names ∈ found ↔ IsNearSource (.folder entries) depth.toNat names) ∧
      sourcesBelow disk library depth count = (found.take count).map (Disk.below library)) ∧
    (∀ depth depth' : UInt64, depth ≤ depth' → depth'.toNat + 1 < UInt64.size →
      ∀ path ∈ sourcesBelow disk library depth count,
        path ∈ sourcesBelow disk library depth' count ∨
          (sourcesBelow disk library depth' count).length = count) ∧
    ∀ depth : UInt64, depth.toNat + 1 = UInt64.size → sourcesBelow disk library depth count = [] := by
  have filled := Disk.filled_of_reached there
  have tidy := tidy.of_reached there
  refine ⟨fun depth fits => ?_, fun depth depth' deeper fits path h => ?_,
    fun depth greatest => sourcesBelow_greatest there greatest⟩
  · exact ⟨nearNames entries library depth, Disk.sourceNames_sorted tidy,
      fun names => mem_nearNames_iff filled tidy fits, sourcesBelow_eq_take there⟩
  · -- what is near enough for one depth is so for a greater one, and can only be cut off
    have deeper := UInt64.le_iff_toNat_le.mp deeper
    rw [sourcesBelow_eq_take there] at h ⊢
    obtain ⟨names, kept, rfl⟩ := List.mem_map.mp h
    have near := (mem_nearNames_iff filled tidy (by omega)).mp (List.mem_of_mem_take kept)
    have near' := (mem_nearNames_iff filled tidy fits).mpr (near.mono deeper)
    rw [List.length_map]
    exact (mem_take_of_mem near').imp_left List.mem_map_of_mem

/-- The entries of a library folder: a file, and another one in a folder. -/
def smallLibrary : List (String × Entry) :=
  [("a.dart", .file [] false), ("src", .folder [("b.dart", .file [] false)])]

/-- A disk with a library folder. -/
def smallDisk : Disk where
  root := .folder [("lib", .folder smallLibrary)]

/-- The files of that disk, as they are written. -/
def smallDiskArchive : Json :=
  .object [("lib/src/b.dart", .string ""), ("lib/a.dart", .string "")]

theorem read_smallDiskArchive : Archive.addTo? ['/'] {} smallDiskArchive = some smallDisk := by
  cbv

theorem smallDisk_library : smallDisk.entry? "/lib".toList = some (.folder smallLibrary) := by
  cbv

theorem package_sources_up_to_greatest_depth_small :
    smallDisk.Tidy ∧
    sourcesBelow smallDisk "/lib".toList 1 20 = ["/lib/a.dart".toList, "/lib/src/b.dart".toList] ∧
    (∃ found : List (List String), found.Pairwise (· < ·) ∧
      (∀ names, names ∈ found ↔ IsNearSource (.folder smallLibrary) 1 names) ∧
      sourcesBelow smallDisk "/lib".toList 1 20 =
        (found.take 20).map (Disk.below "/lib".toList)) ∧
    (∀ path ∈ sourcesBelow smallDisk "/lib".toList 0 20,
      path ∈ sourcesBelow smallDisk "/lib".toList 1 20 ∨
        (sourcesBelow smallDisk "/lib".toList 1 20).length = 20) ∧
    sourcesBelow smallDisk "/lib".toList (UInt64.ofNat (2 ^ 64 - 1)) 20 = [] := by
  have tidy : smallDisk.Tidy := Archive.tidy_read read_smallDiskArchive
  obtain ⟨near, raised, greatest⟩ := package_sources_up_to_greatest_depth smallDisk tidy
    "/lib".toList smallLibrary smallDisk_library 20
  exact ⟨tidy, by cbv, near 1 (by decide), raised 0 1 (by decide) (by decide), greatest _ (by decide)⟩

/-- The greatest depth is accepted, but the file beside the folder is not found. -/
theorem no_source_at_greatest_depth :
    let depth := UInt64.ofNat (2 ^ 64 - 1)
    ({ limits := { packageDepth := depth } } : Config).fault? = none ∧
    smallDisk.entry? "/lib".toList = some (.folder smallLibrary) ∧
    IsNearSource (.folder smallLibrary) depth.toNat ["a.dart"] ∧
    sourcesBelow smallDisk "/lib".toList depth 20 = [] := by
  intro depth
  refine ⟨rfl, smallDisk_library, ?_, sourcesBelow_greatest smallDisk_library rfl⟩
  exact
    { file := ⟨[], false, rfl⟩
      source := ⟨"a.dart", rfl, ['a'], List.cons_ne_nil _ _, rfl⟩
      near := Nat.zero_le _
      visible := List.forall_mem_nil _ }

end CodeAtlas
