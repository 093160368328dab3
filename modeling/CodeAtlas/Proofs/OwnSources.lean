import CodeAtlas.File.Sources
import CodeAtlas.Proofs.Listings
import CodeAtlas.Proofs.Runs
import CodeAtlas.Proofs.TidyDisks
import Mathlib

/-!
The source files of a project. They are the files in no hidden folder and in none of tools, without
those that a pattern stands for: on a tidy disk, as one that is read is, each source file once, in the
order of the components of the paths, and no other (`own_sources_exact`). Where no name has a
backslash, the text that the patterns are held against is that of the names between slashes
(`relativePath_eq`).
-/
namespace CodeAtlas

/-! ## Patterns -/

section Patterns

variable {pattern : String} {patterns : List String} {path : List Char}

theorem Text.trim_eq_nil_iff {s : List Char} : trim s = [] ↔ ∀ c ∈ s, isBlank c = true := by
  constructor
  · intro none
    obtain ⟨l, r, whole, before, behind⟩ := exists_blanks_around s
    rw [none, List.nil_append] at whole
    rw [whole]
    exact List.forall_mem_append.mpr ⟨before, behind⟩
  · intro blanks
    exact trim_append_blanks (s := []) ⟨nofun, nofun⟩ blanks

/-- Whether a pattern stands for a path: it is not blank, it is a glob, and the glob fits. -/
structure Ignores (pattern : String) (path : List Char) : Prop where
  not_blank : ∃ c ∈ pattern.toList, Text.isBlank c = false
  fits : ∃ glob, Glob.parse? pattern.toList = some glob ∧ glob.fits path = true

theorem mem_globsOf_iff {glob : Glob} : glob ∈ globsOf patterns ↔ ∃ pattern ∈ patterns,
    (∃ c ∈ pattern.toList, Text.isBlank c = false) ∧ Glob.parse? pattern.toList = some glob := by
  have not_blank (pattern : String) : (!(Text.trim pattern.toList).isEmpty) = true ↔
      ∃ c ∈ pattern.toList, Text.isBlank c = false := by
    rw [Bool.not_eq_true', ← Bool.not_eq_true, List.isEmpty_iff, Text.trim_eq_nil_iff]
    simp
  simp only [globsOf, List.mem_filterMap, List.mem_filter, not_blank, and_assoc]

theorem any_globsOf_iff : (globsOf patterns).any (·.fits path) = true ↔
    ∃ pattern ∈ patterns, Ignores pattern path := by
  rw [List.any_eq_true]
  constructor
  · intro ⟨glob, listed, fits⟩
    obtain ⟨pattern, given, filled, parsed⟩ := mem_globsOf_iff.mp listed
    exact ⟨pattern, given, filled, glob, parsed, fits⟩
  · intro ⟨pattern, given, filled, glob, parsed, fits⟩
    exact ⟨glob, mem_globsOf_iff.mpr ⟨pattern, given, filled, parsed⟩, fits⟩

end Patterns

variable {disk : Disk} {root : List Char} {entries : List (String × Entry)} {names : List String}
  {patterns : List String}

/-! ## Names -/

/-- The path that names make between slashes. -/
def slashed (names : List String) : List Char := Text.joinWith ['/'] (names.map String.toList)

theorem mem_slashed {c : Char} (h : c ∈ slashed names) : c = '/' ∨ ∃ name ∈ names, c ∈ name.toList := by
  have whole : slashed names = Text.joinWith ['/'] (names.map String.toList) := rfl
  cases names with
  | nil => cases h
  | cons name names =>
    have behind := List.mem_cons_of_mem '/' h
    rw [whole, Text.joinWith_cons '/' _ (by simp), List.mem_flatMap] at behind
    obtain ⟨piece, named, here⟩ := behind
    obtain ⟨name, given, rfl⟩ := List.mem_map.mp named
    exact (List.mem_cons.mp here).imp_right fun inside => ⟨name, given, inside⟩

/-- A path without backslashes is held against the patterns as it is. -/
theorem relativePath_eq (plain : ∀ name ∈ names, '\\' ∉ name.toList) :
    relativePath names = slashed names := by
  have kept : ∀ c ∈ slashed names, (if c = '\\' then '/' else c) = c := by
    intro c hc
    apply if_neg
    rintro rfl
    rcases mem_slashed hc with same | ⟨name, given, inside⟩
    · exact absurd same (by decide)
    · exact plain name given inside
  calc relativePath names = (slashed names).map fun c => if c = '\\' then '/' else c := rfl
    _ = (slashed names).map id := List.map_congr_left kept
    _ = slashed names := List.map_id _

/-- The other folders of tools are hidden. -/
theorem isSourceFolder_iff {name : String} : isSourceFolder name = true ↔
    name.toList.head? ≠ some '.' ∧ name ≠ "build" ∧ name ≠ "graphs_data" := by
  have not_hidden : (!Text.startsWith ['.'] name.toList) = true ↔ name.toList.head? ≠ some '.' := by
    rw [Bool.not_eq_true', ← Bool.not_eq_true]
    exact not_congr Disk.startsWith_point_iff
  rw [isSourceFolder, Bool.and_eq_true, not_hidden]
  refine and_congr_right fun visible => ?_
  have not_tool : name ≠ ".dart_tool" := by
    rintro rfl
    exact visible rfl
  have not_git : name ≠ ".git" := by
    rintro rfl
    exact visible rfl
  simp [toolFolders, not_tool, not_git]

/-- Names that lead to a source file of the project's own: through no folder that is hidden or that
tools write, and by a path that no pattern stands for. -/
structure IsOwnFile (e : Entry) (patterns : List String) (names : List String) : Prop
    extends Disk.HasSource e names where
  folders : ∀ folder ∈ names.dropLast,
    folder.toList.head? ≠ some '.' ∧ folder ≠ "build" ∧ folder ≠ "graphs_data"
  not_ignored : ∀ pattern ∈ patterns, ¬Ignores pattern (slashed names)

theorem isOwnSource_iff (plain : ∀ name ∈ names, '\\' ∉ name.toList) :
    isOwnSource (globsOf patterns) names = true ↔
      (∀ folder ∈ names.dropLast,
        folder.toList.head? ≠ some '.' ∧ folder ≠ "build" ∧ folder ≠ "graphs_data") ∧
      ∀ pattern ∈ patterns, ¬Ignores pattern (slashed names) := by
  rw [isOwnSource, relativePath_eq plain, Bool.and_eq_true, List.all_eq_true, Bool.not_eq_true',
    ← Bool.not_eq_true, any_globsOf_iff]
  simp only [isSourceFolder_iff, not_exists, not_and]

/-! ## The walk -/

theorem sourcePaths_of_folder (there : disk.entry? root = some (.folder entries)) :
    sourcePaths disk root patterns =
      .ok ((((Entry.folder entries).files.filter (isOwnSource (globsOf patterns))).map
        (Disk.below root)).filter Path.isSource) := by
  have folder : disk.isFolder root = true := by rw [Disk.isFolder, there]
  rw [sourcePaths, if_pos folder, Disk.filesBelow_eq there]

/-- The source files of a project are found, each once and in the order of their components. -/
theorem own_sources_exact (disk : Disk) (tidy : disk.Tidy) (root : List Char)
    (entries : List (String × Entry)) (there : disk.entry? root = some (.folder entries))
    (plain : ∀ names, (Entry.folder entries).HasFile names → ∀ name ∈ names, '\\' ∉ name.toList)
    (patterns : List String) :
    ∃ paths, sourcePaths disk root patterns = .ok paths ∧ paths.Nodup ∧
      paths.Pairwise (fun a b => Path.components a < Path.components b) ∧
      ∀ path, path ∈ paths ↔
        ∃ names, path = Disk.below root names ∧ IsOwnFile (.folder entries) patterns names := by
  have filled := Disk.filled_of_reached there
  have tidy := tidy.of_reached there
  let own := Disk.sourceNames root (isOwnSource (globsOf patterns)) (.folder entries)
  have mem_own (names) : names ∈ own ↔ IsOwnFile (.folder entries) patterns names := by
    rw [Disk.mem_sourceNames_iff filled tidy]
    constructor
    · intro ⟨source, kept⟩
      have ⟨folders, not_ignored⟩ := (isOwnSource_iff (plain names source.file)).mp kept
      exact ⟨source, folders, not_ignored⟩
    · intro h
      exact ⟨h.toHasSource, (isOwnSource_iff (plain names h.file)).mpr ⟨h.folders, h.not_ignored⟩⟩
  have proper : ∀ names ∈ own, ∀ name ∈ names, FileUri.IsEntryName name.toList := by
    intro names h
    obtain ⟨bytes, executable, found⟩ := ((mem_own names).mp h).file
    exact tidy.proper_of_at? found
  have sorted : (own.map (Disk.below root)).Pairwise
      fun a b => Path.components a < Path.components b := by
    rw [List.pairwise_map]
    exact (Disk.sourceNames_sorted tidy).imp_of_mem fun here there before =>
      Disk.below_lt filled (proper _ here) (proper _ there) before
  refine ⟨own.map (Disk.below root), ?_, ?_, sorted, ?_⟩
  · rw [sourcePaths_of_folder there, Disk.filter_isSource_map_below]
  · -- no path comes before itself
    rw [List.Nodup]
    refine sorted.imp fun {a b} before => ?_
    rintro rfl
    exact List.lt_irrefl _ before
  · intro path
    rw [List.mem_map]
    simp only [mem_own, eq_comm, and_comm]

/-- A folder of a project: a source file, a generated one, and one that a tool has built. -/
def smallProject : List (String × Entry) :=
  [("a.dart", .file [] false), ("a.g.dart", .file [] false),
    ("build", .folder [("b.dart", .file [] false)])]

/-- The files of a disk with that folder, as they are written. -/
def smallArchive : Json :=
  .object [("app/build/b.dart", .string ""), ("app/a.g.dart", .string ""),
    ("app/a.dart", .string "")]

theorem read_smallArchive : Archive.addTo? ['/'] {} smallArchive =
    some { root := .folder [("app", .folder smallProject)] } := by
  cbv

theorem own_sources_exact_small :
    let disk : Disk := { root := .folder [("app", .folder smallProject)] }
    disk.Tidy ∧ sourcePaths disk "/app".toList ["**/*.g.dart", " "] = .ok ["/app/a.dart".toList] ∧
    ∃ paths, sourcePaths disk "/app".toList ["**/*.g.dart", " "] = .ok paths ∧ paths.Nodup ∧
      paths.Pairwise (fun a b => Path.components a < Path.components b) ∧
      ∀ path, path ∈ paths ↔ ∃ names, path = Disk.below "/app".toList names ∧
        IsOwnFile (.folder smallProject) ["**/*.g.dart", " "] names := by
  intro disk
  have tidy : disk.Tidy := Archive.tidy_read read_smallArchive
  have there : disk.entry? "/app".toList = some (.folder smallProject) := by cbv
  have listed : ∀ names ∈ (Entry.folder smallProject).files, ∀ name ∈ names, '\\' ∉ name.toList := by
    decide
  exact ⟨tidy, by cbv, own_sources_exact disk tidy "/app".toList smallProject there
    (fun names file => listed names ((Entry.mem_files_iff (tidy.of_reached there)).mpr file)) _⟩

end CodeAtlas
