import CodeAtlas.Command.Run
import Mathlib

/-!
The sources of a project are loaded together or not at all. Every file that can be read gives one
source; but the first one that cannot be read, or is not text, ends the loading, and nothing is left
of the others (`sources_load_together`). So such a file among the sources of a project ends the run,
before anything is asked or written (`Command.run_of_unreadable`).
-/
namespace CodeAtlas

/-- The id and the text of a file that can be read and is text. -/
def readable? (disk : Disk) (path : List Char) : Option (String × String) := do
  let uri ← FileUri.ofPath? path
  let text ← disk.text? path
  return (String.ofList uri, String.ofList text)

/-- The sources of the files that can be read, in order, the others left out. -/
def readableSources (disk : Disk) (paths : List (List Char)) : List (String × String) :=
  paths.filterMap (readable? disk)

variable {disk : Disk} {path : List Char} {paths : List (List Char)}

/-! ## One file -/

theorem exists_uri (absolute : Path.isAbsolute path) : ∃ uri, FileUri.ofPath? path = some uri := by
  unfold FileUri.ofPath?
  rw [if_pos absolute]
  exact ⟨_, rfl⟩

theorem loadSource_of_text (absolute : Path.isAbsolute path) (text : disk.text? path ≠ none) :
    ∃ source, readable? disk path = some source ∧ loadSource disk path = .ok source := by
  obtain ⟨uri, hu⟩ := exists_uri absolute
  obtain ⟨text, ht⟩ := Option.ne_none_iff_exists'.mp text
  refine ⟨(String.ofList uri, String.ofList text), ?_, ?_⟩
  · rw [readable?, hu, ht]
    rfl
  · rw [loadSource, hu, ht]

theorem loadSource_of_no_text (absolute : Path.isAbsolute path) (no_text : disk.text? path = none) :
    loadSource disk path = .error (.unreadable (String.ofList path)) := by
  obtain ⟨uri, hu⟩ := exists_uri absolute
  rw [loadSource, hu, no_text]

/-! ## All files -/

theorem loadSources_cons_ok {source : String × String}
    (loaded : loadSource disk path = .ok source) :
    loadSources disk (path :: paths) = (loadSources disk paths).map (source :: ·) := by
  show List.mapM _ _ = _
  rw [List.mapM_cons, loaded]
  show (loadSources disk paths >>= fun sources => pure (source :: sources)) = _
  cases loadSources disk paths with
  | ok sources => rfl
  | error fault => rfl

theorem loadSources_cons_error {fault : SourceFault}
    (failed : loadSource disk path = .error fault) :
    loadSources disk (path :: paths) = .error fault := by
  show List.mapM _ _ = _
  rw [List.mapM_cons, failed]
  rfl

/-- The first file without text among files. -/
structure FirstWithoutText (disk : Disk) (paths : List (List Char)) (path : List Char) : Prop where
  place : ∃ before after, paths = before ++ path :: after ∧ ∀ q ∈ before, disk.text? q ≠ none
  no_text : disk.text? path = none

theorem exists_firstWithoutText (h : ∃ path ∈ paths, disk.text? path = none) :
    ∃ path, FirstWithoutText disk paths path := by
  obtain ⟨bad, hb, no_text⟩ := h
  have found : (paths.find? fun path => (disk.text? path).isNone).isSome :=
    List.find?_isSome.mpr ⟨bad, hb, Option.isNone_iff_eq_none.mpr no_text⟩
  obtain ⟨path, found⟩ := Option.isSome_iff_exists.mp found
  obtain ⟨none_here, before, after, place, texts⟩ := List.find?_eq_some_iff_append.mp found
  refine ⟨path, ⟨before, after, place, fun q hq => ?_⟩, Option.isNone_iff_eq_none.mp none_here⟩
  exact Option.isSome_iff_ne_none.mp (by simpa using texts q hq)

/-- Files with texts are all loaded. -/
theorem loadSources_of_texts (absolute : ∀ path ∈ paths, Path.isAbsolute path)
    (texts : ∀ path ∈ paths, disk.text? path ≠ none) :
    loadSources disk paths = .ok (readableSources disk paths) ∧
      List.Forall₂ (fun path source => readable? disk path = some source) paths
        (readableSources disk paths) := by
  induction paths with
  | nil => exact ⟨rfl, .nil⟩
  | cons path paths ih =>
    obtain ⟨here, others⟩ := List.forall_mem_cons.mp absolute
    obtain ⟨text, more⟩ := List.forall_mem_cons.mp texts
    obtain ⟨source, readable, loaded⟩ := loadSource_of_text here text
    obtain ⟨all, each⟩ := ih others more
    rw [readableSources, List.filterMap_cons_some readable]
    refine ⟨?_, .cons readable each⟩
    rw [loadSources_cons_ok loaded, all]
    rfl

/-- The first file without text ends the loading. -/
theorem loadSources_of_first (absolute : ∀ path ∈ paths, Path.isAbsolute path)
    (first : FirstWithoutText disk paths path) :
    loadSources disk paths = .error (.unreadable (String.ofList path)) := by
  obtain ⟨⟨before, after, rfl, texts⟩, no_text⟩ := first
  induction before with
  | nil =>
    have here := absolute path List.mem_cons_self
    exact loadSources_cons_error (loadSource_of_no_text here no_text)
  | cons q before ih =>
    obtain ⟨here, others⟩ := List.forall_mem_cons.mp absolute
    obtain ⟨text, more⟩ := List.forall_mem_cons.mp texts
    obtain ⟨source, -, loaded⟩ := loadSource_of_text here text
    rw [List.cons_append, loadSources_cons_ok loaded, ih more others]
    rfl

/-! ## The run -/

theorem Path.isAbsolute_join {folder : List Char} (absolute : isAbsolute folder)
    (name : List Char) : isAbsolute (join folder name) := by
  obtain ⟨c, rest, rfl⟩ : ∃ c rest, folder = c :: rest :=
    List.exists_cons_of_ne_nil (by rintro rfl; cases absolute)
  unfold join
  split
  · assumption
  · split <;> exact absolute

theorem Disk.isAbsolute_below {folder : List Char} (absolute : Path.isAbsolute folder)
    (names : List String) : Path.isAbsolute (below folder names) := by
  unfold below
  induction names generalizing folder with
  | nil => exact absolute
  | cons name names ih => exact ih (Path.isAbsolute_join absolute _)

theorem isAbsolute_of_sourcePaths {root : List Char} {globs : List String}
    (absolute : Path.isAbsolute root) (found : sourcePaths disk root globs = .ok paths) :
    ∀ path ∈ paths, Path.isAbsolute path := by
  intro path hp
  unfold sourcePaths at found
  split at found
  · obtain rfl := Except.ok.inj found
    obtain ⟨hp, -⟩ := List.mem_filter.mp hp
    obtain ⟨names, -, rfl⟩ := List.mem_map.mp hp
    exact Disk.isAbsolute_below absolute names
  · cases found

theorem Disk.isAbsolute_of_canonical? {root : List Char} (h : disk.canonical? path = some root) :
    Path.isAbsolute root := by
  unfold canonical? at h
  split at h
  · obtain rfl := Option.some.inj h
    rfl
  · cases h

namespace Command

/-- The project and its configuration are there, and its sources have the given paths. -/
def Finds (m : Machine) (a : Arguments) (paths : List (List Char)) : Prop :=
  ∃ root config, m.disk.canonical? a.project.toList = some root ∧
    Config.load m.disk root (Variables.load m.disk m.environment).get? = .ok config ∧
    sourcePaths m.disk root config.filters.ignoreGlobs = .ok paths

/-- A source that cannot be read ends the run: nothing is written and nothing is sent. -/
theorem run_of_unreadable {m : Machine} {args : List String} {a : Arguments}
    (parsed : Arguments.parse args = .ok a) (found : Finds m a paths)
    (first : FirstWithoutText m.disk paths path) :
    run m args = ⟨.failed ("reading " ++ String.ofList path), m.disk, []⟩ := by
  obtain ⟨root, config, canonical, configured, listed⟩ := found
  have absolute := isAbsolute_of_sourcePaths (Disk.isAbsolute_of_canonical? canonical) listed
  have failed := loadSources_of_first absolute first
  have ended : prepare m a = .error ("reading " ++ String.ofList path) := by
    unfold prepare
    rw [canonical]
    show (Config.load m.disk root _).mapError Fault.message >>= _ = _
    rw [configured]
    show (sourcePaths m.disk root _).mapError SourceFault.message >>= _ = _
    rw [listed]
    show (loadSources m.disk paths).mapError SourceFault.message >>= _ = _
    rw [failed]
    rfl
  unfold run
  rw [parsed]
  simp only [ended]

end Command

/-! ## Together or not at all -/

/-- If each of the files can be read, loading gives one source for each, in order. Otherwise it gives
no source at all, but the first of the files that cannot be read, and a run for these files fails
with it. -/
theorem sources_load_together (disk : Disk) (paths : List (List Char))
    (absolute : ∀ path ∈ paths, Path.isAbsolute path) :
    (loadSources disk paths = .ok (readableSources disk paths) ∧
      List.Forall₂ (fun path source => readable? disk path = some source) paths
        (readableSources disk paths)) ∨
    ∃ path, FirstWithoutText disk paths path ∧
      loadSources disk paths = .error (.unreadable (String.ofList path)) ∧
      ∀ (m : Machine) (args : List String) (a : Arguments), m.disk = disk →
        Arguments.parse args = .ok a → Command.Finds m a paths →
          Command.run m args = ⟨.failed ("reading " ++ String.ofList path), disk, []⟩ := by
  by_cases bad : ∃ path ∈ paths, disk.text? path = none
  · obtain ⟨path, first⟩ := exists_firstWithoutText bad
    refine .inr ⟨path, first, loadSources_of_first absolute first, ?_⟩
    rintro m args a rfl parsed found
    exact Command.run_of_unreadable parsed found first
  · have texts : ∀ path ∈ paths, disk.text? path ≠ none := fun path hp no_text =>
      bad ⟨path, hp, no_text⟩
    exact .inl (loadSources_of_texts absolute texts)

/-- A project with two sources, the first of which is not text. -/
def brokenProject : Disk where
  root := .folder [("app", .folder [("bad.dart", .file [0xFF] false), ("good.dart", .file [] false)])]

def brokenPaths : List (List Char) := ["/app/bad.dart".toList, "/app/good.dart".toList]

theorem sources_load_together_broken :
    (∀ path ∈ brokenPaths, Path.isAbsolute path) ∧
    ((loadSources brokenProject brokenPaths = .ok (readableSources brokenProject brokenPaths) ∧
      List.Forall₂ (fun path source => readable? brokenProject path = some source) brokenPaths
        (readableSources brokenProject brokenPaths)) ∨
    ∃ path, FirstWithoutText brokenProject brokenPaths path ∧
      loadSources brokenProject brokenPaths = .error (.unreadable (String.ofList path)) ∧
      ∀ (m : Machine) (args : List String) (a : Arguments), m.disk = brokenProject →
        Arguments.parse args = .ok a → Command.Finds m a brokenPaths →
          Command.run m args = ⟨.failed ("reading " ++ String.ofList path), brokenProject, []⟩) :=
  have absolute : ∀ path ∈ brokenPaths, Path.isAbsolute path := by decide +kernel
  ⟨absolute, sources_load_together brokenProject brokenPaths absolute⟩

theorem brokenProject_found :
    Command.Finds { disk := brokenProject } { project := "/app" } brokenPaths := by
  have no_file : brokenProject.isFile (Path.join "/app".toList Config.fileName.toList) = false := by
    cbv
  have no_variables : Variables.load brokenProject [] = [] := by cbv
  have usual : Config.read brokenProject "/app".toList = .ok {} := by
    unfold Config.read
    exact if_neg (Bool.eq_false_iff.mp no_file)
  refine ⟨"/app".toList, {}, by cbv, ?_, by cbv⟩
  unfold Config.load
  rw [usual, no_variables]
  rfl

theorem brokenProject_first : FirstWithoutText brokenProject brokenPaths "/app/bad.dart".toList where
  place := ⟨[], ["/app/good.dart".toList], rfl, by simp⟩
  no_text := by cbv

/-- The source of the one file that can be read is lost with the other file, and the project is not
analysed. -/
theorem unreadable_source_spoils_others :
    readableSources brokenProject brokenPaths = [("file:///app/good.dart", "")] ∧
    loadSources brokenProject brokenPaths = .error (.unreadable "/app/bad.dart") ∧
    Command.run { disk := brokenProject } ["/app"] =
      ⟨.failed "reading /app/bad.dart", brokenProject, []⟩ := by
  refine ⟨by cbv, by cbv, ?_⟩
  have parsed : Arguments.parse ["/app"] = .ok { project := "/app" } := by cbv
  exact Command.run_of_unreadable parsed brokenProject_found brokenProject_first

end CodeAtlas
