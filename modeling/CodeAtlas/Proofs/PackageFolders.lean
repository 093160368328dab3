import CodeAtlas.Package.Discovery
import CodeAtlas.Proofs.FileUris
import CodeAtlas.Proofs.Pieces
import CodeAtlas.Proofs.Places

/-!
Folders of packages, which are named by a URI of the scheme `file` or by a reference from the folder of
the list. A URI is decoded, so it names every folder whose first name is no drive in the old spelling
(`FileUri.components_written`). A reference is taken as a path, undecoded, so it names a folder just if
nothing in the names on the way down has to be encoded (`package_roots_name_folders`).
-/
namespace CodeAtlas

namespace FileUri

theorem IsEntryName.isDown {name : String} (h : IsEntryName name.toList) : Disk.IsDown name where
  filled := by
    rintro rfl
    exact h.filled rfl
  not_point := by
    rintro rfl
    exact h.not_point rfl
  not_points := by
    rintro rfl
    exact h.not_points rfl

theorem path_components {place : List String} (proper : ∀ n ∈ place, IsEntryName n.toList) :
    Path.components (Disk.pathOf place) = Path.rootComponent :: place.map String.toList := by
  have names : ∀ s ∈ place.map String.toList, IsEntryName s := List.forall_mem_map.mpr proper
  have components := components_of_names names (.inl rfl) (.inl rfl)
  rwa [List.append_nil] at components

end FileUri

/-! ## References -/

/-- The segments of a reference that goes up some folders and then down by names, with a point in
front or without. -/
def referenceSegments (point : Bool) (ups : Nat) (names : List String) : List (List Char) :=
  (if point then [['.']] else []) ++ List.replicate ups ['.', '.'] ++
    names.map fun n => FileUri.encodeSegment n.toList

/-- A reference from a folder, with a slash behind or without. -/
def reference (point slash : Bool) (ups : Nat) (names : List String) : List Char :=
  Text.joinWith ['/'] (referenceSegments point ups names) ++ (if slash then ['/'] else [])

/-- The path that a reference from a folder is taken for. -/
def referenced (folder : List Char) (point : Bool) (ups : Nat) (names : List String) : List Char :=
  folder ++ '/' :: Text.joinWith ['/'] (referenceSegments point ups names)

/-- The name that a walk goes by where a reference is not decoded. -/
def undecoded (name : String) : String := String.ofList (FileUri.encodeSegment name.toList)

section

variable {disk : Disk}

/-- The text of a segment that means something in a path. -/
structure IsSegment (s : List Char) : Prop where
  filled : s ≠ []
  whole : '/' ∉ s

theorem isSegment_of_mem {point : Bool} {ups : Nat} {names : List String}
    (proper : ∀ n ∈ names, FileUri.IsEntryName n.toList) :
    ∀ s ∈ referenceSegments point ups names, IsSegment s := by
  intro s hs
  rcases List.mem_append.mp hs with hs | hs
  · have dots : s = ['.'] ∨ s = ['.', '.'] := by
      rcases List.mem_append.mp hs with hs | hs
      · cases point
        · exact absurd hs List.not_mem_nil
        · exact .inl (List.mem_singleton.mp hs)
      · exact .inr (List.eq_of_mem_replicate hs)
    rcases dots with rfl | rfl <;> exact ⟨by simp, by simp⟩
  · obtain ⟨n, hn, rfl⟩ := List.mem_map.mp hs
    exact ⟨(proper n hn).encoded.filled, (proper n hn).encoded.whole⟩

/-- Joined segments end in what is no slash. -/
theorem joinWith_end {segs : List (List Char)} (some_segment : segs ≠ [])
    (segments : ∀ s ∈ segs, IsSegment s) :
    ∃ front c, Text.joinWith ['/'] segs = front ++ [c] ∧ c ≠ '/' := by
  induction segs with
  | nil => exact absurd rfl some_segment
  | cons s rest ih =>
    obtain ⟨first, others⟩ := List.forall_mem_cons.mp segments
    cases rest with
    | nil =>
      have split := (List.dropLast_append_getLast first.filled).symm
      refine ⟨s.dropLast, s.getLast first.filled, split, fun same => ?_⟩
      exact first.whole (same ▸ List.getLast_mem first.filled)
    | cons t rest =>
      obtain ⟨front, c, split, other⟩ := ih (List.cons_ne_nil t rest) others
      have joined : Text.joinWith ['/'] (s :: t :: rest) =
          s ++ ['/'] ++ Text.joinWith ['/'] (t :: rest) := rfl
      exact ⟨s ++ ['/'] ++ front, c, by rw [joined, split, ← List.append_assoc], other⟩

/-- What is joined begins with its first segment. -/
theorem joinWith_start (first : List Char) (rest : List (List Char)) :
    ∃ tail, Text.joinWith ['/'] (first :: rest) = first ++ tail ∧
      (tail = [] ∨ ∃ more, tail = '/' :: more) := by
  cases rest with
  | nil => exact ⟨[], (List.append_nil first).symm, .inl rfl⟩
  | cons s rest =>
    exact ⟨'/' :: Text.joinWith ['/'] (s :: rest), by simp [Text.joinWith], .inr ⟨_, rfl⟩⟩

/-- A reference whose first segment has no colon is taken as a path below the folder of the list. -/
theorem packageFolder?_relative {folder : List Char} (filled : folder ≠ [])
    (unslashed : folder.getLast? ≠ some '/') {first : List Char} {rest : List (List Char)}
    (segments : ∀ s ∈ first :: rest, IsSegment s) (no_scheme : ':' ∉ first) {ending : List Char}
    (slashes : ending = [] ∨ ending = ['/']) :
    packageFolder? disk folder (Text.joinWith ['/'] (first :: rest) ++ ending) =
      some ((disk.canonical? (folder ++ '/' :: Text.joinWith ['/'] (first :: rest))).getD
        (folder ++ '/' :: Text.joinWith ['/'] (first :: rest))) := by
  obtain ⟨tail, start, cut⟩ := joinWith_start first rest
  obtain ⟨front, c, finish, other⟩ := joinWith_end (List.cons_ne_nil first rest) segments
  obtain ⟨some_char, no_slash⟩ := segments first List.mem_cons_self
  have before : (Text.joinWith ['/'] (first :: rest) ++ ending).takeWhile (· != '/') = first := by
    have own : ∀ x ∈ first, (x != '/') = true := by
      intro x hx
      exact bne_iff_ne.mpr fun same => no_slash (same ▸ hx)
    rw [start, List.append_assoc, List.takeWhile_append_of_pos own]
    rcases cut with rfl | ⟨more, rfl⟩
    · rcases slashes with rfl | rfl <;> simp
    · simp
  have relative : Text.startsWith "file:".toList
      (Text.joinWith ['/'] (first :: rest) ++ ending) = false := by
    rw [Bool.eq_false_iff, Ne, Text.startsWith_iff]
    rintro ⟨more, same⟩
    rw [← same] at before
    refine no_scheme ?_
    rw [← before]
    simp
  have trimmed : ((Text.joinWith ['/'] (first :: rest) ++ ending).reverse.dropWhile
      (· == '/')).reverse = Text.joinWith ['/'] (first :: rest) := by
    rw [finish]
    rcases slashes with rfl | rfl <;> simp [other]
  have below : Path.isAbsolute (Text.joinWith ['/'] (first :: rest)) = false := by
    cases first with
    | nil => exact absurd rfl some_char
    | cons x first =>
      rw [start, Path.isAbsolute, List.cons_append, List.head?_cons]
      exact beq_eq_false_iff_ne.mpr fun same =>
        no_slash (Option.some.inj same ▸ List.mem_cons_self)
  have inside : (folder.isEmpty || decide (folder.getLast? = some '/')) = false := by
    rw [List.isEmpty_eq_false_iff.mpr filled, decide_eq_false unslashed, Bool.or_false]
  rw [packageFolder?, if_neg (Bool.eq_false_iff.mp relative), trimmed, Path.join,
    if_neg (Bool.eq_false_iff.mp below), if_neg (Bool.eq_false_iff.mp inside)]

end

/-! ## Walks -/

section

variable {disk : Disk} {folder : List Char} {common up names : List String}
  {entries : List (String × Entry)}

/-- A walk into a folder that is there goes on from that folder. -/
theorem locate_below {goal : List String} {e : Entry}
    (there : disk.locate true folder = some (goal, some e)) :
    disk.root.at? goal = some e ∧ ∃ links, ∀ rest, disk.locate true (folder ++ '/' :: rest) =
      Disk.locateFrom disk.root true links goal (Disk.pieces rest) := by
  cases folder with
  | nil => cases there
  | cons c folder =>
    obtain ⟨found, links, on⟩ := Disk.locateFrom_append there
    refine ⟨found, links, fun rest => ?_⟩
    have pieces : Disk.pieces (c :: folder ++ '/' :: rest) =
        Disk.pieces (c :: folder) ++ Disk.pieces rest := by
      rw [Disk.pieces, Text.splitOn_append, List.map_append, Disk.pieces, Disk.pieces]
    rw [← on, ← pieces]
    rfl

/-- A reference that goes up to a place leads down from there, by names that are not decoded. -/
theorem locate_reference (proper : ∀ n ∈ names, FileUri.IsEntryName n.toList)
    (there : disk.locate true folder = some (common ++ up, some (.folder entries)))
    {point : Bool} (some_segment : referenceSegments point up.length names ≠ []) :
    ∃ links, disk.locate true (referenced folder point up.length names) =
      Disk.locateFrom disk.root true links common (names.map undecoded) := by
  obtain ⟨found, links, on⟩ := locate_below there
  refine ⟨links, ?_⟩
  have whole : ∀ s ∈ referenceSegments point up.length names, '/' ∉ s := fun s hs =>
    (isSegment_of_mem proper s hs).whole
  have names_down : names.map undecoded =
      (names.map fun n => FileUri.encodeSegment n.toList).map String.ofList := by
    rw [List.map_map]
    rfl
  have points : String.ofList ['.', '.'] = ".." := rfl
  rw [referenced, on, Disk.pieces, Text.splitOn_joinWith some_segment whole, referenceSegments,
    List.map_append, List.map_append, ← names_down, List.map_replicate, points, List.append_assoc,
    ← Disk.locateFrom_up up (names.map undecoded) found]
  cases point with
  | false => rfl
  | true => exact Disk.locateFrom_stay found (.inr rfl)

/-- A reference that no name has to be encoded for leads to the folder that it is meant for. -/
theorem canonical?_reference (proper : ∀ n ∈ names, FileUri.IsEntryName n.toList)
    (there : disk.locate true folder = some (common ++ up, some (.folder entries)))
    {point : Bool} (some_segment : referenceSegments point up.length names ≠ [])
    {inner : List (String × Entry)} (goal : disk.root.at? (common ++ names) = some (.folder inner))
    (plain : ∀ n ∈ names, FileUri.encodeSegment n.toList = n.toList) :
    disk.canonical? (referenced folder point up.length names) =
      some (Disk.pathOf (common ++ names)) := by
  obtain ⟨links, walk⟩ := locate_reference proper there some_segment
  have same : names.map undecoded = names := by
    refine (List.map_congr_left fun n hn => ?_).trans (List.map_id' names)
    rw [undecoded, plain n hn, String.ofList_toList]
  rw [same, Disk.locateFrom_down (fun n hn => (proper n hn).isDown) goal] at walk
  rw [Disk.canonical?, walk]

/-- Where there are no links, what a reference leads to ends in the names as they are encoded. -/
theorem components_reference (bare : disk.root.Linkless)
    (proper : ∀ n ∈ names, FileUri.IsEntryName n.toList)
    (proper' : ∀ n ∈ common, FileUri.IsEntryName n.toList)
    (there : disk.locate true folder = some (common ++ up, some (.folder entries)))
    {point : Bool} (some_segment : referenceSegments point up.length names ≠ []) :
    ∃ front, Path.components ((disk.canonical? (referenced folder point up.length names)).getD
        (referenced folder point up.length names)) =
      front ++ names.map fun n => FileUri.encodeSegment n.toList := by
  obtain ⟨links, walk⟩ := locate_reference proper there some_segment
  have encoded : ∀ n ∈ names.map undecoded, FileUri.IsEntryName n.toList := by
    refine List.forall_mem_map.mpr fun n hn => ?_
    rw [undecoded, String.toList_ofList]
    exact (proper n hn).encoded
  have texts : (names.map undecoded).map String.toList =
      names.map fun n => FileUri.encodeSegment n.toList := by
    rw [List.map_map]
    exact List.map_congr_left fun n _ => String.toList_ofList
  rw [Disk.canonical?, walk]
  split
  · rename_i place e arrives
    have goal := Disk.eq_of_locateFrom bare (fun n hn => (encoded n hn).isDown) arrives
    refine ⟨Path.rootComponent :: common.map String.toList, ?_⟩
    have whole_place := List.forall_mem_append.mpr ⟨proper', encoded⟩
    rw [Option.getD_some, goal, FileUri.path_components whole_place, List.map_append, texts]
    rfl
  · have whole : ∀ s ∈ referenceSegments point up.length names, '/' ∉ s := fun s hs =>
      (isSegment_of_mem proper s hs).whole
    have kept : (names.map fun n => FileUri.encodeSegment n.toList).filter
        (fun p => !p.isEmpty && p != ['.']) = names.map fun n => FileUri.encodeSegment n.toList := by
      refine List.filter_eq_self.mpr (List.forall_mem_map.mpr fun n hn => ?_)
      simp [(proper n hn).encoded.filled, (proper n hn).encoded.not_point]
    rw [Option.getD_none, referenced, Path.components_append, Path.pieces,
      Text.splitOn_joinWith some_segment whole, referenceSegments, List.filter_append, kept, ← List.append_assoc]
    exact ⟨_, rfl⟩

end

/-! ## Both forms -/

/-- The folder that the list of packages of a project lies in. -/
def listFolder (project : List Char) : List Char := Path.join project ".dart_tool".toList

theorem listFolder_unslashed (project : List Char) :
    listFolder project ≠ [] ∧ (listFolder project).getLast? ≠ some '/' := by
  have relative : Path.isAbsolute ".dart_tool".toList = false := rfl
  rw [listFolder, Path.join, if_neg (Bool.eq_false_iff.mp relative)]
  split <;> simp

/-- A reference is taken for a path, whatever stands behind it. -/
theorem packageFolder?_reference (disk : Disk) (project : List Char) {names : List String}
    (proper : ∀ n ∈ names, FileUri.IsEntryName n.toList) {point : Bool} (slash : Bool) {ups : Nat}
    {first : List Char} {rest : List (List Char)}
    (segments : referenceSegments point ups names = first :: rest) (no_scheme : ':' ∉ first) :
    packageFolder? disk (listFolder project) (reference point slash ups names) =
      some ((disk.canonical? (referenced (listFolder project) point ups names)).getD
        (referenced (listFolder project) point ups names)) := by
  obtain ⟨filled, unslashed⟩ := listFolder_unslashed project
  have each : ∀ s ∈ referenceSegments point ups names, IsSegment s := isSegment_of_mem proper
  rw [reference, referenced]
  rw [segments] at each ⊢
  exact packageFolder?_relative filled unslashed each no_scheme (by cases slash <;> simp)

/-- A path is the one to a place if its components are the names that lead there. -/
theorem same_pathOf {place : List String} (proper : ∀ n ∈ place, FileUri.IsEntryName n.toList)
    (found : List Char) : Path.same found (Disk.pathOf place) = true ↔
      Path.components found = Path.rootComponent :: place.map String.toList := by
  rw [Path.same, beq_iff_eq, FileUri.path_components proper]

/-- The URIs of a folder, with a slash behind or without, name that folder, unless its first name is a
drive in the old spelling. A reference to it, with a slash behind or without, names it if no name on
the way down has to be encoded. Where there are no links, it names it only then. -/
theorem package_roots_name_folders (disk : Disk) (project : List Char)
    (common up names : List String) (listed entries : List (String × Entry))
    (list : disk.locate true (listFolder project) = some (common ++ up, some (.folder listed)))
    (there : disk.root.at? (common ++ names) = some (.folder entries))
    (proper : ∀ n ∈ common ++ names, FileUri.IsEntryName n.toList) :
    (∃ plain slashed, FileUri.ofPath? (Disk.pathOf (common ++ names)) = some plain ∧
      FileUri.ofFolder? (Disk.pathOf (common ++ names)) = some slashed ∧
      ∀ uri, uri = plain ∨ uri = slashed →
        ∃ found, packageFolder? disk (listFolder project) uri = some found ∧
          (Path.same found (Disk.pathOf (common ++ names)) = true ↔
            ¬FileUri.IsBarred ((common ++ names).map String.toList))) ∧
    ∀ point slash first rest, referenceSegments point up.length names = first :: rest → ':' ∉ first →
      ((∀ n ∈ names, FileUri.encodeSegment n.toList = n.toList) →
        packageFolder? disk (listFolder project) (reference point slash up.length names) =
          some (Disk.pathOf (common ++ names))) ∧
      (disk.root.Linkless →
        ∃ found, packageFolder? disk (listFolder project) (reference point slash up.length names) =
            some found ∧
          (Path.same found (Disk.pathOf (common ++ names)) = true ↔
            ∀ n ∈ names, FileUri.encodeSegment n.toList = n.toList)) := by
  obtain ⟨proper_common, proper_names⟩ := List.forall_mem_append.mp proper
  constructor
  · obtain ⟨plain, slashed, hp, hs, segs⟩ := FileUri.written_of_components rfl
      (FileUri.path_components proper)
    refine ⟨plain, slashed, hp, hs, fun uri h => ?_⟩
    obtain ⟨segs, ending, some_segment, rfl⟩ := segs uri h
    obtain ⟨found, read, components⟩ :=
      FileUri.components_written (List.forall_mem_map.mpr proper) ending some_segment
    refine ⟨found, ?_, ?_⟩
    · rw [packageFolder?, ← read]
      exact if_pos rfl
    · rw [same_pathOf proper, components, List.cons.injEq, ← FileUri.withColon_eq_self]
      exact and_iff_right rfl
  · intro point slash first rest segments no_scheme
    have some_segment : referenceSegments point up.length names ≠ [] := by
      rw [segments]
      exact List.cons_ne_nil first rest
    have taken := packageFolder?_reference disk project proper_names slash segments no_scheme
    have reaches : (∀ n ∈ names, FileUri.encodeSegment n.toList = n.toList) →
        packageFolder? disk (listFolder project) (reference point slash up.length names) =
          some (Disk.pathOf (common ++ names)) := by
      intro plain
      rw [taken, canonical?_reference proper_names list some_segment there plain, Option.getD_some]
    refine ⟨reaches, fun bare => ⟨_, taken, fun same => ?_, fun plain => ?_⟩⟩
    · obtain ⟨front, ends⟩ :=
        components_reference bare proper_names proper_common list some_segment
      rw [same_pathOf proper, ends, List.map_append, ← List.cons_append] at same
      exact List.map_inj_left.mp (List.append_inj' same (by simp)).2
    · rw [Option.some.inj (taken.symm.trans (reaches plain))]
      exact (same_pathOf proper _).mpr (FileUri.path_components proper)

/-- A disk with the folder of a list and the folder of a package. -/
def twoFolders (name : String) : Disk where
  root := .folder [("app", .folder [(".dart_tool", .folder [])]), (name, .folder [])]

theorem twoFolders_linkless (name : String) : (twoFolders name).root.Linkless := by
  have empty : (Entry.folder []).Linkless := Entry.linkless_folder nofun
  have app : (Entry.folder [(".dart_tool", .folder [])]).Linkless :=
    Entry.linkless_folder (List.forall_mem_singleton.mpr empty)
  exact Entry.linkless_folder (List.forall_mem_cons.mpr ⟨app, List.forall_mem_singleton.mpr empty⟩)

theorem twoFolders_list (name : String) : (twoFolders name).locate true (listFolder "/app".toList) =
    some ([] ++ ["app", ".dart_tool"], some (.folder [])) := by
  have down : ∀ n ∈ ["app", ".dart_tool"], Disk.IsDown n := by
    intro n hn
    rcases List.mem_pair.mp hn with rfl | rfl <;> exact ⟨by decide, by decide, by decide⟩
  have first : (twoFolders name).locate true (listFolder "/app".toList) =
      Disk.locateFrom (twoFolders name).root true Disk.maxLinks [] ("" :: ["app", ".dart_tool"]) := rfl
  rw [first, Disk.locateFrom_stay rfl (.inl rfl)]
  exact Disk.locateFrom_down down rfl

theorem package_roots_name_folders_plain :
    (∃ plain slashed, FileUri.ofPath? "/pkg".toList = some plain ∧
      FileUri.ofFolder? "/pkg".toList = some slashed ∧
      ∀ uri, uri = plain ∨ uri = slashed → ∃ found,
        packageFolder? (twoFolders "pkg") (listFolder "/app".toList) uri = some found ∧
          (Path.same found "/pkg".toList = true ↔ ¬FileUri.IsBarred ["pkg".toList])) ∧
    packageFolder? (twoFolders "pkg") (listFolder "/app".toList) "../../pkg/".toList =
      some "/pkg".toList ∧
    ∃ found, packageFolder? (twoFolders "pkg") (listFolder "/app".toList) "../../pkg/".toList =
        some found ∧
      (Path.same found "/pkg".toList = true ↔
        ∀ n ∈ ["pkg"], FileUri.encodeSegment n.toList = n.toList) := by
  have proper : ∀ n ∈ [] ++ ["pkg"], FileUri.IsEntryName n.toList :=
    List.forall_mem_singleton.mpr
      { whole := by decide, not_point := by decide, not_points := by decide, filled := by decide }
  obtain ⟨uris, references⟩ := package_roots_name_folders (twoFolders "pkg") "/app".toList []
    ["app", ".dart_tool"] ["pkg"] [] [] (twoFolders_list "pkg") rfl proper
  obtain ⟨reaches, only⟩ := references false true _ _ rfl (by decide)
  exact ⟨uris, reaches (by decide +kernel), only (twoFolders_linkless "pkg")⟩

/-- A blank is encoded in both forms. The URI leads to the folder, the reference to none. -/
theorem encoded_reference_misses_folder :
    packageFolder? (twoFolders "my pkg") (listFolder "/app".toList) "file:///my%20pkg".toList =
      some "/my pkg".toList ∧
    packageFolder? (twoFolders "my pkg") (listFolder "/app".toList) "../../my%20pkg".toList =
      some "/app/.dart_tool/../../my%20pkg".toList := by
  refine ⟨by decide +kernel, ?_⟩
  have proper : ∀ n ∈ ["my pkg"], FileUri.IsEntryName n.toList :=
    List.forall_mem_singleton.mpr
      { whole := by decide, not_point := by decide, not_points := by decide, filled := by decide }
  obtain ⟨links, walk⟩ :
      ∃ links, (twoFolders "my pkg").locate true (referenced _ false 2 ["my pkg"]) =
        Disk.locateFrom (twoFolders "my pkg").root true links [] (["my pkg"].map undecoded) :=
    locate_reference proper (twoFolders_list "my pkg") nofun
  have missing : Disk.locateFrom (twoFolders "my pkg").root true links [] (["my pkg"].map undecoded) =
      some (["my%20pkg"], none) := by
    have name : ["my pkg"].map undecoded = ["my%20pkg"] := by decide +kernel
    rw [name, Disk.locateFrom]
    rfl
  have nowhere : (twoFolders "my pkg").canonical? (referenced (listFolder "/app".toList) false 2
      ["my pkg"]) = none := by
    rw [Disk.canonical?, walk, missing]
  have taken : packageFolder? (twoFolders "my pkg") (listFolder "/app".toList)
      (reference false false 2 ["my pkg"]) = _ :=
    packageFolder?_reference (twoFolders "my pkg") "/app".toList proper false rfl (by decide)
  have texts : reference false false 2 ["my pkg"] = "../../my%20pkg".toList ∧
      referenced (listFolder "/app".toList) false 2 ["my pkg"] =
        "/app/.dart_tool/../../my%20pkg".toList := by
    decide +kernel
  rw [nowhere, Option.getD_none, texts.1, texts.2] at taken
  exact taken

end CodeAtlas
