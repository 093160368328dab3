import CodeAtlas.Package.Origin
import CodeAtlas.Proofs.FileUris
import CodeAtlas.Proofs.Pieces
import CodeAtlas.Symbol.Id

/-!
Two tests tell files of the language's own libraries. One looks for two folders in the id of a file as
it stands (`isSdkFile`), the other for their names in the path that the id names (`originOf`). Reading a
URI that has nothing but a path, without dot segments, loses no folder of it (`IsPlainUri.piece`), so
what passes the first test passes the second (`kind_of_isSdkFile`). The URI of a path passes the tests
that the path passes (`sdk_of_written`).
-/
namespace CodeAtlas

/-- The folders, one in the other, that files of the language's own libraries lie in. -/
def sdkFolders : List (List Char) := ["dart-sdk".toList, "lib".toList]

/-! ## The id as it stands -/

/-- A text holds the folders between slashes if they are among its pieces, before the last one and
behind the first. -/
theorem sdkFolders_iff {s : List Char} : "/dart-sdk/lib/".toList <:+: s ↔
    sdkFolders <:+: (Text.splitOn '/' s).tail.dropLast := by
  constructor
  · rintro ⟨a, b, rfl⟩
    have cut : a ++ "/dart-sdk/lib/".toList ++ b =
        a ++ '/' :: ("dart-sdk".toList ++ '/' :: ("lib".toList ++ '/' :: b)) := by
      simp
    have first : Text.splitOn '/' "dart-sdk".toList = ["dart-sdk".toList] := rfl
    have second : Text.splitOn '/' "lib".toList = ["lib".toList] := rfl
    obtain ⟨p, ps, ha⟩ := List.exists_cons_of_ne_nil (Text.splitOn_ne_nil '/' a)
    refine ⟨ps, (Text.splitOn '/' b).dropLast, ?_⟩
    rw [cut, Text.splitOn_append, Text.splitOn_append, Text.splitOn_append, first, second, ha,
      List.cons_append, List.tail_cons, List.dropLast_append_of_ne_nil (by simp),
      List.dropLast_append_of_ne_nil (by simp),
      List.dropLast_append_of_ne_nil (Text.splitOn_ne_nil '/' b), List.append_assoc]
    rfl
  · rintro ⟨x, y, h⟩
    obtain ⟨first, rest, split⟩ := List.exists_cons_of_ne_nil (Text.splitOn_ne_nil '/' s)
    rw [split, List.tail_cons] at h
    have some_rest : rest ≠ [] := by
      rintro rfl
      simp [sdkFolders] at h
    have joined := Text.joinWith_splitOn '/' s
    have folders : Text.joinWith ['/'] sdkFolders = "dart-sdk/lib".toList := rfl
    rw [split, ← List.dropLast_append_getLast some_rest, ← h, List.append_assoc, List.append_assoc,
      ← List.cons_append, Text.joinWith_append '/' (by simp) (by simp [sdkFolders]),
      Text.joinWith_append '/' (by simp [sdkFolders]) (by simp), folders] at joined
    rw [← joined]
    exact ⟨Text.joinWith ['/'] (first :: x), Text.joinWith ['/'] (y ++ [rest.getLast some_rest]),
      by simp⟩

theorem isSdkFile_iff {fileId : String} :
    isSdkFile fileId = true ↔ "/dart-sdk/lib/".toList <:+: fileId.toList := by
  rw [isSdkFile, Text.hasPiece_iff]

/-! ## The path that the id names -/

theorem isSdkPath_iff {path : List Char} : isSdkPath path = true ↔
    "dart-sdk/lib".toList <:+: Path.withSlashes path ∨
      "flutter/bin/cache/dart-sdk".toList <:+: Path.withSlashes path := by
  rw [isSdkPath, Bool.or_eq_true, Text.hasPiece_iff, Text.hasPiece_iff]

theorem isSdkPath_of_piece {path : List Char} (h : "/dart-sdk/lib".toList <:+: path) :
    isSdkPath path = true := by
  have inner : "dart-sdk/lib".toList <:+: "/dart-sdk/lib".toList := ⟨['/'], [], rfl⟩
  have slashes : Path.withSlashes "dart-sdk/lib".toList = "dart-sdk/lib".toList := rfl
  exact isSdkPath_iff.mpr (.inl (slashes ▸ (inner.trans h).map _))

/-- Only the path that an id names decides, whatever packages there are. -/
theorem originOf_kind_sdk {fileId : String} {packages : List Package} :
    (originOf fileId packages).kind = .sdk ↔
      ∃ path, pathOfFileId? fileId.toList = some path ∧ isSdkPath path = true := by
  unfold originOf
  split
  · rename_i nowhere
    simp [nowhere, Origin.project]
  · rename_i path found
    rw [found]
    split
    · rename_i sdk
      exact iff_of_true rfl ⟨path, rfl, sdk⟩
    · rename_i other
      refine iff_of_false ?_ fun ⟨_, same, sdk⟩ => other (Option.some.inj same ▸ sdk)
      split
      · exact nofun
      · rw [Package.originOf]
        split <;> exact nofun

/-! ## Segments of URIs -/

namespace FileUri

theorem infix_dropWhile {α : Type} {p : α → Bool} {a : α} {rest l : List α} (kept : ¬p a = true)
    (h : a :: rest <:+: l) : a :: rest <:+: l.dropWhile p := by
  obtain ⟨x, y, rfl⟩ := h
  induction x with
  | nil =>
    rw [List.nil_append, List.cons_append, List.dropWhile_cons_of_neg kept]
    exact ⟨[], y, rfl⟩
  | cons b x ih =>
    rw [List.cons_append, List.cons_append, List.dropWhile_cons]
    split
    · exact ih
    · exact ⟨b :: x, y, rfl⟩

theorem sdkFolders_withColon {segs : List (List Char)} (h : sdkFolders <:+: segs) :
    sdkFolders <:+: withColon segs := by
  cases segs with
  | nil => exact h
  | cons s rest =>
    rw [withColon]
    split
    · rename_i drive
      rcases List.infix_cons_iff.mp h with first | inner
      · obtain ⟨rfl, -⟩ := List.cons_prefix_cons.mp first
        exact absurd drive (by decide)
      · exact inner.trans (List.suffix_cons _ rest).isInfix
    · exact h

theorem sdkFolders_dropEmpty {segs : List (List Char)} (h : sdkFolders <:+: segs) :
    sdkFolders <:+: dropEmpty segs := by
  have inner : sdkFolders <:+: segs.dropWhile List.isEmpty := infix_dropWhile (by decide) h
  rw [dropEmpty]
  split
  · rename_i nothing
    rw [nothing] at inner
    exact absurd inner (by decide)
  · exact inner

/-- Bytes may be missing in the other segments, the folders are read. -/
theorem piece_pathOf {segs : List (List Char)} (h : sdkFolders <:+: segs) :
    "/dart-sdk/lib".toList <:+: pathOf segs := by
  obtain ⟨x, y, rfl⟩ := h
  set bytesOf := fun s : List Char => 0x2F :: decodeBytes (Text.Utf8.encode s)
  obtain ⟨b, bytes, folders, ascii, text⟩ : ∃ b bytes, sdkFolders.flatMap bytesOf = b :: bytes ∧
      (∀ x ∈ b :: bytes, x.toNat < 0x80) ∧
      (b :: bytes).map (fun x => Char.ofNat x.toNat) = "/dart-sdk/lib".toList :=
    ⟨_, _, rfl, by decide +kernel, by decide +kernel⟩
  have read : "/dart-sdk/lib".toList <:+:
      Text.Utf8.decodeLossy ((x ++ sdkFolders ++ y).flatMap bytesOf) := by
    rw [List.flatMap_append, List.flatMap_append, folders, Text.Utf8.decodeLossy_ascii ascii, text]
    exact ⟨_, _, rfl⟩
  rw [pathOf]
  split
  · exact read.trans (List.prefix_append _ _).isInfix
  · exact read

/-- The first piece of a text is what stands before its first slash. -/
theorem splitOn_beforeFirst (s : List Char) :
    Text.splitOn '/' s = [Text.beforeFirst '/' s] ∨
      ∃ rest, s.drop (Text.beforeFirst '/' s).length = '/' :: rest ∧
        Text.splitOn '/' s = Text.beforeFirst '/' s :: Text.splitOn '/' rest := by
  induction s with
  | nil => exact .inl rfl
  | cons x s ih =>
    by_cases slash : x = '/'
    · subst slash
      exact .inr ⟨s, rfl, Text.splitOn_cons_self '/' s⟩
    · have before : Text.beforeFirst '/' (x :: s) = x :: Text.beforeFirst '/' s := by
        simp [Text.beforeFirst, slash]
      rw [before]
      rcases ih with last | ⟨rest, cut, split⟩
      · exact .inl (by simp [Text.splitOn, last, slash])
      · exact .inr ⟨rest, cut, by simp [Text.splitOn, split, slash]⟩

theorem piece_segments {text : List Char} (steps : ∀ s ∈ Text.splitOn '/' text, IsPlainStep s)
    (folders : sdkFolders <:+: Text.splitOn '/' text) :
    "/dart-sdk/lib".toList <:+: pathOf (dropEmpty (segments true text)) := by
  rw [segments, resolve_start (Text.splitOn_ne_nil '/' text) steps]
  exact piece_pathOf (sdkFolders_dropEmpty (sdkFolders_withColon folders))

/-- The first of the folders is not the local host, and the path behind it has no drive. -/
theorem filePath?_host {inner behind : List Char} {more : List (List Char)}
    (host : Text.beforeFirst '/' inner = "dart-sdk".toList)
    (cut : inner.drop (Text.beforeFirst '/' inner).length = '/' :: behind)
    (second : segments true behind = "lib".toList :: more) :
    filePath? ('/' :: '/' :: inner) = none := by
  have no_drive : isDrive "dart-sdk".toList = false := by decide +kernel
  have refused : ("dart-sdk".toList.isEmpty || decide (hostName "dart-sdk".toList = localHost) ||
      (("lib".toList :: more).head?.any isDrive && (hostName "dart-sdk".toList).all isHostChar)) =
        false := by
    rw [List.head?_cons]
    decide +kernel
  rw [filePath?]
  dsimp only
  rw [cut, dropSlash, second, host, if_neg (Bool.eq_false_iff.mp no_drive),
    if_neg (Bool.eq_false_iff.mp refused)]

theorem piece_behind_slashes {inner path : List Char}
    (found : filePath? ('/' :: '/' :: inner) = some path)
    (steps : ∀ s ∈ Text.splitOn '/' inner, IsPlainStep s)
    (folders : sdkFolders <:+: Text.splitOn '/' inner) : "/dart-sdk/lib".toList <:+: path := by
  rcases splitOn_beforeFirst inner with last | ⟨behind, cut, split⟩
  · rw [last] at folders
    exact absurd folders.length_le (by simp [sdkFolders])
  · have others : ∀ s ∈ Text.splitOn '/' behind, IsPlainStep s := fun s hs =>
      steps s (split ▸ List.mem_cons_of_mem _ hs)
    rcases List.infix_cons_iff.mp (split ▸ folders) with first | inside
    · obtain ⟨host, more, second⟩ := List.cons_prefix_cons.mp first
      have read : segments true behind = "lib".toList :: more := by
        rw [segments, resolve_start (Text.splitOn_ne_nil '/' behind) others, ← second]
        rfl
      rw [filePath?_host host.symm cut read] at found
      cases found
    · rw [filePath?] at found
      dsimp only at found
      rw [cut, dropSlash] at found
      split at found
      · obtain rfl := Option.some.inj found
        exact piece_segments steps folders
      · split at found
        · obtain rfl := Option.some.inj found
          exact piece_segments others inside
        · cases found

theorem filePath?_no_host {rest : List Char} (h : ∀ inner, rest ≠ '/' :: '/' :: inner) :
    filePath? rest = some (pathOf (dropEmpty (segments true (dropSlash rest)))) := by
  unfold filePath?
  split
  · exact absurd rfl (h _)
  · rfl

/-- A path that a URI without dot segments names keeps the folders. -/
theorem piece_filePath? {rest path : List Char} (found : filePath? rest = some path)
    (steps : ∀ s ∈ Text.splitOn '/' rest, IsPlainStep s)
    (folders : sdkFolders <:+: (Text.splitOn '/' rest).tail) : "/dart-sdk/lib".toList <:+: path := by
  by_cases slashes : ∃ inner, rest = '/' :: '/' :: inner
  · obtain ⟨inner, rfl⟩ := slashes
    rw [Text.splitOn_cons_self, Text.splitOn_cons_self] at steps folders
    refine piece_behind_slashes found (fun s hs => ?_) ?_
    · exact steps s (List.mem_cons_of_mem _ (List.mem_cons_of_mem _ hs))
    · exact (List.infix_cons_iff.mp folders).resolve_left fun first =>
        absurd (List.cons_prefix_cons.mp first).1 (by decide)
  · rw [filePath?_no_host fun inner same => slashes ⟨inner, same⟩] at found
    obtain rfl := Option.some.inj found
    cases rest with
    | nil => exact absurd folders.length_le (by simp [sdkFolders, Text.splitOn])
    | cons c text =>
      by_cases slash : c = '/'
      · subst slash
        rw [Text.splitOn_cons_self] at steps folders
        exact piece_segments (List.forall_mem_cons.mp steps).2 folders
      · have whole : dropSlash (c :: text) = c :: text := by
          rw [dropSlash]
          rintro text' same
          exact slash (List.cons.inj same).1
        rw [whole]
        exact piece_segments steps (folders.trans (List.tail_suffix _).isInfix)

/-! ## URIs -/

/-- A URI of the scheme `file` that has nothing but a path, and no dot segments in it. -/
structure IsPlainUri (uri : List Char) : Prop where
  scheme : "file:".toList <+: uri
  no_query : '?' ∉ uri
  no_fragment : '#' ∉ uri
  steps : ∀ s ∈ Text.splitOn '/' (Path.withSlashes ((significant uri).drop 5)), IsPlainStep s

theorem dropWhile_append_kept {α : Type} {p : α → Bool} {a : α} (kept : ¬p a = true)
    (front rest : List α) : (front ++ a :: rest).dropWhile p = front.dropWhile p ++ a :: rest := by
  induction front with
  | nil => exact List.dropWhile_cons_of_neg kept
  | cons b front ih =>
    rw [List.cons_append, List.dropWhile_cons, List.dropWhile_cons]
    split
    · exact ih
    · rfl

theorem mem_of_mem_significant {uri : List Char} {c : Char} (h : c ∈ significant uri) : c ∈ uri := by
  have inner := List.mem_reverse.mp (List.mem_filter.mp h).1
  have outer := List.mem_reverse.mp ((List.dropWhile_sublist _).subset inner)
  exact (List.dropWhile_sublist _).subset outer

theorem significant_of_scheme {uri : List Char} (scheme : "file:".toList <+: uri) :
    significant uri = "file:".toList ++ (significant uri).drop 5 := by
  obtain ⟨rest, rfl⟩ := scheme
  suffices ∃ more, significant ("file:".toList ++ rest) = "file:".toList ++ more by
    obtain ⟨more, counted⟩ := this
    rw [counted]
    simp
  have front : ("file:".toList ++ rest).dropWhile isControlOrSpace = "file:".toList ++ rest := rfl
  have colon : ¬isControlOrSpace ':' = true := by decide
  have back : ("file:".toList ++ rest).reverse = rest.reverse ++ ':' :: "elif".toList := by simp
  have left : (rest.reverse.dropWhile isControlOrSpace ++ ':' :: "elif".toList).reverse =
      "file:".toList ++ (rest.reverse.dropWhile isControlOrSpace).reverse := by
    simp
  have counts : "file:".toList.filter (fun c => c != '\t' && c != '\n' && c != '\r') =
      "file:".toList := rfl
  refine ⟨(rest.reverse.dropWhile isControlOrSpace).reverse.filter
    fun c => c != '\t' && c != '\n' && c != '\r', ?_⟩
  rw [significant, front, back, dropWhile_append_kept colon, left, List.filter_append, counts]

/-- The piece has no characters that do not count. -/
theorem piece_significant {uri : List Char} (h : "/dart-sdk/lib/".toList <:+: uri) :
    "/dart-sdk/lib/".toList <:+: significant uri := by
  have kept : ¬isControlOrSpace '/' = true := by decide
  have front : "/dart-sdk/lib/".toList <:+: uri.dropWhile isControlOrSpace := infix_dropWhile kept h
  have turned : '/' :: "bil/kds-trad/".toList <:+: (uri.dropWhile isControlOrSpace).reverse :=
    List.reverse_infix.mpr front
  have back : ('/' :: "bil/kds-trad/".toList).reverse <:+:
      ((uri.dropWhile isControlOrSpace).reverse.dropWhile isControlOrSpace).reverse :=
    List.reverse_infix.mpr (infix_dropWhile kept turned)
  exact back.filter fun c => c != '\t' && c != '\n' && c != '\r'

theorem splitOn_tail {front : List Char} (whole : '/' ∉ front) (s : List Char) :
    (Text.splitOn '/' (front ++ s)).tail = (Text.splitOn '/' s).tail := by
  induction front with
  | nil => rfl
  | cons c front ih =>
    obtain ⟨other, others⟩ := List.ne_and_not_mem_of_not_mem_cons whole
    obtain ⟨piece, pieces, split⟩ :=
      List.exists_cons_of_ne_nil (Text.splitOn_ne_nil '/' (front ++ s))
    rw [← ih others, List.cons_append, Text.splitOn, split]
    simp [other.symm]

/-- The path that a plain URI names keeps the folders. -/
theorem IsPlainUri.piece {uri path : List Char} (plain : IsPlainUri uri)
    (found : toPath? uri = some path) (h : "/dart-sdk/lib/".toList <:+: uri) : "/dart-sdk/lib".toList <:+: path := by
  have counted := significant_of_scheme plain.scheme
  have chars : ∀ c ∈ (significant uri).drop 5, c ∈ uri := fun c hc =>
    mem_of_mem_significant (List.mem_of_mem_drop hc)
  have inside := piece_significant h
  rw [counted, sdkFolders_iff, splitOn_tail (by decide), ← sdkFolders_iff] at inside
  have slashes : Path.withSlashes "/dart-sdk/lib/".toList <:+:
      Path.withSlashes ((significant uri).drop 5) := inside.map _
  rw [toPath?_of_significant counted (fun hc => plain.no_query (chars _ hc))
    (fun hc => plain.no_fragment (chars _ hc))] at found
  refine piece_filePath? found plain.steps ?_
  exact (sdkFolders_iff.mp slashes).trans (List.dropLast_prefix _).isInfix

end FileUri

/-! ## Both tests -/

/-- The id names a path as it stands: it is an absolute path, or a URI that has nothing but a path,
without dot segments. -/
def NamesPath (fileId : List Char) : Prop :=
  Path.isAbsolute fileId = true ∨ FileUri.IsPlainUri fileId ∧ FileUri.toPath? fileId ≠ none

theorem pathOfFileId?_absolute {fileId : List Char} (h : Path.isAbsolute fileId = true) :
    pathOfFileId? fileId = some fileId := by
  cases fileId with
  | nil => cases h
  | cons c rest =>
    have slash : c = '/' := Option.some.inj (eq_of_beq h)
    subst slash
    rfl

theorem pathOfFileId?_scheme {fileId : List Char} (h : "file:".toList <+: fileId) :
    pathOfFileId? fileId = FileUri.toPath? fileId := by
  obtain ⟨rest, rfl⟩ := h
  rfl

/-- A file that the id tells to be one of the language's own is one by its path. -/
theorem kind_of_isSdkFile {fileId : String} (packages : List Package)
    (names : NamesPath fileId.toList) (sdk : isSdkFile fileId = true) : (originOf fileId packages).kind = .sdk := by
  have piece := isSdkFile_iff.mp sdk
  refine originOf_kind_sdk.mpr ?_
  rcases names with absolute | ⟨plain, named⟩
  · refine ⟨fileId.toList, pathOfFileId?_absolute absolute, isSdkPath_of_piece ?_⟩
    exact List.IsInfix.trans ⟨[], ['/'], rfl⟩ piece
  · obtain ⟨path, found⟩ := Option.ne_none_iff_exists'.mp named
    exact ⟨path, (pathOfFileId?_scheme plain.scheme).trans found,
      isSdkPath_of_piece (plain.piece found piece)⟩

/-! ## URIs of paths -/

section Written

open FileUri

variable {names : List (List Char)}

theorem map_infix_map {α β : Type} {f : α → β} (inj : Function.Injective f) {a l : List α} :
    a.map f <:+: l.map f ↔ a <:+: l := by
  refine ⟨fun ⟨x, y, h⟩ => ?_, fun h => h.map f⟩
  obtain ⟨front, l₃, rfl, hfront, -⟩ := List.map_eq_append_iff.mp h.symm
  obtain ⟨l₁, l₂, rfl, -, same⟩ := List.map_eq_append_iff.mp hfront
  rw [← List.map_injective_iff.mpr inj same]
  exact ⟨l₁, l₃, rfl⟩

/-- A path holds the folders if they are among its names, before the last one. -/
theorem sdkFolders_path (some_name : names ≠ []) (whole : ∀ s ∈ names, '/' ∉ s) :
    "/dart-sdk/lib/".toList <:+: '/' :: Text.joinWith ['/'] names ↔
      sdkFolders <:+: names.dropLast := by
  have split : Text.splitOn '/' ('/' :: Text.joinWith ['/'] names) = [] :: names := by
    rw [Text.splitOn_cons_self, Text.splitOn_joinWith some_name whole]
  rw [sdkFolders_iff, split, List.tail_cons]

/-- The URI of a path holds the folders if the path does. -/
theorem sdkFolders_written (some_name : names ≠ []) :
    "/dart-sdk/lib/".toList <:+: written names ↔ sdkFolders <:+: names.dropLast := by
  have encoded : sdkFolders = sdkFolders.map encodeSegment := by decide +kernel
  have inj : Function.Injective encodeSegment := fun _ _ same => encodeSegment_inj.mp same
  have some_written : names.map encodeSegment ≠ [] := by simpa using some_name
  have whole : ∀ s ∈ names.map encodeSegment, '/' ∉ s :=
    List.forall_mem_map.mpr fun s _ => encodeSegment_whole s
  have joined : written names = "file:".toList ++
      '/' :: '/' :: '/' :: Text.joinWith ['/'] (names.map encodeSegment) := by
    rw [Text.joinWith_cons '/' _ some_written, List.flatMap_map]
    rfl
  have not_first : ∀ l : List (List Char), sdkFolders <:+: [] :: l ↔ sdkFolders <:+: l := by
    intro l
    refine List.infix_cons_iff.trans (or_iff_right fun first => ?_)
    exact absurd (List.cons_prefix_cons.mp first).1 (by decide)
  calc "/dart-sdk/lib/".toList <:+: written names
      ↔ sdkFolders <:+: ([] :: [] :: names.map encodeSegment).dropLast := by
        rw [sdkFolders_iff, joined, splitOn_tail (by decide), Text.splitOn_cons_self,
          Text.splitOn_cons_self, Text.splitOn_cons_self, Text.splitOn_joinWith some_written whole,
          List.tail_cons]
    _ ↔ sdkFolders <:+: (names.map encodeSegment).dropLast := by
        rw [List.dropLast_cons_of_ne_nil (by simp), List.dropLast_cons_of_ne_nil some_written,
          not_first, not_first]
    _ ↔ sdkFolders.map encodeSegment <:+: names.dropLast.map encodeSegment := by
        rw [← encoded, List.map_dropLast]
    _ ↔ sdkFolders <:+: names.dropLast := map_infix_map inj

/-- A slash behind a path makes no file one of the language's own. -/
theorem isSdkPath_slash (path : List Char) : isSdkPath (path ++ ['/']) = isSdkPath path := by
  have slashes : Path.withSlashes (path ++ ['/']) = Path.withSlashes path ++ ['/'] := by
    rw [Path.withSlashes, List.map_append]
    rfl
  have inner : ∀ piece : List Char, piece ≠ [] → piece.getLast? ≠ some '/' →
      (piece <:+: Path.withSlashes path ++ ['/'] ↔ piece <:+: Path.withSlashes path) := by
    intro piece filled last
    rw [List.infix_concat_iff, List.suffix_concat_iff]
    refine or_iff_right ?_
    rintro (rfl | ⟨front, rfl, -⟩)
    · exact filled rfl
    · exact last List.getLast?_concat
  rw [Bool.eq_iff_iff, isSdkPath_iff, isSdkPath_iff, slashes, inner _ (by decide) (by decide),
    inner _ (by decide) (by decide)]

/-- The URI of a path passes the tests that the path passes. -/
theorem sdk_of_written (proper : ∀ s ∈ names, IsEntryName s) (some_name : names ≠ [])
    (unbarred : ¬IsBarred names) (packages : List Package) :
    isSdkFile (String.ofList (written names)) =
        isSdkFile (String.ofList ('/' :: Text.joinWith ['/'] names)) ∧
      ((originOf (String.ofList (written names)) packages).kind = .sdk ↔
        (originOf (String.ofList ('/' :: Text.joinWith ['/'] names)) packages).kind = .sdk) := by
  have whole : ∀ s ∈ names, '/' ∉ s := fun s hs => (proper s hs).whole
  have uri_text : (String.ofList (written names)).toList = written names := String.toList_ofList
  have path_text : (String.ofList ('/' :: Text.joinWith ['/'] names)).toList =
      '/' :: Text.joinWith ['/'] names := String.toList_ofList
  constructor
  · rw [Bool.eq_iff_iff, isSdkFile_iff, isSdkFile_iff, uri_text, path_text,
      sdkFolders_written some_name, sdkFolders_path some_name whole]
  · obtain ⟨slash, more, read⟩ := toPath?_written proper (.inl rfl) some_name
    rw [withColon_eq_self.mpr unbarred] at read
    have named : pathOfFileId? (written names) =
        some ('/' :: Text.joinWith ['/'] names ++ slash) := by
      rw [← read]
      exact pathOfFileId?_scheme ⟨_, rfl⟩
    have absolute : pathOfFileId? ('/' :: Text.joinWith ['/'] names) =
        some ('/' :: Text.joinWith ['/'] names) := pathOfFileId?_absolute rfl
    have alike : isSdkPath ('/' :: Text.joinWith ['/'] names ++ slash) =
        isSdkPath ('/' :: Text.joinWith ['/'] names) := by
      rcases more with rfl | rfl
      · rw [List.append_nil]
      · exact isSdkPath_slash _
    rw [originOf_kind_sdk, originOf_kind_sdk, uri_text, path_text, named, absolute]
    simp only [Option.some.injEq, exists_eq_left', alike]

end Written

end CodeAtlas
