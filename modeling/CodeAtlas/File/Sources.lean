import CodeAtlas.File.Disk
import CodeAtlas.File.Glob
import CodeAtlas.File.Uri

/-!
The source files of a project: every source file below its folder, except in folders that tools
write and except those that a glob stands for.
-/
namespace CodeAtlas

/-- What can go wrong in collecting source files. -/
inductive SourceFault where
  | notFolder (root : String)
  /-- A path does not begin at the root. -/
  | notAbsolute (path : String)
  /-- A file cannot be read, or is not text. -/
  | unreadable (path : String)
  deriving DecidableEq, Repr

def SourceFault.message : SourceFault → String
  | notFolder root => "project root is not a directory: " ++ root
  | notAbsolute path => "not an absolute path: " ++ path
  | unreadable path => "reading " ++ path

/-- Folders without source of the project's own. -/
def toolFolders : List String := [".dart_tool", "build", ".git", "graphs_data"]

/-- Whether a folder may hold source of the project's own. -/
def isSourceFolder (name : String) : Bool :=
  !Text.startsWith ['.'] name.toList && !toolFolders.contains name

/-- The path that names make, with slashes only. -/
def relativePath (names : List String) : List Char :=
  Path.withSlashes (Text.joinWith ['/'] (names.map String.toList))

/-- Whether names lead to a source file that is not ignored. -/
def isOwnSource (ignored : List Glob) (names : List String) : Bool :=
  names.dropLast.all isSourceFolder && !ignored.any (·.fits (relativePath names))

/-- The paths of the source files of a project. -/
def sourcePaths (disk : Disk) (root : List Char) (ignoreGlobs : List String) :
    Except SourceFault (List (List Char)) :=
  if disk.isFolder root then
    let own := (disk.filesBelow root).filter (isOwnSource (globsOf ignoreGlobs))
    .ok ((own.map (Disk.below root)).filter Path.isSource)
  else .error (.notFolder (String.ofList root))

/-- The id and the text of a file. -/
def loadSource (disk : Disk) (path : List Char) : Except SourceFault (String × String) :=
  match FileUri.ofPath? path, disk.text? path with
  | none, _ => .error (.notAbsolute (String.ofList path))
  | some _, none => .error (.unreadable (String.ofList path))
  | some uri, some text => .ok (String.ofList uri, String.ofList text)

/-- The ids and texts of files. -/
def loadSources (disk : Disk) (paths : List (List Char)) :
    Except SourceFault (List (String × String)) :=
  paths.mapM (loadSource disk)

end CodeAtlas
