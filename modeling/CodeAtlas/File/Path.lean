import CodeAtlas.Text.Cut

/-!
Paths of files, as texts with slashes. Two paths are the same when their components are: repeated
slashes, slashes at the end and a single point between slashes count for nothing. A point stays
only where a relative path begins with it.
-/
namespace CodeAtlas.Path

/-- The component that begins an absolute path. -/
def rootComponent : List Char := ['/']

/-- The pieces between slashes that count. -/
def pieces (path : List Char) : List (List Char) :=
  (Text.splitOn '/' path).filter fun p => !p.isEmpty && p != ['.']

/-- Whether a path begins with a slash. -/
def isAbsolute (path : List Char) : Bool := path.head? == some '/'

/-- The components of a path: the root, a leading point, then names and double points. -/
def components (path : List Char) : List (List Char) :=
  if isAbsolute path then rootComponent :: pieces path
  else if path = ['.'] || Text.startsWith ['.', '/'] path then ['.'] :: pieces path
  else pieces path

/-- Whether two texts are the same path. -/
def same (a b : List Char) : Bool := components a == components b

/-- Whether a path lies at or below another. -/
def isBelow (path root : List Char) : Bool := (components root).isPrefixOf (components path)

/-- A path below a folder; an absolute path stands for itself. -/
def join (folder path : List Char) : List Char :=
  if isAbsolute path then path
  else if folder.isEmpty || folder.getLast? = some '/' then folder ++ path
  else folder ++ '/' :: path

/-- The text of a path with the given components. -/
def ofComponents : List (List Char) → List Char
  | [] => []
  | ['/'] :: rest => '/' :: Text.joinWith ['/'] rest
  | parts => Text.joinWith ['/'] parts

/-- The last component, if it is a name. -/
def fileName? (path : List Char) : Option (List Char) :=
  match (components path).getLast? with
  | none => none
  | some name => if name = rootComponent || name = ['.'] || name = ['.', '.'] then none else some name

/-- A reversed path without the slashes and single points that it begins with. -/
def dropTail : List Char → List Char
  | '/' :: rest => dropTail rest
  | '.' :: '/' :: rest => dropTail rest
  | rest => rest

/-- The folder that a path lies in: the path without its last component. The root and the empty
path lie nowhere. -/
def parent? (path : List Char) : Option (List Char) :=
  let parts := components path
  if parts.isEmpty || parts = [rootComponent] then none
  else
    let folder := (dropTail ((dropTail path.reverse).dropWhile (· != '/'))).reverse
    some (if folder.isEmpty && isAbsolute path then rootComponent else folder)

/-- What stands behind the last point of the file name, if something stands before that point. -/
def extension? (path : List Char) : Option (List Char) := do
  let name ← fileName? path
  let (stem, extension) ← Text.splitLast '.' name
  if stem.isEmpty then none else return extension

/-- Whether a path names a file of source text. -/
def isSource (path : List Char) : Bool := extension? path == some "dart".toList

/-- The way from a folder to a path at or below it. -/
def behind (folder path : List Char) : List Char :=
  if isAbsolute path && !isAbsolute folder then path
  else ofComponents ((components path).drop (components folder).length)

/-- A path with slashes in place of backslashes. -/
def withSlashes (path : List Char) : List Char := path.map fun c => if c = '\\' then '/' else c

end CodeAtlas.Path
