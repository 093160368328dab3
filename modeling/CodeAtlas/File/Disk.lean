import CodeAtlas.File.Path
import CodeAtlas.Text.Utf8

/-!
The contents of a disk as a value: folders sorted by name, files of bytes, symbolic links. Reading
and writing by path follow links, at most forty in a row, and start at the root or at the working
folder. `Entry.files` lists what lies in a folder without following links.
-/
namespace CodeAtlas

/-- A file, a folder or a symbolic link. -/
inductive Entry where
  | file (bytes : List UInt8) (executable : Bool)
  /-- The entries of a folder, sorted by name. -/
  | folder (entries : List (String × Entry))
  | link (target : String)

namespace Entry

/-- The entries of a folder; a file has none. -/
def entries : Entry → List (String × Entry)
  | folder entries => entries
  | _ => []

/-- The entry below a folder that names lead to, no link followed. -/
def at? (e : Entry) : List String → Option Entry
  | [] => some e
  | name :: rest => (e.entries.lookup name).bind (·.at? rest)

/-- Puts an entry among sorted entries, in place of one with its name. -/
def insert (name : String) (e : Entry) : List (String × Entry) → List (String × Entry)
  | [] => [(name, e)]
  | (other, o) :: rest =>
    if name = other then (name, e) :: rest
    else if name < other then (name, e) :: (other, o) :: rest
    else (other, o) :: insert name e rest

/-- Puts an entry where names lead to, in folders that are made where they are missing. -/
def put (new : Entry) : List String → Entry → Entry
  | [], _ => new
  | name :: rest, e =>
    let inner := (e.entries.lookup name).getD (folder [])
    folder (insert name (put new rest inner) e.entries)

/-- Takes away the entry that names lead to. -/
def remove : List String → Entry → Entry
  | [], _ => folder []
  | [name], e => folder (e.entries.filter (·.1 ≠ name))
  | name :: rest, e =>
    match e.entries.lookup name with
    | none => e
    | some inner => folder (insert name (remove rest inner) e.entries)

mutual

/-- The files of an entry, each by the names that lead to it: depth first and in the order of the
names. Links are no files. -/
def files : Entry → List (List String)
  | file _ _ => [[]]
  | folder entries => filesOf entries
  | link _ => []

/-- The files of the entries of a folder. -/
def filesOf : List (String × Entry) → List (List String)
  | [] => []
  | (name, e) :: rest => e.files.map (name :: ·) ++ filesOf rest

end

end Entry

/-- A disk and the working folder, by the names that lead to it from the root. -/
structure Disk where
  root : Entry := .folder []
  here : List String := []

namespace Disk

/-- The pieces of a path between its slashes. -/
def pieces (path : List Char) : List String := (Text.splitOn '/' path).map String.ofList

/-- Where names lead to from a place: the place without links, and what is there. A last name that
is missing is a place too. The last name is followed if it is a link and `follow` says so. -/
def locateFrom (root : Entry) (follow : Bool) (links : Nat) (place todo : List String) :
    Option (List String × Option Entry) :=
  match todo with
  | [] => (root.at? place).map fun e => (place, some e)
  | name :: rest =>
    match root.at? place with
    | some (.folder entries) =>
      if name = "" ∨ name = "." then locateFrom root follow links place rest
      else if name = ".." then locateFrom root follow links place.dropLast rest
      else
        match entries.lookup name with
        | none => if rest.isEmpty then some (place ++ [name], none) else none
        | some (.link target) =>
          if rest.isEmpty && !follow then some (place ++ [name], some (.link target))
          else
            match links with
            | 0 => none
            | links + 1 =>
              -- an absolute target starts over at the root, any other in the folder of the link
              let start := if Path.isAbsolute target.toList then [] else place
              locateFrom root follow links start (pieces target.toList ++ rest)
        | some _ => locateFrom root follow links (place ++ [name]) rest
    | _ => none
termination_by (links, todo.length)

/-- Links that are followed on the way to one place. -/
def maxLinks : Nat := 40

/-- Where a path leads to. -/
def locate (d : Disk) (follow : Bool) (path : List Char) : Option (List String × Option Entry) :=
  if path.isEmpty then none
  else
    locateFrom d.root follow maxLinks (if Path.isAbsolute path then [] else d.here) (pieces path)

def pathOf (place : List String) : List Char :=
  '/' :: Text.joinWith ['/'] (place.map String.toList)

/-! ## Reading -/

/-- What a path leads to. -/
def entry? (d : Disk) (path : List Char) : Option Entry := (d.locate true path).bind (·.2)

/-- The absolute path without links of what a path leads to. -/
def canonical? (d : Disk) (path : List Char) : Option (List Char) :=
  match d.locate true path with
  | some (place, some _) => some (pathOf place)
  | _ => none

/-- Whether a path leads to something. -/
def exists? (d : Disk) (path : List Char) : Bool := (d.entry? path).isSome

/-- Whether a path leads to a file. -/
def isFile (d : Disk) (path : List Char) : Bool :=
  match d.entry? path with
  | some (.file _ _) => true
  | _ => false

/-- Whether a path leads to a file that can be run. -/
def isProgram (d : Disk) (path : List Char) : Bool :=
  match d.entry? path with
  | some (.file _ executable) => executable
  | _ => false

/-- Whether a path leads to a folder. -/
def isFolder (d : Disk) (path : List Char) : Bool :=
  match d.entry? path with
  | some (.folder _) => true
  | _ => false

/-- The path and the folders that it lies in, from the root on. -/
def steps (path : List Char) : List (List Char) :=
  let parts := Path.components path
  (List.range parts.length).map fun n => Path.ofComponents (parts.take (n + 1))

/-- Whether a path leads through a file. -/
def crossesFile (d : Disk) (path : List Char) : Bool := (steps path).dropLast.any d.isFile

/-- The text of a file, if it is valid UTF-8. -/
def text? (d : Disk) (path : List Char) : Option (List Char) :=
  match d.entry? path with
  | some (.file bytes _) => Text.Utf8.decode? bytes
  | _ => none

/-- The files at or below a path, by the names that lead to them from there. A link that the path
ends with is followed only if it leads to a folder. -/
def filesBelow (d : Disk) (path : List Char) : List (List String) :=
  match d.locate false path with
  | some (_, some (.link _)) =>
    match d.entry? path with
    | some (.folder entries) => Entry.filesOf entries
    | _ => []
  | some (_, some e) => e.files
  | _ => []

/-- The path that names lead to from a folder. -/
def below (folder : List Char) (names : List String) : List Char :=
  names.foldl (fun path name => Path.join path name.toList) folder

/-! ## Writing -/

/-- Takes away what a path leads to, itself if it is a link. -/
def remove? (d : Disk) (path : List Char) : Option Disk :=
  match d.locate false path with
  | some (place, some _) => some { d with root := d.root.remove place }
  | _ => none

/-- Writes a file, if its folder is there. -/
def write? (d : Disk) (path : List Char) (bytes : List UInt8) : Option Disk :=
  match d.locate true path with
  | some (place, none) => some { d with root := (Entry.file bytes false).put place d.root }
  | some (place, some (.file _ executable)) =>
    some { d with root := (Entry.file bytes executable).put place d.root }
  | _ => none

/-- Makes a folder, unless it is there. -/
def makeFolder? (d : Disk) (path : List Char) : Option Disk :=
  if d.isFolder path then some d
  else
    match d.locate false path with
    | some (place, none) => some { d with root := (Entry.folder []).put place d.root }
    | _ => none

/-- Makes a folder with the folders that it lies in. -/
def makeFolders? (d : Disk) (path : List Char) : Option Disk :=
  (steps path).foldlM makeFolder? d

end Disk

end CodeAtlas
