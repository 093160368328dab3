import CodeAtlas.File.Disk
import CodeAtlas.Json.Value
import CodeAtlas.Text.Number

/-!
The contents of a disk as JSON: an object from paths to entries. A file is its text, or its bytes in
base sixteen; a folder is null; a link names its target. Folders on the way to an entry need not be
written.
-/
namespace CodeAtlas

namespace Archive

def names (path : String) : List String := (Path.pieces path.toList).map String.ofList

/-- The bytes that pairs of digits of base sixteen stand for. -/
def bytes? : List Char → Option (List UInt8)
  | [] => some []
  | a :: b :: rest => do
    return .ofNat ((← Text.hexValue? a) * 16 + (← Text.hexValue? b)) :: (← bytes? rest)
  | [_] => none

/-- Reads an entry. -/
def entry? : Json → Option Entry
  | .null => some (.folder [])
  | .string text => some (.file (Text.Utf8.encode text.toList) false)
  | j =>
    match j.member? "hex", j.member? "link" with
    | some digits, _ => do return .file (← bytes? (← digits.text?).toList) false
    | none, some target => do return .link (← target.text?)
    | none, none => none

/-- Puts an entry at a path, in folders that are made where they are missing. A file takes the place
of a file; a link needs a free place. -/
def put? (d : Disk) (path : List Char) (e : Entry) : Option Disk := do
  let d ← d.makeFolders? ((Path.parent? path).getD [])
  match e with
  | .file bytes _ => d.write? path bytes
  | .folder _ => d.makeFolders? path
  | .link target =>
    match d.locate false path with
    | some (place, none) => some { d with root := (Entry.link target).put place d.root }
    | _ => none

/-- Reads entries with their paths. -/
def entries? : Json → Option (List (String × Entry))
  | .object members => members.mapM fun (path, j) => do return (path, ← entry? j)
  | _ => none

/-- A disk with the entries of an object put below a folder. -/
def addTo? (folder : List Char) (d : Disk) (j : Json) : Option Disk := do
  (← entries? j).foldlM (fun d (path, e) => put? d (Path.join folder path.toList) e) d

/-- The bytes of a file as JSON. -/
def fileJson (bytes : List UInt8) : Json :=
  match Text.Utf8.decode? bytes with
  | some text => .string (String.ofList text)
  | none =>
    let digits := bytes.flatMap fun b => [Nat.digitChar (b.toNat / 16), Nat.digitChar (b.toNat % 16)]
    .object [("hex", .string (String.ofList digits))]

mutual

/-- An entry with all that lies in it, each with its path. -/
def flatten (path : List Char) : Entry → List (String × Json)
  | .file bytes _ => [(String.ofList path, fileJson bytes)]
  | .link target => [(String.ofList path, .object [("link", .string target)])]
  | .folder [] => [(String.ofList path, .null)]
  | .folder entries => flattenAll path entries

/-- All that lies in a folder, each with its path. -/
def flattenAll (folder : List Char) : List (String × Entry) → List (String × Json)
  | [] => []
  | (name, e) :: rest => flatten (folder ++ '/' :: name.toList) e ++ flattenAll folder rest

end

def toJson (d : Disk) : Json := .object (flattenAll [] d.root.entries)

end Archive

end CodeAtlas
