import CodeAtlas.File.Disk

/-!
Variables of the environment, and the file that adds to them. Each line of the file sets one
variable; quoted values may run over several lines, a hash mark behind a blank begins a comment,
and a dollar sign stands for the value of a variable. The first line that breaks these rules ends
the file. A variable that is set already keeps its value.
-/
namespace CodeAtlas

/-- Variables with their values. -/
abbrev Variables := List (String × String)

namespace Variables

def get? (v : Variables) (name : String) : Option String := v.lookup name

/-! ## Lines -/

/-- What the end of a line is part of. -/
inductive LineState where
  | plain
  | blank
  | escape
  | inDouble
  | doubleEscape
  | inSingle
  | singleEscape
  deriving DecidableEq, Repr

/-- What a character outside of quotes begins. -/
def LineState.opened (c : Char) : LineState :=
  if c = '\\' then escape else if c = '"' then inDouble else if c = '\'' then inSingle else plain

/-- The state behind a character; nothing where a comment begins. -/
def LineState.step (s : LineState) (c : Char) : Option LineState :=
  match s with
  | plain => some (if Text.isBlank c && c != '\n' && c != '\r' then blank else opened c)
  | blank => if c = '#' then none else some (opened c)
  | escape => some plain
  | inDouble => some (if c = '\\' then doubleEscape else if c = '"' then plain else inDouble)
  | doubleEscape => some inDouble
  | inSingle => some (if c = '\\' then singleEscape else if c = '\'' then plain else inSingle)
  | singleEscape => some inSingle

/-- The state at the end of a line, or nothing if it ends with a comment; with what stands before
the comment. -/
def lineEnd (s : LineState) : List Char → Option LineState × List Char
  | [] => (some s, [])
  | c :: rest =>
    match s.step c with
    | none => (none, [])
    | some s =>
      let (last, before) := lineEnd s rest
      (last, c :: before)

/-- A text without the line break at its end. -/
def dropBreak (s : List Char) : List Char :=
  match s.reverse with
  | '\n' :: '\r' :: rest => rest.reverse
  | '\n' :: rest => rest.reverse
  | _ => s

/-- The lines of bytes, each with its line break. -/
def byteLines : List UInt8 → List (List UInt8)
  | [] => []
  | b :: rest =>
    match byteLines rest with
    | [] => [[b]]
    | line :: lines => if b = 10 then [b] :: line :: lines else (b :: line) :: lines

/-- The entries of the file: lines joined where quotes or an escape run on, without comments.
Nothing stands for an entry that breaks the rules. `done` holds what was read of an entry. -/
def entries (s : LineState) (done : List Char) : List (List UInt8) → List (Option (List Char))
  | [] => if s = .plain then [] else [none]
  | bytes :: rest =>
    match Text.Utf8.decode? bytes with
    | none => [none]
    | some line =>
      -- a line that is a comment sets nothing, also where an entry runs on
      if (Text.trimStart (done ++ line)).head? = some '#' then
        some [] :: entries .plain [] rest
      else
        match lineEnd s line with
        | (none, before) => some (done ++ before) :: entries .plain [] rest
        | (some .plain, _) => some (dropBreak (done ++ line)) :: entries .plain [] rest
        | (some s, _) => entries s (done ++ line) rest

/-! ## Values -/

structure ValueState where
  /-- The text so far, latest first. -/
  out : List Char := []
  /-- The quote that encloses what is read. -/
  quote : Option Char := none
  escaped : Bool := false
  /-- Whether only a comment may follow. -/
  ended : Bool := false
  /-- The name of a variable behind a dollar sign, latest first, and whether it stands in
  braces. -/
  name : Option (List Char × Bool) := none

/-- Adds a character. -/
def ValueState.push (v : ValueState) (c : Char) : ValueState := { v with out := c :: v.out }

/-- Puts the value of the variable named in place of its name. -/
def ValueState.resolve (lookup : String → String) (v : ValueState) : ValueState :=
  match v.name with
  | none => v
  | some (name, _) =>
    { v with out := (lookup (String.ofList name.reverse)).toList.reverse ++ v.out, name := none }

/-- Whether a character may stand in the name of a variable without braces. -/
def isNameChar (c : Char) : Bool := Text.isWord c && c != '_'

/-- The state behind a character of a name. -/
def ValueState.stepName (lookup : String → String) (v : ValueState) (name : List Char)
    (braced : Bool) (c : Char) : ValueState :=
  if isNameChar c then { v with name := some (c :: name, braced) }
  else if braced then
    if c = '\x7d' then v.resolve lookup else { v with name := some (c :: name, true) }
  else if c = '\x7b' ∧ name.isEmpty then { v with name := some ([], true) }
  else
    let v := v.resolve lookup
    if c = '$' then { v with name := some ([], false) } else v.push c

/-- The state behind an escaped character, if it may be escaped. -/
def ValueState.stepEscaped (v : ValueState) (c : Char) : Option ValueState :=
  if ['\\', '\'', '"', '$', ' '].contains c then some { v.push c with escaped := false }
  else if c = 'n' then some { v.push '\n' with escaped := false }
  else none

/-- The state behind a character outside of single quotes, names and escapes. -/
def ValueState.stepPlain (v : ValueState) (c : Char) : ValueState :=
  if c = '$' then { v with name := some ([], false) }
  else if c = '\\' then { v with escaped := true }
  else if v.quote = some '"' then if c = '"' then { v with quote := none } else v.push c
  else if c = '\'' ∨ c = '"' then { v with quote := some c }
  else if c = ' ' ∨ c = '\t' then { v with ended := true }
  else v.push c

/-- Reads the rest of a value. -/
def readValue (lookup : String → String) (v : ValueState) : List Char → Option String
  | [] =>
    if v.quote.isSome || v.name.any (·.2) then none
    else some (String.ofList (v.resolve lookup).out.reverse)
  | c :: rest =>
    if v.ended then
      if c = ' ' ∨ c = '\t' then readValue lookup v rest
      else if c = '#' then readValue lookup v []
      else none
    else if v.escaped then
      match v.stepEscaped c with
      | some v => readValue lookup v rest
      | none => none
    else if v.quote = some '\'' then
      readValue lookup (if c = '\'' then { v with quote := none } else v.push c) rest
    else
      match v.name with
      | some (name, braced) => readValue lookup (v.stepName lookup name braced c) rest
      | none => readValue lookup (v.stepPlain c) rest

/-! ## Entries -/

/-- Reads a name and the blanks behind it. -/
def readKey (s : List Char) : Option (String × List Char) :=
  let isPart := fun (c : Char) => c.isAlphanum || c = '_' || c = '.'
  if s.head?.any fun c => c.isAlpha || c = '_' then
    some (String.ofList (s.takeWhile isPart), Text.trimStart (s.dropWhile isPart))
  else none

/-- Reads a name and the equals sign behind it. The word `export` may stand before the name. -/
def readTarget (s : List Char) : Option (String × List Char) := do
  let (key, rest) ← readKey s
  match rest with
  | '=' :: rest => return (key, rest)
  | _ =>
    if key = "export" then
      match ← readKey rest with
      | (key, '=' :: rest) => return (key, rest)
      | _ => none
    else none

/-- Reads an entry. The inner option is missing where the entry sets nothing. -/
def readEntry (lookup : String → String) (s : List Char) : Option (Option (String × String)) := do
  let s := Text.trim s
  if s.isEmpty || s.head? = some '#' then return none
  let (key, rest) ← readTarget s
  let rest := Text.trimStart rest
  if rest.isEmpty || rest.head? = some '#' then return some (key, "")
  return some (key, ← readValue lookup {} rest)

/-- The value that a dollar sign stands for: that of a variable set before, or else of one that the
file has set, or nothing. -/
def valueOf (set file : Variables) (name : String) : String :=
  (set.lookup name <|> file.lookup name).getD ""

/-- Adds the variables of entries up to the first one that breaks the rules. `file` holds those that
the file has set so far, latest first. -/
def addEntries (set file : Variables) : List (Option (List Char)) → Variables
  | [] | none :: _ => set
  | some entry :: rest =>
    match readEntry (valueOf set file) entry with
    | none => set
    | some none => addEntries set file rest
    | some (some (key, value)) =>
      let known := (set.lookup key).isSome
      addEntries (if known then set else set ++ [(key, value)]) ((key, value) :: file) rest

/-- Bytes without a byte order mark. -/
def dropMark : List UInt8 → List UInt8
  | 0xEF :: 0xBB :: 0xBF :: rest => rest
  | bytes => bytes

/-- Adds the variables that a file sets. -/
def addFile (set : Variables) (bytes : List UInt8) : Variables :=
  addEntries set [] (entries .plain [] (byteLines (dropMark bytes)))

/-- The name of the file that sets variables. -/
def fileName : String := ".env"

/-- The bytes of the first file of that name in the working folder or a folder that it lies in. -/
def file? (disk : Disk) : Option (List UInt8) :=
  ((List.range (disk.here.length + 1)).reverse.findSome? fun n =>
    match disk.entry? (Path.join (Disk.pathOf (disk.here.take n)) fileName.toList) with
    | some (.file bytes _) => some bytes
    | _ => none)

/-- The variables with those that the file adds, if there is one. -/
def load (disk : Disk) (set : Variables) : Variables :=
  match file? disk with
  | some bytes => addFile set bytes
  | none => set

end Variables

end CodeAtlas
