import CodeAtlas.Json.Value

/-!
Writing JSON: on one line without spaces, or indented by two spaces. Strings escape the quote, the
backslash and the control characters and nothing else.
-/
namespace CodeAtlas.Json

/-- A digit of base sixteen, in lower case. -/
def hexDigit (n : Nat) : Char := Nat.digitChar (n % 16)

/-- How a character is written inside a string. -/
def escaped (c : Char) : List Char :=
  let n := c.val.toNat
  if c = '"' then ['\\', '"']
  else if c = '\\' then ['\\', '\\']
  else if n = 8 then ['\\', 'b']
  else if n = 9 then ['\\', 't']
  else if n = 10 then ['\\', 'n']
  else if n = 12 then ['\\', 'f']
  else if n = 13 then ['\\', 'r']
  else if n < 32 then ['\\', 'u', '0', '0', hexDigit (n / 16), hexDigit n]
  else [c]

def quoted (s : String) : String :=
  s.toList.foldl (fun out c => if c.val < 32 || c = '"' || c = '\\' then
    (escaped c).foldl String.push out else out.push c) "\"" |>.push '"'

def Number.text : Number → String
  | .integer n => toString n
  | .float bits => String.ofList (Decimal.floatText bits)

mutual

/-- Appends a value, written on one line without spaces. -/
def write (out : String) : Json → String
  | .null | .unreadable => out ++ "null"
  | .bool b => out ++ (if b then "true" else "false")
  | .number n => out ++ n.text
  | .string s => out ++ quoted s
  | .array items => (writeItems (out.push '[') true items).push ']'
  | .object members => (writeMembers (out.push '\x7b') true members).push '\x7d'

/-- Appends items with commas between them. -/
def writeItems (out : String) (first : Bool) : List Json → String
  | [] => out
  | item :: rest => writeItems (write (if first then out else out.push ',') item) false rest

/-- Appends members with commas between them. -/
def writeMembers (out : String) (first : Bool) : List (String × Json) → String
  | [] => out
  | (key, value) :: rest =>
    let out := (if first then out else out.push ',') ++ quoted key
    writeMembers (write (out.push ':') value) false rest

end

/-- A value on one line, without spaces. -/
def compact (j : Json) : String := write "" j

/-- A new line with the given number of levels of indentation. -/
def newline (level : Nat) : String := "\n" ++ String.ofList (List.replicate (2 * level) ' ')

mutual

/-- Appends a value, each item and member on a line of its own. -/
def writePretty (level : Nat) (out : String) : Json → String
  | .array (item :: rest) =>
    writePrettyItems (level + 1) (out.push '[') true (item :: rest) ++ newline level ++ "]"
  | .object (m :: rest) =>
    writePrettyMembers (level + 1) (out.push '\x7b') true (m :: rest) ++ newline level ++ "\x7d"
  | .null | .unreadable => out ++ "null"
  | .bool b => out ++ (if b then "true" else "false")
  | .number n => out ++ n.text
  | .string s => out ++ quoted s
  | .array [] => out ++ "[]"
  | .object [] => out ++ "\x7b\x7d"

/-- Appends items on lines of their own. -/
def writePrettyItems (level : Nat) (out : String) (first : Bool) : List Json → String
  | [] => out
  | item :: rest =>
    let out := (if first then out else out.push ',') ++ newline level
    writePrettyItems level (writePretty level out item) false rest

/-- Appends members on lines of their own. -/
def writePrettyMembers (level : Nat) (out : String) (first : Bool) :
    List (String × Json) → String
  | [] => out
  | (key, value) :: rest =>
    let out := (if first then out else out.push ',') ++ newline level ++ quoted key ++ ": "
    writePrettyMembers level (writePretty level out value) false rest

end

/-- A value with each item and member on a line of its own. -/
def pretty (j : Json) : String := writePretty 0 "" j

end CodeAtlas.Json
