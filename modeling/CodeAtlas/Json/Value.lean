import CodeAtlas.Json.Decimal

/-!
JSON values. The members of an object are kept in the order in which they were written, with
repetitions; `Json.canonical?` is the view with sorted keys in which the last of several equal
keys counts.
-/
namespace CodeAtlas

/-- A JSON number: an integer within 64 bits, or a 64-bit floating-point number given by its
bits. -/
inductive Json.Number where
  | integer (n : Int)
  | float (bits : UInt64)
  deriving DecidableEq, Repr

/-- A JSON value. `unreadable` stands for a text that has the outline of a value and denotes none:
a number beyond all floating-point numbers, half of a surrogate pair, too deep a nesting. -/
inductive Json where
  | null
  | bool (b : Bool)
  | number (n : Json.Number)
  | string (s : String)
  | array (items : List Json)
  | object (members : List (String × Json))
  | unreadable
  deriving Repr

namespace Json

/-- A natural number as a value. -/
def ofNat (n : Nat) : Json := .number (.integer n)

def ofText? : Option String → Json
  | none => .null
  | some s => .string s

/-- An optional value, null if absent. -/
def ofOption {α : Type} (f : α → Json) : Option α → Json
  | none => .null
  | some a => f a

/-- A list of values, each encoded by `f`. -/
def ofList {α : Type} (f : α → Json) (items : List α) : Json := .array (items.map f)

def ofTexts (items : List String) : Json := ofList .string items

/-- Whether a value is null. -/
def isNull : Json → Bool
  | .null => true
  | _ => false

/-- Puts a member in its place among members sorted by key; an equal key is replaced. -/
def insertMember (key : String) (value : Json) : List (String × Json) → List (String × Json)
  | [] => [(key, value)]
  | (k, v) :: rest =>
    if key = k then (key, value) :: rest
    else if key < k then (key, value) :: (k, v) :: rest
    else (k, v) :: insertMember key value rest

mutual

/-- The value with the members of every object sorted by key, the last of equal keys counting;
nothing if some part is unreadable. -/
def canonical? : Json → Option Json
  | .unreadable => none
  | .array items => (canonicalItems? items).map .array
  | .object members => (canonicalMembers? members []).map .object
  | other => some other

/-- `canonical?` of every item. -/
def canonicalItems? : List Json → Option (List Json)
  | [] => some []
  | item :: rest => do return (← canonical? item) :: (← canonicalItems? rest)

/-- `canonical?` of every member, put into the members already sorted. -/
def canonicalMembers? : List (String × Json) → List (String × Json) → Option (List (String × Json))
  | [], sorted => some sorted
  | (key, value) :: rest, sorted => do
    canonicalMembers? rest (insertMember key (← canonical? value) sorted)

end

/-- The member of an object with a given key, the last one if there are several. -/
def member? (key : String) : Json → Option Json
  | .object members => (members.reverse.find? (·.1 == key)).map (·.2)
  | _ => none

/-- The value reached by following a list of keys. -/
def path? : List String → Json → Option Json
  | [], j => some j
  | key :: rest, j => (j.member? key).bind (path? rest)

def items? : Json → Option (List Json)
  | .array items => some items
  | _ => none

def text? : Json → Option String
  | .string s => some s
  | _ => none

def bool? : Json → Option Bool
  | .bool b => some b
  | _ => none

/-- A natural number below `bound`, written as an integer. -/
def natBelow? (bound : Nat) : Json → Option Nat
  | .number (.integer n) => if 0 ≤ n ∧ n < bound then some n.toNat else none
  | _ => none

/-- A natural number of 32 bits. -/
def uint32? (j : Json) : Option UInt32 := (j.natBelow? UInt32.size).map .ofNat

/-- A natural number of 64 bits. -/
def uint64? (j : Json) : Option Nat := j.natBelow? UInt64.size

end Json

end CodeAtlas
