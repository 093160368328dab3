import CodeAtlas.Yaml.Value

/-!
Reading values of a known sort from YAML. A record is a mapping, in which unknown keys are ignored
and a known one may stand only once, or the sequence of its first fields; where nothing is written,
it has no fields. Numbers and truth values are told by plain scalars, texts by any scalar.
-/
namespace CodeAtlas.Yaml

/-- Whether a node is a scalar in which nothing is written. -/
def Node.isBlank : Node → Bool
  | .scalar _ style s => style = .plain && s.isEmpty
  | _ => false

/-- The text of a scalar that may stand for something else than a text: a plain one, or a block
whose tag asks for it. -/
def Node.plainText? (tag : String) : Node → Option (List Char)
  | .scalar own style s =>
    if style = .plain ∨ (style = .literal ∧ own = some tag) then some s else none
  | _ => none

namespace Document

/-- Reads a number of 64 bits. -/
def natural (d : Document) (n : Node) : Reading Nat := do
  let k ← (((← d.follow n).plainText? integerTag).bind natural? : Option Nat)
  if k < UInt64.size then return k else failure

/-- Reads a truth value. -/
def truth (d : Document) (n : Node) : Reading Bool := do
  (((← d.follow n).plainText? truthTag).bind truth? : Option Bool)

/-- Reads a text. -/
def text (d : Document) (n : Node) : Reading String := do
  match ← d.follow n with
  | .scalar _ _ s => return String.ofList s
  | _ => failure

/-- Reads a list of texts. -/
def texts (d : Document) (n : Node) : Reading (List String) := do
  match ← d.follow n with
  | .sequence _ items => items.mapM d.text
  | other => if other.isBlank then return [] else failure

/-- Reads with `f` unless the node stands for null. -/
def orNull {α : Type} (d : Document) (f : Node → Reading α) (n : Node) : Reading (Option α) := do
  let n ← d.follow n
  match n with
  | .scalar tag .plain s =>
    if tag = some nullTag then
      if isNullWord s then return none else failure
    else if tag = none ∧ (s.isEmpty ∨ isNullWord s) then return none
    else return some (← f n)
  | _ => return some (← f n)

/-- Reads the fields with the given names. -/
def fields (d : Document) (names : List String) (n : Node) : Reading (List (String × Node)) := do
  match ← d.follow n with
  | .mapping _ entries =>
    let found ← entries.mapM fun (k, v) => return (← d.text k, v)
    let known := found.filter fun f => names.contains f.1
    if (known.map (·.1)).Nodup then return known else failure
  | .sequence _ items => if items.length ≤ names.length then return names.zip items else failure
  | other => if other.isBlank then return [] else failure

/-- Reads the field with the given name; one that is not written has the value `default`. -/
def field {α : Type} (fields : List (String × Node)) (key : String) (default : α)
    (f : Node → Reading α) : Reading α :=
  match fields.lookup key with
  | some n => f n
  | none => return default

end Document

end CodeAtlas.Yaml
