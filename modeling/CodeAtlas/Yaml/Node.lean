import CodeAtlas.Yaml.Token

/-!
The nodes of a YAML document, built from its tokens: scalars, sequences and mappings with their
tags. An alias stays a node of its own that names the node it stands for, since a node may stand
inside itself; `Document.target` looks it up.
-/
namespace CodeAtlas.Yaml

inductive Node where
  | scalar (tag : Option String) (style : ScalarStyle) (text : List Char)
  | sequence (tag : Option String) (items : List Node)
  | mapping (tag : Option String) (entries : List (Node × Node))
  /-- The node with the given number. -/
  | alias (number : Nat)

/-- A node that is not written. -/
def Node.missing : Node := .scalar none .plain []

/-- A document. One without any token has no root. -/
structure Document where
  root : Option Node
  /-- The nodes with names, by number. -/
  anchors : List (Nat × Node)
  /-- How many nodes are written; a sequence or mapping counts twice, for its begin and its end. -/
  size : Nat

/-- The node that a node stands for. -/
def Document.target (d : Document) : Node → Node
  | .alias n => (d.anchors.lookup n).getD .missing
  | other => other

namespace Node

/-- What is known while nodes are built. -/
structure Builder where
  tokens : List Token
  /-- What the handles of tags stand for. -/
  shorthands : List (List Char × List Char) := []
  /-- The numbers of names, latest first. -/
  names : List (List Char × Nat) := []
  anchors : List (Nat × Node) := []
  size : Nat := 0

abbrev Build := StateT Builder Option

def peek : Build (Option Token) := return (← get).tokens.head?

/-- Goes behind the next token. -/
def next : Build Unit := modify fun b => { b with tokens := b.tokens.tail }

/-- Whether the next token is one of the given ones; the end of the text is none. -/
def sees (tokens : List Token) : Build Bool := return (← peek).any tokens.contains

/-- Takes the next token if it is the given one. -/
def take (t : Token) : Build Bool := do
  if ← sees [t] then do
    next
    return true
  else return false

/-- Takes the next token, which must be the given one. -/
def expect (t : Token) : Build Unit := do
  if ← take t then return else failure

/-! ## Tags and names -/

/-- The tag with a handle and a suffix. -/
def tagOf (handle suffix : List Char) : Build (Option String) := do
  if handle.isEmpty then return some (String.ofList suffix)
  match (← get).shorthands.lookup handle with
  | some start => return some (String.ofList (start ++ suffix))
  | none => failure

/-- Takes a name, if there is one, and gives it the next number. -/
def takeAnchor : Build (Option Nat) := do
  match ← peek with
  | some (.anchor name) =>
    next
    let n := (← get).names.length
    modify fun b => { b with names := (name, n) :: b.names }
    return some n
  | _ => return none

/-- Takes a tag, if there is one. -/
def takeTag : Build (Option (Option String)) := do
  match ← peek with
  | some (.tag handle suffix) =>
    next
    return some (← tagOf handle suffix)
  | _ => return none

/-- Takes a name and a tag in any order. -/
def takeProperties : Build (Option Nat × Option (Option String)) := do
  match ← takeAnchor with
  | some n => return (some n, ← takeTag)
  | none =>
    let tag ← takeTag
    return (← if tag.isSome then takeAnchor else pure none, tag)

/-- What a node without its parts counts. -/
def weight : Node → Nat
  | .sequence _ _ | .mapping _ _ => 2
  | _ => 1

/-- Counts a node and records it under its number. -/
def finish (number : Option Nat) (n : Node) : Build Node := do
  modify fun b => { b with
    size := b.size + weight n
    anchors := match number with
      | some k => (k, n) :: b.anchors
      | none => b.anchors }
  return n

/-! ## Nodes -/

mutual

/-- A node. Blocks are allowed where `block` says so, and a block sequence that is not indented
where `level` says so. -/
def build (block level : Bool) : Nat → Build Node
  | 0 => failure
  | fuel + 1 => do
    match ← peek with
    | some (.alias name) =>
      next
      match (← get).names.lookup name with
      | some n => finish none (.alias n)
      | none => failure
    | _ =>
      let (number, written) ← takeProperties
      let tag := written.getD none
      match ← peek with
      | some (.scalar style text) =>
        next
        finish number (.scalar (if tag = some "!" then none else tag) style text)
      | some .openSequence =>
        next
        finish number (.sequence tag (← flowItems true fuel))
      | some .openMapping =>
        next
        finish number (.mapping tag (← flowEntries true fuel))
      | t =>
        if level ∧ t = some .entry then finish number (.sequence tag (← levelItems fuel))
        else if block ∧ t = some .blockSequence then do
          next
          finish number (.sequence tag (← blockItems fuel))
        else if block ∧ t = some .blockMapping then do
          next
          finish number (.mapping tag (← blockEntries fuel))
        else if number.isSome || written.isSome then
          finish number (.scalar (if tag = some "!" then none else tag) .plain [])
        else failure

/-- A node, or a missing one where one of the given tokens follows. -/
def buildUnless (ends : List Token) (block level : Bool) : Nat → Build Node
  | 0 => failure
  | fuel + 1 => do
    if ← sees ends then finish none .missing else build block level fuel

/-- The items of a block sequence, to its end. -/
def blockItems : Nat → Build (List Node)
  | 0 => failure
  | fuel + 1 => do
    if ← take .blockEnd then return []
    expect .entry
    let item ← buildUnless [.entry, .blockEnd] true false fuel
    return item :: (← blockItems fuel)

/-- The items of a sequence that is not indented. -/
def levelItems : Nat → Build (List Node)
  | 0 => failure
  | fuel + 1 => do
    if ← take .entry then
      let item ← buildUnless [.entry, .key, .value, .blockEnd] true false fuel
      return item :: (← levelItems fuel)
    else return []

/-- The entries of a block mapping, to its end. -/
def blockEntries : Nat → Build (List (Node × Node))
  | 0 => failure
  | fuel + 1 => do
    if ← take .blockEnd then return []
    expect .key
    let key ← buildUnless [.key, .value, .blockEnd] true true fuel
    let value ← if ← take .value then buildUnless [.key, .value, .blockEnd] true true fuel
      else finish none .missing
    return (key, value) :: (← blockEntries fuel)

/-- The items of a flow sequence, to its end; behind the first one stands a comma. -/
def flowItems (first : Bool) : Nat → Build (List Node)
  | 0 => failure
  | fuel + 1 => do
    if ← take .closeSequence then return []
    if !first then expect .comma
    if ← take .closeSequence then return []
    let item ← if ← take .key then pairItem fuel else build false false fuel
    return item :: (← flowItems false fuel)

/-- An item of a flow sequence that is a mapping of one key. -/
def pairItem : Nat → Build Node
  | 0 => failure
  | fuel + 1 => do
    let ends := [Token.value, .comma, .closeSequence]
    let key ← if ← sees ends then do
        next
        finish none .missing
      else build false false fuel
    let value ← if ← take .value then buildUnless [.comma, .closeSequence] false false fuel
      else finish none .missing
    finish none (.mapping none [(key, value)])

/-- The entries of a flow mapping, to its end; behind the first one stands a comma. -/
def flowEntries (first : Bool) : Nat → Build (List (Node × Node))
  | 0 => failure
  | fuel + 1 => do
    if ← take .closeMapping then return []
    if !first then expect .comma
    if ← take .closeMapping then return []
    let entry ← if ← take .key then do
        let key ← buildUnless [.value, .comma, .closeMapping] false false fuel
        let value ← if ← take .value then buildUnless [.comma, .closeMapping] false false fuel
          else finish none .missing
        pure (key, value)
      else do
        let key ← build false false fuel
        pure (key, ← finish none .missing)
    return entry :: (← flowEntries false fuel)

end

/-! ## Documents -/

/-- Takes the directives before a document. Each may stand once. -/
def directives (version : Bool) : List Token → Option (List (List Char × List Char) × List Token)
  | .version major minor :: rest =>
    if version || major != 1 || (minor != 1 && minor != 2) then none else directives true rest
  | .shorthand handle start :: rest => do
    let (found, rest) ← directives version rest
    if (found.lookup handle).isSome then none else return ((handle, start) :: found, rest)
  | rest => some ([], rest)

/-- What the handles of tags stand for unless a document says otherwise. -/
def commonShorthands : List (List Char × List Char) :=
  [(['!'], ['!']), (['!', '!'], "tag:yaml.org,2002:".toList)]

/-- Builds the root of a document and takes the marks behind it. There must be no other document. -/
def buildRoot (fuel : Nat) : Build Node := do
  let root ← if (← peek).all (· = .documentEnd) then finish none .missing
    else build true false fuel
  modify fun b => { b with tokens := b.tokens.dropWhile (· = .documentEnd) }
  if (← peek).isSome then failure else return root

/-- Builds the only document of a text. Without a mark at its start it has no directives. -/
def ofTokens? (tokens : List Token) : Option Document :=
  if tokens.isEmpty then some ⟨none, [], 1⟩
  else do
    let fuel := 4 * tokens.length + 8
    let (found, rest) ← directives false tokens
    let shorthands := found ++ commonShorthands
    let (root, b) ← match rest with
      | .documentStart :: rest => (buildRoot fuel).run { tokens := rest, shorthands }
      | _ =>
        if rest.length = tokens.length ∧ rest.head? ≠ some .documentEnd then
          (buildRoot fuel).run { tokens, shorthands }
        else failure
    return ⟨some root, b.anchors, b.size⟩

end Node

/-- Reads the only document of a text. -/
def Document.parse? (text : List Char) : Option Document := (Token.scan? text).bind Node.ofTokens?

end CodeAtlas.Yaml
