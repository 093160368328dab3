import CodeAtlas.Text.Number
import CodeAtlas.Yaml.Place

/-!
The scalars of YAML: plain ones, quoted ones and blocks. Each reader takes a place and gives the
text of the scalar with the place behind it, or nothing where the text breaks the rules.
-/
namespace CodeAtlas.Yaml

/-- How a scalar is written. -/
inductive ScalarStyle where
  | plain
  | singleQuoted
  | doubleQuoted
  | literal
  | folded
  deriving DecidableEq, Repr

namespace Scalar

/-! ## Quoted -/

/-- The character with a code point written in `digits`. -/
def ofHex? (digits : List Char) : Option Char := do
  let n := (← digits.mapM Text.hexValue?).foldl (fun n d => n * 16 + d) 0
  if h : n.isValidChar then return Char.ofNatAux n h else none

/-- The character that a letter behind a backslash stands for. -/
def escape? (c : Char) : Option Char :=
  (([('0', 0), ('a', 7), ('b', 8), ('t', 9), ('\t', 9), ('n', 10), ('v', 11), ('f', 12), ('r', 13),
    ('e', 27), (' ', 32), ('"', 34), ('/', 47), ('\\', 92), ('N', 0x85), ('_', 0xA0),
    ('L', 0x2028), ('P', 0x2029)] : List (Char × Nat)).lookup c).map Char.ofNat

/-- The number of digits behind a letter that stands for a code point. -/
def hexLength? : Char → Option Nat
  | 'x' => some 2
  | 'u' => some 4
  | 'U' => some 8
  | _ => none

/-- Reads an escape behind its backslash: the character, and how many characters it takes. -/
def escaped? : List Char → Option (Char × Nat)
  | [] => none
  | c :: rest =>
    match hexLength? c with
    | some n =>
      if (rest.take n).length = n then (ofHex? (rest.take n)).map (·, n + 1) else none
    | none => (escape? c).map (·, 1)

/-- Reads a quoted scalar up to a blank, a line break or its quote. The last part says that a
line break behind a backslash was read. -/
def quotedRun (quote : Char) : Nat → List Char → Place → Option (List Char × Place × Bool)
  | 0, _, _ => none
  | fuel + 1, out, p =>
    match p.rest with
    | [] => some (out, p, false)
    | c :: rest =>
      if isBlank c || isBreak c then some (out, p, false)
      else if c = quote then
        if quote = '\'' ∧ rest.head? = some '\'' then quotedRun quote fuel ('\'' :: out) (p.skip 2)
        else some (out, p, false)
      else if c = '\\' ∧ quote = '"' then
        if rest.head?.any isBreak then some (out, (p.skip 1).lineBreak.2, true)
        else
          match escaped? rest with
          | none => none
          | some (e, n) => quotedRun quote fuel (e :: out) (p.skip (n + 1))
      else quotedRun quote fuel (c :: out) (p.skip 1)

/-- Reads a quoted scalar behind its first quote. `out` holds the text so far, backwards. -/
def quotedFrom (quote : Char) : Nat → List Char → Place → Option (List Char × Place)
  | 0, _, _ => none
  | fuel + 1, out, p =>
    if p.atDocumentMark || p.rest.isEmpty then none
    else do
      let (out, p, broken) ← quotedRun quote (p.rest.length + 1) out p
      if p.sees quote then return (out.reverse, p.skip 1)
      let (gap, p) ← Gap.read (-1) p.rest.length { broken } p
      quotedFrom quote fuel (gap.text.reverse ++ out) p

/-- Reads a quoted scalar at its first quote. -/
def quoted (quote : Char) (p : Place) : Option (List Char × Place) :=
  quotedFrom quote (p.rest.length + 1) [] (p.skip 1)

/-! ## Plain -/

/-- The marks of flow collections. -/
def isFlowMark (c : Char) : Bool := c == ',' || c == '[' || c == ']' || c == '\x7b' || c == '\x7d'

/-- Reads a plain scalar up to a blank, a line break or its end. -/
def plainRun (flow : Bool) : Nat → List Char → Place → Option (List Char × Place)
  | 0, out, p => some (out, p)
  | fuel + 1, out, p =>
    match p.rest with
    | [] => some (out, p)
    | c :: rest =>
      if isBlank c || isBreak c then some (out, p)
      else if flow && c == ':' && rest.head?.any (fun d => isFlowMark d || d == '?') then none
      else if (c == ':' && atBlank rest) || (flow && isFlowMark c) then some (out, p)
      else plainRun flow fuel (c :: out) (p.skip 1)

/-- Reads a plain scalar behind a gap. `out` holds the text so far, backwards. The last part says
that a line break was read behind the scalar. -/
def plainFrom (flow : Bool) (indent : Int) :
    Nat → List Char → Gap → Place → Option (List Char × Place × Bool)
  | 0, _, _, _ => none
  | fuel + 1, out, gap, p =>
    if p.atDocumentMark || p.sees '#' then some (out.reverse, p, gap.broken)
    else do
      let (run, p') ← plainRun flow p.rest.length [] p
      let out := if run.isEmpty then out else run ++ gap.text.reverse ++ out
      let gap := if run.isEmpty then gap else {}
      if p'.rest.isEmpty || !atBlank p'.rest then return (out.reverse, p', gap.broken)
      let (gap, p) ← Gap.read indent p'.rest.length gap p'
      if !flow && p.column < indent then return (out.reverse, p, gap.broken)
      plainFrom flow indent fuel out gap p

/-- Reads a plain scalar whose later lines are indented by at least `indent`. -/
def plain (flow : Bool) (indent : Int) (p : Place) : Option (List Char × Place × Bool) :=
  plainFrom flow indent (p.rest.length + 1) [] {} p

/-! ## Blocks -/

/-- What becomes of the line breaks at the end of a block. -/
inductive Chomping where
  | strip
  | clip
  | keep
  deriving DecidableEq, Repr

/-- Reads the mark for the line breaks at the end. -/
def chomping? : Char → Option Chomping
  | '+' => some .keep
  | '-' => some .strip
  | _ => none

/-- Reads an indentation of one digit; zero is none. -/
def indentation? (p : Place) : Option (Nat × Place) :=
  match p.char? with
  | some c =>
    if c.isDigit then if c = '0' then none else some (Text.digitValue c, p.skip 1)
    else some (0, p)
  | none => some (0, p)

/-- Reads what stands behind the mark of a block: the indentation, zero if it is not told, and the
chomping, in any order. -/
def blockHeader (p : Place) : Option (Nat × Chomping × Place) :=
  match p.char?.bind chomping? with
  | some chomping => do
    let (indent, p) ← indentation? (p.skip 1)
    return (indent, chomping, p)
  | none => do
    let (indent, p') ← indentation? p
    if indent = 0 then return (0, .clip, p)
    match p'.char?.bind chomping? with
    | some chomping => return (indent, chomping, p'.skip 1)
    | none => return (indent, .clip, p')

/-- The place behind blanks, a comment and the line break at the end of a line. -/
def endOfLine (p : Place) : Option Place :=
  let p := p.skipWhile isBlank
  let p := if p.sees '#' then p.skipLine else p
  if p.rest.isEmpty then some p
  else if atBreak p.rest then some p.lineBreak.2
  else none

/-- Reads indentation and empty lines. `indent` is zero as long as it is not known; `widest` is the
widest indentation read. -/
def blockBreaks (indent : Nat) :
    Nat → Nat → List Char → Place → Option (Nat × List Char × Place)
  | 0, widest, breaks, p => some (widest, breaks, p)
  | fuel + 1, widest, breaks, p =>
    let spaces := (p.rest.takeWhile (· == ' ')).length
    let p := p.skip (if indent = 0 then spaces else min spaces (indent - p.column))
    let widest := max widest p.column
    if (indent = 0 ∨ p.column < indent) ∧ p.sees '\t' then none
    else if p.char?.any isBreak then
      let (text, p) := p.lineBreak
      blockBreaks indent fuel widest (breaks ++ text) p
    else some (widest, breaks, p)

/-- Reads the lines of a block. `last` is the line break of the last line, `breaks` those of the
empty lines behind it, `blank` says that the last line began with a blank. -/
def blockLines (folded : Bool) (indent : Nat) :
    Nat → (out last breaks : List Char) → (blank : Bool) → Place →
      Option (List Char × List Char × List Char × Place)
  | 0, out, last, breaks, _, p => some (out, last, breaks, p)
  | fuel + 1, out, last, breaks, blank, p =>
    if p.column ≠ indent ∨ p.rest.isEmpty then some (out, last, breaks, p)
    else
      let nowBlank := p.char?.any isBlank
      -- a folded line break becomes a space, unless a line on either side begins with a blank
      -- or empty lines follow it
      let glue :=
        if folded && last == ['\n'] && !blank && !nowBlank then
          if breaks.isEmpty then [' '] else []
        else last
      let line := p.rest.takeWhile fun c => !isBreak c
      let (last, p) := (p.skip line.length).lineBreak
      match blockBreaks indent (p.rest.length + 1) 0 [] p with
      | none => none
      | some (_, more, p) =>
        blockLines folded indent fuel (out ++ glue ++ breaks ++ line) last more nowBlank p

/-- Reads a block at its mark. Lines of a block are indented deeper than what they are part of. -/
def block (folded : Bool) (outer : Int) (p : Place) : Option (List Char × Place) := do
  let (told, chomping, p) ← blockHeader (p.skip 1)
  let p ← endOfLine p
  let indent := if told = 0 then 0 else (max outer 0).toNat + told
  let (widest, breaks, p) ← blockBreaks indent (p.rest.length + 1) 0 [] p
  -- an indentation that is not told is that of the first line that is not empty
  let indent := if indent = 0 then max (max widest (outer + 1).toNat) 1 else indent
  let (out, last, breaks, p) ←
    blockLines folded indent (p.rest.length + 1) [] [] breaks false p
  let tail := match chomping with
    | .strip => []
    | .clip => last
    | .keep => last ++ breaks
  return (out ++ tail, p)

end Scalar

end CodeAtlas.Yaml
