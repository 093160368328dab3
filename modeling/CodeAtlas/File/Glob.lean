import CodeAtlas.Pattern
import CodeAtlas.Text.Cut
import CodeAtlas.Text.Utf8

/-!
Globs: patterns for paths. A star stands for any bytes and a question mark for one, slashes
included; two stars between slashes stand for any folders, none included. Square brackets enclose a
set of bytes, braces enclose alternatives, a backslash takes the next character for itself. Paths
are matched as wholes, byte by byte: `Glob.pattern` is the pattern over bytes, each written as the
character with its number.
-/
namespace CodeAtlas

inductive GlobPart where
  | char (c : Char)
  /-- One byte. -/
  | any
  /-- Any bytes. -/
  | star
  /-- One byte that is in a set, or is not. -/
  | set (negated : Bool) (ranges : List (Char × Char))
  /-- Two stars at the start: nothing, or folders. -/
  | leading
  /-- Two stars between slashes: a slash, or folders between slashes. -/
  | between
  /-- Two stars at the end, behind a slash: everything below a folder. -/
  | trailing
  /-- Alternatives, each by its parts. -/
  | choice (options : List (List GlobPart))

structure Glob where
  parts : List GlobPart

namespace Glob

/-! ## Reading -/

/-- Reads the ranges of a set up to its bracket. Ranges are kept latest first; `first` says that
nothing has been read, and `pending` that the last range waits for its end. -/
def readRanges (done : List (Char × Char)) (first pending : Bool) :
    List Char → Option (List (Char × Char) × List Char)
  | [] => none
  | c :: rest =>
    if c = ']' ∧ !first then
      some ((if pending then ('-', '-') :: done else done).reverse, rest)
    else if c = '-' ∧ !first ∧ !pending then readRanges done false true rest
    else
      match pending, done with
      | true, (a, _) :: done => if c < a then none else readRanges ((a, c) :: done) false false rest
      | _, _ => readRanges ((c, c) :: done) false false rest

/-- Reads a set behind its bracket. -/
def readSet : List Char → Option (GlobPart × List Char)
  | '!' :: rest | '^' :: rest =>
    (readRanges [] true false rest).map fun (ranges, rest) => (.set true ranges, rest)
  | s => (readRanges [] true false s).map fun (ranges, rest) => (.set false ranges, rest)

/-- What two stars stand for: the parts so far, latest first, with those of the stars; the character
before what follows, and what follows. `before` stands before the stars, `inside` says that they are
in braces. -/
def twoStars (inside : Bool) (before : Option Char) (done : List GlobPart) (rest : List Char) :
    List GlobPart × Char × List Char :=
  let plain := (.star :: .star :: done, '*', rest)
  if done.isEmpty then
    match rest with
    | [] => ([.leading], '*', [])
    | '/' :: rest => ([.leading], '/', rest)
    | _ => plain
  else if before != some '/' && !(inside && (before == some ',' || before == some '\x7b')) then plain
  else
    -- the slash in front of the stars belongs to them
    let joined := fun (part : GlobPart) => match done with
      | .leading :: _ => done
      | .trailing :: _ => done
      | _ => part :: done.tail
    match rest with
    | [] => (joined .trailing, '*', [])
    | '/' :: rest => (joined .between, '/', rest)
    | c :: _ => if inside && (c == ',' || c == '\x7d') then (joined .trailing, '*', rest) else plain

mutual

/-- Reads parts up to the end, in braces up to a comma or the closing brace. `done` holds the parts
so far, latest first. -/
def readParts (inside : Bool) :
    Nat → Option Char → List GlobPart → List Char → Option (List GlobPart × List Char)
  | 0, _, _, _ => none
  | _, _, done, [] => if inside then none else some (done.reverse, [])
  | fuel + 1, before, done, c :: rest =>
    if c = '?' then readParts inside fuel (some c) (.any :: done) rest
    else if c = '*' then
      if rest.head? = some '*' then
        let (done, before, rest) := twoStars inside before done rest.tail
        readParts inside fuel (some before) done rest
      else readParts inside fuel (some c) (.star :: done) rest
    else if c = '[' then
      match readSet rest with
      | none => none
      | some (part, rest) => readParts inside fuel (some ']') (part :: done) rest
    else if c = '\x7b' then
      match readOptions fuel c rest with
      | none => none
      | some (options, rest) => readParts inside fuel (some '\x7d') (.choice options :: done) rest
    else if c = '\x7d' then if inside then some (done.reverse, c :: rest) else none
    else if c = ',' ∧ inside then some (done.reverse, c :: rest)
    else if c = '\\' then
      match rest with
      | [] => none
      | d :: rest => readParts inside fuel (some d) (.char d :: done) rest
    else readParts inside fuel (some c) (.char c :: done) rest

/-- Reads alternatives and their closing brace. -/
def readOptions : Nat → Char → List Char → Option (List (List GlobPart) × List Char)
  | 0, _, _ => none
  | fuel + 1, before, s =>
    match readParts true fuel (some before) [] s with
    | some (parts, '\x7d' :: rest) => some ([parts], rest)
    | some (parts, ',' :: rest) =>
      (readOptions fuel ',' rest).map fun (options, rest) => (parts :: options, rest)
    | _ => none

end

def parse? (s : List Char) : Option Glob :=
  (readParts false (2 * s.length + 2) none [] s).map fun (parts, _) => ⟨parts⟩

/-! ## Matching -/

/-- The bytes of a text, each written as the character with its number. -/
def bytesOf (s : List Char) : List Char :=
  (Text.Utf8.encode s).map fun b => Char.ofNat b.toNat

/-- The ranges of bytes that a range of characters stands for: it runs from the last byte of one
end to the first byte of the other, and the other bytes of the ends stand for themselves. -/
def byteRanges (range : Char × Char) : List (Char × Char) :=
  let single := fun (c : Char) => (c, c)
  let low := bytesOf [range.1]
  let high := bytesOf [range.2]
  if range.1 = range.2 then low.map single
  else low.dropLast.map single ++ (low.getLast?.bind fun a => high.head?.map (a, ·)).toList ++
    high.tail.map single

/-- Whether a byte is in a set. -/
def inSet (ranges : List (Char × Char)) (c : Char) : Bool :=
  (ranges.flatMap byteRanges).any fun (a, b) => a ≤ c && c ≤ b

/-- Any byte. -/
def anyByte : Pattern := .one fun _ => true

def slash : Pattern := .char '/'

mutual

/-- The pattern of a part; alternatives without any part have none. -/
def partPattern? : GlobPart → Option Pattern
  | .char c => some (.lit (bytesOf [c]))
  | .any => some anyByte
  | .star => some (.star anyByte)
  | .set negated ranges => some (.one fun c => inSet ranges c != negated)
  | .leading => some (.alt (.opt slash) (.seq (.star anyByte) slash))
  | .between => some (.alt slash (.seq slash (.seq (.star anyByte) slash)))
  | .trailing => some (.seq slash (.star anyByte))
  | .choice options => choicePattern? options

/-- The pattern of parts in a row; nothing if no part has a pattern. -/
def partsPattern? : List GlobPart → Option Pattern
  | [] => none
  | part :: rest =>
    match partPattern? part, partsPattern? rest with
    | some p, some q => some (.seq p q)
    | some p, none => some p
    | none, found => found

/-- The pattern of alternatives; those that have none are left out. -/
def choicePattern? : List (List GlobPart) → Option Pattern
  | [] => none
  | option :: rest =>
    match partsPattern? option, choicePattern? rest with
    | some p, some q => some (.alt p q)
    | some p, none => some p
    | none, found => found

end

/-- The pattern of a glob. Two stars alone stand for everything. -/
def pattern (g : Glob) : Pattern :=
  match g.parts with
  | [.leading] => .star anyByte
  | parts => (partsPattern? parts).getD .nothing

/-- Whether a glob stands for a path. -/
def fits (g : Glob) (path : List Char) : Bool :=
  ((Pattern.seq g.pattern .textEnd).atStart (bytesOf path)).isSome

end Glob

/-- The globs among patterns. Blank patterns and those that are no globs are left out. -/
def globsOf (patterns : List String) : List Glob :=
  (patterns.filter fun s => !(Text.trim s.toList).isEmpty).filterMap fun s => Glob.parse? s.toList

end CodeAtlas
