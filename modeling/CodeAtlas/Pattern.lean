import CodeAtlas.Text.Class

/-!
Text patterns with ordered choice. `Pattern.run` tries the alternatives of a pattern in order of
preference and hands each way of matching to a continuation; the first way the continuation
accepts is the match. `Pattern.find` looks for the leftmost position with a match.
-/
namespace CodeAtlas

/-- A piece of text: the first `length` characters of `source`. -/
structure Capture where
  source : List Char
  length : Nat

/-- The characters of a captured piece. -/
def Capture.text (c : Capture) : List Char := c.source.take c.length

/-- A place in a text: the character before it, what follows it, its distance from the start of
the text and the groups captured so far, latest first. -/
structure Cursor where
  before : Option Char
  rest : List Char
  offset : Nat
  groups : List (Nat × Capture)

namespace Cursor

/-- The start of a text. -/
def ofText (s : List Char) : Cursor := ⟨none, s, 0, []⟩

/-- The place behind the next character `x`, when `rest` follows it. -/
def advance (c : Cursor) (x : Char) (rest : List Char) : Cursor :=
  ⟨some x, rest, c.offset + 1, c.groups⟩

/-- Whether a word begins or ends here. -/
def atWordEdge (c : Cursor) : Bool :=
  (c.before.any Text.isWord) != (c.rest.head?.any Text.isWord)

/-- The text of the group `n`, if it took part in the match. -/
def group? (c : Cursor) (n : Nat) : Option (List Char) := (c.groups.lookup n).map Capture.text

/-- The text of the group `n`, empty if it took no part in the match. -/
def group (c : Cursor) (n : Nat) : List Char := (c.group? n).getD []

end Cursor

/-- Patterns over text. Choice and repetition are ordered: `alt` prefers its first part, `many`
prefers more repetitions when greedy and fewer when not. Repeated patterns take at least one
character each time. -/
inductive Pattern where
  | nothing
  | one (p : Char → Bool)
  | seq (a b : Pattern)
  | alt (a b : Pattern)
  | many (greedy : Bool) (a : Pattern)
  | group (n : Nat) (a : Pattern)
  | textStart
  | textEnd
  | wordEdge

namespace Pattern

/-! ## Building patterns -/

instance : Append Pattern := ⟨seq⟩

instance : OrElse Pattern := ⟨fun a b => alt a (b ())⟩

/-- The given text. -/
def lit (s : List Char) : Pattern := s.foldr (fun c p => seq (one (· == c)) p) nothing

/-- The given word. -/
def word (s : String) : Pattern := lit s.toList

/-- The first of the given words that fits. -/
def words : List String → Pattern
  | [] => one fun _ => false
  | [s] => word s
  | s :: rest => alt (word s) (words rest)

/-- The given character. -/
def char (c : Char) : Pattern := one (· == c)

/-- The pattern, or nothing. -/
def opt (a : Pattern) : Pattern := alt a nothing

/-- Any number of times, as often as possible. -/
def star (a : Pattern) : Pattern := many true a

/-- At least once, as often as possible. -/
def plus (a : Pattern) : Pattern := seq a (many true a)

/-- Any number of times, as seldom as possible. -/
def lazyStar (a : Pattern) : Pattern := many false a

/-- At least once, as seldom as possible. -/
def lazyPlus (a : Pattern) : Pattern := seq a (many false a)

/-- A blank. -/
def blank : Pattern := one Text.isBlank

/-- Any number of blanks. -/
def blanks : Pattern := star blank

/-- At least one blank. -/
def gap : Pattern := plus blank

/-- A word character. -/
def wordChar : Pattern := one Text.isWord

/-- A character of an identifier. -/
def identChar : Pattern := one Text.isIdentPart

/-- A word character or one of the given marks. -/
def wordOr (marks : String) : Pattern := one fun c => Text.isWord c || marks.toList.contains c

/-- A word character, a blank or one of the given marks. -/
def textOr (marks : String) : Pattern :=
  one fun c => Text.isWord c || Text.isBlank c || marks.toList.contains c

/-- Any character but the newline. -/
def inLine : Pattern := one (· != '\n')

/-! ## Matching -/

/-- Up to `fuel` rounds of a step, each choice between one more round and going on made in the
preferred order. -/
def rounds {α : Type} (step : Cursor → (Cursor → Option α) → Option α) (greedy : Bool) :
    Nat → Cursor → (Cursor → Option α) → Option α
  | 0, c, k => k c
  | fuel + 1, c, k =>
    if greedy then
      match step c fun c' => rounds step greedy fuel c' k with
      | some a => some a
      | none => k c
    else
      match k c with
      | some a => some a
      | none => step c fun c' => rounds step greedy fuel c' k

/-- The first way of matching the pattern here that the continuation accepts. No repetition makes
more than `fuel` rounds; the length of the text is always enough. -/
def run {α : Type} (fuel : Nat) : Pattern → Cursor → (Cursor → Option α) → Option α
  | nothing, c, k => k c
  | one p, c, k =>
    match c.rest with
    | [] => none
    | x :: rest => if p x then k (c.advance x rest) else none
  | seq a b, c, k => run fuel a c fun c' => run fuel b c' k
  | alt a b, c, k =>
    match run fuel a c k with
    | some r => some r
    | none => run fuel b c k
  | many greedy a, c, k => rounds (fun c' k' => run fuel a c' k') greedy fuel c k
  | group n a, c, k =>
    run fuel a c fun c' =>
      k { c' with groups := (n, ⟨c.rest, c'.offset - c.offset⟩) :: c'.groups }
  | textStart, c, k => if c.before.isNone then k c else none
  | textEnd, c, k => if c.rest.isEmpty then k c else none
  | wordEdge, c, k => if c.atWordEdge then k c else none

/-- Where a match that starts here ends. -/
def matchAt (p : Pattern) (fuel : Nat) (c : Cursor) : Option Cursor := run fuel p c some

/-- The places where the leftmost match at or behind a place starts and ends. -/
def findFrom (p : Pattern) (fuel : Nat) (before : Option Char) (offset : Nat) :
    List Char → Option (Cursor × Cursor)
  | [] =>
    let here : Cursor := ⟨before, [], offset, []⟩
    (p.matchAt fuel here).map (here, ·)
  | x :: rest =>
    let here : Cursor := ⟨before, x :: rest, offset, []⟩
    match p.matchAt fuel here with
    | some stop => some (here, stop)
    | none => findFrom p fuel (some x) (offset + 1) rest

/-- The leftmost match in a text. -/
def find (p : Pattern) (s : List Char) : Option (Cursor × Cursor) :=
  p.findFrom s.length none 0 s

/-- The end of a match that starts where the text starts. -/
def atStart (p : Pattern) (s : List Char) : Option Cursor := p.matchAt s.length (.ofText s)

/-- All matches, from left to right, none overlapping another, at most `count` of them. -/
def findAllFrom (p : Pattern) (fuel : Nat) : Nat → Cursor → List (Cursor × Cursor)
  | 0, _ => []
  | count + 1, c =>
    match p.findFrom fuel c.before c.offset c.rest with
    | none => []
    | some (start, stop) => (start, stop) :: findAllFrom p fuel count stop

/-- All matches in a text, for a pattern that never matches nothing. -/
def findAll (p : Pattern) (s : List Char) : List (Cursor × Cursor) :=
  p.findAllFrom s.length s.length (.ofText s)

/-- What is left of the text behind `c` when the given matches in it are cut out. -/
def cutOut (c : Cursor) : List (Cursor × Cursor) → List Char
  | [] => c.rest
  | (start, stop) :: rest => c.rest.take (start.offset - c.offset) ++ cutOut stop rest

/-- The text without the matches of the pattern. -/
def removeAll (p : Pattern) (s : List Char) : List Char := cutOut (.ofText s) (p.findAll s)

end Pattern

end CodeAtlas
