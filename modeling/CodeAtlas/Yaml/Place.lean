/-!
Places in YAML text. Lines end at a carriage return, a newline, both together, or one of the three
other line breaks; breaks of the first kinds are read as newlines.
-/
namespace CodeAtlas.Yaml

/-- A place in a text: what follows it, the characters before it, the line and the column. -/
structure Place where
  rest : List Char
  index : Nat := 0
  line : Nat := 0
  column : Nat := 0

/-- A line break. -/
def isBreak (c : Char) : Bool :=
  let n := c.val.toNat
  n == 0x0D || n == 0x0A || n == 0x85 || n == 0x2028 || n == 0x2029

/-- A space or a tab. -/
def isBlank (c : Char) : Bool := c == ' ' || c == '\t'

/-- Letters, digits, the underscore and the hyphen. -/
def isNameChar (c : Char) : Bool := c.isAlphanum || c == '_' || c == '-'

/-- Whether a text begins with a line break or is at its end. -/
def atBreak (s : List Char) : Bool := s.head?.all isBreak

/-- Whether a text begins with a blank or a line break or is at its end. -/
def atBlank (s : List Char) : Bool := s.head?.all fun c => isBlank c || isBreak c

namespace Place

/-- The next character. -/
def char? (p : Place) : Option Char := p.rest.head?

/-- Whether the next character is `c`. -/
def sees (p : Place) (c : Char) : Bool := p.rest.head? == some c

/-- The place behind some characters of a line. -/
def skip (p : Place) (n : Nat) : Place :=
  ⟨p.rest.drop n, p.index + n, p.line, p.column + n⟩

/-- The place behind the characters of a sort. -/
def skipWhile (p : Place) (test : Char → Bool) : Place :=
  p.skip (p.rest.takeWhile test).length

/-- The place behind the rest of the line. -/
def skipLine (p : Place) : Place := p.skipWhile fun c => !isBreak c

/-- The place behind a line break, and how the break is read. -/
def lineBreak (p : Place) : List Char × Place :=
  match p.rest with
  | '\r' :: '\n' :: rest => (['\n'], ⟨rest, p.index + 2, p.line + 1, 0⟩)
  | c :: rest =>
    (if c.val = 0x2028 ∨ c.val = 0x2029 then [c] else ['\n'], ⟨rest, p.index + 1, p.line + 1, 0⟩)
  | [] => ([], p)

/-- Whether a mark of three characters stands alone at the start of a line. -/
def atMark (p : Place) (mark : List Char) : Bool :=
  p.column == 0 && p.rest.take 3 == mark && atBlank (p.rest.drop 3)

/-- Whether a document starts or ends here. -/
def atDocumentMark (p : Place) : Bool :=
  p.atMark ['-', '-', '-'] || p.atMark ['.', '.', '.']

end Place

/-! ## Gaps -/

/-- Blanks and line breaks between the parts of a scalar. -/
structure Gap where
  /-- The blanks, as long as there is no line break. -/
  blanks : List Char := []
  broken : Bool := false
  /-- The first line break. -/
  first : List Char := []
  /-- The other line breaks. -/
  more : List Char := []

namespace Gap

/-- How a gap is read: a single newline as a space, several as all but the first. -/
def text (g : Gap) : List Char :=
  if !g.broken then g.blanks
  else if g.first = ['\n'] then if g.more.isEmpty then [' '] else g.more
  else g.first ++ g.more

/-- Reads a gap. A tab left of `indent` on a later line is not allowed. -/
def read (indent : Int) : Nat → Gap → Place → Option (Gap × Place)
  | 0, g, p => some (g, p)
  | fuel + 1, g, p =>
    match p.char? with
    | none => some (g, p)
    | some c =>
      if isBlank c then
        if !g.broken then read indent fuel { g with blanks := g.blanks ++ [c] } (p.skip 1)
        else if c = '\t' ∧ p.column < indent then none
        else read indent fuel g (p.skip 1)
      else if isBreak c then
        let (text, p) := p.lineBreak
        if g.broken then read indent fuel { g with more := g.more ++ text } p
        else read indent fuel { g with broken := true, first := text } p
      else some (g, p)

end Gap

end CodeAtlas.Yaml
