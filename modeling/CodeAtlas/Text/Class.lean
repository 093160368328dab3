import CodeAtlas.Text.Ranges

/-!
Character classes of the text rules: blanks (Unicode white space), decimal digits and word
characters. Each class decides ASCII by comparison and looks the rest up in a table.
-/
namespace CodeAtlas.Text

/-- Unicode white space. -/
def isBlank (c : Char) : Bool :=
  let n := c.val.toNat
  if n < 0x80 then n == 0x20 || (0x09 ≤ n && n ≤ 0x0D)
  else n == 0x85 || n == 0xA0 || n == 0x1680 || (0x2000 ≤ n && n ≤ 0x200A) || n == 0x2028 ||
    n == 0x2029 || n == 0x202F || n == 0x205F || n == 0x3000

/-- ASCII letters. -/
def isLetter (c : Char) : Bool :=
  let n := c.val.toNat
  (0x41 ≤ n && n ≤ 0x5A) || (0x61 ≤ n && n ≤ 0x7A)

/-- ASCII digits. -/
def isAsciiDigit (c : Char) : Bool :=
  let n := c.val.toNat
  0x30 ≤ n && n ≤ 0x39

/-- Unicode decimal digits. -/
def isDigit (c : Char) : Bool :=
  if c.val.toNat < 0x80 then isAsciiDigit c else inRanges c.val.toNat digitRanges

/-- Word characters: letters, digits, the underscore and their Unicode companions. -/
def isWord (c : Char) : Bool :=
  let n := c.val.toNat
  if n < 0x80 then isLetter c || isAsciiDigit c || c == '_'
  else if n < 0x3000 then inRanges n lowWordRanges
  else if n < 0x10000 then inRanges n middleWordRanges
  else inRanges n highWordRanges

/-- First characters of an identifier: ASCII letters, underscore, dollar. -/
def isIdentStart (c : Char) : Bool :=
  isLetter c || c == '_' || c == '$'

/-- Later characters of an identifier: word characters and dollar. -/
def isIdentPart (c : Char) : Bool :=
  isWord c || c == '$'

/-- The lower-case form of an ASCII letter, every other character unchanged. -/
def lowerAscii (c : Char) : Char :=
  let n := c.val.toNat
  if 0x41 ≤ n && n ≤ 0x5A then Char.ofNat (n + 0x20) else c

end CodeAtlas.Text
