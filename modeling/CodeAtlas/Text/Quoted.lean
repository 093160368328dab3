import CodeAtlas.Text.Hidden
import CodeAtlas.Text.Ranges

/-!
Texts in quotes, as error messages show them. The quote, the backslash and the usual controls are
escaped by a letter, hidden characters by their code point; a single quote stands as it is.
-/
namespace CodeAtlas.Text

/-- Whether a character is shown by its code point. -/
def isHidden (c : Char) : Bool :=
  let n := c.val.toNat
  if n < 0x7F then n < 0x20
  else if n < 0x80 then true
  else if n < 0x3000 then inRanges n lowHiddenRanges
  else if n < 0x10000 then inRanges n middleHiddenRanges
  else inRanges n highHiddenRanges

/-- How a character is shown in a quoted text. -/
def shownChar (c : Char) : List Char :=
  if c = '"' then ['\\', '"']
  else if c = '\\' then ['\\', '\\']
  else if c = '\n' then ['\\', 'n']
  else if c = '\r' then ['\\', 'r']
  else if c = '\t' then ['\\', 't']
  else if c.val = 0 then ['\\', '0']
  else if isHidden c then ['\\', 'u', '\x7b'] ++ Nat.toDigits 16 c.val.toNat ++ ['\x7d']
  else [c]

/-- A text in quotes. -/
def quoted (s : List Char) : List Char := '"' :: s.flatMap shownChar ++ ['"']

end CodeAtlas.Text
