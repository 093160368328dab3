import CodeAtlas.Text.Cut

/-!
Source text of the analysed language, seen by a scanner that knows comments and string literals
and nothing else. `Source.code` keeps what is neither, together with all newlines and the quotes
of the literals, so that names written in comments or literals are not taken for code.
-/
namespace CodeAtlas.Source

/-- Where the scanner stands. -/
inductive Mode where
  | code
  | lineComment
  /-- In a block comment; `star` says that the last character read was an asterisk. -/
  | blockComment (star : Bool)
  /-- In a literal; `escaped` says that a backslash has just been read. -/
  | literal (quote : Char) (escaped : Bool)
  deriving DecidableEq, Repr

/-- Whether a character opens a string literal. -/
def isQuote (c : Char) : Bool := c == '"' || c == '\''

/-- What remains of a text from a mode on. A literal ends at its quote or, left open, at the end
of its line; block comments do not nest. -/
def scan : Mode → List Char → List Char
  | _, [] => []
  | .code, '/' :: '/' :: rest => scan .lineComment rest
  | .code, '/' :: '*' :: rest => scan (.blockComment false) rest
  | .code, c :: rest =>
    if isQuote c then c :: scan (.literal c false) rest else c :: scan .code rest
  | .lineComment, c :: rest =>
    if c = '\n' then c :: scan .code rest else scan .lineComment rest
  | .blockComment star, c :: rest =>
    if c = '\n' then c :: scan (.blockComment false) rest
    else if star && c = '/' then scan .code rest
    else scan (.blockComment (c = '*')) rest
  | .literal quote true, _ :: rest => scan (.literal quote false) rest
  | .literal quote false, c :: rest =>
    if c = '\\' then scan (.literal quote true) rest
    else if c = '\n' then c :: scan .code rest
    else if c = quote then c :: scan .code rest
    else scan (.literal quote false) rest

/-- The text without comments and without the contents of string literals. -/
def code (text : List Char) : List Char := scan .code text

end CodeAtlas.Source
