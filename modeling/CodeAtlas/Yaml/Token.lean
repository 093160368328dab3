import CodeAtlas.Text.Utf8
import CodeAtlas.Yaml.Scalar

/-!
The tokens of YAML text. Indentation becomes tokens that open and close blocks. A key that is not
marked as one is known by the colon behind it, so its token is put in front of tokens that are there
already: a `SimpleKey` remembers where. `Token.scan?` gives the tokens of a text, or nothing where
the text breaks the rules.
-/
namespace CodeAtlas.Yaml

inductive Token where
  /-- The version that a document is written in. -/
  | version (major minor : Nat)
  /-- A short form for tags that begin with a text. -/
  | shorthand (handle start : List Char)
  | documentStart
  | documentEnd
  | blockSequence
  | blockMapping
  | blockEnd
  | openSequence
  | closeSequence
  | openMapping
  | closeMapping
  | entry
  | comma
  | key
  | value
  | alias (name : List Char)
  | anchor (name : List Char)
  | tag (handle suffix : List Char)
  | scalar (style : ScalarStyle) (text : List Char)
  deriving DecidableEq, Repr

/-- A place where a key may have begun. -/
structure SimpleKey where
  possible : Bool := false
  /-- Whether the text makes no sense unless it is a key. -/
  required : Bool := false
  /-- How many tokens stand before it. -/
  position : Nat := 0
  index : Nat := 0
  line : Nat := 0
  column : Nat := 0

structure Scanner where
  place : Place
  tokens : List Token := []
  /-- The column of the block that the place is in, and those of the blocks around it. -/
  indent : Int := -1
  outer : List Int := []
  /-- The key that may have begun, here and in the flow collections around. -/
  here : SimpleKey := {}
  around : List SimpleKey := []
  keyAllowed : Bool := true

abbrev Scan := StateT Scanner Option

namespace Scanner

/-- Whether the place is in a flow collection. -/
def inFlow (s : Scanner) : Bool := !s.around.isEmpty

/-- The scan with a token more. -/
def push (s : Scanner) (t : Token) : Scanner := { s with tokens := t :: s.tokens }

/-- The scan with a token put in front of those behind a position. -/
def insert (s : Scanner) (position : Nat) (t : Token) : Scanner :=
  { s with tokens := s.tokens.insertIdx (s.tokens.length - position) t }

def goTo (s : Scanner) (p : Place) : Scanner := { s with place := p }

/-! ## Blocks -/

/-- Opens a block at a column, unless the place is in one. Its token is put at a position, if one is
given. -/
def openBlock (s : Scanner) (column : Nat) (position : Option Nat) (t : Token) : Scanner :=
  if s.inFlow || (column : Int) ≤ s.indent then s
  else
    let s := { s with indent := column, outer := s.indent :: s.outer }
    match position with
    | some n => s.insert n t
    | none => s.push t

/-- Closes the blocks right of a column. -/
def closeBlocks (column : Int) (s : Scanner) : Scanner :=
  if s.inFlow then s else go s.outer s
where
  /-- Closes blocks, those around being given. -/
  go : List Int → Scanner → Scanner
    | [], s => s
    | indent :: outer, s =>
      if column < s.indent then go outer { s.push .blockEnd with indent, outer } else s

/-! ## Keys -/

/-- Whether a key that may have begun at `k` can still be one: it has one line and at most 1024
characters. -/
def isFresh (p : Place) (k : SimpleKey) : Bool := p.line ≤ k.line && p.index ≤ k.index + 1024

/-- A key that can no longer be one is none; there must be one where it is required. -/
def dropStale? (p : Place) (k : SimpleKey) : Option SimpleKey :=
  if !k.possible || isFresh p k then some k
  else if k.required then none
  else some { k with possible := false }

/-- Drops the keys that can no longer be one. -/
def dropStaleKeys? (s : Scanner) : Option Scanner := do
  return { s with
    here := ← dropStale? s.place s.here
    around := ← s.around.mapM (dropStale? s.place) }

/-- Forgets the key that may have begun. -/
def forgetKey? (s : Scanner) : Option Scanner :=
  if s.here.possible && s.here.required then none
  else some { s with here := { s.here with possible := false } }

/-- Remembers that a key may begin here. -/
def rememberKey? (s : Scanner) : Option Scanner :=
  if s.keyAllowed then do
    let s' ← s.forgetKey?
    let p := s.place
    return { s' with here := {
      possible := true
      required := !s.inFlow && s.indent == p.column
      position := s.tokens.length
      index := p.index
      line := p.line
      column := p.column } }
  else some s

/-! ## Between tokens -/

/-- The place of the next token: blanks, comments and line breaks are skipped. Tabs are blanks only
where no key may begin. -/
def skipBetween : Nat → Scanner → Scanner
  | 0, s => s
  | fuel + 1, s =>
    let p := s.place
    let p := if p.index = 0 ∧ p.sees (Char.ofNat 0xFEFF) then p.skip 1 else p
    let p := p.skipWhile fun c => c == ' ' || ((s.inFlow || !s.keyAllowed) && c == '\t')
    let p := if p.sees '#' then p.skipLine else p
    if p.char?.any isBreak then
      skipBetween fuel { s with place := p.lineBreak.2, keyAllowed := s.keyAllowed || !s.inFlow }
    else s.goTo p

/-! ## Tokens -/

/-- A mark that opens or closes a document. -/
def documentMark? (s : Scanner) (t : Token) : Option Scanner := do
  let s ← (s.closeBlocks (-1)).forgetKey?
  return { s.push t with place := s.place.skip 3, keyAllowed := false }

/-- Opens a flow collection. -/
def openFlow? (s : Scanner) (t : Token) : Option Scanner := do
  let s ← s.rememberKey?
  return { s.push t with
    here := {}, around := s.here :: s.around, keyAllowed := true, place := s.place.skip 1 }

/-- Closes a flow collection. -/
def closeFlow? (s : Scanner) (t : Token) : Option Scanner := do
  let s ← s.forgetKey?
  let s := match s.around with
    | [] => s
    | k :: around => { s with here := k, around }
  return { s.push t with keyAllowed := false, place := s.place.skip 1 }

/-- A comma between the items of a flow collection. -/
def comma? (s : Scanner) : Option Scanner := do
  let s ← s.forgetKey?
  return { s.push .comma with keyAllowed := true, place := s.place.skip 1 }

/-- A hyphen before an item of a block sequence. -/
def entry? (s : Scanner) : Option Scanner := do
  if !s.inFlow && !s.keyAllowed then none
  let s ← (s.openBlock s.place.column none .blockSequence).forgetKey?
  return { s.push .entry with keyAllowed := true, place := s.place.skip 1 }

/-- A question mark before a key. -/
def key? (s : Scanner) : Option Scanner := do
  if !s.inFlow && !s.keyAllowed then none
  let s ← (s.openBlock s.place.column none .blockMapping).forgetKey?
  return { s.push .key with keyAllowed := !s.inFlow, place := s.place.skip 1 }

/-- A colon before a value. If a key may have begun before, it has. -/
def value? (s : Scanner) : Option Scanner :=
  let k := s.here
  if k.possible then
    -- the key token, and the mapping it may open, go in front of what was read since
    let s := s.insert k.position .key
    let s := s.openBlock k.column (some k.position) .blockMapping
    some { s.push .value with
      here := { k with possible := false }, keyAllowed := false, place := s.place.skip 1 }
  else if !s.inFlow && !s.keyAllowed then none
  else
    let s := s.openBlock s.place.column none .blockMapping
    some { s.push .value with keyAllowed := !s.inFlow, place := s.place.skip 1 }

/-- The name of an anchor or of an alias. -/
def name? (s : Scanner) (token : List Char → Token) : Option Scanner := do
  let s ← s.rememberKey?
  let p := s.place.skip 1
  let name := p.rest.takeWhile isNameChar
  let p := p.skip name.length
  let ends := atBlank p.rest || p.char?.any (['?', ':', ',', ']', '\x7d', '%', '@', '\x60'].contains ·)
  if name.isEmpty || !ends then none
  else return { s.push (token name) with keyAllowed := false, place := p }

/-! ## Tags -/

/-- Characters of tags. -/
def isTagChar (verbatim : Bool) (c : Char) : Bool :=
  isNameChar c || ";/?:@&=+$.%!~*'()".toList.contains c || (verbatim && ",[]".toList.contains c)

/-- Decodes percent-encoded bytes in a tag. -/
def decodeTag? (text : List Char) : Option (List Char) :=
  (bytes? text).bind Text.Utf8.decode?
where
  /-- The bytes that a text stands for. -/
  bytes? : List Char → Option (List UInt8)
    | [] => some []
    | '%' :: a :: b :: rest => do
      let n := (← Text.hexValue? a) * 16 + (← Text.hexValue? b)
      return UInt8.ofNat n :: (← bytes? rest)
    | '%' :: _ => none
    | c :: rest => do return Text.Utf8.encode [c] ++ (← bytes? rest)

/-- Reads a text of tag characters. -/
def tagText? (verbatim : Bool) (p : Place) : Option (List Char × Place) := do
  let text := p.rest.takeWhile (isTagChar verbatim)
  return (← decodeTag? text, p.skip text.length)

/-- Reads an exclamation mark, name characters and perhaps another exclamation mark. -/
def tagHandle (p : Place) : List Char × Place :=
  let name := (p.rest.drop 1).takeWhile isNameChar
  let p := p.skip (name.length + 1)
  if p.sees '!' then ('!' :: name ++ ['!'], p.skip 1) else ('!' :: name, p)

/-- Reads a tag: its handle and the rest of it. -/
def tagParts? (p : Place) : Option (List Char × List Char × Place) :=
  if (p.skip 1).sees '<' then do
    let (suffix, p) ← tagText? true (p.skip 2)
    if suffix.isEmpty || !p.sees '>' then none else return ([], suffix, p.skip 1)
  else do
    let (handle, p) := tagHandle p
    let (suffix, p) ← tagText? false p
    if 1 < handle.length ∧ handle.getLast? = some '!' then
      if suffix.isEmpty then none else return (handle, suffix, p)
    else
      let suffix := handle.drop 1 ++ suffix
      return if suffix.isEmpty then ([], ['!'], p) else (['!'], suffix, p)

def tag? (s : Scanner) : Option Scanner := do
  let s ← s.rememberKey?
  let (handle, suffix, p) ← tagParts? s.place
  if !atBlank p.rest && !(s.inFlow && p.sees ',') then none
  else return { s.push (.tag handle suffix) with keyAllowed := false, place := p }

/-! ## Directives -/

/-- Reads a number of at most nine digits. -/
def versionNumber? (p : Place) : Option (Nat × Place) :=
  let digits := p.rest.takeWhile Char.isDigit
  if digits.isEmpty || 9 < digits.length then none
  else some (Text.ofDigits digits, p.skip digits.length)

/-- Reads a version behind its directive. -/
def version? (p : Place) : Option (Token × Place) := do
  let (major, p) ← versionNumber? (p.skipWhile isBlank)
  if !p.sees '.' then none
  let (minor, p) ← versionNumber? (p.skip 1)
  return (.version major minor, p)

/-- Reads a handle and the start of the tags that it stands for. -/
def shorthand? (p : Place) : Option (Token × Place) := do
  let p := p.skipWhile isBlank
  if !p.sees '!' then none
  let (handle, p) := tagHandle p
  if handle.getLast? ≠ some '!' ∨ !p.char?.any isBlank then none
  let (start, p) ← tagText? true (p.skipWhile isBlank)
  if start.isEmpty || !atBlank p.rest then none else return (.shorthand handle start, p)

/-- A directive: a line before a document. -/
def directive? (s : Scanner) : Option Scanner := do
  let s ← (s.closeBlocks (-1)).forgetKey?
  let p := s.place.skip 1
  let name := p.rest.takeWhile isNameChar
  let p := p.skip name.length
  if !atBlank p.rest then none
  let (t, p) ← if name = "YAML".toList then version? p
    else if name = "TAG".toList then shorthand? p
    else none
  return { s.push t with keyAllowed := false, place := ← Scalar.endOfLine p }

/-! ## Scalars -/

def block? (s : Scanner) (folded : Bool) : Option Scanner := do
  let s ← s.forgetKey?
  let (text, p) ← Scalar.block folded s.indent s.place
  let style := if folded then .folded else .literal
  return { s.push (.scalar style text) with keyAllowed := true, place := p }

def quoted? (s : Scanner) (quote : Char) : Option Scanner := do
  let s ← s.rememberKey?
  let (text, p) ← Scalar.quoted quote s.place
  let style := if quote = '"' then .doubleQuoted else .singleQuoted
  return { s.push (.scalar style text) with keyAllowed := false, place := p }

/-- A plain scalar. A key may begin on the line behind it. -/
def plain? (s : Scanner) : Option Scanner := do
  let s ← s.rememberKey?
  let (text, p, broken) ← Scalar.plain s.inFlow (s.indent + 1) s.place
  return { s.push (.scalar .plain text) with keyAllowed := broken, place := p }

/-- Marks that no plain scalar begins with. -/
def isMark (c : Char) : Bool := "-?:,[]\x7b\x7d#&*!|>'\"%@\x60".toList.contains c

/-- Whether a plain scalar begins with a text. -/
def beginsPlain (s : Scanner) (c : Char) (rest : List Char) : Bool :=
  !(isBlank c || isMark c) || (c == '-' && !rest.head?.any isBlank) ||
    (!s.inFlow && (c == '?' || c == ':') && !atBlank rest)

/-- Takes the token that begins with a character. -/
def dispatch? (s : Scanner) (c : Char) (rest : List Char) : Option Scanner :=
  let p := s.place
  if c = '%' ∧ p.column = 0 then s.directive?
  else if p.atMark ['-', '-', '-'] then s.documentMark? .documentStart
  else if p.atMark ['.', '.', '.'] then s.documentMark? .documentEnd
  else if c = '[' then s.openFlow? .openSequence
  else if c = '\x7b' then s.openFlow? .openMapping
  else if c = ']' then s.closeFlow? .closeSequence
  else if c = '\x7d' then s.closeFlow? .closeMapping
  else if c = ',' then s.comma?
  else if c = '-' ∧ atBlank rest then s.entry?
  else if c = '?' ∧ (s.inFlow ∨ atBlank rest) then s.key?
  else if c = ':' ∧ (s.inFlow ∨ atBlank rest) then s.value?
  else if c = '*' then s.name? .alias
  else if c = '&' then s.name? .anchor
  else if c = '!' then s.tag?
  else if c = '|' ∧ !s.inFlow then s.block? false
  else if c = '>' ∧ !s.inFlow then s.block? true
  else if c = '\'' ∨ c = '"' then s.quoted? c
  else if s.beginsPlain c rest then s.plain?
  else none

/-- Takes all tokens. -/
def run? : Nat → Scanner → Option Scanner
  | 0, _ => none
  | fuel + 1, s => do
    let s ← (s.skipBetween (s.place.rest.length + 1)).dropStaleKeys?
    match s.place.rest with
    | [] => (s.closeBlocks (-1)).forgetKey?
    | c :: rest =>
      -- blocks that are indented deeper than this token end here
      let s := s.closeBlocks s.place.column
      run? fuel (← s.dispatch? c rest)

end Scanner

/-- Characters that YAML text is made of. -/
def isPrintable (c : Char) : Bool :=
  let n := c.val.toNat
  n == 0x09 || n == 0x0A || n == 0x0D || (0x20 ≤ n && n ≤ 0x7E) || n == 0x85 ||
    (0xA0 ≤ n && n ≤ 0xD7FF) || (0xE000 ≤ n && n ≤ 0xFFFD) || 0x10000 ≤ n

def Token.scan? (text : List Char) : Option (List Token) := do
  if !text.all isPrintable then none
  return (← Scanner.run? (text.length + 2) { place := ⟨text, 0, 0, 0⟩ }).tokens.reverse

end CodeAtlas.Yaml
