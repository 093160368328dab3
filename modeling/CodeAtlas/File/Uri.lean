import CodeAtlas.File.Path
import CodeAtlas.Text.Number
import CodeAtlas.Text.Utf8

/-!
URIs of files. A path is written with its components percent-encoded behind `file://`. A URI is
read by the common rules: blanks around it and tabs and newlines in it count for nothing,
backslashes are slashes, dot segments are resolved, the query and the fragment are dropped and
percent-encoded bytes are decoded. It names a file when it has no host, or the local one.
-/
namespace CodeAtlas.FileUri

/-! ## Writing -/

/-- Whether a byte stands for itself in a path segment. -/
def isPlain (b : UInt8) : Bool :=
  let n := b.toNat
  0x21 ≤ n && n ≤ 0x7E && !("\"#%/<>?\\`\x7b\x7d".toList.map (·.val.toNat)).contains n

/-- A byte as it is written in a path segment. -/
def encodeByte (b : UInt8) : List Char :=
  if isPlain b then [Char.ofNat b.toNat]
  else ['%', (Nat.digitChar (b.toNat / 16)).toUpper, (Nat.digitChar (b.toNat % 16)).toUpper]

def encodeSegment (s : List Char) : List Char := (Text.Utf8.encode s).flatMap encodeByte

/-- The URI of an absolute path. -/
def ofPath? (path : List Char) : Option (List Char) :=
  if Path.isAbsolute path then
    let segments := (Path.components path).drop 1
    some ("file://".toList ++
      (if segments.isEmpty then ['/'] else segments.flatMap fun s => '/' :: encodeSegment s))
  else none

/-- The URI of an absolute path to a folder: it ends with a slash. -/
def ofFolder? (path : List Char) : Option (List Char) :=
  (ofPath? path).map fun uri => if uri.getLast? = some '/' then uri else uri ++ ['/']

/-! ## Reading -/

/-- The value of a byte that is a digit of base sixteen. -/
def hexValue? (b : UInt8) : Option Nat := Text.hexValue? (Char.ofNat b.toNat)

/-- Percent-encoded bytes decoded; a percent sign without two digits stands for itself. -/
def decodeBytes : List UInt8 → List UInt8
  | 0x25 :: a :: b :: rest =>
    match hexValue? a, hexValue? b with
    | some x, some y => UInt8.ofNat (x * 16 + y) :: decodeBytes rest
    | _, _ => 0x25 :: decodeBytes (a :: b :: rest)
  | b :: rest => b :: decodeBytes rest
  | [] => []

/-- Whether a character is a control or a space. -/
def isControlOrSpace (c : Char) : Bool := c.val.toNat ≤ 0x20

/-- The characters of a URI that count. -/
def significant (uri : List Char) : List Char :=
  let inner := ((uri.dropWhile isControlOrSpace).reverse.dropWhile isControlOrSpace).reverse
  inner.filter fun c => c != '\t' && c != '\n' && c != '\r'

/-- Whether a character may stand in a scheme, behind its first letter. -/
def isSchemeChar (c : Char) : Bool :=
  Text.isLetter c || Text.isAsciiDigit c || c = '+' || c = '-' || c = '.'

/-- The scheme in lower case and what follows its colon. -/
def scheme? (uri : List Char) : Option (List Char × List Char) :=
  match Text.splitFirst ':' uri with
  | none => none
  | some (name, rest) =>
    if name.head?.any Text.isLetter && name.all isSchemeChar then some (Text.lower name, rest)
    else none

/-- A letter and a colon or bar. -/
def isDrive : List Char → Bool
  | [c, d] => Text.isLetter c && (d = ':' || d = '|')
  | _ => false

/-- A segment with its encoded points written plainly. -/
def plainPoints : List Char → List Char
  | '%' :: '2' :: 'e' :: rest => '.' :: plainPoints rest
  | '%' :: '2' :: 'E' :: rest => '.' :: plainPoints rest
  | c :: rest => c :: plainPoints rest
  | [] => []

/-- Segments, latest first, with the last one taken away; a drive stays. -/
def dropSegment : List (List Char) → List (List Char)
  | [] => []
  | s :: rest => if isDrive s then s :: rest else rest

/-- Resolves the dot segments of a path. `done` holds the segments before, latest first. A drive
that a path begins with is written with a colon, if `drives` says that there may be one. -/
def resolve (drives : Bool) (done : List (List Char)) : List (List Char) → List (List Char)
  | [] => done.reverse
  | s :: rest =>
    let points := plainPoints s
    if points = ['.', '.'] then
      let done := dropSegment done
      resolve drives (if rest.isEmpty then [] :: done else done) rest
    else if points = ['.'] then resolve drives (if rest.isEmpty then [] :: done else done) rest
    else if drives && done.isEmpty && isDrive s then resolve drives [[s.headD ' ', ':']] rest
    else resolve drives (s :: done) rest

/-- The segments of a path behind its first slash. -/
def segments (drives : Bool) (path : List Char) : List (List Char) :=
  resolve drives [] (Text.splitOn '/' path)

/-- Segments without the empty ones that they begin with. -/
def dropEmpty (found : List (List Char)) : List (List Char) :=
  match found.dropWhile List.isEmpty with
  | [] => [[]]
  | rest => rest

/-- The path with the given segments. A path that ends with a drive ends with a slash. -/
def pathOf (segments : List (List Char)) : List Char :=
  let path := Text.Utf8.decodeLossy
    (segments.flatMap fun s => 0x2F :: decodeBytes (Text.Utf8.encode s))
  if 2 < path.length && isDrive (path.drop (path.length - 2)) then path ++ ['/'] else path

/-- The name of a host: percent-encoded bytes decoded, in lower case. -/
def hostName (host : List Char) : List Char :=
  Text.lower (Text.Utf8.decodeLossy (decodeBytes (Text.Utf8.encode host)))

/-- Whether a character may stand in the name of a host. -/
def isHostChar (c : Char) : Bool :=
  !isControlOrSpace c && c.val.toNat != 0x7F && c != Text.Utf8.replacement &&
    !"#%/:<>?@[\\]^|".toList.contains c

def localHost : List Char := "localhost".toList

/-- The text without its first slash. -/
def dropSlash : List Char → List Char
  | '/' :: rest => rest
  | rest => rest

/-- The path of a URI of the scheme `file`, from what follows the colon. A host is left out if the
path begins with a drive. -/
def filePath? (rest : List Char) : Option (List Char) :=
  match rest with
  | '/' :: '/' :: rest =>
    let host := Text.beforeFirst '/' rest
    if isDrive host then some (pathOf (dropEmpty (segments true rest)))
    else
      let found := segments true (dropSlash (rest.drop host.length))
      let onDrive := found.head?.any isDrive && (hostName host).all isHostChar
      if host.isEmpty || hostName host = localHost || onDrive then some (pathOf (dropEmpty found))
      else none
  | rest => some (pathOf (dropEmpty (segments true (dropSlash rest))))

/-- Whether a text is the number of a port, or none. -/
def isPort (s : List Char) : Bool := s.all Text.isAsciiDigit && Text.ofDigits s < 65536

/-- Splits what stands before the path of a URI into the user, the host and the port. -/
def authority (s : List Char) : Option (List Char) × List Char × Option (List Char) :=
  let (user, place) := match Text.splitLast '@' s with
    | some (user, place) => (some user, place)
    | none => (none, s)
  match Text.splitFirst ':' place with
  | some (host, port) => (user, host, some port)
  | none => (user, place, none)

/-- The path of a URI whose scheme has hosts: the host must be the local one. -/
def hostPath? (rest : List Char) : Option (List Char) :=
  let rest := rest.dropWhile (· == '/')
  let place := Text.beforeFirst '/' rest
  let (_, host, port) := authority place
  if hostName host = localHost && port.all isPort then
    some (pathOf (segments false (dropSlash (rest.drop place.length))))
  else none

/-- The path of a URI of any other scheme: it must begin with a slash. Behind two slashes stands a
host, which must be the local one or missing. -/
def otherPath? (rest : List Char) : Option (List Char) :=
  match rest with
  | '/' :: '/' :: rest =>
    let place := Text.beforeFirst '/' rest
    let isLocal := match authority place with
      | (_, host, port) => place.isEmpty || (host = localHost && port.all isPort)
    match rest.drop place.length with
    | '/' :: path => if isLocal then some (pathOf (segments false path)) else none
    | _ => none
  | '/' :: rest => some (pathOf (segments false rest))
  | _ => none

/-- Schemes whose URIs have a host and know backslashes. -/
def hostSchemes : List String := ["http", "https", "ws", "wss", "ftp"]

/-- The path that a URI names. -/
def toPath? (uri : List Char) : Option (List Char) := do
  let (scheme, rest) ← scheme? (significant uri)
  let rest := rest.takeWhile fun c => c != '?' && c != '#'
  if scheme = "file".toList then filePath? (Path.withSlashes rest)
  else if hostSchemes.contains (String.ofList scheme) then hostPath? (Path.withSlashes rest)
  else otherPath? rest

end CodeAtlas.FileUri
