import CodeAtlas.Json.Printer
import CodeAtlas.Server.Fault
import CodeAtlas.Text.Cut
import CodeAtlas.Text.Number
import CodeAtlas.Text.Utf8

/-!
Frames: messages one after another in a stream of bytes. A frame is a header of lines, an empty
line and a body; the header tells the length of the body. `Frame.read` takes one frame from a
stream and says what is left of it, also where the frame is faulty. Memory for a body is taken to be
granted as long as it can be asked for; reading breaks off where a header tells more than that.
-/
namespace CodeAtlas.Frame

/-! ## Writing -/

/-- The bytes of an ASCII text. -/
def ascii (s : String) : List UInt8 := s.toList.map fun c => .ofNat c.val.toNat

def ofBody (body : List UInt8) : List UInt8 :=
  ascii ("Content-Length: " ++ toString body.length ++ "\r\n\r\n") ++ body

/-- The frame of a value, whose text is the body. -/
def ofJson (j : Json) : List UInt8 := ofBody (Text.Utf8.encode j.compact.toList)

/-! ## Reading -/

/-- Bytes that a header may have. -/
def maxHeader : Nat := 8192

/-- The end of a header, backwards. -/
def headerEnd : List UInt8 := [10, 13, 10, 13]

/-- Reads a header with its end. `done` holds the bytes read so far, latest first, and `room` says
how many more there may be. -/
def readHeader (done : List UInt8) : Nat → List UInt8 → Except ServerFault (List UInt8) × List UInt8
  | _, [] => (.error .io, [])
  | 0, _ :: rest => (.error (.breach .headerTooLarge), rest)
  | room + 1, b :: rest =>
    let done := b :: done
    if headerEnd.isPrefixOf done then (.ok done.reverse, rest) else readHeader done room rest

/-- The lines of a header, without the carriage returns and newlines between them. -/
def headerLines : List Char → List (List Char)
  | [] => [[]]
  | '\r' :: '\n' :: rest => [] :: headerLines rest
  | c :: rest =>
    match headerLines rest with
    | [] => [[c]]
    | line :: lines => (c :: line) :: lines

/-- The value of the first line of a header that tells the length of the body. -/
def lengthValue? (header : List Char) : Option (List Char) :=
  (((headerLines header).filterMap (Text.splitFirst ':')).find? fun line =>
    Text.lower (Text.trim line.1) == "content-length".toList).map (·.2)

/-- The length that a header tells; a body is not empty. -/
def length? (header : List Char) : Option Nat := do
  let n ← Text.number? (Text.trim (← lengthValue? header))
  if n = 0 then none else return n

/-- Bytes of memory that can be asked for at once. -/
def maxBody : Nat := 0x7FFFFFFFFFFFFFFF

/-- What breaks off the reading of a body for which memory cannot be asked for. -/
def overflow : ServerFault := .abandoned "capacity overflow"

/-- Reads a body of the length that a header tells. Its memory is asked for before it is read. -/
def readBody (header rest : List UInt8) : Except ServerFault (List UInt8) × List UInt8 :=
  match Text.Utf8.decode? header with
  | none => (.error .notUtf8, rest)
  | some header =>
    match length? header with
    | none => (.error (.breach .missingLength), rest)
    | some n =>
      if maxBody < n then (.error overflow, rest)
      else if n ≤ rest.length then (.ok (rest.take n), rest.drop n)
      else (.error .io, [])

/-- Reads the body of one frame; the rest of the stream is given back with it. -/
def read (stream : List UInt8) : Except ServerFault (List UInt8) × List UInt8 :=
  match readHeader [] maxHeader stream with
  | (.error fault, rest) => (.error fault, rest)
  | (.ok header, rest) => readBody header rest

end CodeAtlas.Frame
