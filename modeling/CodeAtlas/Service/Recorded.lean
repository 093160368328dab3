import CodeAtlas.Json.Parser
import CodeAtlas.Service.Inquiry
import CodeAtlas.Symbol.Codec
import CodeAtlas.Text.Sorted

/-!
Language services made of recorded answers. A `Snapshot` knows the symbols of files and nothing
else; a `Recording` knows hover texts and references by place too, and may fail.
-/
namespace CodeAtlas

/-- Raw symbols recorded for files, the latest first. -/
structure Snapshot where
  files : List (String × List RawSymbol)

namespace Snapshot

/-- Reads one file of a snapshot. -/
def fileOfJson? (j : Json) : Option (String × List RawSymbol) := do
  let r ← j.record? ["fileId", "symbols"]
  return (← r.required "fileId" Json.text?,
    ← r.withDefault "symbols" [] (Json.list? RawSymbol.ofJson?))

/-- Reads a snapshot from its text. -/
def parse? (text : List Char) : Option Snapshot := do
  let files ← Json.list? fileOfJson? (← Json.outline? text)
  return ⟨files.reverse⟩

/-- The symbols recorded for a file, the last ones if there are several records. -/
def symbols (s : Snapshot) (fileId : String) : List RawSymbol := (s.files.lookup fileId).getD []

/-- The ids of the recorded files, sorted. -/
def fileIds (s : Snapshot) : List String := Text.sorted (s.files.map (·.1))

/-- The service that answers from a snapshot. -/
def service (s : Snapshot) : Service
  | .symbols fileId => some (s.symbols fileId)
  | .hover _ _ => some none
  | .references _ _ => some []

end Snapshot

/-- Something recorded for a place; without a character it is recorded for the whole line. -/
structure Recorded (α : Type) where
  fileId : String
  line : UInt32
  character : Option UInt32
  value : α

/-- The first record for a place. -/
def Recorded.find? {α : Type} (records : List (Recorded α)) (fileId : String) (p : Position) :
    Option α :=
  (records.find? fun r =>
    r.fileId == fileId && r.line == p.line && r.character.all (· == p.character)).map (·.value)

/-- Recorded answers of a language service, and the kinds of query on which it fails. -/
structure Recording where
  symbols : List (String × List RawSymbol) := []
  hovers : List (Recorded String) := []
  references : List (Recorded (List Location)) := []
  failing : List String := []

/-- The service that answers from a recording. -/
def Recording.service (r : Recording) : Service
  | .symbols fileId =>
    if r.failing.contains "symbols" then none else some ((r.symbols.lookup fileId).getD [])
  | .hover fileId p =>
    if r.failing.contains "hover" then none else some (Recorded.find? r.hovers fileId p)
  | .references fileId p =>
    if r.failing.contains "references" then none
    else some ((Recorded.find? r.references fileId p).getD [])

end CodeAtlas
