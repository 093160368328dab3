import CodeAtlas.Service.Inquiry
import CodeAtlas.Symbol.Codec
import CodeAtlas.Text.Cut

/-!
What a language server's results say: the symbols of a document, the text shown for a place, the
places that refer to a symbol. Parts that make no sense are skipped.
-/
namespace CodeAtlas.Payload

/-- Reads a place with the name of its file under `uri`. -/
def location? (j : Json) : Option Location := do
  let r ← j.record? ["uri", "range"]
  return ⟨← r.required "uri" Json.text?, ← r.required "range" Range.ofJson?⟩

/-- Reads a symbol that is described by its place. -/
def placedSymbol? (j : Json) : Option RawSymbol := do
  let r ← j.record? ["name", "kind", "location"]
  let location ← r.required "location" location?
  return {
    name := ← r.required "name" Json.text?
    kind := ← r.required "kind" Json.uint32?
    range := some location.range }

/-- Reads one symbol of a document, by its place or by its nested symbols. -/
def symbol? (j : Json) : Option RawSymbol :=
  if (j.member? "location").isSome then placedSymbol? j else RawSymbol.ofJson? j

def symbols (result : Json) : List RawSymbol := (result.items?.getD []).filterMap symbol?

/-- The text of a piece of a hover text. -/
def piece? : Json → Option String
  | .string s => some s
  | j => (j.member? "value").bind Json.text?

/-- The pieces of the contents of a hover text, each on lines of its own. -/
def contents? : Json → Option (List Char)
  | .array items => some (Text.joinWith ['\n'] ((items.filterMap piece?).map String.toList))
  | j => (piece? j).map String.toList

/-- The hover text, if it is not blank. -/
def hover? (result : Json) : Option String := do
  let text := Text.trim (← contents? (← result.member? "contents"))
  if text.isEmpty then none else return String.ofList text

/-- The places that refer to a symbol. -/
def locations (result : Json) : List Location := (result.items?.getD []).filterMap location?

end CodeAtlas.Payload
