import CodeAtlas.Json.Parser
import CodeAtlas.Json.Record
import CodeAtlas.Server.Frame

/-!
Messages of a language server. An object with an id and a method is a request, one with an id alone
the response to a request, one with a method alone a notification.
-/
namespace CodeAtlas

inductive Message where
  | request (id : Json) (method : String) (params : Json)
  | response (id : Json) (result error : Option Json)
  | notification (method : String) (params : Json)

namespace Message

/-- Reads a value as it is. -/
def any? (j : Json) : Option Json := some j

/-- Reads a request. -/
def request? (j : Json) : Option Message := do
  let r ← j.record? ["id", "method", "params"]
  return .request (← r.required "id" any?) (← r.required "method" Json.text?)
    (← r.withDefault "params" .null any?)

/-- Reads a response. -/
def response? (j : Json) : Option Message := do
  let r ← j.record? ["id", "result", "error"]
  return .response (← r.required "id" any?) (← r.withDefault "result" none (Json.orNull? any?))
    (← r.withDefault "error" none (Json.orNull? any?))

/-- Reads a notification. -/
def notification? (j : Json) : Option Message := do
  let r ← j.record? ["method", "params"]
  return .notification (← r.required "method" Json.text?) (← r.withDefault "params" .null any?)

/-- A message with the values in it in canonical form. -/
def canonical? : Message → Option Message
  | request id method params => return .request (← id.canonical?) method (← params.canonical?)
  | response id result error =>
    return .response (← id.canonical?) (← result.mapM Json.canonical?)
      (← error.mapM Json.canonical?)
  | notification method params => return .notification method (← params.canonical?)

def ofJson? (j : Json) : Option Message :=
  match j with
  | .object _ => do
    let _ ← j.canonical?
    (← request? j <|> response? j <|> notification? j).canonical?
  | _ => none

/-- Reads a message from its text. -/
def parse? (text : List Char) : Option Message := (Json.outline? text).bind ofJson?

/-- Reads the message in the body of a frame. -/
def ofBody? (body : List UInt8) : Option Message := (Text.Utf8.decode? body).bind parse?

end Message

end CodeAtlas
