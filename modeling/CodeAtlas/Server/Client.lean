import CodeAtlas.File.Disk
import CodeAtlas.File.Uri
import CodeAtlas.Server.Message

/-!
The client's side of a conversation with a language server. A `Client` holds what the server has
written and is not read yet, what it was sent, the last request id and the documents it has been
shown. A request waits for the response with its id; on the way requests of the server are answered,
and other messages are dropped. Every call gives back the client, also where the call fails. Calls
are made under a lock, and a call that breaks off is the last one (`Client.locked`).
-/
namespace CodeAtlas

/-- The client's side of a conversation. -/
structure Client where
  /-- What the server has written and is not read yet. -/
  input : List UInt8
  sent : List Json := []
  lastId : Nat := 0
  /-- The documents shown to the server. -/
  opened : List String := []
  /-- Whether a call broke off under the lock. -/
  broken : Bool := false

abbrev Talk := ExceptT ServerFault (StateM Client)

namespace Client

/-! ## Messages to the server -/

/-- A member that every message has. -/
def versionMember : String × Json := ("jsonrpc", .string "2.0")

def requestMessage (id : Nat) (method : String) (params : Json) : Json :=
  .object [("id", .ofNat id), versionMember, ("method", .string method), ("params", params)]

def notificationMessage (method : String) (params : Json) : Json :=
  .object [versionMember, ("method", .string method), ("params", params)]

/-- The response to a request of the server. -/
def replyMessage (id result : Json) : Json :=
  .object [("id", id), versionMember, ("result", result)]

/-- The request to shut down, which has no parameters. -/
def shutdownMessage (id : Nat) : Json :=
  .object [("id", .ofNat id), versionMember, ("method", .string "shutdown")]

/-- The parameters of the first request. -/
def initializeParams (processId : Nat) (rootUri : String) : Json :=
  .object [
    ("capabilities", .object [("textDocument", .object [
      ("documentSymbol", .object [("hierarchicalDocumentSymbolSupport", .bool true)]),
      ("hover", .object [("contentFormat", .ofTexts ["markdown", "plaintext"])])])]),
    ("initializationOptions", .object [("onlyAnalyzeProjectsWithOpenFiles", .bool false)]),
    ("processId", .ofNat processId),
    ("rootUri", .string rootUri)]

/-- The parameters that show a document to the server. -/
def openParams (uri : String) (text : List Char) : Json :=
  .object [("textDocument", .object [("languageId", .string "dart"),
    ("text", .string (String.ofList text)), ("uri", .string uri), ("version", .ofNat 1)])]

/-- The result for a request of the server: one null for each item of a configuration asked for,
and null for everything else. -/
def replyResult (method : String) (params : Json) : Json :=
  if method = "workspace/configuration" then
    .array ((((params.member? "items").bind Json.items?).getD []).map fun _ => .null)
  else .null

/-! ## Talking -/

/-- Sends a message. -/
def send (message : Json) : Talk Unit := modify fun c => { c with sent := c.sent ++ [message] }

/-- Sends a notification. -/
def notify (method : String) (params : Json) : Talk Unit := send (notificationMessage method params)

def nextId : Talk Nat := do
  modify fun c => { c with lastId := c.lastId + 1 }
  return (← get).lastId

/-- Reads a message. -/
def receive : Talk Message := do
  let (read, rest) := Frame.read (← get).input
  modify fun c => { c with input := rest }
  match Message.ofBody? (← liftExcept read) with
  | some message => return message
  | none => throw .notMessage
where
  /-- A result that may be a fault. -/
  liftExcept {α : Type} : Except ServerFault α → Talk α
    | .ok a => pure a
    | .error fault => throw fault

/-- Whether an id is the given number. -/
def isId (id : Json) (n : Nat) : Bool :=
  match id with
  | .number (.integer k) => k == n
  | _ => false

/-- What a response means for its request. -/
def outcome (method : String) (result error : Option Json) : Talk Json :=
  match error with
  | some error =>
    throw (.refused method (((error.member? "message").bind Json.text?).getD "unknown error"))
  | none => return result.getD .null

/-- Waits for the response to a request. At most `fuel` messages are read; the bytes of the input
are more than enough. -/
def await (id : Nat) (method : String) : Nat → Talk Json
  | 0 => throw .io
  | fuel + 1 => do
    match ← receive with
    | .response other result error =>
      -- a response to another request is dropped
      if isId other id then outcome method result error else await id method fuel
    | .request other m params => do
      send (replyMessage other (replyResult m params))
      await id method fuel
    | .notification _ _ => await id method fuel

/-- Sends a request and waits for its response. -/
def request (method : String) (params : Json) : Talk Json := do
  let id ← nextId
  send (requestMessage id method params)
  await id method ((← get).input.length + 1)

/-- Begins the conversation about the project in a folder. -/
def start (processId : Nat) (root : List Char) : Talk Unit :=
  match FileUri.ofFolder? root with
  | none => throw (.breach .rootNotAbsolute)
  | some uri => do
    let _ ← request "initialize" (initializeParams processId (String.ofList uri))
    notify "initialized" (.object [])

/-- Shows a document to the server, unless it has been shown. -/
def ensureOpen (disk : Disk) (uri : String) : Talk Unit := do
  if (← get).opened.contains uri then return
  match FileUri.toPath? uri.toList with
  | none => throw (.breach .notFilePath)
  | some path =>
    match disk.text? path with
    | none => throw .io
    | some text => do
      notify "textDocument/didOpen" (openParams uri text)
      modify fun c => { c with opened := uri :: c.opened }

/-- Reads messages up to the response with an id, or as long as they can be read. -/
def drain (id : Nat) : Nat → Talk Unit
  | 0 => return
  | fuel + 1 => do
    match ← receive with
    | .response other _ _ => if isId other id then return else drain id fuel
    | _ => drain id fuel

/-- Ends the conversation. Faults do not matter, unless reading breaks off. -/
def shutdown : Talk Unit := do
  let id ← nextId
  send (shutdownMessage id)
  tryCatch (drain id ((← get).input.length + 1)) fun fault =>
    if fault.breaksOff then throw fault else return
  notify "exit" (.object [])

/-- Makes a call under the lock. A call that breaks off leaves the lock poisoned, and then no other
call is made. -/
def locked {α : Type} (call : Talk α) : Talk α := do
  if (← get).broken then throw .poisoned
  tryCatch call fun fault => do
    if fault.breaksOff then modify fun c => { c with broken := true }
    throw fault

end Client

end CodeAtlas
