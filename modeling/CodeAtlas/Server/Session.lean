import CodeAtlas.Server.Client
import CodeAtlas.Server.Payload

/-!
A language service that a language server answers. The server's program is looked up, the
conversation is begun, and each query becomes a request about a document that the server has been
shown. Nothing stands between the program and a conversation that breaks off in its beginning or its
end, so `Session.converse` tells of it.
-/
namespace CodeAtlas.Session

/-! ## The server's program -/

def programName : String := "dart"

/-- The program: the given file, or the first one on the search path that can be run. -/
def locate (disk : Disk) (given : Option (List Char)) (searchPath : List Char) :
    Except ServerFault (List Char) :=
  match given with
  | some path =>
    if disk.isFile path then .ok path
    else .error (.spawn (String.ofList path ++ " is not a file"))
  | none =>
    let candidates := (Text.splitOn ':' searchPath).map (Path.join · programName.toList)
    match candidates.find? disk.isProgram with
    | some path => .ok path
    | none =>
      .error (.spawn (programName ++ " not found on PATH: cannot find binary path"))

/-- Why what stands at a path is not run. -/
def startReason (disk : Disk) (program : List Char) : String :=
  if disk.exists? program then "Permission denied (os error 13)"
  else if disk.crossesFile program then "Not a directory (os error 20)"
  else "No such file or directory (os error 2)"

/-- Why a program cannot be started, if it cannot. -/
def startFault? (disk : Disk) (program : List Char) : Option ServerFault :=
  if disk.isProgram program then none
  else some (.spawn (String.ofList program ++ ": " ++ startReason disk program))

/-! ## Queries -/

/-- The parameters that name a document. -/
def documentMember (fileId : String) : String × Json :=
  ("textDocument", .object [("uri", .string fileId)])

/-- The parameters that name a place in a document. -/
def placeMembers (fileId : String) (p : Position) : List (String × Json) :=
  [("position", p.toJson), documentMember fileId]

/-- The document that a query is about. -/
def documentOf : Query → String
  | .symbols fileId | .hover fileId _ | .references fileId _ => fileId

/-- The method of the request for a query. -/
def methodOf : Query → String
  | .symbols _ => "textDocument/documentSymbol"
  | .hover _ _ => "textDocument/hover"
  | .references _ _ => "textDocument/references"

/-- The parameters of the request for a query. -/
def paramsOf : Query → Json
  | .symbols fileId => .object [documentMember fileId]
  | .hover fileId p => .object (placeMembers fileId p)
  | .references fileId p =>
    .object (("context", .object [("includeDeclaration", .bool false)]) :: placeMembers fileId p)

/-- What a result says in answer to a query. -/
def decode : (q : Query) → Json → q.Answer
  | .symbols _, result => Payload.symbols result
  | .hover _ _, result => Payload.hover? result
  | .references _ _, result => Payload.locations result

/-- Shows the document of a query and makes the request. -/
def exchange (disk : Disk) (q : Query) : Talk q.Answer := do
  Client.ensureOpen disk (documentOf q)
  return decode q (← Client.request (methodOf q) (paramsOf q))

/-- Asks a query. -/
def ask (disk : Disk) (q : Query) : Talk q.Answer := Client.locked (exchange disk q)

/-- The service: a fault is an answer that is missing. -/
def serve (disk : Disk) (q : Query) : StateM Client (Option q.Answer) := do
  match ← ask disk q with
  | .ok a => return some a
  | .error _ => return none

/-! ## Whole conversations -/

/-- The messages sent once the conversation has been ended. -/
def sentAfter (c : Client) : List Json := ((Client.shutdown).run.run c).2.sent

/-- Whether ending the conversation now does not break off. -/
def endsWell : StateM Client Bool := do
  match ((Client.shutdown).run.run (← get)).1 with
  | .ok () => return true
  | .error _ => return false

/-- What breaks off the end of a conversation that has broken off in its beginning. -/
def cleanupPanic : ServerFault := .abandoned "panic in a destructor during cleanup"

/-- Why there was no conversation, if it could not be begun for a fault and was ended then. -/
def startError (fault : ServerFault) (c : Client) : ServerFault :=
  match ((Client.shutdown).run.run c).1 with
  | .ok () => fault
  | .error later => if fault.breaksOff then cleanupPanic else later

/-- A conversation with a program from begin to end: what the body gives, or why there was no
conversation, and the messages sent. -/
def converse {α : Type} (disk : Disk) (program : List Char) (processId : Nat) (root : List Char)
    (input : List UInt8) (body : StateM Client α) : Except ServerFault α × List Json :=
  match startFault? disk program with
  | some fault => (.error fault, [])
  | none =>
    match (Client.start processId root).run.run { input } with
    | (.error fault, c) => (.error (startError fault c), sentAfter c)
    | (.ok (), c) =>
      let (a, c) := body.run c
      (.ok a, sentAfter c)

end CodeAtlas.Session
