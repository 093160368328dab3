/-!
What can go wrong in talking to a language server.
-/
namespace CodeAtlas

/-- A breach of the rules of the conversation. -/
inductive Breach where
  | headerTooLarge
  | missingLength
  | rootNotAbsolute
  | notFilePath
  deriving DecidableEq, Repr

def Breach.message : Breach → String
  | headerTooLarge => "header too large"
  | missingLength => "missing content length"
  | rootNotAbsolute => "project root is not absolute"
  | notFilePath => "document uri is not a file path"

/-- What went wrong in talking to a language server. -/
inductive ServerFault where
  /-- Nothing more to read, or a file that cannot be read. -/
  | io
  /-- A header that is not UTF-8. -/
  | notUtf8
  /-- A body that is no message. -/
  | notMessage
  | breach (b : Breach)
  /-- The server could not be started. -/
  | spawn (reason : String)
  /-- The server answered a request with an error. -/
  | refused (method message : String)
  /-- The call broke off in the middle, with a panic that says why. The number that the runtime puts
  in front of the reason is left out. -/
  | abandoned (reason : String)
  /-- An earlier call broke off. -/
  | poisoned
  deriving DecidableEq, Repr

def ServerFault.message : ServerFault → String
  | io => "io error"
  | notUtf8 => "utf8 error"
  | notMessage => "serde json error"
  | breach b => "lsp protocol error: " ++ b.message
  | spawn reason => "process spawn error: " ++ reason
  | refused method message => "server error for " ++ method ++ ": " ++ message
  | poisoned => "language server lock poisoned"
  | abandoned reason => "blocking task failed: " ++ reason

/-- Whether a call broke off in the middle. -/
def ServerFault.breaksOff : ServerFault → Bool
  | abandoned _ => true
  | _ => false

end CodeAtlas
