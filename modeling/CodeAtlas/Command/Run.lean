import CodeAtlas.Analysis
import CodeAtlas.Command.Arguments
import CodeAtlas.Config.File
import CodeAtlas.File.Sources
import CodeAtlas.Json.Printer
import CodeAtlas.Server.Session
import CodeAtlas.Service.Recorded
import CodeAtlas.Variables

/-!
The command. It finds the sources of a project, analyses them with recorded symbols or with a
language server, and writes the graph to a file. All that it sees of the world is a `Machine`, and
all that it does to it is in the `Outcome`.
-/
namespace CodeAtlas

/-- What a run of the command sees. -/
structure Machine where
  disk : Disk
  environment : Variables := []
  /-- What the language server writes. -/
  server : List UInt8 := []
  processId : Nat := 0
  /-- The time, as it is written in the name of a folder. -/
  time : String := ""

/-- How a run ends. -/
inductive Ending where
  | written
  | shown
  | wrongUsage
  | failed (reason : String)
  /-- The conversation with a language server broke off in its beginning or its end. -/
  | crashed
  /-- It broke off in both. -/
  | aborted
  deriving DecidableEq, Repr

/-- The exit code of an ending. -/
def Ending.code : Ending → Nat
  | written | shown => 0
  | failed _ => 1
  | wrongUsage => 2
  | crashed => 101
  | aborted => 134

/-- The ending of a run that could not talk to a language server. -/
def Ending.ofFault (fault : ServerFault) : Ending :=
  if fault = Session.cleanupPanic then .aborted
  else if fault.breaksOff then .crashed
  else .failed fault.message

/-- The line about an ending, if there is one; what the runtime says of a crash is left out. -/
def Ending.line? : Ending → Option String
  | failed reason => some ("Error: " ++ reason)
  | _ => none

/-- The outcome of a run: how it ends, the disk behind it, and what a language server was sent. -/
structure Outcome where
  ending : Ending
  disk : Disk
  sent : List Json := []

namespace Command

/-- What is to be analysed. -/
structure Task where
  root : List Char
  config : Config
  files : List GivenFile

/-- Finds what is to be analysed; nothing but reading happens. -/
def prepare (m : Machine) (a : Arguments) : Except String Task := do
  let root ← match m.disk.canonical? a.project.toList with
    | some root => pure root
    | none => throw ("project root " ++ a.project)
  let known := Variables.load m.disk m.environment
  let config ← (Config.load m.disk root known.get?).mapError Fault.message
  let paths ← (sourcePaths m.disk root config.filters.ignoreGlobs).mapError SourceFault.message
  let sources ← (loadSources m.disk paths).mapError SourceFault.message
  return ⟨root, config, sources.map fun (fileId, text) => { fileId, text }⟩

def Task.analysis (t : Task) (disk : Disk) : Inquiry (Except ConfigFault Analysis) :=
  analyze disk t.config (String.ofList t.root) t.files

/-- A recording of symbols, read from a file. -/
def loadSnapshot (disk : Disk) (path : List Char) : Except Fault Snapshot :=
  match disk.text? path with
  | none => .error .file
  | some text =>
    match Snapshot.parse? text with
    | none => .error .json
    | some s => .ok s

def outPath (m : Machine) (t : Task) (a : Arguments) : List Char :=
  match a.out with
  | some path => path.toList
  | none =>
    Path.join (Path.join (Path.join t.root "graphs_data".toList) m.time.toList)
      "graph.json".toList

def outText (a : Arguments) (x : Analysis) : String :=
  if a.compact then x.toJson.compact else x.toJson.pretty

/-- Writes an analysis. -/
def write (disk : Disk) (path : List Char) (text : String) : Ending × Disk :=
  let folder := (Path.parent? path).getD []
  match disk.makeFolders? folder with
  | none => (.failed ("creating " ++ String.ofList folder), disk)
  | some disk =>
    match disk.write? path (Text.Utf8.encode text.toList) with
    | none => (.failed ("writing " ++ String.ofList path), disk)
    | some disk => (.written, disk)

/-- Ends a run with an analysis, or with the reason why there is none. -/
def finish (m : Machine) (t : Task) (a : Arguments) (sent : List Json) :
    Except String Analysis → Outcome
  | .error reason => ⟨.failed reason, m.disk, sent⟩
  | .ok x =>
    let (ending, disk) := write m.disk (outPath m t a) (outText a x)
    ⟨ending, disk, sent⟩

/-- An analysis, or the wording of the fault. -/
def worded (x : Except ConfigFault Analysis) : Except String Analysis :=
  x.mapError fun f => (Fault.config f).message

/-- Analyses with recorded symbols. -/
def runRecorded (m : Machine) (t : Task) (a : Arguments) (path : String) : Outcome :=
  finish m t a [] do
    let s ← (loadSnapshot m.disk path.toList).mapError Fault.message
    worded ((t.analysis m.disk).answer s.service)

/-- Analyses with a language server. The conversation ends after the graph has been written. -/
def runLive (m : Machine) (t : Task) (a : Arguments) : Outcome :=
  let searchPath := ((Variables.load m.disk m.environment).get? "PATH").getD ""
  match Session.locate m.disk (a.dart.map String.toList) searchPath.toList with
  | .error fault => ⟨.ofFault fault, m.disk, []⟩
  | .ok program =>
    let body := do
      let x ← (t.analysis m.disk).runIn (Session.serve m.disk)
      return (x, ← Session.endsWell)
    match Session.converse m.disk program m.processId t.root m.server body with
    | (.error fault, sent) => ⟨.ofFault fault, m.disk, sent⟩
    | (.ok (x, well), sent) =>
      let outcome := finish m t a sent (worded x)
      if well then outcome else { outcome with ending := .crashed }

/-- Runs the command with the given arguments. -/
def run (m : Machine) (args : List String) : Outcome :=
  match Arguments.parse args with
  | .error .shown => ⟨.shown, m.disk, []⟩
  | .error .wrong => ⟨.wrongUsage, m.disk, []⟩
  | .ok a =>
    match prepare m a with
    | .error reason => ⟨.failed reason, m.disk, []⟩
    | .ok t =>
      match a.symbols with
      | some path => runRecorded m t a path
      | none => runLive m t a

end Command

end CodeAtlas
