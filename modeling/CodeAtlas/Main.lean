import CodeAtlas.Command.Run
import CodeAtlas.File.Archive
import CodeAtlas.Json.Parser

/-!
The command as a filter. Standard input holds a machine as one JSON text: the files of its disk, the
working folder, the environment, what a language server writes, the time. The arguments are those of
the command. The files of the disk behind the run are written to standard output as JSON, the reason
of a failure to standard error.
-/
namespace CodeAtlas

def Variables.ofJson? : Json → Option Variables
  | .object members => members.mapM fun (name, value) => do return (name, ← value.text?)
  | _ => none

/-- Reads a machine; what is left out is empty. -/
def Machine.ofJson? (j : Json) : Option Machine := do
  let text := fun (key : String) => ((j.member? key).bind Json.text?).getD ""
  let here := text "here"
  let disk ← match j.member? "files" with
    | some files => Archive.addTo? ['/'] {} files
    | none => some {}
  let disk ← disk.makeFolders? here.toList
  return {
    disk := { disk with here := Archive.names here }
    environment := ← match j.member? "environment" with
      | some v => Variables.ofJson? v
      | none => some []
    server := Text.Utf8.encode (text "server").toList
    time := text "time" }

end CodeAtlas

open CodeAtlas in
/-- Reads the machine, runs the command, writes the outcome. -/
def main (args : List String) : IO UInt32 := do
  let text ← (← IO.getStdin).readToEnd
  match (Json.parse? text.toList).bind Machine.ofJson? with
  | none =>
    (← IO.getStderr).putStrLn "Error: the machine on standard input is not understood"
    return 1
  | some m =>
    let outcome := Command.run m args
    if let some line := outcome.ending.line? then (← IO.getStderr).putStrLn line
    (← IO.getStdout).putStrLn (Archive.toJson outcome.disk).compact
    return .ofNat outcome.ending.code
