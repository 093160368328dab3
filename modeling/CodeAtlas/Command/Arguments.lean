import CodeAtlas.Text.Cut

/-!
The arguments of the command: one project, and options that may each be given once. The value of an
option follows it or an equals sign; behind two dashes every argument is a value. Arguments are read
in order, and the first that asks for help or breaks the rules decides.
-/
namespace CodeAtlas

/-- What the arguments ask for. -/
structure Arguments where
  project : String
  out : Option String := none
  symbols : Option String := none
  dart : Option String := none
  /-- Whether to write on one line. -/
  compact : Bool := false
  deriving DecidableEq, Repr

/-- Why there is nothing to run. -/
inductive Usage where
  /-- Help or the version is asked for. -/
  | shown
  | wrong
  deriving DecidableEq, Repr

namespace Arguments

inductive Setting where
  | out
  | symbols
  | dart
  deriving DecidableEq, Repr

def Setting.ofName? (name : String) : Option Setting :=
  ([("out", out), ("symbols", symbols), ("dart", dart)] : List (String × Setting)).lookup name

structure Partial where
  project : Option String := none
  settings : List (Setting × String) := []
  compact : Bool := false

/-- Takes the project; an empty one and a second one are refused. -/
def Partial.withProject (a : Partial) (value : String) : Except Usage Partial :=
  if value = "" ∨ a.project.isSome then .error .wrong else .ok { a with project := value }

/-- Takes the value of an option; an empty one and a second one are refused. -/
def Partial.withSetting (a : Partial) (s : Setting) (value : String) : Except Usage Partial :=
  if value = "" ∨ (a.settings.lookup s).isSome then .error .wrong
  else .ok { a with settings := (s, value) :: a.settings }

/-- Takes the flag for one line; a second one is refused. -/
def Partial.withCompact (a : Partial) : Except Usage Partial :=
  if a.compact then .error .wrong else .ok { a with compact := true }

/-- The arguments, if the project is among them. -/
def Partial.finish (a : Partial) : Except Usage Arguments :=
  match a.project with
  | none => .error .wrong
  | some project => .ok {
      project
      out := a.settings.lookup .out
      symbols := a.settings.lookup .symbols
      dart := a.settings.lookup .dart
      compact := a.compact }

/-- How an argument is written. -/
inductive Form where
  | plain
  /-- Two dashes. -/
  | divider
  /-- One dash and letters. -/
  | short (letters : List Char)
  /-- Two dashes and a name, perhaps with a value behind an equals sign. -/
  | long (name : String) (value : Option String)

def Form.of (s : String) : Form :=
  match s.toList with
  | ['-', '-'] => .divider
  | '-' :: '-' :: rest =>
    match Text.splitFirst '=' rest with
    | some (name, value) => .long (String.ofList name) (String.ofList value)
    | none => .long (String.ofList rest) none
  | '-' :: c :: rest => .short (c :: rest)
  | _ => .plain

def readValues (a : Partial) : List String → Except Usage Partial
  | [] => .ok a
  | s :: rest => do readValues (← a.withProject s) rest

def read (a : Partial) : List String → Except Usage Partial
  | [] => .ok a
  | s :: rest =>
    match Form.of s with
    | .divider => readValues a rest
    | .plain => do read (← a.withProject s) rest
    | .short letters =>
      .error (if letters.head?.any fun c => c = 'h' || c = 'V' then .shown else .wrong)
    | .long name value =>
      match Setting.ofName? name, value with
      | some setting, some value => do read (← a.withSetting setting value) rest
      | some setting, none =>
        match rest with
        | [] => .error .wrong
        | next :: rest =>
          match Form.of next with
          | .plain => do read (← a.withSetting setting next) rest
          | _ => .error .wrong
      | none, some _ => .error .wrong
      | none, none =>
        if name = "compact" then do read (← a.withCompact) rest
        else .error (if name = "help" ∨ name = "version" then .shown else .wrong)

def parse (args : List String) : Except Usage Arguments := do
  (← read {} args).finish

end Arguments

end CodeAtlas
