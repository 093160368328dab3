import CodeAtlas.Config

/-!
What can go wrong in an analysis and around it, with the wording. What a reader of files, JSON or
YAML has to say about a fault is not part of it.
-/
namespace CodeAtlas

/-- What can go wrong. -/
inductive Fault where
  /-- A file cannot be read or written. -/
  | file
  /-- A text is not the JSON that is expected. -/
  | json
  /-- A text is not the YAML that is expected. -/
  | yaml
  | config (f : ConfigFault)
  | service (reason : String)
  /-- No manifest is found above a path, or there is no list of packages at a path. -/
  | noManifest (path : String)
  /-- There is no package at a path. -/
  | noPackage (path : String)
  deriving DecidableEq, Repr

def Fault.message : Fault → String
  | file => "io error"
  | json => "serde json error"
  | yaml => "yaml error"
  | config f => "invalid config: " ++ f.message
  | service reason => "language service error: " ++ reason
  | noManifest path => "no pubspec.yaml found above " ++ path
  | noPackage path => "package path does not exist: " ++ path

end CodeAtlas
