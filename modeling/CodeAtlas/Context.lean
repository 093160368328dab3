import CodeAtlas.Config
import CodeAtlas.Resolver

/-!
The state of one run: its configuration, what it knows about types and about classes. Preparing a
context for files forgets everything about the files before.
-/
namespace CodeAtlas

structure Context where
  config : Config := {}
  resolver : Resolver := {}
  relations : RelationIndex := {}

namespace Context

def reset (c : Context) : Context := { config := c.config }

/-- A context that knows the declarations of the given files and no others. -/
def prepare (c : Context) (files : List SourceFile) : Context :=
  { config := c.config
    resolver := { definitions := Resolver.definitionsOf files }
    relations := .ofFiles files }

end Context

end CodeAtlas
