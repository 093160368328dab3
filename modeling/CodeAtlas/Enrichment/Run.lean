import CodeAtlas.Enrichment.Steps

/-!
Filling in whole files. Each symbol takes the steps that need no service, then asks for a hover
text if its type is still missing, then looks at the lines above it; the symbols nested in it
follow. A symbol without a place for its name is left as it is, with everything nested in it.
-/
namespace CodeAtlas.Enrichment

/-- The steps before the hover text: name and class, declaration, the question to ask. -/
def lead (scope : Scope) (s : Symbol) : StateM Resolver (Option HoverRequest × Symbol) := do
  let s ← if basicApplies s then basic scope s else pure s
  let s ← if declaredApplies s then declared s else pure s
  return planHover scope.config s

/-- The steps after the hover text: the text itself, then the lines above. -/
def finish (scope : Scope) (contents : Option String) (s : Symbol) : StateM Resolver Symbol := do
  let s ← match contents with
    | some contents => applyHover contents s
    | none => pure s
  if nearbyApplies scope s then nearby scope s else return s

/-- Asks a question, if there is one. -/
def fetch : Option HoverRequest → Inquiry (Option String)
  | none => return none
  | some request => fetchHover request

/-- Fills in one symbol. -/
def enrichSymbol (scope : Scope) (s : Symbol) : StateT Resolver Inquiry Symbol := fun r => do
  let ((request, s), r) := lead scope s r
  let contents ← fetch request
  return finish scope contents s r

theorem enrichSymbol_run (scope : Scope) (s : Symbol) (r : Resolver) :
    enrichSymbol scope s r = fetch (lead scope s r).1.1 >>= fun contents =>
      pure (finish scope contents (lead scope s r).1.2 (lead scope s r).2) := rfl

mutual

/-- Fills in a symbol and the symbols nested in it. -/
def enrichTree (scope : Scope) : SymbolTree → StateT Resolver Inquiry SymbolTree
  | ⟨s, children⟩ =>
    if s.selection.isNone then return ⟨s, children⟩
    else do
      let s ← enrichSymbol scope s
      let children ← enrichTrees scope children
      return ⟨s, children⟩

/-- Fills in symbols one after another. -/
def enrichTrees (scope : Scope) : List SymbolTree → StateT Resolver Inquiry (List SymbolTree)
  | [] => return []
  | t :: rest => do
    let t ← enrichTree scope t
    let rest ← enrichTrees scope rest
    return t :: rest

end

/-- Fills in the symbols of a file. -/
def enrichFile (config : Config) (relations : RelationIndex) (f : SourceFile) :
    StateT Resolver Inquiry SourceFile := do
  return { f with symbols := ← enrichTrees ⟨config, relations, f.text⟩ f.symbols }

/-- Fills in the symbols of files. -/
def enrichFiles (c : Context) (files : List SourceFile) : StateT Resolver Inquiry (List SourceFile) :=
  files.mapM (enrichFile c.config c.relations)

end CodeAtlas.Enrichment
