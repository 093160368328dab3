import CodeAtlas.Enrichment.Steps

/-!
Constructor parameters that set fields take the types of the fields. This is done class by class
when all symbols are filled in; on the way constructors are put under their classes, and the links
from symbols to the symbols that enclose them are counted where they lead nowhere.
-/
namespace CodeAtlas.Enrichment

/-- What the pass has done. -/
structure FieldTypeCounts where
  resolved : Nat := 0
  unresolved : Nat := 0
  brokenParentLinks : Nat := 0
  deriving DecidableEq, Repr

/-- The first field or property with a given name. -/
def fieldNamed? (members : List SymbolTree) (name : String) : Option Symbol :=
  (members.map SymbolTree.symbol).find? fun s => s.kind.isFieldLike && s.name == name

/-- A parameter that stands for the type of a field, after a look at the field. -/
def closeField (members : List SymbolTree) (name : String) (p : Parameter) :
    StateM FieldTypeCounts Parameter := do
  match (fieldNamed? members name).bind fun f => f.resolvedType.map (·, f.resolvedTypeRef) with
  | some (type, reference) =>
    modify fun n => { n with resolved := n.resolved + 1 }
    return { p with type, typeRef := some (reference.getD (.unresolved type)) }
  | none =>
    modify fun n => { n with unresolved := n.unresolved + 1 }
    return { p with typeRef := some (.unresolved p.type) }

/-- A parameter, closed if it stands for the type of a field. -/
def closeParameter (members : List SymbolTree) (p : Parameter) : StateM FieldTypeCounts Parameter :=
  match selfFieldOf? p with
  | none => return p
  | some name => closeField members name p

/-- A member of a class: constructors with parameters are linked to the class and closed. -/
def closeMember (classId : String) (members : List SymbolTree) (m : SymbolTree) :
    StateM FieldTypeCounts SymbolTree :=
  match m.symbol.parameters with
  | none => return m
  | some parameters =>
    if m.symbol.kind ≠ .constructor ∨ parameters.isEmpty then return m
    else do
      let parameters ← parameters.mapM (closeParameter members)
      let parentId := m.symbol.parentId <|> some classId
      return { m with symbol := { m.symbol with parentId, parameters := some parameters } }

/-- The members of a symbol, closed if it is a class. -/
def closeMembers (s : Symbol) (members : List SymbolTree) :
    StateM FieldTypeCounts (List SymbolTree) :=
  if s.kind = .classDecl then members.mapM (closeMember s.uniqueId members) else return members

mutual

/-- Closes the classes in a tree. -/
def closeTree : SymbolTree → StateM FieldTypeCounts SymbolTree
  | ⟨s, children⟩ => do
    let children ← closeTrees children
    return ⟨s, ← closeMembers s children⟩

/-- Closes the classes in trees. -/
def closeTrees : List SymbolTree → StateM FieldTypeCounts (List SymbolTree)
  | [] => return []
  | t :: rest => do
    let t ← closeTree t
    return t :: (← closeTrees rest)

end

/-- The links to symbols that do not come before, the symbol itself included. -/
def brokenLinks (seen : List String) : List Symbol → Nat
  | [] => 0
  | s :: rest =>
    let seen := s.uniqueId :: seen
    (if s.parentId.all seen.contains then 0 else 1) + brokenLinks seen rest

/-- Closes the classes in a file and counts its broken links. -/
def closeFile (f : SourceFile) : StateM FieldTypeCounts SourceFile := do
  let f := { f with symbols := ← closeTrees f.symbols }
  modify fun n => { n with brokenParentLinks := n.brokenParentLinks + brokenLinks [] f.preorder }
  return f

/-- Closes the classes in files. -/
def closeFiles (files : List SourceFile) : List SourceFile × FieldTypeCounts :=
  (files.mapM closeFile).run {}

end CodeAtlas.Enrichment
