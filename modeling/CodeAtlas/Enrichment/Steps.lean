import CodeAtlas.Context
import CodeAtlas.Declaration.Hover
import CodeAtlas.Declaration.Nearby
import CodeAtlas.Declaration.Parameters
import CodeAtlas.Declaration.Signature
import CodeAtlas.Service.Inquiry

/-!
The steps that fill in a symbol: what its name and class tell (`basic`), what its declaration says
(`declared`), what a hover text says (`planHover`, `applyHover`) and what the lines above it say
(`nearby`). A step only fills gaps; types are resolved as they are found.
-/
namespace CodeAtlas.Enrichment

/-- What a step may look at besides the symbol. -/
structure Scope where
  config : Config
  relations : RelationIndex
  /-- The text of the symbol's file. -/
  text : String

/-- Whether the type of a field, the return type of a callable or the parameters of a constructor
are missing. -/
def needsType (s : Symbol) : Bool :=
  match s.kind with
  | .field | .property => s.resolvedType.isNone
  | .method | .function => s.returnType.isNone
  | .constructor => s.lacksParameters
  | _ => false

/-- Records the type of a field. -/
def setType (s : Symbol) (type : List Char) : StateM Resolver Symbol := do
  let type := String.ofList type
  return { s with resolvedType := some type, resolvedTypeRef := some (← Resolver.resolve type) }

/-- Records a return type. -/
def setReturnType (s : Symbol) (type : List Char) : StateM Resolver Symbol := do
  let type := String.ofList type
  return { s with returnType := some type, returnTypeRef := some (← Resolver.resolve type) }

/-! ## Name and class -/

/-- Whether `basic` has something to do. -/
def basicApplies (s : Symbol) : Bool :=
  s.access.isNone || (s.kind == .classDecl && s.relations.isNone)

/-- A related type, with its declaration if that is known. -/
def resolveTarget (t : RelationTarget) : StateM Resolver RelationTarget := do
  let reference ← Resolver.resolve t.label
  return if reference.definition.isSome then .resolved reference else t

/-- Related types with their declarations. -/
def resolveRelations (r : Relations) : StateM Resolver Relations := do
  return {
    superclass := ← r.superclass.mapM resolveTarget
    implements := ← r.implements.mapM resolveTarget
    mixins := ← r.mixins.mapM resolveTarget }

/-- Records the origin of a symbol, who may use it and, for a class, its relations. -/
def basic (scope : Scope) (s : Symbol) : StateM Resolver Symbol := do
  -- the origin is set anew each time; only relations are kept
  let s := { s with isSdk := isSdkFile s.fileId, access := some (.ofName s.name) }
  if s.kind ≠ .classDecl ∨ s.relations.isSome then return s
  match scope.relations.find? s.fileId s.name with
  | none => return s
  | some r => return { s with relations := some (← resolveRelations r) }

/-! ## Declaration -/

/-- The field whose type a parameter stands for, if it stands for one. -/
def selfFieldOf? (p : Parameter) : Option String :=
  (Text.dropStart? selfFieldMark.toList p.type.toList).map String.ofList

/-- A parameter with a reference to its type. One that stands for the type of a field refers to
itself until the field's type is known. -/
def resolveParameter (p : Parameter) : StateM Resolver Parameter := do
  if p.typeRef.isSome then return p
  if (selfFieldOf? p).isSome then return { p with typeRef := some (.unresolved p.type) }
  return { p with typeRef := some (← Resolver.resolve p.type) }

/-- Named parameters that set the given fields. -/
def fieldParameters (fields : List (List Char)) : List Parameter :=
  fields.map fun field => Parameters.selfField field true

/-- Whether `declared` has something to do. -/
def declaredApplies (s : Symbol) : Bool :=
  s.detail != "" && (s.kind.isFieldLike || s.kind.isCallable)

/-- Takes the type of a field from its declaration. -/
def declaredType (s : Symbol) : StateM Resolver Symbol :=
  if s.resolvedType.isSome then return s
  else
    match Signature.fieldType? s.detail.toList with
    | none => return s
    | some type => setType s type

/-- Takes the parameters of a callable from its declaration. -/
def declaredParameters (s : Symbol) : Symbol :=
  if s.lacksParameters then
    match Parameters.parse? s.detail.toList with
    | none => s
    | some parameters => { s with parameters := some parameters }
  else s

/-- Takes the parameters of a constructor from the fields that its declaration names. -/
def bracedParameters (s : Symbol) : Symbol :=
  if s.lacksParameters then
    match Signature.bracedFields? s.detail.toList with
    | none | some [] => s
    | some fields => { s with parameters := some (fieldParameters fields) }
  else s

/-- Takes the return type of a callable from its declaration. -/
def declaredReturnType (s : Symbol) : StateM Resolver Symbol :=
  if s.returnType.isSome then return s
  else
    match Signature.returnType? s.detail.toList s.name.toList with
    | none => return s
    | some type => setReturnType s type

/-- Takes types and parameters from the declaration. A callable ends with a list of parameters,
each with a reference to its type. -/
def declared (s : Symbol) : StateM Resolver Symbol := do
  if s.kind.isFieldLike then declaredType s
  else
    let s := declaredParameters s
    let s ← if s.kind = .constructor then pure (bracedParameters s) else declaredReturnType s
    return { s with parameters := some (← (s.parameters.getD []).mapM resolveParameter) }

/-! ## Hover text -/

/-- A question for the hover text of a symbol. -/
structure HoverRequest where
  fileId : String
  position : Position
  name : String
  deriving DecidableEq, Repr

/-- The question to ask about a symbol whose type is missing, and the symbol marked as asked for.
No symbol is asked for twice. -/
def planHover (config : Config) (s : Symbol) : Option HoverRequest × Symbol :=
  match s.selection with
  | none => (none, s)
  | some selection =>
    if config.features.hover && !s.hoverChecked && s.fileId != "" && needsType s then
      (some ⟨s.fileId, selection.start, s.name⟩, { s with hoverChecked := true })
    else (none, s)

/-- The hover text for a question, if there is one that is not blank. -/
def fetchHover (request : HoverRequest) : Inquiry (Option String) := do
  match ← Inquiry.query (.hover request.fileId request.position) with
  | some (some contents) =>
    return if (Text.trim contents.toList).isEmpty then none else some contents
  | _ => return none

/-- Takes what is still missing from a hover text. -/
def applyHover (contents : String) (s : Symbol) : StateM Resolver Symbol :=
  if !needsType s then return s
  else
    match s.kind with
    | .field | .property =>
      match Hover.fieldType? contents.toList s.name.toList with
      | none => return s
      | some type => setType s type
    | .method | .function =>
      match Hover.returnType? contents.toList s.name.toList with
      | none => return s
      | some type => setReturnType s type
    | .constructor =>
      match Hover.fields contents.toList with
      | [] => return s
      | fields => do
        return { s with parameters := some (← (fieldParameters fields).mapM resolveParameter) }
    | _ => return s

/-! ## Lines above -/

/-- Whether `nearby` has something to do. -/
def nearbyApplies (scope : Scope) (s : Symbol) : Bool :=
  scope.config.features.nearbyLines && scope.text != "" && s.selection.isSome &&
    s.kind != .constructor && needsType s

/-- The lines above a place, as many as the configuration says, and the line of the place. -/
def linesAbove (scope : Scope) (p : Position) : List Char :=
  let line := p.line.toNat
  Text.lineWindow scope.text.toList (line - scope.config.limits.window) (line + 1)

/-- Takes the type of a field or the return type of a callable from the lines above it. -/
def nearby (scope : Scope) (s : Symbol) : StateM Resolver Symbol :=
  match s.selection with
  | none => return s
  | some selection =>
    let lines := linesAbove scope selection.start
    if s.kind.isFieldLike then
      match Nearby.fieldType? lines s.name.toList with
      | none => return s
      | some type => setType s type
    else
      match Nearby.returnType? lines s.name.toList with
      | none => return s
      | some type => setReturnType s type

end CodeAtlas.Enrichment
