import CodeAtlas.Json.Record
import CodeAtlas.Symbol.Basic

/-!
Symbols and their parts as JSON, written and read. Fields have one order, in which a record may
also be read from an array; optional parts of a type reference, a parameter and a relations record
are left out when absent, all other absent parts are written as null.
-/
namespace CodeAtlas

/-- A member that is left out when its value is absent. -/
def memberIfSome {α : Type} (key : String) (f : α → Json) : Option α → List (String × Json)
  | none => []
  | some a => [(key, f a)]

/-- A member that is left out when its list is empty. -/
def memberIfAny {α : Type} (key : String) (f : α → Json) (items : List α) :
    List (String × Json) :=
  if items.isEmpty then [] else [(key, .ofList f items)]

/-! ## Places -/

def Position.toJson (p : Position) : Json :=
  .object [("line", .ofNat p.line.toNat), ("character", .ofNat p.character.toNat)]

def Position.ofJson? (j : Json) : Option Position := do
  let r ← j.record? ["line", "character"]
  return ⟨← r.required "line" Json.uint32?, ← r.required "character" Json.uint32?⟩

def Range.toJson (r : Range) : Json :=
  .object [("start", r.start.toJson), ("end", r.stop.toJson)]

def Range.ofJson? (j : Json) : Option Range := do
  let r ← j.record? ["start", "end"]
  return ⟨← r.required "start" Position.ofJson?, ← r.required "end" Position.ofJson?⟩

/-! ## Raw symbols -/

/-- The fields of a raw symbol. -/
def RawSymbol.fieldNames : List String :=
  ["name", "kind", "detail", "range", "selectionRange", "children"]

mutual

def RawSymbol.toJson : RawSymbol → Json
  | ⟨name, kind, detail, range, selection, children⟩ =>
    .object [("name", .string name), ("kind", .ofNat kind.toNat), ("detail", .ofText? detail),
      ("range", .ofOption Range.toJson range), ("selectionRange", .ofOption Range.toJson selection),
      ("children", .array (rawToJson children))]

def rawToJson : List RawSymbol → List Json
  | [] => []
  | r :: rest => r.toJson :: rawToJson rest

end

/-- Reads a raw symbol; only its name and kind must be there. -/
def RawSymbol.ofJson? (j : Json) : Option RawSymbol :=
  match _hr : j.record? RawSymbol.fieldNames with
  | none => none
  | some r => do
    let name ← r.required "name" Json.text?
    let kind ← r.required "kind" Json.uint32?
    let detail ← r.withDefault "detail" none (Json.orNull? Json.text?)
    let range ← r.withDefault "range" none (Json.orNull? Range.ofJson?)
    let selection ← r.withDefault "selectionRange" none (Json.orNull? Range.ofJson?)
    let children ← match _hc : r.get? "children" with
      | none => some []
      | some (.array items) => items.attach.mapM fun ⟨item, _⟩ => RawSymbol.ofJson? item
      | some _ => none
    return ⟨name, kind, detail, range, selection, children⟩
termination_by sizeOf j
decreasing_by
  rename_i h
  exact Nat.lt_trans (Json.sizeOf_item_lt h) (Json.sizeOf_field_lt _hr _hc)

/-! ## Types -/

def SymbolKind.toJson (k : SymbolKind) : Json := .ofNat k.code.toNat

def SymbolKind.ofJson? (j : Json) : Option SymbolKind := j.uint32?.map .ofCode

/-- The word for who may use a symbol. -/
def Access.word : Access → String
  | everyone => "public"
  | library => "private"

/-- Reads a name given as a string, or as the key of an object that holds only null. -/
def Json.tag? : Json → Option String
  | .string s => some s
  | .object [(s, .null)] => some s
  | _ => none

/-- Reads who may use a symbol. -/
def Access.ofJson? (j : Json) : Option Access := do
  match ← j.tag? with
  | "public" => some .everyone
  | "private" => some .library
  | _ => none

def TypeDefinition.toJson (d : TypeDefinition) : Json :=
  .object [("name", .string d.name), ("kind", d.kind.toJson), ("fileId", .string d.fileId),
    ("selectionRange", .ofOption Range.toJson d.selection), ("isSdk", .bool d.isSdk)]

def TypeDefinition.ofJson? (j : Json) : Option TypeDefinition := do
  let r ← j.record? ["name", "kind", "fileId", "selectionRange", "isSdk"]
  return {
    name := ← r.required "name" Json.text?
    kind := ← r.required "kind" SymbolKind.ofJson?
    fileId := ← r.required "fileId" Json.text?
    selection := ← r.nullable "selectionRange" Range.ofJson?
    isSdk := ← r.required "isSdk" Json.bool? }

def TypeReference.toJson (t : TypeReference) : Json :=
  .object (("name", .string t.name) :: memberIfSome "definition" TypeDefinition.toJson t.definition)

def TypeReference.ofJson? (j : Json) : Option TypeReference := do
  let r ← j.record? ["name", "definition"]
  return ⟨← r.required "name" Json.text?,
    ← r.withDefault "definition" none (Json.orNull? TypeDefinition.ofJson?)⟩

/-! ## Parameters and relations -/

def Parameter.toJson (p : Parameter) : Json :=
  .object ([("type", .string p.type), ("name", .ofText? p.name), ("isNamed", .bool p.isNamed),
      ("isRequired", .bool p.isRequired),
      ("isOptionalPositional", .bool p.isOptionalPositional)] ++
    memberIfSome "typeRef" TypeReference.toJson p.typeRef)

def Parameter.ofJson? (j : Json) : Option Parameter := do
  let r ← j.record? ["type", "name", "isNamed", "isRequired", "isOptionalPositional", "typeRef"]
  return {
    type := ← r.required "type" Json.text?
    name := ← r.nullable "name" Json.text?
    isNamed := ← r.required "isNamed" Json.bool?
    isRequired := ← r.required "isRequired" Json.bool?
    isOptionalPositional := ← r.required "isOptionalPositional" Json.bool?
    typeRef := ← r.withDefault "typeRef" none (Json.orNull? TypeReference.ofJson?) }

/-- A related type as JSON: its name, or the reference. -/
def RelationTarget.toJson : RelationTarget → Json
  | named name => .string name
  | resolved reference => reference.toJson

def RelationTarget.ofJson? (j : Json) : Option RelationTarget :=
  match j with
  | .string name => some (.named name)
  | _ => (TypeReference.ofJson? j).map .resolved

def Relations.toJson (r : Relations) : Json :=
  .object (memberIfSome "extends" RelationTarget.toJson r.superclass ++
    memberIfAny "implements" RelationTarget.toJson r.implements ++
    memberIfAny "with" RelationTarget.toJson r.mixins)

def Relations.ofJson? (j : Json) : Option Relations := do
  let r ← j.record? ["extends", "implements", "with"]
  return {
    superclass := ← r.withDefault "extends" none (Json.orNull? RelationTarget.ofJson?)
    implements := ← r.withDefault "implements" [] (Json.list? RelationTarget.ofJson?)
    mixins := ← r.withDefault "with" [] (Json.list? RelationTarget.ofJson?) }

/-! ## Symbols -/

def Symbol.fieldNames : List String :=
  ["name", "kind", "detail", "range", "selectionRange", "fileId", "children", "uniqueId",
    "parentId", "access", "isSdk", "resolvedType", "resolvedTypeRef", "returnType",
    "returnTypeRef", "parameters", "relations", "hoverChecked"]

/-- The members of a symbol, with `children` for the symbols nested in it. -/
def Symbol.members (s : Symbol) (children : Json) : List (String × Json) :=
  [("name", .string s.name), ("kind", s.kind.toJson), ("detail", .string s.detail),
    ("range", .ofOption Range.toJson s.range),
    ("selectionRange", .ofOption Range.toJson s.selection), ("fileId", .string s.fileId),
    ("children", children), ("uniqueId", .string s.uniqueId), ("parentId", .ofText? s.parentId),
    ("access", .ofOption (fun a => .string a.word) s.access), ("isSdk", .bool s.isSdk),
    ("resolvedType", .ofText? s.resolvedType),
    ("resolvedTypeRef", .ofOption TypeReference.toJson s.resolvedTypeRef),
    ("returnType", .ofText? s.returnType),
    ("returnTypeRef", .ofOption TypeReference.toJson s.returnTypeRef),
    ("parameters", .ofOption (.ofList Parameter.toJson) s.parameters),
    ("relations", .ofOption Relations.toJson s.relations),
    ("hoverChecked", .bool s.hoverChecked)]

/-- Reads a symbol's own fields from its record. -/
def Symbol.ofRecord? (r : Json.Record) : Option Symbol := do
  return {
    name := ← r.required "name" Json.text?
    kind := ← r.required "kind" SymbolKind.ofJson?
    detail := ← r.required "detail" Json.text?
    range := ← r.nullable "range" Range.ofJson?
    selection := ← r.nullable "selectionRange" Range.ofJson?
    fileId := ← r.required "fileId" Json.text?
    uniqueId := ← r.required "uniqueId" Json.text?
    parentId := ← r.nullable "parentId" Json.text?
    access := ← r.nullable "access" Access.ofJson?
    isSdk := ← r.required "isSdk" Json.bool?
    resolvedType := ← r.nullable "resolvedType" Json.text?
    resolvedTypeRef := ← r.nullable "resolvedTypeRef" TypeReference.ofJson?
    returnType := ← r.nullable "returnType" Json.text?
    returnTypeRef := ← r.nullable "returnTypeRef" TypeReference.ofJson?
    parameters := ← r.nullable "parameters" (Json.list? Parameter.ofJson?)
    relations := ← r.nullable "relations" Relations.ofJson?
    hoverChecked := ← r.withDefault "hoverChecked" false Json.bool? }

mutual

/-- A symbol as JSON, with the symbols nested in it. -/
def SymbolTree.toJson : SymbolTree → Json
  | ⟨s, children⟩ => .object (s.members (.array (treesToJson children)))

def treesToJson : List SymbolTree → List Json
  | [] => []
  | t :: rest => t.toJson :: treesToJson rest

end

/-- Reads a symbol with the symbols nested in it. -/
def SymbolTree.ofJson? (j : Json) : Option SymbolTree :=
  match _hr : j.record? Symbol.fieldNames with
  | none => none
  | some r => do
    let symbol ← Symbol.ofRecord? r
    let children ← match _hc : r.get? "children" with
      | some (.array items) => items.attach.mapM fun ⟨item, _⟩ => SymbolTree.ofJson? item
      | _ => none
    return ⟨symbol, children⟩
termination_by sizeOf j
decreasing_by
  rename_i h
  exact Nat.lt_trans (Json.sizeOf_item_lt h) (Json.sizeOf_field_lt _hr _hc)

/-- A file as JSON: its id and symbols, without its text. -/
def SourceFile.toJson (f : SourceFile) : Json :=
  .object [("fileId", .string f.fileId), ("symbols", .array (treesToJson f.symbols))]

end CodeAtlas
