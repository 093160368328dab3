import CodeAtlas.Proofs.Written

/-!
Symbols are read back as they were written. Every part of a symbol is: a part that is left out where
it is absent, a part that is written as null, a list that is left out where it is empty, a related
type that is a name or a reference. Kinds are written as numbers, so a kind is read back if it is
the kind of a number; from there the round trip is lifted, record by record, to symbols with all
symbols nested in them (`symbols_round_trip`).
-/
namespace CodeAtlas

open Json

variable {v : Json}

/-! ## Kinds of numbers -/

/-- A kind that some number has. -/
def SymbolKind.Coded (k : SymbolKind) : Prop := ∃ code, k = ofCode code

def TypeReference.Coded (t : TypeReference) : Prop := ∀ d ∈ t.definition, d.kind.Coded

def Parameter.Coded (p : Parameter) : Prop := ∀ t ∈ p.typeRef, t.Coded

def RelationTarget.Coded : RelationTarget → Prop
  | named _ => True
  | resolved reference => reference.Coded

def Relations.Coded (r : Relations) : Prop := ∀ t ∈ r.targets, t.Coded

/-- All kinds in a symbol are kinds of numbers. -/
structure Symbol.Coded (s : Symbol) : Prop where
  kind : s.kind.Coded
  resolvedTypeRef : ∀ t ∈ s.resolvedTypeRef, t.Coded
  returnTypeRef : ∀ t ∈ s.returnTypeRef, t.Coded
  parameters : ∀ list ∈ s.parameters, ∀ p ∈ list, p.Coded
  relations : ∀ r ∈ s.relations, r.Coded

theorem SymbolKind.Coded.reads {k : SymbolKind} (h : k.Coded) :
    Reads SymbolKind.ofJson? k.toJson k := by
  obtain ⟨code, rfl⟩ := h
  intro v shows
  rw [SymbolKind.ofJson?, reads_uint32 _ v shows, Option.map_some, SymbolKind.code_ofCode]

/-! ## Members that are left out -/

variable {α : Type} {key other : String} {f : α → Json}

theorem lookup_memberIfSome (o : Option α) :
    (memberIfSome key f o).lookup other = if other = key then o.map f else none := by
  cases o with
  | none => simp [memberIfSome]
  | some a => simp [memberIfSome, lookup_cons_eq]

theorem lookup_memberIfAny (items : List α) : (memberIfAny key f items).lookup other =
    if other = key then if items.isEmpty then none else some (.ofList f items) else none := by
  cases items <;> simp [memberIfAny, lookup_cons_eq]

theorem keys_memberIfSome (o : Option α) : ((memberIfSome key f o).map Prod.fst).Sublist [key] := by
  cases o with
  | none => exact List.nil_sublist _
  | some a => exact List.Sublist.refl _

theorem keys_memberIfAny (items : List α) :
    ((memberIfAny key f items).map Prod.fst).Sublist [key] := by
  cases items with
  | nil => exact List.nil_sublist _
  | cons => exact List.Sublist.refl _

/-! ## Records -/

theorem Position.reads (p : Position) : Reads Position.ofJson? p.toJson p := by
  intro v shows
  obtain ⟨r, hr, shown⟩ :=
    exists_record_of_shows ["line", "character"] shows (.refl _) (by decide)
  have line : r.required "line" uint32? = some p.line :=
    shown.required (by decide) rfl (reads_uint32 _)
  have character : r.required "character" uint32? = some p.character :=
    shown.required (by decide) rfl (reads_uint32 _)
  simp only [Position.ofJson?, hr, line, character, Option.bind_eq_bind, Option.bind_some,
    Option.pure_def]

theorem Range.reads (range : Range) : Reads Range.ofJson? range.toJson range := by
  intro v shows
  obtain ⟨r, hr, shown⟩ := exists_record_of_shows ["start", "end"] shows (.refl _) (by decide)
  have start : r.required "start" Position.ofJson? = some range.start :=
    shown.required (by decide) rfl (Position.reads _)
  have stop : r.required "end" Position.ofJson? = some range.stop :=
    shown.required (by decide) rfl (Position.reads _)
  simp only [Range.ofJson?, hr, start, stop, Option.bind_eq_bind, Option.bind_some,
    Option.pure_def]

theorem TypeDefinition.reads {d : TypeDefinition} (coded : d.kind.Coded) :
    Reads TypeDefinition.ofJson? d.toJson d := by
  intro v shows
  obtain ⟨r, hr, shown⟩ := exists_record_of_shows
    ["name", "kind", "fileId", "selectionRange", "isSdk"] shows (.refl _) (by decide)
  have name : r.required "name" text? = some d.name :=
    shown.required (by decide) rfl (reads_text _)
  have kind : r.required "kind" SymbolKind.ofJson? = some d.kind :=
    shown.required (by decide) rfl coded.reads
  have fileId : r.required "fileId" text? = some d.fileId :=
    shown.required (by decide) rfl (reads_text _)
  have selection : r.nullable "selectionRange" Range.ofJson? = some d.selection :=
    shown.nullable (by decide) rfl (fun a _ => Range.reads a) fun _ => rfl
  have isSdk : r.required "isSdk" bool? = some d.isSdk :=
    shown.required (by decide) rfl (reads_bool _)
  simp only [TypeDefinition.ofJson?, hr, name, kind, fileId, selection, isSdk,
    Option.bind_eq_bind, Option.bind_some, Option.pure_def]

theorem TypeReference.reads {t : TypeReference} (coded : t.Coded) :
    Reads TypeReference.ofJson? t.toJson t := by
  intro v shows
  obtain ⟨r, hr, shown⟩ := exists_record_of_shows ["name", "definition"] shows
    ((keys_memberIfSome t.definition).cons_cons "name") (by decide)
  have name : r.required "name" text? = some t.name :=
    shown.required (by decide) rfl (reads_text _)
  have definition : r.withDefault "definition" none (orNull? TypeDefinition.ofJson?) =
      some t.definition :=
    shown.optional (by decide) (lookup_memberIfSome t.definition)
      (fun d hd => TypeDefinition.reads (coded d hd)) fun _ => rfl
  simp only [TypeReference.ofJson?, hr, name, definition, Option.bind_eq_bind, Option.bind_some,
    Option.pure_def]

theorem Parameter.reads {p : Parameter} (coded : p.Coded) :
    Reads Parameter.ofJson? p.toJson p := by
  intro v shows
  obtain ⟨r, hr, shown⟩ := exists_record_of_shows
    ["type", "name", "isNamed", "isRequired", "isOptionalPositional", "typeRef"] shows
    ((keys_memberIfSome p.typeRef).append_left
      ["type", "name", "isNamed", "isRequired", "isOptionalPositional"]) (by decide)
  have type : r.required "type" text? = some p.type :=
    shown.required (by decide) rfl (reads_text _)
  have name : r.nullable "name" text? = some p.name :=
    shown.nullableText (by decide) rfl
  have isNamed : r.required "isNamed" bool? = some p.isNamed :=
    shown.required (by decide) rfl (reads_bool _)
  have isRequired : r.required "isRequired" bool? = some p.isRequired :=
    shown.required (by decide) rfl (reads_bool _)
  have isOptionalPositional :
      r.required "isOptionalPositional" bool? = some p.isOptionalPositional :=
    shown.required (by decide) rfl (reads_bool _)
  have typeRef : r.withDefault "typeRef" none (orNull? TypeReference.ofJson?) = some p.typeRef :=
    shown.optional (by decide) (lookup_memberIfSome p.typeRef)
      (fun t ht => TypeReference.reads (coded t ht)) fun _ => rfl
  simp only [Parameter.ofJson?, hr, type, name, isNamed, isRequired, isOptionalPositional,
    typeRef, Option.bind_eq_bind, Option.bind_some, Option.pure_def]

theorem RelationTarget.reads {t : RelationTarget} (coded : t.Coded) :
    Reads RelationTarget.ofJson? t.toJson t := by
  intro v shows
  cases t with
  | named name =>
    rw [shows.string]
    rfl
  | resolved reference =>
    -- what is read as a reference is no string, so the name is not taken first
    have read := TypeReference.reads coded v shows
    cases v with
    | string s => cases read
    | _ => exact congrArg (Option.map RelationTarget.resolved) read

theorem RelationTarget.filled (t : RelationTarget) : t.toJson.isNull = false := by
  cases t <;> rfl

theorem Relations.keys (r : Relations) :
    ((memberIfSome "extends" RelationTarget.toJson r.superclass ++
      memberIfAny "implements" RelationTarget.toJson r.implements ++
      memberIfAny "with" RelationTarget.toJson r.mixins).map Prod.fst).Sublist
        ["extends", "implements", "with"] := by
  rw [List.map_append, List.map_append]
  exact ((keys_memberIfSome r.superclass).append (keys_memberIfAny r.implements)).append
    (keys_memberIfAny r.mixins)

theorem Relations.reads {relations : Relations} (coded : relations.Coded) :
    Reads Relations.ofJson? relations.toJson relations := by
  intro v shows
  obtain ⟨r, hr, shown⟩ := exists_record_of_shows ["extends", "implements", "with"] shows
    relations.keys (by decide)
  have superclass : r.withDefault "extends" none (orNull? RelationTarget.ofJson?) =
      some relations.superclass := by
    refine shown.optional (by decide) ?_ (fun t ht => RelationTarget.reads (coded t ?_))
      RelationTarget.filled
    · simp [List.lookup_append, lookup_memberIfSome, lookup_memberIfAny]
    · simp [Relations.targets, Option.mem_def.mp ht]
  have implements : r.withDefault "implements" [] (list? RelationTarget.ofJson?) =
      some relations.implements := by
    refine shown.listed (by decide) ?_ fun t ht => RelationTarget.reads (coded t ?_)
    · simp [List.lookup_append, lookup_memberIfSome, lookup_memberIfAny]
    · simp [Relations.targets, ht]
  have mixins : r.withDefault "with" [] (list? RelationTarget.ofJson?) =
      some relations.mixins := by
    refine shown.listed (by decide) ?_ fun t ht => RelationTarget.reads (coded t ?_)
    · simp [List.lookup_append, lookup_memberIfSome, lookup_memberIfAny]
    · simp [Relations.targets, ht]
  simp only [Relations.ofJson?, hr, superclass, implements, mixins, Option.bind_eq_bind,
    Option.bind_some, Option.pure_def]

/-! ## Symbols -/

theorem Access.reads (a : Access) : Reads Access.ofJson? (.string a.word) a := by
  intro v shows
  rw [shows.string]
  cases a <;> rfl

theorem Symbol.reads {s : Symbol} (coded : s.Coded) {children : Json} {r : Json.Record}
    (shown : r.Shows Symbol.fieldNames (s.members children)) : Symbol.ofRecord? r = some s := by
  have name : r.required "name" text? = some s.name :=
    shown.required (by decide) rfl (reads_text _)
  have kind : r.required "kind" SymbolKind.ofJson? = some s.kind :=
    shown.required (by decide) rfl coded.kind.reads
  have detail : r.required "detail" text? = some s.detail :=
    shown.required (by decide) rfl (reads_text _)
  have range : r.nullable "range" Range.ofJson? = some s.range :=
    shown.nullable (by decide) rfl (fun a _ => Range.reads a) fun _ => rfl
  have selection : r.nullable "selectionRange" Range.ofJson? = some s.selection :=
    shown.nullable (by decide) rfl (fun a _ => Range.reads a) fun _ => rfl
  have fileId : r.required "fileId" text? = some s.fileId :=
    shown.required (by decide) rfl (reads_text _)
  have uniqueId : r.required "uniqueId" text? = some s.uniqueId :=
    shown.required (by decide) rfl (reads_text _)
  have parentId : r.nullable "parentId" text? = some s.parentId :=
    shown.nullableText (by decide) rfl
  have access : r.nullable "access" Access.ofJson? = some s.access :=
    shown.nullable (by decide) rfl (fun a _ => Access.reads a) fun _ => rfl
  have isSdk : r.required "isSdk" bool? = some s.isSdk :=
    shown.required (by decide) rfl (reads_bool _)
  have resolvedType : r.nullable "resolvedType" text? = some s.resolvedType :=
    shown.nullableText (by decide) rfl
  have resolvedTypeRef : r.nullable "resolvedTypeRef" TypeReference.ofJson? =
      some s.resolvedTypeRef :=
    shown.nullable (by decide) rfl
      (fun t ht => TypeReference.reads (coded.resolvedTypeRef t ht)) fun _ => rfl
  have returnType : r.nullable "returnType" text? = some s.returnType :=
    shown.nullableText (by decide) rfl
  have returnTypeRef : r.nullable "returnTypeRef" TypeReference.ofJson? = some s.returnTypeRef :=
    shown.nullable (by decide) rfl
      (fun t ht => TypeReference.reads (coded.returnTypeRef t ht)) fun _ => rfl
  have parameters : r.nullable "parameters" (list? Parameter.ofJson?) = some s.parameters :=
    shown.nullable (by decide) rfl (fun list hl =>
      reads_list fun p hp => Parameter.reads (coded.parameters list hl p hp)) fun _ => rfl
  have relations : r.nullable "relations" Relations.ofJson? = some s.relations :=
    shown.nullable (by decide) rfl (fun a ha => Relations.reads (coded.relations a ha))
      fun _ => rfl
  have hoverChecked : r.withDefault "hoverChecked" false bool? = some s.hoverChecked :=
    shown.withDefault (by decide) rfl (reads_bool _) false
  simp only [Symbol.ofRecord?, name, kind, detail, range, selection, fileId, uniqueId, parentId,
    access, isSdk, resolvedType, resolvedTypeRef, returnType, returnTypeRef, parameters,
    relations, hoverChecked, Option.bind_eq_bind, Option.bind_some, Option.pure_def]

theorem SymbolTree.ofJson?_eq {r : Json.Record} {s : Symbol} {items : List Json}
    {children : List SymbolTree} (record : v.record? Symbol.fieldNames = some r)
    (symbol : Symbol.ofRecord? r = some s) (nested : r.get? "children" = some (.array items))
    (below : items.mapM SymbolTree.ofJson? = some children) :
    SymbolTree.ofJson? v = some ⟨s, children⟩ := by
  rw [SymbolTree.ofJson?]
  split
  · next missing =>
    rw [record] at missing
    cases missing
  · next r' found =>
    obtain rfl : r = r' := Option.some.inj (record.symm.trans found)
    rw [symbol, Option.bind_eq_bind, Option.bind_some]
    split
    · next items' same =>
      obtain rfl : items = items' := by simpa [nested] using same
      have plain := (attach_mapM SymbolTree.ofJson? items).trans below
      exact congrArg (Option.bind · fun children => some (SymbolTree.mk s children)) plain
    · next other => exact absurd nested (other items)

mutual

theorem SymbolTree.reads : ∀ t : SymbolTree, (∀ s ∈ t.preorder, s.Coded) →
    Reads SymbolTree.ofJson? t.toJson t
  | ⟨s, children⟩, coded => by
    intro v shows
    rw [SymbolTree.toJson] at shows
    rw [SymbolTree.preorder] at coded
    obtain ⟨own, coded⟩ := List.forall_mem_cons.mp coded
    obtain ⟨r, hr, shown⟩ :=
      exists_record_of_shows Symbol.fieldNames shows (.refl _) (by decide)
    have last : (s.members (.array (treesToJson children))).lookup "children" =
        some (.array (treesToJson children)) := rfl
    obtain ⟨w, nested, shows⟩ := shown.written (by decide) last
    obtain ⟨items, rfl, items⟩ := Shows.array shows
    exact SymbolTree.ofJson?_eq hr (Symbol.reads own shown) nested
      (mapM_ofJson?_of_shows children coded items)

theorem mapM_ofJson?_of_shows : ∀ (trees : List SymbolTree) {shown : List Json},
    (∀ s ∈ preorderAll trees, s.Coded) → List.Forall₂ Shows (treesToJson trees) shown →
      shown.mapM SymbolTree.ofJson? = some trees
  | [], shown, _, items => by
    rw [treesToJson] at items
    cases items
    rfl
  | t :: rest, shown, coded, items => by
    rw [treesToJson] at items
    rw [preorderAll] at coded
    obtain ⟨first, others⟩ := List.forall_mem_append.mp coded
    cases items with
    | cons item items =>
      rw [List.mapM_cons, SymbolTree.reads t first _ item,
        mapM_ofJson?_of_shows rest others items]
      rfl

end

/-! ## Symbols have values -/

theorem readable_memberIfSome {g : α → Json} (h : ∀ a, Readable (g a)) (o : Option α) :
    ∀ m ∈ memberIfSome key g o, Readable m.2 := by
  cases o with
  | none => exact List.forall_mem_nil _
  | some a => exact List.forall_mem_singleton.mpr (h a)

theorem readable_memberIfAny {g : α → Json} (h : ∀ a, Readable (g a)) (items : List α) :
    ∀ m ∈ memberIfAny key g items, Readable m.2 := by
  cases items with
  | nil => exact List.forall_mem_nil _
  | cons a rest => exact List.forall_mem_singleton.mpr (readable_ofList h (a :: rest))

theorem Position.readable (p : Position) : Readable p.toJson :=
  readable_object (by simp)

theorem Range.readable (r : Range) : Readable r.toJson :=
  readable_object (by simp [Position.readable])

theorem TypeDefinition.readable (d : TypeDefinition) : Readable d.toJson :=
  readable_object (by simp [SymbolKind.toJson, readable_ofOption Range.readable])

theorem TypeReference.readable (t : TypeReference) : Readable t.toJson :=
  readable_object (List.forall_mem_cons.mpr
    ⟨readable_string _, readable_memberIfSome TypeDefinition.readable t.definition⟩)

theorem Parameter.readable (p : Parameter) : Readable p.toJson :=
  readable_object (List.forall_mem_append.mpr
    ⟨by simp, readable_memberIfSome TypeReference.readable p.typeRef⟩)

theorem RelationTarget.readable (t : RelationTarget) : Readable t.toJson := by
  cases t with
  | named name => rfl
  | resolved reference => exact reference.readable

theorem Relations.readable (r : Relations) : Readable r.toJson :=
  readable_object (List.forall_mem_append.mpr ⟨List.forall_mem_append.mpr
    ⟨readable_memberIfSome RelationTarget.readable r.superclass,
      readable_memberIfAny RelationTarget.readable r.implements⟩,
    readable_memberIfAny RelationTarget.readable r.mixins⟩)

theorem Symbol.readable (s : Symbol) {children : Json} (h : Readable children) :
    ∀ m ∈ s.members children, Readable m.2 := by
  have parameters := readable_ofOption (readable_ofList Parameter.readable) s.parameters
  have access := readable_ofOption (fun a : Access => readable_string a.word) s.access
  simp [Symbol.members, SymbolKind.toJson, h, parameters, access, readable_ofOption Range.readable,
    readable_ofOption TypeReference.readable, readable_ofOption Relations.readable]

mutual

theorem SymbolTree.readable : ∀ t : SymbolTree, Readable t.toJson
  | ⟨s, children⟩ => by
    rw [SymbolTree.toJson]
    exact readable_object (s.readable (readable_array (readable_treesToJson children)))

theorem readable_treesToJson : ∀ trees : List SymbolTree, ∀ j ∈ treesToJson trees, Readable j
  | [] => by
    rw [treesToJson]
    exact List.forall_mem_nil _
  | t :: rest => by
    rw [treesToJson]
    exact List.forall_mem_cons.mpr ⟨SymbolTree.readable t, readable_treesToJson rest⟩

end

/-- Symbols are read back as they were written. The value of a tree of symbols, whose kinds are
kinds of numbers, is read as that tree: the value as it was written, and the canonical form that it
has. -/
theorem symbols_round_trip (t : SymbolTree) (coded : ∀ s ∈ t.preorder, s.Coded) :
    SymbolTree.ofJson? t.toJson = some t ∧
      ∃ v, t.toJson.canonical? = some v ∧ SymbolTree.ofJson? v = some t := by
  obtain ⟨v, value⟩ := Option.isSome_iff_exists.mp t.readable
  exact ⟨t.reads coded _ (.inl rfl), v, value, t.reads coded v (.inr value)⟩

/-- A method whose parameters have a type reference and none, with a kind without a name. -/
def nestedMethod : Symbol :=
  { name := "m", kind := .other 13, fileId := "file:///a.dart", uniqueId := "a#m"
    parentId := some "a#A", access := some .library, returnTypeRef := some ⟨"C", none⟩
    parameters := some [{ type := "C", typeRef := some ⟨"C", none⟩ },
      { type := "int", name := some "n", isNamed := true }]
    relations := some {} }

/-- A class that extends a name and implements a reference and a name. -/
def outerClass : Symbol :=
  { name := "A", kind := .classDecl, fileId := "file:///a.dart", uniqueId := "a#A"
    range := some ⟨⟨0, 0⟩, ⟨2, 1⟩⟩, hoverChecked := true
    relations := some {
      superclass := some (.named "B")
      implements := [.resolved ⟨"C", some ⟨"C", .enumDecl, "file:///c.dart", none, true⟩⟩,
        .named "D"] } }

theorem nestedMethod_coded : nestedMethod.Coded where
  kind := ⟨13, rfl⟩
  resolvedTypeRef := nofun
  returnTypeRef t ht := by
    obtain rfl := Option.some.inj ht
    exact nofun
  parameters list hl := by
    obtain rfl := Option.some.inj hl
    refine List.forall_mem_cons.mpr ⟨fun t ht => ?_, List.forall_mem_singleton.mpr nofun⟩
    obtain rfl := Option.some.inj ht
    exact nofun
  relations r hr := by
    obtain rfl := Option.some.inj hr
    exact nofun

theorem outerClass_coded : outerClass.Coded where
  kind := ⟨5, rfl⟩
  resolvedTypeRef := nofun
  returnTypeRef := nofun
  parameters := nofun
  relations r hr := by
    obtain rfl := Option.some.inj hr
    refine List.forall_mem_cons.mpr ⟨trivial, List.forall_mem_cons.mpr ⟨fun d hd => ?_,
      List.forall_mem_singleton.mpr trivial⟩⟩
    obtain rfl := Option.some.inj hd
    exact ⟨10, rfl⟩

theorem symbols_round_trip_nested :
    let t : SymbolTree := ⟨outerClass, [⟨nestedMethod, []⟩, ⟨nestedMethod, []⟩]⟩
    (∀ s ∈ t.preorder, s.Coded) ∧ SymbolTree.ofJson? t.toJson = some t ∧
      ∃ v, t.toJson.canonical? = some v ∧ SymbolTree.ofJson? v = some t := by
  intro t
  have coded : ∀ s ∈ t.preorder, s.Coded := by
    have symbols : t.preorder = [outerClass, nestedMethod, nestedMethod] := rfl
    rw [symbols]
    exact List.forall_mem_cons.mpr ⟨outerClass_coded, List.forall_mem_cons.mpr
      ⟨nestedMethod_coded, List.forall_mem_singleton.mpr nestedMethod_coded⟩⟩
  exact ⟨coded, symbols_round_trip t coded⟩

end CodeAtlas
