import CodeAtlas.Graph.Edges
import CodeAtlas.Proofs.Alone
import CodeAtlas.Proofs.BaseNames
import CodeAtlas.Proofs.Preservation

/-!
The supertypes of a class, as they are resolved when the class is filled in. A supertype is recorded
as it is written, and resolved under its base name; so the relations of a class are the recorded
ones, each led to the first declaration of that name (`enrichSymbol_related`). A supertype that is
written plainly is declared under the name that its edge goes by; one with type arguments leads to
the declaration of an argument (`supertypes_resolve_to_base`), and so away from the class that its
edge leads to (`generic_superclass_resolves_elsewhere`).
-/
namespace CodeAtlas

/-! ## Recorded relations -/

theorem Relations.mem_targets_map {f : RelationTarget → RelationTarget} {r : Relations}
    {t : RelationTarget} : t ∈ (r.map f).targets ↔ ∃ t₀ ∈ r.targets, f t₀ = t := by
  have whole : (r.map f).targets = r.targets.map f := by
    simp only [targets, map, List.map_append, Option.toList_map]
  rw [whole, List.mem_map]

/-- What is recorded about a class names its supertypes only. -/
theorem RelationIndex.Unresolved.named {x : RelationIndex} (h : x.Unresolved)
    {fileId name : String} {r : Relations} (found : x.find? fileId name = some r)
    {t : RelationTarget} (ht : t ∈ r.targets) : ∃ label, t = .named label := by
  rw [← h fileId name r found, Relations.erase] at ht
  obtain ⟨t₀, -, rfl⟩ := Relations.mem_targets_map.mp ht
  exact ⟨_, rfl⟩

/-- A related type, led to its declaration if there is one. -/
def declaredTarget (definitions : List TypeDefinition) (t : RelationTarget) : RelationTarget :=
  let reference := Resolver.lookup definitions t.label
  if reference.definition.isSome then .resolved reference else t

theorem eq_lookup_of_declaredTarget {definitions : List TypeDefinition} {label : String}
    {reference : TypeReference}
    (h : declaredTarget definitions (.named label) = .resolved reference) :
    reference = Resolver.lookup definitions label ∧ reference.definition.isSome := by
  unfold declaredTarget at h
  dsimp only at h
  split at h
  · rename_i declared
    obtain rfl := RelationTarget.resolved.inj h
    exact ⟨rfl, declared⟩
  · cases h

theorem Resolver.declared_of_lookup {definitions : List TypeDefinition} {name : String}
    {d : TypeDefinition} (h : (lookup definitions name).definition = some d) :
    d ∈ definitions ∧ d.name = String.ofList (TypeName.base name.toList) := by
  have named := List.find?_some h
  exact ⟨List.mem_of_find?_eq_some h, of_decide_eq_true named⟩

namespace EndsCoherent

variable {α β : Type} {definitions : List TypeDefinition} {f : α → StateM Resolver β} {g : α → β}

theorem mapM_eq (hf : ∀ a, EndsCoherent definitions (· = g a) (f a)) (l : List α) :
    EndsCoherent definitions (· = l.map g) (l.mapM f) := by
  induction l with
  | nil => exact pure' rfl
  | cons a rest ih =>
    rw [List.mapM_cons]
    refine bind' (hf a) fun b hb => bind' ih fun bs hbs => pure' ?_
    rw [hb, hbs, List.map_cons]

theorem mapM_option_eq (hf : ∀ a, EndsCoherent definitions (· = g a) (f a))
    (o : Option α) : EndsCoherent definitions (· = o.map g) (o.mapM f) := by
  cases o with
  | none => exact pure' rfl
  | some a =>
    show EndsCoherent definitions (· = some (g a)) (f a >>= fun b => pure (some b))
    exact bind' (hf a) fun b hb => pure' (congrArg some hb)

end EndsCoherent

/-! ## Filling in a class -/

namespace Enrichment

variable {definitions : List TypeDefinition}

theorem resolveTarget_eq (t : RelationTarget) :
    EndsCoherent definitions (· = declaredTarget definitions t) (resolveTarget t) := by
  intro r hr
  obtain ⟨found, hr', -⟩ := Resolver.resolve_spec hr t.label
  refine ⟨?_, hr'⟩
  show (if (Resolver.resolve t.label r).1.definition.isSome then
    RelationTarget.resolved (Resolver.resolve t.label r).1 else t) = _
  rw [found, declaredTarget]

theorem resolveRelations_eq (r : Relations) :
    EndsCoherent definitions (· = r.map (declaredTarget definitions)) (resolveRelations r) := by
  refine .bind' (.mapM_option_eq resolveTarget_eq r.superclass) fun superclass hs => ?_
  refine .bind' (.mapM_eq resolveTarget_eq r.implements) fun implements hi => ?_
  refine .bind' (.mapM_eq resolveTarget_eq r.mixins) fun mixins hm => .pure' ?_
  rw [hs, hi, hm, Relations.map]

/-- The relations recorded for a symbol, led to declarations. -/
def recordedRelations (definitions : List TypeDefinition) (x : RelationIndex) (s : Symbol) :
    Option Relations :=
  (x.find? s.fileId s.name).map (Relations.map (declaredTarget definitions))

theorem basic_related (scope : Scope) {s : Symbol} (isClass : s.kind = .classDecl)
    (unrelated : s.relations = none) :
    EndsCoherent definitions (fun s' =>
      s'.relations = recordedRelations definitions scope.relations s) (basic scope s) := by
  unfold basic recordedRelations
  refine .ite' (fun gap => ?_) fun _ => ?_
  · rcases gap with other | known
    · exact absurd isClass other
    · rw [unrelated] at known
      cases known
  · dsimp only
    cases scope.relations.find? s.fileId s.name with
    | none => exact .pure' unrelated
    | some r => exact .bind' (resolveRelations_eq r) fun _ hr => .pure' (congrArg some hr)

/-- After the first step nothing is done about relations. -/
theorem lead_related (scope : Scope) {s : Symbol} (isClass : s.kind = .classDecl)
    (unrelated : s.relations = none) :
    EndsCoherent definitions (fun led =>
      led.2.relations = recordedRelations definitions scope.relations s) (lead scope s) := by
  have applies : basicApplies s = true := by
    simp [basicApplies, isClass, unrelated]
  refine .ite_bind' (fun _ => basic_related scope isClass unrelated)
    (fun idle => absurd applies idle) fun s₁ h₁ => ?_
  have declared_related : EndsCoherent definitions (fun s₂ =>
      s₂.relations = recordedRelations definitions scope.relations s) (declared s₁) := by
    intro r hr
    have kept := (declared_read s₁ r).2
    exact ⟨(Symbol.eq_of_withoutTypes Symbol.relations (fun _ => rfl) kept).trans h₁,
      (declared_steady definitions s₁ r hr).2.1⟩
  refine .ite_bind' (fun _ => declared_related) (fun _ => .pure' h₁) fun s₂ h₂ => .pure' ?_
  rcases planHover_cases scope.config s₂ with idle | ⟨selection, -, -, planned⟩
  · rw [idle]
    exact h₂
  · rw [planned]
    exact h₂

/-- The relations of a class are those that are recorded, led to declarations. -/
theorem enrichSymbol_related (scope : Scope) (s : Symbol) :
    Leads (Resolver.Coherent definitions) (fun s' => s.kind = .classDecl → s.relations = none →
      s'.relations = recordedRelations definitions scope.relations s) (enrichSymbol scope s) := by
  -- a symbol that is no class, or has relations, is of no interest but for what is remembered
  refine enrichSymbol_leads (fun r hr => ⟨fun isClass unrelated => ?_, ?_⟩)
    fun contents s₁ r related hr => ⟨fun isClass unrelated => ?_, ?_⟩
  · exact (lead_related scope isClass unrelated r hr).1
  · exact (lead_steady definitions scope s r hr).2.1
  · have kept := finish_withoutTypes scope contents s₁ r
    exact (Symbol.eq_of_withoutTypes Symbol.relations (fun _ => rfl) kept).trans
      (related isClass unrelated)
  · exact (finish_steady definitions scope contents s₁ r hr).2.1

end Enrichment

/-! ## Where supertypes lead -/

/-- The class that an edge to a supertype leads to has the bare name. -/
theorem Builder.label_of_classNamed? {b : Builder} {target : RelationTarget} {id : String}
    (h : b.classNamed? target = some id) : ∃ n ∈ b.graph.nodes, n.id = id ∧
      n.kind = SymbolKind.classDecl.name ∧
      n.label = String.ofList (TypeName.bare target.label.toList) := by
  obtain ⟨n, found, same⟩ := Option.map_eq_some_iff.mp h
  have matched := List.find?_some found
  simp only [Bool.and_eq_true, beq_iff_eq] at matched
  exact ⟨n, List.mem_of_find?_eq_some found, same, matched⟩

/-- A supertype refers to a declaration under its base name. If it is written plainly that is its
bare name, the one that its edge goes by; if it has type arguments, it is the base name of these. -/
structure TypeReference.ToBase (definitions : List TypeDefinition) (reference : TypeReference)
    (d : TypeDefinition) : Prop where
  declared : d ∈ definitions
  found : reference.definition = some d
  name : d.name = String.ofList (TypeName.base reference.name.toList)
  plain : TypeName.Plain reference.name.toList →
    d.name = String.ofList (TypeName.bare reference.name.toList)
  edge : TypeName.Plain reference.name.toList → ∀ (b : Builder) (id : String),
    b.classNamed? (.resolved reference) = some id →
      ∃ n ∈ b.graph.nodes, n.id = id ∧ n.kind = SymbolKind.classDecl.name ∧ n.label = d.name
  arguments : ∀ inner,
    TypeName.arguments? (TypeName.required reference.name.toList) = some inner →
      TypeName.base inner ≠ [] → d.name = String.ofList (TypeName.base inner)

theorem Resolver.lookup_toBase {definitions : List TypeDefinition} {name : String}
    (h : (lookup definitions name).definition.isSome) :
    ∃ d, (lookup definitions name).ToBase definitions d := by
  obtain ⟨d, found⟩ := Option.isSome_iff_exists.mp h
  obtain ⟨declared, named⟩ := declared_of_lookup found
  have plain : TypeName.Plain name.toList → d.name = String.ofList (TypeName.bare name.toList) :=
    fun plain => TypeName.base_of_plain plain ▸ named
  refine ⟨d, declared, found, named, plain, fun unadorned b id led => ?_, fun inner given some => ?_⟩
  · obtain ⟨n, hn, same, kind, label⟩ := Builder.label_of_classNamed? led
    exact ⟨n, hn, same, kind, label.trans (plain unadorned).symm⟩
  · exact TypeName.base_of_arguments given some ▸ named

namespace Enrichment

theorem toBase_of_recorded {definitions : List TypeDefinition} {x : RelationIndex}
    (unresolved : x.Unresolved) {s : Symbol} {relations : Relations}
    (recorded : recordedRelations definitions x s = some relations) {reference : TypeReference}
    (ht : .resolved reference ∈ relations.targets) : ∃ d, reference.ToBase definitions d := by
  obtain ⟨r, found, rfl⟩ := Option.map_eq_some_iff.mp recorded
  obtain ⟨t, htr, led⟩ := Relations.mem_targets_map.mp ht
  obtain ⟨label, rfl⟩ := unresolved.named found htr
  obtain ⟨rfl, declared⟩ := eq_lookup_of_declaredTarget led
  exact Resolver.lookup_toBase declared

/-- The declarations and relations of a program given, a class that is filled in is related to what
is recorded for it. Each of its supertypes that is resolved leads to a declaration under the base
name of the supertype. -/
theorem supertypes_resolve_to_base (c : Context) (project files files' : List SourceFile)
    (r' : Resolver)
    (gives : (enrichFiles (c.prepare project) files (c.prepare project).resolver).Gives
      (files', r')) :
    List.Forall₂ (SourceFile.Filled fun s s' => s.kind = .classDecl → s.relations = none →
      s'.relations = recordedRelations (Resolver.definitionsOf project) (.ofFiles project) s ∧
        ∀ relations, s'.relations = some relations →
          ∀ reference, .resolved reference ∈ relations.targets →
            ∃ d, reference.ToBase (Resolver.definitionsOf project) d) files files' := by
  have unresolved := RelationIndex.ofFiles_unresolved project
  refine (enrichFiles_filled (fun text s => ?_) files _ files' r'
    (Resolver.fresh_coherent (Resolver.definitionsOf project)) gives).1
  intro r s' r₁ hr filled
  obtain ⟨related, coherent⟩ := enrichSymbol_related _ s r s' r₁ hr filled
  refine ⟨fun isClass unrelated => ?_, coherent⟩
  have recorded := related isClass unrelated
  refine ⟨recorded, fun relations known reference ht => ?_⟩
  exact toBase_of_recorded unresolved (recorded.symm.trans known) ht

/-- A class with two supertypes: one with a type argument, which is a class as well, and one that is
written plainly. -/
def twoSupertypesFile : SourceFile where
  fileId := "home.dart"
  symbols :=
    let placed name detail : SymbolTree :=
      ⟨{ Symbol.ofName name .classDecl "home.dart" with
        selection := some ⟨⟨0, 0⟩, ⟨0, 4⟩⟩, detail }, []⟩
    [placed "Home" "class Home extends Base<User> implements Saved", placed "Base" "",
      placed "User" "", placed "Saved" ""]

def twoSupertypes : Relations :=
  let reference name declared : RelationTarget := .resolved ⟨name, some
    ⟨declared, .classDecl, "home.dart", some ⟨⟨0, 0⟩, ⟨0, 4⟩⟩, false⟩⟩
  { superclass := some (reference "Base<User>" "User"), implements := [reference "Saved" "Saved"] }

theorem twoSupertypes_filled : ∃ files' r',
    (enrichFiles (Context.prepare {} [twoSupertypesFile]) [twoSupertypesFile]
      (Context.prepare {} [twoSupertypesFile]).resolver).Gives (files', r') ∧
    (files'.flatMap SourceFile.preorder).map Symbol.relations =
      [some twoSupertypes, none, none, none] ∧
    (({} : Builder).addFiles files').addInheritanceEdges.graph.pairs .inherits =
      [("home.dart#kind:class#name:Home", "home.dart#kind:class#name:Base")] := by
  have gives := Inquiry.gives_answer (fun _ => none)
    (enrichFiles (Context.prepare {} [twoSupertypesFile]) [twoSupertypesFile]
      (Context.prepare {} [twoSupertypesFile]).resolver)
  have filled : ((((enrichFiles (Context.prepare {} [twoSupertypesFile]) [twoSupertypesFile]
      (Context.prepare {} [twoSupertypesFile]).resolver).answer fun _ => none).1).flatMap
        SourceFile.preorder).map Symbol.relations = [some twoSupertypes, none, none, none] := by
    decide +kernel
  have joined : (({} : Builder).addFiles ((enrichFiles (Context.prepare {} [twoSupertypesFile])
      [twoSupertypesFile] (Context.prepare {} [twoSupertypesFile]).resolver).answer
        fun _ => none).1).addInheritanceEdges.graph.pairs .inherits =
      [("home.dart#kind:class#name:Home", "home.dart#kind:class#name:Base")] := by
    decide +kernel
  generalize (enrichFiles _ _ _).answer (fun _ => none) = outcome at gives filled joined
  obtain ⟨files', r'⟩ := outcome
  exact ⟨files', r', gives, filled, joined⟩

/-- The plain supertype leads to its own declaration, the other one to that of its argument. -/
theorem supertypes_resolve_to_base_twoSupertypes : ∃ files' r',
    (enrichFiles (Context.prepare {} [twoSupertypesFile]) [twoSupertypesFile]
      (Context.prepare {} [twoSupertypesFile]).resolver).Gives (files', r') ∧
    (files'.flatMap SourceFile.preorder).map Symbol.relations =
      [some twoSupertypes, none, none, none] ∧
    List.Forall₂ (SourceFile.Filled fun s s' => s.kind = .classDecl → s.relations = none →
      s'.relations = recordedRelations (Resolver.definitionsOf [twoSupertypesFile])
          (.ofFiles [twoSupertypesFile]) s ∧
        ∀ relations, s'.relations = some relations →
          ∀ reference, .resolved reference ∈ relations.targets →
            ∃ d, reference.ToBase (Resolver.definitionsOf [twoSupertypesFile]) d)
      [twoSupertypesFile] files' := by
  obtain ⟨files', r', gives, related, -⟩ := twoSupertypes_filled
  exact ⟨files', r', gives, related, supertypes_resolve_to_base {} _ _ files' r' gives⟩

/-- The superclass that has an argument is resolved to another class than the one that is extended:
its edge leads to the class of the bare name. -/
theorem generic_superclass_resolves_elsewhere : ∃ files' r',
    (enrichFiles (Context.prepare {} [twoSupertypesFile]) [twoSupertypesFile]
      (Context.prepare {} [twoSupertypesFile]).resolver).Gives (files', r') ∧
    (∃ s ∈ files'.flatMap SourceFile.preorder, ∃ relations reference d,
      s.relations = some relations ∧ relations.superclass = some (.resolved reference) ∧
        reference.definition = some d ∧
        d.name ≠ String.ofList (TypeName.bare reference.name.toList)) ∧
    (({} : Builder).addFiles files').addInheritanceEdges.graph.pairs .inherits =
      [("home.dart#kind:class#name:Home", "home.dart#kind:class#name:Base")] := by
  obtain ⟨files', r', gives, related, joined⟩ := twoSupertypes_filled
  refine ⟨files', r', gives, ?_, joined⟩
  have known : some twoSupertypes ∈ (files'.flatMap SourceFile.preorder).map Symbol.relations :=
    related ▸ List.mem_cons_self
  obtain ⟨s, hs, found⟩ := List.mem_map.mp known
  exact ⟨s, hs, twoSupertypes, _, _, found, rfl, rfl, by decide +kernel⟩

end Enrichment

end CodeAtlas
