import CodeAtlas.Proofs.Occurrences
import CodeAtlas.Proofs.Parents
import CodeAtlas.Proofs.Reads

/-!
What the edges of a graph join. The passes over symbols see no container: what they join are nodes
of symbols, of the kinds that the label asks for (`addEdges_fits`). Packages only add edges between
the ids of containers (`Typed.addPackages`), and where no name of a package holds the mark `#` these
ids belong to containers (`analysis_edges`).
-/
namespace CodeAtlas

/-- Whether an edge of the label may lead from a node of the first kind to one of the second. -/
def EdgeLabel.Joins : EdgeLabel → String → String → Prop
  | .calls, source, target =>
    source ∈ ["method", "function", "constructor"] ∧ target ∈ ["method", "function"]
  | .readsFrom, source, target =>
    source ∈ ["method", "function"] ∧ target ∉ ["method", "function"]
  | .inherits, _, target | .implements, _, target => target = "class"
  | .usesAsType, source, target => source ∈ [packageKind, projectKind] ∧ target = packageKind
  | .instanceOf, _, _ | .writesTo, _, _ | .passesAsArgument, _, _ => False

/-- The node of a symbol of the kind has the id. -/
def HasKind (nodes : List Node) (id : String) (kind : SymbolKind) : Prop :=
  ∃ n ∈ nodes, n.id = id ∧ n.kind = kind.name

theorem HasKind.mono {nodes nodes' : List Node} {id : String} {kind : SymbolKind}
    (h : HasKind nodes id kind) (more : nodes ⊆ nodes') : HasKind nodes' id kind := by
  obtain ⟨n, hn, same⟩ := h
  exact ⟨n, more hn, same⟩

/-- An edge joins symbols of the kinds for its label, or it is a dependency of a package, or of the
project, on a package. -/
inductive Edge.Fits (packages : List Package) (nodes : List Node) (e : Edge) : Prop where
  | symbols {source target : SymbolKind} (hasSource : HasKind nodes e.source source)
      (hasTarget : HasKind nodes e.target target) (joins : e.label.Joins source.name target.name)
  | dependency (label : e.label = .usesAsType)
      (source : e.source = projectId ∨ ∃ p ∈ packages, e.source = containerId p.name)
      (target : ∃ p ∈ packages, e.target = containerId p.name)

/-- Edges that fit still fit where every symbol has kept its id and kind. -/
theorem Edge.Fits.keep {packages : List Package} {nodes nodes' : List Node} {e : Edge}
    (h : e.Fits packages nodes)
    (keep : ∀ id kind, HasKind nodes id kind → HasKind nodes' id kind) :
    e.Fits packages nodes' := by
  cases h with
  | symbols hasSource hasTarget joins =>
    exact .symbols (keep _ _ hasSource) (keep _ _ hasTarget) joins
  | dependency label source target => exact .dependency label source target

/-- The kind of a node agrees with its id, and its origin is no package but the given ones. -/
structure Node.Fits (packages : List Package) (n : Node) : Prop where
  package : n.kind = packageKind → ∃ p ∈ packages, n.id = containerId p.name
  project : n.kind = projectKind → n.id = projectId
  origin : ∀ name, (n.data.origin.bind Origin.packageName) = some name →
    ∃ p ∈ packages, p.name = name

/-- All nodes and edges of the graph fit. -/
structure Graph.Typed (packages : List Package) (g : Graph) : Prop where
  nodes : ∀ n ∈ g.nodes, n.Fits packages
  edges : ∀ e ∈ g.edges, e.Fits packages g.nodes

theorem Graph.Typed.addNode {packages : List Package} {b : Builder} (h : b.graph.Typed packages)
    {n : Node} (fits : n.Fits packages) : (b.addNode n).2.graph.Typed packages := by
  unfold Builder.addNode
  split
  · exact h
  · refine ⟨List.forall_mem_append.mpr ⟨h.nodes, by simpa using fits⟩, fun e he => ?_⟩
    exact (h.edges e he).keep fun _ _ has => has.mono (List.subset_append_left _ _)

namespace Builder

theorem forall_edges_addEdge {b : Builder} {P : Edge → Prop} (h : ∀ e ∈ b.graph.edges, P e)
    {source target : String} {label : EdgeLabel} (new : ∀ id, P ⟨id, source, target, label⟩) :
    ∀ e ∈ (b.addEdge source target label).2.graph.edges, P e := by
  rcases addEdge_eq b source target label with same | pushed
  · rw [same]
    exact h
  · rw [pushed]
    exact List.forall_mem_append.mpr ⟨h, by simpa using new _⟩

/-! ## Edges between symbols -/

section Symbols

variable {vs : List Visit} {packages : List Package}

theorem hasKind_of_mem {n : Node} (hn : n ∈ (ofVisits vs).graph.nodes) :
    ∃ kind, n.kind = SymbolKind.name kind ∧ HasKind (ofVisits vs).graph.nodes n.id kind := by
  obtain ⟨v, -, hv⟩ := node_ofVisits hn
  have kind : n.kind = v.tree.symbol.kind.name := by
    rw [hv]
    rfl
  exact ⟨_, kind, n, hn, rfl, kind⟩

theorem hasKind_of_node? {id : String} {n : Node} (found : (ofVisits vs).node? id = some n) :
    ∃ kind, n.kind = SymbolKind.name kind ∧ HasKind (ofVisits vs).graph.nodes id kind := by
  obtain ⟨hn, rfl⟩ := (kept_ofVisits vs).node?_eq_some.mp found
  exact hasKind_of_mem hn

theorem hasKind_of_isOfKind {kinds : List String} {id : String}
    (h : (ofVisits vs).isOfKind kinds id = true) :
    ∃ kind, kind.name ∈ kinds ∧ HasKind (ofVisits vs).graph.nodes id kind := by
  obtain ⟨n, found, among⟩ := isOfKind_iff.mp h
  obtain ⟨kind, same, has⟩ := hasKind_of_node? found
  exact ⟨kind, same ▸ among, has⟩

theorem hasKind_of_seen {id : String} {v : Visit} (met : lastVisit? vs id = some v) :
    ∃ kind, HasKind (ofVisits vs).graph.nodes id kind := by
  have known : (ofVisits vs).hasNode id = true :=
    (kept_ofVisits vs).hasNode_iff.mpr (order_ofVisits vs ▸ mem_order_ofVisits.mpr ⟨v, met⟩)
  obtain ⟨n, found⟩ := (kept_ofVisits vs).hasNode_iff_node?.mp known
  obtain ⟨kind, -, has⟩ := hasKind_of_node? found
  exact ⟨kind, has⟩

/-- Inheritance leads from symbols to classes. -/
theorem addInheritanceEdges_fits :
    ∀ e ∈ (ofVisits vs).addInheritanceEdges.graph.edges,
      e.Fits packages (ofVisits vs).graph.nodes := by
  refine List.foldlRecOn (motive := fun b : Builder =>
    ∀ e ∈ b.graph.edges, e.Fits packages (ofVisits vs).graph.nodes) _ _ ?_ ?_
  · rw [edges_ofVisits]
    exact fun e he => absurd he List.not_mem_nil
  · rintro b h ⟨source, target, label⟩ planned
    obtain ⟨id, hid, planned⟩ := List.mem_flatMap.mp planned
    have inherited := label_of_inheritanceOf planned
    unfold inheritanceOf at planned
    split at planned
    · exact absurd planned List.not_mem_nil
    · obtain ⟨⟨related, given⟩, -, planned⟩ := List.mem_filterMap.mp planned
      obtain ⟨found, named, ends⟩ := Option.map_eq_some_iff.mp planned
      simp only [Prod.mk.injEq] at ends
      obtain ⟨rfl, rfl, rfl⟩ := ends
      obtain ⟨v, met⟩ := mem_order_ofVisits.mp hid
      obtain ⟨kind, hasSource⟩ := hasKind_of_seen met
      obtain ⟨n, first, rfl⟩ := Option.map_eq_some_iff.mp named
      have isClass : n.kind = SymbolKind.classDecl.name := by
        have := List.find?_some first
        simp only [Bool.and_eq_true, beq_iff_eq] at this
        exact this.1
      have hasTarget : HasKind (ofVisits vs).graph.nodes n.id .classDecl :=
        ⟨n, List.mem_of_find?_eq_some first, rfl, isClass⟩
      refine forall_edges_addEdge h fun _ => .symbols hasSource hasTarget ?_
      rcases inherited with same | same <;> rw [show given = _ from same] <;> rfl

/-- What a mention adds leads from a callable to what it calls or reads. -/
theorem addMention_fits {b b' : Builder} {readsFrom : Bool} {pair : String × String}
    (same : b.withoutEdges = (ofVisits vs).withoutEdges)
    (mentioned : pair ∈ (ofVisits vs).mentionPairs)
    (h : ∀ e ∈ b.graph.edges, e.Fits packages (ofVisits vs).graph.nodes)
    (gives : (addMention readsFrom b pair).Gives b') :
    ∀ e ∈ b'.graph.edges, e.Fits packages (ofVisits vs).graph.nodes := by
  obtain ⟨-, caller, -, w, -, met, -⟩ := mem_mentionPairs_ofVisits.mp mentioned
  have gives := addMention_gives gives
  rw [isOfKind_of_withoutEdges same] at gives
  rcases gives with ⟨callee, rfl⟩ | ⟨other, rfl | ⟨⟨references, confirmed⟩, rfl⟩⟩
  · obtain ⟨source, calls, hasSource⟩ := hasKind_of_isOfKind caller
    obtain ⟨target, called, hasTarget⟩ := hasKind_of_isOfKind callee
    exact forall_edges_addEdge h fun _ => .symbols hasSource hasTarget ⟨calls, called⟩
  · exact h
  · -- the source is the node that some reference is first inside of, so it is a method or function
    obtain ⟨l, -, first⟩ := List.any_eq_true.mp confirmed
    obtain ⟨before, n, after, nodes, spans, hid, -⟩ :=
      enclosing?_eq_some_iff.mp (eq_of_beq first)
    have hn : n ∈ (ofVisits vs).graph.nodes := by
      rw [← nodes_of_withoutEdges same, nodes]
      exact List.mem_append_right _ List.mem_cons_self
    obtain ⟨source, isSource, hasSource⟩ := hasKind_of_mem hn
    obtain ⟨m, found, unlike⟩ := (isOfKind_eq_false_iff met).mp other
    obtain ⟨target, isTarget, hasTarget⟩ := hasKind_of_node? found
    rw [hid] at hasSource
    refine forall_edges_addEdge h fun _ => .symbols hasSource hasTarget ⟨?_, ?_⟩
    · exact isSource ▸ spans.2.1
    · exact isTarget ▸ unlike

theorem addEdges_fits {b' : Builder} {readsFrom : Bool}
    (gives : ((ofVisits vs).addEdges readsFrom).Gives b') :
    ∀ e ∈ b'.graph.edges, e.Fits packages (ofVisits vs).graph.nodes := by
  have same := addInheritanceEdges_withoutEdges (ofVisits vs)
  have kept := Inquiry.gives_foldlM (P := fun b : Builder =>
    b.withoutEdges = (ofVisits vs).withoutEdges ∧
      ∀ e ∈ b.graph.edges, e.Fits packages (ofVisits vs).graph.nodes) _ ?_
    ⟨same, addInheritanceEdges_fits⟩ gives
  · exact kept.2
  · rintro b pair mentioned b' ⟨alike, h⟩ step
    rw [mentionPairs_of_withoutEdges same] at mentioned
    exact ⟨(addMention_withoutEdges step).trans alike, addMention_fits alike mentioned h step⟩

/-- A builder that was shown files and given edges has a graph that fits. -/
theorem addEdges_typed {b' : Builder} {readsFrom : Bool}
    (gives : ((ofVisits vs).addEdges readsFrom).Gives b') : b'.graph.Typed packages := by
  have nodes := nodes_of_withoutEdges (addEdges_withoutEdges gives)
  refine ⟨fun n hn => ?_, nodes ▸ addEdges_fits gives⟩
  obtain ⟨v, -, rfl⟩ := node_ofVisits (nodes ▸ hn)
  obtain ⟨no_package, no_project⟩ := v.tree.symbol.kind.name_ne_container
  exact ⟨fun h => absurd h no_package, fun h => absurd h no_project, nofun⟩

end Symbols

/-! ## Containers -/

section Packages

variable {packages : List Package} {b : Builder}

theorem container_fits {p : Package} (hp : p ∈ packages) : p.container.Fits packages where
  package _ := ⟨p, hp, rfl⟩
  project h := absurd h (show packageKind ≠ projectKind by decide)
  origin _ h := ⟨p, hp, Option.some.inj h⟩

theorem projectContainer_fits (label : String) : (projectContainer label).Fits packages where
  package h := absurd h (show projectKind ≠ packageKind by decide)
  project _ := rfl
  origin _ h := nomatch h

theorem assign_fits {n : Node} (h : n.Fits packages) : (b.assign packages n).Fits packages where
  package := by
    rw [assign_kind, assign_id]
    exact h.package
  project := by
    rw [assign_kind, assign_id]
    exact h.project
  origin name found := by
    unfold assign at found
    split at found
    · exact h.origin name found
    · refine originOf_packageName (?_ : (originOf n.data.fileId packages).packageName = some name)
      dsimp only at found
      split at found <;> exact found

theorem typed_addEdge (h : b.graph.Typed packages) {source target : String} {label : EdgeLabel}
    (fits : ∀ id, (⟨id, source, target, label⟩ : Edge).Fits packages b.graph.nodes) :
    (b.addEdge source target label).2.graph.Typed packages := by
  have nodes := nodes_of_withoutEdges (addEdge_withoutEdges b source target label)
  exact ⟨nodes ▸ h.nodes, nodes ▸ forall_edges_addEdge h.edges fits⟩

theorem typed_assignAll (h : b.graph.Typed packages) :
    (b.assignAll packages).graph.Typed packages := by
  refine ⟨List.forall_mem_map.mpr fun n hn => assign_fits (h.nodes n hn), fun e he => ?_⟩
  refine (h.edges e he).keep ?_
  rintro id kind ⟨n, hn, rfl, isKind⟩
  refine ⟨b.assign packages n, List.mem_map_of_mem hn, b.assign_id packages n, ?_⟩
  rw [assign_kind, isKind]

theorem packageOf?_known (h : b.graph.Typed packages) {id name : String}
    (found : b.packageOf? id = some name) : ∃ p ∈ packages, p.name = name := by
  obtain ⟨n, hn, named⟩ := Option.bind_eq_some_iff.mp found
  obtain ⟨i, -, at_place⟩ := Option.bind_eq_some_iff.mp hn
  exact (h.nodes n (List.mem_of_getElem? at_place)).origin name named

/-- A crossing leads to a given package, from another one or from the project. -/
theorem crossing?_known (h : b.graph.Typed packages) {e : Edge}
    {crossing : Option String × String} (found : b.crossing? e = some crossing) :
    (∀ name, crossing.1 = some name → ∃ p ∈ packages, p.name = name) ∧
      ∃ p ∈ packages, p.name = crossing.2 := by
  unfold crossing? at found
  split at found
  · cases found
  · rename_i target reached
    dsimp only at found
    split at found
    · cases found
    · obtain rfl := Option.some.inj found
      exact ⟨fun name left => packageOf?_known h left, packageOf?_known h reached⟩

theorem typed_join (h : b.graph.Typed packages) (label : String)
    {crossing : Option String × String}
    (source : ∀ name, crossing.1 = some name → ∃ p ∈ packages, p.name = name)
    (target : ∃ p ∈ packages, p.name = crossing.2) :
    (join label b crossing).graph.Typed packages := by
  obtain ⟨reached, hr, named⟩ := target
  have reaches : ∃ p ∈ packages, containerId crossing.2 = containerId p.name :=
    ⟨reached, hr, by rw [named]⟩
  unfold join
  dsimp only
  split
  · cases hc : crossing.1 with
    | some name =>
      obtain ⟨p, hp, rfl⟩ := source name hc
      exact typed_addEdge h fun _ => .dependency rfl (.inr ⟨p, hp, rfl⟩) reaches
    | none =>
      have added := h.addNode (projectContainer_fits label)
      exact typed_addEdge added fun _ => .dependency rfl (.inl rfl) reaches
  · exact h

theorem typed_addPackages (h : b.graph.Typed packages) (f : Filters) (label : String) :
    (b.addPackages packages f label).graph.Typed packages := by
  unfold addPackages
  split
  · exact h
  · have containers : ((relevantPackages packages f).foldl
        (fun b p => (b.addNode (Package.container p)).2) b).graph.Typed packages := by
      refine List.foldlRecOn (motive := fun b : Builder => b.graph.Typed packages) _ _ h ?_
      intro b h p hp
      exact h.addNode (container_fits (List.mem_filter.mp hp).1)
    have assigned := typed_assignAll containers
    refine List.foldlRecOn (motive := fun b : Builder => b.graph.Typed packages) _ _ assigned ?_
    intro b h crossing hc
    obtain ⟨e, -, found⟩ := List.mem_filterMap.mp hc
    obtain ⟨source, target⟩ := crossing?_known assigned found
    exact typed_join h label source target

end Packages

end Builder

/-! ## A whole analysis -/

theorem Graph.pairs_withDegrees (g : Graph) (label : EdgeLabel) :
    g.withDegrees.pairs label = g.pairs label := rfl

theorem Graph.Typed.withDegrees {packages : List Package} {g : Graph} (h : g.Typed packages) :
    g.withDegrees.Typed packages := by
  have same := g.nodes_withDegrees
  refine ⟨fun n hn => ?_, fun e he => (h.edges e he).keep ?_⟩
  · have hm : n.withoutDegrees ∈ g.nodes.map Node.withoutDegrees :=
      same ▸ List.mem_map_of_mem hn
    obtain ⟨m, hm, alike⟩ := List.mem_map.mp hm
    have fits : m.withoutDegrees.Fits packages := { h.nodes m hm with }
    rw [alike] at fits
    exact { fits with }
  · rintro id kind ⟨n, hn, rfl, isKind⟩
    have hm : n.withoutDegrees ∈ g.withDegrees.nodes.map Node.withoutDegrees :=
      same ▸ List.mem_map_of_mem hn
    obtain ⟨m, hm, alike⟩ := List.mem_map.mp hm
    refine ⟨m, hm, ?_, ?_⟩
    · exact (congrArg Node.id alike :)
    · exact (congrArg Node.kind alike :).trans isKind

theorem graphOfFiles_typed {c : Config} {root : Option String} {packages : List Package}
    {files external : List SourceFile} {g : Graph}
    (h : (graphOfFiles c root packages files external).Gives g) : g.Typed packages := by
  obtain ⟨b, edges, last⟩ := Inquiry.gives_bind.mp h
  obtain rfl := Inquiry.gives_pure.mp last
  have shown : (({} : Builder).addFiles files).addFiles external = .ofFiles [files, external] := rfl
  rw [shown, Builder.ofFiles_eq] at edges
  have linked : b.graph.Typed packages := Builder.addEdges_typed edges
  split
  · exact linked.withDegrees
  · exact (Builder.typed_addPackages linked c.filters (projectLabel root)).withDegrees

theorem containerId_ne_projectId (name : String) : containerId name ≠ projectId := by
  intro h
  have h := congrArg String.toList h
  simp [containerId, packageKind, projectId, String.toList_append] at h

section Containers

variable {packages : List Package} {g : Graph} {n : Node}

/-- A node whose id is without the mark is a container. -/
theorem container_of_unmarked (nested : Nested packages g.nodes) (hn : n ∈ g.nodes)
    (unmarked : '#' ∉ n.id.toList) : n.kind = packageKind ∨ n.kind = projectKind := by
  have container : n.isContainer = true :=
    Bool.of_not_eq_false fun other => unmarked (nested.marked n hn other)
  simpa [Node.isContainer] using container

theorem kind_of_projectId (typed : g.Typed packages) (nested : Nested packages g.nodes)
    (hn : n ∈ g.nodes) (hid : n.id = projectId) : n.kind = projectKind := by
  have unmarked : '#' ∉ n.id.toList := by
    rw [hid]
    decide
  rcases container_of_unmarked nested hn unmarked with kind | kind
  · obtain ⟨p, -, other⟩ := (typed.nodes n hn).package kind
    exact absurd (other.symm.trans hid) (containerId_ne_projectId p.name)
  · exact kind

theorem kind_of_containerId (typed : g.Typed packages) (nested : Nested packages g.nodes)
    (hn : n ∈ g.nodes) {name : String} (hid : n.id = containerId name)
    (plain : '#' ∉ name.toList) : n.kind = packageKind := by
  have unmarked : '#' ∉ n.id.toList := by
    rw [hid]
    exact containerId_unmarked plain
  rcases container_of_unmarked nested hn unmarked with kind | kind
  · exact kind
  · have other := (typed.nodes n hn).project kind
    exact absurd (hid.symm.trans other) (containerId_ne_projectId name)

end Containers

theorem EdgeLabel.Joins.among {label : EdgeLabel} {source target : String}
    (h : label.Joins source target) :
    label ∈ [.calls, .readsFrom, .inherits, .implements, .usesAsType] := by
  cases label <;> simp_all [EdgeLabel.Joins]

theorem Node.isContainer_of_kind {n : Node} {kind : SymbolKind} (h : n.kind = kind.name) :
    n.isContainer = false := by
  obtain ⟨no_package, no_project⟩ := kind.name_ne_container
  simp [Node.isContainer, h, no_package, no_project]

/-- Whatever a service answers, and if no name of a package holds the mark `#`: the edges of an
analysis are calls, reads, inheritance, implementations and dependencies. Their ends are nodes of
the kinds that the label asks for: calls lead from methods, functions and constructors to methods
and functions; reads lead from methods and functions to what is neither; inheritance and
implementations end in classes; dependencies lead from the container of a package or of the project
to that of a package. No other edge starts or ends at a container. -/
theorem analysis_edges (disk : Disk) (config : Config) (root : Option String)
    (given : List GivenFile) (a : Analysis)
    (h : (analyze disk config root given).Gives (.ok a))
    (plain : ∀ p ∈ a.packages, '#' ∉ p.name.toList) :
    ∀ e ∈ a.graph.edges,
      e.label ∈ [.calls, .readsFrom, .inherits, .implements, .usesAsType] ∧
      ∃ source target, a.graph.node? e.source = some source ∧
        a.graph.node? e.target = some target ∧ e.label.Joins source.kind target.kind ∧
        (e.label ≠ .usesAsType → source.isContainer = false ∧ target.isContainer = false) := by
  obtain ⟨-, files, external, built⟩ := analyzeSound_graph (analyzeSound_of_ok h)
  have typed := graphOfFiles_typed built
  obtain ⟨b, orderly, hg⟩ := graphOfFiles_orderly built
  obtain ⟨nested, ids⟩ := orderly.withDegrees
  rw [← hg] at nested ids
  have found : ∀ n ∈ a.graph.nodes, a.graph.node? n.id = some n :=
    fun n hn => Graph.node?_of_nodup (ids ▸ orderly.kept.ids_nodup) hn
  intro e he
  cases typed.edges e he with
  | symbols hasSource hasTarget joins =>
    obtain ⟨source, hs, sourceId, sourceKind⟩ := hasSource
    obtain ⟨target, ht, targetId, targetKind⟩ := hasTarget
    refine ⟨joins.among, source, target, sourceId ▸ found source hs, targetId ▸ found target ht,
      sourceKind ▸ targetKind ▸ joins, fun _ => ?_⟩
    exact ⟨Node.isContainer_of_kind sourceKind, Node.isContainer_of_kind targetKind⟩
  | dependency label left reached =>
    -- both ends are ids of containers, and nodes have these ids
    have ends := orderly.kept.ends_known e (by rwa [hg] at he)
    rw [← ids] at ends
    obtain ⟨source, hs, sourceId⟩ := List.mem_map.mp ends.1
    obtain ⟨target, ht, targetId⟩ := List.mem_map.mp ends.2
    have targetKind : target.kind = packageKind := by
      obtain ⟨p, hp, container⟩ := reached
      exact kind_of_containerId typed nested ht (targetId.trans container) (plain p hp)
    have sourceKind : source.kind ∈ [packageKind, projectKind] := by
      rcases left with project | ⟨p, hp, container⟩
      · rw [kind_of_projectId typed nested hs (sourceId.trans project)]
        decide
      · rw [kind_of_containerId typed nested hs (sourceId.trans container) (plain p hp)]
        decide
    rw [label]
    refine ⟨by decide, source, target, sourceId ▸ found source hs, targetId ▸ found target ht,
      ⟨sourceKind, targetKind⟩, fun other => absurd rfl other⟩

/-- The analysis of the project, where the service always fails: one call, and the dependency that
follows from it. -/
theorem analysis_edges_toys :
    ∃ a, (analyze toyDisk {} (some "/app") playAndWind).Gives (.ok a) ∧
      a.packages = [toyPackage] ∧
      (a.graph.edges.map fun e => (e.source, e.target, e.label)) =
        [("/app/play.dart#kind:func#name:play", "/toys/wind.dart#kind:func#name:wind", .calls),
          ("project_root", "package_container:toys", .usesAsType)] ∧
      ∀ e ∈ a.graph.edges, ∃ source target, a.graph.node? e.source = some source ∧
        a.graph.node? e.target = some target ∧ e.label.Joins source.kind target.kind := by
  have packages : wantedPackages toyDisk {} (some "/app") = [toyPackage] := toyDisk_packages
  have sound := Inquiry.gives_answer (fun _ => none)
    (analyzeSound toyDisk {} (some "/app") playAndWind)
  have gives : (analyze toyDisk {} (some "/app") playAndWind).Gives (.ok _) :=
    Inquiry.gives_bind.mpr ⟨_, sound, .done _⟩
  have listed := (analyzeSound_graph sound).1.trans packages
  refine ⟨_, gives, listed, ?_, fun e he => ?_⟩
  · simp only [analyzeSound, analyzeLoaded]
    rw [packages]
    decide +kernel
  · have plain : ∀ p ∈ [toyPackage], '#' ∉ p.name.toList := by decide
    obtain ⟨-, source, target, hs, ht, joins, -⟩ :=
      analysis_edges toyDisk {} (some "/app") playAndWind _ gives (listed ▸ plain) e he
    exact ⟨source, target, hs, ht, joins⟩

end CodeAtlas
