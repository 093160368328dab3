import CodeAtlas.Analysis
import CodeAtlas.Proofs.Calls
import CodeAtlas.Proofs.Degrees
import CodeAtlas.Proofs.Owners
import Mathlib

/-!
Parents in the graph of an analysis. A visit puts a node under one that stands before it, and a
package takes nodes under its container, which stands behind them but has no parent of its own. So
the nodes are `Nested` all along. Containers and symbols are told apart by their ids, as those of
symbols hold the mark `#` that names of packages lack; then following parents goes towards the front
of the list until it ends, at once where it meets a container (`Nested.rooted`).
-/
namespace CodeAtlas

/-- Following parents from the node leads to a node without one. -/
inductive Graph.Rooted (g : Graph) : Node → Prop where
  | free {n : Node} (h : n.parent = none) : Rooted g n
  | under {n m : Node} {id : String} (named : n.parent = some id) (found : g.node? id = some m)
      (above : Rooted g m) : Rooted g n

/-- Containers are free, other nodes have the mark `#` in their ids, and a parent is a node: one that
stands before, or one that has the id of a package's container. -/
structure Nested (packages : List Package) (nodes : List Node) : Prop where
  free : ∀ n ∈ nodes, n.isContainer = true → n.parent = none
  marked : ∀ n ∈ nodes, n.isContainer = false → '#' ∈ n.id.toList
  known : ∀ n ∈ nodes, ∀ p, n.parent = some p → p ∈ nodes.map Node.id
  inside : ∀ i n p, nodes[i]? = some n → n.parent = some p →
    p ∈ (nodes.take i).map Node.id ∨ ∃ q ∈ packages, p = containerId q.name

namespace Nested

variable {packages : List Package} {nodes : List Node}

theorem nil : Nested packages [] where
  free := by simp
  marked := by simp
  known := by simp
  inside := by simp

theorem concat (h : Nested packages nodes) {n : Node}
    (free : n.isContainer = true → n.parent = none)
    (marked : n.isContainer = false → '#' ∈ n.id.toList)
    (known : ∀ p, n.parent = some p → p ∈ nodes.map Node.id) :
    Nested packages (nodes ++ [n]) where
  free m hm := by
    rcases List.mem_append.mp hm with hm | hm
    · exact h.free m hm
    · exact List.mem_singleton.mp hm ▸ free
  marked m hm := by
    rcases List.mem_append.mp hm with hm | hm
    · exact h.marked m hm
    · exact List.mem_singleton.mp hm ▸ marked
  known m hm p hp := by
    rw [List.map_append]
    rcases List.mem_append.mp hm with hm | hm
    · exact List.mem_append_left _ (h.known m hm p hp)
    · exact List.mem_append_left _ (known p (List.mem_singleton.mp hm ▸ hp))
  inside i m p hm hp := by
    rcases Builder.getElem?_concat_eq_some.mp hm with hm | ⟨rfl, rfl⟩
    · rw [List.take_append_of_le_length (Nat.le_of_lt (List.getElem?_eq_some_iff.mp hm).1)]
      exact h.inside i m p hm hp
    · rw [List.take_left]
      exact .inl (known p hp)

/-- Changes to nodes that leave ids and kinds alone, and parents too, unless it is to put a symbol
into the container of a package. -/
theorem map (h : Nested packages nodes) {f : Node → Node} (id_eq : ∀ n, (f n).id = n.id)
    (kind_eq : ∀ n, (f n).kind = n.kind)
    (parent : ∀ n ∈ nodes, (f n).parent = n.parent ∨ n.isContainer = false ∧
      ∃ q ∈ packages, (f n).parent = some (containerId q.name) ∧
        containerId q.name ∈ nodes.map Node.id) :
    Nested packages (nodes.map f) := by
  have ids : ∀ l : List Node, (l.map f).map Node.id = l.map Node.id := by
    intro l
    rw [List.map_map]
    exact List.map_congr_left fun n _ => id_eq n
  have container : ∀ n, (f n).isContainer = n.isContainer := by
    intro n
    rw [Node.isContainer, kind_eq, Node.isContainer]
  refine ⟨?_, ?_, ?_, ?_⟩
  · rw [List.forall_mem_map]
    intro n hn hc
    rw [container] at hc
    rcases parent n hn with same | ⟨other, -⟩
    · exact same.trans (h.free n hn hc)
    · exact absurd (hc.symm.trans other) (by decide)
  · rw [List.forall_mem_map]
    intro n hn hc
    rw [container] at hc
    exact id_eq n ▸ h.marked n hn hc
  · rw [List.forall_mem_map, ids]
    intro n hn p hp
    rcases parent n hn with same | ⟨-, q, -, moved, there⟩
    · exact h.known n hn p (same ▸ hp)
    · exact Option.some.inj (moved.symm.trans hp) ▸ there
  · intro i n' p at_place hp
    rw [List.getElem?_map] at at_place
    obtain ⟨n, hn, rfl⟩ := Option.map_eq_some_iff.mp at_place
    rw [← List.map_take, ids]
    rcases parent n (List.mem_of_getElem? hn) with same | ⟨-, q, hq, moved, -⟩
    · exact h.inside i n p hn (same ▸ hp)
    · exact .inr ⟨q, hq, Option.some.inj (hp.symm.trans moved)⟩

end Nested

/-! ## From nested nodes to rooted ones -/

theorem Graph.node?_of_nodup {g : Graph} (unique : (g.nodes.map Node.id).Nodup) {n : Node}
    (hn : n ∈ g.nodes) : g.node? n.id = some n := by
  have found : (g.node? n.id).isSome := by
    rw [Graph.node?, List.find?_isSome]
    exact ⟨n, hn, beq_self_eq_true _⟩
  obtain ⟨m, hm⟩ := Option.isSome_iff_exists.mp found
  have same : m.id = n.id := eq_of_beq (List.find?_some hm :)
  rw [hm, List.inj_on_of_nodup_map unique (List.mem_of_find?_eq_some hm) hn same]

theorem containerId_unmarked {name : String} (h : '#' ∉ name.toList) :
    '#' ∉ (containerId name).toList := by
  simp only [containerId, packageKind, String.toList_append, List.mem_append, not_or]
  exact ⟨⟨by decide, by decide⟩, h⟩

/-- A node without the mark is a container, and so it has no parent. -/
theorem Nested.free_of_unmarked {packages : List Package} {nodes : List Node}
    (h : Nested packages nodes) {n : Node} (hn : n ∈ nodes) (unmarked : '#' ∉ n.id.toList) :
    n.parent = none := by
  refine h.free n hn (Bool.of_not_eq_false fun other => ?_)
  exact unmarked (h.marked n hn other)

/-- Where names of packages are without the mark `#`, parents lead to a node without one. -/
theorem Nested.rooted {packages : List Package} {g : Graph} (h : Nested packages g.nodes)
    (unique : (g.nodes.map Node.id).Nodup) (plain : ∀ q ∈ packages, '#' ∉ q.name.toList) :
    ∀ n ∈ g.nodes, g.Rooted n := by
  suffices ∀ (i : Nat) (n : Node), g.nodes[i]? = some n → g.Rooted n by
    intro n hn
    obtain ⟨i, hi⟩ := List.mem_iff_getElem?.mp hn
    exact this i n hi
  intro i
  -- by the position: a parent stands before its node, or it ends the way
  induction i using Nat.strongRecOn with
  | ind i ih =>
    intro n hn
    cases hp : n.parent with
    | none => exact .free hp
    | some p =>
      have hn' := List.mem_of_getElem? hn
      rcases h.inside i n p hn hp with before | ⟨q, hq, rfl⟩
      · obtain ⟨m, hm, rfl⟩ := List.mem_map.mp before
        obtain ⟨j, hj⟩ := List.mem_iff_getElem?.mp hm
        obtain ⟨earlier, at_place⟩ : j < i ∧ g.nodes[j]? = some m := by
          simpa [List.getElem?_take] using hj
        have found := Graph.node?_of_nodup unique (List.mem_of_getElem? at_place)
        exact .under hp found (ih j earlier m at_place)
      · obtain ⟨m, hm, hid⟩ := List.mem_map.mp (h.known n hn' _ hp)
        have found := Graph.node?_of_nodup unique hm
        have unmarked : '#' ∉ m.id.toList := hid ▸ containerId_unmarked (plain q hq)
        exact .under hp (hid ▸ found) (.free (h.free_of_unmarked hm unmarked))

/-- A graph in which parents and ends of edges are nodes has nothing reported about it. -/
theorem Graph.report_eq_empty {g : Graph}
    (parents : ∀ n ∈ g.nodes, ∀ p, n.parent = some p → g.hasNode p = true)
    (ends : ∀ e ∈ g.edges, g.hasNode e.source = true ∧ g.hasNode e.target = true) :
    g.report = {} := by
  have none_found : g.findings = [] := by
    refine List.append_eq_nil_iff.mpr ⟨?_, ?_⟩
    · refine List.filterMap_eq_nil_iff.mpr fun n hn => ?_
      rw [Option.map_eq_none_iff, Option.filter_eq_none_iff]
      intro p hp
      simp [parents n hn p hp]
    · refine List.flatMap_eq_nil_iff.mpr fun e he => ?_
      simp [ends e he]
  rw [Graph.report, none_found]
  rfl

/-! ## Visits -/

theorem nodeId_marked (s : Symbol) (container : Option String) :
    '#' ∈ (nodeId s container).toList := by
  cases container <;> simp [nodeId, String.toList_append]

theorem SymbolKind.name_ne_container (k : SymbolKind) :
    k.name ≠ packageKind ∧ k.name ≠ projectKind := by
  cases k with
  | other code =>
    refine ⟨fun h => ?_, fun h => ?_⟩ <;> have h := congrArg String.toList h <;>
      simp [SymbolKind.name, packageKind, projectKind, String.toList_append] at h
  | _ => decide

namespace Builder

theorem nodeOf_isContainer (t : SymbolTree) (f : SourceFile) (id : String)
    (enclosing : Option Enclosing) : (nodeOf t f id enclosing).isContainer = false := by
  obtain ⟨no_package, no_project⟩ := t.symbol.kind.name_ne_container
  simp [Node.isContainer, nodeOf, no_package, no_project]

theorem visit_ids (b : Builder) (t : SymbolTree) (f : SourceFile) (enclosing : Option Enclosing)
    (kept : b.Kept) :
    nodeId t.symbol (enclosing.map Enclosing.name) ∈ (b.visit t f enclosing).ids := by
  by_cases hn : b.hasNode (nodeId t.symbol (enclosing.map Enclosing.name)) = true
  · rw [visit_of_known hn]
    exact kept.hasNode_iff.mp hn
  · rw [visit_of_new hn]
    show _ ∈ (b.pushNode _).ids
    rw [pushNode_ids]
    exact List.mem_append_right _ (List.mem_singleton.mpr rfl)

/-- The books are kept and the nodes are nested. -/
structure Orderly (packages : List Package) (b : Builder) : Prop where
  kept : b.Kept
  nested : Nested packages b.graph.nodes

variable {packages : List Package} {b : Builder}

theorem Orderly.visit (h : Orderly packages b) (t : SymbolTree) (f : SourceFile)
    {enclosing : Option Enclosing} (known : ∀ e, enclosing = some e → e.nodeId ∈ b.ids) :
    Orderly packages (b.visit t f enclosing) := by
  refine ⟨(Grows.visit b t f enclosing).kept h.kept, ?_⟩
  by_cases hn : b.hasNode (nodeId t.symbol (enclosing.map Enclosing.name)) = true
  · rw [visit_of_known hn]
    exact h.nested
  · rw [visit_of_new hn]
    refine h.nested.concat (fun container => ?_) (fun _ => nodeId_marked _ _) fun p hp => ?_
    · rw [nodeOf_isContainer] at container
      cases container
    · obtain ⟨e, he, rfl⟩ := Option.map_eq_some_iff.mp hp
      exact known e he

mutual

theorem Orderly.addTree (f : SourceFile) {enclosing : Option Enclosing} : ∀ (t : SymbolTree)
    {b : Builder}, Orderly packages b → (∀ e, enclosing = some e → e.nodeId ∈ b.ids) →
      Orderly packages (b.addTree f enclosing t)
  | ⟨s, children⟩, b, h, known => by
    rw [Builder.addTree]
    refine Orderly.addTrees f children (h.visit ⟨s, children⟩ f known) fun e he => ?_
    -- the children are inside of the symbol, which has its node by now, or of what it is inside of
    unfold within at he
    split at he
    · obtain rfl := Option.some.inj he
      exact visit_ids b ⟨s, children⟩ f enclosing h.kept
    · exact (Grows.visit b ⟨s, children⟩ f enclosing).ids.subset (known e he)

theorem Orderly.addTrees (f : SourceFile) {enclosing : Option Enclosing} :
    ∀ (trees : List SymbolTree) {b : Builder}, Orderly packages b →
      (∀ e, enclosing = some e → e.nodeId ∈ b.ids) →
      Orderly packages (b.addTrees f enclosing trees)
  | [], b, h, _ => by
    rw [Builder.addTrees]
    exact h
  | t :: rest, b, h, known => by
    rw [Builder.addTrees]
    refine Orderly.addTrees f rest (Orderly.addTree f t h known) fun e he => ?_
    exact (Grows.addTree f enclosing b t).ids.subset (known e he)

end

theorem Orderly.addFiles (h : Orderly packages b) (files : List SourceFile) :
    Orderly packages (b.addFiles files) :=
  List.foldlRecOn files addFile h fun _ h f _ => Orderly.addTrees f f.symbols h nofun

/-! ## Edges and containers -/

theorem Orderly.of_withoutEdges (h : Orderly packages b) {b' : Builder} (grows : Grows b b')
    (same : b'.withoutEdges = b.withoutEdges) : Orderly packages b' := by
  refine ⟨grows.kept h.kept, ?_⟩
  rw [nodes_of_withoutEdges same]
  exact h.nested

theorem Orderly.addEdge (h : Orderly packages b) (source target : String) (label : EdgeLabel) :
    Orderly packages (b.addEdge source target label).2 :=
  h.of_withoutEdges (.addEdge b source target label) (addEdge_withoutEdges b source target label)

theorem Orderly.addEdges (h : Orderly packages b) {readsFrom : Bool} {b' : Builder}
    (gives : (b.addEdges readsFrom).Gives b') : Orderly packages b' :=
  h.of_withoutEdges (.addEdges gives) (addEdges_withoutEdges gives)

theorem Orderly.addContainer (h : Orderly packages b) {n : Node} (container : n.isContainer = true)
    (free : n.parent = none) : Orderly packages (b.addNode n).2 := by
  refine ⟨(Grows.addNode b n).kept h.kept, ?_⟩
  unfold addNode
  split
  · exact h.nested
  · refine h.nested.concat (fun _ => free) (fun other => ?_) fun p hp => ?_
    · rw [container] at other
      cases other
    · rw [free] at hp
      cases hp

end Builder

/-! ## Origins -/

theorem originOf_packageName {fileId name : String} {packages : List Package}
    (h : (originOf fileId packages).packageName = some name) :
    ∃ q ∈ packages, q.name = name := by
  unfold originOf at h
  split at h
  · cases h
  · split at h
    · cases h
    · split at h
      · cases h
      · rename_i q owner
        exact ⟨q, (owns_of_owner? owner).listed, Option.some.inj h⟩

namespace Builder

variable {packages : List Package} {b : Builder}

theorem assign_kind (b : Builder) (packages : List Package) (n : Node) :
    (b.assign packages n).kind = n.kind := by
  unfold assign
  split
  · rfl
  · dsimp only
    split <;> rfl

/-- A node keeps its parent, or it is one of a symbol and gets the container of a package. -/
theorem assign_parent (kept : b.Kept) (packages : List Package) (n : Node) :
    (b.assign packages n).parent = n.parent ∨ n.isContainer = false ∧
      ∃ q ∈ packages, (b.assign packages n).parent = some (containerId q.name) ∧
        containerId q.name ∈ b.ids := by
  unfold assign
  split
  · exact .inl rfl
  · rename_i other
    dsimp only
    split
    · exact .inl rfl
    · exact .inl rfl
    · cases hc : ((originOf n.data.fileId packages).packageName.map containerId).filter
        b.hasNode with
      | none => exact .inl rfl
      | some id =>
        obtain ⟨named, there⟩ := Option.filter_eq_some_iff.mp hc
        obtain ⟨name, from_package, rfl⟩ := Option.map_eq_some_iff.mp named
        obtain ⟨q, hq, rfl⟩ := originOf_packageName from_package
        exact .inr ⟨Bool.eq_false_iff.mpr other, q, hq, rfl, kept.hasNode_iff.mp there⟩

theorem Orderly.assignAll (h : Orderly packages b) : Orderly packages (b.assignAll packages) where
  kept := (Grows.assignAll b packages).kept h.kept
  nested := h.nested.map (b.assign_id packages) (b.assign_kind packages)
    fun n _ => assign_parent h.kept packages n

theorem Orderly.join (h : Orderly packages b) (label : String)
    (crossing : Option String × String) : Orderly packages (join label b crossing) := by
  unfold Builder.join
  dsimp only
  split
  · cases crossing.1 with
    | some source => exact h.addEdge _ _ _
    | none => exact (h.addContainer rfl rfl).addEdge _ _ _
  · exact h

theorem Orderly.addPackages (h : Orderly packages b) (f : Filters) (label : String) :
    Orderly packages (b.addPackages packages f label) := by
  unfold Builder.addPackages
  split
  · exact h
  · have containers := List.foldlRecOn (motive := Orderly packages) (relevantPackages packages f)
      (fun b p => (b.addNode (Package.container p)).2) h
      fun _ h _ _ => h.addContainer rfl rfl
    exact List.foldlRecOn (motive := Orderly packages) _ (Builder.join label)
      containers.assignAll
      fun _ h crossing _ => h.join label crossing

-- the container comes behind the nodes that it takes
example :
    let file : SourceFile := ⟨"/toys/lib/a.dart", "",
      [⟨Symbol.ofName "Toy" .classDecl "/toys/lib/a.dart",
        [⟨Symbol.ofName "wind" .method "/toys/lib/a.dart", []⟩]⟩]⟩
    let toys : Package := ⟨"toys", "/toys", "1.0.0", .thirdParty, [], true, false, none⟩
    (((({} : Builder).addFiles [file]).addPackages [toys] {} "app").graph.nodes.map fun n =>
      (n.id, n.parent)) =
      [("/toys/lib/a.dart#kind:class#name:Toy", some "package_container:toys"),
        ("/toys/lib/a.dart#parent:Toy#kind:method#name:wind", some "package_container:toys"),
        ("package_container:toys", none)] := by
  decide +kernel

end Builder

/-! ## A whole analysis -/

/-- Degrees change neither parents nor ids. -/
theorem Builder.Orderly.withDegrees {packages : List Package} {b : Builder}
    (h : b.Orderly packages) :
    Nested packages b.graph.withDegrees.nodes ∧ b.graph.withDegrees.nodes.map Node.id = b.ids := by
  rw [b.graph.nodes_withDegrees_of_nodup h.kept.ids_nodup]
  refine ⟨h.nested.map (fun _ => rfl) (fun _ => rfl) fun _ _ => .inl rfl, ?_⟩
  rw [List.map_map]
  rfl

theorem graphOfFiles_orderly {c : Config} {root : Option String} {packages : List Package}
    {files external : List SourceFile} {g : Graph}
    (h : (graphOfFiles c root packages files external).Gives g) :
    ∃ b : Builder, b.Orderly packages ∧ g = b.graph.withDegrees := by
  obtain ⟨b, edges, last⟩ := Inquiry.gives_bind.mp h
  have start : ({} : Builder).Orderly packages := ⟨Builder.empty_kept, .nil⟩
  have linked := ((start.addFiles files).addFiles external).addEdges edges
  refine ⟨_, ?_, Inquiry.gives_pure.mp last⟩
  split
  · exact linked
  · exact linked.addPackages c.filters (projectLabel root)

/-- How an analysis with a sound configuration comes about. -/
structure AnalysisRun (disk : Disk) (config : Config) (root : Option String)
    (given : List GivenFile) (loaded external : List SourceFile) (resolver : Resolver)
    (a : Analysis) : Prop where
  loads : (given.mapM GivenFile.load).Gives loaded
  fillsIn : (fillIn (({ config } : Context).prepare loaded) loaded
    (({ config } : Context).prepare loaded).resolver).Gives (a.files, resolver)
  packages : a.packages = wantedPackages disk config root
  builds : (graphOfFiles config root a.packages a.files external).Gives a.graph
  report : a.report = (filesReport a.files).merge a.graph.report
  flows : a.flows = a.graph.dataFlows config.limits.hops

theorem analyzeLoaded_run {disk : Disk} {config : Config} {root : Option String}
    {given : List GivenFile} {loaded : List SourceFile} {a : Analysis}
    (loads : (given.mapM GivenFile.load).Gives loaded)
    (h : (analyzeLoaded disk config root loaded).Gives a) :
    ∃ external resolver, AnalysisRun disk config root given loaded external resolver a := by
  obtain ⟨⟨files, resolver⟩, fillsIn, h⟩ := Inquiry.gives_bind.mp h
  obtain ⟨external, -, h⟩ := Inquiry.gives_bind.mp h
  obtain ⟨⟨external, _⟩, -, h⟩ := Inquiry.gives_bind.mp h
  obtain ⟨graph, builds, h⟩ := Inquiry.gives_bind.mp h
  obtain rfl := Inquiry.gives_pure.mp h
  exact ⟨external, resolver, loads, fillsIn, rfl, builds, rfl, rfl⟩

theorem analyzeSound_run {disk : Disk} {config : Config} {root : Option String}
    {given : List GivenFile} {a : Analysis} (h : (analyzeSound disk config root given).Gives a) :
    ∃ loaded external resolver,
      AnalysisRun disk config root given loaded external resolver a := by
  obtain ⟨loaded, loads, h⟩ := Inquiry.gives_bind.mp h
  exact ⟨loaded, analyzeLoaded_run loads h⟩

/-- An analysis lists the packages of its project, and its graph is that of some files and them. -/
theorem analyzeSound_graph {disk : Disk} {config : Config} {root : Option String}
    {given : List GivenFile} {a : Analysis} (h : (analyzeSound disk config root given).Gives a) :
    a.packages = wantedPackages disk config root ∧
      ∃ files external, (graphOfFiles config root a.packages files external).Gives a.graph := by
  obtain ⟨loaded, external, resolver, run⟩ := analyzeSound_run h
  exact ⟨run.packages, a.files, external, run.builds⟩

theorem analyzeSound_of_ok {disk : Disk} {config : Config} {root : Option String}
    {given : List GivenFile} {a : Analysis}
    (h : (analyze disk config root given).Gives (.ok a)) :
    (analyzeSound disk config root given).Gives a := by
  unfold analyze at h
  split at h
  · cases Inquiry.gives_pure.mp h
  · obtain ⟨a', sound, same⟩ := Inquiry.gives_bind.mp h
    cases Inquiry.gives_pure.mp same
    exact sound

theorem fault?_of_ok {disk : Disk} {config : Config} {root : Option String}
    {given : List GivenFile} {a : Analysis}
    (h : (analyze disk config root given).Gives (.ok a)) : config.fault? = none := by
  unfold analyze at h
  split at h
  · cases Inquiry.gives_pure.mp h
  · assumption

/-- Whatever a service answers, nothing is reported about the graph of an analysis: the ends of its
edges and the parents of its nodes are nodes. Containers have no parent, and from every node parents
lead to one without a parent if no name of a package holds the mark `#`. -/
theorem analysis_parents (disk : Disk) (config : Config) (root : Option String)
    (given : List GivenFile) (a : Analysis)
    (h : (analyze disk config root given).Gives (.ok a)) :
    a.graph.report = {} ∧
    (∀ e ∈ a.graph.edges, a.graph.hasNode e.source = true ∧ a.graph.hasNode e.target = true) ∧
    (∀ n ∈ a.graph.nodes, ∀ p, n.parent = some p → a.graph.hasNode p = true) ∧
    (∀ n ∈ a.graph.nodes, n.isContainer = true → n.parent = none) ∧
    ((∀ p ∈ a.packages, '#' ∉ p.name.toList) → ∀ n ∈ a.graph.nodes, a.graph.Rooted n) := by
  obtain ⟨-, files, external, built⟩ := analyzeSound_graph (analyzeSound_of_ok h)
  obtain ⟨b, orderly, hg⟩ := graphOfFiles_orderly built
  obtain ⟨nested, ids⟩ := orderly.withDegrees
  rw [← hg] at nested ids
  have ends : ∀ e ∈ a.graph.edges,
      a.graph.hasNode e.source = true ∧ a.graph.hasNode e.target = true := by
    intro e he
    rw [Graph.hasNode_iff, Graph.hasNode_iff, ids]
    rw [hg] at he
    exact orderly.kept.ends_known e he
  have parents : ∀ n ∈ a.graph.nodes, ∀ p, n.parent = some p → a.graph.hasNode p = true :=
    fun n hn p hp => Graph.hasNode_iff.mpr (nested.known n hn p hp)
  exact ⟨Graph.report_eq_empty parents ends, ends, parents, nested.free,
    nested.rooted (ids ▸ orderly.kept.ids_nodup)⟩

/-! A project with one package. -/

/-- The list of the packages of a project. -/
def toyList : String := "\x7b\"packages\":[\x7b\"name\":\"toys\",\"rootUri\":\"/toys\"\x7d]\x7d"

/-- A disk with a project and the package that it depends on, which is an empty folder. -/
def toyDisk : Disk where
  root := .folder [
    ("app", .folder [
      (".dart_tool", .folder [
        ("package_config.json", .file (Text.Utf8.encode toyList.toList) false)]),
      -- this is no text, so the manifest says nothing
      ("pubspec.yaml", .file [255] false)]),
    ("toys", .folder [])]

def toyPackage : Package := ⟨"toys", "/toys", "unknown", .thirdParty, [], false, false, none⟩

theorem toyPackage_load :
    Package.load toyDisk { root := "/app" } {} "toys" "/toys".toList = .ok toyPackage := by
  have found : toyDisk.exists? "/toys".toList = true := by cbv
  have library : toyDisk.isFolder (Path.join "/toys".toList "lib".toList) = false := by cbv
  have pubspec : Pubspec.load toyDisk "/toys".toList = {} := by
    have missing : toyDisk.text? (Path.join "/toys".toList manifestName.toList) = none := by cbv
    rw [Pubspec.load, missing]
    rfl
  rw [Package.load, found, pubspec]
  dsimp only
  rw [library]
  rfl

theorem toyDisk_packages : packagesOf toyDisk {} "/app".toList = [toyPackage] := by
  have root : projectRoot? toyDisk 10 "/app".toList = some "/app".toList := by cbv
  have manifest : Manifest.load toyDisk "/app".toList = { root := "/app" } := by
    have no_text : toyDisk.text? (Path.join "/app".toList manifestName.toList) = none := by cbv
    rw [Manifest.load, no_text]
    rfl
  have listFolder : Path.join "/app".toList ".dart_tool".toList = "/app/.dart_tool".toList := by cbv
  have list : Path.join "/app/.dart_tool".toList "package_config.json".toList =
      "/app/.dart_tool/package_config.json".toList := by cbv
  have isList : toyDisk.isFile "/app/.dart_tool/package_config.json".toList = true := by cbv
  have text : toyDisk.text? "/app/.dart_tool/package_config.json".toList = some toyList.toList := by
    cbv
  have entries : packageList? toyList.toList = some [⟨some "toys", some "/toys"⟩] := by cbv
  have folder : packageFolder? toyDisk "/app/.dart_tool".toList "/toys".toList =
      some "/toys".toList := by cbv
  have entry : PackageEntry.load? toyDisk { root := "/app" } {} "/app/.dart_tool".toList
      ⟨some "toys", some "/toys"⟩ = some toyPackage := by
    show ((packageFolder? toyDisk "/app/.dart_tool".toList "/toys".toList).bind fun folder =>
      (Package.load toyDisk { root := "/app" } {} "toys" folder).toOption) = _
    rw [folder, Option.bind_some, toyPackage_load]
    rfl
  have discovered : discoverPackages toyDisk {} "/app".toList = .ok [toyPackage] := by
    unfold discoverPackages
    simp only [root, listFolder, list, isList, text, entries, manifest]
    exact congrArg Except.ok (List.filterMap_cons_some entry)
  rw [packagesOf, discovered]
  rfl

/-- A function of the project that calls one of the package. -/
def playAndWind : List GivenFile :=
  [{ fileId := "/app/play.dart", text := "play() \x7b wind(); \x7d"
     symbols := some [{ name := "play", kind := 12, range := some ⟨⟨0, 0⟩, ⟨0, 18⟩⟩ }] },
   { fileId := "/toys/wind.dart", text := ""
     symbols := some [{ name := "wind", kind := 12 }] }]

/-- A class of the project with a method. -/
def toyFile : GivenFile where
  fileId := "/app/toy.dart"
  text := ""
  symbols := some [{ name := "Toy", kind := 5, children := [{ name := "spin", kind := 6 }] }]

/-- The analysis of the project with the class, where the service always fails: the method is in its
class, and what the package has is in the container of the package. -/
theorem analysis_parents_toy :
    ∃ a, (analyze toyDisk {} (some "/app") (toyFile :: playAndWind)).Gives (.ok a) ∧
      a.packages = [toyPackage] ∧ (∀ p ∈ a.packages, '#' ∉ p.name.toList) ∧
      (a.graph.nodes.map fun n => (n.id, n.parent)) = [
        ("/app/toy.dart#kind:class#name:Toy", none),
        ("/app/toy.dart#parent:Toy#kind:method#name:spin", some "/app/toy.dart#kind:class#name:Toy"),
        ("/app/play.dart#kind:func#name:play", none),
        ("/toys/wind.dart#kind:func#name:wind", some "package_container:toys"),
        ("package_container:toys", none), ("project_root", none)] ∧
      (a.graph.edges.map fun e => (e.source, e.target)) = [
        ("/app/play.dart#kind:func#name:play", "/toys/wind.dart#kind:func#name:wind"),
        ("project_root", "package_container:toys")] ∧
      a.graph.report = {} ∧ ∀ n ∈ a.graph.nodes, a.graph.Rooted n := by
  have packages : wantedPackages toyDisk {} (some "/app") = [toyPackage] := toyDisk_packages
  have sound := Inquiry.gives_answer (fun _ => none)
    (analyzeSound toyDisk {} (some "/app") (toyFile :: playAndWind))
  have gives : (analyze toyDisk {} (some "/app") (toyFile :: playAndWind)).Gives (.ok _) :=
    Inquiry.gives_bind.mpr ⟨_, sound, .done _⟩
  have listed := (analyzeSound_graph sound).1.trans packages
  have plain : ∀ p ∈ [toyPackage], '#' ∉ p.name.toList := by decide
  obtain ⟨clean, -, -, -, rooted⟩ := analysis_parents toyDisk {} (some "/app") _ _ gives
  refine ⟨_, gives, listed, listed ▸ plain, ?_, ?_, clean, rooted (listed ▸ plain)⟩
  · simp only [analyzeSound, analyzeLoaded]
    rw [packages]
    decide +kernel
  · simp only [analyzeSound, analyzeLoaded]
    rw [packages]
    decide +kernel

end CodeAtlas
