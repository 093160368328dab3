import CodeAtlas.Proofs.EdgeKinds
import CodeAtlas.Proofs.Occurrences

/-!
Dependencies between packages. A package depends on another one exactly if both have containers and
some edge crosses from the first to the second (`package_edges_are_crossings`). The project depends on
a package if an edge leads there from a node that no package owns, and that may be a node of the
language's own libraries (`sdk_call_joins_project`).
-/
namespace CodeAtlas

/-! ## Who owns a node -/

namespace Graph

/-- The file of the node with the id belongs to the package, or to none. -/
def Owned (g : Graph) (packages : List Package) (owner : Option String) (id : String) : Prop :=
  ∃ n ∈ g.nodes, n.id = id ∧ (originOf n.data.fileId packages).packageName = owner

/-- Some edge leads from a node of the one owner, a package or none, to a node of the package. -/
def Crosses (g : Graph) (packages : List Package) (owner : Option String) (package : String) : Prop :=
  ∃ e ∈ g.edges, g.Owned packages owner e.source ∧ g.Owned packages (some package) e.target

instance (g : Graph) (packages : List Package) (owner : Option String) (id : String) :
    Decidable (g.Owned packages owner id) :=
  inferInstanceAs (Decidable (∃ n ∈ g.nodes, n.id = id ∧
    (originOf n.data.fileId packages).packageName = owner))

instance (g : Graph) (packages : List Package) (owner : Option String) (package : String) :
    Decidable (g.Crosses packages owner package) :=
  inferInstanceAs (Decidable (∃ e ∈ g.edges, g.Owned packages owner e.source ∧
    g.Owned packages (some package) e.target))

end Graph

namespace Builder

/-! ## Builders without packages -/

/-- A builder that was given files, edges that are no dependencies and passes for edges. -/
inductive Assembled : Builder → Prop where
  | empty : Assembled {}
  | addFiles {b : Builder} (h : Assembled b) (files : List SourceFile) : Assembled (b.addFiles files)
  | addEdge {b : Builder} (h : Assembled b) (source target : String) {label : EdgeLabel}
      (other : label ≠ .usesAsType) : Assembled (b.addEdge source target label).2
  | addInheritanceEdges {b : Builder} (h : Assembled b) : Assembled b.addInheritanceEdges
  | addEdges {b b' : Builder} (h : Assembled b) {readsFrom : Bool}
      (gives : (b.addEdges readsFrom).Gives b') : Assembled b'

/-- Only symbols have nodes, and no edge is a dependency. -/
structure Plain (b : Builder) : Prop where
  kept : b.Kept
  symbols : ∀ n ∈ b.graph.nodes, n.isContainer = false ∧ '#' ∈ n.id.toList
  independent : b.graph.pairs .usesAsType = []

theorem Plain.record {b : Builder} (h : b.Plain) (v : Visit) : (b.record v).Plain where
  kept := (Grows.record b v).kept h.kept
  symbols := by
    rw [nodes_record]
    split
    · exact h.symbols
    · refine List.forall_mem_append.mpr ⟨h.symbols, List.forall_mem_singleton.mpr ?_⟩
      exact ⟨nodeOf_isContainer _ _ _ _, nodeId_marked _ _⟩
  independent := by
    rw [Graph.pairs, edges_record]
    exact h.independent

theorem Plain.of_withoutEdges {b b' : Builder} (h : b.Plain) (grows : Grows b b')
    (same : b'.withoutEdges = b.withoutEdges)
    (pairs : b'.graph.pairs .usesAsType = b.graph.pairs .usesAsType) : b'.Plain where
  kept := grows.kept h.kept
  symbols := by
    rw [nodes_of_withoutEdges same]
    exact h.symbols
  independent := pairs.trans h.independent

/-- The passes for edges make no dependencies. -/
theorem dependencies_addEdges {b b' : Builder} {readsFrom : Bool}
    (gives : (b.addEdges readsFrom).Gives b') :
    b'.graph.pairs .usesAsType = b.graph.pairs .usesAsType := by
  refine Inquiry.gives_foldlM
    (P := fun b' : Builder => b'.graph.pairs .usesAsType = b.graph.pairs .usesAsType) _ ?_
    (pairs_addInheritanceEdges b (by decide) (by decide)) gives
  intro b₁ pair _ b₂ before step
  rw [← before]
  rcases addMention_gives step with ⟨-, rfl⟩ | ⟨-, rfl | ⟨-, rfl⟩⟩
  · exact pairs_addEdge_of_ne b₁ _ _ (by decide)
  · rfl
  · exact pairs_addEdge_of_ne b₁ _ _ (by decide)

theorem Assembled.plain {b : Builder} (h : b.Assembled) : b.Plain := by
  induction h with
  | empty =>
    exact ⟨empty_kept, fun n hn => absurd hn List.not_mem_nil, by simp [Graph.pairs]⟩
  | addFiles _ files ih =>
    rw [addFiles_eq_foldl]
    exact List.foldlRecOn (visits files) Builder.record ih fun _ h v _ => h.record v
  | @addEdge b _ source target label other ih =>
    exact ih.of_withoutEdges (.addEdge b _ _ _) (addEdge_withoutEdges b _ _ _)
      (pairs_addEdge_of_ne b _ _ other)
  | @addInheritanceEdges b _ ih =>
    exact ih.of_withoutEdges (.addInheritanceEdges b) (addInheritanceEdges_withoutEdges b)
      (pairs_addInheritanceEdges b (by decide) (by decide))
  | addEdges _ gives ih =>
    exact ih.of_withoutEdges (.addEdges gives) (addEdges_withoutEdges gives)
      (dependencies_addEdges gives)

/-! ## Containers -/

theorem edges_addNode (b : Builder) (n : Node) : (b.addNode n).2.graph.edges = b.graph.edges := by
  unfold addNode
  split <;> rfl

theorem hasNode_addNode (b : Builder) (n : Node) (id : String) :
    (b.addNode n).2.hasNode id = true ↔ b.hasNode id = true ∨ id = n.id := by
  unfold addNode
  split
  · rename_i known
    exact ⟨.inl, fun h => h.elim (fun h => h) fun same => same ▸ known⟩
  · simp [hasNode, pushNode, or_comm]

/-- A builder with containers for packages. -/
def addContainers (b : Builder) (ps : List Package) : Builder :=
  ps.foldl (fun b p => (b.addNode p.container).2) b

theorem addContainers_grows (ps : List Package) (b : Builder) : Grows b (b.addContainers ps) :=
  .foldl (fun b p => .addNode b (Package.container p)) ps b

theorem edges_addContainers (ps : List Package) : ∀ b : Builder,
    (b.addContainers ps).graph.edges = b.graph.edges := by
  induction ps with
  | nil => exact fun _ => rfl
  | cons p rest ih => exact fun b => (ih _).trans (edges_addNode b p.container)

theorem nodes_addContainers (ps : List Package) : ∀ b : Builder,
    b.graph.nodes ⊆ (b.addContainers ps).graph.nodes := by
  induction ps with
  | nil => exact fun _ => List.Subset.refl _
  | cons p rest ih =>
    intro b
    refine List.Subset.trans ?_ (ih (b.addNode p.container).2)
    unfold addNode
    split
    · exact List.Subset.refl _
    · exact List.subset_append_left _ _

theorem hasNode_addContainers (ps : List Package) (id : String) : ∀ b : Builder,
    (b.addContainers ps).hasNode id = true ↔
      b.hasNode id = true ∨ ∃ p ∈ ps, id = containerId p.name := by
  induction ps with
  | nil => simp [addContainers]
  | cons p rest ih =>
    intro b
    have step := hasNode_addNode b p.container id
    refine (ih _).trans ?_
    rw [step, List.exists_mem_cons_iff, or_assoc]
    rfl

/-! ## Joined containers -/

/-- The node at which a dependency starts. -/
def joinSource : Option String → String
  | some package => containerId package
  | none => projectId

theorem containerId_inj {p q : String} : containerId p = containerId q ↔ p = q := by
  simp [containerId, String.append_right_inj]

theorem joinSource_inj {o o' : Option String} : joinSource o = joinSource o' ↔ o = o' := by
  refine ⟨fun h => ?_, fun h => h ▸ rfl⟩
  cases o <;> cases o'
  · rfl
  · exact absurd h.symm (containerId_ne_projectId _)
  · exact absurd h (containerId_ne_projectId _)
  · rw [containerId_inj.mp h]

/-- The containers of the packages of a crossing are there. -/
structure CanJoin (b : Builder) (crossing : Option String × String) : Prop where
  target : b.hasNode (containerId crossing.2) = true
  source : ∀ package, crossing.1 = some package → b.hasNode (containerId package) = true

theorem CanJoin.iff_of_hasNode {b b' : Builder}
    (same : ∀ name, b'.hasNode (containerId name) = true ↔ b.hasNode (containerId name) = true)
    (crossing : Option String × String) : b'.CanJoin crossing ↔ b.CanJoin crossing :=
  ⟨fun h => ⟨(same _).mp h.target, fun p hp => (same p).mp (h.source p hp)⟩,
    fun h => ⟨(same _).mpr h.target, fun p hp => (same p).mpr (h.source p hp)⟩⟩

theorem mem_pairs_addEdge {b : Builder} (kept : b.Kept) {source target : String}
    (label : EdgeLabel) (s t : String) :
    (s, t) ∈ (b.addEdge source target label).2.graph.pairs label ↔
      (s, t) ∈ b.graph.pairs label ∨ b.Joinable source target ∧ s = source ∧ t = target := by
  by_cases joinable : b.Joinable source target
  · have added := mem_foldl_addPair (p := (s, t)) [(source, target)] (b.graph.pairs label)
    rw [pairs_addEdge kept joinable]
    simpa [joinable] using added
  · have refused : (b.addEdge source target label).2 = b := by
      unfold addEdge
      split
      · rfl
      · rename_i ends
        simp only [not_or, Bool.not_eq_true', Bool.not_eq_false] at ends
        obtain ⟨named, differ, hs, ht⟩ := ends
        exact absurd ⟨named, differ, hs, ht⟩ joinable
    rw [refused]
    exact (or_iff_left fun h => joinable h.1).symm

theorem containerId_ne_empty (name : String) : containerId name ≠ "" := by
  intro h
  have h := congrArg String.toList h
  simp [containerId, packageKind, String.toList_append] at h

theorem hasNode_addEdge (b : Builder) (source target : String) (label : EdgeLabel) :
    (b.addEdge source target label).2.hasNode = b.hasNode :=
  hasNode_of_withoutEdges (addEdge_withoutEdges b source target label)

section Join

variable (projectLabel : String) {b : Builder} {crossing : Option String × String}

/-- To join containers makes no node but the project's, and that one only if a package is there. -/
theorem hasNode_join (id : String) :
    (join projectLabel b crossing).hasNode id = true ↔
      b.hasNode id = true ∨ id = projectId ∧ crossing.1 = none ∧ b.CanJoin crossing := by
  obtain ⟨source, target⟩ := crossing
  unfold join
  dsimp only
  split
  · rename_i there
    cases source with
    | some package => simp [hasNode_addEdge]
    | none =>
      dsimp only
      rw [hasNode_addEdge, hasNode_addNode]
      have can : b.CanJoin (none, target) := ⟨there, nofun⟩
      simp [can, projectContainer]
  · rename_i missing
    exact (or_iff_left fun h => missing h.2.2.target).symm

theorem hasNode_containerId_join (name : String) :
    (join projectLabel b crossing).hasNode (containerId name) = true ↔
      b.hasNode (containerId name) = true := by
  rw [hasNode_join]
  exact or_iff_left fun h => containerId_ne_projectId name h.1

/-- To join containers makes their dependency, if they are there, and no other one. -/
theorem mem_pairs_join (kept : b.Kept) (differ : crossing.1 ≠ some crossing.2) (s t : String) :
    (s, t) ∈ (join projectLabel b crossing).graph.pairs .usesAsType ↔
      (s, t) ∈ b.graph.pairs .usesAsType ∨
        b.CanJoin crossing ∧ s = joinSource crossing.1 ∧ t = containerId crossing.2 := by
  obtain ⟨source, target⟩ := crossing
  unfold join
  dsimp only at differ ⊢
  split
  · rename_i there
    cases source with
    | some package =>
      have joinable : b.Joinable (containerId package) (containerId target) ↔
          b.CanJoin (some package, target) := by
        refine ⟨fun h => ⟨h.hasTarget, ?_⟩, fun h => ?_⟩
        · rintro p hp
          exact Option.some.inj hp ▸ h.hasSource
        · refine ⟨containerId_ne_empty package, fun same => ?_, h.source package rfl, there⟩
          exact differ (congrArg some (containerId_inj.mp same))
      dsimp only
      rw [mem_pairs_addEdge kept, joinable]
      rfl
    | none =>
      have added := Grows.addNode b (projectContainer projectLabel)
      have joinable : (b.addNode (projectContainer projectLabel)).2.Joinable projectId
          (containerId target) :=
        ⟨by decide, (containerId_ne_projectId target).symm, (hasNode_addNode _ _ _).mpr (.inr rfl),
          (hasNode_addNode _ _ _).mpr (.inl there)⟩
      have can : b.CanJoin (none, target) := ⟨there, nofun⟩
      dsimp only
      rw [mem_pairs_addEdge (added.kept kept), Graph.pairs, edges_addNode, ← Graph.pairs]
      simp only [joinable, can, true_and]
      rfl
  · rename_i missing
    exact (or_iff_left fun h => missing h.1.target).symm

/-- Over all crossings, the dependencies that come are those of the crossings that can be joined. -/
theorem joined_foldl (crossings : List (Option String × String))
    (differ : ∀ c ∈ crossings, c.1 ≠ some c.2) : ∀ {b : Builder}, b.Kept →
    (∀ s t, (s, t) ∈ (crossings.foldl (join projectLabel) b).graph.pairs .usesAsType ↔
      (s, t) ∈ b.graph.pairs .usesAsType ∨
        ∃ c ∈ crossings, b.CanJoin c ∧ s = joinSource c.1 ∧ t = containerId c.2) ∧
    ∀ id, (crossings.foldl (join projectLabel) b).hasNode id = true ↔
      b.hasNode id = true ∨ id = projectId ∧ ∃ c ∈ crossings, c.1 = none ∧ b.CanJoin c := by
  induction crossings with
  | nil => simp
  | cons c rest ih =>
    intro b kept
    obtain ⟨first, others⟩ := List.forall_mem_cons.mp differ
    obtain ⟨pairs, nodes⟩ := ih others ((Grows.join projectLabel b c).kept kept)
    have can : ∀ c', (join projectLabel b c).CanJoin c' ↔ b.CanJoin c' :=
      CanJoin.iff_of_hasNode (hasNode_containerId_join projectLabel)
    refine ⟨fun s t => ?_, fun id => ?_⟩
    · rw [List.foldl_cons, pairs, mem_pairs_join projectLabel kept first, or_assoc,
        List.exists_mem_cons_iff]
      simp only [can]
    · rw [List.foldl_cons, nodes, hasNode_join, or_assoc, ← and_or_left, List.exists_mem_cons_iff]
      simp only [can]

end Join

/-! ## Crossings -/

section Crossings

variable {packages : List Package} {b : Builder}

theorem assign_origin (b : Builder) (packages : List Package) {n : Node}
    (symbol : n.isContainer = false) :
    (b.assign packages n).data.origin = some (originOf n.data.fileId packages) := by
  rw [assign, if_neg (by simp [symbol])]
  dsimp only
  split <;> rfl

theorem packageOf?_assignAll (kept : b.Kept) {n : Node} (hn : n ∈ b.graph.nodes)
    (symbol : n.isContainer = false) :
    (b.assignAll packages).packageOf? n.id = (originOf n.data.fileId packages).packageName := by
  have found : (b.assignAll packages).node? n.id = some (b.assign packages n) :=
    ((Grows.assignAll b packages).kept kept).node?_eq_some.mpr
      ⟨List.mem_map_of_mem hn, b.assign_id packages n⟩
  unfold packageOf?
  rw [found]
  show (b.assign packages n).data.origin.bind Origin.packageName = _
  rw [assign_origin b packages symbol]
  rfl

/-- Behind the containers the end of an edge is owned as its file says. -/
theorem packageOf?_eq_iff (h : b.Plain) (ps : List Package) {id : String} (known : id ∈ b.ids)
    (owner : Option String) :
    ((b.addContainers ps).assignAll packages).packageOf? id = owner ↔
      b.graph.Owned packages owner id := by
  obtain ⟨n, hn, rfl⟩ := List.mem_map.mp known
  have kept := (addContainers_grows ps b).kept h.kept
  rw [packageOf?_assignAll kept (nodes_addContainers ps b hn) (h.symbols n hn).1]
  refine ⟨fun owned => ⟨n, hn, rfl, owned⟩, ?_⟩
  rintro ⟨m, hm, same, owned⟩
  rw [← List.inj_on_of_nodup_map h.kept.ids_nodup hm hn same]
  exact owned

theorem crossing?_eq_some {e : Edge} {c : Option String × String} :
    b.crossing? e = some c ↔
      b.packageOf? e.source = c.1 ∧ b.packageOf? e.target = some c.2 ∧ c.1 ≠ some c.2 := by
  obtain ⟨source, target⟩ := c
  unfold crossing?
  split
  · rename_i nowhere
    simp [nowhere]
  · rename_i package reached
    dsimp only
    split
    · rename_i same
      refine iff_of_false nofun ?_
      rintro ⟨rfl, reached', differ⟩
      exact differ (same.trans (reached.symm.trans reached'))
    · rename_i differ
      simp only [Option.some.injEq, Prod.mk.injEq, reached]
      refine ⟨?_, ?_⟩
      · rintro ⟨rfl, rfl⟩
        exact ⟨rfl, rfl, differ⟩
      · rintro ⟨rfl, rfl, -⟩
        exact ⟨rfl, rfl⟩

/-- The crossings among the edges, behind the containers. -/
theorem mem_crossings (h : b.Plain) (ps packages : List Package) (c : Option String × String) :
    c ∈ ((b.addContainers ps).assignAll packages).graph.edges.filterMap
        ((b.addContainers ps).assignAll packages).crossing? ↔
      c.1 ≠ some c.2 ∧ b.graph.Crosses packages c.1 c.2 := by
  have edges : ((b.addContainers ps).assignAll packages).graph.edges = b.graph.edges :=
    edges_addContainers ps b
  rw [edges, List.mem_filterMap]
  have ends : ∀ e ∈ b.graph.edges,
      ((b.addContainers ps).assignAll packages).crossing? e = some c ↔
        b.graph.Owned packages c.1 e.source ∧ b.graph.Owned packages (some c.2) e.target ∧
          c.1 ≠ some c.2 := by
    intro e he
    obtain ⟨hs, ht⟩ := h.kept.ends_known e he
    rw [crossing?_eq_some, packageOf?_eq_iff h ps hs, packageOf?_eq_iff h ps ht]
  refine ⟨?_, ?_⟩
  · rintro ⟨e, he, found⟩
    obtain ⟨left, reached, differ⟩ := (ends e he).mp found
    exact ⟨differ, e, he, left, reached⟩
  · rintro ⟨differ, e, he, left, reached⟩
    exact ⟨e, he, (ends e he).mpr ⟨left, reached, differ⟩⟩

end Crossings

theorem not_owned_nil {g : Graph} {package id : String} : ¬g.Owned [] (some package) id := by
  rintro ⟨n, -, -, owned⟩
  obtain ⟨p, hp, -⟩ := originOf_packageName owned
  exact absurd hp List.not_mem_nil

/-- The ids of symbols' nodes hold the mark. -/
theorem Plain.not_hasNode {b : Builder} (h : b.Plain) {id : String} (unmarked : '#' ∉ id.toList) :
    ¬b.hasNode id = true := by
  rw [h.kept.hasNode_iff]
  intro known
  obtain ⟨n, hn, rfl⟩ := List.mem_map.mp known
  exact unmarked (h.symbols n hn).2

/-- The dependencies and the nodes behind the containers, once nodes are assigned and joined. -/
theorem joined_joinAll {b : Builder} (h : b.Plain) (ps packages : List Package) (label : String) :
    let b' := ((b.addContainers ps).assignAll packages).joinAll label
    (∀ s t, (s, t) ∈ b'.graph.pairs .usesAsType ↔
      ∃ c, (b.addContainers ps).CanJoin c ∧ s = joinSource c.1 ∧ t = containerId c.2 ∧
        c.1 ≠ some c.2 ∧ b.graph.Crosses packages c.1 c.2) ∧
    ∀ id, b'.hasNode id = true ↔ (b.addContainers ps).hasNode id = true ∨
      id = projectId ∧ ∃ q, (b.addContainers ps).CanJoin (none, q) ∧
        b.graph.Crosses packages none q := by
  intro b'
  have kept : ((b.addContainers ps).assignAll packages).Kept :=
    (Grows.assignAll _ packages).kept ((addContainers_grows ps b).kept h.kept)
  have crossings := mem_crossings h ps packages
  obtain ⟨pairs, nodes⟩ := joined_foldl label _ (fun c hc => ((crossings c).mp hc).1) kept
  have can : ∀ c, ((b.addContainers ps).assignAll packages).CanJoin c ↔
      (b.addContainers ps).CanJoin c := CanJoin.iff_of_hasNode fun _ => Iff.rfl
  have before : ((b.addContainers ps).assignAll packages).graph.pairs .usesAsType = [] := by
    have edges : ((b.addContainers ps).assignAll packages).graph.edges = b.graph.edges :=
      edges_addContainers ps b
    rw [Graph.pairs, edges]
    exact h.independent
  refine ⟨fun s t => (pairs s t).trans ?_, fun id => (nodes id).trans (or_congr Iff.rfl ?_)⟩
  · rw [before, or_iff_right List.not_mem_nil]
    refine exists_congr fun c => ?_
    rw [crossings, can]
    refine ⟨?_, ?_⟩
    · rintro ⟨crosses, joinable, source, target⟩
      exact ⟨joinable, source, target, crosses⟩
    · rintro ⟨joinable, source, target, crosses⟩
      exact ⟨crosses, joinable, source, target⟩
  · refine and_congr_right fun _ => ⟨?_, ?_⟩
    · rintro ⟨⟨owner, q⟩, hc, rfl, joinable⟩
      exact ⟨q, (can _).mp joinable, ((crossings _).mp hc).2⟩
    · rintro ⟨q, joinable, crosses⟩
      have outside : (none : Option String) ≠ some q := (Option.some_ne_none q).symm
      exact ⟨(none, q), (crossings _).mpr ⟨outside, crosses⟩, rfl, (can _).mpr joinable⟩

/-- The dependencies and the nodes, once packages are added. -/
theorem joined_addPackages {b : Builder} (h : b.Plain) (packages : List Package) (f : Filters)
    (label : String) :
    let containers := b.addContainers (relevantPackages packages f)
    (∀ s t, (s, t) ∈ (b.addPackages packages f label).graph.pairs .usesAsType ↔
      ∃ c, containers.CanJoin c ∧ s = joinSource c.1 ∧ t = containerId c.2 ∧
        c.1 ≠ some c.2 ∧ b.graph.Crosses packages c.1 c.2) ∧
    ∀ id, (b.addPackages packages f label).hasNode id = true ↔ containers.hasNode id = true ∨
      id = projectId ∧ ∃ q, containers.CanJoin (none, q) ∧ b.graph.Crosses packages none q := by
  intro containers
  unfold addPackages
  split
  · -- without packages no node is owned by one
    rename_i none_given
    obtain rfl := List.isEmpty_iff.mp none_given
    refine ⟨fun s t => ?_, fun id => (or_iff_left ?_).symm⟩
    · rw [h.independent]
      refine iff_of_false List.not_mem_nil ?_
      rintro ⟨_, -, -, -, -, _, -, -, owned⟩
      exact not_owned_nil owned
    · rintro ⟨-, _, -, _, -, -, owned⟩
      exact not_owned_nil owned
  · exact joined_joinAll h (relevantPackages packages f) packages label

/-- Once packages are added to files with their edges, there is a container for each relevant package.
One package depends on another exactly if both have containers and some edge crosses between nodes
that they own. The project depends on a package exactly if that has a container and some edge leads
there from a node that no package owns, of the project or of the language's own libraries; for such
dependencies alone the project has a node. There are no other dependencies. -/
theorem package_edges_are_crossings {b : Builder} (h : b.Assembled) (packages : List Package)
    (f : Filters) (label : String) :
    let b' := b.addPackages packages f label
    (∀ q, '#' ∉ q.toList →
      (b'.hasNode (containerId q) = true ↔ ∃ p ∈ relevantPackages packages f, p.name = q)) ∧
    (∀ p q, p ≠ q → ((containerId p, containerId q) ∈ b'.graph.pairs .usesAsType ↔
      b'.hasNode (containerId p) = true ∧ b'.hasNode (containerId q) = true ∧
        b.graph.Crosses packages (some p) q)) ∧
    (∀ q, (projectId, containerId q) ∈ b'.graph.pairs .usesAsType ↔
      b'.hasNode (containerId q) = true ∧ b.graph.Crosses packages none q) ∧
    (b'.hasNode projectId = true ↔ ∃ q, (projectId, containerId q) ∈ b'.graph.pairs .usesAsType) ∧
    ∀ s t, (s, t) ∈ b'.graph.pairs .usesAsType → ∃ q, t = containerId q ∧
      (s = projectId ∨ ∃ p, p ≠ q ∧ s = containerId p) := by
  intro b'
  have plain := h.plain
  obtain ⟨pairs, nodes⟩ := joined_addPackages plain packages f label
  have container : ∀ name, b'.hasNode (containerId name) = true ↔
      (b.addContainers (relevantPackages packages f)).hasNode (containerId name) = true :=
    fun name => (nodes _).trans (or_iff_left fun h => containerId_ne_projectId name h.1)
  have pair : ∀ owner q, owner ≠ some q →
      ((joinSource owner, containerId q) ∈ b'.graph.pairs .usesAsType ↔
        (b.addContainers (relevantPackages packages f)).CanJoin (owner, q) ∧
          b.graph.Crosses packages owner q) := by
    intro owner q differ
    refine (pairs _ _).trans ⟨?_, ?_⟩
    · rintro ⟨⟨owner', q'⟩, can, source, target, -, crosses⟩
      obtain rfl := joinSource_inj.mp source
      obtain rfl := containerId_inj.mp target
      exact ⟨can, crosses⟩
    · rintro ⟨can, crosses⟩
      exact ⟨(owner, q), can, rfl, rfl, differ, crosses⟩
  refine ⟨fun q unmarked => ?_, fun p q differ => ?_, fun q => ?_, ?_, fun s t joined => ?_⟩
  · rw [container, hasNode_addContainers,
      or_iff_right (plain.not_hasNode (containerId_unmarked unmarked))]
    exact exists_congr fun p => and_congr_right fun _ => containerId_inj.trans eq_comm
  · refine (pair (some p) q fun same => differ (Option.some.inj same)).trans ?_
    rw [container, container, ← and_assoc]
    refine and_congr_left fun _ => ⟨fun can => ⟨can.source p rfl, can.target⟩, ?_⟩
    rintro ⟨source, target⟩
    exact ⟨target, fun p' same => Option.some.inj same ▸ source⟩
  · refine (pair none q nofun).trans ?_
    rw [container]
    exact and_congr_left fun _ => ⟨CanJoin.target, fun target => ⟨target, nofun⟩⟩
  · refine (nodes projectId).trans ((or_iff_right ?_).trans ?_)
    · rw [hasNode_addContainers]
      rintro (known | ⟨p, -, same⟩)
      · exact plain.not_hasNode (by decide) known
      · exact containerId_ne_projectId p.name same.symm
    · simp only [true_and]
      exact exists_congr fun q => (pair none q nofun).symm
  · obtain ⟨⟨owner, q⟩, -, rfl, rfl, differ, -⟩ := (pairs s t).mp joined
    refine ⟨q, rfl, ?_⟩
    cases owner with
    | none => exact .inl rfl
    | some p => exact .inr ⟨p, fun same => differ (congrArg some same), rfl⟩

/-- A function of the language's own libraries that calls one of a package. -/
def callFromSdk : List SourceFile :=
  let line : Option Range := some ⟨⟨0, 0⟩, ⟨0, 23⟩⟩
  let calling (fileId text name : String) : SourceFile :=
    ⟨fileId, text, [⟨{ Symbol.ofName name .function fileId with range := line }, []⟩]⟩
  [calling "/sdk/bin/cache/dart-sdk/lib/core.dart" "void boot() \x7b send(); \x7d" "boot",
    calling "/cache/http/lib/http.dart" "void send() \x7b\x7d" "send"]

def callFromSdkBuilder : Builder := ((({} : Builder).addFiles callFromSdk).addEdges true).answer
  fun _ => none

def httpPackage : Package := ⟨"http", "/cache/http", "1.0.0", .thirdParty, [], true, false, none⟩

theorem callFromSdk_assembled : callFromSdkBuilder.Assembled :=
  (Assembled.empty.addFiles callFromSdk).addEdges (Inquiry.gives_answer _ _)

/-- The call crosses into the package from a node that no package owns, so that the project depends on
the package. -/
theorem package_edges_are_crossings_callFromSdk :
    let b' := callFromSdkBuilder.addPackages [httpPackage] {} "app"
    callFromSdkBuilder.Assembled ∧ b'.hasNode (containerId "http") = true ∧
      callFromSdkBuilder.graph.Crosses [httpPackage] none "http" ∧
      (projectId, containerId "http") ∈ b'.graph.pairs .usesAsType ∧ b'.hasNode projectId = true := by
  obtain ⟨containers, -, project, root, -⟩ :=
    package_edges_are_crossings callFromSdk_assembled [httpPackage] {} "app"
  have container := (containers "http" (by decide)).mpr ⟨httpPackage, by decide, rfl⟩
  have crosses : callFromSdkBuilder.graph.Crosses [httpPackage] none "http" := by decide +kernel
  have joined := (project "http").mpr ⟨container, crosses⟩
  exact ⟨callFromSdk_assembled, container, crosses, joined, root.mpr ⟨"http", joined⟩⟩

/-- The project need have no part in its dependency: the one call that makes it starts in one of the
language's own libraries. -/
theorem sdk_call_joins_project :
    callFromSdkBuilder.Assembled ∧ '#' ∉ httpPackage.name.toList ∧
      (projectId, containerId "http") ∈
        (callFromSdkBuilder.addPackages [httpPackage] {} "app").graph.pairs .usesAsType ∧
      ¬∃ e ∈ callFromSdkBuilder.graph.edges, ∃ n ∈ callFromSdkBuilder.graph.nodes,
        n.id = e.source ∧ (originOf n.data.fileId [httpPackage]).kind = .project :=
  ⟨callFromSdk_assembled, by decide +kernel⟩

end Builder

end CodeAtlas
