import CodeAtlas.Graph.Edges
import CodeAtlas.Graph.Packages
import CodeAtlas.Proofs.Answers
import Mathlib.Data.List.Nodup

/-!
The books of a builder. Beside its graph a builder keeps the ids of the nodes, their places, the
symbols they were made from, the ends of the edges and the number of the next edge. `Kept` says that
these books and the graph tell the same; `Grows b b'` says that `b'` comes from `b` by adding nodes
and edges at the end, with the books kept. Every operation of a builder is a chain of small ones
that grow it, so a builder that began empty has its books kept after any history
(`history_keeps_books`).
-/
namespace CodeAtlas

/-- What tells an edge from others: its ends and its label. -/
def Edge.ends (e : Edge) : String × String × EdgeLabel := (e.source, e.target, e.label)

namespace Builder

/-- The ids of the nodes, in order. -/
def ids (b : Builder) : List String := b.graph.nodes.map Node.id

/-- The books of a builder agree with its graph. -/
structure Kept (b : Builder) : Prop where
  ids_nodup : b.ids.Nodup
  known_iff : ∀ id, id ∈ b.known ↔ id ∈ b.ids
  place_iff : ∀ id i, b.places.lookup id = some i ↔ b.ids[i]? = some id
  order_nodup : b.order.Nodup
  order_seen : ∀ id ∈ b.order, (b.symbol? id).isSome
  seen_known : ∀ id, (b.symbol? id).isSome → id ∈ b.ids
  joined_iff : ∀ k, k ∈ b.joined ↔ k ∈ b.graph.edges.map Edge.ends
  ends_nodup : (b.graph.edges.map Edge.ends).Nodup
  ends_known : ∀ e ∈ b.graph.edges, e.source ∈ b.ids ∧ e.target ∈ b.ids
  ends_differ : ∀ e ∈ b.graph.edges, e.source ≠ "" ∧ e.source ≠ e.target
  next_eq : b.nextEdge = b.graph.edges.length
  numbered : ∀ (i : Nat) (e : Edge), b.graph.edges[i]? = some e → e.id = "e" ++ toString i

theorem empty_kept : ({} : Builder).Kept where
  ids_nodup := by simp [ids]
  known_iff := by simp [ids]
  place_iff := by simp [ids]
  order_nodup := by simp
  order_seen := by simp
  seen_known := by simp [symbol?]
  joined_iff := by simp
  ends_nodup := by simp
  ends_known := by simp
  ends_differ := by simp
  next_eq := rfl
  numbered := by simp

/-! ## Looking nodes up -/

theorem Kept.hasNode_iff {b : Builder} (h : b.Kept) {id : String} :
    b.hasNode id = true ↔ id ∈ b.ids := by
  rw [← h.known_iff id, hasNode, List.contains_iff_mem]

theorem Kept.node?_eq_some {b : Builder} (h : b.Kept) {id : String} {n : Node} :
    b.node? id = some n ↔ n ∈ b.graph.nodes ∧ n.id = id := by
  have at_place : ∀ i, b.places.lookup id = some i ↔ (b.graph.nodes[i]?).map Node.id = some id := by
    intro i
    rw [h.place_iff id i, ids, List.getElem?_map]
  refine ⟨?_, ?_⟩
  · intro hn
    obtain ⟨i, hi, hg⟩ := Option.bind_eq_some_iff.mp hn
    have hid := (at_place i).mp hi
    rw [hg] at hid
    exact ⟨List.mem_of_getElem? hg, Option.some.inj hid⟩
  · rintro ⟨hn, rfl⟩
    obtain ⟨i, hi⟩ := List.mem_iff_getElem?.mp hn
    have hp : b.places.lookup n.id = some i := by rw [at_place, hi]; rfl
    exact Option.bind_eq_some_iff.mpr ⟨i, hp, hi⟩

theorem Kept.hasNode_iff_node? {b : Builder} (h : b.Kept) {id : String} :
    b.hasNode id = true ↔ ∃ n, b.node? id = some n := by
  rw [h.hasNode_iff, ids, List.mem_map]
  refine ⟨?_, ?_⟩
  · rintro ⟨n, hn, hid⟩
    exact ⟨n, h.node?_eq_some.mpr ⟨hn, hid⟩⟩
  · rintro ⟨n, hn⟩
    exact ⟨n, h.node?_eq_some.mp hn⟩

/-! ## Small steps -/

theorem getElem?_concat_eq_some {α : Type} {l : List α} {a x : α} {i : Nat} :
    (l ++ [a])[i]? = some x ↔ l[i]? = some x ∨ (i = l.length ∧ a = x) := by
  rcases Nat.lt_trichotomy i l.length with hi | rfl | hi
  · rw [List.getElem?_append_left hi]
    exact ⟨.inl, fun h => h.elim id fun e => absurd e.1 (Nat.ne_of_lt hi)⟩
  · simp
  · rw [List.getElem?_eq_none (by simp; omega), List.getElem?_eq_none (Nat.le_of_lt hi)]
    simp
    omega

theorem pushNode_ids (b : Builder) (n : Node) : (b.pushNode n).ids = b.ids ++ [n.id] := by
  rw [ids, pushNode, List.map_append]
  rfl

/-- A node with a new id leaves the books kept. -/
theorem Kept.pushNode {b : Builder} (h : b.Kept) {n : Node} (new : n.id ∉ b.ids) :
    (b.pushNode n).Kept where
  __ := h
  ids_nodup := by
    rw [pushNode_ids]
    exact List.concat_eq_append ▸ List.Nodup.concat new h.ids_nodup
  known_iff id := by
    rw [pushNode_ids, List.mem_append, ← h.known_iff id, List.mem_singleton, Or.comm]
    exact List.mem_cons
  place_iff id i := by
    have last : b.graph.nodes.length = b.ids.length := by rw [ids, List.length_map]
    have place : (b.pushNode n).places.lookup id =
        if id = n.id then some b.ids.length else b.places.lookup id := by
      rw [Builder.pushNode, List.lookup_cons, last]
      by_cases e : id = n.id
      · simp [e]
      · rw [beq_false_of_ne e, if_neg e]
    rw [place, pushNode_ids, getElem?_concat_eq_some, ← h.place_iff id i]
    split
    · rename_i e
      subst e
      -- the new id has no place yet
      have free : b.places.lookup n.id ≠ some i :=
        fun hp => new (List.mem_of_getElem? ((h.place_iff n.id i).mp hp))
      simp only [free, false_or, and_true, Option.some.injEq]
      exact eq_comm
    · rename_i e
      simp [Ne.symm e]
  seen_known id hs := by
    rw [pushNode_ids]
    exact List.mem_append_left _ (h.seen_known id hs)
  ends_known e he := by
    rw [pushNode_ids]
    obtain ⟨hs, ht⟩ := h.ends_known e he
    exact ⟨List.mem_append_left _ hs, List.mem_append_left _ ht⟩

/-- An edge with new ends leaves the books kept. -/
theorem Kept.pushEdge {b : Builder} (h : b.Kept) {source target : String} {label : EdgeLabel}
    (hs : source ∈ b.ids) (ht : target ∈ b.ids) (named : source ≠ "") (differ : source ≠ target)
    (new : (source, target, label) ∉ b.joined) : (b.pushEdge source target label).Kept where
  __ := h
  joined_iff k := by
    simp only [Builder.pushEdge, List.map_append, List.mem_append, List.mem_cons, h.joined_iff k]
    rw [Or.comm]
    simp [Edge.ends]
  ends_nodup := by
    simp only [Builder.pushEdge, List.map_append]
    exact List.concat_eq_append ▸
      List.Nodup.concat (fun hm => new ((h.joined_iff _).mpr hm)) h.ends_nodup
  ends_known e he := by
    rcases List.mem_append.mp he with he | he
    · exact h.ends_known e he
    · rw [List.mem_singleton.mp he]
      exact ⟨hs, ht⟩
  ends_differ e he := by
    rcases List.mem_append.mp he with he | he
    · exact h.ends_differ e he
    · rw [List.mem_singleton.mp he]
      exact ⟨named, differ⟩
  next_eq := by
    simp only [Builder.pushEdge, List.length_append, h.next_eq]
    rfl
  numbered i e he := by
    rcases getElem?_concat_eq_some.mp he with he | ⟨rfl, rfl⟩
    · exact h.numbered i e he
    · rw [← h.next_eq]

/-- A symbol recorded for a known node leaves the books kept. -/
theorem Kept.see {b : Builder} (h : b.Kept) {id : String} (known : id ∈ b.ids) (v : Visited) :
    ({ b with symbols := (id, v) :: b.symbols } : Builder).Kept where
  __ := h
  order_seen id' hm := by
    simp only [symbol?, List.lookup_cons]
    split
    · rfl
    · exact h.order_seen id' hm
  seen_known id' hs := by
    simp only [symbol?, List.lookup_cons] at hs
    split at hs
    · rename_i e
      rw [eq_of_beq e]
      exact known
    · exact h.seen_known id' hs

/-- A seen symbol put into the order leaves the books kept. -/
theorem Kept.enlist {b : Builder} (h : b.Kept) {id : String} (new : id ∉ b.order)
    (seen : (b.symbol? id).isSome) : ({ b with order := b.order ++ [id] } : Builder).Kept where
  __ := h
  order_nodup := List.concat_eq_append ▸ List.Nodup.concat new h.order_nodup
  order_seen id' hm := by
    rcases List.mem_append.mp hm with hm | hm
    · exact h.order_seen id' hm
    · rw [List.mem_singleton.mp hm]
      exact seen

/-- A visit to a known node only records the symbol. -/
theorem visit_of_known {b : Builder} {t : SymbolTree} {f : SourceFile}
    {enclosing : Option Enclosing}
    (h : b.hasNode (nodeId t.symbol (enclosing.map Enclosing.name)) = true) :
    b.visit t f enclosing = { b with
      symbols := (nodeId t.symbol (enclosing.map Enclosing.name), ⟨t, f.text⟩) :: b.symbols } := by
  unfold visit addNode
  simp only [nodeOf, h]
  rfl

/-- A visit to a new node makes it and records the symbol. -/
theorem visit_of_new {b : Builder} {t : SymbolTree} {f : SourceFile} {enclosing : Option Enclosing}
    (h : ¬b.hasNode (nodeId t.symbol (enclosing.map Enclosing.name)) = true) :
    let id := nodeId t.symbol (enclosing.map Enclosing.name)
    b.visit t f enclosing = { b.pushNode (nodeOf t f id enclosing) with
      order := b.order ++ [id], symbols := (id, ⟨t, f.text⟩) :: b.symbols } := by
  unfold visit addNode
  simp only [nodeOf, h]
  rfl

/-- A node with its origin has the id that it had. -/
theorem assign_id (b : Builder) (packages : List Package) (n : Node) :
    (b.assign packages n).id = n.id := by
  unfold assign
  split
  · rfl
  · dsimp only
    split <;> rfl

/-- Whatever is answered, a read adds its edge or nothing, and the edge only where a reference
stands in its source. -/
theorem addRead_gives {b b' : Builder} {source target : String}
    (h : (b.addRead source target).Gives b') :
    b' = b ∨ (∃ references, b.readBy source references = true) ∧
      b' = (b.addEdge source target .readsFrom).2 := by
  unfold addRead at h
  split at h
  · exact .inl (Inquiry.gives_pure.mp h)
  · obtain ⟨answer, -, h⟩ := Inquiry.gives_bind.mp h
    split at h
    · exact .inl (Inquiry.gives_pure.mp h)
    · rename_i references
      have h := Inquiry.gives_pure.mp h
      split at h
      · rename_i confirmed
        exact .inr ⟨⟨references, confirmed⟩, h⟩
      · exact .inl h

/-- A mention of what can be called adds a call, any other a read or nothing. -/
theorem addMention_gives {readsFrom : Bool} {b b' : Builder} {pair : String × String}
    (h : (addMention readsFrom b pair).Gives b') :
    (b.isOfKind calleeKinds pair.2 = true ∧ b' = (b.addEdge pair.1 pair.2 .calls).2) ∨
      (b.isOfKind calleeKinds pair.2 = false ∧
        (b' = b ∨ (∃ references, b.readBy pair.1 references = true) ∧
          b' = (b.addEdge pair.1 pair.2 .readsFrom).2)) := by
  unfold addMention at h
  split at h
  · rename_i callee
    exact .inl ⟨callee, Inquiry.gives_pure.mp h⟩
  · rename_i other
    refine .inr ⟨Bool.eq_false_iff.mpr other, ?_⟩
    split at h
    · exact addRead_gives h
    · exact .inl (Inquiry.gives_pure.mp h)

/-! ## Growing -/

/-- One builder comes from another by adding at the end, and its books are kept if the other's
were. -/
structure Grows (b b' : Builder) : Prop where
  ids : b.ids <+: b'.ids
  edges : b.graph.edges <+: b'.graph.edges
  kept : b.Kept → b'.Kept

namespace Grows

theorem refl (b : Builder) : Grows b b := ⟨List.prefix_rfl, List.prefix_rfl, id⟩

theorem trans {b₁ b₂ b₃ : Builder} (h : Grows b₁ b₂) (h' : Grows b₂ b₃) : Grows b₁ b₃ :=
  ⟨h.ids.trans h'.ids, h.edges.trans h'.edges, h'.kept ∘ h.kept⟩

theorem foldl {α : Type} {f : Builder → α → Builder} (hf : ∀ b a, Grows b (f b a)) (l : List α) :
    ∀ b, Grows b (l.foldl f b) := by
  induction l with
  | nil => exact refl
  | cons a rest ih => exact fun b => trans (hf b a) (ih (f b a))

theorem foldlM {α : Type} {f : Builder → α → Inquiry Builder}
    (hf : ∀ b a b', (f b a).Gives b' → Grows b b') (l : List α) (b b' : Builder)
    (h : (l.foldlM f b).Gives b') : Grows b b' :=
  Inquiry.gives_foldlM (P := Grows b) l
    (fun b₁ a _ b₂ before step => before.trans (hf b₁ a b₂ step)) (refl b) h

/-! The small operations. -/

theorem addNode (b : Builder) (n : Node) : Grows b (b.addNode n).2 := by
  unfold Builder.addNode
  split
  · exact refl b
  · rename_i new
    refine ⟨pushNode_ids b n ▸ List.prefix_append _ _, List.prefix_rfl, fun h => ?_⟩
    exact h.pushNode fun hm => new (h.hasNode_iff.mpr hm)

theorem addEdge (b : Builder) (source target : String) (label : EdgeLabel) :
    Grows b (b.addEdge source target label).2 := by
  unfold Builder.addEdge
  split
  · exact refl b
  · rename_i ends
    simp only [not_or, Bool.not_eq_true', Bool.not_eq_false] at ends
    obtain ⟨named, differ, hs, ht⟩ := ends
    split
    · exact refl b
    · rename_i new
      refine ⟨List.prefix_rfl, List.prefix_append _ _, fun h => ?_⟩
      exact h.pushEdge (h.hasNode_iff.mp hs) (h.hasNode_iff.mp ht) named differ new

theorem visit (b : Builder) (t : SymbolTree) (f : SourceFile) (enclosing : Option Enclosing) :
    Grows b (b.visit t f enclosing) := by
  by_cases hn : b.hasNode (nodeId t.symbol (enclosing.map Enclosing.name)) = true
  · rw [visit_of_known hn]
    exact ⟨List.prefix_rfl, List.prefix_rfl, fun h => h.see (h.hasNode_iff.mp hn) _⟩
  · rw [visit_of_new hn]
    refine ⟨pushNode_ids b _ ▸ List.prefix_append _ _, List.prefix_rfl, fun h => ?_⟩
    have new : nodeId t.symbol (enclosing.map Enclosing.name) ∉ b.ids :=
      fun hm => hn (h.hasNode_iff.mpr hm)
    have pushed := h.pushNode (n := nodeOf t f _ enclosing) new
    refine (pushed.see ?_ ⟨t, f.text⟩).enlist (fun hm => new ?_) ?_
    · rw [pushNode_ids]
      exact List.mem_append_right _ (List.mem_singleton.mpr rfl)
    · exact h.seen_known _ (h.order_seen _ hm)
    · simp [symbol?]

mutual

theorem addTree (f : SourceFile) (enclosing : Option Enclosing) (b : Builder) :
    ∀ t, Grows b (b.addTree f enclosing t)
  | ⟨s, children⟩ => by
    rw [Builder.addTree]
    exact (visit b _ f enclosing).trans (addTrees f _ _ children)

theorem addTrees (f : SourceFile) (enclosing : Option Enclosing) (b : Builder) :
    ∀ trees, Grows b (b.addTrees f enclosing trees)
  | [] => by
    rw [Builder.addTrees]
    exact refl b
  | t :: rest => by
    rw [Builder.addTrees]
    exact (addTree f enclosing b t).trans (addTrees f enclosing _ rest)

end

theorem addFiles (b : Builder) (files : List SourceFile) : Grows b (b.addFiles files) :=
  foldl (fun b f => addTrees f none b f.symbols) files b

/-! The passes over a whole graph. -/

theorem addInheritanceEdges (b : Builder) : Grows b b.addInheritanceEdges :=
  foldl (fun b (s, t, label) => addEdge b s t label) _ b

theorem addMention {readsFrom : Bool} {b b' : Builder} {pair : String × String}
    (h : (addMention readsFrom b pair).Gives b') : Grows b b' := by
  rcases addMention_gives h with ⟨-, rfl⟩ | ⟨-, rfl | ⟨-, rfl⟩⟩
  · exact addEdge b pair.1 pair.2 .calls
  · exact refl _
  · exact addEdge b pair.1 pair.2 .readsFrom

theorem addEdges {readsFrom : Bool} {b b' : Builder} (h : (b.addEdges readsFrom).Gives b') :
    Grows b b' :=
  (addInheritanceEdges b).trans (foldlM (fun _ _ _ => addMention) _ _ b' h)

/-- Giving nodes their origin changes no id, and so no book. -/
theorem assignAll (b : Builder) (packages : List Package) : Grows b (b.assignAll packages) := by
  have ids_eq : (b.assignAll packages).ids = b.ids := by
    rw [Builder.ids, Builder.assignAll, List.map_map]
    exact List.map_congr_left fun n _ => b.assign_id packages n
  refine ⟨ids_eq ▸ List.prefix_rfl, List.prefix_rfl, fun h => ?_⟩
  exact { h with
    ids_nodup := ids_eq ▸ h.ids_nodup
    known_iff := ids_eq ▸ h.known_iff
    place_iff := ids_eq ▸ h.place_iff
    seen_known := ids_eq ▸ h.seen_known
    ends_known := ids_eq ▸ h.ends_known }

theorem join (projectLabel : String) (b : Builder) (crossing : Option String × String) :
    Grows b (join projectLabel b crossing) := by
  unfold Builder.join
  dsimp only
  split
  · cases crossing.1 with
    | some source => exact addEdge b (containerId source) _ _
    | none => exact (addNode b _).trans (addEdge _ _ _ _)
  · exact refl b

theorem addPackages (b : Builder) (packages : List Package) (f : Filters)
    (projectLabel : String) : Grows b (b.addPackages packages f projectLabel) := by
  unfold Builder.addPackages
  split
  · exact refl b
  · have containers := foldl (fun b p => addNode b (Package.container p))
      (relevantPackages packages f) b
    exact containers.trans ((assignAll _ packages).trans (foldl (join projectLabel) _ _))

end Grows

/-! ## Histories -/

/-- What can be done to a builder. -/
inductive Operation where
  | addFiles (files : List SourceFile)
  | addNode (n : Node)
  | addEdge (source target : String) (label : EdgeLabel)
  | addInheritanceEdges
  | addEdges (readsFrom : Bool)
  | addPackages (packages : List Package) (f : Filters) (projectLabel : String)

/-- Does it. -/
def Operation.run (b : Builder) : Operation → Inquiry Builder
  | addFiles files => return b.addFiles files
  | addNode n => return (b.addNode n).2
  | addEdge source target label => return (b.addEdge source target label).2
  | addInheritanceEdges => return b.addInheritanceEdges
  | addEdges readsFrom => b.addEdges readsFrom
  | addPackages packages f projectLabel => return b.addPackages packages f projectLabel

/-- What a builder that began empty may be after some operations, whatever a service answers. -/
inductive History : List Operation → Builder → Prop where
  | start : History [] {}
  | next {ops : List Operation} {b b' : Builder} (op : Operation) (before : History ops b)
      (step : (op.run b).Gives b') : History (ops ++ [op]) b'

theorem Grows.run {op : Operation} {b b' : Builder} (h : (op.run b).Gives b') : Grows b b' := by
  cases op with
  | addFiles files => exact Inquiry.gives_pure.mp h ▸ addFiles b files
  | addNode n => exact Inquiry.gives_pure.mp h ▸ addNode b n
  | addEdge source target label => exact Inquiry.gives_pure.mp h ▸ addEdge b source target label
  | addInheritanceEdges => exact Inquiry.gives_pure.mp h ▸ addInheritanceEdges b
  | addEdges readsFrom => exact addEdges h
  | addPackages packages f label => exact Inquiry.gives_pure.mp h ▸ addPackages b packages f label

/-- The books of a builder that began empty are kept. -/
theorem History.kept {ops : List Operation} {b : Builder} (h : History ops b) : b.Kept := by
  induction h with
  | start => exact empty_kept
  | next op _ step ih => exact (Grows.run step).kept ih

/-- After any operations on an empty builder, in any order and whatever a service answers: no two
nodes share an id, a node is known exactly if it is found, the node found has the id asked for and
is a node of the graph, and what stands in the order of symbols has a symbol and a node. Every edge
leads from a known node to another and has its place for a number, and no two edges have the same
ends and label. A further operation only adds at the end. -/
theorem history_keeps_books (ops : List Operation) (b : Builder) (h : History ops b) :
    (b.graph.nodes.map Node.id).Nodup ∧
    (∀ id, b.hasNode id = true ↔ ∃ n, b.node? id = some n) ∧
    (∀ id n, b.node? id = some n ↔ n ∈ b.graph.nodes ∧ n.id = id) ∧
    (b.order.Nodup ∧ ∀ id ∈ b.order, (b.symbol? id).isSome ∧ b.hasNode id = true) ∧
    (∀ e ∈ b.graph.edges, e.source ≠ "" ∧ e.source ≠ e.target ∧
      b.hasNode e.source = true ∧ b.hasNode e.target = true) ∧
    b.graph.edges.Pairwise (fun e e' => (e.source, e.target, e.label) ≠
      (e'.source, e'.target, e'.label)) ∧
    (∀ (i : Nat) (e : Edge), b.graph.edges[i]? = some e → e.id = "e" ++ toString i) ∧
    (∀ (op : Operation) (b' : Builder), (op.run b).Gives b' →
      b.graph.nodes.map Node.id <+: b'.graph.nodes.map Node.id ∧
        b.graph.edges <+: b'.graph.edges) := by
  have kept := h.kept
  refine ⟨kept.ids_nodup, fun _ => kept.hasNode_iff_node?, fun _ _ => kept.node?_eq_some,
    ⟨kept.order_nodup, ?_⟩, ?_, ?_, kept.numbered, ?_⟩
  · intro id hm
    have seen := kept.order_seen id hm
    exact ⟨seen, kept.hasNode_iff.mpr (kept.seen_known id seen)⟩
  · intro e he
    obtain ⟨hs, ht⟩ := kept.ends_known e he
    obtain ⟨named, differ⟩ := kept.ends_differ e he
    exact ⟨named, differ, kept.hasNode_iff.mpr hs, kept.hasNode_iff.mpr ht⟩
  · exact List.pairwise_map.mp kept.ends_nodup
  · intro op b' step
    have grows := Grows.run step
    exact ⟨grows.ids, grows.edges⟩

/-- A class and the class that it extends. -/
def heirAndParent : SourceFile where
  fileId := "f"
  symbols :=
    [⟨{ Symbol.ofName "Heir" .classDecl "f" with
        relations := some { superclass := some (.named "Parent") } }, []⟩,
     ⟨Symbol.ofName "Parent" .classDecl "f", []⟩]

/-- An empty builder that sees the two classes twice and then has the project join the heir. -/
def heirBuilder : Builder :=
  let b := (({} : Builder).addFiles [heirAndParent]).addFiles [heirAndParent]
  let b := (b.addInheritanceEdges.addNode (projectContainer "app")).2
  (b.addEdge projectId "f#kind:class#name:Heir" .usesAsType).2

/-- Nothing is made twice in the history of this builder, and both kinds of edges are. -/
theorem history_keeps_books_heir :
    History [.addFiles [heirAndParent], .addFiles [heirAndParent], .addInheritanceEdges,
      .addNode (projectContainer "app"), .addEdge projectId "f#kind:class#name:Heir" .usesAsType]
      heirBuilder ∧
    heirBuilder.graph.nodes.map Node.id =
      ["f#kind:class#name:Heir", "f#kind:class#name:Parent", projectId] ∧
    heirBuilder.graph.edges =
      [⟨"e0", "f#kind:class#name:Heir", "f#kind:class#name:Parent", .inherits⟩,
       ⟨"e1", projectId, "f#kind:class#name:Heir", .usesAsType⟩] ∧
    ∀ id, heirBuilder.hasNode id = true ↔ ∃ n, heirBuilder.node? id = some n := by
  have history := History.start.next (.addFiles [heirAndParent]) (.done _)
    |>.next (.addFiles [heirAndParent]) (.done _) |>.next .addInheritanceEdges (.done _)
    |>.next (.addNode (projectContainer "app")) (.done _)
    |>.next (.addEdge projectId "f#kind:class#name:Heir" .usesAsType) (.done _)
  exact ⟨history, by decide, by decide, (history_keeps_books _ heirBuilder history).2.1⟩

end Builder

end CodeAtlas
