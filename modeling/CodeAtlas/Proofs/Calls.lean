import CodeAtlas.Proofs.Visits

/-!
Call edges. After files are added and edges are made, one symbol calls another exactly if the body
of the first has a call site that names the second (`calls_are_mentions`). The edge passes leave
nodes and symbols alone (`withoutEdges`), and the calls among the edges come in the order of the
mentions, each once (`calls_foldlM`), whatever a service answers about reads.
-/
namespace CodeAtlas

/-- The ends of the edges with a label, in order. -/
def Graph.pairs (g : Graph) (label : EdgeLabel) : List (String × String) :=
  (g.edges.filter fun e => e.label = label).map fun e => (e.source, e.target)

/-- The body of the symbol that is met has a call site for a name. -/
def Visit.Mentions (v : Visit) (name : String) : Prop :=
  ∃ range, v.tree.symbol.range = some range ∧ range.slice v.file.text.toList ≠ [] ∧
    name.toList ∈ Source.callSites (Source.code (range.slice v.file.text.toList))

/-- A pair put at the end unless it is there. -/
def addPair (pairs : List (String × String)) (p : String × String) : List (String × String) :=
  if p ∈ pairs then pairs else pairs ++ [p]

theorem mem_foldl_addPair {p : String × String} (l : List (String × String)) :
    ∀ pairs, p ∈ l.foldl addPair pairs ↔ p ∈ pairs ∨ p ∈ l := by
  induction l with
  | nil => simp
  | cons q rest ih =>
    intro pairs
    have step : p ∈ addPair pairs q ↔ p ∈ pairs ∨ p = q := by
      unfold addPair
      split
      · rename_i h
        exact ⟨.inl, fun hp => hp.elim id fun e => e ▸ h⟩
      · rw [List.mem_append, List.mem_singleton]
    rw [List.foldl_cons, ih, step, List.mem_cons, or_assoc]

theorem nodup_foldl_addPair (l : List (String × String)) :
    ∀ pairs, pairs.Nodup → (l.foldl addPair pairs).Nodup := by
  induction l with
  | nil => exact fun _ h => h
  | cons q rest ih =>
    intro pairs h
    refine ih _ ?_
    unfold addPair
    split
    · exact h
    · rename_i new
      exact List.concat_eq_append ▸ List.Nodup.concat new h

namespace Builder

/-! ## What edges leave alone -/

/-- A builder as if it had no edges. -/
def withoutEdges (b : Builder) : Builder :=
  { b with graph := { nodes := b.graph.nodes }, joined := [], nextEdge := 0 }

theorem addEdge_eq (b : Builder) (source target : String) (label : EdgeLabel) :
    (b.addEdge source target label).2 = b ∨
      (b.addEdge source target label).2 = b.pushEdge source target label := by
  unfold addEdge
  split
  · exact .inl rfl
  · split
    · exact .inl rfl
    · exact .inr rfl

theorem addEdge_withoutEdges (b : Builder) (source target : String) (label : EdgeLabel) :
    (b.addEdge source target label).2.withoutEdges = b.withoutEdges := by
  rcases addEdge_eq b source target label with h | h <;> rw [h]
  rfl

/-- What does not look at edges is the same for builders that only differ in edges. -/
theorem eq_of_withoutEdges {α : Type} (f : Builder → α) (blind : ∀ b, f b = f b.withoutEdges)
    {b b' : Builder} (h : b'.withoutEdges = b.withoutEdges) : f b' = f b :=
  calc f b' = f b'.withoutEdges := blind b'
    _ = f b.withoutEdges := by rw [h]
    _ = f b := (blind b).symm

theorem nodes_of_withoutEdges {b b' : Builder} (h : b'.withoutEdges = b.withoutEdges) :
    b'.graph.nodes = b.graph.nodes := eq_of_withoutEdges (fun b => b.graph.nodes) (fun _ => rfl) h

theorem isOfKind_of_withoutEdges {b b' : Builder} (h : b'.withoutEdges = b.withoutEdges) :
    b'.isOfKind = b.isOfKind := eq_of_withoutEdges isOfKind (fun _ => rfl) h

theorem mentionPairs_of_withoutEdges {b b' : Builder} (h : b'.withoutEdges = b.withoutEdges) :
    b'.mentionPairs = b.mentionPairs := eq_of_withoutEdges mentionPairs (fun _ => rfl) h

theorem hasNode_of_withoutEdges {b b' : Builder} (h : b'.withoutEdges = b.withoutEdges) :
    b'.hasNode = b.hasNode := eq_of_withoutEdges hasNode (fun _ => rfl) h

/-! ## The pairs of one label -/

theorem pairs_pushEdge (b : Builder) (source target : String) (label label' : EdgeLabel) :
    (b.pushEdge source target label).graph.pairs label' =
      b.graph.pairs label' ++ if label = label' then [(source, target)] else [] := by
  simp only [Graph.pairs, pushEdge, List.filter_append, List.map_append]
  by_cases h : label = label' <;> simp [h]

/-- An edge under another label is none of the pairs. -/
theorem pairs_addEdge_of_ne (b : Builder) (source target : String) {label label' : EdgeLabel}
    (h : label ≠ label') :
    (b.addEdge source target label).2.graph.pairs label' = b.graph.pairs label' := by
  rcases addEdge_eq b source target label with e | e <;> rw [e]
  rw [pairs_pushEdge, if_neg h, List.append_nil]

theorem mem_pairs {b : Builder} (h : b.Kept) {source target : String} {label : EdgeLabel} :
    (source, target) ∈ b.graph.pairs label ↔ (source, target, label) ∈ b.joined := by
  rw [h.joined_iff, Graph.pairs, List.mem_map, List.mem_map]
  refine ⟨?_, ?_⟩
  · rintro ⟨e, he, ends⟩
    obtain ⟨he, hl⟩ := List.mem_filter.mp he
    simp at hl ends
    exact ⟨e, he, by simp [Edge.ends, hl, ends]⟩
  · rintro ⟨e, he, ends⟩
    simp [Edge.ends] at ends
    exact ⟨e, List.mem_filter.mpr ⟨he, by simp [ends]⟩, by simp [ends]⟩

/-- Whether an edge can be made between two nodes. -/
structure Joinable (b : Builder) (source target : String) : Prop where
  named : source ≠ ""
  differ : source ≠ target
  hasSource : b.hasNode source = true
  hasTarget : b.hasNode target = true

/-- Between nodes that can be joined an edge is there afterwards, once. -/
theorem pairs_addEdge {b : Builder} (h : b.Kept) {source target : String}
    (joinable : b.Joinable source target) (label : EdgeLabel) :
    (b.addEdge source target label).2.graph.pairs label =
      addPair (b.graph.pairs label) (source, target) := by
  obtain ⟨named, differ, hs, ht⟩ := joinable
  have ends : ¬(source = "" ∨ source = target ∨ !b.hasNode source ∨ !b.hasNode target) := by
    simp [named, differ, hs, ht]
  rw [addEdge, if_neg ends, addPair]
  simp only [mem_pairs h]
  split
  · rfl
  · rw [pairs_pushEdge, if_pos rfl]

/-! ## Mentions -/

theorem isOfKind_iff {b : Builder} {kinds : List String} {id : String} :
    b.isOfKind kinds id = true ↔ ∃ n, b.node? id = some n ∧ n.kind ∈ kinds := by
  rw [isOfKind, Option.any_eq_true]
  simp only [List.contains_iff_mem]

theorem mem_mentionPairs {b : Builder} {source target : String} :
    (source, target) ∈ b.mentionPairs ↔
      source ∈ b.order ∧ b.isOfKind callerKinds source = true ∧
        ∃ v, b.symbol? source = some v ∧ ∃ w, b.symbol? target = some w ∧
          w.tree.symbol.name ∈ mentions v ∧ target ∈ b.order ∧ target ≠ source := by
  have named_iff : ∀ name, target ∈ b.named name ↔
      target ∈ b.order ∧ ∃ w, b.symbol? target = some w ∧ w.tree.symbol.name = name := by
    intro name
    rw [named, List.mem_filter, beq_iff_eq, nameOf?, Option.map_eq_some_iff]
  have mentioned_iff : target ∈ b.mentioned source ↔ ∃ v, b.symbol? source = some v ∧
      ∃ name ∈ mentions v, target ∈ b.named name ∧ target ≠ source := by
    unfold mentioned
    split
    · rename_i unseen
      simp [unseen]
    · rename_i v seen
      simp [seen]
  rw [mentionPairs, List.mem_flatMap]
  simp only [List.mem_filter, List.mem_map, Prod.mk.injEq]
  refine ⟨?_, ?_⟩
  · rintro ⟨_, ⟨hs, caller⟩, _, ht, rfl, rfl⟩
    obtain ⟨v, hv, name, hname, found, differ⟩ := mentioned_iff.mp ht
    obtain ⟨listed, w, hw, rfl⟩ := (named_iff name).mp found
    exact ⟨hs, caller, v, hv, w, hw, hname, listed, differ⟩
  · rintro ⟨hs, caller, v, hv, w, hw, hname, ht, differ⟩
    refine ⟨source, ⟨hs, caller⟩, target, mentioned_iff.mpr ?_, rfl, rfl⟩
    exact ⟨v, hv, _, hname, (named_iff _).mpr ⟨ht, w, hw, rfl⟩, differ⟩

/-! ## The calls among the edges -/

theorem addMention_withoutEdges {readsFrom : Bool} {b b' : Builder} {pair : String × String}
    (h : (addMention readsFrom b pair).Gives b') : b'.withoutEdges = b.withoutEdges := by
  rcases addMention_gives h with ⟨-, rfl⟩ | ⟨-, rfl | ⟨-, rfl⟩⟩
  · exact addEdge_withoutEdges b _ _ _
  · rfl
  · exact addEdge_withoutEdges b _ _ _

/-- The calls grow by the mentions of what can be called, in their order and each once. -/
theorem calls_foldlM {readsFrom : Bool} (ps : List (String × String)) :
    ∀ {b b' : Builder}, b.Kept → (∀ p ∈ ps, b.Joinable p.1 p.2) →
      (ps.foldlM (addMention readsFrom) b).Gives b' →
      b'.graph.pairs .calls =
        (ps.filter fun p => b.isOfKind calleeKinds p.2).foldl addPair (b.graph.pairs .calls) := by
  induction ps with
  | nil =>
    intro b b' _ _ h
    rw [Inquiry.gives_pure.mp h]
    rfl
  | cons p rest ih =>
    intro b b' kept joinable h
    obtain ⟨b₁, h₁, h₂⟩ := Inquiry.gives_foldlM_cons.mp h
    have same := addMention_withoutEdges h₁
    have joinable₁ : ∀ q ∈ rest, b₁.Joinable q.1 q.2 := by
      intro q hq
      obtain ⟨named, differ, hs, ht⟩ := joinable q (List.mem_cons_of_mem p hq)
      rw [← hasNode_of_withoutEdges same] at hs ht
      exact ⟨named, differ, hs, ht⟩
    rw [ih ((Grows.addMention h₁).kept kept) joinable₁ h₂, isOfKind_of_withoutEdges same]
    rcases addMention_gives h₁ with ⟨callee, rfl⟩ | ⟨other, rfl | ⟨-, rfl⟩⟩
    · rw [List.filter_cons, if_pos callee, List.foldl_cons,
        pairs_addEdge kept (joinable p List.mem_cons_self)]
    · rw [List.filter_cons, if_neg (by simp [other])]
    · rw [List.filter_cons, if_neg (by simp [other]), pairs_addEdge_of_ne b _ _ (by decide)]

theorem addInheritanceEdges_withoutEdges (b : Builder) :
    b.addInheritanceEdges.withoutEdges = b.withoutEdges := by
  unfold addInheritanceEdges
  generalize b.order.flatMap b.inheritanceOf = l
  induction l generalizing b with
  | nil => rfl
  | cons e rest ih =>
    rw [List.foldl_cons, ih]
    exact addEdge_withoutEdges b _ _ _

theorem addEdges_withoutEdges {b b' : Builder} {readsFrom : Bool}
    (gives : (b.addEdges readsFrom).Gives b') : b'.withoutEdges = b.withoutEdges :=
  Inquiry.gives_foldlM (P := fun b' : Builder => b'.withoutEdges = b.withoutEdges) _
    (fun _ _ _ _ alike step => (addMention_withoutEdges step).trans alike)
    (addInheritanceEdges_withoutEdges b) gives

/-- The edges of inheritance have no other labels than their own. -/
theorem label_of_inheritanceOf {b : Builder} {id : String} {e : String × String × EdgeLabel}
    (h : e ∈ b.inheritanceOf id) : e.2.2 = .inherits ∨ e.2.2 = .implements := by
  unfold inheritanceOf at h
  split at h
  · exact absurd h List.not_mem_nil
  · obtain ⟨⟨target, label⟩, hr, he⟩ := List.mem_filterMap.mp h
    obtain ⟨found, -, rfl⟩ := Option.map_eq_some_iff.mp he
    rcases List.mem_append.mp hr with hr | hr <;> obtain ⟨_, -, hr⟩ := List.mem_map.mp hr <;>
      cases hr
    · exact .inl rfl
    · exact .inr rfl

/-- Inheritance adds nothing under other labels than its own. -/
theorem pairs_addInheritanceEdges (b : Builder) {label : EdgeLabel} (h : label ≠ .inherits)
    (h' : label ≠ .implements) : b.addInheritanceEdges.graph.pairs label = b.graph.pairs label := by
  have other : ∀ e ∈ b.order.flatMap b.inheritanceOf, e.2.2 ≠ label := by
    intro e he
    obtain ⟨id, -, he⟩ := List.mem_flatMap.mp he
    rcases label_of_inheritanceOf he with hl | hl <;> rw [hl]
    · exact h.symm
    · exact h'.symm
  unfold addInheritanceEdges
  generalize b.order.flatMap b.inheritanceOf = l at other
  induction l generalizing b with
  | nil => rfl
  | cons e rest ih =>
    rw [List.foldl_cons, ih _ fun e' he' => other e' (List.mem_cons_of_mem e he')]
    exact pairs_addEdge_of_ne b _ _ (other e List.mem_cons_self)

/-- The edge of a mention can be made. -/
theorem joinable_mentionPairs (vs : List Visit) :
    ∀ p ∈ (ofVisits vs).addInheritanceEdges.mentionPairs,
      (ofVisits vs).addInheritanceEdges.Joinable p.1 p.2 := by
  intro p hp
  have same := addInheritanceEdges_withoutEdges (ofVisits vs)
  have known : ∀ id ∈ (ofVisits vs).order, (ofVisits vs).hasNode id = true := by
    intro id hm
    exact (kept_ofVisits vs).hasNode_iff.mpr (order_ofVisits vs ▸ hm)
  rw [mentionPairs_of_withoutEdges same] at hp
  obtain ⟨hs, -, _, -, _, -, -, ht, differ⟩ := mem_mentionPairs.mp hp
  obtain ⟨v, hv⟩ := mem_order_ofVisits.mp hs
  refine ⟨ne_empty_of_lastVisit hv, Ne.symm differ, ?_, ?_⟩
  · rw [hasNode_of_withoutEdges same]
    exact known p.1 hs
  · rw [hasNode_of_withoutEdges same]
    exact known p.2 ht

/-- The calls of a builder that was shown files and is given edges. -/
theorem calls_of_visits (vs : List Visit) {readsFrom : Bool} {b' : Builder}
    (h : ((ofVisits vs).addEdges readsFrom).Gives b') :
    b'.graph.pairs .calls =
      ((ofVisits vs).mentionPairs.filter fun p =>
        (ofVisits vs).isOfKind calleeKinds p.2).foldl addPair [] := by
  have same := addInheritanceEdges_withoutEdges (ofVisits vs)
  have kept := (Grows.addInheritanceEdges (ofVisits vs)).kept (kept_ofVisits vs)
  have fresh : (ofVisits vs).graph.pairs .calls = [] := by rw [Graph.pairs, edges_ofVisits]; rfl
  rw [calls_foldlM _ kept (joinable_mentionPairs vs) h, mentionPairs_of_withoutEdges same,
    isOfKind_of_withoutEdges same, pairs_addInheritanceEdges _ (by decide) (by decide), fresh]

theorem mem_mentions {v : Visit} {name : String} :
    name ∈ mentions ⟨v.tree, v.file.text⟩ ↔ v.Mentions name := by
  unfold mentions Visit.Mentions
  cases v.tree.symbol.range with
  | none => simp
  | some range =>
    simp only [Text.mem_sorted, List.mem_map, Option.some.injEq, exists_eq_left']
    refine ⟨?_, ?_⟩
    · rintro ⟨site, hs, rfl⟩
      rw [String.toList_ofList]
      refine ⟨fun empty => ?_, hs⟩
      rw [empty] at hs
      simp [Source.code, Source.scan, Source.callSites] at hs
    · rintro ⟨-, hs⟩
      exact ⟨_, hs, String.ofList_toList⟩

/-- After files are shown to an empty builder set by set and edges are made, whatever is answered
about reads: a call leads from `s` to `t` exactly if these are different visited symbols, of kinds
that call and that are called, and the body of the one last visited under `s` has a call site for
the name of the one last visited under `t`. There is one call for such a pair, and neither the
answers nor the wish for reads changes the calls or their order. -/
theorem calls_are_mentions (sets : List (List SourceFile)) (readsFrom : Bool) (b' : Builder)
    (joined : ((ofFiles sets).addEdges readsFrom).Gives b') :
    (b'.graph.pairs .calls).Nodup ∧
    (∀ s t, (s, t) ∈ b'.graph.pairs .calls ↔
      s ≠ t ∧
      (∃ n, (ofFiles sets).node? s = some n ∧ n.kind ∈ ["method", "function", "constructor"]) ∧
      (∃ n, (ofFiles sets).node? t = some n ∧ n.kind ∈ ["method", "function"]) ∧
      ∃ v w, lastVisit? (visits sets.flatten) s = some v ∧
        lastVisit? (visits sets.flatten) t = some w ∧ v.Mentions w.tree.symbol.name) ∧
    ∀ (readsFrom' : Bool) (b'' : Builder), ((ofFiles sets).addEdges readsFrom').Gives b'' →
      b''.graph.pairs .calls = b'.graph.pairs .calls := by
  rw [ofFiles_eq] at joined ⊢
  generalize visits sets.flatten = vs at joined
  have made := calls_of_visits vs joined
  refine ⟨made ▸ nodup_foldl_addPair _ [] List.nodup_nil, fun s t => ?_, ?_⟩
  · have seen : ∀ id x, (ofVisits vs).symbol? id = some x ↔
        ∃ v, lastVisit? vs id = some v ∧ ⟨v.tree, v.file.text⟩ = x := by
      intro id x
      rw [symbol?_ofVisits, Option.map_eq_some_iff]
    rw [made, mem_foldl_addPair, List.mem_filter, mem_mentionPairs, isOfKind_iff, isOfKind_iff]
    refine ⟨?_, ?_⟩
    · rintro (h | ⟨⟨-, caller, x, hx, y, hy, hname, -, differ⟩, callee⟩)
      · exact absurd h List.not_mem_nil
      · obtain ⟨v, hv, rfl⟩ := (seen s x).mp hx
        obtain ⟨w, hw, rfl⟩ := (seen t y).mp hy
        exact ⟨Ne.symm differ, caller, callee, v, w, hv, hw, mem_mentions.mp hname⟩
    · rintro ⟨differ, caller, callee, v, w, hv, hw, hname⟩
      refine .inr ⟨⟨mem_order_ofVisits.mpr ⟨v, hv⟩, caller, _, (seen s _).mpr ⟨v, hv, rfl⟩, _,
        (seen t _).mpr ⟨w, hw, rfl⟩, mem_mentions.mpr hname, ?_, Ne.symm differ⟩, callee⟩
      exact mem_order_ofVisits.mpr ⟨w, hw⟩
  · intro readsFrom' b'' joined'
    rw [made, calls_of_visits vs joined']

/-- Two functions, one of which calls the other and names itself in a comment. -/
def pingPong : SourceFile where
  fileId := "f"
  text := "ping() { pong(); } // ping()"
  symbols :=
    [⟨{ Symbol.ofName "ping" .function "f" with range := some ⟨⟨0, 0⟩, ⟨0, 28⟩⟩ }, []⟩,
     ⟨Symbol.ofName "pong" .function "f", []⟩]

/-- The graph of the two functions, made with a service that always fails. -/
def pingPongBuilder : Builder := ((ofFiles [[pingPong]]).addEdges true).answer fun _ => none

theorem calls_are_mentions_pingPong :
    ((ofFiles [[pingPong]]).addEdges true).Gives pingPongBuilder ∧
      ("f#kind:func#name:ping", "f#kind:func#name:pong") ∈ pingPongBuilder.graph.pairs .calls := by
  have joined := Inquiry.gives_answer (fun _ => none) ((ofFiles [[pingPong]]).addEdges true)
  refine ⟨joined, ((calls_are_mentions [[pingPong]] true pingPongBuilder joined).2.1 _ _).mpr ?_⟩
  have sites : Source.callSites (Source.code
      (Range.slice ⟨⟨0, 0⟩, ⟨0, 28⟩⟩ pingPong.text.toList)) =
        ["ping".toList, "pong".toList] := by cbv
  refine ⟨by decide, ⟨_, rfl, by decide⟩, ⟨_, rfl, by decide⟩, _, _, rfl, rfl, _, rfl, ?_, ?_⟩
  · decide
  · exact sites ▸ by decide

end Builder

end CodeAtlas
