import CodeAtlas.Graph.Metrics
import Mathlib.Data.List.Chain
import Mathlib.Data.List.Nodup
import Mathlib.Data.List.Perm.Subperm

/-!
Data flows as walks in a graph. Both directions of a flow are walks of one kind: from a node to the
first one hop away that has not been met, as often as there is one and hops are left (`Greedy`). So
such a walk meets no node twice, keeps to the edges, and stops early only where every hop leads back
(`follow_stops`). A flow is two of them from one start, the second avoiding the nodes of the first
(`dataFlow_walks`).
-/
namespace CodeAtlas.Graph

/-- An edge with the label leads from the one node to the other. -/
def Linked (g : Graph) (label : EdgeLabel) (source target : String) : Prop :=
  ∃ e ∈ g.edges, e.label = label ∧ e.source = source ∧ e.target = target

/-! ## One hop -/

/-- The search for the next node of a walk finds one that has not been met and is one hop away, if
there is any. -/
structure Greedy (hop : String → String → Prop) (next? : List String → String → Option String) :
    Prop where
  sound : ∀ {seen id found}, next? seen id = some found → hop id found ∧ found ∉ seen
  complete : ∀ {seen id}, next? seen id = none → ∀ other, hop id other → other ∈ seen

/-- To look for the first fitting edge whose far end has not been met is such a search. -/
theorem greedy_find (fits : String → Edge → Bool) {edges : List Edge} {far : Edge → String}
    {hop : String → String → Prop}
    (hops : ∀ id other, hop id other ↔ ∃ e ∈ edges, fits id e = true ∧ far e = other) :
    Greedy hop fun seen id =>
      (edges.find? fun e => fits id e && !seen.contains (far e)).map far where
  sound := by
    intro seen id found h
    obtain ⟨e, first, rfl⟩ := Option.map_eq_some_iff.mp h
    have holds := List.find?_some first
    simp only [Bool.and_eq_true, Bool.not_eq_true', List.contains_eq_mem,
      decide_eq_false_iff_not] at holds
    exact ⟨(hops id _).mpr ⟨e, List.mem_of_find?_eq_some first, holds.1, rfl⟩, holds.2⟩
  complete := by
    intro seen id h other one_hop
    obtain ⟨e, he, fit, rfl⟩ := (hops id other).mp one_hop
    have passed := List.find?_eq_none.mp (Option.map_eq_none_iff.mp h) e he
    simpa [fit] using passed

theorem greedy_writer? (g : Graph) :
    Greedy (fun id writer => g.Linked .writesTo writer id) g.writer? := by
  apply greedy_find fun id e => e.target == id && e.label == .writesTo
  intro id writer
  apply exists_congr
  intro e
  simp only [Bool.and_eq_true, beq_iff_eq]
  tauto

theorem greedy_reader? (g : Graph) : Greedy (g.Linked .readsFrom) g.reader? := by
  apply greedy_find fun id e => e.source == id && e.label == .readsFrom
  intro id reader
  apply exists_congr
  intro e
  simp only [Bool.and_eq_true, beq_iff_eq]
  tauto

/-! ## Walks -/

section Walks

variable {hop : String → String → Prop} {next? : List String → String → Option String}
  {hops : Nat} {seen : List String} {id : String}

theorem length_follow_le : (follow next? hops seen id).length ≤ hops := by
  fun_induction follow next? hops seen id with
  | case1 => simp
  | case2 => simp
  | case3 hops seen id found first ih => simp [ih]

/-- A walk with fewer hops is the beginning of one with more. -/
theorem follow_min (most : Nat) :
    follow next? (min hops most) seen id = (follow next? hops seen id).take most := by
  induction hops generalizing most seen id with
  | zero => simp [follow]
  | succ hops ih =>
    cases most with
    | zero => simp [follow]
    | succ most =>
      rw [Nat.add_min_add_right, follow, follow]
      split
      · simp
      · rw [List.take_succ_cons, ih]

/-- A walk meets only new nodes, and none of them twice. -/
theorem follow_fresh (greedy : Greedy hop next?) :
    (follow next? hops seen id).Nodup ∧ ∀ x ∈ follow next? hops seen id, x ∉ seen := by
  fun_induction follow next? hops seen id with
  | case1 => simp
  | case2 => simp
  | case3 hops seen id found first ih =>
    obtain ⟨nodup, fresh⟩ := ih
    have new := (greedy.sound first).2
    refine ⟨List.nodup_cons.mpr ⟨?_, nodup⟩, List.forall_mem_cons.mpr ⟨new, ?_⟩⟩
    · intro again
      exact fresh found again List.mem_cons_self
    · intro x hx old
      exact fresh x hx (List.mem_cons_of_mem found old)

/-- A walk keeps to the edges. -/
theorem follow_chain (greedy : Greedy hop next?) :
    (id :: follow next? hops seen id).IsChain hop := by
  fun_induction follow next? hops seen id with
  | case1 => exact .singleton _
  | case2 => exact .singleton _
  | case3 hops seen id found first ih =>
    exact List.isChain_cons_cons.mpr ⟨(greedy.sound first).1, ih⟩

/-- A walk that has hops left stops where each hop leads to a node that it has met. -/
theorem follow_stops (greedy : Greedy hop next?)
    (left : (follow next? hops seen id).length < hops) :
    ∀ x, hop ((follow next? hops seen id).getLastD id) x →
      x ∈ seen ∨ x ∈ follow next? hops seen id := by
  fun_induction follow next? hops seen id with
  | case1 => exact absurd left (Nat.not_lt_zero _)
  | case2 hops seen id stop => exact fun x one_hop => .inl (greedy.complete stop x one_hop)
  | case3 hops seen id found first ih =>
    intro x one_hop
    rw [List.getLastD_cons] at one_hop
    have left := Nat.lt_of_succ_lt_succ left
    rcases ih left x one_hop with old | later
    · rcases List.mem_cons.mp old with rfl | old
      · exact .inr List.mem_cons_self
      · exact .inl old
    · exact .inr (List.mem_cons_of_mem found later)

/-- Where all hops lead to listed nodes, a walk has no more hops than there are nodes listed. -/
theorem length_follow_le_ends (greedy : Greedy hop next?) {ends : List String}
    (known : ∀ id other, hop id other → other ∈ ends) :
    (follow next? hops seen id).length ≤ ends.length := by
  have listed : follow next? hops seen id ⊆ ends := by
    fun_induction follow next? hops seen id with
    | case1 => exact List.nil_subset ends
    | case2 => exact List.nil_subset ends
    | case3 hops seen id found first ih =>
      exact List.cons_subset.mpr ⟨known id found (greedy.sound first).1, ih⟩
  exact ((follow_fresh greedy).1.subperm listed).length_le

theorem follow_min_ends (greedy : Greedy hop next?) {ends : List String}
    (known : ∀ id other, hop id other → other ∈ ends) :
    follow next? (min hops ends.length) seen id = follow next? hops seen id := by
  rw [follow_min, List.take_of_length_le (length_follow_le_ends greedy known)]

end Walks

/-! ## Flows -/

variable (g : Graph) (start : String) (maxHops : Nat)

/-- What is met on the way back from a node, with the nearest node first. -/
def writersBefore : List String := follow g.writer? maxHops [start] start

/-- What is met on the way on from a node, past what is met on the way back. -/
def readersBehind : List String :=
  follow g.reader? maxHops ((g.writersBefore start maxHops).reverse ++ [start]) start

/-- A flow is what it would be if it were not known that no walk is longer than there are edges. -/
theorem dataFlow_eq_walks :
    g.dataFlow start maxHops =
      (g.writersBefore start maxHops).reverse ++ start :: g.readersBehind start maxHops := by
  have sources : ∀ seen id, follow g.writer? (min maxHops g.edges.length) seen id =
      follow g.writer? maxHops seen id := by
    intro seen id
    have length : (g.edges.map Edge.source).length = g.edges.length := List.length_map _
    rw [← length]
    apply follow_min_ends g.greedy_writer?
    rintro id writer ⟨e, he, -, rfl, -⟩
    exact List.mem_map_of_mem he
  have targets : ∀ seen id, follow g.reader? (min maxHops g.edges.length) seen id =
      follow g.reader? maxHops seen id := by
    intro seen id
    have length : (g.edges.map Edge.target).length = g.edges.length := List.length_map _
    rw [← length]
    apply follow_min_ends g.greedy_reader?
    rintro id reader ⟨e, he, -, -, rfl⟩
    exact List.mem_map_of_mem he
  rw [dataFlow, sources, targets]
  rfl

/-- Whatever the graph, the start and the number of hops: a flow has no node twice, at most so many
on each side of the start, the ones before it joined by edges that write and the ones behind it by
edges that read. A side with fewer nodes ends where every further edge leads back: in front, to a
node up to the start; behind, to any node of the flow. -/
theorem dataFlow_walks :
    ∃ before behind, g.dataFlow start maxHops = before ++ start :: behind ∧
      (before ++ start :: behind).Nodup ∧
      before.length ≤ maxHops ∧ behind.length ≤ maxHops ∧
      (before ++ start :: behind).length ≤ 2 * maxHops + 1 ∧
      (before ++ [start]).IsChain (g.Linked .writesTo) ∧
      (start :: behind).IsChain (g.Linked .readsFrom) ∧
      (before.length < maxHops → ∀ source, g.Linked .writesTo source (before.headD start) →
        source ∈ before ++ [start]) ∧
      (behind.length < maxHops → ∀ target, g.Linked .readsFrom (behind.getLastD start) target →
        target ∈ before ++ start :: behind) := by
  have writers : (g.writersBefore start maxHops).reverse.length ≤ maxHops := by
    rw [List.length_reverse]
    exact length_follow_le
  have readers : (g.readersBehind start maxHops).length ≤ maxHops := length_follow_le
  refine ⟨(g.writersBefore start maxHops).reverse, g.readersBehind start maxHops,
    g.dataFlow_eq_walks start maxHops, ?_, writers, readers, ?_, ?_, ?_, ?_, ?_⟩
  · obtain ⟨back, new⟩ : (g.writersBefore start maxHops).Nodup ∧
        ∀ x ∈ g.writersBefore start maxHops, x ∉ [start] := follow_fresh g.greedy_writer?
    obtain ⟨on, apart⟩ : (g.readersBehind start maxHops).Nodup ∧
        ∀ x ∈ g.readersBehind start maxHops,
          x ∉ (g.writersBefore start maxHops).reverse ++ [start] := follow_fresh g.greedy_reader?
    have up_to_start : ((g.writersBefore start maxHops).reverse ++ [start]).Nodup := by
      rw [← List.reverse_cons, List.nodup_reverse, List.nodup_cons]
      exact ⟨fun again => new start again (List.mem_singleton.mpr rfl), back⟩
    rw [List.append_cons, List.nodup_append']
    exact ⟨up_to_start, on, fun x before behind => apart x behind before⟩
  · rw [List.length_append, List.length_cons]
    omega
  · rw [← List.reverse_cons, List.isChain_reverse]
    exact follow_chain g.greedy_writer?
  · exact follow_chain g.greedy_reader?
  · intro left source writes
    rw [List.length_reverse] at left
    rw [List.headD_eq_head?_getD, List.head?_reverse, ← List.getLastD_eq_getLast?] at writes
    rw [← List.reverse_cons, List.mem_reverse, List.mem_cons]
    exact (follow_stops g.greedy_writer? left source writes).imp_left List.mem_singleton.mp
  · intro left target reads
    rw [List.append_cons, List.mem_append]
    exact follow_stops g.greedy_reader? left target reads

/-- On a cycle both sides would go all the way round; the readers avoid the writers. -/
example :
    let ids := ["a", "b", "c", "d"]
    let edges := (ids.zip ["b", "c", "d", "a"]).flatMap fun (source, target) =>
      [⟨"", source, target, .readsFrom⟩, ⟨"", source, target, .writesTo⟩]
    dataFlow { edges } "a" 2 = ["c", "d", "a", "b"] := by
  decide

end CodeAtlas.Graph
