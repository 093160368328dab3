import CodeAtlas.Proofs.Calls
import Mathlib.Data.List.Perm.Subperm

/-!
Read edges. With a service whose answers depend on the query alone, a mention gives an edge of one
label or none, and which it is does not change while edges are added (`mentionLabel?`); so the edges
of a label come in the order of the mentions that give it, each once (`pairs_answer_foldlM`). A read
is there exactly if the service names a place that refers to what is read and that first lies in the
callable that reads (`reads_are_confirmed`).
-/
namespace CodeAtlas

/-- The references that a service knows to what stands at a place, unless it fails. -/
def Service.references? (service : Service) (place : String × Position) : Option (List Location) :=
  service (.references place.1 place.2)

/-- The references that a service knows to the symbol that is met; none if that has no place for its
name, or if the service fails. -/
def Visit.references? (service : Service) (v : Visit) : Option (List Location) := do
  let selection ← v.tree.symbol.selection
  service.references? (v.tree.symbol.fileId, selection.start)

/-- A node stands for a method or function of a place's file whose lines hold that of the place. -/
def Node.Spans (n : Node) (l : Location) : Prop :=
  n.data.fileId = l.fileId ∧ n.kind ∈ ["method", "function"] ∧
    ∃ range, n.data.range = some range ∧
      range.start.line ≤ l.range.start.line ∧ l.range.start.line ≤ range.stop.line

/-- The first of the nodes that span a place has the id. -/
def FirstSpanning (nodes : List Node) (l : Location) (id : String) : Prop :=
  ∃ before n after, nodes = before ++ n :: after ∧ n.Spans l ∧ n.id = id ∧
    ∀ m ∈ before, ¬ m.Spans l

namespace Builder

/-! ## What a mention gives -/

/-- Whether a service knows a reference to the target that lies in the source. -/
def confirms (b : Builder) (service : Service) (pair : String × String) : Bool :=
  ((b.referencesOf? pair.2).bind service.references?).any (b.readBy pair.1)

/-- The label of the edge that a mention gives, if it gives one. -/
def mentionLabel? (b : Builder) (service : Service) (readsFrom : Bool) (pair : String × String) :
    Option EdgeLabel :=
  if b.isOfKind calleeKinds pair.2 then some .calls
  else if readsFrom && b.confirms service pair then some .readsFrom
  else none

theorem answer_addRead (b : Builder) (service : Service) (source target : String) :
    (b.addRead source target).answer service =
      if b.confirms service (source, target) then (b.addEdge source target .readsFrom).2
      else b := by
  unfold addRead confirms
  cases b.referencesOf? target with
  | none => rfl
  | some place =>
    refine (Inquiry.answer_bind service _ _).trans ?_
    rw [Option.bind_some]
    split
    · rename_i failed
      rw [show service.references? place = none from failed]
      rfl
    · rename_i references known
      rw [show service.references? place = some references from known]
      rfl

theorem answer_addMention (b : Builder) (service : Service) (readsFrom : Bool)
    (pair : String × String) :
    (addMention readsFrom b pair).answer service =
      match b.mentionLabel? service readsFrom pair with
      | some label => (b.addEdge pair.1 pair.2 label).2
      | none => b := by
  unfold addMention mentionLabel?
  split
  · rfl
  · cases readsFrom with
    | false => rfl
    | true =>
      rw [if_pos rfl, answer_addRead, Bool.true_and]
      split <;> rfl

/-- The graph of a builder that is given edges with the help of a service. -/
def linked (b : Builder) (service : Service) (readsFrom : Bool) : Graph :=
  ((b.addEdges readsFrom).answer service).graph

theorem mentionLabel?_of_withoutEdges {b b' : Builder} (h : b'.withoutEdges = b.withoutEdges) :
    b'.mentionLabel? = b.mentionLabel? := eq_of_withoutEdges mentionLabel? (fun _ => rfl) h

/-- The edges of a label grow by the mentions that give it, in their order and each once. -/
theorem pairs_answer_foldlM {service : Service} {readsFrom : Bool} {label : EdgeLabel}
    (ps : List (String × String)) : ∀ {b : Builder}, b.Kept → (∀ p ∈ ps, b.Joinable p.1 p.2) →
      ((ps.foldlM (addMention readsFrom) b).answer service).graph.pairs label =
        (ps.filter fun p => b.mentionLabel? service readsFrom p = some label).foldl addPair
          (b.graph.pairs label) := by
  induction ps with
  | nil => exact fun _ _ => rfl
  | cons p rest ih =>
    intro b kept joinable
    have step := Inquiry.gives_answer service (addMention readsFrom b p)
    have same := addMention_withoutEdges step
    have joinable' : ∀ q ∈ rest, ((addMention readsFrom b p).answer service).Joinable q.1 q.2 := by
      intro q hq
      obtain ⟨named, differ, hs, ht⟩ := joinable q (List.mem_cons_of_mem p hq)
      rw [← hasNode_of_withoutEdges same] at hs ht
      exact ⟨named, differ, hs, ht⟩
    rw [List.foldlM_cons, Inquiry.answer_bind, ih ((Grows.addMention step).kept kept) joinable',
      mentionLabel?_of_withoutEdges same, answer_addMention, List.filter_cons]
    cases h : b.mentionLabel? service readsFrom p with
    | none => rfl
    | some given =>
      by_cases e : given = label
      · subst e
        rw [pairs_addEdge kept (joinable p List.mem_cons_self)]
        simp
      · rw [pairs_addEdge_of_ne b _ _ e]
        simp [e]

theorem pairs_linked (vs : List Visit) (service : Service) (readsFrom : Bool)
    {label : EdgeLabel} (h : label ≠ .inherits) (h' : label ≠ .implements) :
    ((ofVisits vs).linked service readsFrom).pairs label =
      ((ofVisits vs).mentionPairs.filter fun p =>
        (ofVisits vs).mentionLabel? service readsFrom p = some label).foldl addPair [] := by
  have same := addInheritanceEdges_withoutEdges (ofVisits vs)
  have kept := (Grows.addInheritanceEdges (ofVisits vs)).kept (kept_ofVisits vs)
  have fresh : (ofVisits vs).graph.pairs label = [] := by rw [Graph.pairs, edges_ofVisits]; rfl
  rw [linked, addEdges, pairs_answer_foldlM _ kept (joinable_mentionPairs vs),
    mentionPairs_of_withoutEdges same, mentionLabel?_of_withoutEdges same,
    pairs_addInheritanceEdges _ h h', fresh]

theorem nodup_pairs_linked (vs : List Visit) (service : Service) (readsFrom : Bool)
    {label : EdgeLabel} (h : label ≠ .inherits) (h' : label ≠ .implements) :
    (((ofVisits vs).linked service readsFrom).pairs label).Nodup :=
  pairs_linked vs service readsFrom h h' ▸ nodup_foldl_addPair _ [] List.nodup_nil

/-! ## Mentions and references by visits -/

theorem symbol?_eq_some_iff {vs : List Visit} {id : String} {x : Visited} :
    (ofVisits vs).symbol? id = some x ↔
      ∃ v, lastVisit? vs id = some v ∧ ⟨v.tree, v.file.text⟩ = x := by
  rw [symbol?_ofVisits, Option.map_eq_some_iff]

theorem mem_mentionPairs_ofVisits {vs : List Visit} {s t : String} :
    (s, t) ∈ (ofVisits vs).mentionPairs ↔
      s ≠ t ∧ (ofVisits vs).isOfKind callerKinds s = true ∧
        ∃ v w, lastVisit? vs s = some v ∧ lastVisit? vs t = some w ∧
          v.Mentions w.tree.symbol.name := by
  rw [mem_mentionPairs]
  refine ⟨?_, ?_⟩
  · rintro ⟨-, caller, x, hx, y, hy, name, -, differ⟩
    obtain ⟨v, hv, rfl⟩ := symbol?_eq_some_iff.mp hx
    obtain ⟨w, hw, rfl⟩ := symbol?_eq_some_iff.mp hy
    exact ⟨differ.symm, caller, v, w, hv, hw, mem_mentions.mp name⟩
  · rintro ⟨differ, caller, v, w, hv, hw, name⟩
    exact ⟨mem_order_ofVisits.mpr ⟨v, hv⟩, caller, _, symbol?_eq_some_iff.mpr ⟨v, hv, rfl⟩, _,
      symbol?_eq_some_iff.mpr ⟨w, hw, rfl⟩, mem_mentions.mpr name,
      mem_order_ofVisits.mpr ⟨w, hw⟩, differ.symm⟩

theorem enclosing?_eq_some_iff {b : Builder} {l : Location} {id : String} :
    b.enclosing? l = some id ↔ FirstSpanning b.graph.nodes l id := by
  have spans : ∀ n : Node, (n.data.fileId == l.fileId && calleeKinds.contains n.kind &&
      n.data.range.any (·.containsLine l.range.start.line)) = true ↔ n.Spans l := by
    intro n
    simp [Node.Spans, Range.containsLine, calleeKinds, SymbolKind.name, Option.any_eq_true,
      and_assoc]
  rw [enclosing?, Option.map_eq_some_iff]
  simp only [List.find?_eq_some_iff_append, spans, Bool.not_eq_true', ← Bool.not_eq_true]
  refine ⟨?_, ?_⟩
  · rintro ⟨n, ⟨hn, before, after, nodes, hb⟩, hid⟩
    exact ⟨before, n, after, nodes, hn, hid, hb⟩
  · rintro ⟨before, n, after, nodes, hn, hid, hb⟩
    exact ⟨n, ⟨hn, before, after, nodes, hb⟩, hid⟩

theorem references?_ofVisits (vs : List Visit) (service : Service) (t : String) :
    ((ofVisits vs).referencesOf? t).bind service.references? =
      (lastVisit? vs t).bind (Visit.references? service) := by
  rw [referencesOf?, symbol?_ofVisits]
  cases lastVisit? vs t with
  | none => rfl
  | some w =>
    show ((w.tree.symbol.selection.bind _).bind _) = w.references? service
    rw [Visit.references?]
    cases w.tree.symbol.selection <;> rfl

theorem confirms_iff {vs : List Visit} {service : Service} {s t : String} :
    (ofVisits vs).confirms service (s, t) = true ↔
      ∃ w references, lastVisit? vs t = some w ∧ w.references? service = some references ∧
        ∃ l ∈ references, FirstSpanning (ofVisits vs).graph.nodes l s := by
  rw [confirms, references?_ofVisits, Option.any_eq_true]
  simp only [Option.bind_eq_some_iff, readBy, List.any_eq_true, beq_iff_eq,
    enclosing?_eq_some_iff]
  refine ⟨?_, ?_⟩
  · rintro ⟨references, ⟨w, hw, known⟩, l, hl, first⟩
    exact ⟨w, references, hw, known, l, hl, first⟩
  · rintro ⟨w, references, hw, known, l, hl, first⟩
    exact ⟨references, ⟨w, hw, known⟩, l, hl, first⟩

theorem mentionLabel?_eq_readsFrom_iff {b : Builder} {service : Service} {readsFrom : Bool}
    {p : String × String} :
    b.mentionLabel? service readsFrom p = some .readsFrom ↔
      readsFrom = true ∧ b.isOfKind calleeKinds p.2 = false ∧ b.confirms service p = true := by
  unfold mentionLabel?
  split
  · rename_i callee
    simp [callee]
  · rename_i other
    simp [other]

/-! ## Read edges -/

theorem countP_pairs (g : Graph) (label : EdgeLabel) (t : String) :
    (g.edges.countP fun e => e.label = label ∧ e.target = t) =
      ((g.pairs label).filter fun p => p.2 = t).length := by
  rw [Graph.pairs, ← List.countP_eq_length_filter, List.countP_map, List.countP_filter]
  apply List.countP_congr
  intro e _
  simp [and_comm]

/-- Pairs with one second part do not outnumber a list that has all their first parts. -/
theorem length_filter_le {pairs : List (String × String)} (h : pairs.Nodup) {t : String}
    {sources : List String} (hs : ∀ s, (s, t) ∈ pairs → s ∈ sources) :
    (pairs.filter fun p => p.2 = t).length ≤ sources.length := by
  have same : ∀ p ∈ pairs.filter fun p => p.2 = t, p.2 = t := by
    intro p hp
    simpa using (List.mem_filter.mp hp).2
  have firsts : ((pairs.filter fun p => p.2 = t).map Prod.fst).Nodup := by
    refine List.Nodup.map_on (fun p hp q hq e => ?_) (h.filter _)
    exact Prod.ext e ((same p hp).trans (same q hq).symm)
  rw [← List.length_map Prod.fst]
  refine (List.subperm_of_subset firsts fun s hm => ?_).length_le
  obtain ⟨p, hp, rfl⟩ := List.mem_map.mp hm
  have ht := same p hp
  exact hs p.1 (ht ▸ (List.mem_filter.mp hp).1)

/-- A read is a confirmed mention of what cannot be called. -/
theorem mem_reads_linked {vs : List Visit} {service : Service} {s t : String} :
    (s, t) ∈ ((ofVisits vs).linked service true).pairs .readsFrom ↔
      (s, t) ∈ (ofVisits vs).mentionPairs ∧ (ofVisits vs).isOfKind calleeKinds t = false ∧
        (ofVisits vs).confirms service (s, t) = true := by
  rw [pairs_linked vs service true (by decide) (by decide), mem_foldl_addPair, List.mem_filter,
    decide_eq_true_iff, mentionLabel?_eq_readsFrom_iff, eq_self, true_and,
    or_iff_right List.not_mem_nil]

theorem isOfKind_eq_false_iff {vs : List Visit} {kinds : List String} {id : String} {v : Visit}
    (met : lastVisit? vs id = some v) :
    (ofVisits vs).isOfKind kinds id = false ↔
      ∃ n, (ofVisits vs).node? id = some n ∧ n.kind ∉ kinds := by
  have kept := kept_ofVisits vs
  have known : (ofVisits vs).hasNode id = true :=
    kept.hasNode_iff.mpr (order_ofVisits vs ▸ mem_order_ofVisits.mpr ⟨v, met⟩)
  obtain ⟨n, hn⟩ := kept.hasNode_iff_node?.mp known
  rw [isOfKind, hn, Option.any_some, ← Bool.not_eq_true, List.contains_iff_mem]
  simp only [Option.some.injEq, exists_eq_left']

/-- After files are shown to an empty builder set by set and edges are made with reads wanted: a read
leads from `s` to `t` exactly if these are different visited symbols, `s` of a kind that calls and
`t` of none that is called, the body of the one last visited under `s` has a call site for the name
of the one last visited under `t`, and the service knows references to the latter, one of which has
`s` for the first method or function, in the order of the nodes, that spans it. There is one read for
such a pair, so the reads of a symbol do not outnumber its references. Where reads are not wanted
there are none. -/
theorem reads_are_confirmed (sets : List (List SourceFile)) (service : Service) :
    (((ofFiles sets).linked service true).pairs .readsFrom).Nodup ∧
    (∀ s t, (s, t) ∈ ((ofFiles sets).linked service true).pairs .readsFrom ↔
      s ≠ t ∧
      (∃ n, (ofFiles sets).node? s = some n ∧ n.kind ∈ ["method", "function", "constructor"]) ∧
      (∃ n, (ofFiles sets).node? t = some n ∧ n.kind ∉ ["method", "function"]) ∧
      ∃ v w references, lastVisit? (visits sets.flatten) s = some v ∧
        lastVisit? (visits sets.flatten) t = some w ∧ v.Mentions w.tree.symbol.name ∧
        w.references? service = some references ∧
        ∃ l ∈ references, FirstSpanning (ofFiles sets).graph.nodes l s) ∧
    ((ofFiles sets).linked service false).pairs .readsFrom = [] ∧
    ∀ t, (((ofFiles sets).linked service true).edges.countP fun e =>
        e.label = .readsFrom ∧ e.target = t) ≤
      (((lastVisit? (visits sets.flatten) t).bind (Visit.references? service)).getD []).length := by
  rw [ofFiles_eq]
  generalize visits sets.flatten = vs
  have nodup : (((ofVisits vs).linked service true).pairs .readsFrom).Nodup :=
    nodup_pairs_linked vs service true (by decide) (by decide)
  refine ⟨nodup, fun s t => ?_, ?_, fun t => ?_⟩
  · rw [mem_reads_linked, mem_mentionPairs_ofVisits, confirms_iff, isOfKind_iff]
    refine ⟨?_, ?_⟩
    · rintro ⟨⟨differ, caller, v, w, hv, hw, name⟩, other, w', references, hw', known, first⟩
      obtain rfl := Option.some.inj (hw.symm.trans hw')
      exact ⟨differ, caller, (isOfKind_eq_false_iff hw).mp other, v, w, references, hv, hw, name,
        known, first⟩
    · rintro ⟨differ, caller, other, v, w, references, hv, hw, name, known, first⟩
      exact ⟨⟨differ, caller, v, w, hv, hw, name⟩, (isOfKind_eq_false_iff hw).mpr other, w,
        references, hw, known, first⟩
  · rw [pairs_linked vs service false (by decide) (by decide)]
    simp [mentionLabel?_eq_readsFrom_iff]
  · generalize hr : ((lastVisit? vs t).bind (Visit.references? service)).getD [] = references
    have into : ∀ s, (s, t) ∈ ((ofVisits vs).linked service true).pairs .readsFrom →
        s ∈ references.filterMap (ofVisits vs).enclosing? := by
      intro s hs
      obtain ⟨-, -, confirmed⟩ := mem_reads_linked.mp hs
      obtain ⟨w, known, hw, hk, l, hl, first⟩ := confirms_iff.mp confirmed
      rw [hw, Option.bind_some, hk] at hr
      exact List.mem_filterMap.mpr ⟨l, hr ▸ hl, enclosing?_eq_some_iff.mpr first⟩
    rw [countP_pairs]
    calc _ ≤ (references.filterMap (ofVisits vs).enclosing?).length := length_filter_le nodup into
      _ ≤ references.length := List.length_filterMap_le _ _

/-- A function that names a class, and the class. -/
def tickAndBase : SourceFile where
  fileId := "f"
  text := "tick() { Base(); }\nBase"
  symbols :=
    [⟨{ Symbol.ofName "tick" .function "f" with range := some ⟨⟨0, 0⟩, ⟨0, 18⟩⟩ }, []⟩,
     ⟨{ Symbol.ofName "Base" .classDecl "f" with selection := some ⟨⟨1, 0⟩, ⟨1, 4⟩⟩ }, []⟩]

/-- A service that knows one reference to the class. -/
def baseService : Service
  | .references "f" ⟨1, 0⟩ => some [⟨"f", ⟨⟨0, 9⟩, ⟨0, 13⟩⟩⟩]
  | _ => none

/-- The function reads the class. -/
theorem reads_are_confirmed_tick :
    ("f#kind:func#name:tick", "f#kind:class#name:Base") ∈
      ((ofFiles [[tickAndBase]]).linked baseService true).pairs .readsFrom := by
  have sites : Source.callSites (Source.code
      (Range.slice ⟨⟨0, 0⟩, ⟨0, 18⟩⟩ tickAndBase.text.toList)) =
        ["tick".toList, "Base".toList] := by cbv
  obtain ⟨-, reads, -⟩ := reads_are_confirmed [[tickAndBase]] baseService
  refine (reads _ _).mpr ⟨by decide, ⟨_, rfl, by decide⟩, ⟨_, rfl, by decide⟩, _, _, _, rfl, rfl,
    ⟨_, rfl, by decide, sites ▸ by decide⟩, rfl, _, List.mem_singleton.mpr rfl, ?_⟩
  exact enclosing?_eq_some_iff.mp rfl

end Builder

end CodeAtlas
