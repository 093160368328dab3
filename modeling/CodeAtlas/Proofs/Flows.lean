import CodeAtlas.Proofs.EdgeKinds

/-!
Data flows of an analysis. No pass makes an edge that writes, and what is read reads nothing itself:
a read leads from a method or function to a symbol that is neither. So no flow has a writer, and
each ends where the first read of its start leads (`ReadsOnly.dataFlow_eq`), however many hops are
allowed.
-/
namespace CodeAtlas

namespace Graph

/-- The first edge by which a node reads. -/
def firstRead? (g : Graph) (s : String) : Option Edge :=
  g.edges.find? fun e => e.source = s ∧ e.label = .readsFrom

/-- Nothing writes, and no read leads to where a read starts. -/
structure ReadsOnly (g : Graph) : Prop where
  unwritten : ∀ e ∈ g.edges, e.label ≠ .writesTo
  apart : ∀ e ∈ g.edges, ∀ e' ∈ g.edges, e.label = .readsFrom → e'.label = .readsFrom →
    e.source ≠ e'.target

variable {g : Graph}

theorem firstRead?_some {s : String} {e : Edge} (h : g.firstRead? s = some e) :
    e ∈ g.edges ∧ e.source = s ∧ e.label = .readsFrom := by
  have holds := List.find?_some h
  exact ⟨List.mem_of_find?_eq_some h, of_decide_eq_true holds⟩

theorem exists_firstRead? {e : Edge} (he : e ∈ g.edges) (reads : e.label = .readsFrom) :
    ∃ first, g.firstRead? e.source = some first := by
  refine Option.isSome_iff_exists.mp (List.find?_isSome.mpr ⟨e, he, ?_⟩)
  exact decide_eq_true ⟨rfl, reads⟩

namespace ReadsOnly

theorem writer?_eq_none (h : g.ReadsOnly) (seen : List String) (id : String) :
    g.writer? seen id = none := by
  rw [writer?, Option.map_eq_none_iff, List.find?_eq_none]
  intro e he
  simp [h.unwritten e he]

/-- From its start a flow goes where the first read leads: that is never the start itself. -/
theorem reader?_start (h : g.ReadsOnly) (s : String) :
    g.reader? [s] s = (g.firstRead? s).map Edge.target := by
  have same : ∀ e ∈ g.edges,
      (e.source == s && e.label == .readsFrom && !([s] : List String).contains e.target) =
        decide (e.source = s ∧ e.label = .readsFrom) := by
    intro e he
    by_cases read : e.source = s ∧ e.label = .readsFrom
    · obtain ⟨rfl, reads⟩ := read
      have leaves := h.apart e he e he reads reads
      simp [reads, leaves.symm]
    · simp only [read, decide_false, Bool.and_eq_false_iff, beq_eq_false_iff_ne]
      exact .inl (not_and_or.mp read)
  rw [reader?, firstRead?, find?_congr same]

/-- Behind a read a flow goes no further. -/
theorem reader?_target (h : g.ReadsOnly) {e : Edge} (he : e ∈ g.edges)
    (reads : e.label = .readsFrom) (seen : List String) : g.reader? seen e.target = none := by
  rw [reader?, Option.map_eq_none_iff, List.find?_eq_none]
  intro e' he' holds
  simp only [Bool.and_eq_true, beq_iff_eq] at holds
  exact h.apart e' he' e he holds.1.2 reads holds.1.1

theorem dataFlow_eq (h : g.ReadsOnly) {s : String} {e : Edge} (first : g.firstRead? s = some e)
    {maxHops : Nat} (positive : 0 < maxHops) : g.dataFlow s maxHops = [s, e.target] := by
  obtain ⟨he, -, reads⟩ := firstRead?_some first
  have hops : ∃ n, min maxHops g.edges.length = n + 1 :=
    Nat.exists_eq_add_one.mpr (Nat.lt_min.mpr ⟨positive, List.length_pos_of_mem he⟩)
  obtain ⟨n, hn⟩ := hops
  have writers : follow g.writer? (n + 1) [s] s = [] := by
    rw [follow, h.writer?_eq_none]
  have readers : follow g.reader? (n + 1) [s] s = [e.target] := by
    rw [follow, h.reader?_start, first]
    show e.target :: follow g.reader? n [e.target, s] e.target = [e.target]
    cases n with
    | zero => rfl
    | succ n => rw [follow, h.reader?_target he reads]
  show (follow g.writer? (min maxHops g.edges.length) [s] s).reverse ++
    s :: follow g.reader? (min maxHops g.edges.length) _ s = [s, e.target]
  rw [hn, writers]
  exact congrArg (s :: ·) readers

/-- A flow starts wherever a read does. -/
theorem mem_flowStarts (h : g.ReadsOnly) {s : String} :
    s ∈ Text.sorted (g.edges.filterMap flowStart?) ↔
      ∃ e ∈ g.edges, e.label = .readsFrom ∧ e.source = s := by
  rw [Text.mem_sorted, List.mem_filterMap]
  refine exists_congr fun e => and_congr_right fun he => ?_
  have unwritten := h.unwritten e he
  unfold flowStart?
  split <;> simp_all

/-- Each flow leads from the source of a read to where its first read leads. -/
theorem dataFlows_eq (h : g.ReadsOnly) {maxHops : Nat} (positive : 0 < maxHops) :
    (g.dataFlows maxHops).map Prod.fst = Text.sorted (g.edges.filterMap flowStart?) ∧
      ∀ s path, (s, path) ∈ g.dataFlows maxHops →
        ∃ e, g.firstRead? s = some e ∧ path = [s, e.target] := by
  have flow : ∀ s ∈ Text.sorted (g.edges.filterMap flowStart?),
      ∃ e, g.firstRead? s = some e ∧ g.dataFlow s maxHops = [s, e.target] := by
    intro s hs
    obtain ⟨e, he, reads, rfl⟩ := h.mem_flowStarts.mp hs
    obtain ⟨first, found⟩ := exists_firstRead? he reads
    exact ⟨first, found, h.dataFlow_eq found positive⟩
  have all : g.dataFlows maxHops =
      (Text.sorted (g.edges.filterMap flowStart?)).map fun s => (s, g.dataFlow s maxHops) := by
    refine List.filter_eq_self.mpr (List.forall_mem_map.mpr fun s hs => ?_)
    obtain ⟨e, -, path⟩ := flow s hs
    simp [path]
  rw [all]
  refine ⟨?_, fun s path found => ?_⟩
  · rw [List.map_map]
    exact List.map_id' _
  · obtain ⟨s, hs, same⟩ := List.mem_map.mp found
    cases same
    exact flow s hs

end ReadsOnly

end Graph

/-! ## A whole analysis -/

/-- Ids tell the kinds of symbols apart where no two nodes share one. -/
theorem HasKind.unique {nodes : List Node} (ids : (nodes.map Node.id).Nodup) {id : String}
    {kind kind' : SymbolKind} (h : HasKind nodes id kind) (h' : HasKind nodes id kind') :
    kind.name = kind'.name := by
  obtain ⟨n, hn, rfl, isKind⟩ := h
  obtain ⟨m, hm, same, isKind'⟩ := h'
  obtain rfl := List.inj_on_of_nodup_map ids hm hn same
  exact isKind.symm.trans isKind'

theorem Graph.Typed.joins_of_read {packages : List Package} {g : Graph} (typed : g.Typed packages)
    {e : Edge} (he : e ∈ g.edges) (reads : e.label = .readsFrom) :
    ∃ source target, HasKind g.nodes e.source source ∧ HasKind g.nodes e.target target ∧
      source.name ∈ ["method", "function"] ∧ target.name ∉ ["method", "function"] := by
  cases typed.edges e he with
  | symbols hasSource hasTarget joins =>
    rw [reads] at joins
    exact ⟨_, _, hasSource, hasTarget, joins⟩
  | dependency label source target =>
    rw [reads] at label
    cases label

theorem Graph.Typed.readsOnly {packages : List Package} {g : Graph} (typed : g.Typed packages)
    (ids : (g.nodes.map Node.id).Nodup) : g.ReadsOnly where
  unwritten e he writes := by
    cases typed.edges e he with
    | symbols hasSource hasTarget joins => rwa [writes] at joins
    | dependency label source target =>
      rw [writes] at label
      cases label
  apart e he e' he' reads reads' same := by
    obtain ⟨kind, -, hasSource, -, callable, -⟩ := typed.joins_of_read he reads
    obtain ⟨-, kind', -, hasTarget, -, other⟩ := typed.joins_of_read he' reads'
    -- a node that reads and is read would be of both kinds
    rw [same] at hasSource
    exact other (hasSource.unique ids hasTarget ▸ callable)

/-- A sound configuration allows a hop. -/
theorem Config.hops_pos {c : Config} (h : c.fault? = none) : 0 < c.limits.hops := by
  refine Nat.pos_of_ne_zero fun zero => ?_
  rw [Config.fault?] at h
  split at h
  · cases h
  · rw [if_pos (.inl zero)] at h
    cases h

/-- Whatever a service answers and however many hops are allowed: an analysis has one data flow for
each node that reads and no other, and this flow leads from the node to where its first read leads
and ends there. No edge writes, so none of its nodes is a writer. -/
theorem analysis_flows (disk : Disk) (config : Config) (root : Option String)
    (given : List GivenFile) (a : Analysis)
    (h : (analyze disk config root given).Gives (.ok a)) :
    (a.flows.map Prod.fst).Nodup ∧
    (∀ s, s ∈ a.flows.map Prod.fst ↔
      ∃ e ∈ a.graph.edges, e.label = .readsFrom ∧ e.source = s) ∧
    (∀ s path, (s, path) ∈ a.flows →
      ∃ e, a.graph.edges.find? (fun e => e.source = s ∧ e.label = .readsFrom) = some e ∧
        path = [s, e.target]) ∧
    ∀ e ∈ a.graph.edges, e.label ≠ .writesTo := by
  have sound := analyzeSound_of_ok h
  have positive := Config.hops_pos (fault?_of_ok h)
  obtain ⟨loaded, external, resolver, run⟩ := analyzeSound_run sound
  obtain ⟨b, orderly, hg⟩ := graphOfFiles_orderly run.builds
  have ids : (a.graph.nodes.map Node.id).Nodup := by
    rw [hg, orderly.withDegrees.2]
    exact orderly.kept.ids_nodup
  have reads := (graphOfFiles_typed run.builds).readsOnly ids
  obtain ⟨keys, paths⟩ := reads.dataFlows_eq positive
  rw [run.flows, keys]
  exact ⟨Text.nodup_sorted _, fun _ => reads.mem_flowStarts, paths, reads.unwritten⟩

/-- A function that names a class, and the class. -/
def tickFile : GivenFile where
  fileId := "f"
  text := "tick() \x7b Base(); \x7d\nBase"
  symbols := some [
    { name := "tick", kind := 12, range := some ⟨⟨0, 0⟩, ⟨0, 18⟩⟩ },
    { name := "Base", kind := 5, selection := some ⟨⟨1, 0⟩, ⟨1, 4⟩⟩ }]

/-- The analysis of the file, where the service knows that the function refers to the class. -/
theorem analysis_flows_tick :
    ∃ a, (analyze {} {} none [tickFile]).Gives (.ok a) ∧
      a.flows = [("f#kind:func#name:tick", ["f#kind:func#name:tick", "f#kind:class#name:Base"])] ∧
      ∃ e ∈ a.graph.edges, e.label = .readsFrom ∧ e.source = "f#kind:func#name:tick" := by
  have sound := Inquiry.gives_answer Builder.baseService (analyzeSound {} {} none [tickFile])
  have gives : (analyze {} {} none [tickFile]).Gives (.ok _) :=
    Inquiry.gives_bind.mpr ⟨_, sound, .done _⟩
  obtain ⟨-, starts, -⟩ := analysis_flows {} {} none [tickFile] _ gives
  have flows : ((analyzeSound {} {} none [tickFile]).answer Builder.baseService).flows =
      [("f#kind:func#name:tick", ["f#kind:func#name:tick", "f#kind:class#name:Base"])] := by
    decide +kernel
  refine ⟨_, gives, flows, (starts _).mp ?_⟩
  rw [flows]
  exact List.mem_singleton.mpr rfl

end CodeAtlas
