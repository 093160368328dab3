import CodeAtlas.Proofs.Visits

/-!
Symbols where they stand in files. An `Occurrence` is a symbol in a file together with the symbols
around it. The visits of a builder are the occurrences in files, each before the ones nested in it
(`visits_eq`), and what encloses a symbol at a visit is always the symbol directly around it. So the
nodes of a builder can be told from the files alone: there is one for each identity, made from the
first occurrence under it, while the symbol index goes by the last (`nodes_are_first_met`).
-/
namespace CodeAtlas

/-- A symbol in a file, with the symbols around it, innermost first. -/
structure Occurrence where
  file : SourceFile
  around : List SymbolTree
  tree : SymbolTree

namespace Occurrence

/-- Where the symbol directly around this one stands, if there is one. -/
def enclosing? (o : Occurrence) : Option Occurrence :=
  match o.around with
  | [] => none
  | t :: rest => some ⟨o.file, rest, t⟩

/-- The identity of the symbol inside of the one directly around it. -/
def id (o : Occurrence) : String :=
  nodeId o.tree.symbol (o.enclosing?.map fun e => e.tree.symbol.name)

/-- The node of the symbol, under that of the symbol directly around it. -/
def node (o : Occurrence) : Node where
  id := o.id
  label := o.tree.symbol.name
  kind := o.tree.symbol.kind.name
  data := {
    fileId := Builder.fileOf o.tree.symbol o.file
    range := o.tree.symbol.range
    selection := o.tree.symbol.selection
    access := o.tree.symbol.access
    isSdk := o.tree.symbol.isSdk
    layer := layerOf o.tree o.tree.symbol.relations }
  parent := o.enclosing?.map id

/-- The symbol with the text of its file. -/
def visited (o : Occurrence) : Visited := ⟨o.tree, o.file.text⟩

/-- The visit to the symbol. -/
def visit (o : Occurrence) : Visit :=
  ⟨o.tree, o.file, o.enclosing?.map fun e => ⟨e.tree.symbol.name, e.id⟩⟩

theorem id_visit (o : Occurrence) : o.visit.id = o.id := by
  rw [Visit.id, visit, Option.map_map]
  rfl

theorem node_visit (o : Occurrence) : o.visit.node = o.node := by
  rw [Visit.node, id_visit, Builder.nodeOf, visit, Option.map_map]
  rfl

end Occurrence

mutual

/-- The occurrences of a symbol and of the symbols nested in it. -/
def occurrencesInTree (f : SourceFile) (around : List SymbolTree) : SymbolTree → List Occurrence
  | ⟨s, children⟩ =>
    ⟨f, around, ⟨s, children⟩⟩ :: occurrencesInTrees f (⟨s, children⟩ :: around) children

def occurrencesInTrees (f : SourceFile) (around : List SymbolTree) :
    List SymbolTree → List Occurrence
  | [] => []
  | t :: rest => occurrencesInTree f around t ++ occurrencesInTrees f around rest

end

/-- The occurrences of all symbols in files. -/
def occurrences (files : List SourceFile) : List Occurrence :=
  files.flatMap fun f => occurrencesInTrees f [] f.symbols

/-- The first occurrence under an id. -/
def firstUnder? (os : List Occurrence) (id : String) : Option Occurrence :=
  os.find? fun o => o.id == id

/-- The last occurrence under an id. -/
def lastUnder? (os : List Occurrence) (id : String) : Option Occurrence :=
  os.reverse.find? fun o => o.id == id

/-! ## Occurrences are visited -/

/-- What encloses the symbols that stand directly inside of the innermost of some symbols. -/
def enclosingOf (f : SourceFile) : List SymbolTree → Option Builder.Enclosing
  | [] => none
  | t :: rest => some ⟨t.symbol.name, (⟨f, rest, t⟩ : Occurrence).id⟩

theorem visit_eq (f : SourceFile) (around : List SymbolTree) (t : SymbolTree) :
    (⟨f, around, t⟩ : Occurrence).visit = ⟨t, f, enclosingOf f around⟩ := by
  cases around <;> rfl

theorem within_eq {t : SymbolTree} (h : t.children ≠ []) (f : SourceFile)
    (around : List SymbolTree) :
    Builder.within t (enclosingOf f around) = enclosingOf f (t :: around) := by
  have container : t.isContainer = true := by simp [SymbolTree.isContainer, h]
  rw [Builder.within, if_pos container, enclosingOf, Occurrence.id]
  cases around <;> rfl

mutual

theorem visitsOfTree_eq (f : SourceFile) (around : List SymbolTree) : ∀ t,
    visitsOfTree f (enclosingOf f around) t = (occurrencesInTree f around t).map Occurrence.visit
  | ⟨s, children⟩ => by
    rw [visitsOfTree, occurrencesInTree, List.map_cons, visit_eq,
      ← visitsOfTrees_eq f (⟨s, children⟩ :: around) children]
    by_cases h : children = []
    · rw [h, visitsOfTrees, visitsOfTrees]
    · rw [within_eq h]

theorem visitsOfTrees_eq (f : SourceFile) (around : List SymbolTree) : ∀ trees,
    visitsOfTrees f (enclosingOf f around) trees =
      (occurrencesInTrees f around trees).map Occurrence.visit
  | [] => by rw [visitsOfTrees, occurrencesInTrees, List.map_nil]
  | t :: rest => by
    rw [visitsOfTrees, occurrencesInTrees, List.map_append, visitsOfTree_eq f around t,
      visitsOfTrees_eq f around rest]

end

theorem visits_eq (files : List SourceFile) :
    visits files = (occurrences files).map Occurrence.visit := by
  rw [visits, occurrences, List.map_flatMap]
  exact congrArg (files.flatMap ·) (funext fun f => visitsOfTrees_eq f [] f.symbols)

theorem lastVisit?_visits (files : List SourceFile) (id : String) :
    lastVisit? (visits files) id = (lastUnder? (occurrences files) id).map Occurrence.visit := by
  rw [visits_eq, lastVisit?, ← List.map_reverse, List.find?_map]
  simp only [Function.comp_def, Occurrence.id_visit]
  rfl

namespace Builder

/-! ## The nodes that visits make -/

theorem hasNode_ofVisits {vs : List Visit} {id : String} :
    (ofVisits vs).hasNode id = true ↔ id ∈ vs.map Visit.id := by
  rw [(kept_ofVisits vs).hasNode_iff, ← order_ofVisits, mem_order_ofVisits,
    ← Option.isSome_iff_exists, lastVisit?, List.find?_isSome, List.mem_map]
  simp only [List.mem_reverse, beq_iff_eq]

/-- A visit under a new id puts its node at the end, any other leaves the nodes alone. -/
theorem nodes_record (b : Builder) (v : Visit) :
    (b.record v).graph.nodes =
      if b.hasNode v.id = true then b.graph.nodes else b.graph.nodes ++ [v.node] := by
  split
  · rename_i known
    rw [record_of_known known]
  · rename_i new
    rw [record_of_new new]
    rfl

theorem ids_ofVisits (vs : List Visit) : (ofVisits vs).ids = (vs.map Visit.id).eraseDups := by
  induction vs using List.reverseRecOn with
  | nil => rfl
  | append_singleton vs v ih =>
    rw [ofVisits_concat, ids, nodes_record, List.map_append, List.eraseDups_append, ← ih,
      List.map_singleton, List.removeAll, List.filter_singleton, List.elem_eq_mem]
    by_cases h : v.id ∈ vs.map Visit.id
    · rw [if_pos (hasNode_ofVisits.mpr h), decide_eq_true h]
      exact (List.append_nil _).symm
    · rw [if_neg (mt hasNode_ofVisits.mp h), decide_eq_false h, List.map_append]
      rfl

/-- A node is that of the first visit under its id. -/
theorem node_ofVisits {vs : List Visit} {n : Node} (h : n ∈ (ofVisits vs).graph.nodes) :
    ∃ v, vs.find? (fun v => v.id == n.id) = some v ∧ n = v.node := by
  induction vs using List.reverseRecOn with
  | nil => exact absurd h List.not_mem_nil
  | append_singleton vs v ih =>
    have old : n ∈ (ofVisits vs).graph.nodes →
        ∃ w, (vs ++ [v]).find? (fun w => w.id == n.id) = some w ∧ n = w.node := by
      intro hn
      obtain ⟨w, first, hw⟩ := ih hn
      exact ⟨w, by rw [List.find?_append, first, Option.some_or], hw⟩
    rw [ofVisits_concat, nodes_record] at h
    split at h
    · exact old h
    · rename_i new
      rcases List.mem_append.mp h with h | h
      · exact old h
      · -- no visit before this one has its id
        obtain rfl := List.mem_singleton.mp h
        have none_before : vs.find? (fun w => w.id == v.id) = none := by
          rw [List.find?_eq_none]
          exact fun w hw he => new (hasNode_ofVisits.mpr (List.mem_map.mpr ⟨w, hw, eq_of_beq he⟩))
        refine ⟨v, ?_, rfl⟩
        show (vs ++ [v]).find? (fun w => w.id == v.id) = some v
        rw [List.find?_append, none_before, Option.none_or, List.find?_singleton, beq_self_eq_true]
        rfl

theorem graph_foldl_record {vs : List Visit} : ∀ {b : Builder},
    (∀ v ∈ vs, b.hasNode v.id = true) → (vs.foldl record b).graph = b.graph := by
  induction vs with
  | nil => exact fun _ => rfl
  | cons v rest ih =>
    intro b known
    have step := record_of_known (known v List.mem_cons_self)
    have after : ∀ w ∈ rest, (b.record v).hasNode w.id = true := by
      intro w hw
      rw [step]
      exact known w (List.mem_cons_of_mem v hw)
    rw [List.foldl_cons, ih after, step]

/-- After files are shown to an empty builder set by set, the ids of its nodes are those of the
symbols in the files, each once and in the order in which they are first met. Each node is that of
the first occurrence under its id, and has the node of the symbol directly around that for its
parent. The symbol of a node is the one at the last occurrence under its id, with the text of its
file. Files in which every symbol is known change neither nodes nor edges. -/
theorem nodes_are_first_met (sets : List (List SourceFile)) :
    (ofFiles sets).graph.nodes.map Node.id =
      ((occurrences sets.flatten).map Occurrence.id).eraseDups ∧
    (∀ n ∈ (ofFiles sets).graph.nodes,
      ∃ o, firstUnder? (occurrences sets.flatten) n.id = some o ∧ n = o.node) ∧
    (∀ id, (ofFiles sets).symbol? id =
      (lastUnder? (occurrences sets.flatten) id).map Occurrence.visited) ∧
    ∀ files, (∀ o ∈ occurrences files, o.id ∈ (occurrences sets.flatten).map Occurrence.id) →
      ((ofFiles sets).addFiles files).graph = (ofFiles sets).graph := by
  have met : (visits sets.flatten).map Visit.id =
      (occurrences sets.flatten).map Occurrence.id := by
    rw [visits_eq, List.map_map]
    exact List.map_congr_left fun o _ => o.id_visit
  rw [ofFiles_eq]
  refine ⟨met ▸ ids_ofVisits _, fun n hn => ?_, fun id => ?_, fun files known => ?_⟩
  · obtain ⟨v, first, rfl⟩ := node_ofVisits hn
    rw [visits_eq, List.find?_map] at first
    obtain ⟨o, ho, rfl⟩ := Option.map_eq_some_iff.mp first
    simp only [Function.comp_def, Occurrence.id_visit] at ho
    exact ⟨o, ho, o.node_visit⟩
  · rw [symbol?_ofVisits, lastVisit?_visits, Option.map_map]
    rfl
  · rw [addFiles_eq_foldl]
    apply graph_foldl_record
    intro v hv
    rw [visits_eq] at hv
    obtain ⟨o, ho, rfl⟩ := List.mem_map.mp hv
    rw [hasNode_ofVisits, met, Occurrence.id_visit]
    exact known o ho

/-- A class with one method, as it stands in some text. -/
def counterFile (text : String) (access : Option Access) : SourceFile where
  fileId := "f"
  text
  symbols := [⟨Symbol.ofName "Counter" .classDecl "f",
    [⟨{ Symbol.ofName "tick" .method "f" with access }, []⟩]⟩]

/-- The class is shown three times, each time with another text. -/
theorem nodes_are_first_met_counter :
    let sets := [[counterFile "old" none], [counterFile "new" (some .library)]]
    let tick := "f#parent:Counter#kind:method#name:tick"
    (ofFiles sets).graph.nodes.map Node.id = ["f#kind:class#name:Counter", tick] ∧
    (∃ n ∈ (ofFiles sets).graph.nodes,
      n.id = tick ∧ n.parent = some "f#kind:class#name:Counter" ∧ n.data.access = none) ∧
    ((ofFiles sets).symbol? tick).map Visited.text = some "new" ∧
    (∀ o ∈ occurrences [counterFile "newer" none],
      o.id ∈ (occurrences sets.flatten).map Occurrence.id) ∧
    ((ofFiles sets).addFiles [counterFile "newer" none]).graph = (ofFiles sets).graph := by
  intro sets tick
  obtain ⟨ids, first, last, idle⟩ := nodes_are_first_met sets
  have known : ∀ o ∈ occurrences [counterFile "newer" none],
      o.id ∈ (occurrences sets.flatten).map Occurrence.id := by decide
  have met : tick ∈ (ofFiles sets).graph.nodes.map Node.id := by
    rw [ids]
    decide
  refine ⟨ids.trans (by decide), ?_, last tick ▸ by decide, known, idle _ known⟩
  obtain ⟨n, hn, hid⟩ := List.mem_map.mp met
  obtain ⟨o, ho, rfl⟩ := first n hn
  rw [hid] at ho
  cases ho
  exact ⟨_, hn, hid, by decide, by decide⟩

end Builder

end CodeAtlas
