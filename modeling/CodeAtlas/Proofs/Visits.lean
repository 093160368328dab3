import CodeAtlas.Proofs.Bookkeeping
import Mathlib.Data.List.Induction

/-!
The visits of a builder. Going through files meets their symbols one by one, each before the ones
nested in it, and what a builder does with files is what it does with the visits in this order
(`addFiles_eq_foldl`). Nothing here looks at a builder to say which visits there are, so that the
symbol recorded for a node can be told as the last visit under its id (`symbol?_ofVisits`).
-/
namespace CodeAtlas

/-- A symbol met in a file, inside of a container. -/
structure Visit where
  tree : SymbolTree
  file : SourceFile
  enclosing : Option Builder.Enclosing

/-- The id of the node of the symbol that is met. -/
def Visit.id (v : Visit) : String := nodeId v.tree.symbol (v.enclosing.map Builder.Enclosing.name)

/-- The node that is made if there is none. -/
def Visit.node (v : Visit) : Node := Builder.nodeOf v.tree v.file v.id v.enclosing

mutual

/-- The visits to a symbol and to the symbols nested in it. -/
def visitsOfTree (f : SourceFile) (enclosing : Option Builder.Enclosing) : SymbolTree → List Visit
  | ⟨s, children⟩ =>
    ⟨⟨s, children⟩, f, enclosing⟩ ::
      visitsOfTrees f (Builder.within ⟨s, children⟩ enclosing) children

/-- The visits to symbols one after another. -/
def visitsOfTrees (f : SourceFile) (enclosing : Option Builder.Enclosing) :
    List SymbolTree → List Visit
  | [] => []
  | t :: rest => visitsOfTree f enclosing t ++ visitsOfTrees f enclosing rest

end

/-- The visits to the symbols of files. -/
def visits (files : List SourceFile) : List Visit :=
  files.flatMap fun f => visitsOfTrees f none f.symbols

/-- The last visit under an id. -/
def lastVisit? (vs : List Visit) (id : String) : Option Visit :=
  vs.reverse.find? fun v => v.id == id

theorem find?_congr {α : Type} {l : List α} {p q : α → Bool} (h : ∀ a ∈ l, p a = q a) :
    l.find? p = l.find? q := by
  rw [← List.head?_filter, List.filter_congr h, List.head?_filter]

theorem nodeId_ne_empty (s : Symbol) (container : Option String) : nodeId s container ≠ "" := by
  intro h
  have h := congrArg String.toList h
  cases container <;> simp [nodeId, String.toList_append] at h

theorem ne_empty_of_lastVisit {vs : List Visit} {id : String} {v : Visit}
    (h : lastVisit? vs id = some v) : id ≠ "" := by
  have hid : v.id = id := by simpa using List.find?_some h
  exact hid ▸ nodeId_ne_empty _ _

namespace Builder

/-- Does what a visit asks for. -/
def record (b : Builder) (v : Visit) : Builder := b.visit v.tree v.file v.enclosing

theorem record_of_known {b : Builder} {v : Visit} (h : b.hasNode v.id = true) :
    b.record v = { b with symbols := (v.id, ⟨v.tree, v.file.text⟩) :: b.symbols } :=
  visit_of_known h

theorem record_of_new {b : Builder} {v : Visit} (h : ¬b.hasNode v.id = true) :
    b.record v = { b.pushNode v.node with
      order := b.order ++ [v.id], symbols := (v.id, ⟨v.tree, v.file.text⟩) :: b.symbols } :=
  visit_of_new h

mutual

theorem addTree_eq_foldl (f : SourceFile) (enclosing : Option Enclosing) (b : Builder) :
    ∀ t, b.addTree f enclosing t = (visitsOfTree f enclosing t).foldl record b
  | ⟨s, children⟩ => by
    rw [addTree, visitsOfTree, List.foldl_cons, addTrees_eq_foldl]
    rfl

theorem addTrees_eq_foldl (f : SourceFile) (enclosing : Option Enclosing) (b : Builder) :
    ∀ trees, b.addTrees f enclosing trees = (visitsOfTrees f enclosing trees).foldl record b
  | [] => by rw [addTrees, visitsOfTrees, List.foldl_nil]
  | t :: rest => by
    rw [addTrees, visitsOfTrees, List.foldl_append, addTree_eq_foldl f enclosing b t,
      addTrees_eq_foldl f enclosing _ rest]

end

theorem addFiles_eq_foldl (files : List SourceFile) :
    ∀ b : Builder, b.addFiles files = (visits files).foldl record b := by
  induction files with
  | nil => exact fun _ => rfl
  | cons f rest ih =>
    intro b
    rw [visits, List.flatMap_cons, List.foldl_append, ← addTrees_eq_foldl]
    exact ih (b.addFile f)

/-! ## What a visit changes -/

theorem symbol?_record (b : Builder) (v : Visit) (id : String) :
    (b.record v).symbol? id = if v.id = id then some ⟨v.tree, v.file.text⟩ else b.symbol? id := by
  have recorded : (b.record v).symbols = (v.id, ⟨v.tree, v.file.text⟩) :: b.symbols := by
    by_cases h : b.hasNode v.id = true
    · rw [record_of_known h]
    · rw [record_of_new h]
  rw [symbol?, recorded, List.lookup_cons]
  by_cases h : v.id = id
  · rw [if_pos h, h, beq_self_eq_true]
  · rw [if_neg h, beq_false_of_ne (Ne.symm h)]
    rfl

theorem edges_record (b : Builder) (v : Visit) : (b.record v).graph.edges = b.graph.edges := by
  by_cases h : b.hasNode v.id = true
  · rw [record_of_known h]
  · rw [record_of_new h]
    rfl

/-- A visit that makes a node puts its id into the order. -/
theorem order_record {b : Builder} (v : Visit) (h : b.order = b.ids) :
    (b.record v).order = (b.record v).ids := by
  by_cases hn : b.hasNode v.id = true
  · rw [record_of_known hn]
    exact h
  · rw [record_of_new hn]
    exact h ▸ (pushNode_ids b v.node).symm

/-- The builder that began empty and was shown files by what was visited in them. -/
def ofVisits (vs : List Visit) : Builder := vs.foldl record {}

theorem ofVisits_concat (vs : List Visit) (v : Visit) :
    ofVisits (vs ++ [v]) = (ofVisits vs).record v := List.foldl_concat ..

/-- The builder that began empty and was shown files set by set. -/
def ofFiles (sets : List (List SourceFile)) : Builder := sets.foldl addFiles {}

/-- Files shown set by set are files visited at once. -/
theorem ofFiles_eq (sets : List (List SourceFile)) :
    ofFiles sets = ofVisits (visits sets.flatten) := by
  suffices ∀ b : Builder, sets.foldl addFiles b = (visits sets.flatten).foldl record b from this {}
  induction sets with
  | nil => exact fun _ => rfl
  | cons files rest ih =>
    intro b
    rw [List.foldl_cons, ih, addFiles_eq_foldl, ← List.foldl_append, List.flatten_cons, visits,
      visits, visits, List.flatMap_append]

/-- The symbol of a node is the one visited last under its id. -/
theorem symbol?_ofVisits (vs : List Visit) (id : String) :
    (ofVisits vs).symbol? id = (lastVisit? vs id).map fun v => ⟨v.tree, v.file.text⟩ := by
  induction vs using List.reverseRecOn with
  | nil => rfl
  | append_singleton vs v ih =>
    rw [ofVisits_concat, symbol?_record, ih, lastVisit?, lastVisit?, List.reverse_append]
    by_cases h : v.id = id <;> simp [h]

theorem Grows.record (b : Builder) (v : Visit) : Grows b (b.record v) :=
  visit b v.tree v.file v.enclosing

theorem kept_ofVisits (vs : List Visit) : (ofVisits vs).Kept :=
  (Grows.foldl Grows.record vs {}).kept empty_kept

theorem edges_ofVisits (vs : List Visit) : (ofVisits vs).graph.edges = [] := by
  induction vs using List.reverseRecOn with
  | nil => rfl
  | append_singleton vs v ih => rw [ofVisits_concat, edges_record, ih]

theorem order_ofVisits (vs : List Visit) : (ofVisits vs).order = (ofVisits vs).ids := by
  induction vs using List.reverseRecOn with
  | nil => rfl
  | append_singleton vs v ih => exact ofVisits_concat vs v ▸ order_record v ih

/-- The ids in the order are those that were visited. -/
theorem mem_order_ofVisits {vs : List Visit} {id : String} :
    id ∈ (ofVisits vs).order ↔ ∃ v, lastVisit? vs id = some v := by
  have seen : ((ofVisits vs).symbol? id).isSome ↔ ∃ v, lastVisit? vs id = some v := by
    rw [symbol?_ofVisits, Option.isSome_map, Option.isSome_iff_exists]
  have kept := kept_ofVisits vs
  refine ⟨?_, ?_⟩
  · exact fun h => seen.mp (kept.order_seen id h)
  · intro h
    rw [order_ofVisits]
    exact kept.seen_known id (seen.mpr h)

end Builder

end CodeAtlas
