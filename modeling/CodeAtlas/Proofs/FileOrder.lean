import CodeAtlas.Proofs.Alone
import CodeAtlas.Proofs.Descriptions
import CodeAtlas.Proofs.EdgeKinds
import CodeAtlas.Proofs.ErasedNodes
import CodeAtlas.Proofs.Failures

/-!
The order of files. The id of a node tells its file, and a place lies in one file; so where files
have different ids, a search for a symbol, or for what spans a place, finds something in one file at
most, and it does not matter which file comes first (`lastVisit?_perm`, `enclosing?_perm`). The
order decides only where types are found to be declared, which the passes for calls and reads do not
see. So an analysis without packages has the same nodes, calls and reads in any order of its files
(`analysis_of_permuted`).
-/
namespace CodeAtlas

/-! ## Files told apart -/

/-- The file that an id names: what stands before its first mark. -/
def fileOfId (id : String) : String := String.ofList (id.toList.takeWhile (· ≠ '#'))

theorem fileOfId_nodeId {s : Symbol} (named : s.fileId ≠ "") (unmarked : '#' ∉ s.fileId.toList)
    (container : Option String) : fileOfId (nodeId s container) = s.fileId := by
  have all : ∀ c ∈ s.fileId.toList, decide (c ≠ '#') = true := by
    intro c hc
    exact decide_eq_true fun mark => unmarked (mark ▸ hc)
  rw [fileOfId]
  cases container with
  | none =>
    simp only [nodeId, named, if_false, String.toList_append, List.append_assoc]
    rw [List.takeWhile_append_of_pos all]
    simp
  | some parent =>
    simp only [nodeId, named, if_false, String.toList_append, List.append_assoc]
    rw [List.takeWhile_append_of_pos all]
    simp

/-- Files with different ids, each of which can be told from the ids of the symbols in it. -/
structure Separate (files : List SourceFile) : Prop where
  distinct : (files.map SourceFile.fileId).Nodup
  named : ∀ f ∈ files, f.fileId ≠ ""
  unmarked : ∀ f ∈ files, '#' ∉ f.fileId.toList
  own : ∀ f ∈ files, ∀ s ∈ f.preorder, s.fileId = f.fileId

theorem Separate.perm {files files' : List SourceFile} (h : Separate files)
    (perm : files.Perm files') : Separate files' where
  distinct := (perm.map _).nodup_iff.mp h.distinct
  named f hf := h.named f (perm.mem_iff.mpr hf)
  unmarked f hf := h.unmarked f (perm.mem_iff.mpr hf)
  own f hf := h.own f (perm.mem_iff.mpr hf)

mutual

theorem visitsOfTree_mem {f : SourceFile} {enclosing : Option Builder.Enclosing} : ∀ t : SymbolTree,
    ∀ v ∈ visitsOfTree f enclosing t, v.tree.symbol ∈ t.preorder ∧ v.file = f
  | ⟨s, children⟩ => by
    rw [visitsOfTree, SymbolTree.preorder]
    refine List.forall_mem_cons.mpr ⟨⟨List.mem_cons_self, rfl⟩, fun v hv => ?_⟩
    obtain ⟨hs, hf⟩ := visitsOfTrees_mem children v hv
    exact ⟨List.mem_cons_of_mem s hs, hf⟩

theorem visitsOfTrees_mem {f : SourceFile} {enclosing : Option Builder.Enclosing} :
    ∀ trees : List SymbolTree, ∀ v ∈ visitsOfTrees f enclosing trees,
      v.tree.symbol ∈ preorderAll trees ∧ v.file = f
  | [] => by
    rw [visitsOfTrees]
    exact fun v hv => absurd hv List.not_mem_nil
  | t :: rest => by
    rw [visitsOfTrees, preorderAll]
    refine List.forall_mem_append.mpr ⟨fun v hv => ?_, fun v hv => ?_⟩
    · obtain ⟨hs, hf⟩ := visitsOfTree_mem t v hv
      exact ⟨List.mem_append_left _ hs, hf⟩
    · obtain ⟨hs, hf⟩ := visitsOfTrees_mem rest v hv
      exact ⟨List.mem_append_right _ hs, hf⟩

end

namespace Separate

variable {files files' : List SourceFile}

/-- A visit in a file, its id and its node all name the file. -/
theorem visit (h : Separate files) {f : SourceFile} (hf : f ∈ files) {v : Visit}
    (hv : v ∈ visitsOfTrees f none f.symbols) :
    v.tree.symbol.fileId = f.fileId ∧ fileOfId v.id = f.fileId ∧
      v.node.data.fileId = f.fileId := by
  obtain ⟨hs, -⟩ := visitsOfTrees_mem f.symbols v hv
  have own := h.own f hf _ hs
  have named := h.named f hf
  have unmarked := h.unmarked f hf
  rw [← own] at named unmarked ⊢
  refine ⟨rfl, fileOfId_nodeId named unmarked _, ?_⟩
  show Builder.fileOf v.tree.symbol v.file = v.tree.symbol.fileId
  rw [Builder.fileOf, if_pos named]

theorem lastVisit?_perm (h : Separate files) (perm : files.Perm files') (id : String) :
    lastVisit? (visits files) id = lastVisit? (visits files') id := by
  -- the last visit is the first one from the back, and the file of the id is the only one to have it
  have by_file : ∀ l : List SourceFile, lastVisit? (visits l) id =
      l.reverse.findSome? fun f =>
        (visitsOfTrees f none f.symbols).reverse.find? fun v => v.id == id := by
    intro l
    rw [lastVisit?, visits, List.reverse_flatMap, List.find?_flatMap]
    rfl
  rw [by_file, by_file]
  refine findSome?_reverse_perm h.distinct (fileOfId id) ?_ perm
  intro f hf v found
  have hv := List.mem_reverse.mp (List.mem_of_find?_eq_some found)
  have hid : v.id = id := eq_of_beq (List.find?_some found :)
  rw [← hid, (h.visit hf hv).2.1]

end Separate

namespace Builder

/-! ## Nodes -/

/-- Visits under ids that are all new make their nodes as if there had been no others. -/
theorem nodes_append {vs : List Visit} (ws : List Visit) (new : ∀ w ∈ ws, w.id ∉ vs.map Visit.id) :
    (ofVisits (vs ++ ws)).graph.nodes =
      (ofVisits vs).graph.nodes ++ (ofVisits ws).graph.nodes := by
  -- from the end, since the last visit is recorded last
  induction ws using List.reverseRecOn with
  | nil => simp [ofVisits]
  | append_singleton ws w ih =>
    obtain ⟨new, unmet⟩ := List.forall_mem_append.mp new
    -- whether the id is known depends on the new visits alone
    have known : (ofVisits (vs ++ ws)).hasNode w.id = true ↔ (ofVisits ws).hasNode w.id = true := by
      rw [hasNode_ofVisits, hasNode_ofVisits, List.map_append, List.mem_append]
      exact or_iff_right (unmet w List.mem_cons_self)
    rw [← List.append_assoc, ofVisits_concat, ofVisits_concat, nodes_record, nodes_record, ih new]
    simp only [known]
    split
    · rfl
    · rw [List.append_assoc]

theorem nodes_visits {files : List SourceFile} (h : Separate files) :
    (ofVisits (visits files)).graph.nodes =
      files.flatMap fun f => (ofVisits (visitsOfTrees f none f.symbols)).graph.nodes := by
  induction files with
  | nil => rfl
  | cons f rest ih =>
    obtain ⟨other, distinct⟩ := List.nodup_cons.mp h.distinct
    have separate : Separate rest := {
      distinct
      named := fun g hg => h.named g (List.mem_cons_of_mem f hg)
      unmarked := fun g hg => h.unmarked g (List.mem_cons_of_mem f hg)
      own := fun g hg => h.own g (List.mem_cons_of_mem f hg) }
    rw [visits, List.flatMap_cons, List.flatMap_cons, nodes_append, ← ih separate, visits]
    intro w hw known
    obtain ⟨g, hg, hw⟩ := List.mem_flatMap.mp hw
    obtain ⟨v, hv, same⟩ := List.mem_map.mp known
    have ofFirst := (h.visit List.mem_cons_self hv).2.1
    have ofOther := (h.visit (List.mem_cons_of_mem f hg) hw).2.1
    rw [same] at ofFirst
    exact other (List.mem_map.mpr ⟨g, hg, ofOther.symm.trans ofFirst⟩)

variable {files files' : List SourceFile}

theorem nodes_perm (h : Separate files) (perm : files.Perm files') :
    (ofVisits (visits files)).graph.nodes.Perm (ofVisits (visits files')).graph.nodes := by
  rw [nodes_visits h, nodes_visits (h.perm perm)]
  exact perm.flatMap_right _

/-- What spans a place lies in the file of the place. -/
theorem enclosing?_perm (h : Separate files) (perm : files.Perm files') (l : Location) :
    (ofVisits (visits files)).enclosing? l = (ofVisits (visits files')).enclosing? l := by
  rw [enclosing?, enclosing?, nodes_visits h, nodes_visits (h.perm perm), List.find?_flatMap,
    List.find?_flatMap]
  refine congrArg (Option.map Node.id) (findSome?_perm h.distinct l.fileId ?_ perm)
  intro f hf n found
  obtain ⟨v, first, rfl⟩ := node_ofVisits (List.mem_of_find?_eq_some found)
  have spans := List.find?_some found
  simp only [Bool.and_eq_true, beq_iff_eq] at spans
  rw [← spans.1.1, (h.visit hf (List.mem_of_find?_eq_some first)).2.2]

end Builder

/-! ## Calls and reads -/

theorem Visit.mentions_erase (v : Visit) (name : String) :
    v.erase.Mentions name ↔ v.Mentions name := by
  unfold Visit.Mentions Visit.erase
  dsimp only
  rw [SymbolTree.erase_symbol]
  rfl

theorem Visit.references?_erase (v : Visit) (service : Service) :
    v.erase.references? service = v.references? service := by
  unfold Visit.references? Visit.erase
  dsimp only
  rw [SymbolTree.erase_symbol]
  rfl

namespace Builder

/-- What the passes for calls and reads see of two lists of visits is the same. -/
structure SeenAlike (vs ws : List Visit) : Prop where
  nodes : (ofVisits vs).graph.nodes.Perm (ofVisits ws).graph.nodes
  last : ∀ id, (lastVisit? vs id).map Visit.erase = (lastVisit? ws id).map Visit.erase
  enclosing : (ofVisits vs).enclosing? = (ofVisits ws).enclosing?

theorem SeenAlike.of_erase {files files' : List SourceFile}
    (h : Separate (files.map SourceFile.erase))
    (perm : (files.map SourceFile.erase).Perm (files'.map SourceFile.erase)) :
    SeenAlike (visits files) (visits files') where
  nodes := by
    rw [← nodes_erase (visits files), ← nodes_erase (visits files'), ← visits_erase, ← visits_erase]
    exact nodes_perm h perm
  last id := by
    rw [← lastVisit?_erase, ← lastVisit?_erase, ← visits_erase, ← visits_erase]
    exact h.lastVisit?_perm perm id
  enclosing := by
    have blind : ∀ vs : List Visit,
        (ofVisits vs).enclosing? = (ofVisits (vs.map Visit.erase)).enclosing? := by
      intro vs
      unfold enclosing?
      rw [nodes_erase]
    rw [blind, blind (visits files'), ← visits_erase, ← visits_erase]
    exact funext fun l => enclosing?_perm h perm l

namespace SeenAlike

variable {vs ws : List Visit}

theorem isOfKind (h : SeenAlike vs ws) : (ofVisits vs).isOfKind = (ofVisits ws).isOfKind := by
  refine funext fun kinds => funext fun id => Bool.eq_iff_iff.mpr ?_
  rw [isOfKind_iff, isOfKind_iff]
  refine exists_congr fun n => and_congr_left fun _ => ?_
  rw [(kept_ofVisits vs).node?_eq_some, (kept_ofVisits ws).node?_eq_some, h.nodes.mem_iff]

/-- What is the same for erased visits is the same for what is seen last. -/
theorem last_eq {α : Type*} (h : SeenAlike vs ws) (f : Option Visit → α)
    (blind : ∀ o, f (o.map Visit.erase) = f o) (id : String) :
    f (lastVisit? vs id) = f (lastVisit? ws id) := by
  rw [← blind, h.last id, blind]

theorem confirms (h : SeenAlike vs ws) (service : Service) :
    (ofVisits vs).confirms service = (ofVisits ws).confirms service := by
  have references : ∀ id, (lastVisit? vs id).bind (Visit.references? service) =
      (lastVisit? ws id).bind (Visit.references? service) := by
    refine h.last_eq (fun o => o.bind (Visit.references? service)) fun o => ?_
    cases o with
    | none => rfl
    | some v => exact v.references?_erase service
  funext pair
  unfold Builder.confirms readBy
  rw [references?_ofVisits, references?_ofVisits, references, h.enclosing]

theorem mentionPairs (h : SeenAlike vs ws) {p : String × String} :
    p ∈ (ofVisits vs).mentionPairs ↔ p ∈ (ofVisits ws).mentionPairs := by
  obtain ⟨s, t⟩ := p
  let named (o o' : Option Visit) : Prop :=
    ∃ v w, o = some v ∧ o' = some w ∧ v.Mentions w.tree.symbol.name
  have source : ∀ o o', named (o.map Visit.erase) o' = named o o' := by
    intro o o'
    cases o <;> simp [named, Visit.mentions_erase]
  have target : ∀ o o', named o (o'.map Visit.erase) = named o o' := by
    intro o o'
    cases o' <;> simp [named, Visit.erase, SymbolTree.erase_symbol]
  -- one side at a time: the visits under `s` agree when erased, and so do those under `t`
  have mentions : named (lastVisit? vs s) (lastVisit? vs t) =
      named (lastVisit? ws s) (lastVisit? ws t) :=
    (h.last_eq (named · _) (source · _) s).trans (h.last_eq (named _ ·) (target _ ·) t)
  rw [mem_mentionPairs_ofVisits, mem_mentionPairs_ofVisits, h.isOfKind]
  exact and_congr_right fun _ => and_congr_right fun _ => Iff.of_eq mentions

theorem pairs (h : SeenAlike vs ws) (service : Service) (readsFrom : Bool) {label : EdgeLabel}
    (no_class : label ≠ .inherits) (no_interface : label ≠ .implements) :
    (((ofVisits vs).linked service readsFrom).pairs label).Perm
      (((ofVisits ws).linked service readsFrom).pairs label) := by
  refine (List.perm_ext_iff_of_nodup (nodup_pairs_linked vs service readsFrom no_class no_interface)
    (nodup_pairs_linked ws service readsFrom no_class no_interface)).mpr fun p => ?_
  -- the orders of the mentions differ, so only membership can be compared
  have labels : (ofVisits vs).mentionLabel? = (ofVisits ws).mentionLabel? := by
    funext service readsFrom pair
    unfold mentionLabel?
    rw [h.isOfKind, h.confirms]
  rw [pairs_linked vs service readsFrom no_class no_interface,
    pairs_linked ws service readsFrom no_class no_interface, mem_foldl_addPair, mem_foldl_addPair,
    List.mem_filter, List.mem_filter, labels, h.mentionPairs]

end SeenAlike

theorem nodes_linked (b : Builder) (service : Service) (readsFrom : Bool) :
    (b.linked service readsFrom).nodes = b.graph.nodes := by
  have gives := Inquiry.gives_answer service (b.addEdges readsFrom)
  exact nodes_of_withoutEdges (addEdges_withoutEdges gives)

end Builder

/-! ## An analysis without packages -/

section Permuted

variable (config : Config) (service : Service)

/-- What is known of given files before anything is filled in. -/
def loadedContext (given : List GivenFile) : Context :=
  ({ config } : Context).prepare (loadedFiles service given)

/-- The symbols of given files with what is filled in, where there are no packages. -/
def filledFiles (given : List GivenFile) : List SourceFile :=
  let context := loadedContext config service given
  ((fillIn context (loadedFiles service given) context.resolver).answer service).1

theorem answer_graphOfFiles (files : List SourceFile) :
    (graphOfFiles config none [] files []).answer service =
      ((Builder.ofVisits (visits files)).linked service config.features.readEdges).withDegrees := by
  have shown : (({} : Builder).addFiles files).addFiles [] = .ofVisits (visits files) :=
    (Builder.ofFiles_eq [files]).trans (by rw [List.flatten_singleton])
  unfold graphOfFiles
  rw [shown, Inquiry.answer_bind]
  rfl

theorem graph_analyzeSound (disk : Disk) (given : List GivenFile) :
    ((analyzeSound disk config none given).answer service).graph =
      ((Builder.ofVisits (visits (filledFiles config service given))).linked service
        config.features.readEdges).withDegrees := by
  have packages : wantedPackages disk config none = [] := rfl
  have unwanted : wantedExternals disk config [] = pure [] := by simp [wantedExternals]
  have nothing : ∀ (c : Context) (r : Resolver), (fillIn c [] r).answer service = ([], r) :=
    fun _ _ => rfl
  unfold analyzeSound analyzeLoaded
  simp only [Inquiry.answer_bind, Inquiry.answer_mapM, Inquiry.answer_pure, packages, unwanted,
    StateT.run, nothing]
  rw [answer_graphOfFiles, filledFiles, loadedContext, loadedFiles]

section Loaded

variable {given given' : List GivenFile}

theorem fileIds_loadedFiles : (loadedFiles service given).map SourceFile.fileId =
    given.map GivenFile.fileId := by
  rw [loadedFiles, List.map_map]
  refine List.map_congr_left fun f _ => ?_
  exact (GivenFile.load_raw (Inquiry.gives_answer service f.load)).1

theorem loadedFiles_raw : ∀ f ∈ loadedFiles service given, ∀ s ∈ f.preorder, s.Raw f.fileId := by
  intro f hf
  obtain ⟨g, -, rfl⟩ := List.mem_map.mp hf
  obtain ⟨same, -, raw⟩ := GivenFile.load_raw (Inquiry.gives_answer service g.load)
  rw [same]
  exact raw

/-- With references erased, files are filled in each on its own. -/
theorem filledFiles_erase : (filledFiles config service given).map SourceFile.erase =
    (loadedFiles service given).map
      (Enrichment.fillAlone service (loadedContext config service given)) :=
  Enrichment.answer_fillIn_erase _ service (RelationIndex.ofFiles_unresolved _)
    (Resolver.fresh_coherent _) (loadedFiles_raw service)

theorem filledFiles_perm (perm : given.Perm given')
    (distinct : (given.map GivenFile.fileId).Nodup) :
    ((filledFiles config service given).map SourceFile.erase).Perm
      ((filledFiles config service given').map SourceFile.erase) := by
  have loaded : (loadedFiles service given).Perm (loadedFiles service given') := perm.map _
  rw [← fileIds_loadedFiles service] at distinct
  have own : ∀ f ∈ loadedFiles service given, ∀ s ∈ f.preorder, s.fileId = f.fileId :=
    fun f hf s hs => (loadedFiles_raw service f hf s hs).file
  rw [filledFiles_erase, filledFiles_erase]
  -- what another order records about the classes of other files a file does not see
  have alike : (loadedFiles service given).map
        (Enrichment.fillAlone service (loadedContext config service given)) =
      (loadedFiles service given).map
        (Enrichment.fillAlone service (loadedContext config service given')) := by
    refine List.map_congr_left fun f hf => ?_
    have same := RelationIndex.find?_ofFiles_perm loaded distinct own f.fileId
    apply Enrichment.fillAlone_congr service _ (own f hf) same
    rfl
  rw [alike]
  exact loaded.map _

theorem separate_filledFiles (distinct : (given.map GivenFile.fileId).Nodup)
    (named : ∀ f ∈ given, f.fileId ≠ "" ∧ '#' ∉ f.fileId.toList) :
    Separate ((filledFiles config service given).map SourceFile.erase) := by
  have ids : ((filledFiles config service given).map SourceFile.erase).map SourceFile.fileId =
      given.map GivenFile.fileId := by
    rw [filledFiles_erase, List.map_map, ← fileIds_loadedFiles service]
    rfl
  have known : ∀ f ∈ (filledFiles config service given).map SourceFile.erase,
      f.fileId ≠ "" ∧ '#' ∉ f.fileId.toList := by
    intro f hf
    obtain ⟨g, hg, same⟩ := List.mem_map.mp (ids ▸ List.mem_map_of_mem hf)
    exact same ▸ named g hg
  refine ⟨ids ▸ distinct, fun f hf => (known f hf).1, fun f hf => (known f hf).2, ?_⟩
  rw [filledFiles_erase]
  intro f hf
  obtain ⟨loaded, hl, rfl⟩ := List.mem_map.mp hf
  exact Enrichment.fillAlone_own service _ fun s hs => (loadedFiles_raw service loaded hl s hs).file

end Loaded

end Permuted

/-- Where file ids are not empty, without the mark `#` and all different, and the service answers by
the query alone: an analysis without a project gives, in any order of the files, the same nodes up
to their degrees, the same calls and the same reads. -/
theorem analysis_of_permuted (disk : Disk) (config : Config) (given given' : List GivenFile)
    (service : Service) (perm : given.Perm given')
    (distinct : (given.map GivenFile.fileId).Nodup)
    (named : ∀ f ∈ given, f.fileId ≠ "" ∧ '#' ∉ f.fileId.toList) (a : Analysis)
    (h : (analyze disk config none given).answer service = .ok a) :
    ∃ a', (analyze disk config none given').answer service = .ok a' ∧
      (a'.graph.nodes.map Node.withoutDegrees).Perm (a.graph.nodes.map Node.withoutDegrees) ∧
      (a'.graph.pairs .calls).Perm (a.graph.pairs .calls) ∧
      (a'.graph.pairs .readsFrom).Perm (a.graph.pairs .readsFrom) := by
  have clean : config.fault? = none := fault?_of_ok (h ▸ Inquiry.gives_answer service _)
  have made : a = (analyzeSound disk config none given).answer service := by
    rw [analyze_of_sound clean] at h
    exact (Except.ok.inj h).symm
  -- the files filled in differ in the declarations they refer to, so they are compared erased
  have alike : Builder.SeenAlike (visits (filledFiles config service given'))
      (visits (filledFiles config service given)) := by
    refine .of_erase ?_ (filledFiles_perm config service perm distinct).symm
    exact (separate_filledFiles config service distinct named).perm
      (filledFiles_perm config service perm distinct)
  refine ⟨_, analyze_of_sound clean disk none given' service, ?_⟩
  rw [made, graph_analyzeSound, graph_analyzeSound]
  simp only [Graph.pairs_withDegrees, Graph.nodes_withDegrees, Builder.nodes_linked]
  refine ⟨alike.nodes.map _, ?_, ?_⟩
  · exact alike.pairs service _ (by decide) (by decide)
  · exact alike.pairs service _ (by decide) (by decide)

/-- A function that calls another and names a class, both of them declared elsewhere. -/
def tickAway : GivenFile where
  fileId := "f"
  text := "tick() \x7b pong(); Base(); \x7d"
  symbols := some [{ name := "tick", kind := 12, range := some ⟨⟨0, 0⟩, ⟨0, 26⟩⟩ }]

/-- The other function and the class. -/
def pongAndBase : GivenFile where
  fileId := "g"
  text := "pong() \x7b \x7d\nBase"
  symbols := some [
    { name := "pong", kind := 12, range := some ⟨⟨0, 0⟩, ⟨0, 10⟩⟩ },
    { name := "Base", kind := 5, selection := some ⟨⟨1, 0⟩, ⟨1, 4⟩⟩ }]

/-- A service that knows one reference to the class. -/
def awayService : Service
  | .references "g" ⟨1, 0⟩ => some [⟨"f", ⟨⟨0, 17⟩, ⟨0, 21⟩⟩⟩]
  | _ => none

/-- The function calls the other and reads the class, whichever file comes first. -/
theorem analysis_of_permuted_tick :
    [tickAway, pongAndBase].Perm [pongAndBase, tickAway] ∧
    ([tickAway, pongAndBase].map GivenFile.fileId).Nodup ∧
    (∀ f ∈ [tickAway, pongAndBase], f.fileId ≠ "" ∧ '#' ∉ f.fileId.toList) ∧
    ∃ a a', (analyze {} {} none [tickAway, pongAndBase]).answer awayService = .ok a ∧
      (analyze {} {} none [pongAndBase, tickAway]).answer awayService = .ok a' ∧
      (a'.graph.nodes.map Node.withoutDegrees).Perm (a.graph.nodes.map Node.withoutDegrees) ∧
      a'.graph.pairs .calls = [("f#kind:func#name:tick", "g#kind:func#name:pong")] ∧
      a'.graph.pairs .readsFrom = [("f#kind:func#name:tick", "g#kind:class#name:Base")] := by
  have swapped : [tickAway, pongAndBase].Perm [pongAndBase, tickAway] := .swap ..
  have distinct : ([tickAway, pongAndBase].map GivenFile.fileId).Nodup := by decide
  have named : ∀ f ∈ [tickAway, pongAndBase], f.fileId ≠ "" ∧ '#' ∉ f.fileId.toList := by
    simp [tickAway, pongAndBase]
  have clean : ({} : Config).fault? = none := by decide +kernel
  have made := analyze_of_sound clean {} none [tickAway, pongAndBase] awayService
  obtain ⟨a', made', nodes, calls, reads⟩ :=
    analysis_of_permuted {} {} _ _ awayService swapped distinct named _ made
  have called : ((analyzeSound {} {} none [tickAway, pongAndBase]).answer awayService).graph.pairs
      .calls = [("f#kind:func#name:tick", "g#kind:func#name:pong")] := by decide +kernel
  have readFrom : ((analyzeSound {} {} none [tickAway, pongAndBase]).answer awayService).graph.pairs
      .readsFrom = [("f#kind:func#name:tick", "g#kind:class#name:Base")] := by decide +kernel
  refine ⟨swapped, distinct, named, _, a', made, made', nodes, ?_, ?_⟩
  · exact List.perm_singleton.mp (called ▸ calls)
  · exact List.perm_singleton.mp (readFrom ▸ reads)

end CodeAtlas
