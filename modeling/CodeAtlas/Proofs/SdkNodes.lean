import CodeAtlas.Proofs.Dependencies
import CodeAtlas.Proofs.Parents
import CodeAtlas.Proofs.PublicApi
import CodeAtlas.Proofs.SdkFiles
import CodeAtlas.Proofs.Settled
import CodeAtlas.Proofs.SymbolInvariants

/-!
Nodes of the language's own libraries. The steps that look at the name of a symbol tell by the id of
its file whether it is one of these, and nothing else does (`Symbol.ToldIn`), so its node says the same
(`Node.Told`). With packages each node has an origin besides, which goes by the path that the id names
(`Node.Placed`). What is told to be the language's own has its origin there, where the id names a path
as it stands (`sdk_told_has_sdk_origin`); the converse fails (`sdk_tests_differ`).
-/
namespace CodeAtlas

/-! ## Symbols -/

/-- The symbol stands in the file, and it is told to be one of the language's own by the id of the file,
if its name was looked at. -/
structure Symbol.ToldIn (fileId : String) (s : Symbol) : Prop where
  file : s.fileId = fileId
  told : s.isSdk = (s.access.isSome && isSdkFile fileId)

theorem Symbol.ToldIn.of_withoutTypes {fileId : String} {s s' : Symbol} (h : s.ToldIn fileId)
    (same : s'.withoutTypes = s.withoutTypes) : s'.ToldIn fileId where
  file := (eq_of_withoutTypes Symbol.fileId (fun _ => rfl) same).trans h.file
  told := by
    rw [eq_of_withoutTypes Symbol.isSdk (fun _ => rfl) same,
      eq_of_withoutTypes Symbol.access (fun _ => rfl) same, h.told]

mutual

theorem toTree_told (fileId : String) (parentId : Option String) : ∀ r : RawSymbol,
    ∀ s ∈ (r.toTree fileId parentId).preorder, s.ToldIn fileId
  | ⟨name, kind, detail, range, selection, children⟩ => by
    rw [RawSymbol.toTree, SymbolTree.preorder]
    exact List.forall_mem_cons.mpr ⟨⟨rfl, rfl⟩, toTrees_told fileId _ children⟩

theorem toTrees_told (fileId : String) (parentId : Option String) : ∀ raw : List RawSymbol,
    ∀ s ∈ preorderAll (toTrees fileId parentId raw), s.ToldIn fileId
  | [] => by
    rw [toTrees, preorderAll]
    exact fun s hs => absurd hs List.not_mem_nil
  | r :: rest => by
    rw [toTrees, preorderAll]
    exact List.forall_mem_append.mpr
      ⟨toTree_told fileId parentId r, toTrees_told fileId parentId rest⟩

end

/-- A file with what is told of its symbols. -/
def SourceFile.Told (f : SourceFile) : Prop := ∀ s ∈ f.preorder, s.ToldIn f.fileId

namespace Enrichment

variable {fileId : String} {scope : Scope} {s : Symbol}

theorem basic_told (h : s.fileId = fileId) : Ends (Symbol.ToldIn fileId) (basic scope s) := by
  have set : ∀ relations, ({ s with
      isSdk := isSdkFile s.fileId, access := some (.ofName s.name), relations } : Symbol).ToldIn
        fileId := fun _ => ⟨h, by rw [h]; rfl⟩
  unfold basic
  dsimp only
  split
  · exact .pure' (set s.relations)
  · split
    · exact .pure' (set s.relations)
    · exact fun _ => set _

theorem lead_told (h : s.ToldIn fileId) : Ends (fun led => led.2.ToldIn fileId) (lead scope s) := by
  refine .ite_bind' (.ite' (fun _ => basic_told h.file) fun _ => .pure' h) fun s₁ h₁ => ?_
  refine .ite_bind' (.ite' (fun _ => ?_) fun _ => .pure' h₁) fun s₂ h₂ => ?_
  · exact (declared_read s₁).mono fun s₂ read => h₁.of_withoutTypes read.2
  · refine .pure' ?_
    rcases planHover_cases scope.config s₂ with idle | ⟨selection, -, -, planned⟩
    · rw [idle]
      exact h₂
    · rw [planned]
      exact ⟨h₂.file, h₂.told⟩

theorem enrichSymbol_told (h : s.ToldIn fileId) :
    Leads (fun _ => True) (Symbol.ToldIn fileId) (enrichSymbol scope s) :=
  enrichSymbol_leads (fun r _ => ⟨lead_told h r, trivial⟩) fun contents s₁ r h₁ _ =>
    ⟨h₁.of_withoutTypes (finish_withoutTypes scope contents s₁ r), trivial⟩

theorem closesInto_told (fileId : String) : ClosesInto (Symbol.ToldIn fileId) := by
  intro classId members m _ hm
  unfold closeMember
  split
  · exact .pure' hm
  · split
    · exact .pure' hm
    · exact fun _ => ⟨hm.file, hm.told⟩

/-- Filling in tells of all symbols of files whether they are the language's own. -/
theorem fillIn_told (c : Context) {files : List SourceFile} (h : ∀ f ∈ files, f.Told) :
    Leads (fun _ => True) (fun files' => ∀ f ∈ files', f.Told) (fillIn c files) := by
  have enriched : Leads (fun _ => True) (fun files' => ∀ f ∈ files', f.Told)
      (enrichFiles c files) := by
    refine .mapM' fun f hf => ?_
    refine .bind' (enrichTrees_leads (fun s hs => enrichSymbol_told hs) f.symbols (h f hf))
      fun trees ht => .pure' ht
  refine .bind' enriched fun files' h' => .pure' ?_
  have closed : ∀ f ∈ files', Ends SourceFile.Told (closeFile f) := by
    intro f hf
    have trees := closeTrees_ends (closesInto_told f.fileId) f.symbols (h' f hf)
    exact .bind' trees fun symbols hs _ => hs
  exact (Ends.mapM' closed {}).1

end Enrichment

/-! ## Files -/

theorem GivenFile.load_told {f : GivenFile} {loaded : SourceFile} (h : f.load.Gives loaded) :
    loaded.Told := by
  obtain ⟨raw, rfl⟩ := load_eq h
  exact toTrees_told f.fileId none raw

/-- What is kept of trees is of the trees. -/
theorem preorderAll_publicParts {trees : List SymbolTree} :
    preorderAll (publicParts trees) ⊆ preorderAll trees := by
  intro s hs
  obtain ⟨t, ht, hs⟩ := mem_preorderAll.mp hs
  obtain ⟨t₀, ht₀, -, symbol, children⟩ := mem_publicParts.mp ht
  refine mem_preorderAll.mpr ⟨t₀, ht₀, ?_⟩
  rcases hs with rfl | hs
  · exact .inl symbol
  · rw [children] at hs
    obtain ⟨m, hm, hs⟩ := mem_preorderAll.mp hs
    exact .inr (mem_preorderAll.mpr ⟨m, (List.mem_filter.mp hm).1, hs⟩)

theorem publicLibrary_told {disk : Disk} {path : String} {f : SourceFile}
    (h : (publicLibrary disk path).Gives (some f)) : f.Told := by
  unfold publicLibrary at h
  split at h
  · cases Inquiry.gives_pure.mp h
  · obtain ⟨answer, -, last⟩ := Inquiry.gives_bind.mp h
    split at last
    · cases Inquiry.gives_pure.mp last
    · rename_i raw
      obtain rfl := Option.some.inj (Inquiry.gives_pure.mp last)
      exact fun s hs => toTrees_told _ none raw s (preorderAll_publicParts hs)

theorem wantedExternals_told {disk : Disk} {c : Config} {packages : List Package}
    {external : List SourceFile} (h : (wantedExternals disk c packages).Gives external) :
    ∀ f ∈ external, f.Told := by
  unfold wantedExternals at h
  split at h
  · obtain ⟨found, libraries, last⟩ := Inquiry.gives_bind.mp h
    obtain rfl := Inquiry.gives_pure.mp last
    intro f hf
    obtain ⟨f', hf', same⟩ := List.mem_filterMap.mp (List.mem_filter.mp hf).1
    obtain ⟨path, -, shown⟩ := Inquiry.gives_mapM libraries f' hf'
    rw [id] at same
    exact publicLibrary_told (same ▸ shown)
  · obtain rfl := Inquiry.gives_pure.mp h
    exact fun f hf => absurd hf List.not_mem_nil

/-- What is known of the symbols of all files, the public declarations of packages among them. -/
theorem analyzeSound_told {disk : Disk} {config : Config} {root : Option String}
    {given : List GivenFile} {a : Analysis} (h : (analyzeSound disk config root given).Gives a) :
    ∃ external, (graphOfFiles config root a.packages a.files external).Gives a.graph ∧
      (∀ f ∈ a.files, f.Told) ∧ ∀ f ∈ external, f.Told := by
  obtain ⟨loaded, loads, h⟩ := Inquiry.gives_bind.mp h
  obtain ⟨⟨files, resolver⟩, fillsIn, h⟩ := Inquiry.gives_bind.mp h
  obtain ⟨external, wanted, h⟩ := Inquiry.gives_bind.mp h
  obtain ⟨⟨external', _⟩, fillsIn', h⟩ := Inquiry.gives_bind.mp h
  obtain ⟨graph, builds, h⟩ := Inquiry.gives_bind.mp h
  obtain rfl := Inquiry.gives_pure.mp h
  have raw : ∀ f ∈ loaded, f.Told := by
    intro f hf
    obtain ⟨g, -, load⟩ := Inquiry.gives_mapM loads f hf
    exact GivenFile.load_told load
  refine ⟨external', builds, ?_, ?_⟩
  · exact (Enrichment.fillIn_told _ raw _ _ _ trivial fillsIn).1
  · exact (Enrichment.fillIn_told _ (wantedExternals_told wanted) _ _ _ trivial fillsIn').1

/-! ## Nodes -/

mutual

theorem mem_visitsOfTree {f : SourceFile} {v : Visit} : ∀ {t : SymbolTree}
    {enclosing : Option Builder.Enclosing}, v ∈ visitsOfTree f enclosing t →
      v.file = f ∧ v.tree.symbol ∈ t.preorder
  | ⟨s, children⟩, enclosing, h => by
    rw [visitsOfTree] at h
    rw [SymbolTree.preorder]
    rcases List.mem_cons.mp h with rfl | inner
    · exact ⟨rfl, List.mem_cons_self⟩
    · exact (mem_visitsOfTrees inner).imp_right (List.mem_cons_of_mem s)

theorem mem_visitsOfTrees {f : SourceFile} {v : Visit} : ∀ {trees : List SymbolTree}
    {enclosing : Option Builder.Enclosing}, v ∈ visitsOfTrees f enclosing trees →
      v.file = f ∧ v.tree.symbol ∈ preorderAll trees
  | [], enclosing, h => by
    rw [visitsOfTrees] at h
    exact absurd h List.not_mem_nil
  | t :: rest, enclosing, h => by
    rw [visitsOfTrees] at h
    rw [preorderAll]
    rcases List.mem_append.mp h with first | others
    · exact (mem_visitsOfTree first).imp_right (List.mem_append_left _)
    · exact (mem_visitsOfTrees others).imp_right (List.mem_append_right _)

end

/-- The node is told to be one of the language's own by the id of its file, if the name of its symbol
was looked at. -/
def Node.Told (n : Node) : Prop :=
  n.data.isSdk = (n.data.access.isSome && isSdkFile n.data.fileId)

theorem Visit.node_told {v : Visit} (h : v.file.Told) (inside : v.tree.symbol ∈ v.file.preorder) :
    v.node.Told := by
  obtain ⟨file, told⟩ := h v.tree.symbol inside
  have same : isSdkFile (Builder.fileOf v.tree.symbol v.file) = isSdkFile v.file.fileId := by
    rw [Builder.fileOf, file]
    split
    · rfl
    · rename_i nowhere
      rw [not_not.mp nowhere]
      decide
  show v.tree.symbol.isSdk = (v.tree.symbol.access.isSome && isSdkFile (Builder.fileOf _ _))
  rw [same, told]

namespace Builder

/-- The nodes of files are told. -/
theorem nodes_told {files external : List SourceFile} (h : ∀ f ∈ files, f.Told)
    (h' : ∀ f ∈ external, f.Told) {n : Node}
    (hn : n ∈ ((({} : Builder).addFiles files).addFiles external).graph.nodes) :
    n.isContainer = false ∧ n.Told := by
  have visited : (({} : Builder).addFiles files).addFiles external =
      ofVisits (visits [files, external].flatten) := ofFiles_eq [files, external]
  rw [visited] at hn
  obtain ⟨v, found, rfl⟩ := node_ofVisits hn
  obtain ⟨f, hf, hv⟩ := List.mem_flatMap.mp (List.mem_of_find?_eq_some found)
  obtain ⟨rfl, inside⟩ := mem_visitsOfTrees hv
  have told : v.file.Told := by
    rw [List.flatten_cons, List.flatten_cons, List.flatten_nil, List.append_nil] at hf
    exact (List.mem_append.mp hf).elim (h _) (h' _)
  exact ⟨nodeOf_isContainer _ _ _ _, Visit.node_told told inside⟩

theorem mem_nodes_addNode {b : Builder} {m n : Node} (h : m ∈ (b.addNode n).2.graph.nodes) :
    m ∈ b.graph.nodes ∨ m = n := by
  unfold addNode at h
  split at h
  · exact .inl h
  · exact (List.mem_append.mp h).imp_right List.mem_singleton.mp

end Builder

/-- The origin of the node is put down: of one made from a symbol it is that of its file, with the mark
of the language's own libraries if it is one of these; containers are not of these. -/
structure Node.Placed (packages : List Package) (n : Node) : Prop where
  symbol : n.isContainer = false → n.Told ∧
    n.data.origin = some (originOf n.data.fileId packages) ∧
    ((originOf n.data.fileId packages).kind = .sdk → sdkMark.toList <+: n.label.toList)
  container : n.isContainer = true →
    n.data.isSdk = false ∧ ∃ origin, n.data.origin = some origin ∧ origin.kind ≠ .sdk

namespace Builder

variable {packages : List Package} {b : Builder}

theorem assign_placed (b : Builder) {n : Node} (symbol : n.isContainer = false) (told : n.Told) :
    (b.assign packages n).Placed packages := by
  have same : (b.assign packages n).isContainer = false := by
    rw [Node.isContainer, assign_kind]
    exact symbol
  refine ⟨fun _ => ?_, fun container => absurd (same.symm.trans container) (by decide)⟩
  rw [assign, if_neg (by simp [symbol])]
  dsimp only
  split
  · rename_i kind
    exact ⟨told, rfl, fun sdk => absurd (kind.symm.trans sdk) (by decide)⟩
  · refine ⟨told, rfl, fun _ => ?_⟩
    rw [String.toList_append]
    exact List.prefix_append _ _
  · rename_i kind
    exact ⟨told, rfl, fun sdk => absurd (kind.symm.trans sdk) (by decide)⟩

theorem container_placed {p : Package} {f : Filters} (relevant : p.isRelevant f = true) :
    p.container.Placed packages where
  symbol other := absurd other (by simp [Node.isContainer, Package.container])
  container _ := by
    refine ⟨?_, _, rfl, OriginKind.noConfusion⟩
    have other : p.type ≠ .sdk := by
      intro sdk
      rw [Package.isRelevant, sdk] at relevant
      cases relevant
    exact beq_eq_false_iff_ne.mpr other

theorem join_placed (h : ∀ n ∈ b.graph.nodes, n.Placed packages) (label : String)
    (crossing : Option String × String) :
    ∀ n ∈ (join label b crossing).graph.nodes, n.Placed packages := by
  have project : (projectContainer label).Placed packages :=
    ⟨fun other => absurd other Bool.noConfusion, fun _ => ⟨rfl, _, rfl, by decide⟩⟩
  unfold join
  dsimp only
  split
  · cases crossing.1 with
    | some source =>
      rw [nodes_of_withoutEdges (addEdge_withoutEdges b _ _ _)]
      exact h
    | none =>
      rw [nodes_of_withoutEdges (addEdge_withoutEdges _ _ _ _)]
      intro n hn
      rcases mem_nodes_addNode hn with hn | rfl
      · exact h n hn
      · exact project
  · exact h

/-- With packages the origins of all nodes are put down. -/
theorem addPackages_placed (h : ∀ n ∈ b.graph.nodes, n.isContainer = false ∧ n.Told)
    (some_package : packages ≠ []) (f : Filters) (label : String) :
    ∀ n ∈ (b.addPackages packages f label).graph.nodes, n.Placed packages := by
  have containers : ∀ n ∈ (b.addContainers (relevantPackages packages f)).graph.nodes,
      (n.isContainer = false ∧ n.Told) ∨ n.isContainer = true ∧ n.Placed packages := by
    refine List.foldlRecOn (motive := fun b : Builder => ∀ n ∈ b.graph.nodes,
      (n.isContainer = false ∧ n.Told) ∨ n.isContainer = true ∧ n.Placed packages)
      (relevantPackages packages f) (fun b p => (b.addNode (Package.container p)).2)
      (fun n hn => .inl (h n hn)) fun b h p hp n hn => ?_
    rcases mem_nodes_addNode hn with hn | rfl
    · exact h n hn
    · exact .inr ⟨rfl, container_placed (List.mem_filter.mp hp).2⟩
  have assigned : ∀ n ∈ ((b.addContainers (relevantPackages packages f)).assignAll
      packages).graph.nodes, n.Placed packages := by
    refine List.forall_mem_map.mpr fun n hn => ?_
    rcases containers n hn with ⟨symbol, told⟩ | ⟨container, placed⟩
    · exact assign_placed _ symbol told
    · rw [assign, if_pos container]
      exact placed
  rw [addPackages, if_neg (by simpa using some_package)]
  exact List.foldlRecOn (motive := fun b : Builder => ∀ n ∈ b.graph.nodes, n.Placed packages)
    _ (join label) assigned fun _ h crossing _ => join_placed h label crossing

end Builder

/-- What is known of the nodes of the graph of an analysis. -/
def Node.Known (packages : List Package) (n : Node) : Prop :=
  (n.isContainer = false → n.Told) ∧ (packages ≠ [] → n.Placed packages)

/-- Degrees say nothing of origins. -/
theorem Graph.withDegrees_known {g : Graph} {packages : List Package}
    (h : ∀ n ∈ g.nodes, n.Known packages) : ∀ n ∈ g.withDegrees.nodes, n.Known packages := by
  intro n hn
  have there : n.withoutDegrees ∈ g.nodes.map Node.withoutDegrees := by
    rw [← g.nodes_withDegrees]
    exact List.mem_map_of_mem hn
  obtain ⟨m, hm, same⟩ := List.mem_map.mp there
  have known : m.withoutDegrees.Known packages :=
    ⟨(h m hm).1, fun some_package => ⟨((h m hm).2 some_package).symbol,
      ((h m hm).2 some_package).container⟩⟩
  rw [same] at known
  exact ⟨known.1, fun some_package => ⟨(known.2 some_package).symbol,
    (known.2 some_package).container⟩⟩

theorem graphOfFiles_known {c : Config} {root : Option String} {packages : List Package}
    {files external : List SourceFile} {g : Graph}
    (h : (graphOfFiles c root packages files external).Gives g) (told : ∀ f ∈ files, f.Told)
    (told' : ∀ f ∈ external, f.Told) : ∀ n ∈ g.nodes, n.Known packages := by
  obtain ⟨b, edges, last⟩ := Inquiry.gives_bind.mp h
  have nodes : ∀ n ∈ b.graph.nodes, n.isContainer = false ∧ n.Told := by
    rw [Builder.nodes_of_withoutEdges (Builder.addEdges_withoutEdges edges)]
    exact fun n hn => Builder.nodes_told told told' hn
  obtain rfl := Inquiry.gives_pure.mp last
  refine Graph.withDegrees_known fun n hn => ?_
  split at hn
  · rename_i no_package
    exact ⟨fun _ => (nodes n hn).2, fun some_package =>
      absurd (List.isEmpty_iff.mp no_package) some_package⟩
  · rename_i some_package
    have placed := Builder.addPackages_placed nodes (by simpa using some_package) c.filters _ n hn
    exact ⟨fun symbol => (placed.symbol symbol).1, fun _ => placed⟩

/-! ## Both tests -/

/-- A file that its id tells to be one of the language's own is one by its path too, whatever packages
there are, if the id names a path as it stands. The path need not hold all that the id is searched for.
The URI of a path passes the tests that the path passes. In the graph of an analysis a symbol's node is
told by the id of its file, if the name of the symbol was looked at, and with packages its origin is that
of its file; so what is told to be the language's own has its origin there. -/
theorem sdk_told_has_sdk_origin (fileId : String) (packages : List Package) :
    (isSdkFile fileId = true ↔ "/dart-sdk/lib/".toList <:+: fileId.toList) ∧
    ((originOf fileId packages).kind = .sdk ↔ ∃ path, pathOfFileId? fileId.toList = some path ∧
      ("dart-sdk/lib".toList <:+: Path.withSlashes path ∨
        "flutter/bin/cache/dart-sdk".toList <:+: Path.withSlashes path)) ∧
    (NamesPath fileId.toList → isSdkFile fileId = true → (originOf fileId packages).kind = .sdk) ∧
    (∀ names, (∀ s ∈ names, FileUri.IsEntryName s) → names ≠ [] → ¬FileUri.IsBarred names →
      fileId.toList = '/' :: Text.joinWith ['/'] names →
      ∃ uri, FileUri.ofPath? fileId.toList = some uri ∧
        isSdkFile (String.ofList uri) = isSdkFile fileId ∧
        ((originOf (String.ofList uri) packages).kind = .sdk ↔
          (originOf fileId packages).kind = .sdk)) ∧
    ∀ disk config root given a, (analyze disk config root given).Gives (.ok a) →
      a.packages = packages → ∀ n ∈ a.graph.nodes, n.data.fileId = fileId →
        (n.isContainer = false → n.data.isSdk = (n.data.access.isSome && isSdkFile fileId)) ∧
        (packages ≠ [] →
          (n.isContainer = false → n.data.origin = some (originOf fileId packages) ∧
            ((originOf fileId packages).kind = .sdk → sdkMark.toList <+: n.label.toList)) ∧
          (NamesPath fileId.toList → n.data.isSdk = true →
            ∃ origin, n.data.origin = some origin ∧ origin.kind = .sdk)) := by
  refine ⟨isSdkFile_iff, ?_, kind_of_isSdkFile packages, ?_, ?_⟩
  · simp only [originOf_kind_sdk, isSdkPath_iff]
  · intro names proper some_name unbarred path
    have components : Path.components ('/' :: Text.joinWith ['/'] names) =
        Path.rootComponent :: names := by
      have parts := FileUri.components_of_names proper (.inl rfl) (.inl rfl)
      rwa [List.append_nil] at parts
    have uri := FileUri.ofPath?_of_components rfl components
    rw [if_neg (by simpa using some_name)] at uri
    have same : fileId = String.ofList ('/' :: Text.joinWith ['/'] names) := by
      rw [← path, String.ofList_toList]
    obtain ⟨told, kind⟩ := sdk_of_written proper some_name unbarred packages
    rw [← same] at told kind
    exact ⟨FileUri.written names, path ▸ uri, told, kind⟩
  · rintro disk config root given a gives rfl n hn rfl
    obtain ⟨external, built, told, told'⟩ := analyzeSound_told (analyzeSound_of_ok gives)
    obtain ⟨known, placed⟩ := graphOfFiles_known built told told' n hn
    refine ⟨known, fun some_package => ?_⟩
    obtain ⟨symbol, container⟩ := placed some_package
    refine ⟨fun other => (symbol other).2, fun names marked => ?_⟩
    cases holds : n.isContainer with
    | true =>
      rw [(container holds).1] at marked
      cases marked
    | false =>
      refine ⟨_, (symbol holds).2.1, kind_of_isSdkFile a.packages names ?_⟩
      rw [known holds, Bool.and_eq_true] at marked
      exact marked.2

/-- A function of the language's own libraries. -/
def corePrint : GivenFile where
  fileId := "/sdk/dart-sdk/lib/core/print.dart"
  text := ""
  symbols := some [{ name := "print", kind := 12, selection := some ⟨⟨0, 5⟩, ⟨0, 10⟩⟩ }]

/-- The analysis of the function, where the service always fails, and what the URI of its file says. -/
theorem sdk_told_has_sdk_origin_print :
    (∃ uri, FileUri.ofPath? corePrint.fileId.toList = some uri ∧ isSdkFile (String.ofList uri) = true ∧
      (originOf (String.ofList uri) [toyPackage]).kind = .sdk) ∧
    ∃ a, (analyze toyDisk {} (some "/app") [corePrint]).Gives (.ok a) ∧
      ∃ n ∈ a.graph.nodes, n.label = "⚙️ print" ∧ n.data.isSdk = true ∧
        ∃ origin, n.data.origin = some origin ∧ origin.kind = .sdk := by
  obtain ⟨-, -, of_told, of_path, of_node⟩ := sdk_told_has_sdk_origin corePrint.fileId [toyPackage]
  have names : NamesPath corePrint.fileId.toList := .inl rfl
  have told : isSdkFile corePrint.fileId = true := by decide +kernel
  constructor
  · have proper : ∀ s ∈ ["sdk", "dart-sdk", "lib", "core", "print.dart"].map String.toList,
        FileUri.IsEntryName s := by
      rw [List.forall_mem_map]
      intro s hs
      simp only [List.mem_cons, List.not_mem_nil, or_false] at hs
      rcases hs with rfl | rfl | rfl | rfl | rfl <;>
      · exact { whole := by decide, not_point := by decide, not_points := by decide
                filled := by decide }
    have unbarred : ¬FileUri.IsBarred
        (["sdk", "dart-sdk", "lib", "core", "print.dart"].map String.toList) :=
      FileUri.withColon_eq_self.mp rfl
    obtain ⟨uri, written, same, kind⟩ := of_path _ proper (by simp) unbarred rfl
    exact ⟨uri, written, same.trans told, kind.mpr (of_told names told)⟩
  · have packages : wantedPackages toyDisk {} (some "/app") = [toyPackage] := toyDisk_packages
    have sound := Inquiry.gives_answer (fun _ => none)
      (analyzeSound toyDisk {} (some "/app") [corePrint])
    have gives : (analyze toyDisk {} (some "/app") [corePrint]).Gives (.ok _) :=
      Inquiry.gives_bind.mpr ⟨_, sound, .done _⟩
    have listed := (analyzeSound_graph sound).1.trans packages
    have nodes : (((analyzeSound toyDisk {} (some "/app") [corePrint]).answer fun _ =>
        none).graph.nodes.map fun n => (n.data.fileId, n.label, n.data.isSdk)) =
          [(corePrint.fileId, "⚙️ print", true), ("file:///packages/toys", "toys", false)] := by
      simp only [analyzeSound, analyzeLoaded]
      rw [packages]
      decide +kernel
    have print : (corePrint.fileId, "⚙️ print", true) ∈ ((analyzeSound toyDisk {} (some "/app")
        [corePrint]).answer fun _ => none).graph.nodes.map
          fun n => (n.data.fileId, n.label, n.data.isSdk) := by
      rw [nodes]
      exact List.mem_cons_self
    obtain ⟨n, hn, same⟩ := List.mem_map.mp print
    obtain ⟨file, label, marked⟩ : n.data.fileId = corePrint.fileId ∧ n.label = "⚙️ print" ∧
        n.data.isSdk = true := by
      simpa using same
    have placed := (of_node _ _ _ _ _ gives listed n hn file).2 (List.cons_ne_nil _ _)
    exact ⟨_, gives, n, hn, label, marked, placed.2 names marked⟩

/-- Folders beside the libraries pass the test of the path only. A dot segment, a host that is no local
one and a query let a URI pass the test of the id only. -/
theorem sdk_tests_differ :
    (isSdkFile "/sdk/flutter/bin/cache/dart-sdk/bin/snapshots.dart" = false ∧
      (originOf "/sdk/flutter/bin/cache/dart-sdk/bin/snapshots.dart" []).kind = .sdk) ∧
    ∀ uri ∈ ["file:///sdk/dart-sdk/lib/../a.dart", "file://host/dart-sdk/lib/a.dart",
        "file:///a.dart?/dart-sdk/lib/"],
      isSdkFile uri = true ∧ (originOf uri []).kind = .project := by
  decide +kernel

end CodeAtlas
