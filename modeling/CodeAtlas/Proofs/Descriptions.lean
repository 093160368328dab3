import CodeAtlas.Proofs.Preservation

/-!
Trees as they were described. Neither filling in nor closing touches what a service said of a
symbol, so that it can be read off the files of an analysis: they hold the forests that were given or
fetched (`GivenFile.forest`), symbol for symbol (`fillIn_described`). Closing would give a member of a
class a parent that has none, but every nested symbol already names the one around it.
-/
namespace CodeAtlas

mutual

/-- A tree as it was described. -/
def SymbolTree.described : SymbolTree → SymbolTree
  | ⟨s, children⟩ => ⟨s.described, describedTrees children⟩

/-- Trees as they were described. -/
def describedTrees : List SymbolTree → List SymbolTree
  | [] => []
  | t :: rest => t.described :: describedTrees rest

end

theorem describedTrees_congr {trees trees' : List SymbolTree}
    (h : List.Forall₂ (fun t t' => t'.described = t.described) trees trees') :
    describedTrees trees' = describedTrees trees := by
  induction h with
  | nil => rfl
  | cons first _ ih => rw [describedTrees, describedTrees, first, ih]

/-! ## Raw descriptions -/

/-- The symbol that a raw description stands for, without those nested in it. -/
def RawSymbol.own (fileId : String) (parentId : Option String) (r : RawSymbol) : Symbol :=
  { Symbol.ofName r.name (.ofCode r.kind) fileId with
    detail := r.detail.getD "", range := r.range, selection := r.selection, parentId }

theorem toTree_eq (fileId : String) (parentId : Option String) (r : RawSymbol) :
    r.toTree fileId parentId = ⟨r.own fileId parentId,
      toTrees fileId (some (r.own fileId parentId).uniqueId) r.children⟩ := by
  cases r
  rw [RawSymbol.toTree]
  rfl

mutual

theorem toTree_described (fileId : String) (parentId : Option String) : ∀ r : RawSymbol,
    (r.toTree fileId parentId).described = r.toTree fileId parentId
  | ⟨name, kind, detail, range, selection, children⟩ => by
    rw [RawSymbol.toTree, SymbolTree.described, toTrees_described fileId _ children]
    rfl

theorem toTrees_described (fileId : String) (parentId : Option String) : ∀ raw : List RawSymbol,
    describedTrees (toTrees fileId parentId raw) = toTrees fileId parentId raw
  | [] => by rw [toTrees, describedTrees]
  | r :: rest => by
    rw [toTrees, describedTrees, toTree_described fileId parentId r,
      toTrees_described fileId parentId rest]

end

section Stands

variable {fileId : String} {parentId : Option String}

/-- What is known of a tree that was described as a raw symbol. -/
theorem described_eq_toTree {s : Symbol} {children : List SymbolTree} {r : RawSymbol}
    (h : (⟨s, children⟩ : SymbolTree).described = r.toTree fileId parentId) :
    s.described = r.own fileId parentId ∧
      describedTrees children = toTrees fileId (some s.uniqueId) r.children := by
  rw [toTree_eq, SymbolTree.described, SymbolTree.mk.injEq] at h
  obtain ⟨own, members⟩ := h
  refine ⟨own, ?_⟩
  rw [members, ← own]
  rfl

theorem parentId_of_described {trees : List SymbolTree} {raw : List RawSymbol}
    (h : describedTrees trees = toTrees fileId parentId raw) :
    ∀ t ∈ trees, t.symbol.parentId = parentId := by
  induction trees generalizing raw with
  | nil => exact fun t ht => absurd ht List.not_mem_nil
  | cons t rest ih =>
    obtain ⟨s, children⟩ := t
    cases raw with
    | nil => simp [describedTrees, toTrees] at h
    | cons r raws =>
      rw [describedTrees, toTrees, List.cons.injEq] at h
      refine List.forall_mem_cons.mpr ⟨?_, ih h.2⟩
      exact congrArg Symbol.parentId (described_eq_toTree h.1).1

end Stands

/-! ## Filling in -/

mutual

theorem described_of_filled : ∀ t t' : SymbolTree, t.Filled Symbol.FilledTo t' →
    t'.described = t.described
  | ⟨s, children⟩, t', h => by
    cases h with
    | untouched => rfl
    | filled _ symbol members =>
      rw [SymbolTree.described, SymbolTree.described, symbol.described,
        describedTrees_of_filled children _ members]

theorem describedTrees_of_filled : ∀ trees trees' : List SymbolTree,
    List.Forall₂ (SymbolTree.Filled Symbol.FilledTo) trees trees' →
      describedTrees trees' = describedTrees trees
  | [], trees', h => by
    rw [List.forall₂_nil_left_iff.mp h]
  | t :: rest, trees', h => by
    cases h with
    | cons first others =>
      rw [describedTrees, describedTrees, described_of_filled t _ first,
        describedTrees_of_filled rest _ others]

end

/-! ## Closing -/

namespace Enrichment

theorem closeMember_described (classId : String) (members : List SymbolTree) {m : SymbolTree}
    (linked : m.symbol.parentId.isSome) :
    Ends (fun m' => m'.described = m.described) (closeMember classId members m) := by
  unfold closeMember
  split
  · exact .pure' rfl
  · split
    · exact .pure' rfl
    · obtain ⟨s, children⟩ := m
      -- the link that is there comes first
      have kept : (s.parentId <|> some classId) = s.parentId := by
        obtain ⟨parentId, known⟩ := Option.isSome_iff_exists.mp linked
        rw [show s.parentId = some parentId from known]
        rfl
      refine .bind' (P := fun _ => True) (fun _ => trivial) fun parameters _ => .pure' ?_
      dsimp only
      rw [kept]
      rfl

theorem closeMembers_described (s : Symbol) {members : List SymbolTree}
    (linked : ∀ m ∈ members, m.symbol.parentId.isSome) :
    Ends (fun members' => describedTrees members' = describedTrees members)
      (closeMembers s members) := by
  unfold closeMembers
  split
  · have each := Ends.mapM_forall₂ fun m hm => closeMember_described s.uniqueId members (linked m hm)
    exact each.mono fun members' => describedTrees_congr
  · exact .pure' rfl

section

variable {fileId : String}

mutual

theorem closeTree_described : ∀ (r : RawSymbol) (parentId : Option String) (t : SymbolTree),
    t.described = r.toTree fileId parentId →
      Ends (fun t' => t'.described = r.toTree fileId parentId) (closeTree t)
  | ⟨name, kind, detail, range, selection, children⟩, parentId, ⟨s, members⟩, h => by
    obtain ⟨-, below⟩ := described_eq_toTree h
    rw [closeTree]
    refine .bind' (closeTrees_described children _ members below) fun members' h' => ?_
    have linked : ∀ m ∈ members', m.symbol.parentId.isSome := fun m hm =>
      Option.isSome_of_eq_some (parentId_of_described h' m hm)
    refine .bind' (closeMembers_described s linked) fun closed same => .pure' ?_
    rw [← h, SymbolTree.described, SymbolTree.described, same, h', below]

theorem closeTrees_described : ∀ (raw : List RawSymbol) (parentId : Option String)
    (trees : List SymbolTree), describedTrees trees = toTrees fileId parentId raw →
      Ends (fun trees' => describedTrees trees' = toTrees fileId parentId raw) (closeTrees trees)
  | [], parentId, trees, h => by
    cases trees with
    | nil =>
      rw [closeTrees]
      exact .pure' h
    | cons t rest => simp [describedTrees, toTrees] at h
  | r :: raw, parentId, trees, h => by
    cases trees with
    | nil => simp [describedTrees, toTrees] at h
    | cons t rest =>
      rw [describedTrees, toTrees, List.cons.injEq] at h
      rw [closeTrees]
      refine .bind' (closeTree_described r parentId t h.1) fun t' ht => ?_
      refine .bind' (closeTrees_described raw parentId rest h.2) fun rest' hr => .pure' ?_
      rw [describedTrees, toTrees, ht, hr]

end

end

end Enrichment

/-! ## Files -/

/-- The symbols of the file were described as the given ones. -/
def SourceFile.DescribedAs (raw : List RawSymbol) (f : SourceFile) : Prop :=
  describedTrees f.symbols = symbolsOfRaw f.fileId raw

/-- The symbols of a given file: those that came with it, or what the service answers. Where the
service fails there are none. -/
def GivenFile.forest (service : Service) (f : GivenFile) : List RawSymbol :=
  match f.symbols with
  | some raw => raw
  | none => (service (.symbols f.fileId)).getD []

theorem GivenFile.answer_load (service : Service) (f : GivenFile) :
    f.load.answer service = ⟨f.fileId, f.text, symbolsOfRaw f.fileId (f.forest service)⟩ := by
  unfold load forest
  cases f.symbols <;> rfl

/-- The symbols of given files as they are had. -/
def loadedFiles (service : Service) (given : List GivenFile) : List SourceFile :=
  given.map fun f => f.load.answer service

theorem loadedFiles_described (service : Service) (given : List GivenFile) :
    List.Forall₂ SourceFile.DescribedAs (given.map (GivenFile.forest service))
      (loadedFiles service given) := by
  rw [loadedFiles, List.forall₂_map_left_iff, List.forall₂_map_right_iff]
  refine List.forall₂_same.mpr fun f _ => ?_
  rw [f.answer_load service]
  exact toTrees_described f.fileId none (f.forest service)

namespace Enrichment

theorem closeFile_described (f : SourceFile) :
    Ends (fun f' => ∀ raw, f.DescribedAs raw → f'.DescribedAs raw) (closeFile f) :=
  fun n raw h => closeTrees_described raw none f.symbols h n

/-- Whatever the answers, files come out of filling in as they were described. -/
theorem fillIn_described {c : Context} {forests : List (List RawSymbol)} {files : List SourceFile}
    (h : List.Forall₂ SourceFile.DescribedAs forests files) :
    Leads (fun _ => True) (List.Forall₂ SourceFile.DescribedAs forests) (fillIn c files) := by
  have enriched := enrichFiles_filled (c := c) (fun _ => enrichSymbol_fills _) files
  refine .bind' enriched fun files' filled => .pure' ?_
  have described : List.Forall₂ SourceFile.DescribedAs forests files' := by
    refine forall₂_comp (fun raw f f' before filled => ?_) h filled
    rw [SourceFile.DescribedAs, describedTrees_of_filled _ _ filled.symbols, filled.fileId]
    exact before
  have closed := Ends.mapM_forall₂ fun f (_ : f ∈ files') => closeFile_described f
  exact forall₂_comp (fun raw f f' before closes => closes raw before) described (closed {})

end Enrichment

end CodeAtlas
