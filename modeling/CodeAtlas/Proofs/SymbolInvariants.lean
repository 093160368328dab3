import CodeAtlas.Analysis
import CodeAtlas.Proofs.Answers
import CodeAtlas.Proofs.Gaps

/-!
Properties of all symbols of files, at any depth. What holds of the symbols that raw descriptions
stand for (`GivenFile.load_raw`), and is kept by filling in one symbol and by closing one member of
a class, holds of all symbols of the files that an analysis gives (`fillIn_leads`).
-/
namespace CodeAtlas

/-- Whatever the answers, from a state with `I` the computation leads to such a state and to a
result with `P`. -/
def Leads {σ α : Type} (I : σ → Prop) (P : α → Prop) (x : StateT σ Inquiry α) : Prop :=
  ∀ s a s', I s → (x s).Gives (a, s') → P a ∧ I s'

namespace Leads

variable {σ α β : Type} {I : σ → Prop} {P : α → Prop} {Q : β → Prop}

theorem pure' {a : α} (h : P a) : Leads I P (pure a : StateT σ Inquiry α) := by
  intro s b s' hs gives
  cases Inquiry.gives_pure.mp gives
  exact ⟨h, hs⟩

theorem bind' {x : StateT σ Inquiry α} {f : α → StateT σ Inquiry β} (hx : Leads I P x)
    (hf : ∀ a, P a → Leads I Q (f a)) : Leads I Q (x >>= f) := by
  intro s b s' hs gives
  obtain ⟨⟨a, s₁⟩, first, second⟩ := Inquiry.gives_bind.mp gives
  obtain ⟨ha, hs₁⟩ := hx s a s₁ hs first
  exact hf a ha s₁ b s' hs₁ second

theorem mapM' {f : α → StateT σ Inquiry β} {l : List α} (hf : ∀ a ∈ l, Leads I Q (f a)) :
    Leads I (fun bs => ∀ b ∈ bs, Q b) (l.mapM f) := by
  induction l with
  | nil => exact pure' fun b hb => absurd hb List.not_mem_nil
  | cons a rest ih =>
    rw [List.mapM_cons]
    obtain ⟨first, others⟩ := List.forall_mem_cons.mp hf
    refine bind' first fun b hb => bind' (ih others) fun bs hbs => pure' ?_
    exact List.forall_mem_cons.mpr ⟨hb, hbs⟩

end Leads

/-! ## Symbols from raw descriptions -/

/-- Nothing is known of the symbol but what a raw description in the file says. -/
structure Symbol.Raw (fileId : String) (s : Symbol) : Prop where
  file : s.fileId = fileId
  untyped : s.withoutTypes = s
  unrelated : s.relations = none

mutual

theorem toTree_raw (fileId : String) (parentId : Option String) : ∀ (r : RawSymbol),
    ∀ s ∈ (r.toTree fileId parentId).preorder, s.Raw fileId
  | ⟨name, kind, detail, range, selection, children⟩ => by
    rw [RawSymbol.toTree, SymbolTree.preorder]
    exact List.forall_mem_cons.mpr ⟨⟨rfl, rfl, rfl⟩, toTrees_raw fileId _ children⟩

theorem toTrees_raw (fileId : String) (parentId : Option String) : ∀ (raw : List RawSymbol),
    ∀ s ∈ preorderAll (toTrees fileId parentId raw), s.Raw fileId
  | [] => by
    rw [toTrees, preorderAll]
    exact fun s hs => absurd hs List.not_mem_nil
  | r :: rest => by
    rw [toTrees, preorderAll]
    exact List.forall_mem_append.mpr
      ⟨toTree_raw fileId parentId r, toTrees_raw fileId parentId rest⟩

end

/-- A file is loaded with symbols that are made from raw descriptions. -/
theorem GivenFile.load_eq {f : GivenFile} {loaded : SourceFile} (h : f.load.Gives loaded) :
    ∃ raw, loaded = ⟨f.fileId, f.text, symbolsOfRaw f.fileId raw⟩ := by
  unfold GivenFile.load at h
  cases hs : f.symbols with
  | some raw =>
    rw [hs] at h
    exact ⟨raw, Inquiry.gives_pure.mp h⟩
  | none =>
    rw [hs] at h
    obtain ⟨answer, -, last⟩ := Inquiry.gives_bind.mp h
    exact ⟨_, Inquiry.gives_pure.mp last⟩

theorem GivenFile.load_raw {f : GivenFile} {loaded : SourceFile} (h : f.load.Gives loaded) :
    loaded.fileId = f.fileId ∧ loaded.text = f.text ∧ ∀ s ∈ loaded.preorder, s.Raw f.fileId := by
  obtain ⟨raw, rfl⟩ := load_eq h
  exact ⟨rfl, rfl, toTrees_raw f.fileId none raw⟩

namespace Enrichment

variable {P : Symbol → Prop}

/-! ## Filling in -/

section FillingIn

variable {I : Resolver → Prop} {scope : Scope}

/-- What the steps before the question lead to and those after it keep, filling in leads to, whatever
the answer. -/
theorem enrichSymbol_leads {s : Symbol}
    (led : ∀ r, I r → P (lead scope s r).1.2 ∧ I (lead scope s r).2)
    (finished : ∀ contents s₁ r, P s₁ → I r →
      P (finish scope contents s₁ r).1 ∧ I (finish scope contents s₁ r).2) :
    Leads I P (enrichSymbol scope s) := by
  intro r s' r' hr gives
  rw [enrichSymbol_run] at gives
  obtain ⟨contents, -, last⟩ := Inquiry.gives_bind.mp gives
  obtain ⟨h₁, hr₁⟩ := led r hr
  have ends := finished contents _ _ h₁ hr₁
  rwa [← Inquiry.gives_pure.mp last] at ends

mutual

theorem enrichTree_leads (keeps : ∀ s, P s → Leads I P (enrichSymbol scope s)) :
    ∀ t : SymbolTree, (∀ s ∈ t.preorder, P s) →
      Leads I (fun t' => ∀ s ∈ t'.preorder, P s) (enrichTree scope t)
  | ⟨s, children⟩, h => by
    rw [enrichTree]
    split
    · exact .pure' h
    · obtain ⟨hs, hc⟩ := List.forall_mem_cons.mp h
      refine .bind' (keeps s hs) fun s' hs' => ?_
      refine .bind' (enrichTrees_leads keeps children hc) fun children' hc' => .pure' ?_
      exact List.forall_mem_cons.mpr ⟨hs', hc'⟩

theorem enrichTrees_leads (keeps : ∀ s, P s → Leads I P (enrichSymbol scope s)) :
    ∀ trees : List SymbolTree, (∀ s ∈ preorderAll trees, P s) →
      Leads I (fun trees' => ∀ s ∈ preorderAll trees', P s) (enrichTrees scope trees)
  | [], h => by
    rw [enrichTrees]
    exact .pure' h
  | t :: rest, h => by
    rw [enrichTrees]
    obtain ⟨ht, hr⟩ := List.forall_mem_append.mp h
    refine .bind' (enrichTree_leads keeps t ht) fun t' ht' => ?_
    refine .bind' (enrichTrees_leads keeps rest hr) fun rest' hr' => .pure' ?_
    exact List.forall_mem_append.mpr ⟨ht', hr'⟩

end

theorem enrichFile_leads {config : Config} {relations : RelationIndex} {f : SourceFile}
    (keeps : ∀ s, P s → Leads I P (enrichSymbol ⟨config, relations, f.text⟩ s))
    (h : ∀ s ∈ f.preorder, P s) :
    Leads I (fun f' => ∀ s ∈ f'.preorder, P s) (enrichFile config relations f) :=
  .bind' (enrichTrees_leads keeps f.symbols h) fun _ ht => .pure' ht

end FillingIn

/-! ## Closing -/

/-- Closing a member of a class keeps what is known of all its members. -/
def ClosesInto (P : Symbol → Prop) : Prop :=
  ∀ classId members m, (∀ x ∈ members, P (SymbolTree.symbol x)) → P (SymbolTree.symbol m) →
    Ends (fun m' => P (SymbolTree.symbol m')) (closeMember classId members m)

theorem closeMember_children (classId : String) (members : List SymbolTree) (m : SymbolTree) :
    Ends (fun m' => m'.children = m.children) (closeMember classId members m) := by
  unfold closeMember
  split
  · exact .pure' rfl
  · split
    · exact .pure' rfl
    · exact fun _ => rfl

theorem forall_preorderAll {trees : List SymbolTree} :
    (∀ s ∈ preorderAll trees, P s) ↔
      ∀ t ∈ trees, P t.symbol ∧ ∀ s ∈ preorderAll t.children, P s := by
  induction trees with
  | nil => simp [preorderAll]
  | cons t rest ih =>
    have root : (∀ s ∈ t.preorder, P s) ↔ P t.symbol ∧ ∀ s ∈ preorderAll t.children, P s := by
      cases t
      rw [SymbolTree.preorder]
      exact List.forall_mem_cons
    rw [preorderAll, List.forall_mem_append, ih, List.forall_mem_cons, root]

theorem closeMembers_ends (closes : ClosesInto P) (s : Symbol) {members : List SymbolTree}
    (h : ∀ x ∈ preorderAll members, P x) :
    Ends (fun members' => ∀ x ∈ preorderAll members', P x) (closeMembers s members) := by
  unfold closeMembers
  split
  · have each := forall_preorderAll.mp h
    have closed : ∀ m ∈ members, Ends (fun m' : SymbolTree =>
        P m'.symbol ∧ ∀ x ∈ preorderAll m'.children, P x)
        (closeMember s.uniqueId members m) := by
      intro m hm n
      refine ⟨closes _ _ m (fun x hx => (each x hx).1) (each m hm).1 n, ?_⟩
      rw [closeMember_children s.uniqueId members m n]
      exact (each m hm).2
    exact (Ends.mapM' closed).mono fun members' h => forall_preorderAll.mpr h.1
  · exact .pure' h

mutual

theorem closeTree_ends (closes : ClosesInto P) : ∀ t : SymbolTree, (∀ s ∈ t.preorder, P s) →
    Ends (fun t' => ∀ s ∈ t'.preorder, P s) (closeTree t)
  | ⟨s, children⟩, h => by
    rw [closeTree]
    obtain ⟨hs, hc⟩ := List.forall_mem_cons.mp h
    refine .bind' (closeTrees_ends closes children hc) fun children' hc' => ?_
    refine .bind' (closeMembers_ends closes s hc') fun members hm => .pure' ?_
    exact List.forall_mem_cons.mpr ⟨hs, hm⟩

theorem closeTrees_ends (closes : ClosesInto P) : ∀ trees : List SymbolTree,
    (∀ s ∈ preorderAll trees, P s) →
      Ends (fun trees' => ∀ s ∈ preorderAll trees', P s) (closeTrees trees)
  | [], h => by
    rw [closeTrees]
    exact .pure' h
  | t :: rest, h => by
    rw [closeTrees]
    obtain ⟨ht, hr⟩ := List.forall_mem_append.mp h
    refine .bind' (closeTree_ends closes t ht) fun t' ht' => ?_
    refine .bind' (closeTrees_ends closes rest hr) fun rest' hr' => .pure' ?_
    exact List.forall_mem_append.mpr ⟨ht', hr'⟩

end

theorem closeFile_ends (closes : ClosesInto P) {f : SourceFile} (h : ∀ s ∈ f.preorder, P s) :
    Ends (fun f' => ∀ s ∈ f'.preorder, P s) (closeFile f) := by
  refine .bind' (closeTrees_ends closes f.symbols h) fun symbols hs => ?_
  exact fun _ => hs

/-! ## Both -/

theorem fillIn_leads {I : Resolver → Prop} {c : Context} {files : List SourceFile}
    (keeps : ∀ text s, P s → Leads I P (enrichSymbol ⟨c.config, c.relations, text⟩ s))
    (closes : ClosesInto P) (h : ∀ f ∈ files, ∀ s ∈ f.preorder, P s) :
    Leads I (fun files' => ∀ f ∈ files', ∀ s ∈ f.preorder, P s) (fillIn c files) := by
  have enriched : Leads I (fun files' => ∀ f ∈ files', ∀ s ∈ f.preorder, P s)
      (enrichFiles c files) :=
    .mapM' fun f hf => enrichFile_leads (keeps f.text) (h f hf)
  refine .bind' enriched fun files' h' => .pure' ?_
  exact (Ends.mapM' fun f hf => closeFile_ends closes (h' f hf)) {} |>.1

end Enrichment

end CodeAtlas
