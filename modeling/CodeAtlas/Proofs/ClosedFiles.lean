import CodeAtlas.Proofs.ClosedConstructors
import CodeAtlas.Proofs.SymbolInvariants

/-!
Closed files. There is one way only to close files (`closed_unique`), and it leaves fields alone; so
what stands in a closed constructor is looked up with the same result again, or not any more. Closed
files are then what they are closed into (`closed_self`), unless the type of a field stands for a
field itself.
-/
namespace CodeAtlas.Enrichment

/-! ## One result only -/

theorem closedBy_unique (members : List Symbol) :
    Relator.RightUnique (Parameter.ClosedBy members) := by
  intro p p₁ p₂ h₁ h₂
  have same_field : ∀ {a b : String}, p.type = selfFieldMark ++ a → p.type = selfFieldMark ++ b →
      a = b := by
    intro a b ha hb
    rw [← selfFieldOf?_eq_some_iff] at ha hb
    exact Option.some.inj (ha.symm.trans hb)
  cases h₁ with
  | plain no_field =>
    cases h₂ with
    | plain => rfl
    | typed stands => exact absurd stands (no_field _)
    | untyped stands => exact absurd stands (no_field _)
  | typed stands first known =>
    cases h₂ with
    | plain no_field => exact absurd stands (no_field _)
    | typed stands' first' known' =>
      obtain rfl := same_field stands stands'
      obtain rfl := first.unique first'
      obtain rfl := Option.some.inj (known.symm.trans known')
      rfl
    | untyped stands' unknown =>
      obtain rfl := same_field stands stands'
      rw [unknown _ first] at known
      cases known
  | untyped stands unknown =>
    cases h₂ with
    | plain no_field => exact absurd stands (no_field _)
    | typed stands' first known =>
      obtain rfl := same_field stands stands'
      rw [unknown _ first] at known
      cases known
    | untyped => rfl

theorem symbol_closedIn_unique {around : Option SymbolTree} {s s₁ s₂ : Symbol}
    (h₁ : s.ClosedIn around s₁) (h₂ : s.ClosedIn around s₂) : s₁ = s₂ := by
  have closable : ∀ {c : SymbolTree} {ps : List Parameter}, around = some c →
      c.symbol.kind = .classDecl → s.kind = .constructor → s.parameters = some ps → ps ≠ [] →
      s.Closable around := by
    intro c ps inside in_class kind listed nonempty
    refine ⟨⟨c, inside, in_class⟩, kind, ?_⟩
    simpa [Symbol.lacksParameters, listed] using nonempty
  cases h₁ with
  | constructor inside in_class kind listed nonempty closed =>
    cases h₂ with
    | constructor inside' in_class' kind' listed' nonempty' closed' =>
      obtain rfl := Option.some.inj (inside.symm.trans inside')
      obtain rfl := Option.some.inj (listed.symm.trans listed')
      rw [List.right_unique_forall₂' (closedBy_unique _) closed closed']
    | other unclosable => exact absurd (closable inside in_class kind listed nonempty) unclosable
  | other unclosable =>
    cases h₂ with
    | constructor inside in_class kind listed nonempty =>
      exact absurd (closable inside in_class kind listed nonempty) unclosable
    | other => rfl

mutual

theorem tree_closedIn_unique : ∀ (t : SymbolTree) {around : Option SymbolTree}
    {t₁ t₂ : SymbolTree}, t.ClosedIn around t₁ → t.ClosedIn around t₂ → t₁ = t₂
  | ⟨s, children⟩, around, t₁, t₂, h₁, h₂ => by
    cases h₁ with
    | node own₁ members₁ =>
      cases h₂ with
      | node own₂ members₂ =>
        rw [symbol_closedIn_unique own₁ own₂, trees_closedIn_unique children members₁ members₂]

theorem trees_closedIn_unique : ∀ (trees : List SymbolTree) {around : Option SymbolTree}
    {trees₁ trees₂ : List SymbolTree}, TreesClosedIn around trees trees₁ →
      TreesClosedIn around trees trees₂ → trees₁ = trees₂
  | [], around, trees₁, trees₂, h₁, h₂ => by
    cases h₁
    cases h₂
    rfl
  | t :: rest, around, trees₁, trees₂, h₁, h₂ => by
    cases h₁ with
    | cons first₁ others₁ =>
      cases h₂ with
      | cons first₂ others₂ =>
        rw [tree_closedIn_unique t first₁ first₂, trees_closedIn_unique rest others₁ others₂]

end

theorem closed_unique {f f₁ f₂ : SourceFile} (h₁ : f.Closed f₁) (h₂ : f.Closed f₂) : f₁ = f₂ := by
  obtain ⟨fileId₁, text₁, symbols₁⟩ := f₁
  obtain ⟨fileId₂, text₂, symbols₂⟩ := f₂
  obtain rfl : fileId₁ = fileId₂ := h₁.fileId.trans h₂.fileId.symm
  obtain rfl : text₁ = text₂ := h₁.text.trans h₂.text.symm
  obtain rfl : symbols₁ = symbols₂ := trees_closedIn_unique _ h₁.symbols h₂.symbols
  rfl

/-! ## Closed files -/

/-- The type of the symbol does not stand for a field, if it is one itself. -/
def TypedPlainly (s : Symbol) : Prop :=
  s.kind.isFieldLike = true → ∀ type, s.resolvedType = some type →
    ∀ field, type ≠ selfFieldMark ++ field

theorem forall₂_self {α : Type} {R S : α → α → Prop} {as bs : List α}
    (keeps : ∀ a b, R a b → S b b) (h : List.Forall₂ R as bs) : List.Forall₂ S bs bs := by
  induction h with
  | nil => exact .nil
  | cons first _ ih => exact .cons (keeps _ _ first) ih

section Closed

variable {around around' : Option SymbolTree}

theorem closedBy_self {members members' : List Symbol} {p p' : Parameter}
    (fields : ∀ name f, FirstField members' name f ↔ FirstField members name f)
    (plainly : ∀ s ∈ members, TypedPlainly s) (h : p.ClosedBy members p') :
    p'.ClosedBy members' p' := by
  cases h with
  | plain no_field => exact .plain no_field
  | typed stands first known =>
    exact .plain (plainly _ first.mem first.isFieldLike _ known)
  | untyped stands unknown =>
    exact .untyped stands fun f hf => unknown f ((fields _ f).mp hf)

/-- The tree around a symbol, and the one around it when it is closed: fields are found in it as
before, and none of their types stands for a field. -/
inductive Around : Option SymbolTree → Option SymbolTree → Prop where
  | top : Around none none
  | inside {c c' : SymbolTree} (kind : c'.symbol.kind = c.symbol.kind)
      (fields : ∀ name f, FirstField c'.members name f ↔ FirstField c.members name f)
      (plainly : ∀ s ∈ c.members, TypedPlainly s) : Around (some c) (some c')

theorem kind_of_closedIn {s s' : Symbol} (h : s.ClosedIn around s') :
    s' = s ∨ s.kind = .constructor ∧ s'.kind = .constructor := by
  cases h with
  | constructor inside in_class kind => exact .inr ⟨kind, kind⟩
  | other => exact .inl rfl

theorem symbol_closedIn_self (h : Around around around') {s s' : Symbol}
    (closed : s.ClosedIn around s') : s'.ClosedIn around' s' := by
  cases closed with
  | @constructor c ps ps' inside in_class kind listed nonempty each =>
    subst inside
    cases h with
    | inside same fields plainly =>
      have nonempty' : ps' ≠ [] := by
        rintro rfl
        exact nonempty (List.forall₂_nil_right_iff.mp each)
      have settled := forall₂_self (fun _ _ => closedBy_self fields plainly) each
      exact .constructor rfl (same.trans in_class) kind rfl nonempty' settled
  | other unclosable =>
    refine .other fun closable => unclosable ?_
    obtain ⟨⟨c', inside, in_class⟩, others⟩ := closable
    cases h with
    | top => cases inside
    | inside same =>
      cases inside
      exact ⟨⟨_, rfl, same.symm.trans in_class⟩, others⟩

/-- Closing leaves fields alone, so they are found as before. -/
theorem firstField_of_closedIn {trees trees' : List SymbolTree}
    (h : TreesClosedIn around trees trees') (name : String) (f : Symbol) :
    FirstField (trees'.map SymbolTree.symbol) name f ↔
      FirstField (trees.map SymbolTree.symbol) name f := by
  rw [firstField_iff, firstField_iff]
  rw [treesClosedIn_iff] at h
  suffices (trees'.map SymbolTree.symbol).find? _ =
      (trees.map SymbolTree.symbol).find? _ by rw [this]
  induction h with
  | nil => rfl
  | cons first _ ih =>
    rw [List.map_cons, List.map_cons, List.find?_cons, List.find?_cons, ih]
    cases first with
    | node own =>
      rcases kind_of_closedIn own with same | ⟨kind, kind'⟩
      · rw [same]
      · simp [kind, kind', SymbolKind.isFieldLike]

mutual

theorem tree_closedIn_self : ∀ (t : SymbolTree) {around around' : Option SymbolTree}
    {t' : SymbolTree}, Around around around' → (∀ s ∈ t.preorder, TypedPlainly s) →
      t.ClosedIn around t' → t'.ClosedIn around' t'
  | ⟨s, children⟩, around, around', t', h, plainly, closed => by
    cases closed with
    | node own members =>
      obtain ⟨-, below⟩ := List.forall_mem_cons.mp plainly
      have kind := kind_of_closedIn own
      refine .node (symbol_closedIn_self h own) (trees_closedIn_self children ?_ below members)
      refine .inside ?_ (firstField_of_closedIn members) ?_
      · rcases kind with same | ⟨kind, kind'⟩
        · rw [same]
        · exact kind'.trans kind.symm
      · intro m hm
        obtain ⟨t, ht, rfl⟩ := List.mem_map.mp hm
        exact (forall_preorderAll.mp below t ht).1

theorem trees_closedIn_self : ∀ (trees : List SymbolTree) {around around' : Option SymbolTree}
    {trees' : List SymbolTree}, Around around around' →
      (∀ s ∈ preorderAll trees, TypedPlainly s) → TreesClosedIn around trees trees' →
      TreesClosedIn around' trees' trees'
  | [], around, around', trees', h, plainly, closed => by
    cases closed
    exact .nil
  | t :: rest, around, around', trees', h, plainly, closed => by
    cases closed with
    | cons first others =>
      obtain ⟨here, there⟩ := List.forall_mem_append.mp plainly
      exact .cons (tree_closedIn_self t h here first) (trees_closedIn_self rest h there others)

end

/-- Closed files are what they are closed into. -/
theorem closed_self {files files' : List SourceFile}
    (plainly : ∀ f ∈ files, ∀ s ∈ f.preorder, TypedPlainly s)
    (h : List.Forall₂ SourceFile.Closed files files') :
    List.Forall₂ SourceFile.Closed files' files' := by
  induction h with
  | nil => exact .nil
  | cons first _ ih =>
    obtain ⟨here, others⟩ := List.forall_mem_cons.mp plainly
    refine .cons ⟨rfl, rfl, ?_⟩ (ih others)
    exact trees_closedIn_self _ .top here first.symbols

end Closed

/-- Closing files does to each symbol in its place exactly what `Symbol.ClosedIn` says and nothing
else, and it looks up as many parameters as stand there for the types of fields. Closing once more
changes nothing, if no type of a field stands for a field. -/
theorem closeFiles_closes (files : List SourceFile) :
    (∀ files', List.Forall₂ SourceFile.Closed files files' ↔ files' = (closeFiles files).1) ∧
    (closeFiles files).2.resolved + (closeFiles files).2.unresolved =
      (files.map fun f => lookupsIn none f.symbols).sum ∧
    ((∀ f ∈ files, ∀ s ∈ f.preorder, s.kind.isFieldLike = true →
        ∀ type, s.resolvedType = some type → ∀ field, type ≠ selfFieldMark ++ field) →
      (closeFiles (closeFiles files).1).1 = (closeFiles files).1) := by
  have unique : Relator.RightUnique SourceFile.Closed := fun _ _ _ => closed_unique
  obtain ⟨closed, counted⟩ := closeFiles_looksUp files
  refine ⟨fun files' => ⟨fun h => ?_, fun same => same ▸ closed⟩, counted, fun plainly => ?_⟩
  · exact List.right_unique_forall₂' unique h closed
  · have again := (closeFiles_looksUp (closeFiles files).1).1
    exact List.right_unique_forall₂' unique again (closed_self plainly closed)

/-- A class with two fields, the type of the first of which stands for the second, and a constructor
that sets the first. -/
def chainedFile : SourceFile where
  fileId := "toy.dart"
  symbols :=
    let named name kind := Symbol.ofName name kind "toy.dart"
    [⟨named "Toy" .classDecl, [
      ⟨{ named "turns" .field with resolvedType := some "self_field:left" }, []⟩,
      ⟨{ named "left" .property with resolvedType := some "int" }, []⟩,
      ⟨{ named "Toy" .constructor with parameters := some [{ type := "self_field:turns" }] }, []⟩]⟩]

/-- Closing once more goes further there. -/
example :
    let types (files : List SourceFile) := (files.flatMap SourceFile.preorder).flatMap fun s =>
      (s.parameters.getD []).map Parameter.type
    let once := (closeFiles [chainedFile]).1
    types once = ["self_field:left"] ∧ types (closeFiles once).1 = ["int"] := by
  decide +kernel

end CodeAtlas.Enrichment
