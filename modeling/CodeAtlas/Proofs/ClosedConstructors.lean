import CodeAtlas.Proofs.Cutting
import CodeAtlas.Proofs.Preservation
import Mathlib.Algebra.Order.Ring.Nat

/-!
What closing does to symbols. A symbol is judged in its place, with the tree directly around it:
only a constructor with parameters in a class is changed, and of its parameters only those that
stand for the type of a field, which are looked up among the members of the class as they were
(`Symbol.ClosedIn`, `Parameter.ClosedBy`). Closing does this to each symbol of a file, at any depth,
and counts the parameters that are looked up (`closeFiles_looksUp`).
-/
namespace CodeAtlas

/-! ## The exact effect -/

/-- The first of the members of a class that is a field or property with a name. -/
def FirstField (members : List Symbol) (name : String) (f : Symbol) : Prop :=
  ∃ before after, members = before ++ f :: after ∧ f.kind.isFieldLike = true ∧ f.name = name ∧
    ∀ s ∈ before, s.kind.isFieldLike = true → s.name ≠ name

/-- A parameter, before and after it is looked up among the members of a class. One that stands for
the type of a field takes that type and its reference if they are known, and else its own type stays
and becomes its reference. -/
inductive Parameter.ClosedBy (members : List Symbol) (p : Parameter) : Parameter → Prop where
  | plain (no_field : ∀ field, p.type ≠ selfFieldMark ++ field) : p.ClosedBy members p
  | typed {field type : String} {f : Symbol} (stands : p.type = selfFieldMark ++ field)
      (first : FirstField members field f) (known : f.resolvedType = some type) :
      p.ClosedBy members
        { p with type, typeRef := some (f.resolvedTypeRef.getD (.unresolved type)) }
  | untyped {field : String} (stands : p.type = selfFieldMark ++ field)
      (unknown : ∀ f, FirstField members field f → f.resolvedType = none) :
      p.ClosedBy members { p with typeRef := some (.unresolved p.type) }

/-- The symbols directly in a tree. -/
def SymbolTree.members (t : SymbolTree) : List Symbol := t.children.map SymbolTree.symbol

/-- A constructor with parameters, directly in a class. -/
def Symbol.Closable (around : Option SymbolTree) (s : Symbol) : Prop :=
  (∃ c ∈ around, c.symbol.kind = .classDecl) ∧ s.kind = .constructor ∧ s.lacksParameters = false

instance (around : Option SymbolTree) : DecidablePred (Symbol.Closable around) := fun _ =>
  inferInstanceAs (Decidable (_ ∧ _))

/-- A symbol, before and after closing, with the tree around it as it was before. -/
inductive Symbol.ClosedIn (around : Option SymbolTree) (s : Symbol) : Symbol → Prop where
  | constructor {c : SymbolTree} {ps ps' : List Parameter} (inside : around = some c)
      (in_class : c.symbol.kind = .classDecl) (kind : s.kind = .constructor)
      (listed : s.parameters = some ps) (nonempty : ps ≠ [])
      (closed : List.Forall₂ (Parameter.ClosedBy c.members) ps ps') :
      s.ClosedIn around
        { s with parentId := some (s.parentId.getD c.symbol.uniqueId), parameters := some ps' }
  | other (unclosable : ¬ s.Closable around) : s.ClosedIn around s

mutual

/-- A tree, before and after closing: each symbol is closed in its place. -/
inductive SymbolTree.ClosedIn : Option SymbolTree → SymbolTree → SymbolTree → Prop where
  | node {around : Option SymbolTree} {s s' : Symbol} {children children' : List SymbolTree}
      (own : s.ClosedIn around s')
      (members : TreesClosedIn (some ⟨s, children⟩) children children') :
      SymbolTree.ClosedIn around ⟨s, children⟩ ⟨s', children'⟩

/-- Trees, before and after closing. -/
inductive TreesClosedIn : Option SymbolTree → List SymbolTree → List SymbolTree → Prop where
  | nil {around : Option SymbolTree} : TreesClosedIn around [] []
  | cons {around : Option SymbolTree} {t t' : SymbolTree} {rest rest' : List SymbolTree}
      (first : SymbolTree.ClosedIn around t t') (others : TreesClosedIn around rest rest') :
      TreesClosedIn around (t :: rest) (t' :: rest')

end

/-- A file, before and after closing. -/
structure SourceFile.Closed (f f' : SourceFile) : Prop where
  fileId : f'.fileId = f.fileId
  text : f'.text = f.text
  symbols : TreesClosedIn none f.symbols f'.symbols

/-! Parameters that stand for the types of fields, where they are closed. -/

/-- The number of parameters that are looked up when a symbol is closed. -/
def Symbol.lookups (around : Option SymbolTree) (s : Symbol) : Nat :=
  if s.Closable around then
    (s.parameters.getD []).countP fun p => (Enrichment.selfFieldOf? p).isSome
  else 0

mutual

/-- The number of parameters that are looked up when a tree is closed. -/
def SymbolTree.lookups (around : Option SymbolTree) : SymbolTree → Nat
  | ⟨s, children⟩ => s.lookups around + lookupsIn (some ⟨s, children⟩) children

/-- The number of parameters that are looked up when trees are closed. -/
def lookupsIn (around : Option SymbolTree) : List SymbolTree → Nat
  | [] => 0
  | t :: rest => t.lookups around + lookupsIn around rest

end

/-! ## Fields -/

section Fields

variable {members : List Symbol} {name : String} {f : Symbol}

theorem firstField_iff : FirstField members name f ↔
    members.find? (fun s => s.kind.isFieldLike && s.name == name) = some f := by
  rw [List.find?_eq_some_iff_append]
  constructor
  · rintro ⟨before, after, whole, field, named, others⟩
    refine ⟨by simp [field, named], before, after, whole, fun s hs => ?_⟩
    simpa [or_iff_not_imp_left] using others s hs
  · rintro ⟨holds, before, after, whole, others⟩
    simp only [Bool.and_eq_true, beq_iff_eq] at holds
    refine ⟨before, after, whole, holds.1, holds.2, fun s hs => ?_⟩
    simpa [or_iff_not_imp_left] using others s hs

theorem FirstField.mem (h : FirstField members name f) : f ∈ members := by
  obtain ⟨before, after, rfl, -⟩ := h
  exact List.mem_append_right before List.mem_cons_self

theorem FirstField.isFieldLike (h : FirstField members name f) : f.kind.isFieldLike = true := by
  obtain ⟨before, after, -, field, -⟩ := h
  exact field

theorem FirstField.unique {f' : Symbol} (h : FirstField members name f)
    (h' : FirstField members name f') : f = f' :=
  Option.some.inj ((firstField_iff.mp h).symm.trans (firstField_iff.mp h'))

/-- The text of a parameter's type says which field it stands for. -/
theorem Enrichment.selfFieldOf?_eq_some_iff {p : Parameter} {field : String} :
    Enrichment.selfFieldOf? p = some field ↔ p.type = selfFieldMark ++ field := by
  rw [Enrichment.selfFieldOf?, Option.map_eq_some_iff]
  constructor
  · rintro ⟨rest, found, rfl⟩
    apply String.toList_inj.mp
    rw [String.toList_append, String.toList_ofList]
    exact Text.eq_append_of_dropStart? found
  · intro stands
    refine ⟨field.toList, ?_, String.ofList_toList⟩
    rw [stands, String.toList_append, Text.dropStart?_append]

end Fields

namespace Enrichment

/-! ## Counting -/

/-- Whatever has been counted before, the computation ends in a result with the property, and so
many parameters more have been looked up. -/
def LooksUp {α : Type} (P : α → Prop) (k : Nat) (x : StateM FieldTypeCounts α) : Prop :=
  ∀ n, P (x n).1 ∧ (x n).2.resolved + (x n).2.unresolved = n.resolved + n.unresolved + k

namespace LooksUp

variable {α β : Type} {P : α → Prop} {Q : β → Prop} {k l : Nat}

theorem pure' {a : α} (h : P a) : LooksUp P 0 (pure a : StateM FieldTypeCounts α) :=
  fun _ => ⟨h, rfl⟩

theorem bind' {x : StateM FieldTypeCounts α} {f : α → StateM FieldTypeCounts β}
    (hx : LooksUp P k x) (hf : ∀ a, P a → LooksUp Q l (f a)) : LooksUp Q (k + l) (x >>= f) := by
  intro n
  obtain ⟨ha, first⟩ := hx n
  obtain ⟨hb, second⟩ := hf _ ha (x n).2
  refine ⟨hb, ?_⟩
  show (f (x n).1 (x n).2).2.resolved + (f (x n).1 (x n).2).2.unresolved = _
  omega

theorem congr {P' : α → Prop} {x : StateM FieldTypeCounts α} (hx : LooksUp P k x)
    (weaker : ∀ a, P a → P' a) (same : k = l) : LooksUp P' l x := by
  subst same
  exact fun n => ⟨weaker _ (hx n).1, (hx n).2⟩

theorem mapM' {R : α → β → Prop} {count : α → Nat} {f : α → StateM FieldTypeCounts β}
    {as : List α} (hf : ∀ a ∈ as, LooksUp (R a) (count a) (f a)) :
    LooksUp (List.Forall₂ R as) (as.map count).sum (as.mapM f) := by
  induction as with
  | nil => exact pure' .nil
  | cons a rest ih =>
    rw [List.mapM_cons, List.map_cons, List.sum_cons]
    obtain ⟨first, others⟩ := List.forall_mem_cons.mp hf
    exact bind' first fun b hb => bind' (ih others) fun bs hbs => pure' (.cons hb hbs)

end LooksUp

theorem sum_indicators {α : Type} (p : α → Bool) (as : List α) :
    (as.map fun a => if p a then 1 else 0).sum = as.countP p := by
  induction as with
  | nil => rfl
  | cons a rest ih => rw [List.map_cons, List.sum_cons, ih, List.countP_cons, Nat.add_comm]

/-! ## Closing a class -/

theorem closeParameter_looksUp (members : List SymbolTree) (p : Parameter) :
    LooksUp (p.ClosedBy (members.map SymbolTree.symbol)) (if (selfFieldOf? p).isSome then 1 else 0)
      (closeParameter members p) := by
  unfold closeParameter
  cases stands : selfFieldOf? p with
  | none =>
    refine .pure' (.plain fun field same => ?_)
    rw [selfFieldOf?_eq_some_iff.mpr same] at stands
    cases stands
  | some field =>
    have stands := selfFieldOf?_eq_some_iff.mp stands
    have first : ∀ f, FirstField (members.map SymbolTree.symbol) field f ↔
        fieldNamed? members field = some f := fun f => firstField_iff
    rw [Option.isSome_some, if_pos rfl]
    simp only [closeField]
    split
    · rename_i type reference found
      obtain ⟨f, named, found⟩ := Option.bind_eq_some_iff.mp found
      obtain ⟨type', known, same⟩ := Option.map_eq_some_iff.mp found
      cases same
      intro n
      refine ⟨.typed stands ((first f).mpr named) known, ?_⟩
      show n.resolved + 1 + n.unresolved = n.resolved + n.unresolved + 1
      omega
    · rename_i nothing
      intro n
      refine ⟨.untyped stands fun f hf => ?_, rfl⟩
      rw [(first f).mp hf, Option.bind_some, Option.map_eq_none_iff] at nothing
      exact nothing

/-- Closing a member of a class, where the other members are at hand as they were. -/
theorem closeMember_looksUp {c : SymbolTree} {members : List SymbolTree}
    (in_class : c.symbol.kind = .classDecl) (same : members.map SymbolTree.symbol = c.members)
    (m : SymbolTree) :
    LooksUp (fun m' => m.symbol.ClosedIn (some c) m'.symbol ∧ m'.children = m.children)
      (m.symbol.lookups (some c)) (closeMember c.symbol.uniqueId members m) := by
  have inside : ∃ c' ∈ some c, c'.symbol.kind = .classDecl := ⟨c, rfl, in_class⟩
  unfold closeMember
  split
  · rename_i unlisted
    have other : ¬ m.symbol.Closable (some c) := by
      rintro ⟨-, -, nonempty⟩
      simp [Symbol.lacksParameters, unlisted] at nonempty
    rw [Symbol.lookups, if_neg other]
    exact .pure' ⟨.other other, rfl⟩
  · rename_i ps listed
    have empty : m.symbol.lacksParameters = ps.isEmpty := by
      rw [Symbol.lacksParameters, listed, Option.getD_some]
    split
    · rename_i skipped
      have other : ¬ m.symbol.Closable (some c) := by
        rintro ⟨-, kind, nonempty⟩
        rw [empty] at nonempty
        simp [kind, nonempty] at skipped
      rw [Symbol.lookups, if_neg other]
      exact .pure' ⟨.other other, rfl⟩
    · rename_i closable
      obtain ⟨kind, nonempty⟩ := not_or.mp closable
      have kind := not_not.mp kind
      have closable : m.symbol.Closable (some c) := ⟨inside, kind, by simpa [empty] using nonempty⟩
      have nonempty : ps ≠ [] := by simpa using nonempty
      have each := LooksUp.mapM' fun p (_ : p ∈ ps) => closeParameter_looksUp members p
      rw [same, sum_indicators] at each
      rw [Symbol.lookups, if_pos closable, listed, Option.getD_some]
      refine .bind' (l := 0) each fun ps' closed => .pure' ⟨?_, rfl⟩
      have own : m.symbol.ClosedIn (some c) _ :=
        .constructor rfl in_class kind listed nonempty closed
      -- a link that is there comes first
      cases link : m.symbol.parentId with
      | none =>
        rw [link] at own
        exact own
      | some parent =>
        rw [link] at own
        exact own

/-! ## Closing trees -/

/-- A tree in which everything is closed but the symbol of the tree itself. Closing goes from the
inside out: when the members of a class are closed, everything below them has been closed, but they
are as they were, and so are the fields that are looked up among them. -/
def ClosedBelow (t t' : SymbolTree) : Prop :=
  t'.symbol = t.symbol ∧ TreesClosedIn (some t) t.children t'.children

section Trees

variable {around : Option SymbolTree} {trees trees' : List SymbolTree}

theorem treesClosedIn_iff : TreesClosedIn around trees trees' ↔
    List.Forall₂ (SymbolTree.ClosedIn around) trees trees' := by
  constructor
  · intro h
    induction trees generalizing trees' with
    | nil => cases h; exact .nil
    | cons t rest ih => cases h with | cons first others => exact .cons first (ih others)
  · intro h
    induction h with
    | nil => exact .nil
    | cons first _ ih => exact .cons first ih

theorem ClosedBelow.closedIn {t t₁ t' : SymbolTree} (below : ClosedBelow t t₁)
    (own : t.symbol.ClosedIn around t'.symbol) (kept : t'.children = t₁.children) :
    t.ClosedIn around t' := by
  obtain ⟨s, children⟩ := t
  obtain ⟨s', children'⟩ := t'
  subst kept
  exact .node own below.2

theorem map_symbol_of_closedBelow (h : List.Forall₂ ClosedBelow trees trees') :
    trees'.map SymbolTree.symbol = trees.map SymbolTree.symbol := by
  induction h with
  | nil => rfl
  | cons first _ ih => rw [List.map_cons, List.map_cons, first.1, ih]

/-- Where no symbol is closable, closing below is all there is to do. -/
theorem treesClosedIn_of_below (unclosable : ∀ s : Symbol, ¬ s.Closable around)
    (h : List.Forall₂ ClosedBelow trees trees') : TreesClosedIn around trees trees' := by
  rw [treesClosedIn_iff]
  refine h.imp fun t t' below => below.closedIn ?_ rfl
  rw [below.1]
  exact .other (unclosable _)

theorem sum_lookups_eq_zero (unclosable : ∀ s : Symbol, ¬ s.Closable around) :
    (trees.map fun t => t.symbol.lookups around).sum = 0 := by
  rw [List.sum_eq_zero_iff_forall_eq_nat]
  intro n hn
  obtain ⟨t, -, rfl⟩ := List.mem_map.mp hn
  exact if_neg (unclosable t.symbol)

/-- Parameters are looked up for the trees themselves, or below them. -/
theorem lookupsIn_eq (around : Option SymbolTree) (trees : List SymbolTree) :
    lookupsIn around trees = (trees.map fun t => lookupsIn (some t) t.children).sum +
      (trees.map fun t => t.symbol.lookups around).sum := by
  induction trees with
  | nil => rfl
  | cons t rest ih =>
    obtain ⟨s, children⟩ := t
    rw [lookupsIn, SymbolTree.lookups, ih]
    simp only [List.map_cons, List.sum_cons]
    omega

/-- Closing the members of a symbol, when everything below them is closed. -/
theorem closeMembers_looksUp {s : Symbol} {children closed : List SymbolTree}
    (below : List.Forall₂ ClosedBelow children closed) :
    LooksUp (TreesClosedIn (some ⟨s, children⟩) children)
      (children.map fun t => t.symbol.lookups (some ⟨s, children⟩)).sum
      (closeMembers s closed) := by
  have symbols := map_symbol_of_closedBelow below
  unfold closeMembers
  split
  · rename_i in_class
    have each := LooksUp.mapM' fun m (_ : m ∈ closed) =>
      closeMember_looksUp (c := ⟨s, children⟩) in_class symbols m
    refine each.congr (fun closed' own => ?_) ?_
    · rw [treesClosedIn_iff]
      refine forall₂_comp (fun t t₁ t' below own => ?_) below own
      rw [below.1] at own
      exact below.closedIn own.1 own.2
    · have counted := congrArg (fun l : List Symbol =>
        (l.map (Symbol.lookups (some ⟨s, children⟩))).sum) symbols
      rw [List.map_map, List.map_map] at counted
      exact counted
  · rename_i no_class
    have unclosable : ∀ m : Symbol, ¬ m.Closable (some ⟨s, children⟩) := by
      rintro m ⟨⟨c, inside, in_class⟩, -⟩
      cases inside
      exact no_class in_class
    rw [sum_lookups_eq_zero unclosable]
    exact .pure' (treesClosedIn_of_below unclosable below)

mutual

theorem closeTree_looksUp : ∀ t : SymbolTree,
    LooksUp (ClosedBelow t) (lookupsIn (some t) t.children) (closeTree t)
  | ⟨s, children⟩ => by
    rw [closeTree, lookupsIn_eq]
    refine .bind' (closeTrees_looksUp children) fun closed below => ?_
    refine (LooksUp.bind' (closeMembers_looksUp below) fun members h => .pure' ?_).congr
      (fun _ h => h) (Nat.add_zero _)
    exact ⟨rfl, h⟩

theorem closeTrees_looksUp : ∀ trees : List SymbolTree,
    LooksUp (List.Forall₂ ClosedBelow trees)
      (trees.map fun t => lookupsIn (some t) t.children).sum (closeTrees trees)
  | [] => by
    rw [closeTrees]
    exact .pure' .nil
  | t :: rest => by
    rw [closeTrees, List.map_cons, List.sum_cons]
    refine .bind' (closeTree_looksUp t) fun t' ht => ?_
    exact .bind' (closeTrees_looksUp rest) fun rest' hr => .pure' (.cons ht hr)

end

theorem closeFile_looksUp (f : SourceFile) :
    LooksUp f.Closed (lookupsIn none f.symbols) (closeFile f) := by
  have top : ∀ s : Symbol, ¬ s.Closable none := by
    rintro s ⟨⟨c, inside, -⟩, -⟩
    cases inside
  rw [lookupsIn_eq, sum_lookups_eq_zero top]
  refine .bind' (closeTrees_looksUp f.symbols) fun symbols below => ?_
  exact fun n => ⟨⟨rfl, rfl, treesClosedIn_of_below top below⟩, rfl⟩

theorem closeFiles_looksUp (files : List SourceFile) :
    List.Forall₂ SourceFile.Closed files (closeFiles files).1 ∧
      (closeFiles files).2.resolved + (closeFiles files).2.unresolved =
        (files.map fun f => lookupsIn none f.symbols).sum := by
  obtain ⟨closed, counted⟩ := LooksUp.mapM' (fun f (_ : f ∈ files) => closeFile_looksUp f) {}
  refine ⟨closed, counted.trans ?_⟩
  show 0 + 0 + _ = _
  omega

end Trees

end Enrichment

end CodeAtlas
