import CodeAtlas.Graph.Layer
import Mathlib.Data.List.Perm.Basic

/-!
The order of layers. The rules stand in tiers, so the first one that holds gives the lowest layer of
all that hold (`layer_le_of_holds`). No rule asks for a type that a class is not related to, nor for
the order of anything, so a rule that holds goes on holding when more types are related
(`holds_of_within`). Hence further relations never take a class up to a later tier, what stands in
another order is in the same layer, and an enum, for which a rule of models always holds, is no
utility (`layers_ordered`).
-/
namespace CodeAtlas

/-! ## Tiers -/

namespace Layer

/-- The place of a layer among the tiers. What is no class stands behind them. -/
def tier : Layer → Nat
  | view => 0
  | state => 1
  | service => 2
  | model => 3
  | utility => 4
  | member => 5

instance : LE Layer := ⟨fun a b => a.tier ≤ b.tier⟩

instance (a b : Layer) : Decidable (a ≤ b) := inferInstanceAs (Decidable (a.tier ≤ b.tier))

theorem le_antisymm {a b : Layer} (h : a ≤ b) (h' : b ≤ a) : a = b := by
  have tiers : a.tier = b.tier := Nat.le_antisymm h h'
  cases a <;> cases b <;> first | rfl | exact absurd tiers (by decide)

end Layer

/-! ## Shapes -/

namespace ClassShape

/-- A class of the same name and with the same members in any order, which is related to all types
that the first one is related to. -/
structure Within (c c' : ClassShape) : Prop where
  kind : c'.kind = c.kind
  name : c'.name = c.name
  members : c.members.Perm c'.members
  related : ∀ r ∈ c.related, r ∈ c'.related

variable {c c' : ClassShape}

theorem Within.methods (h : c.Within c') : c.methods.Perm c'.methods := h.members.filter _

theorem Within.fields (h : c.Within c') : c.fields.Perm c'.fields := h.members.filter _

theorem Within.endsWith (h : c.Within c') (words : List String) :
    c'.endsWith words = c.endsWith words := by
  rw [ClassShape.endsWith, ClassShape.endsWith, h.name]

theorem Within.contains (h : c.Within c') (words : List String) :
    c'.contains words = c.contains words := by
  rw [ClassShape.contains, ClassShape.contains, h.name]

theorem Within.isRelated (h : c.Within c') {words : List String}
    (holds : c.isRelated words = true) : c'.isRelated words = true := by
  obtain ⟨r, hr, is⟩ := List.any_eq_true.mp holds
  exact List.any_eq_true.mpr ⟨r, h.related r hr, is⟩

theorem Within.relatedContains (h : c.Within c') {words : List String}
    (holds : c.relatedContains words = true) : c'.relatedContains words = true := by
  obtain ⟨r, hr, has⟩ := List.any_eq_true.mp holds
  exact List.any_eq_true.mpr ⟨r, h.related r hr, has⟩

theorem Within.mostMethods (h : c.Within c') (num den : Nat) (test : Symbol → Bool) :
    c'.mostMethods num den test = c.mostMethods num den test := by
  have none : c'.methods.isEmpty = c.methods.isEmpty := by
    rw [Bool.eq_iff_iff, List.isEmpty_iff_length_eq_zero, List.isEmpty_iff_length_eq_zero,
      h.methods.length_eq]
  rw [ClassShape.mostMethods, ClassShape.mostMethods, none, h.methods.length_eq,
    h.methods.countP_eq]

theorem Within.isDataShape (h : c.Within c') :
    LayerRule.isDataShape c' = LayerRule.isDataShape c := by
  have none : c'.fields.isEmpty = c.fields.isEmpty := by
    rw [Bool.eq_iff_iff, List.isEmpty_iff_length_eq_zero, List.isEmpty_iff_length_eq_zero,
      h.fields.length_eq]
  rw [LayerRule.isDataShape, LayerRule.isDataShape, h.kind, none, h.methods.countP_eq]

end ClassShape

/-! ## Rules -/

namespace LayerRule

variable {c c' : ClassShape}

/-- The rules stand in the order of their layers. -/
theorem all_ordered : all.Pairwise fun r r' => r.layer ≤ r'.layer := by
  have layers : (all.map layer).Pairwise (· ≤ ·) := by decide
  exact List.pairwise_map.mp layers

theorem layer_le_utility : ∀ rule ∈ all, rule.layer ≤ .utility := by
  have layers : ∀ l ∈ all.map layer, l ≤ .utility := by decide
  exact List.forall_mem_map.mp layers

/-- A rule that holds of a class goes on holding when more types are related. -/
theorem holds_of_within (h : c.Within c') :
    ∀ rule ∈ all, rule.holds c = true → rule.holds c' = true := by
  have parts : c.relatedContains modelParts = true → c'.relatedContains modelParts = true :=
    h.relatedContains
  unfold all
  simp only [List.forall_mem_cons, h.endsWith, h.contains, h.methods.any_eq, h.fields.any_eq,
    h.mostMethods, h.isDataShape, h.kind, Bool.or_eq_true]
  -- the rules that look at related types in turn, and those that do not
  refine ⟨h.isRelated, id, h.relatedContains, id, h.isRelated, id, id, id, h.relatedContains, id, id,
    Or.imp_right parts, id, id, id, ?_⟩
  intro rule none
  exact absurd none List.not_mem_nil

/-- In an ordered list, the first rule that holds has the lowest layer of those that hold. -/
theorem find?_le {rules : List LayerRule} (ordered : rules.Pairwise fun r r' => r.layer ≤ r'.layer)
    {rule : LayerRule} (among : rule ∈ rules) (holds : rule.holds c = true) :
    ∃ r, rules.find? (·.holds c) = some r ∧ r.layer ≤ rule.layer := by
  induction rules with
  | nil => exact absurd among List.not_mem_nil
  | cons first rest ih =>
    obtain ⟨before, ordered⟩ := List.pairwise_cons.mp ordered
    by_cases here : first.holds c = true
    · refine ⟨first, List.find?_cons_of_pos here, ?_⟩
      rcases List.mem_cons.mp among with rfl | behind
      · exact Nat.le_refl _
      · exact before rule behind
    · rw [List.find?_cons_of_neg (p := fun r : LayerRule => r.holds c) here]
      rcases List.mem_cons.mp among with rfl | behind
      · exact absurd holds here
      · exact ih ordered behind

end LayerRule

/-! ## Layers -/

namespace ClassShape

variable {c c' : ClassShape}

/-- The layer of a class with a given shape. -/
def layer (c : ClassShape) : Layer :=
  ((LayerRule.all.find? fun rule => rule.holds c).map LayerRule.layer).getD .utility

theorem layer_le_of_holds {rule : LayerRule} (among : rule ∈ LayerRule.all)
    (holds : rule.holds c = true) : c.layer ≤ rule.layer := by
  obtain ⟨first, found, le⟩ := LayerRule.find?_le LayerRule.all_ordered among holds
  rw [layer, found]
  exact le

theorem layer_cases (c : ClassShape) :
    c.layer = .utility ∨ ∃ rule ∈ LayerRule.all, rule.holds c = true ∧ c.layer = rule.layer := by
  cases found : LayerRule.all.find? fun rule => rule.holds c with
  | none =>
    left
    rw [layer, found]
    rfl
  | some rule =>
    right
    have holds := List.find?_some (p := fun rule : LayerRule => rule.holds c) found
    refine ⟨rule, List.mem_of_find?_eq_some found, holds, ?_⟩
    rw [layer, found]
    rfl

theorem layer_le_utility (c : ClassShape) : c.layer ≤ .utility := by
  rcases c.layer_cases with last | ⟨rule, among, -, is⟩
  · rw [last]
    exact Nat.le_refl _
  · rw [is]
    exact LayerRule.layer_le_utility rule among

/-- More related types never take a class to a later tier. -/
theorem Within.layer_le (h : c.Within c') : c'.layer ≤ c.layer := by
  rcases c.layer_cases with last | ⟨rule, among, holds, is⟩
  · rw [last]
    exact c'.layer_le_utility
  · rw [is]
    exact layer_le_of_holds among (LayerRule.holds_of_within h rule among holds)

/-- There is a rule for enums among those of models. -/
theorem layer_le_model (h : c.kind = .enumDecl) : c.layer ≤ .model := by
  have among : ⟨"enum", .model, (·.kind == .enumDecl)⟩ ∈ LayerRule.all := by
    simp [LayerRule.all]
  exact layer_le_of_holds among (beq_iff_eq.mpr h)

end ClassShape

theorem layerOf_eq {t : SymbolTree} (h : t.symbol.kind = .classDecl ∨ t.symbol.kind = .enumDecl)
    (relations : Option Relations) : layerOf t relations = (ClassShape.of t relations).layer := by
  rw [layerOf, if_pos h, layerRule?, if_pos h]
  rfl

/-- The names of all types in relations, if there are any. -/
def relatedNames (relations : Option Relations) : List String :=
  (relations.map Relations.labels).getD []

section Reordered

variable {t t' : SymbolTree} {r r' : Option Relations}

theorem within_of_related (same : t'.symbol = t.symbol) (members : t.children.Perm t'.children)
    (related : ∀ name ∈ relatedNames r, name ∈ relatedNames r') :
    (ClassShape.of t r).Within (.of t' r') where
  kind := congrArg Symbol.kind same
  name := congrArg (fun s : Symbol => Text.lowerWords s.name.toList) same
  members := members.map _
  related := by
    intro name among
    obtain ⟨label, hl, rfl⟩ := List.mem_map.mp among
    exact List.mem_map.mpr ⟨label, related label hl, rfl⟩

theorem layerOf_le (h : t.symbol.kind = .classDecl ∨ t.symbol.kind = .enumDecl)
    (same : t'.symbol = t.symbol) (members : t.children.Perm t'.children)
    (related : ∀ name ∈ relatedNames r, name ∈ relatedNames r') : layerOf t' r' ≤ layerOf t r := by
  have h' : t'.symbol.kind = .classDecl ∨ t'.symbol.kind = .enumDecl := same ▸ h
  rw [layerOf_eq h, layerOf_eq h']
  exact (within_of_related same members related).layer_le

theorem layerOf_congr (h : t.symbol.kind = .classDecl ∨ t.symbol.kind = .enumDecl)
    (same : t'.symbol = t.symbol) (members : t.children.Perm t'.children)
    (related : ∀ name, name ∈ relatedNames r ↔ name ∈ relatedNames r') :
    layerOf t' r' = layerOf t r := by
  have h' : t'.symbol.kind = .classDecl ∨ t'.symbol.kind = .enumDecl := same ▸ h
  apply Layer.le_antisymm
  · exact layerOf_le h same members fun name => (related name).mp
  · exact layerOf_le h' same.symm members.symm fun name => (related name).mpr

end Reordered

/-- More related types never take a class or enum to a later tier. Its layer does not depend on the
order of its members, nor on the order of the related types or on what relates it to them. An enum is
never a utility. -/
theorem layers_ordered (t : SymbolTree)
    (h : t.symbol.kind = .classDecl ∨ t.symbol.kind = .enumDecl) :
    (∀ r r' : Option Relations, (∀ name ∈ relatedNames r, name ∈ relatedNames r') →
      layerOf t r' ≤ layerOf t r) ∧
    (∀ members r, t.children.Perm members → layerOf ⟨t.symbol, members⟩ r = layerOf t r) ∧
    (∀ r r' : Relations, r.targets.Perm r'.targets → layerOf t (some r') = layerOf t (some r)) ∧
    (t.symbol.kind = .enumDecl → ∀ r, layerOf t r ≠ .utility) ∧
    ∀ r, layerOf t r ≠ .member := by
  refine ⟨fun r r' => layerOf_le h rfl (.refl _), ?_, ?_, ?_, ?_⟩
  · intro members r perm
    exact layerOf_congr h rfl perm fun _ => Iff.rfl
  · intro r r' perm
    exact layerOf_congr h rfl (.refl _) fun _ => (perm.map RelationTarget.label).mem_iff
  · intro kind r utility
    have le : layerOf t r ≤ .model := by
      rw [layerOf_eq h]
      exact ClassShape.layer_le_model kind
    exact absurd (utility ▸ le) (by decide)
  · intro r member
    have le : layerOf t r ≤ .utility := by
      rw [layerOf_eq h]
      exact ClassShape.layer_le_utility _
    exact absurd (member ▸ le) (by decide)

/-- A class of data with a field and a method. -/
def userModel : SymbolTree :=
  ⟨Symbol.ofName "UserModel" .classDecl "a.dart",
    [⟨Symbol.ofName "name" .field "a.dart", []⟩, ⟨Symbol.ofName "save" .method "a.dart", []⟩]⟩

/-- An enum with the name of a utility. -/
def statusUtils : SymbolTree := ⟨Symbol.ofName "StatusUtils" .enumDecl "a.dart", []⟩

/-- Types that a class extends and implements. -/
def widgetAndBase : Relations :=
  { superclass := some (.named "StatelessWidget"), implements := [.named "Base"] }

/-- The same types, mixed in. -/
def mixedWidget : Relations := { mixins := [.named "Base", .named "StatelessWidget"] }

theorem layers_ordered_userModel :
    layerOf userModel (some widgetAndBase) ≤ layerOf userModel none ∧
    layerOf ⟨userModel.symbol, userModel.children.reverse⟩ none = layerOf userModel none ∧
    layerOf userModel (some mixedWidget) = layerOf userModel (some widgetAndBase) ∧
    layerOf statusUtils none ≠ .utility := by
  obtain ⟨antitone, members, targets, -, -⟩ := layers_ordered userModel (.inl rfl)
  obtain ⟨-, -, -, enum, -⟩ := layers_ordered statusUtils (.inr rfl)
  refine ⟨antitone none (some widgetAndBase) ?_, members _ none ?_, targets _ _ ?_, enum rfl none⟩
  · intro name related
    exact absurd related List.not_mem_nil
  · exact (List.reverse_perm _).symm
  · exact .swap _ _ []

example : layerOf userModel none = .model ∧ layerOf userModel (some widgetAndBase) = .view := by
  decide

end CodeAtlas
