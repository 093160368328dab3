import CodeAtlas.Proofs.SymbolInvariants
import Mathlib.Data.List.Forall2

/-!
What filling in leaves alone. A step takes nothing away: what is known of a symbol's types,
parameters and relations stays as it is, and what describes the symbol is not touched at all
(`Symbol.FilledTo`). So the files that come out have the trees that went in, symbol for symbol, and
a symbol without a place for its name is left with everything nested in it
(`enrichFiles_only_fills_gaps`).
-/
namespace CodeAtlas

/-! ## One result for each -/

theorem forall₂_comp {α β γ : Type} {R : α → β → Prop} {S : β → γ → Prop} {T : α → γ → Prop}
    (comp : ∀ a b c, R a b → S b c → T a c) {l₁ : List α} {l₂ : List β} {l₃ : List γ}
    (h : List.Forall₂ R l₁ l₂) (h' : List.Forall₂ S l₂ l₃) : List.Forall₂ T l₁ l₃ := by
  induction h generalizing l₃ with
  | nil =>
    obtain rfl := List.forall₂_nil_left_iff.mp h'
    exact .nil
  | cons first _ ih =>
    cases h' with
    | cons first' rest' => exact .cons (comp _ _ _ first first') (ih rest')

theorem Ends.mapM_forall₂ {σ α β : Type} {R : α → β → Prop} {f : α → StateM σ β} {l : List α}
    (hf : ∀ a ∈ l, Ends (R a) (f a)) : Ends (List.Forall₂ R l) (l.mapM f) := by
  induction l with
  | nil => exact pure' .nil
  | cons a rest ih =>
    rw [List.mapM_cons]
    obtain ⟨first, others⟩ := List.forall_mem_cons.mp hf
    exact bind' first fun b hb => bind' (ih others) fun bs hbs => pure' (.cons hb hbs)

theorem Leads.mapM_forall₂ {σ α β : Type} {I : σ → Prop} {R : α → β → Prop}
    {f : α → StateT σ Inquiry β} {l : List α} (hf : ∀ a ∈ l, Leads I (R a) (f a)) :
    Leads I (List.Forall₂ R l) (l.mapM f) := by
  induction l with
  | nil => exact pure' .nil
  | cons a rest ih =>
    rw [List.mapM_cons]
    obtain ⟨first, others⟩ := List.forall_mem_cons.mp hf
    exact bind' first fun b hb => bind' (ih others) fun bs hbs => pure' (.cons hb hbs)

/-! ## Symbols with gaps filled -/

/-- The same parameter, but that it may refer to its type where it did not. -/
structure Parameter.FilledTo (p p' : Parameter) : Prop where
  same : { p' with typeRef := p.typeRef } = p
  typeRef : p.typeRef.isSome → p'.typeRef = p.typeRef

theorem Parameter.FilledTo.refl (p : Parameter) : p.FilledTo p where
  same := rfl
  typeRef _ := rfl

theorem Parameter.FilledTo.trans {p q r : Parameter} (h : p.FilledTo q) (h' : q.FilledTo r) :
    p.FilledTo r where
  same := by
    rw [← h.same, ← h'.same]
  typeRef known := by
    have middle := h.typeRef known
    exact (h'.typeRef (middle ▸ known)).trans middle

/-- A symbol as it was described, before anything was filled in. -/
def Symbol.described (s : Symbol) : Symbol where
  name := s.name
  kind := s.kind
  detail := s.detail
  range := s.range
  selection := s.selection
  fileId := s.fileId
  uniqueId := s.uniqueId
  parentId := s.parentId

/-- The same symbol, but that gaps in it may be filled: nothing that is known is replaced. -/
structure Symbol.FilledTo (s s' : Symbol) : Prop where
  described : s'.described = s.described
  resolvedType : s.resolvedType.isSome →
    s'.resolvedType = s.resolvedType ∧ s'.resolvedTypeRef = s.resolvedTypeRef
  returnType : s.returnType.isSome →
    s'.returnType = s.returnType ∧ s'.returnTypeRef = s.returnTypeRef
  relations : s.relations.isSome → s'.relations = s.relations
  parameters : ∀ ps, s.parameters = some ps → ps ≠ [] →
    ∃ ps', s'.parameters = some ps' ∧ List.Forall₂ Parameter.FilledTo ps ps'
  hoverChecked : s.hoverChecked = true → s'.hoverChecked = true

namespace Symbol.FilledTo

variable {s s' s'' : Symbol}

theorem refl (s : Symbol) : s.FilledTo s where
  described := rfl
  resolvedType _ := ⟨rfl, rfl⟩
  returnType _ := ⟨rfl, rfl⟩
  relations _ := rfl
  parameters ps hps _ := ⟨ps, hps, List.forall₂_same.mpr fun p _ => .refl p⟩
  hoverChecked checked := checked

theorem trans (h : s.FilledTo s') (h' : s'.FilledTo s'') : s.FilledTo s'' where
  described := h'.described.trans h.described
  resolvedType known := by
    obtain ⟨type, reference⟩ := h.resolvedType known
    obtain ⟨type', reference'⟩ := h'.resolvedType (type ▸ known)
    exact ⟨type'.trans type, reference'.trans reference⟩
  returnType known := by
    obtain ⟨type, reference⟩ := h.returnType known
    obtain ⟨type', reference'⟩ := h'.returnType (type ▸ known)
    exact ⟨type'.trans type, reference'.trans reference⟩
  relations known := (h'.relations (h.relations known ▸ known)).trans (h.relations known)
  parameters ps hps some := by
    obtain ⟨ps', hps', filled⟩ := h.parameters ps hps some
    have some' : ps' ≠ [] := by
      rintro rfl
      exact some (List.forall₂_nil_right_iff.mp filled)
    obtain ⟨ps'', hps'', filled'⟩ := h'.parameters ps' hps' some'
    exact ⟨ps'', hps'', forall₂_comp (fun _ _ _ => .trans) filled filled'⟩
  hoverChecked checked := h'.hoverChecked (h.hoverChecked checked)

/-- Parameters may be listed where none are. -/
theorem of_lacksParameters (lacked : s.lacksParameters) (ps : List Parameter) :
    s.FilledTo { s with parameters := some ps } where
  described := rfl
  resolvedType _ := ⟨rfl, rfl⟩
  returnType _ := ⟨rfl, rfl⟩
  relations _ := rfl
  parameters listed hlisted some := by
    rw [lacksParameters, hlisted, Option.getD_some, List.isEmpty_iff] at lacked
    exact absurd lacked some
  hoverChecked checked := checked

end Symbol.FilledTo

namespace Enrichment

/-- To find something that is missing is to fill a gap. -/
theorem Finds.filledTo {s s' : Symbol} (h : Finds s s') : s.FilledTo s' := by
  cases h with
  | nothing => exact .refl s
  | type missing =>
    exact { Symbol.FilledTo.refl s with resolvedType := fun known => by simp [missing] at known }
  | returnType missing =>
    exact { Symbol.FilledTo.refl s with returnType := fun known => by simp [missing] at known }
  | parameters lacked => exact .of_lacksParameters lacked _

/-! ## Steps -/

theorem basic_fills (scope : Scope) (s : Symbol) : Ends s.FilledTo (basic scope s) := by
  have named : s.FilledTo { s with isSdk := isSdkFile s.fileId, access := some (.ofName s.name) } :=
    { Symbol.FilledTo.refl s with }
  unfold basic
  dsimp only
  split
  · exact .pure' named
  · rename_i gap
    obtain ⟨-, unrelated⟩ := not_or.mp gap
    split
    · exact .pure' named
    · exact fun _ => { named with relations := fun known => absurd known unrelated }

theorem resolveParameter_fills (p : Parameter) : Ends p.FilledTo (resolveParameter p) := by
  unfold resolveParameter
  split
  · exact .pure' (.refl p)
  · rename_i unknown
    have filled : ∀ reference, p.FilledTo { p with typeRef := some reference } := fun _ =>
      ⟨rfl, fun known => absurd known unknown⟩
    split
    · exact .pure' (filled _)
    · exact fun _ => filled _

theorem declaredType_fills (s : Symbol) : Ends s.FilledTo (declaredType s) := by
  unfold declaredType
  split
  · exact .pure' (.refl s)
  · rename_i missing
    split
    · exact .pure' (.refl s)
    · refine (setType_finds ?_ _).mono fun s' h => h.1.filledTo
      simpa using missing

theorem declaredReturnType_fills (s : Symbol) : Ends s.FilledTo (declaredReturnType s) := by
  unfold declaredReturnType
  split
  · exact .pure' (.refl s)
  · rename_i missing
    split
    · exact .pure' (.refl s)
    · refine (setReturnType_finds ?_ _).mono fun s' h => h.1.filledTo
      simpa using missing

theorem declaredParameters_fills (s : Symbol) : s.FilledTo (declaredParameters s) := by
  unfold declaredParameters
  split
  · rename_i lacked
    split
    · exact .refl s
    · exact .of_lacksParameters lacked _
  · exact .refl s

theorem bracedParameters_fills (s : Symbol) : s.FilledTo (bracedParameters s) := by
  unfold bracedParameters
  split
  · rename_i lacked
    split
    · exact .refl s
    · exact .refl s
    · exact .of_lacksParameters lacked _
  · exact .refl s

/-- Parameters that refer to their types stand where the parameters stood. -/
theorem resolveParameters_fills (s : Symbol) :
    Ends s.FilledTo ((s.parameters.getD []).mapM resolveParameter >>= fun ps =>
      pure { s with parameters := some ps }) := by
  refine .bind' (.mapM_forall₂ fun p _ => resolveParameter_fills p) fun ps hps => .pure' ?_
  refine { Symbol.FilledTo.refl s with parameters := fun listed hlisted _ => ⟨ps, rfl, ?_⟩ }
  rwa [hlisted, Option.getD_some] at hps

theorem declared_fills (s : Symbol) : Ends s.FilledTo (declared s) := by
  unfold declared
  split
  · exact declaredType_fills s
  · have listed := declaredParameters_fills s
    dsimp only
    generalize declaredParameters s = s₁ at listed
    refine Ends.ite_bind' (P := s.FilledTo) (.ite' (fun _ => ?_) fun _ => ?_) ?_
    · exact .pure' (listed.trans (bracedParameters_fills s₁))
    · exact (declaredReturnType_fills s₁).mono fun s₂ h => listed.trans h
    · exact fun s₂ h => (resolveParameters_fills s₂).mono fun s₃ h' => h.trans h'

theorem planHover_fills (config : Config) (s : Symbol) : s.FilledTo (planHover config s).2 := by
  rcases planHover_cases config s with idle | ⟨selection, -, -, planned⟩
  · rw [idle]
    exact .refl s
  · rw [planned]
    exact { Symbol.FilledTo.refl s with hoverChecked := fun _ => rfl }

theorem lead_fills (scope : Scope) (s : Symbol) :
    Ends (fun led => s.FilledTo led.2) (lead scope s) := by
  refine .ite_bind' (.ite' (fun _ => basic_fills scope s) fun _ => .pure' (.refl s)) ?_
  intro s₁ h₁
  refine .ite_bind' (.ite' (fun _ => declared_fills s₁) fun _ => .pure' (.refl s₁)) ?_
  intro s₂ h₂
  exact .pure' ((h₁.trans h₂).trans (planHover_fills scope.config s₂))

theorem finish_fills (scope : Scope) (contents : Option String) (s : Symbol) :
    Ends s.FilledTo (finish scope contents s) := by
  refine (finish_finds scope contents s).mono ?_
  rintro s' ⟨s₁, first, second⟩
  exact first.filledTo.trans second.filledTo

/-- Whatever is remembered and whatever the answer, to fill in a symbol is to fill gaps in it. -/
theorem enrichSymbol_fills (scope : Scope) (s : Symbol) :
    Leads (fun _ => True) s.FilledTo (enrichSymbol scope s) := by
  refine enrichSymbol_leads (fun r _ => ⟨lead_fills scope s r, trivial⟩) ?_
  exact fun contents s₁ r h₁ _ => ⟨h₁.trans (finish_fills scope contents s₁ r), trivial⟩

end Enrichment

/-! ## Trees and files -/

/-- The same tree, with each symbol that has a place for its name replaced by one that it is related
to. A symbol without such a place is left with everything nested in it. -/
inductive SymbolTree.Filled (R : Symbol → Symbol → Prop) : SymbolTree → SymbolTree → Prop where
  | untouched {s : Symbol} {children : List SymbolTree} (unplaced : s.selection = none) :
      Filled R ⟨s, children⟩ ⟨s, children⟩
  | filled {s s' : Symbol} {children children' : List SymbolTree} (placed : s.selection.isSome)
      (symbol : R s s') (members : List.Forall₂ (Filled R) children children') :
      Filled R ⟨s, children⟩ ⟨s', children'⟩

/-- The same file, with its trees filled in. -/
structure SourceFile.Filled (R : Symbol → Symbol → Prop) (f f' : SourceFile) : Prop where
  fileId : f'.fileId = f.fileId
  text : f'.text = f.text
  symbols : List.Forall₂ (SymbolTree.Filled R) f.symbols f'.symbols

namespace Enrichment

variable {R : Symbol → Symbol → Prop} {I : Resolver → Prop}

section Trees

variable {scope : Scope}

mutual

/-- What filling in does to one symbol it does to all that are reached. -/
theorem enrichTree_filled (fills : ∀ s, Leads I (R s) (enrichSymbol scope s)) :
    ∀ t, Leads I (SymbolTree.Filled R t) (enrichTree scope t)
  | ⟨s, children⟩ => by
    rw [enrichTree]
    split
    · rename_i unplaced
      exact .pure' (.untouched (Option.isNone_iff_eq_none.mp unplaced))
    · rename_i placed
      have placed : s.selection.isSome := by simpa [Option.isSome_iff_ne_none] using placed
      refine .bind' (fills s) fun s' hs => ?_
      exact .bind' (enrichTrees_filled fills children) fun children' hc =>
        .pure' (.filled placed hs hc)

theorem enrichTrees_filled (fills : ∀ s, Leads I (R s) (enrichSymbol scope s)) :
    ∀ trees, Leads I (List.Forall₂ (SymbolTree.Filled R) trees) (enrichTrees scope trees)
  | [] => by
    rw [enrichTrees]
    exact .pure' .nil
  | t :: rest => by
    rw [enrichTrees]
    refine .bind' (enrichTree_filled fills t) fun t' ht => ?_
    exact .bind' (enrichTrees_filled fills rest) fun rest' hr => .pure' (.cons ht hr)

end

end Trees

theorem enrichFiles_filled {c : Context}
    (fills : ∀ text s, Leads I (R s) (enrichSymbol ⟨c.config, c.relations, text⟩ s))
    (files : List SourceFile) :
    Leads I (List.Forall₂ (SourceFile.Filled R) files) (enrichFiles c files) := by
  refine .mapM_forall₂ fun f _ => .bind' (enrichTrees_filled (fills f.text) f.symbols) ?_
  exact fun symbols h => .pure' ⟨rfl, rfl, h⟩

/-- To fill in files is to fill gaps only, whatever the context and whatever the answers: each tree
keeps its shape, each symbol what describes it and what was known of it. -/
theorem enrichFiles_only_fills_gaps (c : Context) (files files' : List SourceFile) (r r' : Resolver)
    (gives : (enrichFiles c files r).Gives (files', r')) :
    List.Forall₂ (SourceFile.Filled Symbol.FilledTo) files files' :=
  (enrichFiles_filled (fun _ => enrichSymbol_fills _) files r files' r' trivial gives).1

/-- A file of which something is known already: the type of a field, and a parameter of a method but
not what it refers to. The last symbol has no place. -/
def halfKnownFile : SourceFile where
  fileId := "album.dart"
  symbols :=
    let place : Option Range := some ⟨⟨0, 0⟩, ⟨0, 5⟩⟩
    let named name kind := Symbol.ofName name kind "album.dart"
    [⟨{ named "Album" .classDecl with selection := place }, [
      ⟨{ named "cover" .field with
        selection := place, detail := "Photo cover", resolvedType := some "Image" }, []⟩,
      ⟨{ named "open" .method with
        selection := place, detail := "Album open(Code secret)"
        parameters := some [{ type := "Key" }] }, []⟩,
      ⟨{ named "size" .field with detail := "int size" }, []⟩]⟩]

/-- The field keeps its type and the parameter its own, which is referred to now; only the return
type is taken from a declaration. -/
theorem enrichFiles_only_fills_gaps_halfKnown :
    ∃ files' r', (enrichFiles {} [halfKnownFile] {}).Gives (files', r') ∧
      (files'.flatMap SourceFile.preorder).map (fun s =>
          (s.resolvedType, s.returnType, s.parameters)) =
        [(none, none, none), (some "Image", none, none),
          (none, some "Album", some [{ type := "Key", typeRef := some (.unresolved "Key") }]),
          (none, none, none)] ∧
      List.Forall₂ (SourceFile.Filled Symbol.FilledTo) [halfKnownFile] files' := by
  have gives := Inquiry.gives_answer (fun _ => none) (enrichFiles {} [halfKnownFile] {})
  have filled : ((((enrichFiles {} [halfKnownFile] {}).answer fun _ => none).1).flatMap
      SourceFile.preorder).map (fun s => (s.resolvedType, s.returnType, s.parameters)) =
        [(none, none, none), (some "Image", none, none),
          (none, some "Album", some [{ type := "Key", typeRef := some (.unresolved "Key") }]),
          (none, none, none)] := by
    decide +kernel
  generalize (enrichFiles {} [halfKnownFile] {}).answer (fun _ => none) = outcome at gives filled
  obtain ⟨files', r'⟩ := outcome
  exact ⟨files', r', gives, filled, enrichFiles_only_fills_gaps {} _ _ {} r' gives⟩

end Enrichment

end CodeAtlas
