import CodeAtlas.Proofs.Interleavings
import CodeAtlas.Proofs.Settled

/-!
Filling in the same files again and again, each time from what is remembered by then and with any
answers. What one pass leaves is settled, so the next ones ask nothing and change nothing; and a pass
asks about a symbol just when it marks it, so a symbol is asked about once in all of them
(`passes_ask_once`).
-/
namespace CodeAtlas

/-- The question about a symbol that is asked when it comes to be marked as asked for. -/
def Symbol.questionUntil (s s' : Symbol) : Option Query :=
  if s'.hoverChecked && !s.hoverChecked then
    s.selection.map fun place => .hover s.fileId place.start
  else none

/-- The questions about symbols that have come to be marked, at most one for each. -/
def questionsUntil (before after : List Symbol) : List Query :=
  (before.zip after).filterMap fun p => p.1.questionUntil p.2

theorem questionsUntil_self (symbols : List Symbol) : questionsUntil symbols symbols = [] := by
  induction symbols with
  | nil => rfl
  | cons s rest ih =>
    have unmarked : s.questionUntil s = none := by simp [Symbol.questionUntil]
    rw [questionsUntil, List.zip_cons_cons, List.filterMap_cons, unmarked]
    exact ih

theorem questionsUntil_append {before₁ before₂ after₁ after₂ : List Symbol}
    (h : after₁.length = before₁.length) :
    questionsUntil (before₁ ++ before₂) (after₁ ++ after₂) =
      questionsUntil before₁ after₁ ++ questionsUntil before₂ after₂ := by
  rw [questionsUntil, List.zip_append h.symm, List.filterMap_append]
  rfl

namespace Enrichment

variable {α β : Type}

theorem givesAfter_bind {x : StateT Resolver Inquiry α} {f : α → StateT Resolver Inquiry β}
    {r r' : Resolver} {asked : List Query} {b : β} :
    ((x >>= f) r).GivesAfter asked (b, r') ↔
      ∃ a r₁ asked₁ asked₂, (x r).GivesAfter asked₁ (a, r₁) ∧
        (f a r₁).GivesAfter asked₂ (b, r') ∧ asked = asked₁ ++ asked₂ := by
  have go : (x >>= f) r = x r >>= fun a => f a.1 a.2 := rfl
  rw [go, Inquiry.givesAfter_bind, Prod.exists]

theorem givesAfter_pure {b b' : β} {r r' : Resolver} {asked : List Query} :
    ((pure b : StateT Resolver Inquiry β) r).GivesAfter asked (b', r') ↔
      asked = [] ∧ b' = b ∧ r' = r := by
  refine Inquiry.givesAfter_pure.trans (and_congr_right fun _ => ?_)
  rw [Prod.mk.injEq]

/-- The pass has nothing more to do for what it has left, and it has asked about the symbols that it
marked and about no others. -/
structure PassedOver (pass : α → StateT Resolver Inquiry α) (symbols : α → List Symbol) (a : α)
    (asked : List Query) (a' : α) : Prop where
  idle : pass a' = pure a'
  length : (symbols a').length = (symbols a).length
  asked_eq : asked = questionsUntil (symbols a) (symbols a')

/-- Whatever is remembered and whatever the answers are, the pass leaves nothing more to do. -/
def Settles (pass : α → StateT Resolver Inquiry α) (symbols : α → List Symbol) (a : α) : Prop :=
  ∀ r asked a' r', (pass a r).GivesAfter asked (a', r') → PassedOver pass symbols a asked a'

/-- A pass that does nothing leaves nothing more to do. -/
theorem PassedOver.of_idle {pass : α → StateT Resolver Inquiry α} {symbols : α → List Symbol}
    {a a' : α} {r r' : Resolver} {asked : List Query} (idle : pass a = pure a)
    (h : (pass a r).GivesAfter asked (a', r')) : PassedOver pass symbols a asked a' := by
  rw [idle] at h
  obtain ⟨rfl, rfl, -⟩ := givesAfter_pure.mp h
  exact ⟨idle, rfl, (questionsUntil_self _).symm⟩

theorem Settles.mapM {pass : α → StateT Resolver Inquiry α} {symbols : α → List Symbol}
    {l : List α} (h : ∀ a ∈ l, Settles pass symbols a) :
    Settles (List.mapM pass) (List.flatMap symbols) l := by
  induction l with
  | nil => exact fun _ _ _ _ => PassedOver.of_idle rfl
  | cons a rest ih =>
    obtain ⟨first, others⟩ := List.forall_mem_cons.mp h
    intro r asked l' r' gives
    rw [List.mapM_cons] at gives
    obtain ⟨a', r₁, asked₁, _, gives₁, more, rfl⟩ := givesAfter_bind.mp gives
    obtain ⟨rest', r₂, asked₂, _, gives₂, last, rfl⟩ := givesAfter_bind.mp more
    obtain ⟨rfl, rfl, -⟩ := givesAfter_pure.mp last
    have passed := first _ _ _ _ gives₁
    have passed' := ih others _ _ _ _ gives₂
    refine ⟨?_, ?_, ?_⟩
    · rw [List.mapM_cons, passed.idle, pure_bind, passed'.idle, pure_bind]
    · rw [List.flatMap_cons, List.flatMap_cons, List.length_append, List.length_append,
        passed.length, passed'.length]
    · rw [List.flatMap_cons, List.flatMap_cons, questionsUntil_append passed.length,
        ← passed.asked_eq, ← passed'.asked_eq, List.append_nil]

/-! ## One symbol -/

theorem fetch_asks {request : Option HoverRequest} {asked : List Query} {contents : Option String}
    (h : (fetch request).GivesAfter asked contents) :
    asked = (request.map fun q => Query.hover q.fileId q.position).toList := by
  cases request with
  | none => exact (Inquiry.givesAfter_pure.mp h).1
  | some q =>
    obtain ⟨answer, asked₁, asked₂, first, second, rfl⟩ := Inquiry.givesAfter_bind.mp h
    cases first with
    | ask _ done =>
      cases done
      have quiet : asked₂ = [] := by
        split at second <;> exact (Inquiry.givesAfter_pure.mp second).1
      rw [quiet]
      rfl

/-- The question that is planned is the one about a symbol that comes to be marked. -/
theorem Plans.questionUntil {s led s' : Symbol} {request : Option HoverRequest}
    (h : Plans s request led) (mark : s'.hoverChecked = led.hoverChecked) :
    s.questionUntil s' = request.map fun q => Query.hover q.fileId q.position := by
  cases h with
  | nothing same => simp [Symbol.questionUntil, mark, same]
  | question placed fresh marked => simp [Symbol.questionUntil, mark, marked, fresh, placed]

theorem enrichSymbol_settles (scope : Scope) (s : Symbol) :
    Settles (enrichSymbol scope) (fun s => [s]) s := by
  intro r asked s' r' gives
  obtain ⟨⟨done, none_left⟩, plans⟩ := lead_ends scope s r
  have opened : enrichSymbol scope s r = fetch (lead scope s r).1.1 >>= fun contents =>
      pure (finish scope contents (lead scope s r).1.2 (lead scope s r).2) := rfl
  rw [opened] at gives
  obtain ⟨contents, asked₁, asked₂, first, second, rfl⟩ := Inquiry.givesAfter_bind.mp gives
  obtain ⟨rfl, same⟩ := Inquiry.givesAfter_pure.mp second
  obtain ⟨settled, mark⟩ := finish_ends done none_left contents (lead scope s r).2
  rw [← same] at settled mark
  refine ⟨settled.enrichSymbol_eq, rfl, ?_⟩
  rw [List.append_nil, fetch_asks first, ← plans.questionUntil mark]
  show _ = List.filterMap _ [(s, s')]
  rw [List.filterMap_cons, List.filterMap_nil]
  cases s.questionUntil s' <;> rfl

/-! ## Trees and files -/

theorem enrichTrees_eq_mapM (scope : Scope) (trees : List SymbolTree) :
    enrichTrees scope trees = trees.mapM (enrichTree scope) := by
  induction trees with
  | nil => rw [enrichTrees, List.mapM_nil]
  | cons t rest ih => rw [enrichTrees, List.mapM_cons, ih]

theorem preorderAll_eq_flatMap (trees : List SymbolTree) :
    preorderAll trees = trees.flatMap SymbolTree.preorder := by
  induction trees with
  | nil => rw [preorderAll, List.flatMap_nil]
  | cons t rest ih => rw [preorderAll, List.flatMap_cons, ih]

theorem enrichTree_idle {scope : Scope} {s : Symbol} {children : List SymbolTree}
    (idle : enrichSymbol scope s = pure s)
    (inside : children.mapM (enrichTree scope) = pure children) :
    enrichTree scope ⟨s, children⟩ = pure ⟨s, children⟩ := by
  rw [enrichTree, enrichTrees_eq_mapM, idle, inside, pure_bind, pure_bind, ite_self]

mutual

theorem enrichTree_settles (scope : Scope) : ∀ t,
    Settles (enrichTree scope) SymbolTree.preorder t
  | ⟨s, children⟩ => by
    intro r asked t' r' gives
    -- a symbol without a place for its name is left alone, and so is what is nested in it
    by_cases unplaced : s.selection.isNone = true
    · refine PassedOver.of_idle ?_ gives
      rw [enrichTree, if_pos unplaced]
    · rw [enrichTree, if_neg unplaced, enrichTrees_eq_mapM] at gives
      obtain ⟨s', r₁, asked₁, _, gives₁, more, rfl⟩ := givesAfter_bind.mp gives
      obtain ⟨children', r₂, asked₂, _, gives₂, last, rfl⟩ := givesAfter_bind.mp more
      obtain ⟨rfl, rfl, -⟩ := givesAfter_pure.mp last
      have passed := enrichSymbol_settles scope s _ _ _ _ gives₁
      have inside := Settles.mapM (enrichTrees_settle scope children) _ _ _ _ gives₂
      have split : ∀ t : SymbolTree,
          t.preorder = [t.symbol] ++ t.children.flatMap SymbolTree.preorder := by
        rintro ⟨s, children⟩
        rw [SymbolTree.preorder, preorderAll_eq_flatMap]
        rfl
      refine ⟨enrichTree_idle passed.idle inside.idle, ?_, ?_⟩
      · rw [split, split, List.length_append, List.length_append, inside.length]
        rfl
      · rw [split, split, List.append_nil, passed.asked_eq, inside.asked_eq]
        exact (questionsUntil_append passed.length).symm

theorem enrichTrees_settle (scope : Scope) : ∀ trees : List SymbolTree,
    ∀ t ∈ trees, Settles (enrichTree scope) SymbolTree.preorder t
  | [] => fun _ h => absurd h List.not_mem_nil
  | t :: rest =>
    List.forall_mem_cons.mpr ⟨enrichTree_settles scope t, enrichTrees_settle scope rest⟩

end

theorem enrichFile_settles (config : Config) (relations : RelationIndex) (f : SourceFile) :
    Settles (enrichFile config relations) SourceFile.preorder f := by
  intro r asked f' r' gives
  obtain ⟨trees, r₁, asked₁, _, gives₁, last, rfl⟩ := givesAfter_bind.mp gives
  obtain ⟨rfl, rfl, -⟩ := givesAfter_pure.mp last
  rw [enrichTrees_eq_mapM] at gives₁
  have passed := Settles.mapM (enrichTrees_settle _ f.symbols) _ _ _ _ gives₁
  refine ⟨?_, ?_, ?_⟩
  · rw [enrichFile, enrichTrees_eq_mapM, passed.idle, pure_bind]
  · rw [SourceFile.preorder, SourceFile.preorder, preorderAll_eq_flatMap, preorderAll_eq_flatMap]
    exact passed.length
  · rw [SourceFile.preorder, SourceFile.preorder, preorderAll_eq_flatMap, preorderAll_eq_flatMap,
      List.append_nil]
    exact passed.asked_eq

theorem enrichFiles_settles (c : Context) (files : List SourceFile) :
    Settles (enrichFiles c) (List.flatMap SourceFile.preorder) files :=
  Settles.mapM fun f _ => enrichFile_settles c.config c.relations f

/-! ## Many passes -/

/-- Some passes over files, one after another, with the queries that they ask. Each goes on from
what the one before has left and remembered, and is answered in any way. -/
inductive Passes (c : Context) :
    List SourceFile → Resolver → List Query → List SourceFile → Resolver → Prop where
  | none (files : List SourceFile) (r : Resolver) : Passes c files r [] files r
  | pass {files files₁ files₂ : List SourceFile} {r r₁ r₂ : Resolver} {asked more : List Query}
      (one : (enrichFiles c files r).GivesAfter asked (files₁, r₁))
      (others : Passes c files₁ r₁ more files₂ r₂) : Passes c files r (asked ++ more) files₂ r₂

theorem Passes.idle {c : Context} {files files' : List SourceFile} {r r' : Resolver}
    {asked : List Query} (passes : Passes c files r asked files' r')
    (idle : enrichFiles c files = pure files) : asked = [] ∧ files' = files ∧ r' = r := by
  induction passes with
  | none => exact ⟨rfl, rfl, rfl⟩
  | pass one _ ih =>
    rw [idle] at one
    obtain ⟨rfl, rfl, rfl⟩ := givesAfter_pure.mp one
    exact ih idle

/-- After a pass another one asks nothing and changes nothing, from whatever is remembered. So over
any number of passes there is at most one question about each symbol, and that is asked when the
symbol is marked for it. -/
theorem passes_ask_once (c : Context) (files : List SourceFile) (r : Resolver) :
    (∀ asked files' r', (enrichFiles c files r).GivesAfter asked (files', r') →
      ∀ r₂, enrichFiles c files' r₂ = pure (files', r₂)) ∧
    ∀ asked files' r', Passes c files r asked files' r' →
      (files'.flatMap SourceFile.preorder).length = (files.flatMap SourceFile.preorder).length ∧
        asked = questionsUntil (files.flatMap SourceFile.preorder)
          (files'.flatMap SourceFile.preorder) := by
  refine ⟨fun asked files' r' one r₂ => ?_, fun asked files' r' passes => ?_⟩
  · rw [(enrichFiles_settles c files _ _ _ _ one).idle]
    rfl
  · cases passes with
    | none => exact ⟨rfl, (questionsUntil_self _).symm⟩
    | pass one others =>
      have passed := enrichFiles_settles c files _ _ _ _ one
      obtain ⟨rfl, rfl, -⟩ := others.idle passed.idle
      exact ⟨passed.length, by rw [List.append_nil, passed.asked_eq]⟩

/-- Of two passes over the bare fields only the first asks, also where the service fails. -/
theorem passes_ask_once_toy :
    ∀ service ∈ ([toyService, fun _ => none] : List Service),
      ∃ files r asked,
        (enrichFiles bareFieldContext bareFieldFiles bareFieldContext.resolver).answer service =
          (files, r) ∧
        (enrichFiles bareFieldContext bareFieldFiles bareFieldContext.resolver).GivesAfter asked
          (files, r) ∧
        enrichFiles bareFieldContext files r = pure (files, r) ∧
        asked = [.hover "a.dart" ⟨0, 0⟩, .hover "b.dart" ⟨0, 0⟩] ∧
        Passes bareFieldContext bareFieldFiles bareFieldContext.resolver asked files r ∧
        asked = questionsUntil (bareFieldFiles.flatMap SourceFile.preorder)
          (files.flatMap SourceFile.preorder) := by
  intro service hs
  have queries :
      (enrichFiles bareFieldContext bareFieldFiles bareFieldContext.resolver).queries service =
        [.hover "a.dart" ⟨0, 0⟩, .hover "b.dart" ⟨0, 0⟩] := by
    rcases List.mem_cons.mp hs with rfl | hs
    · decide +kernel
    · obtain rfl := List.mem_singleton.mp hs
      decide +kernel
  have one := Inquiry.givesAfter_answer service
    (enrichFiles bareFieldContext bareFieldFiles bareFieldContext.resolver)
  rw [queries] at one
  generalize (enrichFiles bareFieldContext bareFieldFiles bareFieldContext.resolver).answer service =
    outcome at one
  obtain ⟨files, r⟩ := outcome
  obtain ⟨again, once⟩ :=
    passes_ask_once bareFieldContext bareFieldFiles bareFieldContext.resolver
  have idle := again _ _ _ one r
  have two : (enrichFiles bareFieldContext files r).GivesAfter [] (files, r) := by
    rw [idle]
    exact .done _
  have passes := Passes.pass one (.pass two (.none files r))
  exact ⟨files, r, _, rfl, one, idle, rfl, passes, (once _ _ _ passes).2⟩

end Enrichment

end CodeAtlas
