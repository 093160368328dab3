import CodeAtlas.Proofs.Answers
import CodeAtlas.Proofs.Remembered

/-!
What filling in comes to. An `Effect` is a result together with the names that are resolved, the
queries that are asked and the number of steps on the way. `treesEffect` says without any cache
what filling in symbols comes to; filling them in one after another from any coherent resolver comes
to just that (`enrichFiles_hasEffect`).
-/
namespace CodeAtlas

open Resolver (fresh)

/-- What a computation comes to, whatever is remembered before it. -/
@[ext]
structure Effect (α : Type) where
  result : α
  /-- The names it resolves. -/
  names : List String
  /-- The queries it asks, in order. -/
  queries : List Query
  steps : Nat

namespace Effect

variable {α β : Type}

instance : Monad Effect where
  pure a := ⟨a, [], [], 0⟩
  bind x f :=
    let y := f x.result
    ⟨y.result, x.names ++ y.names, x.queries ++ y.queries, x.steps + y.steps⟩

@[simp] theorem result_pure (a : α) : (pure a : Effect α).result = a := rfl
@[simp] theorem names_pure (a : α) : (pure a : Effect α).names = [] := rfl
@[simp] theorem queries_pure (a : α) : (pure a : Effect α).queries = [] := rfl
@[simp] theorem steps_pure (a : α) : (pure a : Effect α).steps = 0 := rfl

variable (x : Effect α) (f : α → Effect β)

@[simp] theorem result_bind : (x >>= f).result = (f x.result).result := rfl
@[simp] theorem names_bind : (x >>= f).names = x.names ++ (f x.result).names := rfl
@[simp] theorem queries_bind : (x >>= f).queries = x.queries ++ (f x.result).queries := rfl
@[simp] theorem steps_bind : (x >>= f).steps = x.steps + (f x.result).steps := rfl

instance : LawfulMonad Effect := by
  refine LawfulMonad.mk' Effect (fun x => ?_) (fun a f => ?_) (fun x f g => ?_)
  · exact Effect.ext rfl (List.append_nil _) (List.append_nil _) rfl
  · exact Effect.ext rfl rfl rfl (Nat.zero_add _)
  · exact Effect.ext rfl (List.append_assoc _ _ _) (List.append_assoc _ _ _) (Nat.add_assoc _ _ _)

theorem result_mapM (g : β → Effect α) (l : List β) :
    (l.mapM g).result = l.map fun b => (g b).result := by
  induction l with
  | nil => rfl
  | cons b rest ih =>
    rw [List.mapM_cons, List.map_cons, ← ih]
    rfl

/-- Computations that do nothing do nothing together. -/
theorem mapM_eq_pure {g : β → Effect α} {k : β → α} {l : List β} (h : ∀ b ∈ l, g b = pure (k b)) :
    l.mapM g = pure (l.map k) := by
  induction l with
  | nil => rfl
  | cons b rest ih =>
    rw [List.mapM_cons, h b List.mem_cons_self, pure_bind,
      ih fun b hb => h b (List.mem_cons_of_mem _ hb), pure_bind, List.map_cons]

/-- What a computation without queries comes to, as one step. -/
def settled (definitions : List TypeDefinition) (x : StateM Resolver α) : Effect α where
  result := (x (fresh definitions)).1
  names := (x (fresh definitions)).2.names
  queries := []
  steps := 1

/-- The queries of a computation, which take no step of their own. -/
def asking (queries : List Query) : Effect Unit := ⟨(), [], queries, 0⟩

end Effect

/-! ## Computations -/

/-- From every coherent resolver the computation has the given outcome. -/
def HasEffect {α : Type} (definitions : List TypeDefinition) (service : Service)
    (x : StateT Resolver Inquiry α) (o : Effect α) : Prop :=
  ∀ r : Resolver, r.Coherent definitions →
    ((x r).answer service).1 = o.result ∧ ((x r).answer service).2.Coherent definitions ∧
      (∀ n, n ∈ ((x r).answer service).2.names ↔ n ∈ r.names ∨ n ∈ o.names) ∧
      (x r).queries service = o.queries

namespace HasEffect

variable {α β : Type} {definitions : List TypeDefinition} {service : Service}

theorem pure' (a : α) : HasEffect definitions service (pure a) (pure a) := by
  intro r h
  refine ⟨rfl, h, fun n => ?_, rfl⟩
  show n ∈ r.names ↔ n ∈ r.names ∨ n ∈ []
  rw [or_iff_left List.not_mem_nil]

theorem bind' {x : StateT Resolver Inquiry α} {f : α → StateT Resolver Inquiry β}
    {o : Effect α} {p : α → Effect β} (hx : HasEffect definitions service x o)
    (hf : ∀ a, HasEffect definitions service (f a) (p a)) :
    HasEffect definitions service (x >>= f) (o >>= p) := by
  intro r h
  obtain ⟨result, hr, learnt, asked⟩ := hx r h
  obtain ⟨result', hr', learnt', asked'⟩ := hf o.result _ hr
  have go : (x >>= f) r = x r >>= fun a => f a.1 a.2 := rfl
  rw [go, Inquiry.answer_bind, Inquiry.queries_bind, result]
  refine ⟨result', hr', fun n => ?_, ?_⟩
  · rw [learnt', learnt, Effect.names_bind, List.mem_append, or_assoc]
  · rw [asked, asked', Effect.queries_bind]

theorem mapM' {f : α → StateT Resolver Inquiry β} {p : α → Effect β}
    (hf : ∀ a, HasEffect definitions service (f a) (p a)) (l : List α) :
    HasEffect definitions service (l.mapM f) (l.mapM p) := by
  induction l with
  | nil => exact pure' []
  | cons a rest ih =>
    rw [List.mapM_cons, List.mapM_cons]
    apply bind' (hf a)
    intro b
    exact bind' ih fun bs => pure' (b :: bs)

end HasEffect

/-! ## Filling in -/

namespace Enrichment

variable (definitions : List TypeDefinition) (service : Service) (scope : Scope)

/-- What the steps after the question come to. -/
def finishEffect (request : Option HoverRequest) (s : Symbol) : Effect Symbol :=
  .settled definitions (finish scope ((fetch request).answer service) s)

/-- What filling in a symbol comes to. -/
def symbolEffect (s : Symbol) : Effect Symbol := do
  let led ← .settled definitions (lead scope s)
  .asking ((fetch led.1).queries service)
  finishEffect definitions service scope led.1 led.2

mutual

/-- What filling in a symbol and the symbols nested in it comes to. -/
def treeEffect : SymbolTree → Effect SymbolTree
  | ⟨s, children⟩ =>
    if s.selection.isNone then return ⟨s, children⟩
    else do
      let s ← symbolEffect definitions service scope s
      return ⟨s, ← treesEffect children⟩

/-- What filling in symbols one after another comes to. -/
def treesEffect : List SymbolTree → Effect (List SymbolTree)
  | [] => return []
  | t :: rest => do
    let t ← treeEffect t
    return t :: (← treesEffect rest)

end

/-- What filling in a file comes to. -/
def fileEffect (c : Context) (f : SourceFile) : Effect SourceFile := do
  let scope := ⟨c.config, c.relations, f.text⟩
  return { f with symbols := ← treesEffect definitions service scope f.symbols }

theorem enrichSymbol_hasEffect (s : Symbol) :
    HasEffect definitions service (enrichSymbol scope s)
      (symbolEffect definitions service scope s) := by
  intro r h
  obtain ⟨result, hr, learnt⟩ := lead_steady definitions scope s r h
  rw [enrichSymbol_run, Inquiry.answer_bind, Inquiry.queries_bind, Inquiry.answer_pure, Inquiry.queries_pure,
    result]
  obtain ⟨result', hr', learnt'⟩ := finish_steady definitions scope _ _ _ hr
  refine ⟨result', hr', fun n => ?_, ?_⟩
  · rw [learnt', learnt, or_assoc]
    simp [symbolEffect, finishEffect, Effect.settled, Effect.asking]
  · simp [symbolEffect, finishEffect, Effect.settled, Effect.asking]

mutual

theorem enrichTree_hasEffect : ∀ t, HasEffect definitions service (enrichTree scope t)
    (treeEffect definitions service scope t)
  | ⟨s, children⟩ => by
    rw [enrichTree, treeEffect]
    split
    · exact .pure' _
    · apply HasEffect.bind' (enrichSymbol_hasEffect definitions service scope s)
      intro s
      exact .bind' (enrichTrees_hasEffect children) fun _ => .pure' _

theorem enrichTrees_hasEffect : ∀ trees, HasEffect definitions service (enrichTrees scope trees)
    (treesEffect definitions service scope trees)
  | [] => by
    rw [enrichTrees, treesEffect]
    exact .pure' []
  | t :: rest => by
    rw [enrichTrees, treesEffect]
    apply HasEffect.bind' (enrichTree_hasEffect t)
    intro t
    exact .bind' (enrichTrees_hasEffect rest) fun _ => .pure' _

end

theorem enrichFile_hasEffect (c : Context) (f : SourceFile) :
    HasEffect definitions service (enrichFile c.config c.relations f)
      (fileEffect definitions service c f) :=
  .bind' (enrichTrees_hasEffect definitions service _ _) fun _ => .pure' _

theorem enrichFiles_hasEffect (c : Context) (files : List SourceFile) :
    HasEffect definitions service (enrichFiles c files)
      (files.mapM (fileEffect definitions service c)) :=
  .mapM' (enrichFile_hasEffect definitions service c) files

end Enrichment

end CodeAtlas
