import CodeAtlas.Proofs.Effects

/-!
Filling in symbols in any order. A symbol first takes the steps that lead to its question, later
those that finish it with the answer, and only then the symbols nested in it may start; apart from
that the steps of all files, neighbours and answers interleave freely. All of them share the
remembered references, and each is taken whole: only while an answer is awaited another may come in
between. What steps do and what they leave to do come to the same in any order (`Moves`), so every
run that cannot go on has the files, the queries and the remembered references of the run that goes
through the symbols one after another (`interleavings_agree`). Every state leads to such an end
(`Pool.exists_complete_run`).
-/
namespace CodeAtlas

/-- A context that was prepared for files, and may have resolved names since. -/
inductive Context.Prepared : Context → Prop where
  | fresh (c : Context) (files : List SourceFile) : Prepared (c.prepare files)
  | resolved {c : Context} (before : Prepared c) (name : String) :
      Prepared { c with resolver := (Resolver.resolve name c.resolver).2 }

theorem Context.Prepared.coherent {c : Context} (h : c.Prepared) :
    c.resolver.Coherent c.resolver.definitions := by
  suffices ∃ definitions, c.resolver.Coherent definitions by
    obtain ⟨definitions, hc⟩ := this
    exact hc.declared ▸ hc
  induction h with
  | fresh c files => exact ⟨_, Resolver.fresh_coherent (Resolver.definitionsOf files)⟩
  | resolved _ name ih =>
    obtain ⟨definitions, hc⟩ := ih
    exact ⟨definitions, (Resolver.resolve_spec hc name).2.1⟩

namespace Enrichment

/-! ## Steps -/

/-- A symbol on its way. -/
inductive Work where
  /-- Nothing is done yet. -/
  | waiting (t : SymbolTree)
  /-- The leading steps are done, and the answer to a question is awaited if there is one. -/
  | asked (request : Option HoverRequest) (s : Symbol) (children : List SymbolTree)
  /-- The symbol is filled in, and the symbols nested in it are on their way. -/
  | opened (s : Symbol) (children : List Work)

mutual

/-- The symbols as they are now. -/
def Work.tree : Work → SymbolTree
  | .waiting t => t
  | .asked _ s children => ⟨s, children⟩
  | .opened s children => ⟨s, treesOf children⟩

/-- The symbols of several works as they are now. -/
def treesOf : List Work → List SymbolTree
  | [] => []
  | w :: rest => w.tree :: treesOf rest

end

/-- One step of a symbol or of one nested in it, with the queries that it asks. -/
inductive Work.Step (service : Service) (scope : Scope) :
    Work → Resolver → List Query → Work → Resolver → Prop where
  | lead {s : Symbol} {children : List SymbolTree} {r : Resolver} (h : s.selection.isSome) :
      Step service scope (.waiting ⟨s, children⟩) r
        ((fetch (lead scope s r).1.1).queries service)
        (.asked (lead scope s r).1.1 (lead scope s r).1.2 children) (lead scope s r).2
  | finish {request : Option HoverRequest} {s : Symbol} {children : List SymbolTree}
      {r : Resolver} :
      Step service scope (.asked request s children) r []
        (.opened (finish scope ((fetch request).answer service) s r).1 (children.map .waiting))
        (finish scope ((fetch request).answer service) s r).2
  | inside {s : Symbol} (before after : List Work) {w w' : Work} {r r' : Resolver}
      {asked : List Query} (h : Step service scope w r asked w' r') :
      Step service scope (.opened s (before ++ w :: after)) r asked
        (.opened s (before ++ w' :: after)) r'

/-- A file whose symbols are on their way. -/
structure FileWork where
  file : SourceFile
  works : List Work

/-- What a run consists of: the remembered references, which all share, and the files. -/
structure Pool where
  resolver : Resolver
  files : List FileWork

namespace Pool

/-- The state before the first step. -/
def start (c : Context) (files : List SourceFile) : Pool :=
  ⟨c.resolver, files.map fun f => ⟨f, f.symbols.map .waiting⟩⟩

/-- The files as they are now. -/
def snapshot (p : Pool) : List SourceFile :=
  p.files.map fun f => { f.file with symbols := treesOf f.works }

/-- One step of any symbol of any file. -/
inductive Step (service : Service) (c : Context) : Pool → List Query → Pool → Prop where
  | symbol (filesBefore filesAfter : List FileWork) {f : SourceFile} (before after : List Work)
      {w w' : Work} {r r' : Resolver} {asked : List Query}
      (h : w.Step service ⟨c.config, c.relations, f.text⟩ r asked w' r') :
      Step service c ⟨r, filesBefore ++ ⟨f, before ++ w :: after⟩ :: filesAfter⟩ asked
        ⟨r', filesBefore ++ ⟨f, before ++ w' :: after⟩ :: filesAfter⟩

/-- Any number of steps, with all queries asked in order. -/
inductive Run (service : Service) (c : Context) : Pool → List Query → Pool → Prop where
  | refl (p : Pool) : Run service c p [] p
  | step {p q last : Pool} {asked later : List Query} (first : Step service c p asked q)
      (rest : Run service c q later last) : Run service c p (asked ++ later) last

/-- No step is left to take. -/
def Complete (service : Service) (c : Context) (p : Pool) : Prop :=
  ∀ asked q, ¬ Step service c p asked q

end Pool

/-! ## What is left to do -/

section Left

variable (definitions : List TypeDefinition) (service : Service) (scope : Scope)

mutual

/-- What is left to do for a symbol. -/
def Work.effect : Work → Effect SymbolTree
  | .waiting t => treeEffect definitions service scope t
  | .asked request s children => do
    let s ← finishEffect definitions service scope request s
    return ⟨s, ← treesEffect definitions service scope children⟩
  | .opened s children => do
    return ⟨s, ← worksEffect children⟩

/-- What is left to do for several symbols. -/
def worksEffect : List Work → Effect (List SymbolTree)
  | [] => return []
  | w :: rest => do
    let t ← w.effect
    return t :: (← worksEffect rest)

end

theorem worksEffect_eq (works : List Work) :
    worksEffect definitions service scope works =
      works.mapM (Work.effect definitions service scope) := by
  induction works with
  | nil => rfl
  | cons w rest ih =>
    rw [worksEffect, ih, List.mapM_cons]

theorem worksEffect_waiting (trees : List SymbolTree) :
    worksEffect definitions service scope (trees.map .waiting) =
      treesEffect definitions service scope trees := by
  induction trees with
  | nil => rw [List.map_nil, worksEffect, treesEffect]
  | cons t rest ih =>
    rw [List.map_cons, worksEffect, Work.effect, ih, treesEffect]

/-- What is left to do in all files. -/
def Pool.effect (c : Context) (p : Pool) : Effect (List SourceFile) :=
  p.files.mapM fun f => do
    let scope := ⟨c.config, c.relations, f.file.text⟩
    return { f.file with symbols := ← worksEffect definitions service scope f.works }

theorem Pool.effect_start (c : Context) (files : List SourceFile) :
    (Pool.start c files).effect definitions service c =
      files.mapM (fileEffect definitions service c) := by
  rw [effect, start, List.mapM_map]
  apply congrArg files.mapM
  funext f
  simp only [Function.comp_apply, worksEffect_waiting]
  rfl

end Left

/-- Some steps ask queries and change what is remembered; together with what is left to do they come
to the same as before. -/
structure Moves {α : Type} (definitions : List TypeDefinition) (count : Nat) (r : Resolver)
    (before : Effect α) (asked : List Query) (r' : Resolver) (after : Effect α) : Prop where
  coherent : r'.Coherent definitions
  result : after.result = before.result
  names : ∀ n, n ∈ r'.names ∨ n ∈ after.names ↔ n ∈ r.names ∨ n ∈ before.names
  queries : (asked ++ after.queries).Perm before.queries
  steps : before.steps = count + after.steps

namespace Moves

variable {α β : Type} {definitions : List TypeDefinition} {count count' : Nat}
  {r r' r'' : Resolver} {e e' e'' : Effect α} {asked later : List Query}

theorem refl (h : r.Coherent definitions) (e : Effect α) : Moves definitions 0 r e [] r e where
  coherent := h
  result := rfl
  names _ := Iff.rfl
  queries := .refl _
  steps := (Nat.zero_add _).symm

theorem trans (h : Moves definitions count r e asked r' e')
    (h' : Moves definitions count' r' e' later r'' e'') :
    Moves definitions (count + count') r e (asked ++ later) r'' e'' where
  coherent := h'.coherent
  result := h'.result.trans h.result
  names n := (h'.names n).trans (h.names n)
  queries := by
    rw [List.append_assoc]
    exact (h'.queries.append_left asked).trans h.queries
  steps := by rw [h.steps, h'.steps, Nat.add_assoc]

/-- A steady computation is done in one step. -/
theorem settled {x : StateM Resolver α} (steady : Steady definitions x)
    (h : r.Coherent definitions) (next : α → Effect β) :
    Moves definitions 1 r (.settled definitions x >>= next) [] (x r).2 (next (x r).1) := by
  obtain ⟨result, hr, learnt⟩ := steady r h
  rw [result]
  refine ⟨hr, rfl, fun n => ?_, .refl _, rfl⟩
  rw [learnt n, Effect.names_bind, List.mem_append, or_assoc]
  rfl

/-- The queries that its result leads to are asked along with it. -/
theorem settled_asking {x : StateM Resolver α} (steady : Steady definitions x)
    (h : r.Coherent definitions) (queries : α → List Query) (next : α → Effect β) :
    Moves definitions 1 r
      (.settled definitions x >>= fun a => .asking (queries a) >>= fun _ => next a)
      (queries (x r).1) (x r).2 (next (x r).1) := by
  have moved := settled steady h fun a => .asking (queries a) >>= fun _ => next a
  refine ⟨moved.coherent, moved.result, moved.names, moved.queries, ?_⟩
  rw [moved.steps, Effect.steps_bind]
  show 1 + (0 + _) = _
  rw [Nat.zero_add]

/-- A step of the first part is a step of the whole. -/
theorem bind_left (h : Moves definitions count r e asked r' e') (next : α → Effect β) :
    Moves definitions count r (e >>= next) asked r' (e' >>= next) where
  coherent := h.coherent
  result := by rw [Effect.result_bind, Effect.result_bind, h.result]
  names n := by
    rw [Effect.names_bind, Effect.names_bind, List.mem_append, List.mem_append, ← or_assoc,
      ← or_assoc, h.names n, h.result]
  queries := by
    rw [Effect.queries_bind, Effect.queries_bind, ← List.append_assoc, h.result]
    exact h.queries.append_right _
  steps := by rw [Effect.steps_bind, Effect.steps_bind, h.steps, h.result, Nat.add_assoc]

/-- A step of the second part is a step of the whole. -/
theorem bind_right (first : Effect β) {next next' : β → Effect α}
    (h : Moves definitions count r (next first.result) asked r' (next' first.result)) :
    Moves definitions count r (first >>= next) asked r' (first >>= next') where
  coherent := h.coherent
  result := h.result
  names n := by
    rw [Effect.names_bind, Effect.names_bind, List.mem_append, List.mem_append, or_left_comm,
      h.names n, or_left_comm]
  queries := by
    rw [Effect.queries_bind, Effect.queries_bind]
    exact (List.perm_append_comm_assoc _ _ _).trans (h.queries.append_left _)
  steps := by rw [Effect.steps_bind, Effect.steps_bind, h.steps, Nat.add_left_comm]

/-- A step of one of several is a step of all. -/
theorem middle {f : β → Effect α} {b b' : β} (before after : List β)
    (h : Moves definitions count r (f b) asked r' (f b')) :
    Moves definitions count r ((before ++ b :: after).mapM f) asked r'
      ((before ++ b' :: after).mapM f) := by
  induction before with
  | nil =>
    rw [List.nil_append, List.nil_append, List.mapM_cons, List.mapM_cons]
    exact h.bind_left _
  | cons _ rest ih =>
    rw [List.cons_append, List.cons_append, List.mapM_cons, List.mapM_cons]
    apply bind_right
    exact ih.bind_left _

end Moves

section Runs

variable {definitions : List TypeDefinition} {service : Service} {scope : Scope} {c : Context}

theorem treeEffect_of_selection {s : Symbol} (h : s.selection.isSome) (children : List SymbolTree) :
    treeEffect definitions service scope ⟨s, children⟩ = do
      let s ← symbolEffect definitions service scope s
      return ⟨s, ← treesEffect definitions service scope children⟩ := by
  obtain ⟨selection, hs⟩ := Option.isSome_iff_exists.mp h
  rw [treeEffect, hs]
  rfl

theorem Work.Step.moves {w w' : Work} {r r' : Resolver} {asked : List Query}
    (step : w.Step service scope r asked w' r') (h : r.Coherent definitions) :
    Moves definitions 1 r (w.effect definitions service scope) asked r'
      (w'.effect definitions service scope) := by
  induction step with
  | @lead s children r hs =>
    rw [Work.effect, Work.effect, treeEffect_of_selection hs, symbolEffect]
    simp only [bind_assoc]
    exact .settled_asking (lead_steady definitions scope s) h
      (fun led => (fetch led.1).queries service) _
  | @finish request s children r =>
    rw [Work.effect, Work.effect, worksEffect_waiting]
    exact .settled (finish_steady definitions scope _ s) h _
  | @inside s before after _ _ _ _ _ _ ih =>
    rw [Work.effect, Work.effect, worksEffect_eq, worksEffect_eq]
    exact ((ih h).middle before after).bind_left _

theorem Pool.Step.moves {p q : Pool} {asked : List Query} (step : p.Step service c asked q)
    (h : p.resolver.Coherent definitions) :
    Moves definitions 1 p.resolver (p.effect definitions service c) asked q.resolver
      (q.effect definitions service c) := by
  cases step with
  | @symbol filesBefore filesAfter f before after _ _ _ _ _ inner =>
    apply Moves.middle filesBefore filesAfter
    apply Moves.bind_left
    rw [worksEffect_eq, worksEffect_eq]
    exact (inner.moves h).middle before after

theorem Pool.Run.moves {p q : Pool} {asked : List Query} (run : p.Run service c asked q)
    (h : p.resolver.Coherent definitions) :
    ∃ count, Moves definitions count p.resolver (p.effect definitions service c) asked q.resolver
      (q.effect definitions service c) := by
  induction run with
  | refl p => exact ⟨0, .refl h _⟩
  | step first _ ih =>
    have moved := first.moves h
    obtain ⟨count, rest⟩ := ih moved.coherent
    exact ⟨1 + count, moved.trans rest⟩

/-! ## The end of a run -/

mutual

/-- A symbol that no step can change is as it should be. -/
theorem effect_of_stuck {r : Resolver} : ∀ w : Work,
    (∀ asked w' r', ¬ w.Step service scope r asked w' r') →
      w.effect definitions service scope = pure w.tree
  | .waiting ⟨s, children⟩, stuck => by
    rw [Work.effect, treeEffect]
    cases hs : s.selection with
    | none => rfl
    | some selection => exact absurd (.lead (by rw [hs]; rfl)) (stuck _ _ _)
  | .asked request s children, stuck => absurd .finish (stuck _ _ _)
  | .opened s children, stuck => by
    rw [Work.effect, effects_of_stuck (r := r) children]
    · rw [pure_bind, Work.tree]
    · intro w hw asked w' r' step
      obtain ⟨before, after, rfl⟩ := List.append_of_mem hw
      exact stuck _ _ _ (.inside before after step)

theorem effects_of_stuck {r : Resolver} : ∀ works : List Work,
    (∀ w ∈ works, ∀ asked w' r', ¬ w.Step service scope r asked w' r') →
      worksEffect definitions service scope works = pure (treesOf works)
  | [], _ => by rw [worksEffect, treesOf]
  | w :: rest, stuck => by
    rw [worksEffect, effect_of_stuck w (stuck w List.mem_cons_self), pure_bind,
      effects_of_stuck rest fun w hw => stuck w (List.mem_cons_of_mem _ hw), pure_bind, treesOf]

end

theorem Pool.effect_of_complete {p : Pool} (complete : p.Complete service c) :
    p.effect definitions service c = pure p.snapshot := by
  obtain ⟨r, files⟩ := p
  refine Effect.mapM_eq_pure fun f hf => ?_
  obtain ⟨file, works⟩ := f
  show worksEffect definitions service _ works >>=
    (fun trees => pure { file with symbols := trees }) = _
  rw [effects_of_stuck (r := r) works, pure_bind]
  intro w hw asked w' r' step
  obtain ⟨filesBefore, filesAfter, rfl⟩ := List.append_of_mem hf
  obtain ⟨before, after, rfl⟩ := List.append_of_mem hw
  exact complete _ _ (.symbol filesBefore filesAfter before after step)

/-- A state in which nothing is left to do is complete, and only such a state is. -/
theorem Pool.complete_iff {p : Pool} (h : p.resolver.Coherent definitions) :
    p.Complete service c ↔ (p.effect definitions service c).steps = 0 := by
  refine ⟨?_, ?_⟩
  · intro complete
    rw [effect_of_complete complete, Effect.steps_pure]
  · intro nothing asked q step
    have steps := (step.moves h).steps
    rw [nothing] at steps
    omega

/-- From every state some steps lead to a complete one. -/
theorem Pool.exists_complete_run {p : Pool} (h : p.resolver.Coherent definitions) :
    ∃ asked q, p.Run service c asked q ∧ q.Complete service c := by
  generalize hn : (p.effect definitions service c).steps = n
  induction n generalizing p with
  | zero => exact ⟨[], p, .refl p, (complete_iff h).mpr hn⟩
  | succ n ih =>
    have going : ¬ p.Complete service c := by
      rw [complete_iff h, hn]
      exact Nat.succ_ne_zero n
    obtain ⟨asked, next, step⟩ : ∃ asked next, p.Step service c asked next :=
      Classical.byContradiction fun stuck => going fun asked q step => stuck ⟨asked, q, step⟩
    have moved := step.moves h
    have left : (next.effect definitions service c).steps = n := by
      have := moved.steps
      omega
    obtain ⟨later, last, run, complete⟩ := ih moved.coherent left
    exact ⟨asked ++ later, last, .step step run, complete⟩

end Runs

/-- Every complete run over the symbols of files, in whatever order its steps come, ends with the
files, the queries and the remembered references of the run that fills in one symbol after
another. -/
theorem interleavings_agree {c : Context} (prepared : c.Prepared) (service : Service)
    (files : List SourceFile) {asked : List Query} {p : Pool}
    (run : (Pool.start c files).Run service c asked p) (complete : p.Complete service c) :
    p.snapshot = ((enrichFiles c files c.resolver).answer service).1 ∧
      asked.Perm ((enrichFiles c files c.resolver).queries service) ∧
      ∀ name, p.resolver.cache.lookup name =
        ((enrichFiles c files c.resolver).answer service).2.cache.lookup name := by
  have coherent := prepared.coherent
  obtain ⟨result, hr, learnt, queries⟩ :=
    enrichFiles_hasEffect c.resolver.definitions service c files c.resolver coherent
  obtain ⟨count, moved⟩ := run.moves coherent
  rw [Pool.effect_of_complete complete, Pool.effect_start] at moved
  refine ⟨?_, ?_, moved.coherent.same_cache hr fun name => ?_⟩
  · rw [result, ← moved.result, Effect.result_pure]
  · rw [queries, ← List.append_nil asked]
    exact moved.queries
  · have all : name ∈ p.resolver.names ↔ name ∈ p.resolver.names ∨ name ∈ [] :=
      (or_iff_left List.not_mem_nil).symm
    rw [learnt, all]
    exact moved.names name

/-- A file with one field, which is declared without a type. -/
def bareFieldFile (fileId : String) : SourceFile where
  fileId
  symbols := [⟨{ Symbol.ofName "toy" .field fileId with selection := some ⟨⟨0, 0⟩, ⟨0, 3⟩⟩ }, []⟩]

def bareFieldFiles : List SourceFile := [bareFieldFile "a.dart", bareFieldFile "b.dart"]

def bareFieldContext : Context := ({} : Context).prepare bareFieldFiles

/-- A service that shows the same text everywhere. -/
def toyService : Service
  | .hover _ _ => some (some "```dart\nToy toy\n```")
  | _ => none

/-- The field of the second file asks first and is answered last. -/
theorem interleavings_agree_crossing :
    let one := enrichFiles bareFieldContext bareFieldFiles bareFieldContext.resolver
    ∃ asked p,
      (Pool.start bareFieldContext bareFieldFiles).Run toyService bareFieldContext asked p ∧
      p.Complete toyService bareFieldContext ∧
      asked = [.hover "b.dart" ⟨0, 0⟩, .hover "a.dart" ⟨0, 0⟩] ∧
      p.snapshot = (one.answer toyService).1 ∧ asked.Perm (one.queries toyService) ∧
      ∀ name, p.resolver.cache.lookup name = (one.answer toyService).2.cache.lookup name := by
  have prepared : bareFieldContext.Prepared := .fresh {} bareFieldFiles
  have crossing : ∃ p, (Pool.start bareFieldContext bareFieldFiles).Run toyService bareFieldContext
      [.hover "b.dart" ⟨0, 0⟩, .hover "a.dart" ⟨0, 0⟩] p ∧
      ∀ definitions, (p.effect definitions toyService bareFieldContext).steps = 0 :=
    ⟨_, .step (.symbol [_] [] [] [] (.lead rfl)) <| .step (.symbol [] [_] [] [] (.lead rfl)) <|
      .step (.symbol [] [_] [] [] .finish) <| .step (.symbol [_] [] [] [] .finish) <| .refl _,
      fun _ => rfl⟩
  obtain ⟨p, run, nothing⟩ := crossing
  obtain ⟨_, moved⟩ := run.moves prepared.coherent
  have complete := (Pool.complete_iff moved.coherent).mpr (nothing _)
  exact ⟨_, p, run, complete, rfl,
    interleavings_agree prepared toyService bareFieldFiles run complete⟩

end Enrichment

end CodeAtlas
