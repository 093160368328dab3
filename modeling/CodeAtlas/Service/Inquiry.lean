import CodeAtlas.Symbol.Basic

/-!
Questions to a language service. What asks questions is a tree of inquiries: it is done, or it
asks a query and goes on with the answer. A service as a function of the query runs such a tree
(`Inquiry.answer`), and the queries it makes on the way can be read off (`Inquiry.queries`); a
service with a state runs it in any monad (`Inquiry.runIn`).
-/
namespace CodeAtlas

/-- A place where a symbol is referred to. -/
structure Location where
  fileId : String
  range : Range
  deriving DecidableEq, Repr

/-- A question to a language service. -/
inductive Query where
  | symbols (fileId : String)
  /-- The text shown for a place. -/
  | hover (fileId : String) (position : Position)
  /-- The references to the symbol at a place. -/
  | references (fileId : String) (position : Position)
  deriving DecidableEq, Repr

/-- What answers a query. -/
def Query.Answer : Query → Type
  | symbols _ => List RawSymbol
  | hover _ _ => Option String
  | references _ _ => List Location

def Query.nothing : (q : Query) → q.Answer
  | symbols _ => []
  | hover _ _ => none
  | references _ _ => []

/-- A language service whose answers depend on the query alone; no answer means that it failed. -/
abbrev Service := (q : Query) → Option q.Answer

inductive Inquiry (α : Type) where
  | done (a : α)
  | ask (q : Query) (next : Option q.Answer → Inquiry α)

namespace Inquiry

/-- Goes on with the result of a computation. -/
def bind {α β : Type} : Inquiry α → (α → Inquiry β) → Inquiry β
  | done a, f => f a
  | ask q next, f => ask q fun answer => (next answer).bind f

instance : Monad Inquiry where
  pure := done
  bind := bind

/-- Asks one query. -/
def query (q : Query) : Inquiry (Option q.Answer) := ask q done

/-- The result of a computation, its queries answered in a monad. -/
def runIn {m : Type → Type} [Monad m] {α : Type} (service : (q : Query) → m (Option q.Answer)) :
    Inquiry α → m α
  | done a => pure a
  | ask q next => do runIn service (next (← service q))

/-- The result of a computation when a service answers its queries. -/
def answer {α : Type} (service : Service) : Inquiry α → α
  | done a => a
  | ask q next => (next (service q)).answer service

/-- The queries that a computation asks when a service answers them, in order. -/
def queries {α : Type} (service : Service) : Inquiry α → List Query
  | done _ => []
  | ask q next => q :: (next (service q)).queries service

@[simp] theorem answer_pure {α : Type} (service : Service) (a : α) :
    (pure a : Inquiry α).answer service = a := rfl

@[simp] theorem answer_query (service : Service) (q : Query) :
    (query q).answer service = service q := rfl

@[simp] theorem queries_pure {α : Type} (service : Service) (a : α) :
    (pure a : Inquiry α).queries service = [] := rfl

@[simp] theorem queries_query (service : Service) (q : Query) :
    (query q).queries service = [q] := rfl

theorem answer_bind' {α β : Type} (service : Service) (x : Inquiry α) (f : α → Inquiry β) :
    (x.bind f).answer service = (f (x.answer service)).answer service := by
  induction x with
  | done => rfl
  | ask q next ih => exact ih _

theorem queries_bind' {α β : Type} (service : Service) (x : Inquiry α) (f : α → Inquiry β) :
    (x.bind f).queries service =
      x.queries service ++ (f (x.answer service)).queries service := by
  induction x with
  | done => rfl
  | ask q next ih => exact congrArg (q :: ·) (ih _)

@[simp] theorem answer_bind {α β : Type} (service : Service) (x : Inquiry α)
    (f : α → Inquiry β) :
    (x >>= f).answer service = (f (x.answer service)).answer service :=
  answer_bind' service x f

@[simp] theorem queries_bind {α β : Type} (service : Service) (x : Inquiry α)
    (f : α → Inquiry β) :
    (x >>= f).queries service =
      x.queries service ++ (f (x.answer service)).queries service :=
  queries_bind' service x f

/-- The result of a computation with the queries it asks. -/
def traced {α : Type} (service : Service) (x : Inquiry α) : α × List Query :=
  (x.answer service, x.queries service)

end Inquiry

end CodeAtlas
