import CodeAtlas.Context
import CodeAtlas.Proofs.Remembered
import Mathlib.Data.List.Forall2

/-!
One context over many runs. Whatever is done with it, what it remembers was found in the files that
it was prepared for last (`Act.keeps_coherent`), so no reference that it gives shows that it remembers
any, or that there were other files before (`references_forget_earlier_runs`).
-/
namespace CodeAtlas

/-! ## Declarations in files -/

/-- Whether a symbol is a class, an enum or a type definition of the given name. -/
def Symbol.Declares (s : Symbol) (name : String) : Prop :=
  (s.kind = .classDecl ∨ s.kind = .enumDecl ∨ s.kind = .typedef) ∧ s.name = name

/-- What a reference tells about the symbol that declares a type. -/
def Symbol.asDefinition (s : Symbol) : TypeDefinition :=
  ⟨s.name, s.kind, s.fileId, s.selection, isSdkFile s.fileId⟩

/-- What is known about a name: the first of the symbols that declares a type under it. -/
inductive FirstDeclared (name : String) (symbols : List Symbol) : Option TypeDefinition → Prop
  | unknown (none_declares : ∀ s ∈ symbols, ¬ s.Declares name) : FirstDeclared name symbols none
  | known {s : Symbol} (before after : List Symbol) (place : symbols = before ++ s :: after)
      (first : ∀ x ∈ before, ¬ x.Declares name) (declares : s.Declares name) :
      FirstDeclared name symbols (some s.asDefinition)

/-- A reference goes by the name as it was written, and leads to the first declaration of its base
name in the files. -/
structure TypeReference.LeadsInto (files : List SourceFile) (name : String) (r : TypeReference) :
    Prop where
  name_eq : r.name = name
  first : FirstDeclared (String.ofList (TypeName.base name.toList))
    (files.flatMap SourceFile.preorder) r.definition

namespace FirstDeclared

variable {name : String} {s : Symbol} {symbols : List Symbol} {d : Option TypeDefinition}

theorem here (declares : s.Declares name) : FirstDeclared name (s :: symbols) s.asDefinition :=
  .known [] symbols rfl (fun _ hx => absurd hx List.not_mem_nil) declares

theorem behind (other : ¬ s.Declares name) (h : FirstDeclared name symbols d) :
    FirstDeclared name (s :: symbols) d := by
  cases h with
  | unknown none_declares => exact .unknown (List.forall_mem_cons.mpr ⟨other, none_declares⟩)
  | known before after place first declares =>
    refine .known (s :: before) after ?_ (List.forall_mem_cons.mpr ⟨other, first⟩) declares
    rw [place, List.cons_append]

end FirstDeclared

namespace Resolver

theorem definition?_eq_some {s : Symbol} {d : TypeDefinition} (h : definition? s = some d) :
    d = s.asDefinition ∧ (s.kind = .classDecl ∨ s.kind = .enumDecl ∨ s.kind = .typedef) := by
  unfold definition? at h
  split at h
  · rename_i declares
    refine ⟨(Option.some.inj h).symm, ?_⟩
    cases kind : s.kind <;> simp [kind, SymbolKind.declaresType] at declares ⊢
  · cases h

theorem not_declares_of_definition? {s : Symbol} (h : definition? s = none) (name : String) :
    ¬ s.Declares name := by
  rintro ⟨kind, -⟩
  rcases kind with kind | kind | kind <;> simp [definition?, kind, SymbolKind.declaresType] at h

theorem firstDeclared_find? (name : String) (symbols : List Symbol) :
    FirstDeclared name symbols
      ((symbols.filterMap definition?).find? fun d => d.name = name) := by
  induction symbols with
  | nil => exact .unknown fun s hs => absurd hs List.not_mem_nil
  | cons s symbols ih =>
    cases made : definition? s with
    | none =>
      rw [List.filterMap_cons_none made]
      exact ih.behind (not_declares_of_definition? made name)
    | some d =>
      obtain ⟨rfl, kind⟩ := definition?_eq_some made
      rw [List.filterMap_cons_some made, List.find?_cons]
      by_cases same : s.name = name
      · rw [decide_eq_true (show s.asDefinition.name = name from same)]
        exact .here ⟨kind, same⟩
      · rw [decide_eq_false (show ¬ s.asDefinition.name = name from same)]
        exact ih.behind fun declares => same declares.2

theorem lookup_leadsInto (files : List SourceFile) (name : String) :
    (lookup (definitionsOf files) name).LeadsInto files name where
  name_eq := rfl
  first := firstDeclared_find? _ _

end Resolver

/-! ## Courses of acts -/

namespace Context

/-- What can be done with a context. -/
inductive Act where
  /-- Takes a new context. -/
  | new (config : Config)
  | prepare (files : List SourceFile)
  | reset
  /-- Forgets the types, but not the relations of classes. -/
  | clearTypes
  | resolve (name : String)

namespace Act

/-- The context behind an act. -/
def after (c : Context) : Act → Context
  | new config => { config }
  | prepare files => c.prepare files
  | reset => c.reset
  | clearTypes => { c with resolver := c.resolver.clear }
  | resolve name => { c with resolver := (Resolver.resolve name c.resolver).2 }

/-- The reference that an act gives. -/
def answer? (c : Context) : Act → Option TypeReference
  | resolve name => some (Resolver.resolve name c.resolver).1
  | _ => none

/-- The name that an act asks about. -/
def asks? : Act → Option String
  | resolve name => some name
  | _ => none

/-- The files that a context is prepared for behind an act, when it was prepared for `files`. -/
def filesAfter (files : List SourceFile) : Act → List SourceFile
  | prepare files => files
  | resolve _ => files
  | new _ | reset | clearTypes => []

end Act

/-- The references that a course of acts gives. -/
def answers (c : Context) : List Act → List TypeReference
  | [] => []
  | a :: acts => (a.answer? c).toList ++ answers (a.after c) acts

/-- The names that a course of acts asks about, each with the files that the context is prepared for
at that time. No memory takes part in it. -/
def questions (files : List SourceFile) : List Act → List (String × List SourceFile)
  | [] => []
  | a :: acts => (a.asks?.map (·, files)).toList ++ questions (a.filesAfter files) acts

/-! ## What is remembered -/

variable {c : Context} {files : List SourceFile}

/-- A context is coherent for files if its types are those of the files, and what it remembers was
found in them. -/
def CoherentFor (files : List SourceFile) (c : Context) : Prop :=
  c.resolver.Coherent (Resolver.definitionsOf files)

theorem new_coherent (config : Config) : CoherentFor [] { config } := Resolver.fresh_coherent []

/-- To prepare is to forget all, then to take the types and the relations from the files. -/
theorem prepare_eq (c : Context) (files : List SourceFile) :
    c.prepare files =
      { c.reset with resolver := c.reset.resolver.index files, relations := .ofFiles files } := rfl

/-- Types are indexed in coherence if nothing is remembered. -/
theorem index_coherent {r : Resolver} (forgot : r.cache = []) (files : List SourceFile) :
    (r.index files).Coherent (Resolver.definitionsOf files) where
  declared := rfl
  found_eq name found remembered := by
    rw [Resolver.index, forgot] at remembered
    cases remembered

/-- An act leaves a context that is coherent for the files that are prepared behind it. -/
theorem Act.keeps_coherent (h : c.CoherentFor files) (a : Act) :
    (a.after c).CoherentFor (a.filesAfter files) := by
  cases a with
  | new config => exact new_coherent config
  | prepare files =>
    show (c.prepare files).resolver.Coherent _
    rw [prepare_eq]
    exact index_coherent rfl files
  | reset => exact new_coherent c.config
  | clearTypes => exact Resolver.fresh_coherent []
  | resolve name => exact (Resolver.resolve_spec h name).2.1

/-- A coherent context answers by the files that it was prepared for. -/
theorem Act.answers_question (h : c.CoherentFor files) (a : Act) :
    List.Forall₂ (fun q r => r.LeadsInto q.2 q.1) (a.asks?.map (·, files)).toList
      (a.answer? c).toList := by
  cases a with
  | resolve name =>
    refine .cons ?_ .nil
    rw [(Resolver.resolve_spec h name).1]
    exact Resolver.lookup_leadsInto files name
  | new | prepare | reset | clearTypes => exact .nil

theorem answers_questions (h : c.CoherentFor files) (acts : List Act) :
    List.Forall₂ (fun q r => r.LeadsInto q.2 q.1) (questions files acts) (answers c acts) := by
  induction acts generalizing c files with
  | nil => exact .nil
  | cons a acts ih => exact List.rel_append (a.answers_question h) (ih (a.keeps_coherent h))

/-- Whatever is done with a context, each reference that it gives leads to the first declaration of
the base name in the files that it was prepared for last, if it has not been reset or cleared
since, and to none otherwise. -/
theorem references_forget_earlier_runs (config : Config) (acts : List Act) :
    List.Forall₂ (fun q r => r.LeadsInto q.2 q.1) (questions [] acts) (answers { config } acts) :=
  answers_questions (new_coherent config) acts

end Context

end CodeAtlas
