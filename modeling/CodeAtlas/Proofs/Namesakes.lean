import CodeAtlas.Proofs.Alone
import CodeAtlas.Proofs.Cutting

/-!
Classes of one name. What a class states about its supertypes is recorded under the name that it is
reported with, and looked up under its bare name. So a class finds what was stated last in its file
by a class that is reported under the bare name (`relations_found_under_bare_name`), which is what
the last of its namesakes states unless that one is reported with type arguments; a class that is
reported with type arguments alone finds nothing (`generic_class_finds_nothing`).
-/
namespace CodeAtlas

/-- What the declaration of a symbol states about supertypes. -/
def Symbol.heritage (s : Symbol) : Relations := Heritage.parse s.detail.toList

/-- Whether a symbol is a class that states supertypes. -/
def Symbol.StatesRelations (s : Symbol) : Prop :=
  s.kind = .classDecl ∧ s.heritage.isEmpty = false

instance (s : Symbol) : Decidable s.StatesRelations := inferInstanceAs (Decidable (_ ∧ _))

/-- The name of a symbol without type arguments. -/
def Symbol.bareName (s : Symbol) : String := String.ofList (TypeName.bare s.name.toList)

/-- Whether two symbols have one file, and one name up to type arguments. -/
def Symbol.Namesake (s t : Symbol) : Prop := s.fileId = t.fileId ∧ s.bareName = t.bareName

/-- Whether a symbol is the last one with a property among those that state supertypes. -/
def LastStating (P : Symbol → Prop) (symbols : List Symbol) (s : Symbol) : Prop :=
  P s ∧ s.StatesRelations ∧
    ∃ before after, symbols = before ++ s :: after ∧ ∀ x ∈ after, P x → ¬ x.StatesRelations

namespace LastStating

variable {P Q : Symbol → Prop} {symbols : List Symbol} {s x : Symbol}

theorem exists_of_mem (hs : s ∈ symbols) (here : P s) (states : s.StatesRelations) :
    ∃ l, LastStating P symbols l := by
  -- from the end, where the search for the last one begins
  induction symbols using List.reverseRecOn with
  | nil => exact absurd hs List.not_mem_nil
  | append_singleton symbols x ih =>
    by_cases last : P x ∧ x.StatesRelations
    · exact ⟨x, last.1, last.2, symbols, [], rfl, List.forall_mem_nil _⟩
    · have earlier : s ∈ symbols := by
        rcases List.mem_append.mp hs with h | h
        · exact h
        · exact absurd (List.mem_singleton.mp h ▸ ⟨here, states⟩) last
      obtain ⟨l, hl, stated, before, after, place, others⟩ := ih earlier
      refine ⟨l, hl, stated, before, after ++ [x], by rw [place]; simp, ?_⟩
      refine List.forall_mem_append.mpr ⟨others, List.forall_mem_singleton.mpr ?_⟩
      exact fun hx hstates => last ⟨hx, hstates⟩

theorem of_weaker (h : LastStating Q symbols s) (here : P s) (weaker : ∀ x, P x → Q x) :
    LastStating P symbols s := by
  obtain ⟨-, states, before, after, place, others⟩ := h
  exact ⟨here, states, before, after, place, fun x hx hp => others x hx (weaker x hp)⟩

end LastStating

theorem Symbol.bareName_of_name {s c : Symbol} (h : s.name = c.bareName) :
    s.bareName = c.bareName := by
  have once : TypeName.bare (TypeName.bare c.name.toList) = TypeName.bare c.name.toList := by
    have unbracketed : '<' ∉ TypeName.bare c.name.toList := fun h =>
      Text.not_mem_beforeFirst (Text.mem_of_mem_trim h)
    rw [TypeName.bare, Text.beforeFirst_of_not_mem unbracketed]
    exact (Text.tight_trim _).trim_eq
  rw [bareName, h, bareName, String.toList_ofList, once]

namespace RelationIndex

theorem stated?_eq_some {key : String × String} {s : Symbol} {r : Relations} :
    stated? key s = some r ↔ (s.fileId, s.name) = key ∧ s.StatesRelations ∧ s.heritage = r := by
  have written : s.heritage.isEmpty = false → s.detail ≠ "" := by
    intro some_relations no_detail
    rw [Symbol.heritage, no_detail] at some_relations
    exact absurd some_relations (by decide)
  unfold stated?
  constructor
  · intro h
    split at h
    · rename_i states
      exact ⟨states.2.2.1, ⟨states.1, states.2.2.2⟩, Option.some.inj h⟩
    · cases h
  · rintro ⟨same, states, rfl⟩
    exact if_pos ⟨states.1, written states.2, same, states.2⟩

/-- What is recorded under a name is what the last class of that very name states. -/
theorem lookup_ofFiles_eq_some (files : List SourceFile) (key : String × String) (r : Relations) :
    (ofFiles files).entries.lookup key = some r ↔
      ∃ s, LastStating (fun s => (s.fileId, s.name) = key) (files.flatMap SourceFile.preorder) s ∧
        s.heritage = r := by
  have recorded : (ofFiles files).entries.lookup key =
      (files.flatMap SourceFile.preorder).reverse.findSome? (stated? key) := by
    rw [ofFiles, lookup_foldl_addSymbol]
    exact Option.or_none
  have unstated : ∀ x, stated? key x = none ↔ ((x.fileId, x.name) = key → ¬ x.StatesRelations) := by
    intro x
    rw [Option.eq_none_iff_forall_ne_some]
    constructor
    · exact fun none_stated same states => none_stated _ (stated?_eq_some.mpr ⟨same, states, rfl⟩)
    · intro other r h
      obtain ⟨same, states, -⟩ := stated?_eq_some.mp h
      exact other same states
  rw [recorded, List.findSome?_eq_some_iff]
  constructor
  · rintro ⟨after, s, before, place, found, others⟩
    obtain ⟨same, states, stated⟩ := stated?_eq_some.mp found
    refine ⟨s, ⟨same, states, before.reverse, after.reverse, ?_, fun x hx => ?_⟩, stated⟩
    · simpa using congrArg List.reverse place
    · exact (unstated x).mp (others x (List.mem_reverse.mp hx))
  · rintro ⟨s, ⟨same, states, before, after, place, others⟩, stated⟩
    refine ⟨after.reverse, s, before.reverse, by simp [place], ?_, fun x hx => ?_⟩
    · exact stated?_eq_some.mpr ⟨same, states, stated⟩
    · exact (unstated x).mpr (others x (List.mem_reverse.mp hx))

/-- A class finds what was stated last in its file by a class that is reported under the bare name,
so nothing exactly if no class is, and what the last of its namesakes states if that one is. -/
theorem relations_found_under_bare_name (context : Context) (files : List SourceFile) {c : Symbol}
    (known : c ∈ files.flatMap SourceFile.preorder) (states : c.StatesRelations) :
    let symbols := files.flatMap SourceFile.preorder
    let found := (context.prepare files).relations.find? c.fileId c.name
    (∀ r, found = some r ↔ ∃ s, s.heritage = r ∧
      LastStating (fun s => s.fileId = c.fileId ∧ s.name = c.bareName) symbols s) ∧
    (found = none ↔ ∀ s ∈ symbols, s.Namesake c → s.StatesRelations → s.name ≠ s.bareName) ∧
    ∃ last, LastStating (Symbol.Namesake · c) symbols last ∧
      (last.name = last.bareName → found = some last.heritage) := by
  intro symbols found
  have recorded : ∀ r, found = some r ↔ ∃ s, s.heritage = r ∧
      LastStating (fun s => s.fileId = c.fileId ∧ s.name = c.bareName) symbols s := by
    intro r
    have keyed : found = (ofFiles files).entries.lookup (c.fileId, c.bareName) := rfl
    rw [keyed, lookup_ofFiles_eq_some]
    simp only [Prod.mk.injEq]
    exact exists_congr fun s => and_comm
  have namesake : ∀ s : Symbol, s.fileId = c.fileId ∧ s.name = c.bareName → s.Namesake c :=
    fun s h => ⟨h.1, Symbol.bareName_of_name h.2⟩
  refine ⟨recorded, ⟨fun absent s hs same stated bare => ?_, fun unnamed => ?_⟩, ?_⟩
  · obtain ⟨l, last⟩ := LastStating.exists_of_mem
      (P := fun s => s.fileId = c.fileId ∧ s.name = c.bareName) hs
      ⟨same.1, bare.trans same.2⟩ stated
    have present := (recorded _).mpr ⟨l, rfl, last⟩
    rw [absent] at present
    cases present
  · rw [Option.eq_none_iff_forall_ne_some]
    intro r present
    obtain ⟨s, -, here, stated, before, after, place, -⟩ := (recorded r).mp present
    have hs : s ∈ symbols := place ▸ List.mem_append_right _ List.mem_cons_self
    exact unnamed s hs (namesake s here) stated (here.2.trans (namesake s here).2.symm)
  · obtain ⟨last, hlast⟩ := LastStating.exists_of_mem (P := (Symbol.Namesake · c)) known
      ⟨rfl, rfl⟩ states
    refine ⟨last, hlast, fun bare => (recorded _).mpr ⟨last, rfl, ?_⟩⟩
    exact hlast.of_weaker ⟨hlast.1.1, bare.trans hlast.1.2⟩ namesake

/-- A class that is reported under its bare name. -/
def plainHome : Symbol where
  name := "Home"
  kind := .classDecl
  detail := "extends Page"
  fileId := "home.dart"
  uniqueId := "home.dart#Home#5"

/-- A class of the same name that is reported with a type argument. -/
def genericHome : Symbol where
  name := "Home<T>"
  kind := .classDecl
  detail := "extends Base"
  fileId := "home.dart"
  uniqueId := "home.dart#Home<T>#5"

/-- The two classes, one in the other. -/
def homes : SourceFile := ⟨"home.dart", "", [⟨plainHome, [⟨genericHome, []⟩]⟩]⟩

theorem relations_found_under_bare_name_home :
    genericHome ∈ [homes].flatMap SourceFile.preorder ∧ genericHome.StatesRelations ∧
      (({} : Context).prepare [homes]).relations.find? genericHome.fileId genericHome.name =
        some { superclass := some (.named "Page") } := by
  have known : genericHome ∈ [homes].flatMap SourceFile.preorder := by decide
  have states : genericHome.StatesRelations := by decide +kernel
  have found := (relations_found_under_bare_name {} [homes] known states).1
  have last : LastStating (fun s => s.fileId = "home.dart" ∧ s.name = genericHome.bareName)
      [plainHome, genericHome] plainHome := by
    refine ⟨by decide +kernel, by decide +kernel, [], [genericHome], rfl, ?_⟩
    exact List.forall_mem_singleton.mpr fun named => absurd named (by decide +kernel)
  exact ⟨known, states, (found _).mpr ⟨plainHome, by decide +kernel, last⟩⟩

/-- A class that is reported with its type parameter. -/
def genericRepo : Symbol where
  name := "Repo<T>"
  kind := .classDecl
  detail := "class Repo<T> extends Base"
  fileId := "file:///lib/a.dart"
  uniqueId := "file:///lib/a.dart#Repo<T>#5"

/-- The class alone in its file. -/
def repoFile : SourceFile := ⟨"file:///lib/a.dart", "", [⟨genericRepo, []⟩]⟩

/-- The relations of a class that is reported with type arguments are recorded, but not found. -/
theorem generic_class_finds_nothing :
    let relations := (({} : Context).prepare [repoFile]).relations
    genericRepo.heritage = { superclass := some (.named "Base") } ∧ relations.size = 1 ∧
      relations.find? genericRepo.fileId genericRepo.name = none := by
  decide +kernel

end RelationIndex

end CodeAtlas
