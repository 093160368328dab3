import CodeAtlas.Analysis
import CodeAtlas.Proofs.Answers

/-!
Failing queries. `Forgiving x` says that `x` cannot tell a service that fails on some queries from
one that answers them without data (`Service.filled`). It is proved part by part, following the
analysis: the symbols of files, hover texts, references. The symbols of a package are the exception:
a package whose library cannot be had is left out while one without symbols is not, and the two
become the same only when files without symbols are dropped (`externalFiles_forgiving`). So a
whole analysis forgives every failure, and only its configuration makes it fail
(`analyze_forgives_failures`).
-/
namespace CodeAtlas

/-- The service that answers without data where the given one fails. -/
def Service.filled (service : Service) : Service := fun q => some ((service q).getD q.nothing)

/-- The computation has the same result if failed queries are answered without data. -/
def Forgiving {α : Type} (x : Inquiry α) : Prop :=
  ∀ service : Service, x.answer service = x.answer service.filled

namespace Forgiving

variable {α β σ : Type}

theorem pure' (a : α) : Forgiving (pure a : Inquiry α) := fun _ => rfl

theorem bind' {x : Inquiry α} {f : α → Inquiry β} (hx : Forgiving x) (hf : ∀ a, Forgiving (f a)) :
    Forgiving (x >>= f) := by
  intro service
  rw [Inquiry.answer_bind, Inquiry.answer_bind, ← hx service]
  exact hf _ service

/-- A query is forgiven if a failure leads where an answer without data leads. -/
theorem query' {q : Query} {f : Option q.Answer → Inquiry β}
    (same : f none = f (some q.nothing)) (hf : ∀ answer, Forgiving (f answer)) :
    Forgiving (Inquiry.query q >>= f) := by
  intro service
  rw [Inquiry.answer_bind, Inquiry.answer_bind, Inquiry.answer_query, Inquiry.answer_query,
    Service.filled]
  cases service q with
  | none => exact same ▸ hf _ service
  | some a => exact hf _ service

theorem mapM' {f : α → Inquiry β} (hf : ∀ a, Forgiving (f a)) (l : List α) :
    Forgiving (l.mapM f) := by
  intro service
  rw [Inquiry.answer_mapM, Inquiry.answer_mapM]
  exact List.map_congr_left fun a _ => hf a service

theorem foldlM' {f : β → α → Inquiry β} (hf : ∀ b a, Forgiving (f b a)) (l : List α) :
    ∀ b, Forgiving (l.foldlM f b) := by
  induction l with
  | nil => exact fun b => pure' b
  | cons a rest ih => exact fun b => bind' (hf b a) ih

end Forgiving

/-- A computation with a state is forgiving from every state. -/
def ForgivingFrom {σ α : Type} (x : StateT σ Inquiry α) : Prop := ∀ s, Forgiving (x s)

namespace ForgivingFrom

variable {α β σ : Type}

theorem pure' (a : α) : ForgivingFrom (pure a : StateT σ Inquiry α) :=
  fun s => Forgiving.pure' (a, s)

theorem bind' {x : StateT σ Inquiry α} {f : α → StateT σ Inquiry β} (hx : ForgivingFrom x)
    (hf : ∀ a, ForgivingFrom (f a)) : ForgivingFrom (x >>= f) :=
  fun s => Forgiving.bind' (hx s) fun a => hf a.1 a.2

theorem mapM' {f : α → StateT σ Inquiry β} (hf : ∀ a, ForgivingFrom (f a)) (l : List α) :
    ForgivingFrom (l.mapM f) := by
  induction l with
  | nil => exact pure' []
  | cons a rest ih =>
    rw [List.mapM_cons]
    apply bind' (hf a)
    intro b
    exact bind' ih fun bs => pure' (b :: bs)

end ForgivingFrom

/-! ## Files -/

theorem load_forgiving (f : GivenFile) : Forgiving f.load := by
  unfold GivenFile.load
  cases f.symbols with
  | some raw => exact Forgiving.pure' _
  | none => exact Forgiving.query' rfl fun answer => Forgiving.pure' _

/-! ## Hover texts -/

namespace Enrichment

theorem fetchHover_forgiving (request : HoverRequest) : Forgiving (fetchHover request) := by
  apply Forgiving.query' rfl
  intro answer
  rcases answer with _ | _ | contents
  · exact Forgiving.pure' none
  · exact Forgiving.pure' none
  · exact Forgiving.pure' _

theorem fetch_forgiving (request : Option HoverRequest) : Forgiving (fetch request) := by
  cases request with
  | none => exact Forgiving.pure' none
  | some request => exact fetchHover_forgiving request

theorem enrichSymbol_forgiving (scope : Scope) (s : Symbol) :
    ForgivingFrom (enrichSymbol scope s) :=
  fun _ => Forgiving.bind' (fetch_forgiving _) fun _ => Forgiving.pure' _

mutual

theorem enrichTree_forgiving (scope : Scope) : ∀ t, ForgivingFrom (enrichTree scope t)
  | ⟨s, children⟩ => by
    rw [enrichTree]
    split
    · exact ForgivingFrom.pure' _
    · apply ForgivingFrom.bind' (enrichSymbol_forgiving scope s)
      intro s
      exact ForgivingFrom.bind' (enrichTrees_forgiving scope children) fun _ =>
        ForgivingFrom.pure' _

theorem enrichTrees_forgiving (scope : Scope) : ∀ trees, ForgivingFrom (enrichTrees scope trees)
  | [] => by
    rw [enrichTrees]
    exact ForgivingFrom.pure' []
  | t :: rest => by
    rw [enrichTrees]
    apply ForgivingFrom.bind' (enrichTree_forgiving scope t)
    intro t
    exact ForgivingFrom.bind' (enrichTrees_forgiving scope rest) fun _ => ForgivingFrom.pure' _

end

theorem enrichFile_forgiving (config : Config) (relations : RelationIndex) (f : SourceFile) :
    ForgivingFrom (enrichFile config relations f) :=
  ForgivingFrom.bind' (enrichTrees_forgiving _ f.symbols) fun _ => ForgivingFrom.pure' _

theorem enrichFiles_forgiving (c : Context) (files : List SourceFile) :
    ForgivingFrom (enrichFiles c files) :=
  ForgivingFrom.mapM' (enrichFile_forgiving c.config c.relations) files

end Enrichment

/-! ## References -/

namespace Builder

theorem addRead_forgiving (b : Builder) (source target : String) :
    Forgiving (b.addRead source target) := by
  unfold addRead
  split
  · exact Forgiving.pure' b
  · apply Forgiving.query' rfl
    intro answer
    cases answer with
    | none => exact Forgiving.pure' b
    | some references => exact Forgiving.pure' _

theorem addEdges_forgiving (b : Builder) (readsFrom : Bool) : Forgiving (b.addEdges readsFrom) := by
  apply Forgiving.foldlM'
  intro b pair
  unfold addMention
  split
  · exact Forgiving.pure' _
  · split
    · exact addRead_forgiving b pair.1 pair.2
    · exact Forgiving.pure' b

end Builder

/-! ## Packages -/

/-- Of a library only what has symbols counts, so that one which cannot be had counts as one
without symbols. -/
theorem publicLibrary_filled (disk : Disk) (service : Service) (path : String) :
    ((publicLibrary disk path).answer service).filter (fun f => !f.symbols.isEmpty) =
      ((publicLibrary disk path).answer service.filled).filter fun f => !f.symbols.isEmpty := by
  unfold publicLibrary
  cases FileUri.ofPath? path.toList with
  | none => rfl
  | some uri =>
    simp only [Inquiry.answer_bind, Inquiry.answer_query, Service.filled]
    cases service (.symbols (String.ofList uri)) with
    | none => rfl
    | some raw => rfl

theorem externalFiles_forgiving (disk : Disk) (packages : List Package) (f : Filters) :
    Forgiving (externalFiles disk packages f) := by
  intro service
  simp only [externalFiles, Inquiry.answer_bind, Inquiry.answer_mapM, Inquiry.answer_pure,
    List.filterMap_map, List.filter_filterMap]
  apply congrArg (fun kept => List.filterMap kept _)
  funext path
  exact publicLibrary_filled disk service path

/-! ## A whole analysis -/

theorem fillIn_forgiving (c : Context) (files : List SourceFile) : ForgivingFrom (fillIn c files) :=
  ForgivingFrom.bind' (Enrichment.enrichFiles_forgiving c files) fun _ => ForgivingFrom.pure' _

theorem wantedExternals_forgiving (disk : Disk) (c : Config) (packages : List Package) :
    Forgiving (wantedExternals disk c packages) := by
  unfold wantedExternals
  split
  · exact externalFiles_forgiving disk packages c.filters
  · exact Forgiving.pure' []

theorem graphOfFiles_forgiving (c : Config) (root : Option String) (packages : List Package)
    (files external : List SourceFile) : Forgiving (graphOfFiles c root packages files external) :=
  Forgiving.bind' (Builder.addEdges_forgiving _ _) fun _ => Forgiving.pure' _

theorem analyzeSound_forgiving (disk : Disk) (config : Config) (root : Option String)
    (given : List GivenFile) : Forgiving (analyzeSound disk config root given) := by
  apply Forgiving.bind' (Forgiving.mapM' load_forgiving given)
  intro loaded
  apply Forgiving.bind' (fillIn_forgiving _ loaded _)
  intro filled
  apply Forgiving.bind' (wantedExternals_forgiving disk config _)
  intro external
  apply Forgiving.bind' (fillIn_forgiving _ external _)
  intro external
  exact Forgiving.bind' (graphOfFiles_forgiving config root _ _ _) fun _ => Forgiving.pure' _

theorem analyze_of_fault {config : Config} {fault : ConfigFault} (h : config.fault? = some fault)
    (disk : Disk) (root : Option String) (given : List GivenFile) (service : Service) :
    (analyze disk config root given).answer service = .error fault := by
  rw [analyze, h]
  rfl

theorem analyze_of_sound {config : Config} (h : config.fault? = none) (disk : Disk)
    (root : Option String) (given : List GivenFile) (service : Service) :
    (analyze disk config root given).answer service =
      .ok ((analyzeSound disk config root given).answer service) := by
  rw [analyze, h]
  exact Inquiry.answer_bind service _ _

/-- An analysis has the same outcome whether queries fail or are answered without data, and it is
refused exactly if its configuration is faulty, with the fault found in it. -/
theorem analyze_forgives_failures (disk : Disk) (config : Config) (root : Option String)
    (given : List GivenFile) (service : Service) :
    (analyze disk config root given).answer service =
      (analyze disk config root given).answer service.filled ∧
    ∀ fault, (analyze disk config root given).answer service = .error fault ↔
      config.fault? = some fault := by
  cases h : config.fault? with
  | some found =>
    rw [analyze_of_fault h, analyze_of_fault h]
    refine ⟨rfl, fun fault => ?_⟩
    rw [Except.error.injEq, Option.some.injEq]
  | none =>
    rw [analyze_of_sound h, analyze_of_sound h, ← analyzeSound_forgiving disk config root given]
    exact ⟨rfl, fun fault => iff_of_false nofun nofun⟩

end CodeAtlas
