import CodeAtlas.Proofs.Erasure

/-!
Files on their own. Of what is recorded about classes a file sees only what its own symbols state,
and no name is worded otherwise for being declared elsewhere. So filling in many files comes, with
references erased, to filling in each of them where no declaration is known (`answer_fillIn_erase`),
and the other files do not matter for that (`fillAlone_congr`).
-/
namespace CodeAtlas

/-! ## First matches -/

section Distinct

variable {α β κ : Type} {l l' : List α} {k : α → κ} (distinct : (l.map k).Nodup) {h : α → Option β}
  (key : κ) (only : ∀ a ∈ l, ∀ b, h a = some b → k a = key)

include distinct only

/-- Where all that match share a key, and no two share one, whatever matches is the first match. -/
theorem findSome?_eq_some_of_distinct {b : β} :
    l.findSome? h = some b ↔ ∃ a ∈ l, h a = some b := by
  refine ⟨List.exists_of_findSome?_eq_some, ?_⟩
  rintro ⟨a, ha, hab⟩
  have matched : (l.findSome? h).isSome :=
    List.findSome?_isSome_iff.mpr ⟨a, ha, Option.isSome_of_eq_some hab⟩
  obtain ⟨b', first⟩ := Option.isSome_iff_exists.mp matched
  obtain ⟨a', ha', hab'⟩ := List.exists_of_findSome?_eq_some first
  have same : k a' = k a := (only a' ha' b' hab').trans (only a ha b hab).symm
  obtain rfl := List.inj_on_of_nodup_map distinct ha' ha same
  rw [first, ← hab', hab]

/-- So the order does not matter for it. -/
theorem findSome?_perm (perm : l.Perm l') : l.findSome? h = l'.findSome? h := by
  have distinct' : (l'.map k).Nodup := (perm.map k).nodup_iff.mp distinct
  have only' : ∀ a ∈ l', ∀ b, h a = some b → k a = key := fun a ha => only a (perm.mem_iff.mpr ha)
  refine Option.ext fun b => ?_
  rw [findSome?_eq_some_of_distinct distinct key only,
    findSome?_eq_some_of_distinct distinct' key only']
  exact exists_congr fun a => and_congr_left fun _ => perm.mem_iff

theorem findSome?_reverse_perm (perm : l.Perm l') :
    l.reverse.findSome? h = l'.reverse.findSome? h := by
  have reversed : l.reverse.Perm l'.reverse :=
    (l.reverse_perm.trans perm).trans l'.reverse_perm.symm
  have distinct' : (l.reverse.map k).Nodup := by
    rw [List.map_reverse]
    exact List.nodup_reverse.mpr distinct
  exact findSome?_perm distinct' key (fun a ha => only a (List.mem_reverse.mp ha)) reversed

end Distinct

theorem findSome?_flatMap {α β γ : Type} {f : α → List β} {h : β → Option γ} (l : List α) :
    (l.flatMap f).findSome? h = l.findSome? fun a => (f a).findSome? h := by
  induction l with
  | nil => rfl
  | cons a rest ih =>
    rw [List.flatMap_cons, List.findSome?_append, ih, List.findSome?_cons]
    cases (f a).findSome? h <;> rfl

/-! ## What classes state -/

namespace Heritage

theorem addClause_erase (r : Relations) (keyword : List Char) (names : List RelationTarget) :
    (addClause r keyword names).erase =
      addClause r.erase keyword (names.map RelationTarget.erase) := by
  unfold addClause Relations.erase Relations.map
  split
  · cases names <;> rfl
  · split
    · rw [List.map_append]
    · split
      · rw [List.map_append]
      · rfl

theorem namesOf_erase (clause : List Char) :
    (namesOf clause).map RelationTarget.erase = namesOf clause := by
  unfold namesOf
  rw [List.map_filterMap]
  refine List.filterMap_congr fun name _ => ?_
  split <;> rfl

/-- A declaration gives names and no references. -/
theorem parse_erase (detail : List Char) : (parse detail).erase = parse detail := by
  suffices ∀ (l : List (Cursor × Cursor)) (r : Relations), r.erase = r →
      (addClauses r l).erase = addClauses r l from this _ {} rfl
  intro l
  induction l with
  | nil => exact fun _ h => h
  | cons clause rest ih =>
    obtain ⟨start, stop⟩ := clause
    intro r h
    unfold addClauses
    refine ih _ ?_
    rw [addClause_erase, h, namesOf_erase]

end Heritage

namespace RelationIndex

/-- The relations that a symbol states, if it is a class with the given file and name. -/
def stated? (key : String × String) (s : Symbol) : Option Relations :=
  if s.kind = .classDecl ∧ s.detail ≠ "" ∧ (s.fileId, s.name) = key ∧
      (Heritage.parse s.detail.toList).isEmpty = false then
    some (Heritage.parse s.detail.toList)
  else none

theorem lookup_filter_ne {entries : List ((String × String) × Relations)}
    {key key' : String × String} (h : key ≠ key') :
    (entries.filter fun e => e.1 ≠ key').lookup key = entries.lookup key := by
  induction entries with
  | nil => rfl
  | cons e rest ih =>
    rw [List.filter_cons, List.lookup_cons]
    by_cases he : e.1 = key'
    · rw [if_neg (by simp [he]), ih, he, beq_false_of_ne h]
    · rw [if_pos (by simp [he]), List.lookup_cons, ih]

theorem lookup_insert (x : RelationIndex) (fileId name : String) (r : Relations)
    (key : String × String) : (x.insert fileId name r).entries.lookup key =
      if (fileId, name) = key then some r else x.entries.lookup key := by
  rw [insert, List.lookup_cons]
  by_cases same : key = (fileId, name)
  · rw [same, beq_self_eq_true, if_pos rfl]
  · rw [beq_false_of_ne same, if_neg (Ne.symm same)]
    exact lookup_filter_ne same

theorem lookup_addSymbol (x : RelationIndex) (s : Symbol) (key : String × String) :
    (x.addSymbol s).entries.lookup key = (stated? key s).or (x.entries.lookup key) := by
  unfold addSymbol stated?
  by_cases isClass : s.kind = .classDecl ∧ s.detail ≠ ""
  · rw [if_pos isClass]
    cases empty : (Heritage.parse s.detail.toList).isEmpty with
    | true => simp [empty]
    | false =>
      rw [if_neg (by simp [empty]), lookup_insert]
      by_cases same : (s.fileId, s.name) = key
      · rw [if_pos same, if_pos ⟨isClass.1, isClass.2, same, rfl⟩, Option.some_or]
      · rw [if_neg same, if_neg fun h => same h.2.2.1, Option.none_or]
  · rw [if_neg isClass, if_neg fun h => isClass ⟨h.1, h.2.1⟩, Option.none_or]

theorem lookup_foldl_addSymbol (key : String × String) (symbols : List Symbol) :
    ∀ x : RelationIndex, (symbols.foldl addSymbol x).entries.lookup key =
      (symbols.reverse.findSome? (stated? key)).or (x.entries.lookup key) := by
  induction symbols with
  | nil => exact fun _ => rfl
  | cons s rest ih =>
    intro x
    rw [List.foldl_cons, ih, lookup_addSymbol, List.reverse_cons, List.findSome?_append,
      Option.or_assoc, List.findSome?_singleton]

/-- What is recorded is what is stated last. -/
theorem lookup_ofFiles (files : List SourceFile) (key : String × String) :
    (ofFiles files).entries.lookup key =
      files.reverse.findSome? fun f => f.preorder.reverse.findSome? (stated? key) := by
  rw [ofFiles, lookup_foldl_addSymbol, List.reverse_flatMap, findSome?_flatMap]
  exact Option.or_none

theorem eq_of_stated? {key : String × String} {s : Symbol} {r : Relations}
    (h : stated? key s = some r) : s.fileId = key.1 ∧ r = Heritage.parse s.detail.toList := by
  unfold stated? at h
  split at h
  · rename_i states
    exact ⟨congrArg Prod.fst states.2.2.1, (Option.some.inj h).symm⟩
  · cases h

theorem ofFiles_unresolved (files : List SourceFile) : (ofFiles files).Unresolved := by
  intro fileId name r found
  rw [find?, lookup_ofFiles] at found
  obtain ⟨f, -, found⟩ := List.exists_of_findSome?_eq_some found
  obtain ⟨s, -, states⟩ := List.exists_of_findSome?_eq_some found
  rw [(eq_of_stated? states).2]
  exact Heritage.parse_erase _

/-- In which order the files come does not matter for what is recorded, if no two share an id. -/
theorem find?_ofFiles_perm {files files' : List SourceFile} (perm : files.Perm files')
    (distinct : (files.map SourceFile.fileId).Nodup)
    (own : ∀ f ∈ files, ∀ s ∈ f.preorder, s.fileId = f.fileId) (fileId name : String) :
    (ofFiles files).find? fileId name = (ofFiles files').find? fileId name := by
  rw [find?, find?, lookup_ofFiles, lookup_ofFiles]
  refine findSome?_reverse_perm distinct fileId ?_ perm
  intro f hf r found
  obtain ⟨s, hs, states⟩ := List.exists_of_findSome?_eq_some found
  rw [← own f hf s (List.mem_reverse.mp hs)]
  exact (eq_of_stated? states).1

end RelationIndex

/-! ## Filling in -/

namespace Enrichment

/-- What becomes of a file where no declaration is known. -/
def fillAlone (service : Service) (c : Context) (f : SourceFile) : SourceFile :=
  (closeFile (fileEffect [] service c f).result {}).1

theorem answer_fillIn_erase (definitions : List TypeDefinition) (service : Service) {c : Context}
    (unresolved : c.relations.Unresolved) {r : Resolver} (coherent : r.Coherent definitions)
    {files : List SourceFile} (raw : ∀ f ∈ files, ∀ s ∈ f.preorder, s.Raw f.fileId) :
    ((fillIn c files r).answer service).1.map SourceFile.erase =
      files.map (fillAlone service c) := by
  have go : fillIn c files r = enrichFiles c files r >>= fun a => pure ((closeFiles a.1).1, a.2) :=
    rfl
  obtain ⟨result, -⟩ := enrichFiles_hasEffect definitions service c files r coherent
  rw [go, Inquiry.answer_bind, Inquiry.answer_pure, closeFiles_erase, result, Effect.result_mapM,
    List.map_map]
  refine List.map_congr_left fun f hf => ?_
  have same : f.erase = f :=
    congrArg (SourceFile.mk f.fileId f.text) (eraseTrees_of_raw _ (raw f hf))
  rw [Function.comp_apply, ← fileEffect_erase definitions service unresolved f, same, fillAlone]

section Others

variable {config : Config} {x x' : RelationIndex} {text : String}

theorem lead_congr {s : Symbol} (same : ∀ name, x.find? s.fileId name = x'.find? s.fileId name) :
    lead ⟨config, x, text⟩ s = lead ⟨config, x', text⟩ s := by
  have step : basic ⟨config, x, text⟩ s = basic ⟨config, x', text⟩ s := by
    unfold basic
    dsimp only
    rw [same s.name]
  unfold lead
  rw [step]

variable (service : Service) {fileId : String}

theorem symbolEffect_congr {s : Symbol}
    (same : ∀ name, x.find? s.fileId name = x'.find? s.fileId name) :
    symbolEffect [] service ⟨config, x, text⟩ s = symbolEffect [] service ⟨config, x', text⟩ s := by
  unfold symbolEffect
  rw [lead_congr same]
  rfl

mutual

theorem treeEffect_congr (same : ∀ name, x.find? fileId name = x'.find? fileId name) :
    ∀ t : SymbolTree, (∀ s ∈ t.preorder, s.fileId = fileId) →
      treeEffect [] service ⟨config, x, text⟩ t = treeEffect [] service ⟨config, x', text⟩ t
  | ⟨s, children⟩, own => by
    obtain ⟨hs, hc⟩ := List.forall_mem_cons.mp own
    rw [treeEffect, treeEffect, symbolEffect_congr service (hs ▸ same),
      treesEffect_congr same children hc]

theorem treesEffect_congr (same : ∀ name, x.find? fileId name = x'.find? fileId name) :
    ∀ trees : List SymbolTree, (∀ s ∈ preorderAll trees, s.fileId = fileId) →
      treesEffect [] service ⟨config, x, text⟩ trees =
        treesEffect [] service ⟨config, x', text⟩ trees
  | [], _ => by rw [treesEffect, treesEffect]
  | t :: rest, own => by
    obtain ⟨ht, hr⟩ := List.forall_mem_append.mp own
    rw [treesEffect, treesEffect, treeEffect_congr same t ht, treesEffect_congr same rest hr]

end

end Others

/-- The relations of the classes in other files do not matter. -/
theorem fillAlone_congr (service : Service) {c c' : Context} (config : c'.config = c.config)
    {f : SourceFile} (own : ∀ s ∈ f.preorder, s.fileId = f.fileId)
    (same : ∀ name, c.relations.find? f.fileId name = c'.relations.find? f.fileId name) :
    fillAlone service c f = fillAlone service c' f := by
  have filled : fileEffect [] service c f = fileEffect [] service c' f := by
    unfold fileEffect
    dsimp only
    rw [config, treesEffect_congr service same f.symbols own]
  rw [fillAlone, filled, fillAlone]

/-! Filling in leaves every symbol in its file. -/

theorem lead_fileId (scope : Scope) (s : Symbol) :
    Ends (fun led => led.2.fileId = s.fileId) (lead scope s) := by
  refine .ite_bind' (basicStep_ends scope s) ?_
  rintro s₁ ⟨named, same₁⟩
  refine .ite_bind' (declaredStep_ends named) ?_
  rintro s₂ ⟨-, same₂⟩
  have planned : (planHover scope.config s₂).2.fileId = s₂.fileId := by
    rcases planHover_cases scope.config s₂ with idle | ⟨selection, -, -, planned⟩
    · rw [idle]
    · rw [planned]
  exact .pure' (planned.trans (congrArg Prod.fst (same₂.trans same₁)))

theorem finish_fileId (scope : Scope) (contents : Option String) (s : Symbol) :
    Ends (fun s' => s'.fileId = s.fileId) (finish scope contents s) :=
  (finish_withoutTypes scope contents s).mono fun _ kept =>
    Symbol.eq_of_withoutTypes Symbol.fileId (fun _ => rfl) kept

theorem enrichSymbol_fileId {fileId : String} (scope : Scope) (s : Symbol)
    (own : s.fileId = fileId) :
    Leads (fun _ => True) (fun s' => s'.fileId = fileId) (enrichSymbol scope s) := by
  refine enrichSymbol_leads (fun r _ => ⟨(lead_fileId scope s r).trans own, trivial⟩) ?_
  exact fun contents s₁ r h₁ _ => ⟨(finish_fileId scope contents s₁ r).trans h₁, trivial⟩

theorem closesInto_fileId (fileId : String) : ClosesInto (fun s => s.fileId = fileId) := by
  intro classId members m _ own
  unfold closeMember
  split
  · exact .pure' own
  · split
    · exact .pure' own
    · exact fun _ => own

theorem fillAlone_own (service : Service) (c : Context) {f : SourceFile}
    (own : ∀ s ∈ f.preorder, s.fileId = f.fileId) :
    ∀ s ∈ (fillAlone service c f).preorder, s.fileId = f.fileId := by
  have fresh := Resolver.fresh_coherent []
  have gives := Inquiry.gives_answer service (enrichFile c.config c.relations f (Resolver.fresh []))
  have filled := enrichFile_leads (enrichSymbol_fileId ⟨c.config, c.relations, f.text⟩) own
    _ _ _ trivial gives
  rw [(enrichFile_hasEffect [] service c f _ fresh).1] at filled
  exact closeFile_ends (closesInto_fileId f.fileId) filled.1 {}

end Enrichment

end CodeAtlas
