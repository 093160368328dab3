import CodeAtlas.Proofs.Descriptions
import CodeAtlas.Proofs.Failures
import CodeAtlas.Proofs.Parents
import Mathlib.Data.List.DropRight

/-!
What an analysis reports as wrong. The symbol around another one is looked up by an id that symbols
of any file may share, and the one that was seen last is found. Between a symbol and those directly in
it only symbols of the same file are seen, though, and with the file an id tells a name and a kind
(`symbolUniqueId_inj`). So what is found stands for the symbol around (`Seen.Stands`), and the errors
are those that the raw descriptions call for (`analysis_errors`).
-/
namespace CodeAtlas

/-! ## What ids tell -/

/-- The number behind the last mark of an id. -/
def kindNumberOfId (id : String) : Nat := Nat.ofDigitChars 10 (id.toList.rtakeWhile (· ≠ '#')) 0

theorem kindNumberOfId_uniqueId (fileId name : String) (kind : SymbolKind) :
    kindNumberOfId (symbolUniqueId fileId name kind) = kind.code.toNat := by
  have digits : ∀ c ∈ (Nat.toDigits 10 kind.code.toNat).reverse, decide (c ≠ '#') = true := by
    intro c hc
    have digit := Nat.isDigit_of_mem_toDigits (by decide) (by decide) (List.mem_reverse.mp hc)
    exact decide_eq_true fun mark => absurd (mark ▸ digit) (by decide)
  have last : (symbolUniqueId fileId name kind).toList.rtakeWhile (· ≠ '#') =
      Nat.toDigits 10 kind.code.toNat := by
    unfold symbolUniqueId List.rtakeWhile
    simp only [String.toList_append, Nat.toString_eq_repr, Nat.toList_repr, List.reverse_append,
      List.append_assoc]
    rw [List.takeWhile_append_of_pos digits]
    simp
  rw [kindNumberOfId, last, Nat.ofDigitChars_toDigits (by decide) (by decide)]

/-- The id that a symbol has in a file. -/
def RawSymbol.idIn (fileId : String) (r : RawSymbol) : String :=
  symbolUniqueId fileId r.name (.ofCode r.kind)

/-- Within a file an id tells a name and a kind, whatever marks the name holds. -/
theorem RawSymbol.idIn_inj {fileId : String} {r r' : RawSymbol}
    (same : r.idIn fileId = r'.idIn fileId) : r.name = r'.name ∧ r.kind = r'.kind := by
  have kinds : r.kind = r'.kind := by
    have numbers := congrArg kindNumberOfId same
    simp only [idIn, kindNumberOfId_uniqueId, SymbolKind.code_ofCode] at numbers
    exact UInt32.toNat_inj.mp numbers
  refine ⟨?_, kinds⟩
  rw [idIn, idIn, kinds] at same
  simpa [symbolUniqueId] using same

theorem RawSymbol.isConstructor_iff (r : RawSymbol) :
    SymbolKind.ofCode r.kind = .constructor ↔ r.kind = 9 := by
  refine ⟨fun h => ?_, fun h => h ▸ rfl⟩
  rw [← SymbolKind.code_ofCode r.kind, h]
  rfl

theorem RawSymbol.isClass_iff (r : RawSymbol) :
    SymbolKind.ofCode r.kind = .classDecl ↔ r.kind = 5 := by
  refine ⟨fun h => ?_, fun h => h ▸ rfl⟩
  rw [← SymbolKind.code_ofCode r.kind, h]
  rfl

/-! ## Misplaced constructors -/

mutual

/-- The pairs of a symbol and one directly in it, anywhere in the symbol described. -/
def RawSymbol.nestings : RawSymbol → List (RawSymbol × RawSymbol)
  | r@⟨_, _, _, _, _, children⟩ => nestingsIn (some r) children

/-- The pairs of a symbol and one directly in it, for symbols described and the one around them. -/
def nestingsIn (around : Option RawSymbol) : List RawSymbol → List (RawSymbol × RawSymbol)
  | [] => []
  | r :: rest => (around.map (·, r)).toList ++ (r.nestings ++ nestingsIn around rest)

end

/-- Whether a constructor (kind 9) is directly in something that is no class (kind 5). -/
def isMisplaced (nesting : RawSymbol × RawSymbol) : Bool :=
  nesting.2.kind = 9 && nesting.1.kind ≠ 5

/-- What is wrong with a misplaced constructor. -/
def misplacedFinding (nesting : RawSymbol × RawSymbol) : Finding :=
  .notInClass nesting.2.name nesting.1.name

/-- The constructors of a forest that are directly in something that is no class, each behind what it
is in. -/
def misplacedConstructors (forest : List RawSymbol) : List (RawSymbol × RawSymbol) :=
  (nestingsIn none forest).filter isMisplaced

/-- The errors among findings are the misplaced constructors among nestings, in order. -/
def Blames (nestings : List (RawSymbol × RawSymbol)) (findings : List Finding) : Prop :=
  findings.filter Finding.isError = (nestings.filter isMisplaced).map misplacedFinding

theorem Blames.append {nestings nestings' : List (RawSymbol × RawSymbol)}
    {findings findings' : List Finding} (h : Blames nestings findings)
    (h' : Blames nestings' findings') : Blames (nestings ++ nestings') (findings ++ findings') := by
  unfold Blames at *
  rw [List.filter_append, List.filter_append, List.map_append, h, h']

/-! ## Symbols that were seen -/

namespace Seen

variable {fileId : String} {seen : Seen}

/-- By the id of the symbol in the file something with its name and kind is found. -/
def Knows (fileId : String) (seen : Seen) (r : RawSymbol) : Prop :=
  ∃ t, seen.lookup (r.idIn fileId) = some t ∧ t.symbol.name = r.name ∧
    t.symbol.kind = .ofCode r.kind

/-- A symbol is known once it is seen, and another of its file does not hide those known before. -/
theorem knows_push (seen : Seen) {s : Symbol} {r : RawSymbol} {parentId : Option String}
    (own : s.described = r.own fileId parentId) (members : List SymbolTree) :
    Knows fileId ((s.uniqueId, ⟨s, members⟩) :: seen) r ∧
      ∀ r', seen.Knows fileId r' → Knows fileId ((s.uniqueId, ⟨s, members⟩) :: seen) r' := by
  have uniqueId : s.uniqueId = r.idIn fileId := congrArg Symbol.uniqueId own
  have name : s.name = r.name := congrArg Symbol.name own
  have kind : s.kind = .ofCode r.kind := congrArg Symbol.kind own
  have first : ∀ id, id = s.uniqueId →
      List.lookup id ((s.uniqueId, (⟨s, members⟩ : SymbolTree)) :: seen) = some ⟨s, members⟩ := by
    rintro id rfl
    rw [List.lookup_cons, beq_self_eq_true]
  refine ⟨⟨_, first _ uniqueId.symm, name, kind⟩, fun r' known => ?_⟩
  by_cases same : r'.idIn fileId = s.uniqueId
  · obtain ⟨names, kinds⟩ := RawSymbol.idIn_inj (same.trans uniqueId)
    exact ⟨_, first _ same, name.trans names.symm, by rw [kinds]; exact kind⟩
  · obtain ⟨t, found, described⟩ := known
    refine ⟨t, ?_, described⟩
    rw [List.lookup_cons, beq_false_of_ne same]
    exact found

/-- The id stands for the symbol around, if there is one: it is the id of that symbol, by which
something with its name and kind is found. -/
inductive Stands (fileId : String) (seen : Seen) : Option String → Option RawSymbol → Prop where
  | top : Stands fileId seen none none
  | inside {r : RawSymbol} (known : seen.Knows fileId r) :
      Stands fileId seen (some (r.idIn fileId)) (some r)

theorem Stands.mono {parentId : Option String} {around : Option RawSymbol} {after : Seen}
    (h : seen.Stands fileId parentId around)
    (keeps : ∀ r, seen.Knows fileId r → after.Knows fileId r) :
    after.Stands fileId parentId around := by
  cases h with
  | top => exact .top
  | inside known => exact .inside (keeps _ known)

end Seen

/-! ## Findings -/

theorem constructorFindings_errors (c : Symbol) (parent : SymbolTree) :
    (constructorFindings c parent).filter Finding.isError =
      if parent.symbol.kind = .classDecl then [] else [.notInClass c.name parent.symbol.name] := by
  have warnings : ∀ fields : List String, (fields.map fun f =>
      Finding.unknownField c.name f parent.symbol.name).filter Finding.isError = [] := by
    intro fields
    rw [List.filter_eq_nil_iff, List.forall_mem_map]
    exact fun f _ => Bool.false_ne_true
  unfold constructorFindings
  rw [List.filter_append, warnings, List.append_nil]
  split <;> rfl

section Walk

variable {fileId : String}

/-- Only a constructor is an error, and only for the kind of the symbol around it. -/
theorem symbolFindings_blames {seen : Seen} {parentId : Option String} {around : Option RawSymbol}
    (stands : seen.Stands fileId parentId around) {s : Symbol} {r : RawSymbol}
    (own : s.described = r.own fileId parentId) :
    Blames (around.map (·, r)).toList (symbolFindings seen s) := by
  have name : s.name = r.name := congrArg Symbol.name own
  have kind : s.kind = .ofCode r.kind := congrArg Symbol.kind own
  have parent : s.parentId = parentId := congrArg Symbol.parentId own
  have isConstructor : s.kind = .constructor ↔ r.kind = 9 := kind ▸ r.isConstructor_iff
  have warned : (if s.kind = .constructor ∧ s.parameters.isNone ∧ s.detail ≠ "" then
      [Finding.noParameters s.name] else []).filter Finding.isError = [] := by
    split <;> rfl
  unfold Blames symbolFindings
  rw [List.filter_append, warned, List.nil_append, parent]
  cases stands with
  | top => rfl
  | @inside p known =>
    obtain ⟨t, found, names, kinds⟩ := known
    have errors : (constructorFindings s t).filter Finding.isError =
        if p.kind = 5 then [] else [.notInClass r.name p.name] := by
      rw [constructorFindings_errors, name, names, kinds]
      exact if_congr p.isClass_iff rfl rfl
    simp only [found, Option.map_some, Option.toList_some]
    by_cases constructor : r.kind = 9
    · rw [if_pos (isConstructor.mpr constructor), errors]
      by_cases inClass : p.kind = 5
      · simp [isMisplaced, inClass]
      · simp [isMisplaced, constructor, inClass, misplacedFinding]
    · rw [if_neg (mt isConstructor.mp constructor)]
      simp [isMisplaced, constructor]

mutual

theorem treeFindings_blames : ∀ (r : RawSymbol) (t : SymbolTree) (seen : Seen)
    (parentId : Option String) (around : Option RawSymbol),
    seen.Stands fileId parentId around → t.described = r.toTree fileId parentId →
    Blames ((around.map (·, r)).toList ++ r.nestings) (treeFindings seen t).1 ∧
      ∀ r', seen.Knows fileId r' → (treeFindings seen t).2.Knows fileId r'
  | ⟨name, kind, detail, range, selection, children⟩, ⟨s, members⟩, seen, parentId, around,
      stands, h => by
    obtain ⟨own, below⟩ := described_eq_toTree h
    obtain ⟨known, keeps⟩ := Seen.knows_push seen own members
    have uniqueId : s.uniqueId = RawSymbol.idIn fileId _ := congrArg Symbol.uniqueId own
    obtain ⟨found, after⟩ := treesFindings_blames children members
      ((s.uniqueId, ⟨s, members⟩) :: seen) _ _ (.inside known) (uniqueId ▸ below)
    rw [treeFindings, RawSymbol.nestings]
    exact ⟨(symbolFindings_blames (stands.mono keeps) own).append found,
      fun r' before => after r' (keeps r' before)⟩

theorem treesFindings_blames : ∀ (raw : List RawSymbol) (trees : List SymbolTree) (seen : Seen)
    (parentId : Option String) (around : Option RawSymbol),
    seen.Stands fileId parentId around → describedTrees trees = toTrees fileId parentId raw →
    Blames (nestingsIn around raw) (treesFindings seen trees).1 ∧
      ∀ r', seen.Knows fileId r' → (treesFindings seen trees).2.Knows fileId r'
  | [], trees, seen, parentId, around, stands, h => by
    cases trees with
    | nil => exact ⟨rfl, fun _ known => known⟩
    | cons t rest => simp [describedTrees, toTrees] at h
  | r :: raw, trees, seen, parentId, around, stands, h => by
    cases trees with
    | nil => simp [describedTrees, toTrees] at h
    | cons t rest =>
      rw [describedTrees, toTrees, List.cons.injEq] at h
      obtain ⟨found, after⟩ := treeFindings_blames r t seen parentId around stands h.1
      obtain ⟨more, last⟩ :=
        treesFindings_blames raw rest _ parentId around (stands.mono after) h.2
      rw [treesFindings, nestingsIn, ← List.append_assoc]
      exact ⟨found.append more, fun r' before => last r' (after r' before)⟩

end

end Walk

theorem treesFindings_append (trees more : List SymbolTree) : ∀ seen : Seen,
    treesFindings seen (trees ++ more) =
      ((treesFindings seen trees).1 ++ (treesFindings (treesFindings seen trees).2 more).1,
        (treesFindings (treesFindings seen trees).2 more).2) := by
  induction trees with
  | nil => exact fun seen => rfl
  | cons t rest ih =>
    intro seen
    simp only [List.cons_append, treesFindings, ih, List.append_assoc]

theorem filesFindings_blames {forests : List (List RawSymbol)} {files : List SourceFile}
    (h : List.Forall₂ SourceFile.DescribedAs forests files) : ∀ seen : Seen,
    Blames (forests.flatMap (nestingsIn none))
      (treesFindings seen (files.flatMap SourceFile.symbols)).1 := by
  induction h with
  | nil => exact fun _ => rfl
  | @cons raw f forests files described _ ih =>
    intro seen
    have found := (treesFindings_blames raw f.symbols seen none none .top described).1
    rw [List.flatMap_cons, List.flatMap_cons, treesFindings_append]
    exact found.append (ih _)

/-! ## A whole analysis -/

theorem graphOfFiles_report {c : Config} {root : Option String} {packages : List Package}
    {files external : List SourceFile} {g : Graph}
    (h : (graphOfFiles c root packages files external).Gives g) : g.report = {} := by
  obtain ⟨b, orderly, rfl⟩ := graphOfFiles_orderly h
  obtain ⟨nested, ids⟩ := orderly.withDegrees
  refine Graph.report_eq_empty (fun n hn p hp => ?_) fun e he => ?_
  · exact Graph.hasNode_iff.mpr (nested.known n hn p hp)
  · rw [Graph.hasNode_iff, Graph.hasNode_iff, ids]
    exact orderly.kept.ends_known e he

/-- An analysis that a service answers comes about from the files as that service has them loaded. -/
theorem answer_analyze_run {service : Service} {disk : Disk} {config : Config}
    {root : Option String} {given : List GivenFile} {a : Analysis}
    (h : (analyze disk config root given).answer service = .ok a) :
    ∃ external resolver,
      AnalysisRun disk config root given (loadedFiles service given) external resolver a := by
  have sound : config.fault? = none :=
    fault?_of_ok (h ▸ Inquiry.gives_answer service (analyze disk config root given))
  have loads := Inquiry.gives_answer service (given.mapM GivenFile.load)
  rw [analyze_of_sound sound, Except.ok.injEq, analyzeSound, Inquiry.answer_bind] at h
  rw [Inquiry.answer_mapM] at loads h
  exact analyzeLoaded_run loads (h ▸ Inquiry.gives_answer service _)

/-- The errors that an analysis reports are one for each constructor that is directly in something
that is no class, in order, in the symbols that came with the files or that the service answers. The
symbol around another one is never unknown, though many symbols may share an id, and nothing is
reported about the graph. The symbols of the files are as they were described. -/
theorem analysis_errors (service : Service) (disk : Disk) (config : Config) (root : Option String)
    (given : List GivenFile) (a : Analysis)
    (h : (analyze disk config root given).answer service = .ok a) :
    let forests := given.map (GivenFile.forest service)
    a.graph.report = {} ∧
    List.Forall₂ SourceFile.DescribedAs forests a.files ∧
    a.report.errors = (forests.flatMap misplacedConstructors).map fun nesting =>
      (misplacedFinding nesting).message := by
  intro forests
  obtain ⟨external, resolver, run⟩ := answer_analyze_run h
  have clean := graphOfFiles_report run.builds
  have described := loadedFiles_described service given
  have kept := (Enrichment.fillIn_described described _ _ _ trivial run.fillsIn).1
  have blamed := filesFindings_blames kept []
  refine ⟨clean, kept, ?_⟩
  calc a.report.errors = (filesReport a.files).errors := by
        rw [run.report, clean, Report.merge, List.append_nil]
    _ = ((forests.flatMap (nestingsIn none)).filter isMisplaced).map fun nesting =>
          (misplacedFinding nesting).message := by
        rw [filesReport, Report.ofFindings, blamed, List.map_map]
        rfl
    _ = _ := by
        rw [List.filter_flatMap]
        rfl

/-- A symbol with a constructor in it. -/
def holding (name : String) (kind : UInt32) (constructor : String) : RawSymbol :=
  { name, kind, children := [{ name := constructor, kind := 9 }] }

/-- Three files, of which the last came with its symbols, a class with a constructor. -/
def colorFiles : List GivenFile :=
  [{ fileId := "a", text := "" }, { fileId := "a#b", text := "" },
    { fileId := "c", text := "", symbols := some [holding "Paint" 5 "Paint"] }]

/-- In the first two files the service sees an enum of the same id each, `a#b#Color#10`, and a
constructor in it. -/
def colorService : Service
  | .symbols "a" => some [holding "b#Color" 10 "red"]
  | .symbols "a#b" => some [holding "Color" 10 "blue"]
  | _ => none

/-- Each constructor in an enum is reported with its own enum. -/
theorem analysis_errors_colors :
    ∃ a, (analyze {} {} none colorFiles).answer colorService = .ok a ∧
      a.files.map (fun f => f.preorder.map Symbol.uniqueId) = [
        ["a#b#Color#10", "a#red#9"], ["a#b#Color#10", "a#b#blue#9"], ["c#Paint#5", "c#Paint#9"]] ∧
      a.report.errors = ["Constructor 'red' belongs to 'b#Color', which is not a class",
        "Constructor 'blue' belongs to 'Color', which is not a class"] := by
  have sound := analyze_of_sound (show Config.fault? {} = none by decide) {} none colorFiles
    colorService
  obtain ⟨-, -, errors⟩ := analysis_errors colorService {} {} none colorFiles _ sound
  refine ⟨_, sound, by decide +kernel, ?_⟩
  rw [errors]
  decide +kernel

end CodeAtlas
