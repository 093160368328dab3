import CodeAtlas.Package.External
import CodeAtlas.Proofs.Answers
import CodeAtlas.Proofs.Pieces

/-!
The public declarations of packages. The files that are collected are exactly those of entry libraries
of relevant packages that have something public (`mem_externalFiles`). What is kept of a library is
chosen at two levels, among its declarations and among the members of those; what is nested deeper
comes along as the service describes it. So everything in a file is public just if nothing private is
nested in a member that is kept (`external_files_public`).
-/
namespace CodeAtlas

/-! ## Names -/

/-- A leading underscore makes a name private. -/
def IsPrivateName (name : String) : Prop := name.toList.head? = some '_'

instance : DecidablePred IsPrivateName := fun _ => inferInstanceAs (Decidable (_ = _))

theorem isPublicName_iff {name : String} : isPublicName name = true ↔ ¬IsPrivateName name := by
  rw [isPublicName, Bool.not_eq_true', ← Bool.not_eq_true, Text.startsWith_iff, IsPrivateName]
  cases name.toList with
  | nil => simp
  | cons c rest => simp [eq_comm]

/-- A declaration at the top of a library that is worth showing: a public class, enum or function
whose name has more than two characters. -/
structure Symbol.IsShownDeclaration (s : Symbol) : Prop where
  kind : s.kind = .classDecl ∨ s.kind = .enumDecl ∨ s.kind = .function
  isPublic : ¬IsPrivateName s.name
  long : 2 < s.name.length

/-- A member of a declaration that is worth showing: a public one without a trivial word in its
name. -/
structure Symbol.IsShownMember (s : Symbol) : Prop where
  isPublic : ¬IsPrivateName s.name
  telling : ∀ word ∈ trivialMembers, ¬word.toList <:+: s.name.toList

theorem Symbol.isPublicDeclaration_iff {s : Symbol} :
    s.isPublicDeclaration = true ↔ s.IsShownDeclaration := by
  simp only [isPublicDeclaration, Bool.and_eq_true, Bool.or_eq_true, decide_eq_true_eq,
    isPublicName_iff]
  constructor
  · rintro ⟨⟨kind, isPublic⟩, long⟩
    exact ⟨or_assoc.mp kind, isPublic, long⟩
  · rintro ⟨kind, isPublic, long⟩
    exact ⟨⟨or_assoc.mpr kind, isPublic⟩, long⟩

theorem Symbol.isPublicMember_iff {s : Symbol} : s.isPublicMember = true ↔ s.IsShownMember := by
  simp only [isPublicMember, Bool.and_eq_true, Bool.not_eq_true', isPublicName_iff,
    List.any_eq_false, Text.hasPiece_iff]
  exact ⟨fun ⟨isPublic, telling⟩ => ⟨isPublic, telling⟩,
    fun ⟨isPublic, telling⟩ => ⟨isPublic, telling⟩⟩

/-! ## Trees -/

/-- The trees that are kept are those of the declarations that are shown, with the members that are
shown. -/
theorem mem_publicParts {trees : List SymbolTree} {t : SymbolTree} :
    t ∈ publicParts trees ↔ ∃ t₀ ∈ trees, t₀.symbol.IsShownDeclaration ∧ t.symbol = t₀.symbol ∧
      t.children = t₀.children.filter fun m => m.symbol.isPublicMember := by
  simp only [publicParts, List.mem_map, List.mem_filter, Symbol.isPublicDeclaration_iff, and_assoc]
  refine exists_congr fun t₀ => and_congr_right fun _ => and_congr_right fun _ => ?_
  obtain ⟨s, children⟩ := t
  rw [SymbolTree.publicPart, SymbolTree.mk.injEq]
  exact and_congr eq_comm eq_comm

section PublicParts

variable {trees : List SymbolTree} {t : SymbolTree}

theorem shown_of_mem_publicParts (h : t ∈ publicParts trees) :
    t.symbol.IsShownDeclaration ∧ ∀ m ∈ t.children, m.symbol.IsShownMember := by
  obtain ⟨t₀, -, shown, symbol, children⟩ := mem_publicParts.mp h
  refine ⟨symbol ▸ shown, fun m hm => ?_⟩
  rw [children, List.mem_filter] at hm
  exact Symbol.isPublicMember_iff.mp hm.2

/-- The symbols of trees that are nested in members, at any depth. -/
def nestedInMembers (trees : List SymbolTree) : List Symbol :=
  trees.flatMap fun t => t.children.flatMap fun m => preorderAll m.children

theorem mem_preorderAll {trees : List SymbolTree} {s : Symbol} : s ∈ preorderAll trees ↔
    ∃ t ∈ trees, s = t.symbol ∨ s ∈ preorderAll t.children := by
  induction trees with
  | nil => simp [preorderAll]
  | cons t rest ih =>
    obtain ⟨root, children⟩ := t
    rw [preorderAll, SymbolTree.preorder, List.mem_append, List.mem_cons, ih,
      List.exists_mem_cons_iff]

/-- What is kept is public, except for what is nested in members. -/
theorem public_iff_nested (trees : List SymbolTree) :
    (∀ s ∈ preorderAll (publicParts trees), ¬IsPrivateName s.name) ↔
      ∀ s ∈ nestedInMembers (publicParts trees), ¬IsPrivateName s.name := by
  constructor
  · intro all s hs
    obtain ⟨t, ht, hs⟩ := List.mem_flatMap.mp hs
    obtain ⟨m, hm, hs⟩ := List.mem_flatMap.mp hs
    refine all s (mem_preorderAll.mpr ⟨t, ht, .inr ?_⟩)
    exact mem_preorderAll.mpr ⟨m, hm, .inr hs⟩
  · intro nested s hs
    obtain ⟨t, ht, rfl | hs⟩ := mem_preorderAll.mp hs
    · exact (shown_of_mem_publicParts ht).1.isPublic
    · obtain ⟨m, hm, rfl | hs⟩ := mem_preorderAll.mp hs
      · exact ((shown_of_mem_publicParts ht).2 m hm).isPublic
      · exact nested s (List.mem_flatMap.mpr ⟨t, ht, List.mem_flatMap.mpr ⟨m, hm, hs⟩⟩)

end PublicParts

/-! ## Files -/

/-- The file holds what is shown of the library at a path, as a service describes it. -/
structure SourceFile.Shows (disk : Disk) (service : Service) (path : String) (file : SourceFile) :
    Prop where
  uri : FileUri.ofPath? path.toList = some file.fileId.toList
  text : file.text = String.ofList ((disk.text? path.toList).getD [])
  described : ∃ raw, service (.symbols file.fileId) = some raw ∧
    file.symbols = publicParts (symbolsOfRaw file.fileId raw)

theorem publicLibrary_answer {disk : Disk} {service : Service} {path : String}
    {file : SourceFile} :
    (publicLibrary disk path).answer service = some file ↔ file.Shows disk service path := by
  unfold publicLibrary
  cases located : FileUri.ofPath? path.toList with
  | none =>
    refine iff_of_false nofun fun shows => ?_
    exact nomatch located.symm.trans shows.uri
  | some uri =>
    simp only [Inquiry.answer_bind, Inquiry.answer_query]
    constructor
    · intro found
      cases answered : service (.symbols (String.ofList uri)) with
      | none => simp [answered] at found
      | some raw =>
        simp only [answered, Inquiry.answer_pure, Option.some.injEq] at found
        subst found
        exact ⟨by rw [located, String.toList_ofList], rfl, raw, answered, rfl⟩
    · rintro ⟨same, text, raw, answered, symbols⟩
      obtain ⟨fileId, text', symbols'⟩ := file
      obtain rfl : String.ofList uri = fileId := by
        rw [Option.some.inj (located.symm.trans same), String.ofList_toList]
      simp only [answered, Inquiry.answer_pure]
      rw [← text, ← symbols]

/-- The files that are collected are those of the entry libraries of relevant packages, as far as
the service describes them and something of them is shown. -/
theorem mem_externalFiles {disk : Disk} {packages : List Package} {f : Filters} {service : Service}
    {file : SourceFile} : file ∈ (externalFiles disk packages f).answer service ↔
      file.symbols ≠ [] ∧ ∃ p ∈ packages, p.isRelevant f = true ∧ p.hasLibrary = true ∧
        ∃ path, p.entryLibrary? = some path ∧ file.Shows disk service path := by
  simp only [externalFiles, Inquiry.answer_bind, Inquiry.answer_mapM, Inquiry.answer_pure,
    List.filterMap_map, List.mem_filter, List.mem_filterMap, entryLibraries, relevantPackages,
    Function.comp, id, publicLibrary_answer, Bool.not_eq_true', List.isEmpty_eq_false_iff]
  rw [and_comm]
  refine and_congr_right fun _ => ?_
  constructor
  · rintro ⟨path, ⟨p, ⟨⟨listed, relevant⟩, library⟩, entered⟩, shows⟩
    exact ⟨p, listed, relevant, library, path, entered, shows⟩
  · rintro ⟨p, listed, relevant, library, path, entered, shows⟩
    exact ⟨path, ⟨p, ⟨⟨listed, relevant⟩, library⟩, entered⟩, shows⟩

/-- The files that are collected are those of the entry libraries of relevant packages, as far as the
service describes them and something of them is shown. In each of them the declarations and their
members are public and worth showing, and nothing in it is private, at any depth, just if nothing
private is nested in a member. -/
theorem external_files_public (disk : Disk) (packages : List Package) (f : Filters)
    (service : Service) (file : SourceFile) :
    (file ∈ (externalFiles disk packages f).answer service ↔
      file.symbols ≠ [] ∧ ∃ p ∈ packages, p.isRelevant f = true ∧ p.hasLibrary = true ∧
        ∃ path, p.entryLibrary? = some path ∧ file.Shows disk service path) ∧
    (file ∈ (externalFiles disk packages f).answer service →
      (∀ t ∈ file.symbols, t.symbol.IsShownDeclaration ∧
        ∀ m ∈ t.children, m.symbol.IsShownMember) ∧
      ((∀ s ∈ file.preorder, ¬IsPrivateName s.name) ↔
        ∀ s ∈ nestedInMembers file.symbols, ¬IsPrivateName s.name)) := by
  refine ⟨mem_externalFiles, fun collected => ?_⟩
  obtain ⟨-, p, -, -, -, path, -, shows⟩ := mem_externalFiles.mp collected
  obtain ⟨raw, -, symbols⟩ := shows.described
  rw [SourceFile.preorder, symbols]
  exact ⟨fun t => shown_of_mem_publicParts, public_iff_nested _⟩

/-- A package with its library. -/
def toolkit : Package :=
  ⟨"toolkit", "/cache/toolkit", "1.0.0", .thirdParty, ["/cache/toolkit/lib/toolkit.dart"], true, false,
    none⟩

/-- A class and a function too short to be shown. The class has a method, in which a private function
is nested, and a private field. -/
def toolkitSymbols : List RawSymbol := [
  { name := "Hammer", kind := 5, children := [
    { name := "strike", kind := 6, children := [{ name := "_swing", kind := 12 }] },
    { name := "_weight", kind := 8 }] },
  { name := "go", kind := 12 }]

def toolkitId : String := "file:///cache/toolkit/lib/toolkit.dart"

/-- A service that knows the symbols of the library. -/
def toolkitService : Service
  | .symbols fileId => if fileId = toolkitId then some toolkitSymbols else none
  | _ => none

/-- What is collected of the package. -/
def toolkitFile : SourceFile where
  fileId := toolkitId
  symbols := publicParts (symbolsOfRaw toolkitId toolkitSymbols)

theorem external_files_public_toolkit :
    toolkitFile ∈ (externalFiles {} [toolkit] {}).answer toolkitService ∧
    toolkitFile.preorder.map Symbol.name = ["Hammer", "strike", "_swing"] ∧
    ∀ t ∈ toolkitFile.symbols, t.symbol.IsShownDeclaration ∧
      ∀ m ∈ t.children, m.symbol.IsShownMember := by
  obtain ⟨collected, shown⟩ := external_files_public {} [toolkit] {} toolkitService toolkitFile
  have no_text : ({} : Disk).text? "/cache/toolkit/lib/toolkit.dart".toList = none := by
    have names : Disk.pieces "/cache/toolkit/lib/toolkit.dart".toList =
        ["", "cache", "toolkit", "lib", "toolkit.dart"] := by decide +kernel
    have nowhere : ({} : Disk).locate true "/cache/toolkit/lib/toolkit.dart".toList = none := by
      rw [Disk.locate, names, Disk.locateFrom, Disk.locateFrom]
      rfl
    rw [Disk.text?, Disk.entry?, nowhere]
    rfl
  have there : toolkitFile ∈ (externalFiles {} [toolkit] {}).answer toolkitService := by
    refine collected.mpr ⟨by decide +kernel, toolkit, List.mem_singleton_self _, rfl, rfl,
      "/cache/toolkit/lib/toolkit.dart", by decide +kernel, by decide +kernel, ?_, ?_⟩
    · rw [no_text]
      rfl
    · exact ⟨toolkitSymbols, rfl, rfl⟩
  exact ⟨there, by decide +kernel, (shown there).1⟩

/-- A private function that is nested in a method is collected with it. -/
theorem nested_private_symbol_collected :
    ∃ file ∈ (externalFiles {} [toolkit] {}).answer toolkitService,
      ∃ s ∈ file.preorder, IsPrivateName s.name := by
  have names : ((externalFiles {} [toolkit] {}).answer toolkitService).flatMap
      (fun file => file.preorder.map Symbol.name) = ["Hammer", "strike", "_swing"] := by
    decide +kernel
  have swing : "_swing" ∈ ((externalFiles {} [toolkit] {}).answer toolkitService).flatMap
      (fun file => file.preorder.map Symbol.name) := by
    rw [names]
    decide
  obtain ⟨file, collected, named⟩ := List.mem_flatMap.mp swing
  obtain ⟨s, hs, name⟩ := List.mem_map.mp named
  exact ⟨file, collected, s, hs, name ▸ rfl⟩

end CodeAtlas
