import CodeAtlas.Proofs.ClosedConstructors
import CodeAtlas.Proofs.Pieces
import CodeAtlas.Proofs.Reports

/-!
The two checks of the links from symbols to the symbols that enclose them. Closing and validation walk
through the same symbols and look each link up among the ids met so far, but closing starts anew in
every file and validation goes on through all of them. So each link is listed with the ids met on the
way to it, those of its own file and those of the files before (`parentLinks`). Closing itself adds
links, though none that leaves its file, and the checks differ by the links that lead back to an
earlier file (`parent_links_counted`).
-/
namespace CodeAtlas

/-! ## Links -/

/-- A link from a symbol to the one that is said to enclose it, with the ids met on the way to it,
latest first: those in its own file, that of the symbol among them, and those in the files before. -/
structure ParentLink where
  symbol : String
  target : String
  own : List String
  earlier : List String
  deriving DecidableEq, Repr

namespace ParentLink

/-- Whether the link leads to nothing that was met in its own file. -/
def leavesFile (l : ParentLink) : Bool := l.target ∉ l.own

/-- Whether the link leaves its file for one of those before. -/
def leadsBack (l : ParentLink) : Bool := l.leavesFile && l.target ∈ l.earlier

/-- Whether the link leads to nothing that was met at all. -/
def isUnknown (l : ParentLink) : Bool := l.leavesFile && l.target ∉ l.earlier

/-- What is wrong with a link that leads nowhere. -/
def finding (l : ParentLink) : Finding := .unknownEnclosing l.symbol l.target

end ParentLink

/-- The link of a symbol, if it names a symbol that encloses it. -/
def Symbol.link? (own earlier : List String) (s : Symbol) : Option ParentLink :=
  s.parentId.map fun target => ⟨s.name, target, own, earlier⟩

/-- The ids of symbols, latest first. -/
def idsMet (symbols : List Symbol) : List String := (symbols.map Symbol.uniqueId).reverse

/-- The links of symbols of one file, in order. -/
def linksOf (earlier own : List String) : List Symbol → List ParentLink
  | [] => []
  | s :: rest =>
    (s.link? (s.uniqueId :: own) earlier).toList ++ linksOf earlier (s.uniqueId :: own) rest

/-- The links in files, in order. -/
def parentLinks (earlier : List String) : List SourceFile → List ParentLink
  | [] => []
  | f :: rest => linksOf earlier [] f.preorder ++ parentLinks (idsMet f.preorder ++ earlier) rest

theorem idsMet_cons (s : Symbol) (rest : List Symbol) (own : List String) :
    idsMet (s :: rest) ++ own = idsMet rest ++ s.uniqueId :: own := by
  simp [idsMet]

theorem idsMet_append (a b : List Symbol) : idsMet (a ++ b) = idsMet b ++ idsMet a := by
  simp [idsMet]

theorem linksOf_append (earlier : List String) (a b : List Symbol) : ∀ own : List String,
    linksOf earlier own (a ++ b) = linksOf earlier own a ++ linksOf earlier (idsMet a ++ own) b := by
  induction a with
  | nil => exact fun _ => rfl
  | cons s a ih =>
    intro own
    rw [List.cons_append, linksOf, linksOf, ih, List.append_assoc, idsMet_cons]

theorem countP_leavesFile (s : Symbol) (own earlier : List String) :
    (s.link? own earlier).toList.countP ParentLink.leavesFile =
      if s.parentId.all own.contains then 0 else 1 := by
  cases named : s.parentId with
  | none => simp [Symbol.link?, named]
  | some target =>
    by_cases met : target ∈ own <;> simp [Symbol.link?, named, ParentLink.leavesFile, met]

/-! ## Links that leave a file -/

namespace Enrichment

/-- The links that leave the file are counted, whatever was met before it. -/
theorem brokenLinks_eq (earlier : List String) (symbols : List Symbol) : ∀ own : List String,
    brokenLinks own symbols = (linksOf earlier own symbols).countP ParentLink.leavesFile := by
  induction symbols with
  | nil => exact fun _ => rfl
  | cons s rest ih =>
    intro own
    rw [brokenLinks, linksOf, List.countP_append, countP_leavesFile, ih]

/-- The computation finds no broken link. -/
def KeepsLinks {α : Type} (x : StateM FieldTypeCounts α) : Prop :=
  ∀ n, (x n).2.brokenParentLinks = n.brokenParentLinks

namespace KeepsLinks

variable {α β : Type}

theorem pure' (a : α) : KeepsLinks (pure a : StateM FieldTypeCounts α) := fun _ => rfl

theorem bind' {x : StateM FieldTypeCounts α} {f : α → StateM FieldTypeCounts β}
    (hx : KeepsLinks x) (hf : ∀ a, KeepsLinks (f a)) : KeepsLinks (x >>= f) :=
  fun n => (hf (x n).1 (x n).2).trans (hx n)

theorem mapM' {f : α → StateM FieldTypeCounts β} (hf : ∀ a, KeepsLinks (f a)) (as : List α) :
    KeepsLinks (as.mapM f) := by
  induction as with
  | nil => exact pure' []
  | cons a rest ih =>
    rw [List.mapM_cons]
    exact bind' (hf a) fun b => bind' ih fun bs => pure' _

end KeepsLinks

theorem closeParameter_keepsLinks (members : List SymbolTree) (p : Parameter) :
    KeepsLinks (closeParameter members p) := by
  unfold closeParameter
  split
  · exact .pure' p
  · unfold closeField
    split <;> exact fun _ => rfl

theorem closeMember_keepsLinks (classId : String) (members : List SymbolTree) (m : SymbolTree) :
    KeepsLinks (closeMember classId members m) := by
  unfold closeMember
  split
  · exact .pure' m
  · split
    · exact .pure' m
    · exact .bind' (.mapM' (closeParameter_keepsLinks members) _) fun _ => .pure' _

theorem closeMembers_keepsLinks (s : Symbol) (members : List SymbolTree) :
    KeepsLinks (closeMembers s members) := by
  unfold closeMembers
  split
  · exact .mapM' (closeMember_keepsLinks s.uniqueId members) members
  · exact .pure' members

mutual

theorem closeTree_keepsLinks : ∀ t : SymbolTree, KeepsLinks (closeTree t)
  | ⟨s, children⟩ => by
    rw [closeTree]
    refine .bind' (closeTrees_keepsLinks children) fun closed => ?_
    exact .bind' (closeMembers_keepsLinks s closed) fun _ => .pure' _

theorem closeTrees_keepsLinks : ∀ trees : List SymbolTree, KeepsLinks (closeTrees trees)
  | [] => by
    rw [closeTrees]
    exact .pure' []
  | t :: rest => by
    rw [closeTrees]
    refine .bind' (closeTree_keepsLinks t) fun _ => ?_
    exact .bind' (closeTrees_keepsLinks rest) fun _ => .pure' _

end

theorem closeFile_brokenLinks (f : SourceFile) (n : FieldTypeCounts) :
    (closeFile f n).2.brokenParentLinks =
      n.brokenParentLinks + brokenLinks [] (closeFile f n).1.preorder :=
  congrArg (· + _) (closeTrees_keepsLinks f.symbols n)

/-- The broken links that are counted are those of the closed files. -/
theorem mapM_closeFile_brokenLinks (files : List SourceFile) : ∀ (n : FieldTypeCounts)
    (earlier : List String), (files.mapM closeFile n).2.brokenParentLinks =
      n.brokenParentLinks +
        (parentLinks earlier (files.mapM closeFile n).1).countP ParentLink.leavesFile := by
  induction files with
  | nil => exact fun _ _ => rfl
  | cons f rest ih =>
    intro n earlier
    have first := closeFile_brokenLinks f n
    have others := ih (closeFile f n).2
      (idsMet (closeFile f n).1.preorder ++ earlier)
    rw [List.mapM_cons]
    show (rest.mapM closeFile (closeFile f n).2).2.brokenParentLinks = n.brokenParentLinks +
      (parentLinks earlier ((closeFile f n).1 ::
        (rest.mapM closeFile (closeFile f n).2).1)).countP ParentLink.leavesFile
    rw [others, first, parentLinks, List.countP_append, brokenLinks_eq earlier, Nat.add_assoc]

end Enrichment

/-! ## Closing -/

/-- Closing a symbol adds no link but to the symbol around it, which was met before. -/
theorem filter_link_of_closedIn {around : Option SymbolTree} {own : List String} {s s' : Symbol}
    (met : ∀ c ∈ around, c.symbol.uniqueId ∈ own) (h : s.ClosedIn around s')
    (earlier : List String) :
    s'.uniqueId = s.uniqueId ∧
      (s'.link? (s.uniqueId :: own) earlier).toList.filter ParentLink.leavesFile =
        (s.link? (s.uniqueId :: own) earlier).toList.filter ParentLink.leavesFile := by
  cases h with
  | other => exact ⟨rfl, rfl⟩
  | @constructor c ps ps' inside _ _ _ _ _ =>
    refine ⟨rfl, ?_⟩
    cases named : s.parentId with
    | some target => simp [Symbol.link?, named]
    | none => simp [Symbol.link?, named, ParentLink.leavesFile, met c inside]

mutual

theorem tree_links_closedIn (earlier : List String) : ∀ (t : SymbolTree) {t' : SymbolTree}
    {around : Option SymbolTree} {own : List String},
    (∀ c ∈ around, c.symbol.uniqueId ∈ own) → t.ClosedIn around t' →
    idsMet t'.preorder = idsMet t.preorder ∧
      (linksOf earlier own t'.preorder).filter ParentLink.leavesFile =
        (linksOf earlier own t.preorder).filter ParentLink.leavesFile
  | ⟨s, children⟩, t', around, own, met, h => by
    cases h with
    | @node _ _ s' _ children' closed members =>
      obtain ⟨uniqueId, link⟩ := filter_link_of_closedIn met closed earlier
      have inside : ∀ c ∈ some (⟨s, children⟩ : SymbolTree),
          c.symbol.uniqueId ∈ s.uniqueId :: own := by
        rintro c ⟨⟩
        exact List.mem_cons_self
      obtain ⟨ids, links⟩ := trees_links_closedIn earlier children inside members
      rw [SymbolTree.preorder, SymbolTree.preorder]
      refine ⟨?_, ?_⟩
      · rw [← List.append_nil (idsMet (s' :: _)), ← List.append_nil (idsMet (s :: _)), idsMet_cons,
          idsMet_cons, ids, uniqueId]
      · rw [linksOf, linksOf, uniqueId, List.filter_append, List.filter_append, link, links]

theorem trees_links_closedIn (earlier : List String) : ∀ (trees : List SymbolTree)
    {trees' : List SymbolTree} {around : Option SymbolTree} {own : List String},
    (∀ c ∈ around, c.symbol.uniqueId ∈ own) → TreesClosedIn around trees trees' →
    idsMet (preorderAll trees') = idsMet (preorderAll trees) ∧
      (linksOf earlier own (preorderAll trees')).filter ParentLink.leavesFile =
        (linksOf earlier own (preorderAll trees)).filter ParentLink.leavesFile
  | [], trees', around, own, _, h => by
    cases h
    exact ⟨rfl, rfl⟩
  | t :: rest, trees', around, own, met, h => by
    cases h with
    | cons first others =>
      obtain ⟨ids, links⟩ := tree_links_closedIn earlier t met first
      have still : ∀ c ∈ around, c.symbol.uniqueId ∈ idsMet t.preorder ++ own :=
        fun c hc => List.mem_append_right _ (met c hc)
      obtain ⟨more_ids, more_links⟩ := trees_links_closedIn earlier rest still others
      rw [preorderAll, preorderAll]
      refine ⟨?_, ?_⟩
      · rw [idsMet_append, idsMet_append, ids, more_ids]
      · rw [linksOf_append, linksOf_append, List.filter_append, List.filter_append, ids, links,
          more_links]

end

/-- The links that leave their file are the same before and after closing. -/
theorem filter_parentLinks_of_closed {files files' : List SourceFile}
    (h : List.Forall₂ SourceFile.Closed files files') : ∀ earlier : List String,
    (parentLinks earlier files').filter ParentLink.leavesFile =
      (parentLinks earlier files).filter ParentLink.leavesFile := by
  induction h with
  | nil => exact fun _ => rfl
  | @cons f f' rest rest' first _ ih =>
    intro earlier
    have top : ∀ c ∈ (none : Option SymbolTree), c.symbol.uniqueId ∈ ([] : List String) := by
      rintro c ⟨⟩
    obtain ⟨ids, links⟩ := trees_links_closedIn earlier f.symbols top first.symbols
    have ids : idsMet f'.preorder = idsMet f.preorder := ids
    rw [parentLinks, parentLinks, List.filter_append, List.filter_append, ids, ih]
    exact congrArg (· ++ _) links

/-! ## Errors -/

/-- The end of an error about a link that leads nowhere. -/
def unknownEnding : String := "' is not a known symbol"

/-- The errors of a report that are about links that lead nowhere, told by their ending. -/
def Report.unknownParents (r : Report) : List String :=
  r.errors.filter fun e => Text.endsWith unknownEnding.toList e.toList

namespace Finding

/-- Whether what is wrong is a link that leads nowhere. -/
def isUnknownEnclosing : Finding → Bool
  | unknownEnclosing _ _ => true
  | _ => false

/-- No other finding has a wording with that ending, as none ends with its last character. -/
theorem endsWith_message (f : Finding) :
    Text.endsWith unknownEnding.toList f.message.toList = f.isUnknownEnclosing := by
  have other : ∀ (text last : String) (c : Char), last.toList.getLast? = some c → c ≠ 'l' →
      Text.endsWith unknownEnding.toList (text ++ last).toList = false := by
    intro text last c ends differs
    rw [Bool.eq_false_iff, ne_eq, Text.endsWith_iff]
    rintro ⟨front, whole⟩
    have same := congrArg List.getLast? whole
    rw [String.toList_append, List.getLast?_append, List.getLast?_append, ends] at same
    exact differs (Option.some.inj same).symm
  cases f with
  | noParameters c =>
    exact other _ "' has detail but no parameters were extracted" 'd' (by decide) (by decide)
  | unknownEnclosing s p =>
    refine Text.endsWith_iff.mpr ⟨("parentId '" ++ p ++ "' of '" ++ s).toList, ?_⟩
    rw [← String.toList_append]
    rfl
  | notInClass c p => exact other _ "', which is not a class" 's' (by decide) (by decide)
  | unknownField c f p => exact other _ "'" '\'' (by decide) (by decide)
  | unknownParent n p => exact other _ "'" '\'' (by decide) (by decide)
  | unknownEnd e n => exact other _ "'" '\'' (by decide) (by decide)

end Finding

theorem unknownParents_ofFindings (findings : List Finding) :
    (Report.ofFindings findings).unknownParents =
      (findings.filter Finding.isUnknownEnclosing).map Finding.message := by
  have error : ∀ f : Finding, (f.isUnknownEnclosing && f.isError) = f.isUnknownEnclosing := by
    rintro (_ | _ | _ | _ | _ | _) <;> rfl
  rw [Report.unknownParents, Report.ofFindings, List.filter_map, List.filter_filter]
  refine congrArg (List.map _) (List.filter_congr fun f _ => ?_)
  rw [Function.comp, Finding.endsWith_message, error]

theorem Seen.lookup_eq_none {seen : Seen} {id : String} :
    seen.lookup id = none ↔ id ∉ seen.map Prod.fst := by
  simp only [List.lookup_eq_none_iff, bne_iff_ne, List.mem_map, not_exists, not_and]
  exact forall₂_congr fun entry _ => ne_comm

/-- About a constructor and the symbol that it names nothing of the kind is found. -/
theorem filter_constructorFindings (c : Symbol) (parent : SymbolTree) :
    (constructorFindings c parent).filter Finding.isUnknownEnclosing = [] := by
  rw [List.filter_eq_nil_iff, constructorFindings, List.forall_mem_append, List.forall_mem_map]
  refine ⟨?_, fun _ _ => Bool.false_ne_true⟩
  split
  · exact fun _ none => absurd none List.not_mem_nil
  · rw [List.forall_mem_singleton]
    exact Bool.false_ne_true

theorem filter_symbolFindings {seen : Seen} {own earlier : List String}
    (met : seen.map Prod.fst = own ++ earlier) (s : Symbol) :
    (symbolFindings seen s).filter Finding.isUnknownEnclosing =
      ((s.link? own earlier).toList.filter ParentLink.isUnknown).map ParentLink.finding := by
  have warned : (if s.kind = .constructor ∧ s.parameters.isNone ∧ s.detail ≠ "" then
      [Finding.noParameters s.name] else []).filter Finding.isUnknownEnclosing = [] := by
    split <;> rfl
  rw [symbolFindings, List.filter_append, warned, List.nil_append]
  cases named : s.parentId with
  | none => simp [Symbol.link?, named]
  | some target =>
    have unmet : seen.lookup target = none ↔ target ∉ own ∧ target ∉ earlier := by
      rw [Seen.lookup_eq_none, met, List.mem_append, not_or]
    dsimp only
    cases found : seen.lookup target with
    | none =>
      obtain ⟨inside, before⟩ := unmet.mp found
      simp [Symbol.link?, named, ParentLink.isUnknown, ParentLink.leavesFile, inside, before,
        ParentLink.finding, Finding.isUnknownEnclosing]
    | some parent =>
      have known : ¬(target ∉ own ∧ target ∉ earlier) := by
        rw [← unmet, found]
        exact nofun
      have silent : (if s.kind = .constructor then constructorFindings s parent else []).filter
          Finding.isUnknownEnclosing = [] := by
        split
        · exact filter_constructorFindings s parent
        · rfl
      have link : (s.link? own earlier).toList.filter ParentLink.isUnknown = [] := by
        simpa [Symbol.link?, named, ParentLink.isUnknown, ParentLink.leavesFile] using known
      rw [silent, link]
      rfl

mutual

theorem treeFindings_links (earlier : List String) : ∀ (t : SymbolTree) {seen : Seen}
    {own : List String}, seen.map Prod.fst = own ++ earlier →
    (treeFindings seen t).2.map Prod.fst = idsMet t.preorder ++ own ++ earlier ∧
      (treeFindings seen t).1.filter Finding.isUnknownEnclosing =
        ((linksOf earlier own t.preorder).filter ParentLink.isUnknown).map ParentLink.finding
  | ⟨s, children⟩, seen, own, met => by
    have entered : ((s.uniqueId, (⟨s, children⟩ : SymbolTree)) :: seen).map Prod.fst =
        (s.uniqueId :: own) ++ earlier := by
      rw [List.map_cons, met, List.cons_append]
    obtain ⟨after, found⟩ := treesFindings_links earlier children entered
    rw [treeFindings, SymbolTree.preorder, idsMet_cons, linksOf]
    refine ⟨after, ?_⟩
    rw [List.filter_append, List.filter_append, List.map_append, found,
      filter_symbolFindings entered]

theorem treesFindings_links (earlier : List String) : ∀ (trees : List SymbolTree) {seen : Seen}
    {own : List String}, seen.map Prod.fst = own ++ earlier →
    (treesFindings seen trees).2.map Prod.fst = idsMet (preorderAll trees) ++ own ++ earlier ∧
      (treesFindings seen trees).1.filter Finding.isUnknownEnclosing =
        ((linksOf earlier own (preorderAll trees)).filter ParentLink.isUnknown).map
          ParentLink.finding
  | [], seen, own, met => ⟨met, rfl⟩
  | t :: rest, seen, own, met => by
    obtain ⟨after, found⟩ := treeFindings_links earlier t met
    obtain ⟨last, more⟩ := treesFindings_links earlier rest after
    rw [treesFindings, preorderAll, idsMet_append, linksOf_append]
    refine ⟨last.trans (by simp only [List.append_assoc]), ?_⟩
    rw [List.filter_append, List.filter_append, List.map_append, found, more]

end

/-- Those that validation finds are the links to what no file has met. -/
theorem filesFindings_links (files : List SourceFile) : ∀ {seen : Seen} {earlier : List String},
    seen.map Prod.fst = earlier →
    (treesFindings seen (files.flatMap SourceFile.symbols)).1.filter Finding.isUnknownEnclosing =
      ((parentLinks earlier files).filter ParentLink.isUnknown).map ParentLink.finding := by
  induction files with
  | nil => exact fun _ => rfl
  | cons f rest ih =>
    intro seen earlier met
    have met' : seen.map Prod.fst = [] ++ earlier := met
    obtain ⟨after, found⟩ := treesFindings_links earlier f.symbols met'
    rw [List.append_nil] at after
    rw [List.flatMap_cons, treesFindings_append, parentLinks, List.filter_append,
      List.filter_append, List.map_append, found, ih after]
    rfl

theorem unknownParents_eq (files : List SourceFile) :
    (filesReport files).unknownParents =
      ((parentLinks [] files).filter ParentLink.isUnknown).map fun l => l.finding.message := by
  rw [filesReport, unknownParents_ofFindings, filesFindings_links files rfl, List.map_map]
  rfl

/-! ## Both checks -/

/-- Closing counts the links that leave their file. Of these, validation reports the ones that lead to
nothing met in an earlier file either, and it reports the same ones before and after closing. So
closing counts what validation reports and, besides, the links that lead back to an earlier file. The
two checks agree just if each link to a symbol of an earlier file leads to one met in its own too. -/
theorem parent_links_counted (files : List SourceFile) :
    let links := parentLinks [] files
    let closed := Enrichment.closeFiles files
    closed.2.brokenParentLinks = links.countP ParentLink.leavesFile ∧
    (filesReport files).unknownParents =
      (links.filter ParentLink.isUnknown).map (fun l => l.finding.message) ∧
    (filesReport closed.1).unknownParents = (filesReport files).unknownParents ∧
    closed.2.brokenParentLinks =
      (filesReport files).unknownParents.length + links.countP ParentLink.leadsBack ∧
    (closed.2.brokenParentLinks = (filesReport files).unknownParents.length ↔
      ∀ l ∈ links, l.target ∈ l.earlier → l.target ∈ l.own) := by
  intro links closed
  have same := filter_parentLinks_of_closed (Enrichment.closeFiles_looksUp files).1 []
  have counted : closed.2.brokenParentLinks = links.countP ParentLink.leavesFile := by
    have found := Enrichment.mapM_closeFile_brokenLinks files {} []
    rw [List.countP_eq_length_filter, ← same, ← List.countP_eq_length_filter]
    exact found.trans (Nat.zero_add _)
  have unknown : ∀ l : List ParentLink, l.filter ParentLink.isUnknown =
      (l.filter ParentLink.leavesFile).filter fun l => l.target ∉ l.earlier := by
    intro l
    rw [List.filter_filter]
    exact List.filter_congr fun l _ => Bool.and_comm _ _
  have still : (filesReport closed.1).unknownParents = (filesReport files).unknownParents := by
    rw [unknownParents_eq, unknownParents_eq, unknown, same, ← unknown]
  have parts : links.countP ParentLink.leavesFile =
      (filesReport files).unknownParents.length + links.countP ParentLink.leadsBack := by
    have earlier : ∀ l : ParentLink, l.leadsBack =
        (l.leavesFile && !decide (l.target ∉ l.earlier)) := by
      intro l
      rw [ParentLink.leadsBack, decide_not, Bool.not_not]
    rw [unknownParents_eq, List.length_map, ← List.countP_eq_length_filter, funext earlier]
    have both := List.countP_eq_countP_filter_add links ParentLink.leavesFile fun l =>
      l.target ∉ l.earlier
    rw [List.countP_filter, List.countP_filter] at both
    exact both
  refine ⟨counted, unknownParents_eq files, still, counted.trans parts, ?_⟩
  rw [counted, parts, Nat.add_eq_left, List.countP_eq_zero]
  refine forall₂_congr fun l _ => ?_
  simp only [ParentLink.leadsBack, ParentLink.leavesFile, Bool.and_eq_true, decide_eq_true_eq,
    not_and, not_imp_not]

/-- A file with a class, and a second one with a function that is said to be in that class. -/
def strayFiles : List SourceFile :=
  let toy := Symbol.ofName "Toy" .classDecl "a.dart"
  let wind := Symbol.ofName "wind" .function "b.dart"
  [⟨"a.dart", "", [⟨toy, []⟩]⟩, ⟨"b.dart", "", [⟨{ wind with parentId := some toy.uniqueId }, []⟩]⟩]

/-- Closing counts the link back to the first file as broken, and validation knows where it leads. -/
theorem back_link_broken_and_known :
    (Enrichment.closeFiles strayFiles).2.brokenParentLinks = 1 ∧
      (filesReport strayFiles).unknownParents = [] := by
  decide +kernel

end CodeAtlas
