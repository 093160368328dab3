import CodeAtlas.Proofs.Cutting
import CodeAtlas.Symbol.Id

/-!
Identities of symbols. An id is its file, its container, its kind and its name behind one another,
each with a mark in front. What stands in front of a mark is free of marks, so the parts are read off
an id from the left (`nodeId_eq_iff`); only the name, which stands last, may hold any mark. The tags
of kinds differ, whatever number an unknown kind has (`tag_inj`). So symbols have the same id exactly
if they agree in file, container, kind and name (`ids_separate_identities`), as long as nothing has
the name that stands in for a missing file or for a constructor's own name.
-/
namespace CodeAtlas

/-! ## Tags of kinds -/

namespace SymbolKind

/-- The tags of unknown kinds begin with a letter that no other tag begins with. -/
theorem head?_tag_eq_k {k : SymbolKind} :
    k.tag.toList.head? = some 'k' ↔ ∃ number, k = .other number := by
  constructor
  · intro first
    cases k with
    | other number => exact ⟨number, rfl⟩
    | _ => exact absurd first (by decide)
  · rintro ⟨number, rfl⟩
    simp [tag, String.toList_append]

theorem tag_other_inj {m n : UInt32} (same : (other m).tag = (other n).tag) : m = n := by
  have digits : Nat.toDigits 10 m.toNat = Nat.toDigits 10 n.toNat := by
    have texts := congrArg String.toList same
    simpa [tag, String.toList_append] using texts
  apply UInt32.toNat_inj.mp
  calc m.toNat
      = Nat.ofDigitChars 10 (Nat.toDigits 10 m.toNat) 0 := Nat.ofDigitChars_ten_toDigits.symm
    _ = Nat.ofDigitChars 10 (Nat.toDigits 10 n.toNat) 0 := by rw [digits]
    _ = n.toNat := Nat.ofDigitChars_ten_toDigits

/-- Kinds are told apart by their tags. -/
theorem tag_inj {k k' : SymbolKind} : k.tag = k'.tag ↔ k = k' := by
  refine ⟨fun same => ?_, fun same => same ▸ rfl⟩
  have unknown : (∃ number, k = .other number) ↔ ∃ number, k' = .other number := by
    rw [← head?_tag_eq_k, ← head?_tag_eq_k, same]
  by_cases h : ∃ number, k = .other number
  · obtain ⟨n, rfl⟩ := unknown.mp h
    obtain ⟨m, rfl⟩ := h
    rw [tag_other_inj same]
  · have h' := mt unknown.mpr h
    -- both kinds are known, and no two of those have one tag
    cases k with
    | other number => exact absurd ⟨number, rfl⟩ h
    | _ =>
      cases k' with
      | other number => exact absurd ⟨number, rfl⟩ h'
      | _ => first | rfl | exact absurd same (by decide)

theorem tag_unmarked (k : SymbolKind) : '#' ∉ k.tag.toList := by
  cases k with
  | other number =>
    intro mark
    simp only [tag, String.toList_append, Nat.toString_eq_repr, Nat.toList_repr] at mark
    rcases List.mem_append.mp mark with letter | digit
    · exact absurd letter (by decide)
    · exact absurd (Nat.isDigit_of_mem_toDigits (by decide) (by decide) digit) (by decide)
  | _ => decide

end SymbolKind

/-! ## The parts of an id -/

/-- The file that an id shows. -/
def Symbol.shownFile (s : Symbol) : String := if s.fileId = "" then unknownFile else s.fileId

/-- The name that an id shows. A constructor that has only its class's name shows another. -/
def Symbol.shownName (s : Symbol) (container : Option String) : String :=
  if s.kind = .constructor ∧ container = some s.name then unnamedConstructor else s.name

/-- The container in an id, under its heading. -/
def containerText (parent : String) : List Char := "parent:".toList ++ parent.toList

/-- The kind in an id, under its heading. -/
def kindText (kind : SymbolKind) : List Char := "kind:".toList ++ kind.tag.toList

/-- The kind and the name in an id. -/
def labelText (kind : SymbolKind) (name : String) : List Char :=
  kindText kind ++ '#' :: ("name:".toList ++ name.toList)

/-- What stands behind the file of an id and its mark. -/
def placeText (kind : SymbolKind) (name : String) : Option String → List Char
  | none => labelText kind name
  | some parent => containerText parent ++ '#' :: labelText kind name

theorem containerText_unmarked {parent : String} (unmarked : '#' ∉ parent.toList) :
    '#' ∉ containerText parent := by
  intro mark
  rcases List.mem_append.mp mark with heading | named
  · exact absurd heading (by decide)
  · exact unmarked named

theorem kindText_unmarked (kind : SymbolKind) : '#' ∉ kindText kind := by
  intro mark
  rcases List.mem_append.mp mark with heading | tag
  · exact absurd heading (by decide)
  · exact kind.tag_unmarked tag

theorem toList_nodeId (s : Symbol) (container : Option String) :
    (nodeId s container).toList =
      s.shownFile.toList ++ '#' :: placeText s.kind (s.shownName container) container := by
  cases container with
  | none =>
    unfold placeText labelText kindText
    simp [nodeId, Symbol.shownFile, Symbol.shownName, String.toList_append]
  | some parent =>
    unfold placeText labelText containerText kindText
    simp [nodeId, Symbol.shownFile, Symbol.shownName, String.toList_append, eq_comm (a := parent)]

theorem labelText_inj {kind kind' : SymbolKind} {name name' : String} :
    labelText kind name = labelText kind' name' ↔ kind = kind' ∧ name = name' := by
  constructor
  · intro same
    obtain ⟨kinds, names⟩ :=
      Text.eq_of_cut_at_first (kindText_unmarked kind) (kindText_unmarked kind') same
    have tags := String.toList_inj.mp (List.append_cancel_left kinds)
    exact ⟨SymbolKind.tag_inj.mp tags, String.toList_inj.mp (List.append_cancel_left names)⟩
  · rintro ⟨rfl, rfl⟩
    rfl

/-- The headings of a kind and of a container begin with different letters. -/
theorem labelText_ne (kind kind' : SymbolKind) (name name' parent : String) :
    labelText kind name ≠ containerText parent ++ '#' :: labelText kind' name' := by
  intro same
  have first := congrArg List.head? same
  unfold labelText kindText containerText at first
  simp at first

theorem placeText_inj {kind kind' : SymbolKind} {name name' : String}
    {container container' : Option String} (unmarked : ∀ p ∈ container, '#' ∉ p.toList)
    (unmarked' : ∀ p ∈ container', '#' ∉ p.toList) :
    placeText kind name container = placeText kind' name' container' ↔
      container = container' ∧ kind = kind' ∧ name = name' := by
  constructor
  · intro same
    cases container with
    | none =>
      cases container' with
      | none => exact ⟨rfl, labelText_inj.mp same⟩
      | some parent' => exact absurd same (labelText_ne _ _ _ _ _)
    | some parent =>
      cases container' with
      | none => exact absurd same.symm (labelText_ne _ _ _ _ _)
      | some parent' =>
        obtain ⟨parents, labels⟩ := Text.eq_of_cut_at_first
          (containerText_unmarked (unmarked parent rfl))
          (containerText_unmarked (unmarked' parent' rfl)) same
        have parents := String.toList_inj.mp (List.append_cancel_left parents)
        exact ⟨congrArg some parents, labelText_inj.mp labels⟩
  · rintro ⟨rfl, rfl, rfl⟩
    rfl

/-- Ids of symbols whose files and containers are free of marks are equal exactly if all that they
show is equal. -/
theorem nodeId_eq_iff {s s' : Symbol} {container container' : Option String}
    (file : '#' ∉ s.shownFile.toList) (file' : '#' ∉ s'.shownFile.toList)
    (unmarked : ∀ p ∈ container, '#' ∉ p.toList)
    (unmarked' : ∀ p ∈ container', '#' ∉ p.toList) :
    nodeId s container = nodeId s' container' ↔
      s.shownFile = s'.shownFile ∧ container = container' ∧ s.kind = s'.kind ∧
        s.shownName container = s'.shownName container' := by
  rw [← String.toList_inj, toList_nodeId, toList_nodeId]
  constructor
  · intro same
    obtain ⟨files, places⟩ := Text.eq_of_cut_at_first file file' same
    exact ⟨String.toList_inj.mp files, (placeText_inj unmarked unmarked').mp places⟩
  · rintro ⟨files, places⟩
    rw [files, (placeText_inj unmarked unmarked').mpr places]

/-! ## Identities -/

/-- A symbol and a container whose id tells them: the file and the container are free of marks, and
nothing has a name that stands in for another. -/
structure Symbol.Identified (s : Symbol) (container : Option String) : Prop where
  file_unmarked : '#' ∉ s.fileId.toList
  file_known : s.fileId ≠ unknownFile
  container_unmarked : ∀ p ∈ container, '#' ∉ p.toList
  constructor_named : s.kind = .constructor → s.name ≠ unnamedConstructor

namespace Symbol.Identified

variable {s s' : Symbol} {container : Option String}

theorem shownFile_unmarked (h : s.Identified container) : '#' ∉ s.shownFile.toList := by
  unfold shownFile
  split
  · decide
  · exact h.file_unmarked

/-- No file has the name of a missing one. -/
theorem shownFile_eq_iff {container' : Option String} (h : s.Identified container)
    (h' : s'.Identified container') : s.shownFile = s'.shownFile ↔ s.fileId = s'.fileId := by
  constructor
  · intro same
    unfold shownFile at same
    split at same
    · rename_i missing
      split at same
      · rename_i missing'
        rw [missing, missing']
      · exact absurd same.symm h'.file_known
    · split at same
      · exact absurd same h.file_known
      · exact same
  · intro same
    rw [shownFile, shownFile, same]

/-- In one container, no constructor has the name of one that has only its class's name. -/
theorem shownName_eq_iff (h : s.Identified container) (h' : s'.Identified container)
    (kinds : s.kind = s'.kind) :
    s.shownName container = s'.shownName container ↔ s.name = s'.name := by
  constructor
  · intro same
    unfold shownName at same
    split at same
    · rename_i unnamed
      split at same
      · rename_i unnamed'
        exact Option.some.inj (unnamed.2.symm.trans unnamed'.2)
      · exact absurd same.symm (h'.constructor_named (kinds ▸ unnamed.1))
    · split at same
      · rename_i unnamed'
        exact absurd same (h.constructor_named (kinds ▸ unnamed'.1))
      · exact same
  · intro same
    rw [shownName, shownName, same, kinds]

end Symbol.Identified

/-- Two symbols have the same id exactly if they have the same file, container, kind and name. -/
theorem ids_separate_identities {s s' : Symbol} {container container' : Option String}
    (h : s.Identified container) (h' : s'.Identified container') :
    nodeId s container = nodeId s' container' ↔
      s.fileId = s'.fileId ∧ container = container' ∧ s.kind = s'.kind ∧ s.name = s'.name := by
  rw [nodeId_eq_iff h.shownFile_unmarked h'.shownFile_unmarked h.container_unmarked
    h'.container_unmarked, h.shownFile_eq_iff h']
  constructor
  · rintro ⟨files, rfl, kinds, names⟩
    exact ⟨files, rfl, kinds, (h.shownName_eq_iff h' kinds).mp names⟩
  · rintro ⟨files, rfl, kinds, names⟩
    exact ⟨files, rfl, kinds, (h.shownName_eq_iff h' kinds).mpr names⟩

/-- The unnamed constructor of a class is told from a named one, and symbols of two unknown kinds
from each other. -/
theorem ids_separate_identities_home :
    ((Symbol.ofName "Home" .constructor "").Identified (some "Home") ∧
      (Symbol.ofName "Home.empty" .constructor "").Identified (some "Home") ∧
      nodeId (Symbol.ofName "Home" .constructor "") (some "Home") ≠
        nodeId (Symbol.ofName "Home.empty" .constructor "") (some "Home")) ∧
    (Symbol.ofName "x" (.other 1) "a.dart").Identified none ∧
      (Symbol.ofName "x" (.other 13) "a.dart").Identified none ∧
      nodeId (Symbol.ofName "x" (.other 1) "a.dart") none ≠
        nodeId (Symbol.ofName "x" (.other 13) "a.dart") none := by
  have unnamed : (Symbol.ofName "Home" .constructor "").Identified (some "Home") :=
    ⟨by decide, by decide, by decide, by decide⟩
  have named : (Symbol.ofName "Home.empty" .constructor "").Identified (some "Home") :=
    ⟨by decide, by decide, by decide, by decide⟩
  have first : (Symbol.ofName "x" (.other 1) "a.dart").Identified none :=
    ⟨by decide, by decide, nofun, nofun⟩
  have second : (Symbol.ofName "x" (.other 13) "a.dart").Identified none :=
    ⟨by decide, by decide, nofun, nofun⟩
  refine ⟨⟨unnamed, named, ?_⟩, first, second, ?_⟩
  · rw [Ne, ids_separate_identities unnamed named]
    decide
  · rw [Ne, ids_separate_identities first second]
    decide

/-- A file with the name of a missing one is not told from it. -/
example : nodeId (Symbol.ofName "f" .function unknownFile) none =
    nodeId (Symbol.ofName "f" .function "") none := by decide

end CodeAtlas
