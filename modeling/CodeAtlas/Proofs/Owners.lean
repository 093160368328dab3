import CodeAtlas.Package.Origin
import CodeAtlas.Proofs.Paths
import Mathlib.Data.List.Nodup

/-!
Owners of files. Of two packages the deeper one is kept, so what is left of the packages above a path
has the deepest root of them all (`owns_of_owner?`). Two roots above one path are equal when they are
equally deep, so where no two packages have the same root only one of them is deepest, and the order
of the list does not matter (`originOf_perm`). A package does not own what lies beside its root, and a
path that lies below no root has no owner (`packages_own_by_deepest_root`).
-/
namespace CodeAtlas

namespace Package

/-- The components of the folder of a package. -/
def root (p : Package) : List (List Char) := Path.components p.path.toList

/-- A listed package at or above a path, with no deeper one. -/
structure Owns (p : Package) (packages : List Package) (path : List Char) : Prop where
  listed : p ∈ packages
  above : p.root <+: Path.components path
  deepest : ∀ q ∈ packages, q.root <+: Path.components path → q.root.length ≤ p.root.length

end Package

/-! ## The deeper of two -/

theorem deeper_cases (a b : Package) :
    deeper a b = a ∧ b.root.length ≤ a.root.length ∨
      deeper a b = b ∧ a.root.length ≤ b.root.length := by
  by_cases h : a.root.length ≤ b.root.length
  · exact .inr ⟨if_pos h, h⟩
  · exact .inl ⟨if_neg h, by omega⟩

theorem foldl_deeper (first : Package) (rest : List Package) :
    rest.foldl deeper first ∈ first :: rest ∧
      ∀ q ∈ first :: rest, q.root.length ≤ (rest.foldl deeper first).root.length := by
  induction rest generalizing first with
  | nil => simp
  | cons next rest ih =>
    obtain ⟨among, deepest⟩ := ih (deeper first next)
    obtain ⟨kept, others⟩ := List.forall_mem_cons.mp deepest
    rw [List.foldl_cons]
    constructor
    · rcases List.mem_cons.mp among with found | found
      · rw [found]
        rcases deeper_cases first next with ⟨found, -⟩ | ⟨found, -⟩ <;> simp [found]
      · exact List.mem_cons_of_mem _ (List.mem_cons_of_mem _ found)
    · have both : first.root.length ≤ (deeper first next).root.length ∧
          next.root.length ≤ (deeper first next).root.length := by
        rcases deeper_cases first next with ⟨found, order⟩ | ⟨found, order⟩ <;> simp [found, order]
      intro q hq
      rcases List.mem_cons.mp hq with rfl | hq
      · exact Nat.le_trans both.1 kept
      · rcases List.mem_cons.mp hq with rfl | hq
        · exact Nat.le_trans both.2 kept
        · exact others q hq

/-! ## Owners -/

variable {path : List Char} {packages packages' : List Package} {p p' : Package}

theorem Path.isBelow_iff {path root : List Char} :
    Path.isBelow path root = true ↔ Path.components root <+: Path.components path :=
  List.isPrefixOf_iff_prefix

theorem owns_of_owner? (h : owner? path packages = some p) : p.Owns packages path := by
  unfold owner? at h
  split at h
  · cases h
  · rename_i first rest below
    obtain rfl := Option.some.inj h
    obtain ⟨among, deepest⟩ := foldl_deeper first rest
    rw [← below] at among deepest
    obtain ⟨listed, above⟩ := List.mem_filter.mp among
    refine ⟨listed, Path.isBelow_iff.mp above, ?_⟩
    intro q hq below
    exact deepest q (List.mem_filter.mpr ⟨hq, Path.isBelow_iff.mpr below⟩)

theorem owner?_eq_none :
    owner? path packages = none ↔ ∀ p ∈ packages, ¬p.root <+: Path.components path := by
  unfold owner?
  split
  · rename_i none_below
    simp only [List.filter_eq_nil_iff, Path.isBelow_iff] at none_below
    exact ⟨fun _ => none_below, fun _ => rfl⟩
  · rename_i first rest below
    refine ⟨nofun, fun none_above => ?_⟩
    have among : first ∈ packages.filter fun p => Path.isBelow path p.path.toList := by
      rw [below]
      exact List.mem_cons_self
    obtain ⟨listed, above⟩ := List.mem_filter.mp among
    exact absurd (Path.isBelow_iff.mp above) (none_above first listed)

/-- The owners of a path all have the same root. -/
theorem Package.Owns.root_eq (h : p.Owns packages path) (h' : p'.Owns packages path) :
    p.root = p'.root := by
  have le := h'.deepest p h.listed h.above
  have ge := h.deepest p' h'.listed h'.above
  exact (List.prefix_of_prefix_length_le h.above h'.above le).eq_of_length (Nat.le_antisymm le ge)

theorem Package.Owns.perm (h : p.Owns packages path) (perm : packages.Perm packages') :
    p.Owns packages' path where
  listed := perm.mem_iff.mp h.listed
  above := h.above
  deepest q hq := h.deepest q (perm.mem_iff.mpr hq)

theorem owner?_perm (distinct : (packages.map Package.root).Nodup)
    (perm : packages.Perm packages') : owner? path packages = owner? path packages' := by
  cases found : owner? path packages with
  | none =>
    have unowned := owner?_eq_none.mp found
    symm
    apply owner?_eq_none.mpr
    intro q hq
    exact unowned q (perm.mem_iff.mpr hq)
  | some p =>
    have owns := owns_of_owner? found
    cases found' : owner? path packages' with
    | none => exact absurd owns.above (owner?_eq_none.mp found' p (perm.mem_iff.mp owns.listed))
    | some p' =>
      have owns' := (owns_of_owner? found').perm perm.symm
      rw [List.inj_on_of_nodup_map distinct owns.listed owns'.listed (owns.root_eq owns')]

theorem originOf_perm (distinct : (packages.map Package.root).Nodup)
    (perm : packages.Perm packages') (fileId : String) :
    originOf fileId packages = originOf fileId packages' := by
  unfold originOf
  simp only [owner?_perm distinct perm]

/-- The owner of a path is a listed package with the deepest root at or above it. There is none
exactly if no root is at or above the path, and a package never owns what lies beside its root. Where
the roots are different, the origins of files do not depend on the order of the packages. -/
theorem packages_own_by_deepest_root (path : List Char) (packages : List Package) :
    (∀ p, owner? path packages = some p → p.Owns packages path) ∧
    (owner? path packages = none ↔ ∀ p ∈ packages, ¬p.root <+: Path.components path) ∧
    (∀ p folder name sibling rest, Path.IsName name → Path.IsName sibling → name ≠ sibling →
      p.path.toList = folder ++ '/' :: name → path = folder ++ '/' :: (sibling ++ '/' :: rest) →
        owner? path packages ≠ some p) ∧
    ((packages.map Package.root).Nodup → ∀ packages', packages.Perm packages' →
      ∀ fileId, originOf fileId packages = originOf fileId packages') := by
  refine ⟨fun p => owns_of_owner?, owner?_eq_none, ?_, fun distinct _ => originOf_perm distinct⟩
  intro p folder name sibling rest hn hs differ place rfl owned
  have above := (owns_of_owner? owned).above
  rw [Package.root, place] at above
  exact Path.not_below_sibling hn hs differ above

/-- A package in a cache. -/
def cachedPackage (name path : String) : Package :=
  ⟨name, path, "1.0.0", .thirdParty, [], true, false, none⟩

def httpPackage : Package := cachedPackage "http" "/cache/http"

/-- A package within another one, with a root that is written at length. -/
def toolPackage : Package := cachedPackage "tool" "/cache//http/./tool/"

/-- A package within another one owns its files in either order, and neither owns what lies beside
them. -/
theorem packages_own_by_deepest_root_nested :
    toolPackage.Owns [toolPackage, httpPackage] "/cache/http/tool/a.dart".toList ∧
    owner? "/cache/http_parser/a.dart".toList [toolPackage, httpPackage] = none ∧
    owner? "/cache/http_parser/a.dart".toList [toolPackage, httpPackage] ≠ some httpPackage ∧
    ([toolPackage, httpPackage].map Package.root).Nodup ∧
    originOf "/cache/http/tool/a.dart" [toolPackage, httpPackage] =
      originOf "/cache/http/tool/a.dart" [httpPackage, toolPackage] := by
  obtain ⟨owns, -, -, anyOrder⟩ := packages_own_by_deepest_root
    "/cache/http/tool/a.dart".toList [toolPackage, httpPackage]
  obtain ⟨-, unowned, beside, -⟩ := packages_own_by_deepest_root
    "/cache/http_parser/a.dart".toList [toolPackage, httpPackage]
  have name : Path.IsName "http".toList := ⟨by decide, by decide, by decide⟩
  have sibling : Path.IsName "http_parser".toList := ⟨by decide, by decide, by decide⟩
  have distinct : ([toolPackage, httpPackage].map Package.root).Nodup := by decide
  refine ⟨owns toolPackage (by decide), unowned.mpr ?_, ?_, distinct, ?_⟩
  · decide
  · exact beside httpPackage "/cache".toList "http".toList "http_parser".toList "a.dart".toList
      name sibling (by decide) (by decide) (by decide)
  · exact anyOrder distinct [httpPackage, toolPackage] (.swap httpPackage toolPackage []) _

end CodeAtlas
