import CodeAtlas.Proofs.Cutting
import Mathlib.Data.List.Infix

/-!
Where a text occurs in another: at its beginning, at its end, or anywhere in it.
-/
namespace CodeAtlas.Text

variable {start tail piece s : List Char}

theorem startsWith_iff : startsWith start s = true ↔ start <+: s := by
  rw [startsWith, Option.isSome_iff_exists]
  constructor
  · rintro ⟨rest, found⟩
    exact ⟨rest, (eq_append_of_dropStart? found).symm⟩
  · rintro ⟨rest, rfl⟩
    exact ⟨rest, dropStart?_append start rest⟩

theorem endsWith_iff : endsWith tail s = true ↔ tail <:+ s := by
  rw [endsWith, startsWith_iff, List.reverse_prefix]

theorem hasPiece_iff : hasPiece piece s = true ↔ piece <:+: s := by
  induction s with
  | nil => rw [hasPiece, List.isEmpty_iff, List.infix_nil]
  | cons c s ih => rw [hasPiece, Bool.or_eq_true, startsWith_iff, ih, List.infix_cons_iff]

end CodeAtlas.Text
