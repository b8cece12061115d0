/-
# The values a finite map does not take

`missing f` lists, in increasing order, the elements of `Fin b` outside the
range of `f : α → Fin b`.  It has no repetitions, it has at least `b - |α|`
elements, and exactly that many when `f` is injective.
-/

import Mathlib.Data.Fintype.Card
import Mathlib.Data.List.FinRange
import Mathlib.Data.List.NodupEquivFin

namespace OooProcessor
namespace Lib

variable {α : Type*} [Fintype α] {b : ℕ}

/-- The elements of `Fin b` outside the range of `f`, in increasing order. -/
def missing (f : α → Fin b) : List (Fin b) :=
  (List.finRange b).filter fun p => decide (∀ a, f a ≠ p)

@[simp] theorem mem_missing {f : α → Fin b} {p : Fin b} : p ∈ missing f ↔ ∀ a, f a ≠ p := by
  simp [missing, List.mem_finRange]

theorem nodup_missing (f : α → Fin b) : (missing f).Nodup :=
  (List.nodup_finRange b).filter _

theorem length_missing_eq_card_compl (f : α → Fin b) :
    (missing f).length = b - (Finset.univ.image f).card := by
  have hset : (missing f).toFinset = (Finset.univ.image f)ᶜ := by
    ext p
    simp
  rw [← List.toFinset_card_of_nodup (nodup_missing f), hset, Finset.card_compl, Fintype.card_fin]

/-- At most `|α|` elements are taken. -/
theorem le_length_missing (f : α → Fin b) : b - Fintype.card α ≤ (missing f).length := by
  rw [length_missing_eq_card_compl]
  exact Nat.sub_le_sub_left Finset.card_image_le b

/-- An injective map takes exactly `|α|` elements. -/
theorem length_missing_of_injective {f : α → Fin b} (hf : Function.Injective f) :
    (missing f).length = b - Fintype.card α := by
  rw [length_missing_eq_card_compl, Finset.card_image_of_injective _ hf, Finset.card_univ]

end Lib
end OooProcessor
