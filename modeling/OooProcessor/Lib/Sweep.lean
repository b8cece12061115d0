/-
# A loop over the cells of an array

`for (i = 0; i < n; i = i + 1)` with a body that may read the whole array and
changes only the cell it visits.  What such a loop leaves in a cell is what the
body makes of that cell when its turn comes (`sweep_apply`): the cell is still the
one from before the loop (`visit_self`), its neighbours may not be.
-/

import Mathlib.Data.List.FinRange
import Mathlib.Tactic.Common

namespace OooProcessor
namespace Lib

variable {α : Type*} {n : ℕ}

/-- The body of the loop changes only the cell it visits. -/
def Local (body : (Fin n → α) → Fin n → Fin n → α) : Prop :=
  ∀ q i j, j ≠ i → body q i j = q j

/-- The loop over all the cells. -/
def sweep (body : (Fin n → α) → Fin n → Fin n → α) (q : Fin n → α) : Fin n → α :=
  (List.finRange n).foldl body q

/-- The array as it is when the loop comes to cell `x`. -/
def visit (body : (Fin n → α) → Fin n → Fin n → α) (q : Fin n → α) (x : Fin n) : Fin n → α :=
  ((List.finRange n).take x).foldl body q

variable {body : (Fin n → α) → Fin n → Fin n → α} {q : Fin n → α} {x : Fin n}

theorem foldl_of_notMem (hbody : Local body) {l : List (Fin n)} (hx : x ∉ l) (q : Fin n → α) :
    l.foldl body q x = q x := by
  induction l generalizing q with
  | nil => rfl
  | cons i l ih =>
    rw [List.mem_cons, not_or] at hx
    rw [List.foldl_cons, ih hx.2, hbody q i x hx.1]

/-- The loop's list of cells, split at `x`. -/
theorem finRange_split (x : Fin n) : ∃ l, List.finRange n = (List.finRange n).take x ++ x :: l ∧
    x ∉ (List.finRange n).take x ∧ x ∉ l := by
  have hlt : x.val < (List.finRange n).length := by simp
  have hsplit : List.finRange n =
      (List.finRange n).take x ++ x :: (List.finRange n).drop (x + 1) := by
    have hget : (List.finRange n)[x.val] = x := by simp
    have := List.take_append_drop x.val (List.finRange n)
    rw [List.drop_eq_getElem_cons hlt, hget] at this
    exact this.symm
  have hnodup := List.nodup_finRange n
  rw [hsplit, List.nodup_append] at hnodup
  obtain ⟨-, hright, hdisj⟩ := hnodup
  refine ⟨_, hsplit, fun hmem => ?_, (List.nodup_cons.mp hright).1⟩
  exact hdisj x hmem x List.mem_cons_self rfl

/-- **A cell is as the body leaves it.** -/
theorem sweep_apply (hbody : Local body) (q : Fin n → α) (x : Fin n) :
    sweep body q x = body (visit body q x) x x := by
  obtain ⟨l, hsplit, -, hl⟩ := finRange_split x
  unfold sweep
  rw [hsplit, List.foldl_append, List.foldl_cons, foldl_of_notMem hbody hl]
  rfl

/-- Until its turn a cell is as it was before the loop. -/
theorem visit_self (hbody : Local body) (q : Fin n → α) (x : Fin n) :
    visit body q x x = q x := by
  obtain ⟨l, -, hx, -⟩ := finRange_split x
  exact foldl_of_notMem hbody hx q

end Lib
end OooProcessor
