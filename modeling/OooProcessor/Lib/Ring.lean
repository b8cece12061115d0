/-
# A ring with pointers that wrap by themselves

`Lib.window` for an array whose index type is `Fin L`, so that a pointer wraps
when it is incremented: the `n` cells from `h` on as a list, oldest first, and the
cells among them.
-/

import Mathlib.Algebra.Group.Fin.Basic
import Mathlib.Algebra.GroupWithZero.Nat
import Mathlib.Data.List.Forall2
import Mathlib.Logic.Function.Basic
import Mathlib.Tactic.Common

namespace OooProcessor
namespace Lib

variable {α : Type*} {L : ℕ} [NeZero L] {q : Fin L → α} {h j : Fin L} {n : ℕ}

/-- The `n` cells from `h` on, in order. -/
def ring (q : Fin L → α) (h : Fin L) (n : ℕ) : List α :=
  (List.range n).map fun k => q (h + Fin.ofNat L k)

/-- `j` is one of the `n` cells from `h` on. -/
def inRing (h : Fin L) (n : ℕ) (j : Fin L) : Bool := decide ((j - h).val < n)

@[simp] theorem length_ring : (ring q h n).length = n := by simp [ring]

theorem ofNat_succ (k : ℕ) : Fin.ofNat L (k + 1) = 1 + Fin.ofNat L k := by
  ext
  simp [Fin.val_add, Nat.add_comm]

/-- The ring's first cell is the one `h` names. -/
theorem ring_succ (q : Fin L → α) (h : Fin L) (n : ℕ) :
    ring q h (n + 1) = q h :: ring q (h + 1) n := by
  have h0 : h + Fin.ofNat L 0 = h := by
    rw [show Fin.ofNat L 0 = 0 from rfl, add_zero]
  rw [ring, List.range_succ_eq_map, List.map_cons, List.map_map, h0]
  refine congrArg (q h :: ·) (List.map_congr_left fun k _ => ?_)
  show q (h + Fin.ofNat L (k + 1)) = q (h + 1 + Fin.ofNat L k)
  rw [ofNat_succ, add_assoc]

/-- A longer ring ends with the cell past the shorter one. -/
theorem ring_succ_right (q : Fin L → α) (h : Fin L) (n : ℕ) :
    ring q h (n + 1) = ring q h n ++ [q (h + Fin.ofNat L n)] := by
  simp [ring, List.range_succ]

theorem ring_map {β : Type*} (f : α → β) (q : Fin L → α) (h : Fin L) (n : ℕ) :
    ring (fun j => f (q j)) h n = (ring q h n).map f := by
  simp [ring, Function.comp_def]

/-- Cells of a ring that is not longer than the array are different ones. -/
theorem ofNat_ne {k : ℕ} (hk : k < n) (hn : n < L) :
    h + Fin.ofNat L k ≠ h + Fin.ofNat L n := by
  intro heq
  have hval := congrArg Fin.val (add_left_cancel heq)
  simp [Nat.mod_eq_of_lt hn, Nat.mod_eq_of_lt (Nat.lt_trans hk hn)] at hval
  omega

/-- A write to the cell past the ring leaves the ring as it was. -/
theorem ring_update_past (hn : n < L) (x : α) :
    ring (Function.update q (h + Fin.ofNat L n) x) h n = ring q h n := by
  refine List.map_congr_left fun k hk => Function.update_of_ne ?_ x q
  exact ofNat_ne (List.mem_range.mp hk) hn

/-- **Appending.** -/
theorem ring_push (hn : n < L) (x : α) :
    ring (Function.update q (h + Fin.ofNat L n) x) h (n + 1) = ring q h n ++ [x] := by
  rw [ring_succ_right, ring_update_past hn, Function.update_self]

/-- A write to the cell `h` names leaves the rest of the ring as it was. -/
theorem ring_update_head (hn : n < L) (x : α) :
    ring (Function.update q h x) (h + 1) n = ring q (h + 1) n := by
  refine List.map_congr_left fun k hk => Function.update_of_ne ?_ x q
  intro heq
  have hlt := List.mem_range.mp hk
  rw [add_assoc, ← ofNat_succ] at heq
  exact ofNat_ne (h := h) (k := 0) (n := k + 1) (by omega) (by omega)
    (by rw [heq, show Fin.ofNat L 0 = 0 from rfl, add_zero])

/-- Moving `h` forward brings every other cell one closer. -/
theorem val_sub_add_one (hj : j ≠ h) : (j - (h + 1)).val + 1 = (j - h).val := by
  have hne : j - h ≠ 0 := sub_ne_zero.mpr hj
  have hpos : (j - h).val ≠ 0 := fun h0 => hne (Fin.ext h0)
  rw [← sub_sub, Fin.val_sub_one_of_ne_zero hne]
  omega

end Lib
end OooProcessor
