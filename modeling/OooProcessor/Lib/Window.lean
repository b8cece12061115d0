/-
# A window onto a circular array

The `n` consecutive cells of a circular array of length `L` that start at `h`,
as a list in order.  A queue kept in such an array is this list: reading the
first cell is its head, moving `h` forward drops the head, and a write to the
cell just past the window appends.  Writes to an array are those of a hardware
description language: one to an index outside the declared range does nothing.
-/

import Mathlib.Data.List.Basic
import Mathlib.Data.Nat.ModEq
import Mathlib.Logic.Function.Basic
import Mathlib.Tactic.Common
import Mathlib.Tactic.SplitIfs

namespace OooProcessor
namespace Lib

variable {α : Type*} {L h n : ℕ} {q : ℕ → α}

/-- Write `x` to index `i` of an array declared with `L` entries. -/
def writeAt (L : ℕ) (q : ℕ → α) (i : ℕ) (x : α) : ℕ → α :=
  if i < L then Function.update q i x else q

@[simp] theorem writeAt_self (L : ℕ) (q : ℕ → α) (i : ℕ) : writeAt L q i (q i) = q := by
  simp [writeAt]

theorem writeAt_of_le (hL : L ≤ n) (q : ℕ → α) (x : α) : writeAt L q n x = q := by
  simp [writeAt, Nat.not_lt.mpr hL]

theorem writeAt_apply_of_ne {i j : ℕ} (hij : j ≠ i) (x : α) : writeAt L q i x j = q j := by
  unfold writeAt
  split_ifs
  · exact Function.update_of_ne hij x q
  · rfl

theorem writeAt_apply_self (hn : n < L) (x : α) : writeAt L q n x n = x := by
  simp [writeAt, hn]

/-- A property of every cell survives a write that has it. -/
theorem writeAt_forall {P : α → Prop} {i : ℕ} {x : α} (hq : ∀ j, P (q j)) (hx : P x) (j : ℕ) :
    P (writeAt L q i x j) := by
  by_cases hj : j = i
  · subst hj
    unfold writeAt
    split_ifs
    · simpa using hx
    · exact hq j
  · rw [writeAt_apply_of_ne hj]
    exact hq j

/-- The index after `i` in a circular array of length `L`, wrapping with a
comparison. -/
def next (L i : ℕ) : ℕ := if i < L - 1 then i + 1 else 0

theorem next_lt (hL : 0 < L) (i : ℕ) : next L i < L := by
  unfold next; split_ifs <;> omega

theorem next_eq_mod (hi : h < L) : next L h = (h + 1) % L := by
  unfold next
  split_ifs with hlt
  · exact (Nat.mod_eq_of_lt (by omega)).symm
  · rw [show h + 1 = L by omega, Nat.mod_self]

/-- The `n` cells from `h` on, in order. -/
def window (L : ℕ) (q : ℕ → α) (h n : ℕ) : List α :=
  (List.range n).map fun i => q ((h + i) % L)

@[simp] theorem window_zero (L : ℕ) (q : ℕ → α) (h : ℕ) : window L q h 0 = [] := rfl

@[simp] theorem length_window : (window L q h n).length = n := by simp [window]

theorem getElem?_window {i : ℕ} (hi : i < n) : (window L q h n)[i]? = some (q ((h + i) % L)) := by
  simp [window, hi]

/-- The window's first cell is the one `h` names. -/
theorem window_succ (hh : h < L) : window L q h (n + 1) = q h :: window L q (next L h) n := by
  rw [next_eq_mod hh]
  simp [window, List.range_succ_eq_map, Nat.mod_eq_of_lt hh, Function.comp_def, Nat.add_comm,
    Nat.add_left_comm]

/-- A longer window ends with the cell past the shorter one. -/
theorem window_succ_right : window L q h (n + 1) = window L q h n ++ [q ((h + n) % L)] := by
  simp [window, List.range_succ]

/-- A write to a cell outside the window leaves it as it was. -/
theorem window_writeAt_of_forall_ne {j : ℕ} (hj : ∀ i < n, (h + i) % L ≠ j) (x : α) :
    window L (writeAt L q j x) h n = window L q h n := by
  unfold window
  refine List.map_congr_left fun i hi => writeAt_apply_of_ne (hj i (List.mem_range.mp hi)) x

theorem mem_window {x : α} : x ∈ window L q h n ↔ ∃ i < n, q ((h + i) % L) = x := by
  simp [window]

end Lib
end OooProcessor
