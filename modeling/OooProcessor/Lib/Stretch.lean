/-
# Stretches

A scan that counts how many consecutive numbers have a property, and starts again at
each that has not, knows the length of the stretch it is at the end of.  `stretch p
lo n` is that length before `n` for a scan from `lo`; `le_stretch_iff` is what it says.
-/

import Mathlib.Order.Basic
import Mathlib.Order.Nat
import Mathlib.Tactic.Common
import Mathlib.Tactic.SplitIfs

namespace OooProcessor
namespace Lib

/-- How many numbers from `lo` on and right before `n` have the property `p`. -/
def stretch (p : ℕ → Bool) (lo : ℕ) : ℕ → ℕ
  | 0 => 0
  | n + 1 => if n < lo then 0 else if p n then stretch p lo n + 1 else 0

variable {p : ℕ → Bool} {lo n k : ℕ}

theorem stretch_of_le (h : n ≤ lo) : stretch p lo n = 0 := by
  cases n with
  | zero => rfl
  | succ n => exact if_pos h

@[simp] theorem stretch_self : stretch p lo lo = 0 := stretch_of_le (Nat.le_refl lo)

theorem stretch_succ (h : lo ≤ n) :
    stretch p lo (n + 1) = if p n then stretch p lo n + 1 else 0 :=
  if_neg (Nat.not_lt.mpr h)

/-- **What the counter of the scan says.** -/
theorem le_stretch_iff (h : lo ≤ n) :
    k ≤ stretch p lo n ↔ lo + k ≤ n ∧ ∀ x, n ≤ x + k → x < n → p x = true := by
  induction n, h using Nat.le_induction generalizing k with
  | base =>
    rw [stretch_self]
    constructor
    · intro hk
      exact ⟨by omega, fun x hx hlt => absurd hlt (by omega)⟩
    · rintro ⟨hk, -⟩
      omega
  | succ n hlo ih =>
    rw [stretch_succ hlo]
    cases k with
    | zero =>
      exact ⟨fun _ => ⟨by omega, fun x hx hlt => absurd hlt (by omega)⟩, fun _ => Nat.zero_le _⟩
    | succ k =>
      split_ifs with hp
      · rw [Nat.add_le_add_iff_right, ih]
        constructor
        · rintro ⟨hk, hall⟩
          refine ⟨by omega, fun x hx hlt => ?_⟩
          rcases Nat.lt_succ_iff_lt_or_eq.mp hlt with hlt | rfl
          · exact hall x (by omega) hlt
          · exact hp
        · rintro ⟨hk, hall⟩
          exact ⟨by omega, fun x hx hlt => hall x (by omega) (by omega)⟩
      · constructor
        · intro hk
          omega
        · rintro ⟨-, hall⟩
          exact absurd (hall n (by omega) (Nat.lt_succ_self n)) hp

/-- The counter has not passed the numbers scanned. -/
theorem stretch_le (h : lo ≤ n) : lo + stretch p lo n ≤ n :=
  ((le_stretch_iff h).mp le_rfl).1

end Lib
end OooProcessor
