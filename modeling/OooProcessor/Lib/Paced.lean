/-
# Simulation with a cost

A run `0, 1, 2, …` of one system is related to the states of a machine with the step
`f`.  From related states the run either waits, as often as it has to, or takes the machine
one step further, and every step says how often the run has to wait afterwards.  It is then
known when the run gets to an iterate of `f`, and every state on the way stands for one
before (`reaches`).
-/

import Mathlib.Data.Nat.Init
import Mathlib.Logic.Function.Iterate
import Mathlib.Tactic.Common

namespace OooProcessor
namespace Lib

/-- `R n d a`: at time `n` the run stands for the state `a` and has to wait `d` times. -/
structure Paced {α : Type*} (f : α → α) (Q : α → Prop) (cost : α → ℕ)
    (R : ℕ → ℕ → α → Prop) : Prop where
  step : ∀ {n a}, R n 0 a → Q a → Q (f a) → R (n + 1) (cost a) (f a)
  wait : ∀ {n d a}, R n (d + 1) a → Q a → R (n + 1) d a

/-- The time that `k` steps take. -/
def spent {α : Type*} (f : α → α) (cost : α → ℕ) (a : α) : ℕ → ℕ
  | 0 => 0
  | k + 1 => spent f cost a k + 1 + cost (f^[k] a)

/-- Steps that cost nothing. -/
theorem spent_of_cost_eq_zero {α : Type*} {f : α → α} {cost : α → ℕ} {a : α} {k : ℕ}
    (h : ∀ j < k, cost (f^[j] a) = 0) : spent f cost a k = k := by
  induction k with
  | zero => rfl
  | succ k ih => rw [spent, ih fun j hj => h j (by omega), h k (Nat.lt_succ_self k)]

/-- The time depends on nothing but the costs. -/
theorem spent_congr {α β : Type*} {f : α → α} {g : β → β} {cost : α → ℕ} {cost' : β → ℕ} {a : α}
    {b : β} {k : ℕ} (h : ∀ j < k, cost (f^[j] a) = cost' (g^[j] b)) :
    spent f cost a k = spent g cost' b k := by
  induction k with
  | zero => rfl
  | succ k ih => rw [spent, spent, ih fun j hj => h j (by omega), h k (Nat.lt_succ_self k)]

theorem spent_add {α : Type*} (f : α → α) (cost : α → ℕ) (a : α) (k l : ℕ) :
    spent f cost a (k + l) = spent f cost a k + spent f cost (f^[k] a) l := by
  induction l with
  | zero => rfl
  | succ l ih =>
    rw [← Nat.add_assoc, spent, ih, spent, Nat.add_comm k l, Function.iterate_add_apply]
    omega

/-- Some steps lead from a state to another, in some time. -/
structure Leads {α : Type*} (f : α → α) (cost : α → ℕ) (k d : ℕ) (a b : α) : Prop where
  iterate : f^[k] a = b
  spent : spent f cost a k = d

namespace Leads

variable {α : Type*} {f : α → α} {cost : α → ℕ} {k l d e : ℕ} {a b c : α}

theorem one (h : f a = b) (hd : 1 + cost a = d) : Leads f cost 1 d a b := ⟨h, hd⟩

theorem trans (h : Leads f cost k d a b) (h' : Leads f cost l e b c) :
    Leads f cost (k + l) (d + e) a c := by
  constructor
  · rw [Nat.add_comm, Function.iterate_add_apply, h.iterate, h'.iterate]
  · rw [spent_add, h.spent, h.iterate, h'.spent]

end Leads

namespace Paced

variable {α : Type*} {f : α → α} {Q : α → Prop} {cost : α → ℕ} {R : ℕ → ℕ → α → Prop}
  {n d : ℕ} {a : α} (P : Paced f Q cost R)

include P

/-- The run waits and stands for the state meanwhile. -/
theorem waits (h : R n d a) (hQ : Q a) {i : ℕ} (hi : n ≤ i) (hle : i ≤ n + d) :
    R i (n + d - i) a := by
  induction i, hi using Nat.le_induction with
  | base => rwa [Nat.add_sub_cancel_left]
  | succ i hi ih =>
    have hwait := ih (by omega)
    rw [show n + d - i = n + d - (i + 1) + 1 from by omega] at hwait
    exact P.wait hwait hQ

/-- **The run gets to an iterate** after the time that the steps take, and stands for it or
one before until then. -/
theorem reaches (h : R n d a) (k : ℕ) (hQ : ∀ j ≤ k, Q (f^[j] a)) :
    R (n + d + spent f cost a k) 0 (f^[k] a) ∧
      ∀ i, n ≤ i → i < n + d + spent f cost a k →
        ∃ j ≤ k, ∃ e, R i e (f^[j] a) ∧ (e = 0 → j < k) := by
  induction k with
  | zero =>
    have hwait {i : ℕ} := P.waits h (hQ 0 (Nat.le_refl 0)) (i := i)
    refine ⟨?_, fun i hi hlt => ?_⟩
    · have hlast := hwait (Nat.le_add_right n d) (Nat.le_refl _)
      rwa [Nat.sub_self] at hlast
    · rw [spent, Nat.add_zero] at hlt
      exact ⟨0, Nat.le_refl 0, _, hwait hi (by omega), fun he => by omega⟩
  | succ k ih =>
    obtain ⟨hk, hbefore⟩ := ih fun j hj => hQ j (by omega)
    have hnext := hQ (k + 1) (Nat.le_refl _)
    rw [Function.iterate_succ_apply'] at hnext
    have hwait {i : ℕ} := P.waits (P.step hk (hQ k (by omega)) hnext) hnext (i := i)
    rw [spent, Function.iterate_succ_apply', ← Nat.add_assoc, ← Nat.add_assoc]
    refine ⟨?_, fun i hi hlt => ?_⟩
    · have hlast := hwait (Nat.le_add_right _ _) (Nat.le_refl _)
      rwa [Nat.sub_self] at hlast
    · rcases Nat.lt_trichotomy i (n + d + spent f cost a k) with hlater | heq | hlater
      · obtain ⟨j, hj, e, hR, -⟩ := hbefore i hi hlater
        exact ⟨j, by omega, e, hR, fun _ => by omega⟩
      · exact ⟨k, Nat.le_succ k, 0, heq ▸ hk, fun _ => Nat.lt_succ_self k⟩
      · have hhere := hwait (i := i) hlater (by omega)
        rw [← Function.iterate_succ_apply' f k a] at hhere
        exact ⟨k + 1, Nat.le_refl _, _, hhere, fun he => by omega⟩

end Paced

end Lib
end OooProcessor
