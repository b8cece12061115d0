/-
# Two-edge clocked machines in a closed loop

A synchronous design whose registers change on either edge of one clock is a
reset state and two functions, one for each edge.  Its environment answers the
design's outputs: in cycle `n` it may look at the state before the rising edge
and chooses the inputs of that cycle.  An input stream fixed beforehand is the
environment that does not look.

`run` lists the states before each rising edge and `high` the states between a
rising edge and the falling edge after it; together they are all the states of
a run.  The rules below are the inductions the developments over such a machine
use: an invariant of every cycle, an invariant that survives the cycles which
meet a condition, and an invariant of every `k`-th state with what follows from
it for the states between.
-/

import Mathlib.Tactic.Common

namespace OooProcessor
namespace Lib

/-- A machine with a reset state and one transition for each clock edge. -/
structure Clocked (σ ι : Type*) where
  reset : σ
  posedge : ι → σ → σ
  negedge : ι → σ → σ

namespace Clocked

variable {σ ι : Type*} (M : Clocked σ ι)

/-- One clock cycle: the rising edge, then the falling edge. -/
def cycle (i : ι) (s : σ) : σ := M.negedge i (M.posedge i s)

/-- The state before the rising edge of cycle `n`. -/
def run (env : ℕ → σ → ι) : ℕ → σ
  | 0 => M.reset
  | n + 1 =>
    let s := run env n
    M.cycle (env n s) s

/-- The inputs the environment supplies in cycle `n`. -/
def input (env : ℕ → σ → ι) (n : ℕ) : ι := env n (M.run env n)

/-- The state of cycle `n` between its two edges. -/
def high (env : ℕ → σ → ι) (n : ℕ) : σ := M.posedge (M.input env n) (M.run env n)

variable {M}

/-- **An invariant of the cycle is an invariant of the run**, where the steps
may be assumed to meet a condition `C` on the inputs and the state before. -/
theorem run_invariant_of {P : σ → Prop} {C : ι → σ → Prop} (h0 : P M.reset)
    (hstep : ∀ i s, P s → C i s → P (M.cycle i s)) (env : ℕ → σ → ι) (n : ℕ)
    (hC : ∀ k < n, C (M.input env k) (M.run env k)) : P (M.run env n) := by
  induction n with
  | zero => exact h0
  | succ n ih =>
    exact hstep _ _ (ih fun k hk => hC k (Nat.lt_succ_of_lt hk)) (hC n (Nat.lt_succ_self n))

/-- An invariant of the cycle, whatever the inputs. -/
theorem run_invariant {P : σ → Prop} (h0 : P M.reset)
    (hstep : ∀ i s, P s → P (M.cycle i s)) (env : ℕ → σ → ι) (n : ℕ) : P (M.run env n) :=
  run_invariant_of (C := fun _ _ => True) h0 (fun i s hs _ => hstep i s hs) env n
    fun _ _ => trivial

/-- **An invariant of every `k`-th state.**  From one such state to the next it
is enough to follow the `k` cycles between them. -/
theorem run_every {k : ℕ} {P : ℕ → Prop} (h0 : P 0)
    (hstep : ∀ n, n % k = 0 → P n → P (n + k)) (n : ℕ) (hn : n % k = 0) : P n := by
  have hmul : ∀ m, P (k * m) := by
    intro m
    induction m with
    | zero => exact h0
    | succ m ih => exact hstep _ (Nat.mul_mod_right k m) ih
  have := hmul (n / k)
  rwa [Nat.mul_div_cancel' (Nat.dvd_of_mod_eq_zero hn)] at this

/-- **A property of the `k` states from every `k`-th one on** is one of every
state. -/
theorem run_all {k : ℕ} (hk : 0 < k) {P : ℕ → Prop}
    (h : ∀ n, n % k = 0 → ∀ j < k, P (n + j)) (n : ℕ) : P n := by
  have := h (k * (n / k)) (Nat.mul_mod_right k _) (n % k) (Nat.mod_lt n hk)
  rwa [Nat.div_add_mod] at this

end Clocked

end Lib
end OooProcessor
