/-
# Evaluation in normal form

A run of a machine is computed by iterating its transition, and a kernel that
evaluates lazily substitutes each state, unevaluated, wherever the next one reads
it.  `Strict.force a k` is `k a` (`Strict.force_eq`), but it brings `a` to normal
form first, by matching on it down to its last digit, so that an iteration through
`force` shares the values it has computed.  Arrays are forced cell by cell, as far
as they are declared.

`Clocked.evalRun` is the run of a clocked machine computed so.
-/

import OooProcessor.Lib.Clocked
import Mathlib.Data.BitVec
import Mathlib.Tactic.Common

namespace OooProcessor
namespace Lib

/-- Types whose values can be brought to normal form before a computation goes
on. -/
class Strict (α : Type*) where
  force {β : Type} : α → (α → β) → β
  force_eq {β : Type} (a : α) (k : α → β) : force a k = k a

namespace Strict

attribute [simp] force_eq

instance : Strict Bool where
  force b k :=
    match b with
    | true => k true
    | false => k false
  force_eq b _ := by cases b <;> rfl

instance : Strict ℕ where
  force n k :=
    match n with
    | 0 => k 0
    | m + 1 => k (m + 1)
  force_eq n _ := by cases n <;> rfl

instance : Strict ℤ where
  force z k :=
    match z with
    | .ofNat n => force n fun n => k (.ofNat n)
    | .negSucc n => force n fun n => k (.negSucc n)
  force_eq z _ := by cases z <;> simp

instance {n : ℕ} : Strict (Fin n) where
  force a k := force a.val fun v => if h : v < n then k ⟨v, h⟩ else k a
  force_eq a _ := by simp

instance {w : ℕ} : Strict (BitVec w) where
  force a k := force a.toFin fun v => k ⟨v⟩
  force_eq a _ := by simp

variable {α : Type*} [Strict α] {β : Type}

instance {γ : Type*} [Strict γ] : Strict (α × γ) where
  force a k := force a.1 fun x => force a.2 fun y => k (x, y)
  force_eq a _ := by simp

/-- The first `n` values of `f`, forced from the last one down. -/
def table (f : ℕ → α) : ℕ → List α → (List α → β) → β
  | 0, acc, k => k acc
  | n + 1, acc, k => force (f n) fun x => table f n (x :: acc) k

theorem table_eq (f : ℕ → α) (k : List α → β) :
    ∀ n acc, table f n acc k = k ((List.range n).map f ++ acc)
  | 0, _ => rfl
  | n + 1, acc => by
    rw [table, force_eq, table_eq f k n]
    simp [List.range_succ]

/-- The array `f` with its first `n` cells forced. -/
def forceCells (n : ℕ) (f : ℕ → α) (k : (ℕ → α) → β) : β :=
  table f n [] fun l => k fun i => l.getD i (f i)

@[simp] theorem forceCells_eq (n : ℕ) (f : ℕ → α) (k : (ℕ → α) → β) :
    forceCells n f k = k f := by
  rw [forceCells, table_eq]
  congr 1
  funext i
  by_cases hi : i < n <;> simp [List.getD, hi]

instance {n : ℕ} [NeZero n] : Strict (Fin n → α) where
  force f k := forceCells n (fun i => f (Fin.ofNat n i)) fun g => k fun a => g a.val
  force_eq f _ := by simp

end Strict

namespace Clocked

variable {σ ι : Type*} [Strict σ] (M : Clocked σ ι) (env : ℕ → σ → ι) {β : Type}

/-- `f` of the state `k` cycles after the state `s` of cycle `n`. -/
def evalFrom (f : σ → β) : ℕ → ℕ → σ → β
  | 0, _, s => f s
  | k + 1, n, s => Strict.force (M.cycle (env n s) s) fun s' => evalFrom f k (n + 1) s'

/-- `f` of the state before the rising edge of cycle `n`. -/
def evalRun (n : ℕ) (f : σ → β) : β := M.evalFrom env f n 0 M.reset

theorem evalFrom_eq (f : σ → β) (k n : ℕ) :
    M.evalFrom env f k n (M.run env n) = f (M.run env (n + k)) := by
  induction k generalizing n with
  | zero => rfl
  | succ k ih =>
    rw [evalFrom, Strict.force_eq, ← Nat.add_assoc, Nat.add_right_comm]
    exact ih (n + 1)

theorem evalRun_eq (n : ℕ) (f : σ → β) : M.evalRun env n f = f (M.run env n) := by
  have h := M.evalFrom_eq env f n 0
  rwa [Nat.zero_add] at h

end Clocked
end Lib
end OooProcessor
