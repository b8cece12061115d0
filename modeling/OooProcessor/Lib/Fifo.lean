/-
# Bounded queues

A queue that holds at most `capacity` values.  In each cycle it may be asked for its
oldest value and offered a new one; it takes the new one unless it is full at the start of
the cycle, gives the oldest one unless it is empty or stalled, and forgets everything
when it is flushed.

Without a flush nothing is lost or reordered: what a run has given away and what it still
holds are, in this order, what it started with and what it has taken
(`given_append_run`).
-/

import Mathlib.Data.List.Basic
import Mathlib.Data.Nat.Count
import Mathlib.Tactic.Common

namespace OooProcessor
namespace Lib
namespace Fifo

variable {α : Type*}

/-- What a queue is asked in a cycle. -/
structure Request (α : Type*) where
  offer : Bool
  value : α
  ask : Bool
  stall : Bool
  flush : Bool

variable (capacity : ℕ)

/-- The offer is taken. -/
def takes (r : Request α) (l : List α) : Bool := r.offer && decide (l.length < capacity)

/-- The value that is given. -/
def gives (r : Request α) (l : List α) : Option α := if r.ask && !r.stall then l.head? else none

/-- One cycle. -/
def step (r : Request α) (l : List α) : List α :=
  if r.flush then []
  else l.drop (gives r l).toList.length ++ (if takes capacity r l then [r.value] else [])

/-- The queue before each cycle. -/
def run (l₀ : List α) (r : ℕ → Request α) : ℕ → List α
  | 0 => l₀
  | n + 1 => step capacity (r n) (run l₀ r n)

/-- The values given in the first `n` cycles. -/
def given (l₀ : List α) (r : ℕ → Request α) : ℕ → List α
  | 0 => []
  | n + 1 => given l₀ r n ++ (gives (r n) (run capacity l₀ r n)).toList

/-- The values taken in them. -/
def taken (l₀ : List α) (r : ℕ → Request α) : ℕ → List α
  | 0 => []
  | n + 1 =>
    taken l₀ r n ++ (if takes capacity (r n) (run capacity l₀ r n) then [(r n).value] else [])

variable {capacity} {l₀ : List α} {r : ℕ → Request α} {n : ℕ}

/-- The value given is the oldest. -/
theorem toList_gives_append_drop (r : Request α) (l : List α) :
    (gives r l).toList ++ l.drop (gives r l).toList.length = l := by
  unfold gives
  split_ifs
  · cases l with
    | nil => rfl
    | cons a l => rfl
  · rfl

/-- **Nothing is lost or reordered.** -/
theorem given_append_run (hf : ∀ k < n, (r k).flush = false) :
    given capacity l₀ r n ++ run capacity l₀ r n = l₀ ++ taken capacity l₀ r n := by
  induction n with
  | zero => exact (List.append_nil l₀).symm
  | succ n ih =>
    have hbefore := ih fun k hk => hf k (Nat.lt_succ_of_lt hk)
    have hoff : (r n).flush = false := hf n (Nat.lt_succ_self n)
    rw [given, run, step, hoff, if_neg Bool.false_ne_true, taken, List.append_assoc,
      ← List.append_assoc (gives _ _).toList, toList_gives_append_drop, ← List.append_assoc,
      hbefore, List.append_assoc]

section Drain

/-- How often a value is asked for in the first `n` cycles. -/
def asks (r : ℕ → Request α) (n : ℕ) : ℕ :=
  Nat.count (fun k => (r k).ask = true ∧ (r k).stall = false) n

/-- A queue that is offered nothing loses its first value whenever one is asked for. -/
theorem run_eq_drop (ho : ∀ k, (r k).offer = false) (hf : ∀ k, (r k).flush = false) (n : ℕ) :
    run capacity l₀ r n = l₀.drop (asks r n) := by
  induction n with
  | zero => rfl
  | succ n ih =>
    rw [run, step, hf, if_neg Bool.false_ne_true, takes, ho, Bool.false_and,
      if_neg Bool.false_ne_true, List.append_nil, ih, asks, asks, Nat.count_succ, gives]
    by_cases hask : (r n).ask = true ∧ (r n).stall = false
    · obtain ⟨ha, hs⟩ := hask
      simp only [ha, hs, Bool.not_false, Bool.and_self, if_true, and_self]
      rw [← List.drop_drop]
      cases l₀.drop _ with
      | nil => rfl
      | cons a l => rfl
    · have hoff : ¬((r n).ask && !(r n).stall) = true := by simpa using hask
      rw [if_neg hask, if_neg hoff]
      rfl

/-- **And gives away what it started with, in order.** -/
theorem given_eq_take (ho : ∀ k, (r k).offer = false) (hf : ∀ k, (r k).flush = false) (n : ℕ) :
    given capacity l₀ r n = l₀.take (asks r n) := by
  have hnone : taken capacity l₀ r n = [] := by
    induction n with
    | zero => rfl
    | succ n ih =>
      rw [taken, ih, takes, ho, Bool.false_and, if_neg Bool.false_ne_true, List.append_nil]
  have hlaw : given capacity l₀ r n ++ run capacity l₀ r n = l₀ ++ taken capacity l₀ r n :=
    given_append_run fun k _ => hf k
  rw [hnone, List.append_nil, run_eq_drop ho hf] at hlaw
  have hsplit := List.take_append_drop (asks r n) l₀
  exact List.append_cancel_right (hlaw.trans hsplit.symm)

end Drain

section Like

/-- The same requests but for the values offered. -/
def Like (r r' : ℕ → Request α) : Prop :=
  ∀ k, (r k).offer = (r' k).offer ∧ (r k).ask = (r' k).ask ∧ (r k).stall = (r' k).stall ∧
    (r k).flush = (r' k).flush

variable {r' : ℕ → Request α}

theorem length_toList_gives (r : Request α) (l : List α) :
    (gives r l).toList.length = if r.ask && !r.stall then min 1 l.length else 0 := by
  unfold gives
  split_ifs
  · cases l with
    | nil => rfl
    | cons a l => simp
  · rfl

/-- **How much a queue holds, gives and takes does not depend on the values.** -/
theorem length_run_like (h : Like r r') (n : ℕ) :
    (run capacity l₀ r n).length = (run capacity l₀ r' n).length := by
  induction n with
  | zero => rfl
  | succ n ih =>
    obtain ⟨hoffer, hask, hstall, hflush⟩ := h n
    rw [run, run, step, step, hflush]
    split_ifs with hf ht ht' ht'
    · rfl
    · simp only [List.length_append, List.length_drop, length_toList_gives, hask, hstall, ih,
        List.length_singleton]
    · exact absurd (by rwa [takes, hoffer, ih] at ht) ht'
    · exact absurd (by rwa [takes, ← hoffer, ← ih] at ht') ht
    · simp only [List.length_append, List.length_drop, length_toList_gives, hask, hstall, ih]

theorem takes_like (h : Like r r') (n : ℕ) :
    takes capacity (r n) (run capacity l₀ r n) = takes capacity (r' n) (run capacity l₀ r' n) := by
  rw [takes, takes, (h n).1, length_run_like h n]

theorem length_given_like (h : Like r r') (n : ℕ) :
    (given capacity l₀ r n).length = (given capacity l₀ r' n).length := by
  induction n with
  | zero => rfl
  | succ n ih =>
    obtain ⟨-, hask, hstall, -⟩ := h n
    rw [given, given, List.length_append, List.length_append, ih, length_toList_gives,
      length_toList_gives, hask, hstall, length_run_like h n]

end Like

end Fifo
end Lib
end OooProcessor
