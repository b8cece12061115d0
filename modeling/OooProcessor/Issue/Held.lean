/-
# What the slots of Issue hold

A slot that is occupied was filled in the cycle `enqueuedAt` names and holds the
instruction enqueued then (`holds_run`); an empty one asks for nothing.  So the
cycle of its enqueue tells an instruction apart from every other, however often its
slot is used again (`le_enqueuedAt`).
-/

import OooProcessor.Issue.Capture

namespace OooProcessor
namespace Issue

open Lib

/-- What a falling edge leaves of a slot, its operands and their ready bits apart. -/
def Keeping (c c' : Slot) : Prop :=
  c'.info = c.info ∧ c'.empty = c.empty ∧ c'.instrNum = c.instrNum ∧ c'.multReady = c.multReady

section Edges

variable {i : Inputs} {s : State} {x : Fin 16}

/-- One turn of the wakeup loop writes operands only. -/
theorem keeping_listen (u : Wakeup) (queue : Fin 16 → Slot) (x : Fin 16) :
    Keeping (queue x) (listen u queue x x) := by
  have hhear (map : BitVec 6) (val : Word) (q : Fin 16 → Slot) :
      Keeping (q x) (hear map val q x x) := by
    simp [Keeping, hear]
  have hexe : Keeping (queue x) (hearExe u queue x x) := by
    unfold hearExe
    split_ifs
    · exact hhear _ _ _
    · exact ⟨rfl, rfl, rfl, rfl⟩
  unfold listen hearMem
  split_ifs
  · obtain ⟨hinfo, hempty, hnum, hmult⟩ := hhear u.memBroadcastMap u.memBroadcastVal
      (hearExe u queue x)
    exact ⟨hinfo.trans hexe.1, hempty.trans hexe.2.1, hnum.trans hexe.2.2.1,
      hmult.trans hexe.2.2.2⟩
  · exact hexe

/-- **A falling edge** gives permissions and wakes operands, unless it is flushed or
stalled. -/
theorem keeping_negedge (i : Inputs) (s : State) (x : Fin 16) :
    Keeping (if i.wakeup.flush || i.wakeup.stall then s.queue x
      else permit i.wakeup (s.queue x)) ((negedge i s).queue x) := by
  unfold negedge
  dsimp only
  split_ifs
  · exact ⟨rfl, rfl, rfl, rfl⟩
  · have h := keeping_listen i.wakeup (visit (listen i.wakeup) (permitted i.wakeup s) x) x
    rw [← sweep_apply (local_listen i.wakeup), visit_self (local_listen i.wakeup), permitted] at h
    dsimp only
    exact h
  · exact ⟨rfl, rfl, rfl, rfl⟩

theorem instrNum_negedge (i : Inputs) (s : State) (x : Fin 16) :
    ((negedge i s).queue x).instrNum = (s.queue x).instrNum := by
  rw [(keeping_negedge i s x).2.2.1]
  split_ifs <;> rfl

/-- **An enqueue is given an empty slot.** -/
theorem empty_of_enqueues (h : enqueues i s = some x) : (s.queue x).empty = true := by
  unfold enqueues enqueSlot at h
  split_ifs at h
  exact ArbiterMain.of_granted h

/-- **The slot that is filled** holds what is enqueued: it is not the one that is sent. -/
theorem queue_of_enqueues (hidle : Idle s) (h : enqueues i s = some x) :
    (posedge i s).queue x = enqueued i (s.queue x) := by
  have hempty := empty_of_enqueues h
  have hfill : enque i s x = enqueued i (s.queue x) := by
    rcases enque_cases i s x with ⟨-, hat⟩ | ⟨hno, -⟩
    · exact hat
    · unfold enqueues at h
      split_ifs at h
      exact absurd h hno
  unfold enqueues at h
  split_ifs at h with hno
  have hgo := hno
  rw [Bool.or_eq_true, not_or] at hgo
  rw [posedge, if_neg hgo.1, if_neg hgo.2]
  cases hout : instrOutIndex s with
  | none => exact hfill
  | some y =>
    have hsends : sends i s = some y := (if_neg hno).trans hout
    have hne : x ≠ y := by
      rintro rfl
      have hocc := occupied_of_sends hidle hsends
      exact absurd (hocc.symm.trans hempty) Bool.false_ne_true
    exact (Function.update_of_ne hne _ _).trans hfill

end Edges

variable {multReady : Fin 16 → Bool} {env : ℕ → State → Inputs} {n : ℕ}

/-- What is kept of the instructions enqueued in the cycles `filled x`. -/
structure Holds (multReady : Fin 16 → Bool) (env : ℕ → State → Inputs) (filled : Fin 16 → ℕ)
    (s : State) : Prop where
  empty : ∀ x, (s.queue x).empty = true → ∀ k, (s.queue x).ready k = false
  info : ∀ x, (s.queue x).empty = false → (s.queue x).info =
    (input multReady env (filled x)).renameIssueinfo.extractLsb' 0 138
  instrNum : ∀ x, (s.queue x).empty = false →
    (s.queue x).instrNum = (input multReady env (filled x)).renameInstrNum

theorem holds_high (h : Holds multReady env (enqueuedAt multReady env n) (run multReady env n)) :
    Holds multReady env (enqueuedAt multReady env (n + 1)) (high multReady env n) where
  empty := idle_high h.empty
  info := high_forall (P := fun _ m c =>
    c.info = (input multReady env m).renameIssueinfo.extractLsb' 0 138) (fun _ => rfl) h.info
  instrNum := high_forall (P := fun _ m c => c.instrNum = (input multReady env m).renameInstrNum)
    (fun _ => rfl) h.instrNum

theorem holds_succ {filled : Fin 16 → ℕ} (h : Holds multReady env filled (high multReady env n)) :
    Holds multReady env filled (run multReady env (n + 1)) := by
  have hrun : run multReady env (n + 1) =
      negedge (input multReady env n) (high multReady env n) := rfl
  have hfixed := negedge_fixed (input multReady env n) (high multReady env n)
  rw [← hrun] at hfixed
  refine ⟨idle_succ h.empty, fun x hx => ?_, fun x hx => ?_⟩
  · rw [(hfixed x).2] at hx
    rw [(hfixed x).1]
    exact h.info x hx
  · rw [(hfixed x).2] at hx
    rw [hrun, instrNum_negedge]
    exact h.instrNum x hx

/-- **An occupied slot holds what was enqueued** when it was filled. -/
theorem holds_run (n : ℕ) :
    Holds multReady env (enqueuedAt multReady env n) (run multReady env n) := by
  induction n with
  | zero =>
    exact ⟨fun _ _ _ => rfl, fun _ h => absurd (show true = false from h) (by decide),
      fun _ h => absurd (show true = false from h) (by decide)⟩
  | succ n ih => exact holds_succ (holds_high ih)

end Issue
end OooProcessor
