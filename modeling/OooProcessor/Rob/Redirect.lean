/-
# Redirecting fetch

A mispredicted jump or branch redirects with the commit after its own, that of
its delay slot, and a syscall with its own commit (`Due`).  ROB.v assigns
`flush`, `Request_alt_pc_IF` and `Alt_PC_IF` for both, and then runs the recovery
block, which assigns 0 to the three of them in the same cycle; the last assignment
is the one that counts.  So the buffer is emptied and fetch never hears of it:
`flush` and `Request_alt_pc_IF` are low in every state (`silent`), and a commit
does what it should exactly if no redirect is due (`recovers_iff`).
-/

import OooProcessor.Rtl.Rob

namespace OooProcessor
namespace Rob

open Lib

/-- The outputs to IF send it to `pc`. -/
def RedirectsTo (s : State) (pc : Word) : Prop :=
  s.flush = true ∧ s.requestAltPcIF = true ∧ s.altPcIF = pc

variable (env : ℕ → State → Inputs)

/-- The entry committed last before cycle `n`. -/
def lastCommitted : ℕ → Option Slot
  | 0 => none
  | n + 1 => if commits (run env n) then some (head (run env n)) else lastCommitted n

/-- The program counter of the entry last enqueued into cell `j` before cycle
`n`. -/
def pcOf : ℕ → Fin 64 → Word
  | 0, _ => 0
  | n + 1, j =>
    if accepts (machine.input env n) (run env n) ∧ j = (run env n).enquePointer then
      renamePc (machine.input env n)
    else pcOf n j

/-- The entry committed before was a mispredicted jump or branch, to go on at
`pc`. -/
def BranchDue (n : ℕ) (pc : Word) : Prop :=
  ∃ b, lastCommitted env n = some b ∧ b.jumpOrBranch = true ∧ b.mispred = true ∧ b.altPc = pc

/-- The entry at the head is a syscall, to go on after it. -/
def SyscallDue (n : ℕ) : Prop :=
  (head (run env n)).jumpOrBranch = false ∧ (head (run env n)).mispred = true

/-- A commit in cycle `n` is to redirect fetch. -/
def Due (n : ℕ) : Prop := (∃ pc, BranchDue env n pc) ∨ SyscallDue env n

/-- **What a commit in cycle `n` is held to.** -/
structure Recovers (n : ℕ) : Prop where
  branch : ∀ pc, BranchDue env n pc → RedirectsTo (run env (n + 1)) pc
  syscall : SyscallDue env n →
    RedirectsTo (run env (n + 1)) (pcOf env n (run env n).commitPointer + 4)
  other : ¬Due env n →
    (run env (n + 1)).flush = false ∧ (run env (n + 1)).requestAltPcIF = false

/-- Nothing is sent to IF, and the two delayed bits are the same one. -/
structure Silent (s : State) : Prop where
  flush : s.flush = false
  requestAltPcIF : s.requestAltPcIF = false
  reqAltPcDly : s.reqAltPcDly = s.flushDly

/-- The recovery block leaves the outputs low. -/
theorem silent_recover (i : Inputs) (s : State) : Silent (recover i s) := ⟨rfl, rfl, rfl⟩

/-- Without the recovery block nothing raises them. -/
theorem silent_advance {i : Inputs} {s : State} (h : Silent s) (hf : flushes s = false) :
    Silent (advance i s) := by
  cases hc : commits s with
  | false => exact ⟨by simp [advance, hc, h.flush], by simp [advance, hc, h.requestAltPcIF],
      by simp [advance, hc, h.reqAltPcDly]⟩
  | true =>
    have hno : redirects s = false := by rwa [flushes, hc, Bool.true_and] at hf
    have hreq : (if s.reqAltPcDly then s.reqAltPcDly
        else if (head s).jumpOrBranch then false else (head s).mispred) = redirects s := by
      rw [h.reqAltPcDly, redirects]
    refine ⟨?_, ?_, ?_⟩
    · exact (if_pos hc).trans hno
    · exact (if_pos hc).trans (hreq.trans hno)
    · simp [advance, hc]

theorem silent_cycle (i : Inputs) (s : State) (h : Silent s) : Silent (machine.cycle i s) := by
  have hedge : Silent (posedge i s) := by
    unfold posedge
    split_ifs with hf
    · exact silent_recover i s
    · exact silent_advance h (by simpa using hf)
  show Silent (negedge i (posedge i s))
  unfold negedge
  split_ifs
  · exact ⟨hedge.flush, hedge.requestAltPcIF, hedge.reqAltPcDly⟩
  · exact hedge

/-- **IF is never redirected.** -/
theorem silent (n : ℕ) : Silent (run env n) :=
  Clocked.run_invariant ⟨rfl, rfl, rfl⟩ silent_cycle env n

/-- **A commit does what it should exactly if it is not to redirect fetch.** -/
theorem recovers_iff (env : ℕ → State → Inputs) :
    ∀ n, commits (run env n) = true → (Recovers env n ↔ ¬Due env n) := by
  intro n _
  have hsilent := silent env (n + 1)
  have hlow : ∀ pc, ¬RedirectsTo (run env (n + 1)) pc := by
    intro pc h
    exact absurd (h.1.symm.trans hsilent.flush) (by decide)
  constructor
  · rintro h (⟨pc, hdue⟩ | hdue)
    · exact hlow pc (h.branch pc hdue)
    · exact hlow _ (h.syscall hdue)
  · intro hdue
    refine ⟨fun pc h => ?_, fun h => ?_, fun _ => ?_⟩
    · exact absurd (.inl ⟨pc, h⟩) hdue
    · exact absurd (.inr h) hdue
    · exact ⟨hsilent.flush, hsilent.requestAltPcIF⟩

/-- Rename enqueues instruction 1 with the word of `data`, and MEM completes it in
the same cycle. -/
def commitOne (data : BitVec 170) (n : ℕ) (_ : State) : Inputs where
  renameEnque := n == 0
  renameInstrNum := 1
  renameRegWr := 0
  renameEnqueData := data
  exeCompleteFlag := false
  exeRequestAltPc := false
  exeAltPc := 0
  exeInstrNum := 0
  memCompleteFlag := n == 0
  memInstrNum := 1

/-- An ordinary instruction commits and recovers nothing. -/
theorem recovers_commitOne : commits (run (commitOne 0) 1) = true ∧
    (Recovers (commitOne 0) 1 ↔ ¬Due (commitOne 0) 1) :=
  ⟨by decide, recovers_iff (commitOne 0) 1 (by decide)⟩

/-- A syscall commits without redirecting fetch. -/
theorem not_recovers_syscall :
    ¬∀ env n, commits (run env n) = true → Recovers env n := by
  intro h
  have hsyscall : SyscallDue (commitOne (1#170 <<< 90)) 1 := ⟨by decide, by decide⟩
  have hflush := ((h (commitOne (1#170 <<< 90)) 1 (by decide)).syscall hsyscall).1
  exact absurd (hflush.symm.trans (silent _ 2).flush) (by decide)

end Rob
end OooProcessor
