/-
# The core as a renaming

FRAT, RRAT and the contents of the free list make a `Lib.Renaming`, and the four
cycles of an issue slot move it by the operations of that library: a register
is taken and installed in the first cycle, a result from EXE commits in the
second, and in the third the free list is rebuilt by a flush or the register it
displaced comes back; a load commits in the third cycle and its register comes
back in the fourth.
-/

import OooProcessor.Core.Decoded
import OooProcessor.Core.Fifo
import OooProcessor.Lib.Renaming

namespace OooProcessor
namespace Mips

open Lib

/-- The live entries of the free list, in order. -/
def free (s : Mips) : List Tag := QueueObj.contents freelistParams s.freelist

/-- FRAT, RRAT and the free list. -/
def maps (s : Mips) : Renaming Reg Tag := ⟨s.frat.arr, s.rrat.arr, s.free⟩

/-- The free list accepts what RRAT returns. -/
def accepts (s : Mips) : Bool := QueueObj.enqueues freelistParams s.freelistInputs s.freelist

/-- The register that comes back. -/
def returned (s : Mips) : Tag := QueueObj.entering freelistParams s.freelistInputs s.freelist

section State

variable {s : Mips}

/-- Nothing is taken from an empty list: it stalls Rename. -/
theorem dequeues_freelist (s : Mips) : QueueObj.dequeues s.freelistInputs s.freelist =
    Rename.allocates s.renameQueueOut := by
  cases hal : Rename.allocates s.renameQueueOut with
  | false => simp [QueueObj.dequeues, freelistInputs, hal]
  | true =>
    have hrun : s.haltRenameQueue = false := by
      by_contra hh
      rw [renameQueueOut_of_halt (by simpa using hh)] at hal
      simp at hal
    have hsize : s.freelist.size ≠ 0 := by
      simp [haltRenameQueue, freeHalt, QueueObj.halt, freelistParams] at hrun
      exact hrun.2
    simp [QueueObj.dequeues, freelistInputs, hal, Nat.pos_of_ne_zero hsize]

theorem accepts_eq (s : Mips) :
    s.accepts = (s.rrat.returnMap && decide (s.freelist.size < 32)) := rfl

/-- A return that is written is the register RRAT returns. -/
theorem returned_of_tail (ht : s.freelist.tail ≠ 31) : s.returned = s.rrat.returnedMapping :=
  if_neg fun h => ht h.2

/-- A return whose write is lost is what `queue[0]` holds. -/
theorem returned_of_tail_eq (ht : s.freelist.tail = 31) : s.returned = s.freelist.queue 0 :=
  if_pos ⟨rfl, ht⟩

theorem length_free (s : Mips) : s.free.length = s.freelist.size := QueueObj.length_contents

end State

variable (env : ℕ → Mips → Input) {n : ℕ}

theorem freelist_wellFormed (n : ℕ) : QueueObj.WellFormed freelistParams (run env n).freelist := by
  induction n with
  | zero => exact QueueObj.wellFormed_reset (by decide)
  | succ n ih => exact QueueObj.wellFormed_posedge ih

/-- The register an instruction takes is the first free one. -/
theorem free_eq_cons (n : ℕ) (h : Rename.allocates (run env n).renameQueueOut = true) :
    (run env n).free = (run env n).freeReg :: (run env n).free.drop 1 :=
  QueueObj.contents_eq_cons (freelist_wellFormed env n) ((dequeues_freelist _).trans h)

theorem free_run_succ (hflush : (run env n).exe.flush = false) :
    (run env (n + 1)).free =
      (run env n).free.drop (Rename.allocates (run env n).renameQueueOut).toNat ++
        (if (run env n).accepts then [(run env n).returned] else []) := by
  have hstep : (run env (n + 1)).freelist =
      QueueObj.advance freelistParams (run env n).freelistInputs (run env n).freelist :=
    if_neg (by simp [freelistInputs, hflush])
  rw [free, hstep, QueueObj.contents_advance (freelist_wellFormed env n) (fun _ => by decide),
    dequeues_freelist]
  rfl

/-- A flush fills the free list with the first 32 registers outside RRAT. -/
theorem free_run_succ_of_flush (hflush : (run env n).exe.flush = true) :
    (run env (n + 1)).free = (missing (run env n).rrat.arr).take 32 := by
  have hstep : (run env (n + 1)).freelist =
      QueueObj.flushed freelistParams (run env n).freelistInputs (run env n).freelist :=
    if_pos hflush
  have hlen : 32 ≤ (missing (run env n).rrat.arr).length := by
    have := le_length_missing (run env n).rrat.arr
    simpa using this
  rw [free, hstep, QueueObj.contents_flushed rfl hlen]
  refine (List.map_congr_left fun p _ => ?_).trans (List.map_id _)
  ext
  exact Nat.mod_eq_of_lt p.isLt

/-- Idle cycles leave the free list alone. -/
theorem free_run_succ_of_idle (hn : n % 4 ≠ 0) (hflush : (run env n).exe.flush = false)
    (hret : (run env n).rrat.returnMap = false) : (run env (n + 1)).free = (run env n).free := by
  have hacc : (run env n).accepts = false := by simp [accepts_eq, hret]
  rw [free_run_succ env hflush, renameQueueOut_of_ne env hn, hacc]
  simp

section Slot

/-! The renaming at the states of a slot, `n % 4 = 0`. -/

theorem maps_high (n : ℕ) : (high env n).maps =
    ⟨(run env n).frat.arr, (run env n).rrat.arr, (run env (n + 1)).free⟩ := rfl

theorem maps_high_zero (hn : n % 4 = 0) : (high env n).maps =
    if Rename.allocates (run env n).renameQueueOut then (run env n).maps.take
    else (run env n).maps := by
  have hacc : (run env n).accepts = false := by simp [accepts_eq, returnMap_slot env hn]
  rw [maps_high, free_run_succ env (exe_quiet env (by omega)).flush, hacc]
  cases Rename.allocates (run env n).renameQueueOut <;> simp [maps, Renaming.take]

theorem maps_one (hn : n % 4 = 0) : (run env (n + 1)).maps =
    if (run env n).remaps then
      (high env n).maps.install (run env n).renameQueueOut.rd (run env n).freeReg
    else (high env n).maps := by
  rw [maps_high, maps, frat_one env hn, (rrat_one env hn).1]
  split_ifs <;> rfl

theorem maps_high_one (hn : n % 4 = 0) :
    (high env (n + 1)).maps = (run env (n + 1)).maps := by
  rw [maps_high, free_run_succ_of_idle env (by omega) (exe_quiet env (by omega)).flush
    (rrat_one env hn).2]
  rfl

theorem maps_two (hn : n % 4 = 0) : (run env (n + 2)).maps =
    if commitsExe (issued env n) then
      (run env (n + 1)).maps.commit (run env n).renameQueueOut.rd (run env n).mapWr
    else (run env (n + 1)).maps := by
  have hfree := free_run_succ_of_idle env (n := n + 1) (by omega) (exe_quiet env (by omega)).flush
    (rrat_one env hn).2
  rw [maps, frat_two env hn, (rrat_two env hn).1, hfree, ← (rrat_one env hn).1]
  split_ifs <;> rfl

theorem maps_high_two (hn : n % 4 = 0) : (high env (n + 2)).maps =
    if (run env (n + 2)).exe.flush then
      { (run env (n + 2)).maps with free := (missing (run env (n + 2)).rrat.arr).take 32 }
    else if (run env (n + 2)).accepts then
      (run env (n + 2)).maps.release (run env (n + 2)).returned
    else (run env (n + 2)).maps := by
  rw [maps_high]
  split_ifs with hflush hacc
  · rw [free_run_succ_of_flush env hflush]
    rfl
  · rw [free_run_succ env (by simpa using hflush), renameQueueOut_of_ne env (by omega), if_pos hacc]
    rfl
  · rw [free_run_succ env (by simpa using hflush), renameQueueOut_of_ne env (by omega), if_neg hacc]
    simp [maps]

theorem maps_three (hn : n % 4 = 0) : (run env (n + 3)).maps =
    if writesBack (issued env n) then
      (high env (n + 2)).maps.commit (run env n).renameQueueOut.rd (run env n).mapWr
    else (high env (n + 2)).maps := by
  have hfrat := frat_of_ne env (n := n + 2) (by omega)
  rw [maps, hfrat, (rrat_three env hn).1, maps_high]
  split_ifs <;> rfl

theorem maps_high_three (hn : n % 4 = 0) : (high env (n + 3)).maps =
    if (run env (n + 3)).accepts then
      (run env (n + 3)).maps.release (run env (n + 3)).returned
    else (run env (n + 3)).maps := by
  rw [maps_high, free_run_succ env (exe_quiet env (by omega)).flush,
    renameQueueOut_of_ne env (by omega)]
  split_ifs
  · rfl
  · simp [maps]

theorem maps_four (hn : n % 4 = 0) :
    (run env (n + 4)).maps = (high env (n + 3)).maps := by
  rw [maps_high, maps, frat_of_ne env (n := n + 3) (by omega), (rrat_four env hn).1]

end Slot

end Mips
end OooProcessor
