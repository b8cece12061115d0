/-
# Register 0

Nothing in the design is a zero register.  `$0` reads as zero because the guard
`reg_to_map != 0` keeps both alias tables from moving it off physical register 0,
no free register is physical register 0, and every register that is installed,
broadcast or written back was taken from the free list first.

`hardwired` collects this for every state of every run in which the simulator's
system calls leave `$0` alone.  An operand read of `$0` then yields 0, with one
exception: a store that writes a register as well (SC) is given a fresh register
for its destination before it reads the value to store, so that it stores what
that register happens to hold (`reads_zero_iff`).
-/

import OooProcessor.Core.Evaluate
import OooProcessor.Core.FreeList

namespace OooProcessor
namespace Mips

open Lib

/-- `$0` is physical register 0, which holds zero and belongs to nothing else,
and no port is about to install, broadcast or write back to it. -/
structure Hardwired (s : Mips) : Prop where
  maps : s.maps.Pinned 0 0
  physReg : s.physReg.arr 0 = 0
  frat : TableObj.remaps s.fratInputs = true → s.fratInputs.newMapping ≠ 0
  rrat : TableObj.remaps s.rratInputs = true → s.rratInputs.newMapping ≠ 0
  broadcast : s.exe.broadcastFlag = true → s.exe.broadcastMap ≠ 0
  writeBack : s.mem.regWrite1Out = true → s.mem.broadcastMap ≠ 0

/-- Physical register 0 stands in no cell of the free list's array, live or
not. -/
def NoZeroCell (s : Mips) : Prop := ∀ k < 32, s.freelist.queue k ≠ 0

variable (env : ℕ → Mips → Input) {n : ℕ}

section Cells

theorem noZeroCell_zero : NoZeroCell (run env 0) := by
  intro k hk
  show Fin.ofNat 64 (32 + k) ≠ 0
  rw [Ne, Fin.ext_iff]
  show (32 + k) % 64 ≠ 0
  omega

/-- A flush rebuilds the list from the unmapped registers. -/
theorem noZeroCell_of_flush (hflush : (run env n).exe.flush = true) :
    NoZeroCell (run env (n + 1)) := by
  intro k hk hzero
  -- after a flush the first 32 cells are the contents
  have hstep : (run env (n + 1)).freelist = QueueObj.flushed freelistParams
      (run env n).freelistInputs (run env n).freelist := if_pos hflush
  have hmem : (run env (n + 1)).freelist.queue k ∈ (run env (n + 1)).free := by
    refine mem_window.mpr ⟨k, ?_, ?_⟩
    · rw [hstep]; exact hk
    · rw [hstep]
      show _ = (QueueObj.flushed freelistParams _ _).queue k
      congr 1
      show (0 + k) % 32 = k
      omega
  rw [free_run_succ_of_flush env hflush, hzero] at hmem
  exact mem_missing.mp (List.mem_of_mem_take hmem) 0 (rrat_zero env n)

/-- Without one it takes a returned register or none. -/
theorem noZeroCell_of_advance (hflush : (run env n).exe.flush = false)
    (h : NoZeroCell (run env n)) (hret : (run env n).accepts = true →
      (run env n).rrat.returnedMapping ≠ 0) : NoZeroCell (run env (n + 1)) := by
  have hstep : (run env (n + 1)).freelist = QueueObj.advance freelistParams
      (run env n).freelistInputs (run env n).freelist :=
    if_neg (by simp [freelistInputs, hflush])
  intro k hk
  rw [hstep]
  show writeAt 32 (run env n).freelist.queue
    (QueueObj.writeIndex freelistParams (run env n).freelist)
    (if (run env n).accepts then (run env n).rrat.returnedMapping else
      (run env n).freelist.queue (QueueObj.writeIndex freelistParams (run env n).freelist)) k ≠ 0
  split_ifs with hacc
  · by_cases hki : k = QueueObj.writeIndex freelistParams (run env n).freelist
    · rw [← hki, writeAt_apply_self hk]
      exact hret hacc
    · rw [writeAt_apply_of_ne hki]
      exact h k hk
  · rw [writeAt_self]
    exact h k hk

/-- A rising edge writes the register RRAT returns, or what a flush compacts. -/
theorem noZeroCell_succ (h : NoZeroCell (run env n)) (hret : (run env n).accepts = true →
    (run env n).rrat.returnedMapping ≠ 0) : NoZeroCell (run env (n + 1)) := by
  cases hflush : (run env n).exe.flush with
  | true => exact noZeroCell_of_flush env hflush
  | false => exact noZeroCell_of_advance env hflush h hret

theorem returned_ne_zero (h : NoZeroCell (run env n))
    (hret : (run env n).rrat.returnedMapping ≠ 0) : (run env n).returned ≠ 0 := by
  unfold returned QueueObj.entering
  split_ifs
  · exact h 0 (by omega)
  · exact hret

end Cells

section Slot

variable (hn : n % 4 = 0) (hp : (run env n).maps.Pinned 0 0) (hc : NoZeroCell (run env n))

include hp in
theorem freeReg_ne_zero (hal : Rename.allocates (run env n).renameQueueOut = true) :
    (run env n).freeReg ≠ 0 := by
  refine hp.ne_of_free ?_
  show _ ∈ (run env n).free
  rw [free_eq_cons env n hal]
  exact List.mem_cons_self ..

include hp in
theorem mapWr_ne_zero (hal : Rename.allocates (run env n).renameQueueOut = true) :
    (run env n).mapWr ≠ 0 := by
  rw [mapWr_of_allocates hal]
  exact freeReg_ne_zero env hp hal

include hn hp

theorem pinned_high_zero : (high env n).maps.Pinned 0 0 := by
  rw [maps_high_zero env hn]
  split_ifs
  · exact hp.take
  · exact hp

theorem pinned_one : (run env (n + 1)).maps.Pinned 0 0 := by
  have h := pinned_high_zero env hn hp
  rw [maps_one env hn]
  split_ifs with hr
  · refine h.install (rd_ne_zero_of_remaps hr) (freeReg_ne_zero env hp ?_)
    simp [remaps] at hr
    exact hr.1
  · exact h

theorem pinned_two : (run env (n + 2)).maps.Pinned 0 0 := by
  have h := pinned_one env hn hp
  rw [maps_two env hn]
  split_ifs with hx
  · have hr := remaps_of_commitsExe env hn hx
    refine h.commit (rd_ne_zero_of_remaps hr) (mapWr_ne_zero env hp ?_)
    simp [commitsExe] at hx
    exact allocates_of_broadcasts env hn hx.1
  · exact h

/-- What the second cycle's commit displaces is the mapping of a register other
than `$0`. -/
theorem returnedMapping_two_ne_zero (hx : commitsExe (issued env n) = true) :
    (run env (n + 2)).rrat.returnedMapping ≠ 0 := by
  rw [(rrat_two env hn).2.2 hx]
  exact hp.back_ne _ (rd_ne_zero_of_remaps (remaps_of_commitsExe env hn hx))

theorem returnedMapping_three_ne_zero (hw : writesBack (issued env n) = true) :
    (run env (n + 3)).rrat.returnedMapping ≠ 0 := by
  rw [(rrat_three env hn).2.2 hw]
  exact (pinned_two env hn hp).back_ne _ (rd_ne_zero_of_remaps (remaps_of_writesBack env hn hw))

include hc

omit hp in
theorem noZeroCell_two : NoZeroCell (run env (n + 2)) := by
  have h1 : NoZeroCell (run env (n + 1)) := by
    refine noZeroCell_succ env hc fun hacc => ?_
    rw [accepts_eq, returnMap_slot env hn] at hacc
    simp at hacc
  refine noZeroCell_succ env h1 fun hacc => ?_
  rw [accepts_eq, (rrat_one env hn).2] at hacc
  simp at hacc

theorem noZeroCell_three : NoZeroCell (run env (n + 3)) := by
  refine noZeroCell_succ env (noZeroCell_two env hn hc) fun hacc => ?_
  rw [accepts_eq, (rrat_two env hn).2.1, Bool.and_eq_true] at hacc
  exact returnedMapping_two_ne_zero env hn hp hacc.1

theorem noZeroCell_four : NoZeroCell (run env (n + 4)) := by
  refine noZeroCell_succ env (noZeroCell_three env hn hp hc) fun hacc => ?_
  rw [accepts_eq, (rrat_three env hn).2.1, Bool.and_eq_true] at hacc
  exact returnedMapping_three_ne_zero env hn hp hacc.1

theorem pinned_high_two : (high env (n + 2)).maps.Pinned 0 0 := by
  have h := pinned_two env hn hp
  rw [maps_high_two env hn]
  split_ifs with hflush hacc
  · exact { h with not_mem := fun hm =>
      mem_missing.mp (List.mem_of_mem_take hm) 0 h.back_eq }
  · rw [accepts_eq, (rrat_two env hn).2.1, Bool.and_eq_true] at hacc
    exact h.release (returned_ne_zero env (noZeroCell_two env hn hc)
      (returnedMapping_two_ne_zero env hn hp hacc.1))
  · exact h

theorem pinned_three : (run env (n + 3)).maps.Pinned 0 0 := by
  have h := pinned_high_two env hn hp hc
  rw [maps_three env hn]
  split_ifs with hw
  · exact h.commit (rd_ne_zero_of_remaps (remaps_of_writesBack env hn hw))
      (mapWr_ne_zero env hp (allocates_of_writesBack env hn hw))
  · exact h

theorem pinned_high_three : (high env (n + 3)).maps.Pinned 0 0 := by
  have h := pinned_three env hn hp hc
  rw [maps_high_three env hn]
  split_ifs with hacc
  · rw [accepts_eq, (rrat_three env hn).2.1, Bool.and_eq_true] at hacc
    exact h.release (returned_ne_zero env (noZeroCell_three env hn hp hc)
      (returnedMapping_three_ne_zero env hn hp hacc.1))
  · exact h

end Slot

/-- Every issue slot finds `$0` on physical register 0. -/
theorem pinned_slot (n : ℕ) (hn : n % 4 = 0) :
    (run env n).maps.Pinned 0 0 ∧ NoZeroCell (run env n) := by
  refine Clocked.run_every (k := 4)
    (P := fun n => (run env n).maps.Pinned 0 0 ∧ NoZeroCell (run env n)) ?_ ?_ n hn
  · refine ⟨⟨rfl, rfl, ?_, ?_, ?_⟩, noZeroCell_zero env⟩
    · exact (by decide : ∀ a : Reg, a ≠ 0 → TableObj.reset.arr a ≠ 0)
    · exact (by decide : ∀ a : Reg, a ≠ 0 → TableObj.reset.arr a ≠ 0)
    · show (0 : Tag) ∉ QueueObj.contents freelistParams (QueueObj.reset freelistParams)
      decide
  · rintro n hn ⟨hp, hc⟩
    refine ⟨?_, noZeroCell_four env hn hp hc⟩
    rw [maps_four env hn]
    exact pinned_high_three env hn hp hc

theorem pinned_run_high (n : ℕ) :
    (run env n).maps.Pinned 0 0 ∧ (high env n).maps.Pinned 0 0 := by
  refine Clocked.run_all (k := 4) (by omega)
    (P := fun n => (run env n).maps.Pinned 0 0 ∧ (high env n).maps.Pinned 0 0) ?_ n
  intro n hn j hj
  obtain ⟨hp, hc⟩ := pinned_slot env n hn
  obtain rfl | rfl | rfl | rfl : j = 0 ∨ j = 1 ∨ j = 2 ∨ j = 3 := by omega
  · exact ⟨hp, pinned_high_zero env hn hp⟩
  · exact ⟨pinned_one env hn hp, maps_high_one env hn ▸ pinned_one env hn hp⟩
  · exact ⟨pinned_two env hn hp, pinned_high_two env hn hp hc⟩
  · exact ⟨pinned_three env hn hp hc, pinned_high_three env hn hp hc⟩

section PhysReg

/-- The simulator's system calls write registers other than `$0`. -/
def SysWritesNonzero : Prop :=
  ∀ n, ∀ w ∈ (machine.input env n).sysWrites, w.1 ≠ 0

variable {env}

theorem syscallHandler_zero (hsys : SysWritesNonzero env) (h0 : (run env n).physReg.arr 0 = 0) :
    (syscallHandler (machine.input env n) (high env n)).arr 0 = 0 := by
  have hfold : ∀ (l : List (Reg × Word)) (regs : PhysRegs.State), (∀ w ∈ l, w.1 ≠ 0) →
      regs.arr 0 = 0 →
      (l.foldl (fun regs w => writeRegister (high env n).rrat.arr regs w.1 w.2) regs).arr 0 = 0 := by
    intro l
    induction l with
    | nil => exact fun _ _ h => h
    | cons w l ih =>
      intro regs hl hregs
      refine ih _ (fun v hv => hl v (List.mem_cons_of_mem _ hv)) ?_
      have hne : (high env n).rrat.arr w.1 ≠ 0 :=
        (pinned_run_high env n).2.back_ne _ (hl w (List.mem_cons_self ..))
      exact (Function.update_of_ne hne.symm _ _).trans hregs
  unfold syscallHandler
  split_ifs
  · exact hfold _ _ (hsys n) h0
  · exact h0

/-- What EXE broadcasts or MEM writes back goes to a register that was free. -/
theorem physReg_zero_slot (hsys : SysWritesNonzero env) (hn : n % 4 = 0)
    (h0 : (run env n).physReg.arr 0 = 0) : ∀ j < 5, (run env (n + j)).physReg.arr 0 = 0 := by
  obtain ⟨hp, -⟩ := pinned_slot env n hn
  have h1 : (run env (n + 1)).physReg.arr 0 = 0 := by
    rw [physReg_one env hn]
    exact syscallHandler_zero hsys h0
  have h2 : (run env (n + 2)).physReg.arr 0 = 0 := by
    have hne := fun hb => mapWr_ne_zero env hp (allocates_of_broadcasts env hn hb)
    rw [physReg_two env hn hne]
    split_ifs with hb
    · rw [Function.update_of_ne (hne hb).symm]
      exact h1
    · exact h1
  have h3 : (run env (n + 3)).physReg.arr 0 = 0 := by
    rw [physReg_three env hn]
    split_ifs with hw
    · have hne := mapWr_ne_zero env hp (allocates_of_writesBack env hn hw)
      rw [Function.update_of_ne hne.symm]
      exact h2
    · exact h2
  have h4 : (run env (n + 4)).physReg.arr 0 = 0 := by
    rw [physReg_four env hn]
    exact h3
  intro j hj
  obtain rfl | rfl | rfl | rfl | rfl : j = 0 ∨ j = 1 ∨ j = 2 ∨ j = 3 ∨ j = 4 := by omega
  · exact h0
  · exact h1
  · exact h2
  · exact h3
  · exact h4

theorem physReg_zero (hsys : SysWritesNonzero env) (n : ℕ) : (run env n).physReg.arr 0 = 0 := by
  refine Clocked.run_all (k := 4) (by omega) (P := fun n => (run env n).physReg.arr 0 = 0) ?_ n
  intro n hn j hj
  refine physReg_zero_slot hsys hn ?_ j (by omega)
  refine Clocked.run_every (k := 4) (P := fun n => (run env n).physReg.arr 0 = 0) rfl ?_ n hn
  intro n hn h0
  exact physReg_zero_slot hsys hn h0 4 (by omega)

end PhysReg

section Ports

theorem frat_port (n : ℕ) (h : TableObj.remaps (run env n).fratInputs = true) :
    (run env n).fratInputs.newMapping ≠ 0 := by
  by_cases hn : n % 4 = 0
  · have hprep := prepared env hn
    have hal : Rename.allocates (run env n).renameQueueOut = true := by
      rw [TableObj.remaps, Bool.and_eq_true] at h
      exact hprep.remapFRAT ▸ h.1
    show (run env n).rename.newMapping ≠ 0
    rw [hprep.newMapping hal]
    exact freeReg_ne_zero env (pinned_slot env n hn).1 hal
  · simp [TableObj.remaps, fratInputs, remapFRAT_of_ne env hn] at h

theorem broadcast_port (n : ℕ) (h : (run env n).exe.broadcastFlag = true) :
    (run env n).exe.broadcastMap ≠ 0 := by
  by_cases hn : n % 4 = 2
  · obtain ⟨k, rfl⟩ := Nat.exists_eq_add_of_le (show 2 ≤ n by omega)
    rw [Nat.add_comm] at h ⊢
    have hk : k % 4 = 0 := by omega
    show (issued env k).issueRegWrMap ≠ 0
    rw [issued_map env hk]
    exact mapWr_ne_zero env (pinned_slot env k hk).1 (allocates_of_broadcasts env hk h)
  · rw [(exe_quiet env hn).broadcastFlag] at h
    simp at h

theorem writeBack_port (n : ℕ) (h : (run env n).mem.regWrite1Out = true) :
    (run env n).mem.broadcastMap ≠ 0 := by
  by_cases hn : n % 4 = 3
  · obtain ⟨k, rfl⟩ := Nat.exists_eq_add_of_le (show 3 ≤ n by omega)
    rw [Nat.add_comm] at h ⊢
    have hk : k % 4 = 0 := by omega
    rw [regWrite_three] at h
    show (issued env k).issueRegWrMap ≠ 0
    rw [issued_map env hk]
    exact mapWr_ne_zero env (pinned_slot env k hk).1 (allocates_of_writesBack env hk h)
  · rw [(mem_quiet env hn).regWrite] at h
    simp at h

/-- RRAT's port carries one of the two. -/
theorem rrat_port {s : Mips} (hb : s.exe.broadcastFlag = true → s.exe.broadcastMap ≠ 0)
    (hw : s.mem.regWrite1Out = true → s.mem.broadcastMap ≠ 0)
    (h : TableObj.remaps s.rratInputs = true) : s.rratInputs.newMapping ≠ 0 := by
  rw [TableObj.remaps, Bool.and_eq_true] at h
  have hremap : (s.exe.broadcastFlag || s.mem.regWrite1Out) = true := h.1
  show (if s.exe.broadcastFlag then s.exe.broadcastMap else s.mem.broadcastMap) ≠ 0
  split_ifs with hflag
  · exact hb hflag
  · refine hw ?_
    simpa [hflag] using hremap

/-- **`$0` is hardwired in every state**, as far as its mapping and its value
go. -/
theorem hardwired {env : ℕ → Mips → Input} (hsys : SysWritesNonzero env) (n : ℕ) :
    Hardwired (run env n) ∧ Hardwired (high env n) := by
  have hb := broadcast_port env (n + 1)
  have hw := writeBack_port env (n + 1)
  refine ⟨⟨(pinned_run_high env n).1, physReg_zero hsys n, frat_port env n,
      rrat_port (broadcast_port env n) (writeBack_port env n), broadcast_port env n,
      writeBack_port env n⟩,
    ⟨(pinned_run_high env n).2, physReg_zero hsys n, frat_port env n, rrat_port hb hw, hb, hw⟩⟩

end Ports

section Reads

/-- What ID reads from PHYS_REG at an issue slot, each value with the
architectural register it stands for: rs, rt, and the register a load merges into
or a store stores. -/
def operandReads (s : Mips) : List (Reg × Word) :=
  [(s.idInputs.oldA, Id.opA1 s.idInputs), (s.idInputs.oldB, Id.rtRawVal1 s.idInputs)] ++
    if s.idInputs.renameOut.controls.memRead || s.idInputs.renameOut.controls.memWrite then
      [(s.idInputs.oldC, Id.writeRegisterRawVal1 s.idInputs)]
    else []

/-- The instruction at the front of the rename queue stores and writes the
register field `$0`, and the free register it is given for that does not hold
zero. -/
def StoresFresh (s : Mips) : Prop :=
  s.renameQueueOut.controls.memWrite = true ∧ s.renameQueueOut.controls.memRead = false ∧
    Rename.allocates s.renameQueueOut = true ∧ s.renameQueueOut.rd = 0 ∧
    s.physReg.arr s.freeReg ≠ 0

/-- The reads of a slot, as functions of the entry at the front of the rename
queue. -/
theorem operandReads_eq (hn : n % 4 = 0) : (run env n).operandReads =
    [((run env n).renameQueueOut.rs,
        (run env n).physReg.arr ((run env n).frat.arr (run env n).renameQueueOut.rs)),
      ((run env n).renameQueueOut.rt,
        (run env n).physReg.arr ((run env n).frat.arr (run env n).renameQueueOut.rt))] ++
      if (run env n).renameQueueOut.controls.memRead ||
          (run env n).renameQueueOut.controls.memWrite then
        [((run env n).renameQueueOut.rd, (run env n).physReg.arr
          (if (run env n).renameQueueOut.controls.memRead then
            (run env n).frat.arr (run env n).renameQueueOut.rd
          else (run env n).mapWr))]
      else [] := by
  have hp := prepared env hn
  have hin : (run env n).idInputs = (run env n).issueInputs := idInputs_eq env hn
  have hload : (run env n).issueInputs.renameOut.controls.memRead =
      (run env n).renameQueueOut.controls.memRead := rfl
  have hwr : Id.writeRegisterRawVal1 (run env n).issueInputs = (run env n).physReg.arr
      (if (run env n).renameQueueOut.controls.memRead then
        (run env n).frat.arr (run env n).renameQueueOut.rd
      else (run env n).mapWr) := by
    rw [Id.writeRegisterRawVal1, hload]
    split_ifs with hm
    · exact congrArg (run env n).physReg.arr (hp.entryLoadSpecial hm)
    · rfl
  rw [operandReads, hin, hwr]
  rfl

/-- **An operand read of `$0` yields 0 unless the slot stores a fresh
register.** -/
theorem reads_zero_iff (hsys : SysWritesNonzero env) (hn : n % 4 = 0) :
    (∀ p ∈ (run env n).operandReads, p.1 = 0 → p.2 = 0) ↔ ¬(run env n).StoresFresh := by
  have h0 : (run env n).physReg.arr ((run env n).frat.arr 0) = 0 := by
    rw [frat_zero]
    exact physReg_zero hsys n
  rw [operandReads_eq env hn]
  constructor
  · rintro h ⟨hst, hld, hal, hrd, hne⟩
    refine hne ?_
    have := h (0, (run env n).physReg.arr (run env n).freeReg) ?_ rfl
    · exact this
    · simp [hst, hld, hrd, mapWr_of_allocates hal]
  · intro h p hp hzero
    simp only [List.mem_append, List.mem_cons, List.not_mem_nil, or_false] at hp
    rcases hp with (rfl | rfl) | hp
    · exact (congrArg _ (congrArg _ hzero)).trans h0
    · exact (congrArg _ (congrArg _ hzero)).trans h0
    · split_ifs at hp with hm hld
      · obtain rfl := List.mem_singleton.mp hp
        exact (congrArg _ (congrArg _ hzero)).trans h0
      · obtain rfl := List.mem_singleton.mp hp
        have hrd : (run env n).renameQueueOut.rd = 0 := hzero
        cases hal : Rename.allocates (run env n).renameQueueOut with
        | false => exact (congrArg _ ((mapWr_of_not_allocates hal).trans (congrArg _ hrd))).trans h0
        | true =>
          by_contra hne
          refine h ⟨?_, by simpa using hld, hal, hrd, ?_⟩
          · simpa [hld] using hm
          · rw [← mapWr_of_allocates hal]
            exact hne
      · exact absurd hp List.not_mem_nil

end Reads

/-- `$0` is hardwired: in every state, and for every operand read. -/
def ZeroLaw (env : ℕ → Mips → Input) : Prop :=
  (∀ n, Hardwired (run env n) ∧ Hardwired (high env n)) ∧
    ∀ n, (run env n).id.bubble = 0 → ∀ p ∈ (run env n).operandReads, p.1 = 0 → p.2 = 0

/-- **`$0` is hardwired in a run if and only if no slot of it stores a fresh
register for `$0`.** -/
theorem zeroLaw_iff (env : ℕ → Mips → Input) (hsys : SysWritesNonzero env) :
    ZeroLaw env ↔ ∀ n, (run env n).id.bubble = 0 → ¬(run env n).StoresFresh := by
  constructor
  · intro h n hn
    exact (reads_zero_iff env hsys ((bubble_run_eq_zero env).mp hn)).mp (h.2 n hn)
  · intro h
    refine ⟨hardwired hsys, fun n hn => ?_⟩
    exact (reads_zero_iff env hsys ((bubble_run_eq_zero env).mp hn)).mpr (h n hn)

/-- `addiu $1,$0,5; j; addiu $1,$0,6; addiu $2,$0,7; sc $0,0($0)`. -/
def storeZero : Word → Word
  | 0xBFC00000 => 0x24010005
  | 0xBFC00004 => 0x0BF00004
  | 0xBFC00008 => 0x24010006
  | 0xBFC00010 => 0x24020007
  | 0xBFC00014 => 0xE0000000
  | _ => 0

theorem zeroLaw_iff_storeZero : ZeroLaw (programEnv storeZero 0) ↔
    ∀ n, (run (programEnv storeZero 0) n).id.bubble = 0 →
      ¬(run (programEnv storeZero 0) n).StoresFresh :=
  zeroLaw_iff (programEnv storeZero 0) fun _ _ hw => absurd hw List.not_mem_nil

/-- SC stores 5, the value the flush of the jump left in the register it is
given, for `$0`. -/
theorem not_zeroLaw_storeZero : ¬ZeroLaw (programEnv storeZero 0) := by
  intro h
  have hread : ((0, 5) : Reg × Word) ∈ (run (programEnv storeZero 0) 32).operandReads := by
    have heval : machine.evalRun (programEnv storeZero 0) 32
        (fun s => decide (((0, 5) : Reg × Word) ∈ s.operandReads)) = true := by decide +kernel
    rw [Clocked.evalRun_eq] at heval
    exact of_decide_eq_true heval
  have hzero := h.2 32 ((bubble_run_eq_zero _).mpr rfl) _ hread rfl
  exact absurd hzero (by decide)

end Mips
end OooProcessor
