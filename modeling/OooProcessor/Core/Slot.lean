/-
# What one issue slot does to the register files

The instruction of the issue slot at cycle `n` (`n % 4 = 0`) is the entry
`(run env n).renameQueueOut`.  This file follows it for the four cycles to the
next issue slot and gives FRAT, RRAT and PHYS_REG at each of them as functions of
what they were at the slot: FRAT moves in the first cycle, RRAT and PHYS_REG in
the second for a result that EXE broadcasts and in the third for one that MEM
writes back.
-/

import OooProcessor.Core.Timing

namespace OooProcessor
namespace Mips

variable (env : ℕ → Mips → Input) {n : ℕ}

/-- The physical register an instruction at an issue slot names in `MAPC`. -/
def mapWr (s : Mips) : Tag := Rename.mapWr s.renameInputs

/-- The instruction of the slot takes a register that FRAT will map. -/
def remaps (s : Mips) : Bool := Rename.allocates s.renameQueueOut && s.renameQueueOut.rd != 0

/-- What ID hands to EXE for the slot at cycle `n`. -/
def issued (n : ℕ) : Id.Out := (run env (n + 1)).id.out

/-- The result of the slot's instruction leaves from MEM. -/
def writesBack (o : Id.Out) : Bool := !Exe.broadcasts o && o.regWrite1Out

theorem mapWr_of_allocates {s : Mips} (h : Rename.allocates s.renameQueueOut = true) :
    s.mapWr = s.freeReg := if_pos h

theorem mapWr_of_not_allocates {s : Mips} (h : Rename.allocates s.renameQueueOut = false) :
    s.mapWr = s.frat.arr s.renameQueueOut.rd := if_neg (by simp [renameInputs, h])

section Issue

/-- What ID reads at a slot whose instruction Rename has prepared. -/
def issueInputs (s : Mips) : Id.Inputs where
  renameOut := Rename.pack s.renameQueueOut s.frat.arr s.mapWr
  entryLoadSpecial := s.rename.entryLoadSpecial
  oldA := s.renameQueueOut.rs
  oldB := s.renameQueueOut.rt
  oldC := s.renameQueueOut.rd
  regs := s.physReg.arr

theorem idInputs_eq (hn : n % 4 = 0) : (run env n).idInputs = (run env n).issueInputs := by
  have hp := prepared env hn
  rw [idInputs, hp.entryROB, hp.oldA, hp.oldB, hp.oldC]
  rfl

/-- **ID issues the entry at the front of the rename queue.** -/
theorem issued_eq (hn : n % 4 = 0) : issued env n = Id.issue (run env n).issueInputs := by
  rw [issued, out_issue env hn, idInputs_eq env hn]

theorem issued_pc (hn : n % 4 = 0) :
    (issued env n).instr1PcOut = (run env n).renameQueueOut.pc := by
  rw [issued_eq env hn]; rfl

theorem issued_instr (hn : n % 4 = 0) :
    (issued env n).instr1Out = (run env n).renameQueueOut.instr := by
  rw [issued_eq env hn]; rfl

theorem issued_memRead (hn : n % 4 = 0) :
    (issued env n).memRead1Out = (run env n).renameQueueOut.controls.memRead := by
  rw [issued_eq env hn]; rfl

theorem issued_sys (hn : n % 4 = 0) :
    (issued env n).sys = (run env n).renameQueueOut.controls.syscall := by
  rw [issued_eq env hn]; rfl

theorem issued_map (hn : n % 4 = 0) : (issued env n).issueRegWrMap = (run env n).mapWr := by
  rw [issued_eq env hn]; rfl

theorem issued_writeRegister (hn : n % 4 = 0) :
    (issued env n).writeRegister1Out = (run env n).renameQueueOut.rd := by
  rw [issued_eq env hn]; rfl

theorem issued_regWrite (hn : n % 4 = 0) : (issued env n).regWrite1Out =
    ((run env n).renameQueueOut.rd != 0 && (run env n).renameQueueOut.controls.regWrite) := by
  rw [issued_eq env hn]; rfl

theorem issued_link (hn : n % 4 = 0) : (issued env n).allInfoIF.controls.link =
    (run env n).renameQueueOut.controls.link := by
  rw [issued_eq env hn]; rfl

/-- What the slot's instruction broadcasts from EXE. -/
theorem issued_broadcasts (hn : n % 4 = 0) : Exe.broadcasts (issued env n) =
    ((Exe.requestAltPc1 (issued env n) && (run env n).renameQueueOut.controls.link) ||
      ((issued env n).regWrite1Out && !(run env n).renameQueueOut.controls.memRead)) := by
  rw [Exe.broadcasts, issued_link env hn, issued_memRead env hn]
  congr 2
  rw [issued_eq env hn]; rfl

end Issue

section Results

theorem broadcastFlag_two (n : ℕ) :
    (run env (n + 2)).exe.broadcastFlag = Exe.broadcasts (issued env n) := rfl

/-- The redirect is raised when the instruction after the taken one passes. -/
theorem flush_two (hn : n % 4 = 0) : (run env (n + 2)).exe.flush =
    (decide ((run env n).renameQueueOut.pc ≠ 0) && (run env n).exe.take) := by
  rw [← issued_pc env hn, ← (take_run_succ env (n := n) (by omega)).1]
  show (if (issued env n).instr1PcOut ≠ 0 then (run env (n + 1)).exe.take else false) = _
  by_cases h : (issued env n).instr1PcOut = 0
  · simp [h]
  · simp

theorem regWrite_three (n : ℕ) :
    (run env (n + 3)).mem.regWrite1Out = writesBack (issued env n) := by
  show (if Exe.broadcasts (issued env n) then false else (issued env n).regWrite1Out) = _
  cases hb : Exe.broadcasts (issued env n) <;> simp [writesBack, hb]

end Results

section FRAT

/-- FRAT takes the mapping in the cycle of the slot. -/
theorem frat_one (hn : n % 4 = 0) : (run env (n + 1)).frat.arr =
    if (run env n).remaps then
      Function.update (run env n).frat.arr (run env n).renameQueueOut.rd (run env n).freeReg
    else (run env n).frat.arr := by
  have hp := prepared env hn
  rw [frat_run_succ, TableObj.arr_negedge rfl rfl]
  cases hal : Rename.allocates (run env n).renameQueueOut with
  | false =>
    have hno : TableObj.remaps (run env n).fratInputs = false := by
      simp [TableObj.remaps, fratInputs, hp.remapFRAT, renameInputs, hal]
    simp [hno, remaps, hal]
  | true =>
    have hreg : (run env n).fratInputs.regToMap = (run env n).renameQueueOut.rd :=
      hp.regToMapFRAT hal
    have hmap : (run env n).fratInputs.newMapping = (run env n).freeReg := hp.newMapping hal
    have hdo : TableObj.remaps (run env n).fratInputs = (run env n).remaps := by
      have hr : (run env n).fratInputs.remap = true := hp.remapFRAT.trans hal
      rw [TableObj.remaps, hreg, hr, remaps, hal]
    rw [hreg, hmap, hdo]

theorem frat_two (hn : n % 4 = 0) : (run env (n + 2)).frat.arr = (run env (n + 1)).frat.arr :=
  frat_of_ne env (by omega)

theorem frat_three (hn : n % 4 = 0) : (run env (n + 3)).frat.arr = (run env (n + 1)).frat.arr :=
  (frat_of_ne env (n := n + 2) (by omega)).trans (frat_two env hn)

theorem frat_four (hn : n % 4 = 0) : (run env (n + 4)).frat.arr = (run env (n + 1)).frat.arr :=
  (frat_of_ne env (n := n + 3) (by omega)).trans (frat_three env hn)

end FRAT

section RRAT

/-- EXE's result is installed for a destination other than `$0`. -/
def commitsExe (o : Id.Out) : Bool := Exe.broadcasts o && o.writeRegister1Out != 0

/-- RRAT stands still while EXE and MEM are quiet, and returns nothing. -/
theorem rrat_of_quiet (he : (run env (n + 1)).exe.Quiet) (hm : (run env (n + 1)).mem.Quiet) :
    (run env (n + 1)).rrat.arr = (run env n).rrat.arr ∧
      (run env (n + 1)).rrat.returnMap = false := by
  have hno : TableObj.remaps (high env n).rratInputs = false := by
    have h1 : (high env n).exe.broadcastFlag = false := he.broadcastFlag
    have h2 : (high env n).mem.regWrite1Out = false := hm.regWrite
    simp [TableObj.remaps, rratInputs, h1, h2]
  rw [rrat_run_succ, TableObj.arr_negedge rfl rfl, TableObj.returnMap_negedge rfl rfl, hno]
  exact ⟨rfl, rfl⟩

/-- RRAT returns nothing into an issue slot. -/
theorem returnMap_slot (hn : n % 4 = 0) : (run env n).rrat.returnMap = false := by
  cases n with
  | zero => rfl
  | succ n =>
    exact (rrat_of_quiet env (exe_quiet env (n := n + 1) (by omega)) (mem_quiet env (by omega))).2

theorem rrat_one (hn : n % 4 = 0) : (run env (n + 1)).rrat.arr = (run env n).rrat.arr ∧
    (run env (n + 1)).rrat.returnMap = false :=
  rrat_of_quiet env (exe_quiet env (by omega)) (mem_quiet env (by omega))

/-- RRAT's port in the second cycle: what EXE broadcasts. -/
theorem rratInputs_two (hn : n % 4 = 0) :
    TableObj.remaps (high env (n + 1)).rratInputs = commitsExe (issued env n) ∧
      (commitsExe (issued env n) = true →
        (high env (n + 1)).rratInputs.regToMap = (run env n).renameQueueOut.rd ∧
          (high env (n + 1)).rratInputs.newMapping = (run env n).mapWr) := by
  have hflag : (high env (n + 1)).exe.broadcastFlag = Exe.broadcasts (issued env n) := rfl
  have hwb : (high env (n + 1)).mem.regWrite1Out = false :=
    (mem_quiet env (n := n + 2) (by omega)).regWrite
  constructor
  · cases hb : Exe.broadcasts (issued env n) with
    | false => simp [TableObj.remaps, rratInputs, commitsExe, hflag, hwb, hb]
    | true =>
      simp only [TableObj.remaps, rratInputs, commitsExe, hflag, hwb, hb, if_true]
      rfl
  · intro hc
    have hb : (high env (n + 1)).exe.broadcastFlag = true := by
      rw [commitsExe, Bool.and_eq_true] at hc
      exact hflag.trans hc.1
    exact ⟨(if_pos hb).trans (issued_writeRegister env hn), (if_pos hb).trans (issued_map env hn)⟩

/-- The second cycle installs what EXE broadcasts. -/
theorem rrat_two (hn : n % 4 = 0) :
    (run env (n + 2)).rrat.arr =
        (if commitsExe (issued env n) then
          Function.update (run env n).rrat.arr (run env n).renameQueueOut.rd (run env n).mapWr
        else (run env n).rrat.arr) ∧
      (run env (n + 2)).rrat.returnMap = commitsExe (issued env n) ∧
      (commitsExe (issued env n) = true → (run env (n + 2)).rrat.returnedMapping =
        (run env n).rrat.arr (run env n).renameQueueOut.rd) := by
  obtain ⟨hdo, hport⟩ := rratInputs_two env hn
  rw [rrat_run_succ, TableObj.arr_negedge rfl rfl, TableObj.returnMap_negedge rfl rfl, hdo,
    ← (rrat_one env hn).1]
  refine ⟨?_, rfl, fun hc => ?_⟩
  · split_ifs with hc
    · rw [(hport hc).1, (hport hc).2]
    · rfl
  · rw [TableObj.returnedMapping_negedge rfl rfl (hdo.trans hc), (hport hc).1]

/-- RRAT's port in the third cycle: what MEM writes back, which is never for
`$0`. -/
theorem rratInputs_three (hn : n % 4 = 0) :
    TableObj.remaps (high env (n + 2)).rratInputs = writesBack (issued env n) ∧
      (high env (n + 2)).rratInputs.regToMap = (run env n).renameQueueOut.rd ∧
      (high env (n + 2)).rratInputs.newMapping = (run env n).mapWr := by
  have hflag : (high env (n + 2)).exe.broadcastFlag = false :=
    (exe_quiet env (n := n + 3) (by omega)).broadcastFlag
  have hwb : (high env (n + 2)).mem.regWrite1Out = writesBack (issued env n) :=
    regWrite_three env n
  have hreg : (high env (n + 2)).rratInputs.regToMap = (run env n).renameQueueOut.rd :=
    (if_neg (by simp [hflag])).trans (issued_writeRegister env hn)
  have hmap : (high env (n + 2)).rratInputs.newMapping = (run env n).mapWr :=
    (if_neg (by simp [hflag])).trans (issued_map env hn)
  have hremap : (high env (n + 2)).rratInputs.remap = writesBack (issued env n) := by
    simp [rratInputs, hflag, hwb]
  refine ⟨?_, hreg, hmap⟩
  rw [TableObj.remaps, hremap, hreg]
  cases hw : writesBack (issued env n) with
  | false => rfl
  | true =>
    simp only [writesBack, issued_regWrite env hn, Bool.and_eq_true] at hw
    rw [hw.2.1]
    rfl

/-- The third cycle installs what MEM writes back. -/
theorem rrat_three (hn : n % 4 = 0) :
    (run env (n + 3)).rrat.arr =
        (if writesBack (issued env n) then
          Function.update (run env (n + 2)).rrat.arr (run env n).renameQueueOut.rd
            (run env n).mapWr
        else (run env (n + 2)).rrat.arr) ∧
      (run env (n + 3)).rrat.returnMap = writesBack (issued env n) ∧
      (writesBack (issued env n) = true → (run env (n + 3)).rrat.returnedMapping =
        (run env (n + 2)).rrat.arr (run env n).renameQueueOut.rd) := by
  obtain ⟨hdo, hreg, hmap⟩ := rratInputs_three env hn
  rw [rrat_run_succ, TableObj.arr_negedge rfl rfl, TableObj.returnMap_negedge rfl rfl, hdo,
    hreg, hmap]
  refine ⟨rfl, rfl, fun hc => ?_⟩
  rw [TableObj.returnedMapping_negedge rfl rfl (hdo.trans hc), hreg]

theorem rrat_four (hn : n % 4 = 0) : (run env (n + 4)).rrat.arr = (run env (n + 3)).rrat.arr ∧
    (run env (n + 4)).rrat.returnMap = false :=
  rrat_of_quiet env (exe_quiet env (by omega)) (mem_quiet env (by omega))

end RRAT

section PhysReg

theorem physReg_run_succ (n : ℕ) :
    (run env (n + 1)).physReg = PhysRegs.negedge (high env n).physRegInputs
      (syscallHandler (machine.input env n) (high env n)) := rfl

/-- The handler runs in the cycle of a slot only. -/
theorem syscallHandler_of_ne (hn : n % 4 ≠ 0) (i : Input) :
    syscallHandler i (high env n) = (run env n).physReg := by
  have hsys : (high env n).id.out.sys = false := by
    show (run env (n + 1)).id.out.sys = false
    rw [out_of_ne env (by omega)]
    rfl
  rw [syscallHandler, if_neg (by simp [hsys])]
  rfl

/-- Where nothing leaves EXE and MEM, only the handler writes. -/
theorem physReg_of_quiet (he : (run env (n + 1)).exe.Quiet) (hm : (run env (n + 1)).mem.Quiet) :
    (run env (n + 1)).physReg = syscallHandler (machine.input env n) (high env n) := by
  rw [physReg_run_succ]
  exact PhysRegs.negedge_of_idle he.broadcastFlag hm.regWrite _

theorem physReg_one (hn : n % 4 = 0) :
    (run env (n + 1)).physReg = syscallHandler (machine.input env n) (high env n) :=
  physReg_of_quiet env (exe_quiet env (by omega)) (mem_quiet env (by omega))

/-- The second cycle stores what EXE broadcasts, unless under physical register
0, which the idle port of MEM holds. -/
theorem physReg_two (hn : n % 4 = 0) (h0 : Exe.broadcasts (issued env n) = true →
    (run env n).mapWr ≠ 0) :
    (run env (n + 2)).physReg.arr =
      if Exe.broadcasts (issued env n) then
        Function.update (run env (n + 1)).physReg.arr (run env n).mapWr
          (run env (n + 2)).exe.broadcastVal
      else (run env (n + 1)).physReg.arr := by
  have hm := mem_quiet env (n := n + 2) (by omega)
  rw [physReg_run_succ, syscallHandler_of_ne env (by omega)]
  cases hb : Exe.broadcasts (issued env n) with
  | false =>
    rw [PhysRegs.negedge_of_idle (i := (high env (n + 1)).physRegInputs) hb hm.regWrite]
    rfl
  | true =>
    have hmap : (high env (n + 1)).physRegInputs.regToUpdate1 = (run env n).mapWr :=
      issued_map env hn
    have hne : (high env (n + 1)).physRegInputs.regToUpdate1 ≠
        (high env (n + 1)).physRegInputs.regToUpdate2 := by
      have hidle : (high env (n + 1)).physRegInputs.regToUpdate2 = 0 := hm.broadcastMap
      rw [hmap, hidle]
      exact h0 hb
    rw [PhysRegs.arr_negedge_of_update1 rfl hb hm.regWrite hne, hmap]
    rfl

/-- The third cycle stores what MEM writes back. -/
theorem physReg_three (hn : n % 4 = 0) :
    (run env (n + 3)).physReg.arr =
      if writesBack (issued env n) then
        Function.update (run env (n + 2)).physReg.arr (run env n).mapWr
          (run env (n + 3)).mem.writeData1Out
      else (run env (n + 2)).physReg.arr := by
  have he := exe_quiet env (n := n + 3) (by omega)
  have hwb := regWrite_three env n
  rw [physReg_run_succ, syscallHandler_of_ne env (by omega)]
  cases hw : writesBack (issued env n) with
  | false =>
    rw [PhysRegs.negedge_of_idle (i := (high env (n + 2)).physRegInputs) he.broadcastFlag
      (hwb.trans hw)]
    rfl
  | true =>
    have hmap : (high env (n + 2)).physRegInputs.regToUpdate2 = (run env n).mapWr :=
      issued_map env hn
    rw [PhysRegs.arr_negedge_of_update2 (i := (high env (n + 2)).physRegInputs) rfl
      he.broadcastFlag (hwb.trans hw), hmap]
    rfl

theorem physReg_four (hn : n % 4 = 0) : (run env (n + 4)).physReg = (run env (n + 3)).physReg := by
  rw [physReg_of_quiet env (n := n + 3) (exe_quiet env (by omega)) (mem_quiet env (by omega)),
    syscallHandler_of_ne env (by omega)]

end PhysReg

end Mips
end OooProcessor
