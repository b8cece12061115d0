/-
# The four cycles of an issue slot

`ID.v` counts clock edges in `bubble` and hands an instruction to EXE in one
cycle out of four.  This file says what each register of the core can hold in
each of the four: between two issue slots the outputs of ID, EXE and MEM carry
one instruction, one stage further with every cycle, and zeros otherwise.

Cycle `4m` is the issue slot.  Rename has prepared its instruction at the
falling edge before (`prepared`), the rising edge moves it into ID's outputs
(`out_issue`), FRAT takes its mapping at the falling edge (`frat_run_succ`), EXE
broadcasts it after the rising edge of cycle `4m + 1`, and MEM writes it back
after that of cycle `4m + 2` if it is a load.
-/

import OooProcessor.Rtl.Mips

namespace OooProcessor

/-- No result leaves EXE and no redirect is raised. -/
structure Exe.State.Quiet (e : Exe.State) : Prop where
  broadcastFlag : e.broadcastFlag = false
  broadcastMap : e.broadcastMap = 0
  regWrite : e.regWrite1Out = false
  exeRegWrMap : e.exeRegWrMap = 0
  requestAltPc : e.requestAltPc = false
  flush : e.flush = false

/-- No result leaves MEM. -/
structure Mem.State.Quiet (s : Mem.State) : Prop where
  regWrite : s.regWrite1Out = false
  broadcastMap : s.broadcastMap = 0

theorem Exe.broadcasts_zero : broadcasts 0 = false := by decide

/-- Zeros from ID leave EXE quiet. -/
theorem Exe.quiet_posedge_zero (s : State) : (posedge 0 s).Quiet where
  broadcastFlag := broadcasts_zero
  broadcastMap := rfl
  regWrite := by simp [posedge]
  exeRegWrMap := rfl
  requestAltPc := by simp [posedge]
  flush := by simp [posedge]

theorem Mem.quiet_posedge {e : Exe.State} (he : e.Quiet) (d : Word) (s : State) :
    (posedge e d s).Quiet :=
  ⟨he.regWrite, he.exeRegWrMap⟩

namespace Mips

variable (env : ℕ → Mips → Input)

section Counter

theorem bubble_run (n : ℕ) : (run env n).id.bubble = Fin.ofNat 4 n := by
  induction n with
  | zero => rfl
  | succ n ih =>
    have hstep : (run env (n + 1)).id.bubble = (run env n).id.bubble + 1 := rfl
    rw [hstep, ih]
    ext
    simp [Fin.ofNat, Fin.val_add]

theorem bubble_run_eq_zero {n : ℕ} : (run env n).id.bubble = 0 ↔ n % 4 = 0 := by
  rw [bubble_run, Fin.ext_iff]
  simp [Fin.ofNat]

/-- Away from the issue slot the rename queue is stalled. -/
theorem haltRenameQueue_of_ne {n : ℕ} (hn : n % 4 ≠ 0) : (run env n).haltRenameQueue = true := by
  have hb := (bubble_run_eq_zero env).not.mpr hn
  simp [haltRenameQueue, hb]

theorem renameQueueOut_of_halt {s : Mips} (h : s.haltRenameQueue = true) :
    s.renameQueueOut = 0 := by
  simp [renameQueueOut, QueueObj.dequeData, QueueObj.dequeues, renameQueueInputs, h,
    renameQueueParams]

theorem renameQueueOut_of_ne {n : ℕ} (hn : n % 4 ≠ 0) : (run env n).renameQueueOut = 0 :=
  renameQueueOut_of_halt (haltRenameQueue_of_ne env hn)

end Counter

section Quiet

theorem out_of_ne {n : ℕ} (hn : n % 4 ≠ 1) : (run env n).id.out = 0 := by
  cases n with
  | zero => rfl
  | succ n =>
    have hb : (run env n).id.bubble ≠ 0 := (bubble_run_eq_zero env).not.mpr (by omega)
    exact if_neg hb

/-- **The issue slot.** -/
theorem out_issue {n : ℕ} (hn : n % 4 = 0) :
    (run env (n + 1)).id.out = Id.issue (run env n).idInputs :=
  if_pos ((bubble_run_eq_zero env).mpr hn)

/-- Between its two edges a cycle shows ID's outputs as the next state has
them. -/
theorem out_high (n : ℕ) : (high env n).id.out = (run env (n + 1)).id.out := rfl

theorem exe_quiet {n : ℕ} (hn : n % 4 ≠ 2) : (run env n).exe.Quiet := by
  cases n with
  | zero => exact ⟨rfl, rfl, rfl, rfl, rfl, rfl⟩
  | succ n =>
    have hout := out_of_ne env (n := n) (by omega)
    have hq := Exe.quiet_posedge_zero (run env n).exe
    rw [← hout] at hq
    exact ⟨hq.1, hq.2, hq.3, hq.4, hq.5, hq.6⟩

/-- `take` and `addr` move only when an instruction passes. -/
theorem take_run_succ {n : ℕ} (hn : n % 4 ≠ 1) :
    (run env (n + 1)).exe.take = (run env n).exe.take ∧
      (run env (n + 1)).exe.addr = (run env n).exe.addr := by
  have hpc : ¬(run env n).id.out.instr1PcOut ≠ 0 := by simp [out_of_ne env hn]
  exact ⟨if_neg hpc, if_neg hpc⟩

theorem mem_quiet {n : ℕ} (hn : n % 4 ≠ 3) : (run env n).mem.Quiet := by
  cases n with
  | zero => exact ⟨rfl, rfl⟩
  | succ n => exact Mem.quiet_posedge (exe_quiet env (by omega)) _ _

end Quiet

section Tables

/-- FRAT is written where Rename asked for it at the falling edge before. -/
theorem frat_run_succ (n : ℕ) :
    (run env (n + 1)).frat = TableObj.negedge (run env n).fratInputs (run env n).frat := rfl

/-- RRAT is written for the results that EXE and MEM show after the rising
edge. -/
theorem rrat_run_succ (n : ℕ) :
    (run env (n + 1)).rrat = TableObj.negedge (high env n).rratInputs (run env n).rrat := rfl

theorem rename_run_succ (n : ℕ) :
    (run env (n + 1)).rename = Rename.negedge (high env n).renameInputs (run env n).rename := rfl

/-- FRAT never moves register 0. -/
theorem frat_zero (n : ℕ) : (run env n).frat.arr 0 = 0 := by
  induction n with
  | zero => rfl
  | succ n ih =>
    rw [frat_run_succ, TableObj.arr_negedge_zero rfl rfl]
    exact ih

/-- RRAT never moves register 0. -/
theorem rrat_zero (n : ℕ) : (run env n).rrat.arr 0 = 0 := by
  induction n with
  | zero => rfl
  | succ n ih =>
    rw [rrat_run_succ, TableObj.arr_negedge_zero rfl rfl]
    exact ih

/-- Rename asks for nothing while it is stalled. -/
theorem remapFRAT_of_ne {n : ℕ} (hn : n % 4 ≠ 0) : (run env n).rename.remapFRAT = false := by
  obtain ⟨n, rfl⟩ := Nat.exists_eq_succ_of_ne_zero (n := n) (by omega)
  have hb : (high env n).id.bubble ≠ 0 := (bubble_run_eq_zero env).not.mpr hn
  rw [rename_run_succ]
  simp [Rename.negedge, Rename.haltRenameQueue, renameInputs, hb]

/-- FRAT stands still outside the cycle of the issue slot. -/
theorem frat_of_ne {n : ℕ} (hn : n % 4 ≠ 0) :
    (run env (n + 1)).frat.arr = (run env n).frat.arr := by
  rw [frat_run_succ, TableObj.arr_negedge rfl rfl]
  simp [TableObj.remaps, fratInputs, remapFRAT_of_ne env hn]

end Tables

/-- **Rename prepares every issue slot** from the state the slot finds. -/
theorem prepared {n : ℕ} (hn : n % 4 = 0) :
    Rename.Prepared (run env n).renameInputs (run env n).rename := by
  cases n with
  | zero => exact ⟨rfl, rfl, rfl, rfl, rfl, fun _ => rfl, fun _ => rfl, fun _ => rfl⟩
  | succ n =>
    have hb : (high env n).id.bubble = 0 := (bubble_run_eq_zero env (n := n + 1)).mpr hn
    have hflush : (high env n).exe.flush = false := (exe_quiet env (n := n + 1) (by omega)).flush
    have hhalt : Rename.haltRenameQueue (high env n).renameInputs = true →
        (high env n).renameInputs.entry = 0 := by
      intro h
      refine renameQueueOut_of_halt ?_
      simpa [Rename.haltRenameQueue, renameInputs, haltRenameQueue, hb] using h
    have hprep := Rename.prepared_negedge (i := (high env n).renameInputs) hflush hhalt
      (frat_zero env n) (run env n).rename
    rw [← rename_run_succ] at hprep
    -- the rising edge's registers are those of the next state, and FRAT does not move
    exact hprep.congr rfl (frat_of_ne env (n := n) (by omega)).symm rfl

end Mips
end OooProcessor
