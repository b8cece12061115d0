/-
# The committed map at an issue slot

RRAT has one write port for two stages, and the multiplexer in front of it prefers
EXE.  No result is dropped there, because EXE and MEM never have one in the same
cycle (`not_both`): the instruction of a slot sends its result from EXE or, one
cycle later, from MEM.  Each instruction that writes a register other than `$0`
therefore moves RRAT once and PHYS_REG once, both with the register FRAT was given
for it, and when the next slot comes the two tables agree
(`frat_eq_rrat`), as long as nothing is renamed that never writes: LWC1 is the one
load without RegWrite.
-/

import OooProcessor.Core.Zero

namespace OooProcessor
namespace Mips

open Lib

/-- The remap RRAT performs on a falling edge, from the state before it. -/
def rratRemap (s : Mips) : Option (Reg × Tag) :=
  if TableObj.remaps s.rratInputs then
    some (s.rratInputs.regToMap, s.rratInputs.newMapping)
  else none

/-- The writes PHYS_REG is asked for on a falling edge, from the state before
it. -/
def physWrites (s : Mips) : List (Tag × Word) :=
  (if s.physRegInputs.update1 then [(s.physRegInputs.regToUpdate1, s.physRegInputs.newValue1)]
    else []) ++
  if s.physRegInputs.update2 then [(s.physRegInputs.regToUpdate2, s.physRegInputs.newValue2)]
  else []

variable (env : ℕ → Mips → Input) {n : ℕ}

/-- The remaps of RRAT in the four cycles from `n` on. -/
def slotRemaps (n : ℕ) : List (Reg × Tag) :=
  (List.range 4).filterMap fun j => rratRemap (high env (n + j))

/-- The writes to PHYS_REG in the four cycles from `n` on. -/
def slotWrites (n : ℕ) : List (Tag × Word) :=
  (List.range 4).flatMap fun j => physWrites (high env (n + j))

section Ports

/-- **EXE and MEM never have a result in the same cycle.** -/
theorem not_both (n : ℕ) :
    ¬((run env n).exe.broadcastFlag = true ∧ (run env n).mem.regWrite1Out = true) := by
  rintro ⟨hb, hw⟩
  by_cases hn : n % 4 = 2
  · rw [(mem_quiet env (n := n) (by omega)).regWrite] at hw
    exact absurd hw Bool.false_ne_true
  · rw [(exe_quiet env hn).broadcastFlag] at hb
    exact absurd hb Bool.false_ne_true

theorem rratRemap_of_quiet (he : (run env (n + 1)).exe.Quiet) (hm : (run env (n + 1)).mem.Quiet) :
    rratRemap (high env n) = none := by
  have hno : TableObj.remaps (high env n).rratInputs = false := by
    have h1 : (high env n).exe.broadcastFlag = false := he.broadcastFlag
    have h2 : (high env n).mem.regWrite1Out = false := hm.regWrite
    simp [TableObj.remaps, rratInputs, h1, h2]
  simp [rratRemap, hno]

theorem physWrites_of_quiet (he : (run env (n + 1)).exe.Quiet)
    (hm : (run env (n + 1)).mem.Quiet) : physWrites (high env n) = [] := by
  have h1 : (high env n).exe.broadcastFlag = false := he.broadcastFlag
  have h2 : (high env n).mem.regWrite1Out = false := hm.regWrite
  simp [physWrites, physRegInputs, h1, h2]

/-- RRAT moves in the second cycle of a slot or in the third. -/
theorem slotRemaps_eq (hn : n % 4 = 0) : slotRemaps env n =
    (if commitsExe (issued env n) then [((run env n).renameQueueOut.rd, (run env n).mapWr)]
      else []) ++
    if writesBack (issued env n) then [((run env n).renameQueueOut.rd, (run env n).mapWr)]
    else [] := by
  have h0 : rratRemap (high env n) = none :=
    rratRemap_of_quiet env (exe_quiet env (by omega)) (mem_quiet env (by omega))
  have h3 : rratRemap (high env (n + 3)) = none :=
    rratRemap_of_quiet env (exe_quiet env (by omega)) (mem_quiet env (by omega))
  have h1 : rratRemap (high env (n + 1)) = if commitsExe (issued env n) then
      some ((run env n).renameQueueOut.rd, (run env n).mapWr) else none := by
    obtain ⟨hdo, hport⟩ := rratInputs_two env hn
    rw [rratRemap, hdo]
    split_ifs with hc
    · rw [(hport hc).1, (hport hc).2]
    · rfl
  have h2 : rratRemap (high env (n + 2)) = if writesBack (issued env n) then
      some ((run env n).renameQueueOut.rd, (run env n).mapWr) else none := by
    obtain ⟨hdo, hreg, hmap⟩ := rratInputs_three env hn
    rw [rratRemap, hdo, hreg, hmap]
  show ([0, 1, 2, 3] : List ℕ).filterMap (fun j => rratRemap (high env (n + j))) = _
  simp only [List.filterMap_cons, List.filterMap_nil, Nat.add_zero, h0, h1, h2, h3]
  cases commitsExe (issued env n) <;> cases writesBack (issued env n) <;> rfl

/-- PHYS_REG is written in the second cycle of a slot or in the third. -/
theorem slotWrites_eq (hn : n % 4 = 0) : slotWrites env n =
    (if Exe.broadcasts (issued env n) then
        [((run env n).mapWr, (run env (n + 2)).exe.broadcastVal)] else []) ++
      if writesBack (issued env n) then
        [((run env n).mapWr, (run env (n + 3)).mem.writeData1Out)] else [] := by
  have h0 : physWrites (high env n) = [] :=
    physWrites_of_quiet env (exe_quiet env (by omega)) (mem_quiet env (by omega))
  have h3 : physWrites (high env (n + 3)) = [] :=
    physWrites_of_quiet env (exe_quiet env (by omega)) (mem_quiet env (by omega))
  have h1 : physWrites (high env (n + 1)) = if Exe.broadcasts (issued env n) then
      [((run env n).mapWr, (run env (n + 2)).exe.broadcastVal)] else [] := by
    have hflag : (high env (n + 1)).exe.broadcastFlag = Exe.broadcasts (issued env n) := rfl
    have hmap : (high env (n + 1)).exe.broadcastMap = (run env n).mapWr := issued_map env hn
    have hval : (high env (n + 1)).exe.broadcastVal = (run env (n + 2)).exe.broadcastVal := rfl
    have hmem : (high env (n + 1)).mem.regWrite1Out = false :=
      (mem_quiet env (n := n + 2) (by omega)).regWrite
    simp [physWrites, physRegInputs, hflag, hmap, hval, hmem]
  have h2 : physWrites (high env (n + 2)) = if writesBack (issued env n) then
      [((run env n).mapWr, (run env (n + 3)).mem.writeData1Out)] else [] := by
    have hflag : (high env (n + 2)).exe.broadcastFlag = false :=
      (exe_quiet env (n := n + 3) (by omega)).broadcastFlag
    have hmem : (high env (n + 2)).mem.regWrite1Out = writesBack (issued env n) :=
      regWrite_three env n
    have hmap : (high env (n + 2)).mem.broadcastMap = (run env n).mapWr := issued_map env hn
    have hval : (high env (n + 2)).mem.writeData1Out = (run env (n + 3)).mem.writeData1Out := rfl
    simp [physWrites, physRegInputs, hflag, hmem, hmap, hval]
  show ([0, 1, 2, 3] : List ℕ).flatMap (fun j => physWrites (high env (n + j))) = _
  simp only [List.flatMap_cons, List.flatMap_nil, Nat.add_zero, h0, h1, h2, h3, List.nil_append,
    List.append_nil]

end Ports

section Once

/-- An instruction that writes a register other than `$0` sends its result
exactly one way. -/
theorem broadcasts_or_writesBack {o : Id.Out} (h : o.regWrite1Out = true) :
    Exe.broadcasts o = !writesBack o := by
  cases hb : Exe.broadcasts o <;> simp [writesBack, hb, h]

/-- What an instruction does to the register files that writes register `rd`
through `t`: one remap, one write, and the value written stands at the next
slot. -/
structure WritesOnce (n : ℕ) (rd : Reg) (t : Tag) : Prop where
  frat : (run env (n + 1)).frat.arr rd = t
  remaps : slotRemaps env n = [(rd, t)]
  writes : ∃ v, slotWrites env n = [(t, v)] ∧ (run env (n + 4)).physReg.arr t = v

/-- **Once each**: RRAT and PHYS_REG, with the register FRAT was given. -/
theorem writesOnce (hn : n % 4 = 0) (hw : (issued env n).regWrite1Out = true) :
    WritesOnce env n (run env n).renameQueueOut.rd (run env n).mapWr := by
  have hal := allocates_of_regWrite env hn hw
  have hrd : ((run env n).renameQueueOut.rd != 0) = true := by
    rw [issued_regWrite env hn, Bool.and_eq_true] at hw
    exact hw.1
  have hp := (pinned_slot env n hn).1
  have hphys := physReg_three env hn
  rw [physReg_two env hn fun _ => mapWr_ne_zero env hp hal] at hphys
  refine ⟨?_, ?_, ?_⟩
  · have hr : (run env n).remaps = true := by rw [remaps, hal, hrd]; rfl
    rw [frat_one env hn, if_pos hr, mapWr_of_allocates hal, Function.update_self]
  · have hc : commitsExe (issued env n) = Exe.broadcasts (issued env n) := by
      rw [commitsExe, issued_writeRegister env hn, hrd, Bool.and_true]
    rw [slotRemaps_eq env hn, hc, broadcasts_or_writesBack hw]
    cases writesBack (issued env n) <;> rfl
  · rw [slotWrites_eq env hn, physReg_four env hn, hphys, broadcasts_or_writesBack hw]
    cases writesBack (issued env n) with
    | false => exact ⟨_, rfl, Function.update_self ..⟩
    | true => exact ⟨_, rfl, Function.update_self ..⟩

end Once

section Agreement

/-- No word is LWC1 or COP1. -/
def NoCop1 : Prop := ∀ n, Decoder.isLWC1 (fetched env n) = false ∧
  Decoder.isCOP1 (fetched env n) = false

variable {env}

/-- Without LWC1 every load writes a register. -/
theorem regWrite_of_memRead (hc : NoCop1 env) (n : ℕ)
    (h : (run env n).renameQueueOut.controls.memRead = true) :
    (run env n).renameQueueOut.controls.regWrite = true := by
  refine entry_of_decode env (S := fun w => Decoder.isLWC1 w = false)
    (P := fun e => e.controls.memRead = true → e.controls.regWrite = true) (by decide)
    (fun n => (hc n).1) (fun h => by simp at h) ?_ n h
  intro pc w c hw hheld hm
  obtain ⟨v, b, hv, ht, hb⟩ := hheld.decode hw
  have hm' : (Controls.ofBits b).memRead = true := hb ▸ hm
  exact hb ▸ Decoder.regWrite_of_memRead ht hv hm'

/-- What FRAT maps is written. -/
theorem regWrite_of_remaps (hc : NoCop1 env) (hn : n % 4 = 0) (h : (run env n).remaps = true) :
    (issued env n).regWrite1Out = true := by
  rw [remaps, Bool.and_eq_true, Rename.allocates, Bool.or_eq_true] at h
  rw [issued_regWrite env hn, h.2, Bool.true_and]
  rcases h.1 with hreg | hmem
  · rw [Rename.idRegWrFlag, Bool.and_eq_true] at hreg
    exact hreg.1
  · exact regWrite_of_memRead hc n hmem

/-- One slot moves both tables the same way, or neither. -/
theorem frat_eq_rrat_step (hc : NoCop1 env) (hn : n % 4 = 0)
    (h : (run env n).frat.arr = (run env n).rrat.arr) :
    (run env (n + 4)).frat.arr = (run env (n + 4)).rrat.arr := by
  rw [frat_four env hn, frat_one env hn, (rrat_four env hn).1, (rrat_three env hn).1,
    (rrat_two env hn).1]
  cases hr : (run env n).remaps with
  | false =>
    have hx : ¬commitsExe (issued env n) = true := by
      intro hx
      rw [remaps_of_commitsExe env hn hx] at hr
      exact absurd hr (by decide)
    have hw : ¬writesBack (issued env n) = true := by
      intro hw
      rw [remaps_of_writesBack env hn hw] at hr
      exact absurd hr (by decide)
    rw [if_neg (by decide), if_neg hw, if_neg hx, h]
  | true =>
    have hreg := regWrite_of_remaps hc hn hr
    have hc : commitsExe (issued env n) = !writesBack (issued env n) := by
      rw [commitsExe, issued_writeRegister env hn, ← broadcasts_or_writesBack hreg,
        bne_iff_ne.mpr (rd_ne_zero_of_remaps hr), Bool.and_true]
    rw [hc, mapWr_of_remaps hr, h]
    cases writesBack (issued env n) <;> rfl

/-- **At every issue slot FRAT and RRAT agree.** -/
theorem frat_eq_rrat (hc : NoCop1 env) (n : ℕ) (hn : n % 4 = 0) :
    (run env n).frat.arr = (run env n).rrat.arr := by
  refine Clocked.run_every (k := 4)
    (P := fun n => (run env n).frat.arr = (run env n).rrat.arr) rfl ?_ n hn
  intro n hn h
  exact frat_eq_rrat_step hc hn h

/-- The tables agree between the edges of the cycle before a slot as well. -/
theorem frat_eq_rrat_high (hc : NoCop1 env) (hn : n % 4 = 3) :
    (high env n).frat.arr = (high env n).rrat.arr := by
  have hslot := frat_eq_rrat hc (n + 1) (by omega)
  have hf := frat_of_ne env (n := n) (by omega)
  have hr := (rrat_of_quiet env (n := n) (exe_quiet env (by omega)) (mem_quiet env (by omega))).1
  exact hf.symm.trans (hslot.trans hr)

end Agreement

/-- **The committed map is precise at issue slots.** -/
theorem commit_precise (env : ℕ → Mips → Input) (hc : NoCop1 env) :
    (∀ n, ¬((run env n).exe.broadcastFlag = true ∧ (run env n).mem.regWrite1Out = true) ∧
      ¬((high env n).exe.broadcastFlag = true ∧ (high env n).mem.regWrite1Out = true)) ∧
    (∀ n, (run env n).id.bubble = 0 → (run env n).renameQueueOut.controls.regWrite = true →
      (run env n).renameQueueOut.rd ≠ 0 →
        ∃ t, WritesOnce env n (run env n).renameQueueOut.rd t) ∧
    (∀ n, (run env n).id.bubble = 0 → (run env n).frat.arr = (run env n).rrat.arr) ∧
    ∀ n, (high env n).id.bubble = 0 → (high env n).frat.arr = (high env n).rrat.arr := by
  refine ⟨fun n => ⟨not_both env n, not_both env (n + 1)⟩, fun n hb hreg hrd => ?_,
    fun n hb => frat_eq_rrat hc n ((bubble_run_eq_zero env).mp hb), fun n hb => ?_⟩
  · have hn := (bubble_run_eq_zero env).mp hb
    refine ⟨_, writesOnce env hn ?_⟩
    rw [issued_regWrite env hn, hreg, bne_iff_ne.mpr hrd]
    rfl
  · have hn : (n + 1) % 4 = 0 := (bubble_run_eq_zero env).mp hb
    exact frat_eq_rrat_high hc (by omega)

/-- With `lw $8,0($0)` at every address the tables agree when the first load has
written back. -/
theorem commit_precise_loads : (run (programEnv (fun _ => 0x8C080000) 7) 16).frat.arr =
    (run (programEnv (fun _ => 0x8C080000) 7) 16).rrat.arr := by
  refine (commit_precise (programEnv (fun _ => 0x8C080000) 7) fun n => ?_).2.2.1 16
    ((bubble_run_eq_zero _).mpr rfl)
  exact fetched_programEnv (S := fun w => Decoder.isLWC1 w = false ∧ Decoder.isCOP1 w = false)
    (by decide) (fun _ => by decide) 7 n

end Mips
end OooProcessor
