/-
# Dataflow through the renamed registers

What a program expects of a register is the result of the last instruction before
that writes it (`archValue`); the core reads PHYS_REG through FRAT instead.
The two agree as long as no result is stored under a register that FRAT still
has for another name (`NoOverwrite`): each slot then moves the mapping of its
destination and the value behind it together and leaves every other name alone
(`value_step`), so that every operand read is current (`reads_current`).

The streams are those without COP1, LWC1, LL, SC and SYSCALL.  A SYSCALL lets the
simulator write registers, SC stores its fresh register instead of its operand,
and LWC1 is renamed but never writes.
-/

import OooProcessor.Core.Commit

namespace OooProcessor
namespace Mips

open Lib

/-- Neither COP1, LWC1, LL, SC nor SYSCALL. -/
def plainWord (w : Word) : Bool :=
  !Decoder.isCOP1 w && !Decoder.isLWC1 w && !Decoder.isLL w && !Decoder.isSC w &&
    !Decoder.isSyscall w

/-- The instruction takes a register that it will store a result in, and FRAT
does not have that register for a name other than the destination's. -/
def NoOverwrite (s : Mips) : Prop :=
  Rename.allocates s.renameQueueOut = true →
    (s.renameQueueOut.controls.link = true ∨
      s.renameQueueOut.controls.regWrite = true ∧ s.renameQueueOut.rd ≠ 0) →
    ∀ a, a ≠ s.renameQueueOut.rd → s.frat.arr a ≠ s.freeReg

instance (s : Mips) : Decidable (NoOverwrite s) := inferInstanceAs (Decidable (_ → _ → _))

variable (env : ℕ → Mips → Input) {n : ℕ}

/-- What the instruction of the slot at cycle `n` broadcasts from EXE or, if it
does not, writes back from MEM. -/
def result (n : ℕ) : Word :=
  if (run env (n + 2)).exe.broadcastFlag then (run env (n + 2)).exe.broadcastVal
  else (run env (n + 3)).mem.writeData1Out

/-- The instruction of the slot at cycle `n` writes register `a`. -/
def WritesReg (n : ℕ) (a : Reg) : Prop :=
  (issued env n).regWrite1Out = true ∧ (issued env n).writeRegister1Out = a

instance (n : ℕ) (a : Reg) : Decidable (WritesReg env n a) := inferInstanceAs (Decidable (_ ∧ _))

/-- **What a program expects in register `a`** after `m` slots: the result of the
most recent instruction that writes it, or 0. -/
def archValue : ℕ → Reg → Word
  | 0, _ => 0
  | m + 1, a => if WritesReg env (4 * m) a then result env (4 * m) else archValue m a

/-- The stream is made of plain words. -/
def PlainStream : Prop := ∀ n, plainWord (fetched env n) = true

section Stream

variable {env}

theorem PlainStream.noCop1 (hs : PlainStream env) : NoCop1 env := by
  intro n
  have h := hs n
  simp only [plainWord, Bool.and_eq_true, Bool.not_eq_true'] at h
  exact ⟨h.1.1.1.2, h.1.1.1.1⟩

/-- No instruction of a plain stream raises SYS. -/
theorem not_syscall (hs : PlainStream env) (n : ℕ) :
    (run env n).renameQueueOut.controls.syscall = false := by
  refine entry_of_decode env (S := fun w => plainWord w = true)
    (P := fun e => e.controls.syscall = false) (by decide) hs rfl ?_ n
  intro pc w c hw hheld
  obtain ⟨v, b, hv, ht, hb⟩ := hheld.decode hw
  have hctl : (Id.renameEntry pc w (Decoder.decode w c)).controls = Controls.ofBits b := hb
  rw [hctl]
  by_contra hsys
  rw [Bool.not_eq_false] at hsys
  simp only [plainWord, Bool.and_eq_true, Bool.not_eq_true'] at hv
  rcases Decoder.isSyscall_or_of_syscall ht hsys with h | h | h
  · rw [hv.2] at h
    exact absurd h Bool.false_ne_true
  · rw [hv.1.1.2] at h
    exact absurd h Bool.false_ne_true
  · rw [hv.1.2] at h
    exact absurd h Bool.false_ne_true

/-- No store of a plain stream takes a register. -/
theorem not_regWrite_of_memWrite (hs : PlainStream env) (n : ℕ)
    (h : (run env n).renameQueueOut.controls.memWrite = true) :
    (run env n).renameQueueOut.controls.regWrite = false := by
  refine entry_of_decode env (S := fun w => plainWord w = true)
    (P := fun e => e.controls.memWrite = true → e.controls.regWrite = false) (by decide) hs
    (fun _ => rfl) ?_ n h
  intro pc w c hw hheld hm
  obtain ⟨v, b, hv, ht, hb⟩ := hheld.decode hw
  have hctl : (Id.renameEntry pc w (Decoder.decode w c)).controls = Controls.ofBits b := hb
  rw [hctl] at hm ⊢
  by_contra hr
  rw [Bool.not_eq_false] at hr
  simp only [plainWord, Bool.and_eq_true, Bool.not_eq_true'] at hv
  have hsc := Decoder.isSC_of_memWrite_regWrite ht hm hr
  rw [hv.1.2] at hsc
  exact absurd hsc Bool.false_ne_true

/-- The handler never runs. -/
theorem physReg_one_of_plain (hs : PlainStream env) (hn : n % 4 = 0) :
    (run env (n + 1)).physReg = (run env n).physReg := by
  have hsys : (high env n).id.out.sys = false :=
    (issued_sys env hn).trans (not_syscall hs n)
  rw [physReg_one env hn, syscallHandler, if_neg (by simp [hsys])]
  rfl

end Stream

section Step

variable {env} (hs : PlainStream env) (hn : n % 4 = 0)

include hn

/-- A slot writes the register its instruction was given, or nothing. -/
theorem physReg_next (hs : PlainStream env) : (run env (n + 4)).physReg.arr =
    if Exe.broadcasts (issued env n) || writesBack (issued env n) then
      Function.update (run env n).physReg.arr (run env n).mapWr (result env n)
    else (run env n).physReg.arr := by
  have hp := (pinned_slot env n hn).1
  rw [physReg_four env hn, physReg_three env hn, physReg_two env hn fun hb =>
    mapWr_ne_zero env hp (allocates_of_broadcasts env hn hb), physReg_one_of_plain hs hn, result,
    broadcastFlag_two]
  cases hb : Exe.broadcasts (issued env n) with
  | false => simp
  | true =>
    have hw : writesBack (issued env n) = false := by simp [writesBack, hb]
    simp [hw]

/-- Whoever stores a result writes or links. -/
theorem writes_or_links
    (h : (Exe.broadcasts (issued env n) || writesBack (issued env n)) = true) :
    Rename.allocates (run env n).renameQueueOut = true ∧
      ((run env n).renameQueueOut.controls.link = true ∨
        (run env n).renameQueueOut.controls.regWrite = true ∧
          (run env n).renameQueueOut.rd ≠ 0) := by
  have hreg : (issued env n).regWrite1Out = true →
      (run env n).renameQueueOut.controls.regWrite = true ∧
        (run env n).renameQueueOut.rd ≠ 0 := by
    intro hw
    rw [issued_regWrite env hn, Bool.and_eq_true, bne_iff_ne] at hw
    exact ⟨hw.2, hw.1⟩
  rcases Bool.or_eq_true_iff.mp h with hb | hw
  · refine ⟨allocates_of_broadcasts env hn hb, ?_⟩
    rw [issued_broadcasts env hn, Bool.or_eq_true, Bool.and_eq_true, Bool.and_eq_true] at hb
    rcases hb with hb | hb
    · exact .inl hb.2
    · exact .inr (hreg hb.1)
  · refine ⟨allocates_of_writesBack env hn hw, .inr (hreg ?_)⟩
    exact ((writesBack_iff env hn).mp hw).2

/-- A name the slot does not write keeps its mapping. -/
theorem frat_kept (hs : PlainStream env) {a : Reg} (hw : ¬WritesReg env n a) :
    (run env (n + 4)).frat.arr a = (run env n).frat.arr a := by
  rw [frat_four env hn, frat_one env hn]
  split_ifs with hr
  · refine Function.update_of_ne ?_ _ _
    rintro rfl
    exact hw ⟨regWrite_of_remaps hs.noCop1 hn hr, issued_writeRegister env hn⟩
  · rfl

/-- The register a slot writes to is not one FRAT has for a name it does not
write. -/
theorem frat_ne_mapWr (hs : PlainStream env) (hno : NoOverwrite (run env n)) {a : Reg}
    (hw : ¬WritesReg env n a)
    (hst : (Exe.broadcasts (issued env n) || writesBack (issued env n)) = true) :
    (run env n).frat.arr a ≠ (run env n).mapWr := by
  obtain ⟨hal, hwl⟩ := writes_or_links hn hst
  rw [mapWr_of_allocates hal]
  by_cases hrd : a = (run env n).renameQueueOut.rd
  · -- a destination that is not written is `$0`
    have hzero : (run env n).renameQueueOut.rd = 0 := by
      by_contra hne
      refine hw ⟨regWrite_of_remaps hs.noCop1 hn ?_, ?_⟩
      · rw [remaps, hal, bne_iff_ne.mpr hne]
        rfl
      · rw [issued_writeRegister env hn, hrd]
    rw [hrd, hzero, frat_zero]
    exact (freeReg_ne_zero env (pinned_slot env n hn).1 hal).symm
  · exact hno hal hwl a hrd

/-- The name a slot writes leads to the slot's result. -/
theorem value_written (hs : PlainStream env) {a : Reg} (hw : WritesReg env n a) :
    (run env (n + 4)).physReg.arr ((run env (n + 4)).frat.arr a) = result env n := by
  obtain ⟨hreg, rfl⟩ := hw
  have hal := allocates_of_regWrite env hn hreg
  have hr : (run env n).remaps = true := by
    rw [issued_regWrite env hn, Bool.and_eq_true] at hreg
    rw [remaps, hal, hreg.1]
    rfl
  have hst : (Exe.broadcasts (issued env n) || writesBack (issued env n)) = true := by
    rw [broadcasts_or_writesBack hreg]
    cases writesBack (issued env n) <;> rfl
  rw [frat_four env hn, frat_one env hn, physReg_next hn hs, if_pos hr, if_pos hst,
    issued_writeRegister env hn, Function.update_self, mapWr_of_allocates hal,
    Function.update_self]

/-- **One slot keeps every name at its value**: the destination's new register
gets the result, and no other name has that register. -/
theorem value_step (hs : PlainStream env) (hno : NoOverwrite (run env n)) {v : Reg → Word}
    (hv : ∀ a, (run env n).physReg.arr ((run env n).frat.arr a) = v a) (a : Reg) :
    (run env (n + 4)).physReg.arr ((run env (n + 4)).frat.arr a) =
      if WritesReg env n a then result env n else v a := by
  by_cases hw : WritesReg env n a
  · rw [if_pos hw]
    exact value_written hn hs hw
  · rw [if_neg hw, frat_kept hn hs hw, physReg_next hn hs]
    split_ifs with hst
    · rw [Function.update_of_ne (frat_ne_mapWr hn hs hno hw hst)]
      exact hv a
    · exact hv a

end Step

section Run

variable {env}

/-- FRAT leads to the value a program expects, at every slot that slots without
an overwrite lead to. -/
theorem value_slot (hs : PlainStream env) (m : ℕ)
    (hno : ∀ k < m, NoOverwrite (run env (4 * k))) (a : Reg) :
    (run env (4 * m)).physReg.arr ((run env (4 * m)).frat.arr a) = archValue env m a := by
  induction m generalizing a with
  | zero => rfl
  | succ m ih =>
    exact value_step (Nat.mul_mod_right 4 m) hs (hno m (Nat.lt_succ_self m))
      (fun a => ih (fun k hk => hno k (by omega)) a) a

end Run

/-- **Every operand read is current** in a plain stream: rs, rt, and the register a
load merges into or a store stores hold what the last instruction that writes
them produced, as long as no slot before overwrites a register FRAT has for
another name. -/
theorem reads_current (env : ℕ → Mips → Input) (hs : PlainStream env) (m : ℕ)
    (hno : ∀ k < m, NoOverwrite (run env (4 * k))) :
    ∀ p ∈ (run env (4 * m)).operandReads, p.2 = archValue env m p.1 := by
  have hn : 4 * m % 4 = 0 := Nat.mul_mod_right 4 m
  have hval := value_slot hs m hno
  intro p hp
  rw [operandReads_eq env hn] at hp
  simp only [List.mem_append, List.mem_cons, List.not_mem_nil, or_false] at hp
  rcases hp with (rfl | rfl) | hp
  · exact hval _
  · exact hval _
  · split_ifs at hp with hm hld
    · obtain rfl := List.mem_singleton.mp hp
      exact hval _
    · obtain rfl := List.mem_singleton.mp hp
      have hst : (run env (4 * m)).renameQueueOut.controls.memWrite = true := by
        simpa [hld] using hm
      have hal : Rename.allocates (run env (4 * m)).renameQueueOut = false := by
        simp only [Bool.not_eq_true] at hld
        simp [Rename.allocates, Rename.idRegWrFlag, not_regWrite_of_memWrite hs _ hst, hld]
      rw [mapWr_of_not_allocates hal]
      exact hval _
    · exact absurd hp List.not_mem_nil

/-- `j; lw $8,0($0)`, and at the target `addiu $9,$8,5; addu $10,$8,$0`. -/
def loadInDelaySlot : Word → Word
  | 0xBFC00000 => 0x0BF00004
  | 0xBFC00004 => 0x8C080000
  | 0xBFC00010 => 0x25090005
  | 0xBFC00014 => 0x01005021
  | _ => 0

theorem plainStream_loadInDelaySlot (data : Word) :
    PlainStream (programEnv loadInDelaySlot data) := by
  refine fetched_programEnv (S := fun w => plainWord w = true) (by decide) (fun a => ?_) data
  unfold loadInDelaySlot
  split <;> decide

/-- ADDIU at the target reads what the load wrote back. -/
theorem reads_current_loadInDelaySlot :
    archValue (programEnv loadInDelaySlot 0x1234) 6 8 = 0x1234 := by
  have hread : machine.evalRun (programEnv loadInDelaySlot 0x1234) 24
      (fun s => decide (((8, 0x1234) : Reg × Word) ∈ s.operandReads)) = true := by decide +kernel
  have hrun : ∀ k < 6, machine.evalRun (programEnv loadInDelaySlot 0x1234) (4 * k)
      (fun s => decide (NoOverwrite s)) = true := by decide +kernel
  simp only [Clocked.evalRun_eq, decide_eq_true_iff] at hread hrun
  exact (reads_current (programEnv loadInDelaySlot 0x1234)
    (plainStream_loadInDelaySlot 0x1234) 6 hrun (8, 0x1234) hread).symm

/-- ADDIU and the ADDU after it both read `$8`, ADDIU does not write it, and they
read different values. -/
theorem not_reads_current_loadInDelaySlot :
    PlainStream (programEnv loadInDelaySlot 0x1234) ∧
      ¬∀ m, ∀ p ∈ (run (programEnv loadInDelaySlot 0x1234) (4 * m)).operandReads,
        p.2 = archValue (programEnv loadInDelaySlot 0x1234) m p.1 := by
  refine ⟨plainStream_loadInDelaySlot 0x1234, fun h => ?_⟩
  have hrun : machine.evalRun (programEnv loadInDelaySlot 0x1234) 24
      (fun s => decide (((8, 0x1234) : Reg × Word) ∈ s.operandReads)) = true ∧
      machine.evalRun (programEnv loadInDelaySlot 0x1234) 25
        (fun s => decide (s.id.out.writeRegister1Out = 9)) = true ∧
      machine.evalRun (programEnv loadInDelaySlot 0x1234) 28
        (fun s => decide (((8, 0x1239) : Reg × Word) ∈ s.operandReads)) = true := by
    decide +kernel
  simp only [Clocked.evalRun_eq, decide_eq_true_iff] at hrun
  obtain ⟨h24, h25, h28⟩ := hrun
  have hbefore := h 6 _ h24
  have hafter := h 7 _ h28
  have hkeep : archValue (programEnv loadInDelaySlot 0x1234) 7 8 =
      archValue (programEnv loadInDelaySlot 0x1234) 6 8 := by
    refine if_neg fun hw => ?_
    have h9 : (9 : Reg) = 8 := h25.symm.trans hw.2
    exact absurd h9 (by decide)
  have heq : (0x1239 : Word) = 0x1234 := hafter.trans (hkeep.trans hbefore.symm)
  exact absurd heq (by decide)

end Mips
end OooProcessor
