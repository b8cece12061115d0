/-
# Transfers of control and system calls

EXE decides where to and when, and what it links (`Core/Branch.lean`, `Core/Jump.lean`); a
system call goes to the handler.
-/

import OooProcessor.Isa.Accesses

namespace OooProcessor
namespace Isa

open Decoder Lib Mips Sim

namespace TransferOp

/-- The row of Decoder's tables. -/
def row : TransferOp → BitVec 19
  | j => 0b0011000000000111000
  | jal => 0b1011001101000000100
  | jr => 0b0011000010011111000
  | jalr => 0b1111001110011100000
  | beq => 0b0101000001010001000
  | bne => 0b0101000001010100100
  | blez => 0b0001000001010011000
  | bgtz => 0b0001000001010010100
  | bltz => 0b0001000001010011100
  | bgez => 0b0001000001010001100
  | bltzal | bgezal => 0b1001001101000000100

variable {op : TransferOp} {w : Word} (h : op.encodes w = true)

include h

theorem table_eq : table w = some op.row := by
  cases op with
  | jr | jalr =>
    obtain ⟨hop, hf⟩ := Bool.and_eq_true_iff.mp h
    rw [table, if_pos (beq_iff_eq.mp hop), beq_iff_eq.mp hf]
    rfl
  | bltz | bgez | bltzal | bgezal =>
    obtain ⟨hop, hrt⟩ := Bool.and_eq_true_iff.mp h
    rw [table, beq_iff_eq.mp hop, beq_iff_eq.mp hrt]
    rfl
  | j | jal | beq | bne | blez | bgtz =>
    have hop := beq_iff_eq.mp h
    rw [table, hop]
    rfl

/-- It is no word of coprocessor 1, and writes neither HI nor LO. -/
theorem keeps : opcode w ≠ 0b010001 ∧ HiLoOp.ofWord w = none := by
  cases op with
  | jr | jalr =>
    obtain ⟨hop, hf⟩ := Bool.and_eq_true_iff.mp h
    rw [HiLoOp.ofWord, beq_iff_eq.mp hop, beq_iff_eq.mp hf]
    decide
  | bltz | bgez | bltzal | bgezal =>
    obtain ⟨hop, hrt⟩ := Bool.and_eq_true_iff.mp h
    rw [HiLoOp.ofWord, beq_iff_eq.mp hop]
    exact ⟨by decide, if_neg (by decide)⟩
  | j | jal | beq | bne | blez | bgtz =>
    rw [HiLoOp.ofWord, beq_iff_eq.mp h]
    exact ⟨by decide, if_neg (by decide)⟩

/-- A branch on a condition, and none that is likely. -/
structure Conditional (op : TransferOp) (w : Word) : Prop where
  condBranch : isCondBranch w = true
  likely : isLikely w = false
  condLink : isCondLink w = true → op = bltzal ∨ op = bgezal
  condition : ∀ a b, condition w a b = op.taken a b

/-- The instruction is a jump or such a branch. -/
theorem conditional_or_jump :
    Conditional op w ∨ (Controls.ofBits op.row).jump = true ∧ ∀ a b, op.taken a b = true := by
  have ht := table_eq h
  cases op with
  | j | jal | jr | jalr => exact .inr ⟨rfl, fun _ _ => rfl⟩
  | bltz | bgez | bltzal | bgezal =>
    obtain ⟨hop, hrt⟩ := Bool.and_eq_true_iff.mp h
    have hop := beq_iff_eq.mp hop
    have hrt := beq_iff_eq.mp hrt
    refine .inl ⟨?_, ?_, ?_, fun a b => ?_⟩
    · rw [isCondBranch, isCOP1, hop, ht]
      rfl
    · rw [isLikely, hop]
      rfl
    · rw [isCondLink, hop, hrt]
      decide
    · rw [Mips.condition, hop, hrt]
      rfl
  | beq | bne | blez | bgtz =>
    have hop := beq_iff_eq.mp h
    refine .inl ⟨?_, ?_, ?_, fun a b => ?_⟩
    · rw [isCondBranch, isCOP1, hop, ht]
      rfl
    · rw [isLikely, hop]
      rfl
    · rw [isCondLink, hop]
      exact fun hlink => absurd hlink Bool.false_ne_true
    · rw [Mips.condition, hop]
      rfl

/-- What is linked, and to which register. -/
theorem link_cases : (∃ r, op.link w = some r ∧ links w = true ∧ linkRegister w = r) ∨
    op.link w = none ∧ (Controls.ofBits op.row).regWrite = false ∧
      (Controls.ofBits op.row).link = false := by
  cases op with
  | jalr =>
    have hj : isJALR w = true := h
    exact .inl ⟨_, rfl, by rw [links, hj]; rfl, if_pos hj⟩
  | jal =>
    have hop := beq_iff_eq.mp h
    have hj : isJALR w = false := by
      rw [isJALR, hop]
      rfl
    refine .inl ⟨_, rfl, ?_, if_neg (Bool.eq_false_iff.mp hj)⟩
    rw [links, hj, hop]
    rfl
  | bltzal | bgezal =>
    obtain ⟨hop, hrt⟩ := Bool.and_eq_true_iff.mp h
    have hj : isJALR w = false := by
      rw [isJALR, beq_iff_eq.mp hop]
      rfl
    refine .inl ⟨_, rfl, ?_, if_neg (Bool.eq_false_iff.mp hj)⟩
    rw [links, isCondLink, beq_iff_eq.mp hop, beq_iff_eq.mp hrt]
    exact Bool.or_true _
  | j | jr | beq | bne | blez | bgtz | bltz | bgez => exact .inr ⟨rfl, rfl, rfl⟩

theorem transfers_eq : transfers w = true := by
  cases op with
  | jr | jalr =>
    obtain ⟨hop, hf⟩ := Bool.and_eq_true_iff.mp h
    rw [transfers, beq_iff_eq.mp hop, beq_iff_eq.mp hf]
    rfl
  | bltz | bgez | bltzal | bgezal =>
    obtain ⟨hop, hrt⟩ := Bool.and_eq_true_iff.mp h
    rw [transfers, beq_iff_eq.mp hop, beq_iff_eq.mp hrt]
    rfl
  | j | jal | beq | bne | blez | bgtz =>
    rw [transfers, beq_iff_eq.mp h]
    rfl

end TransferOp

section Transfer

variable {ω : Type*} {handler : Handler ω} {s : State ω} {p : Process ω} {op : TransferOp}
  (h : Implements p s) (hpc : p.seq.pc ≠ 0) (hw : op.encodes p.seq.word = true)

include h hpc hw

/-- **When.** -/
theorem requestAltPc1_eq (hs : Instr.Sound s (.transfer op)) :
    Exe.requestAltPc1 p.out = op.taken s.rs s.rt := by
  have hc : p.controls = Controls.ofBits op.row := decode_of_table (TransferOp.table_eq hw) _
  rcases TransferOp.conditional_or_jump hw with hcond | ⟨hjump, htaken⟩
  · have hdecides : Decides p.seq.word (p.seq.registers.view.read (regField p.seq.word 21))
        (p.seq.registers.view.read (regField p.seq.word 16)) := by
      refine ⟨fun hl => absurd hl (Bool.eq_false_iff.mp hcond.likely), fun hl => ?_⟩
      rw [Registers.read_view, h.rs hpc]
      exact hs (hcond.condLink hl)
    have htaken := (taken_iff p.seq.registers.view p.seq.pc p.seq.word p.seq.held p.seq.mapC
      p.seq.mapC hcond.condBranch).mpr hdecides
    rw [Registers.read_view, Registers.read_view, h.rs hpc, h.rt hpc, hcond.condition] at htaken
    exact htaken
  · rw [htaken]
    show (_ || p.controls.jump) = true
    rw [hc, hjump, Bool.or_true]

/-- **Where to.** -/
theorem target_eq : Exe.target p.out = op.target s.pc s.word s.rs := by
  have ht := TransferOp.table_eq hw
  have hc : decode p.seq.word p.seq.held = Controls.ofBits op.row := decode_of_table ht _
  have htarget := target_issue p.seq.registers.view p.seq.pc p.seq.held p.seq.mapC p.seq.mapC ht
  rw [Registers.read_view, h.rs hpc, hc] at htarget
  rw [← h.pc, ← h.word hpc]
  refine htarget.trans ?_
  cases op <;> rfl

/-- **Jumps and branches.** -/
theorem Implements.transfers (hs : Instr.Sound s (.transfer op)) :
    Implements (p.step handler) (Instr.exec handler s (.transfer op)) := by
  have ht := TransferOp.table_eq hw
  have hc : p.controls = Controls.ofBits op.row := decode_of_table ht _
  obtain ⟨hcop, hnone⟩ := TransferOp.keeps hw
  have hsys : p.controls.syscall = false := by
    rw [hc]
    cases op <;> rfl
  have hload : p.controls.memRead = false := by
    rw [hc]
    cases op <;> rfl
  have hstore : p.controls.memWrite = false := by
    rw [hc]
    cases op <;> rfl
  have hstep := Process.step_of_not_syscall handler p hsys
  have htaken := requestAltPc1_eq h hpc hw hs
  have htarget := target_eq h hpc hw
  have hmem : (p.step handler).seq.sim.mainMemory = s.memory := by
    rw [hstep]
    exact (Seq.mainMemory_step (s := p.seq) hstore).trans h.memory
  have hos : (p.step handler).os = s.os := by
    rw [hstep]
    exact h.os
  rcases TransferOp.link_cases hw with ⟨r, hlink, hlinks, hregister⟩ | ⟨hlink, hwrite, hnolink⟩
  · have hexec : Instr.exec handler s (.transfer op) = State.write { s.next with
        npc := if op.taken s.rs s.rt then op.target s.pc s.word s.rs else s.npc + 4
        inSlot := op.taken s.rs s.rt } r (s.pc + 8) := by
      rw [Instr.exec, ← h.word hpc, hlink]
    obtain ⟨-, hbroadcast⟩ := jumps_and_links p.seq.registers.view p.seq.pc p.seq.word p.seq.held
      p.seq.mapC p.seq.mapC p.seq.exe (TransferOp.transfers_eq hw)
    obtain ⟨hflag, hreg, hval⟩ := hbroadcast hlinks
    rw [hexec]
    refine h.step hpc rfl htaken ?_ ?_ (h.kept hcop ht hnone) hmem hos
    · rw [htarget]
      rfl
    · rw [hstep, Seq.registers_step (s := p.seq) hload,
        show p.seq.executed.broadcastFlag = true from hflag, if_pos rfl,
        show p.seq.executed.broadcastReg = r from hreg.trans hregister,
        show p.seq.executed.broadcastVal = s.pc + 8 from h.pc ▸ hval]
      exact val_write_congr h.registers r (s.pc + 8)
  · have hexec : Instr.exec handler s (.transfer op) = { s.next with
        npc := if op.taken s.rs s.rt then op.target s.pc s.word s.rs else s.npc + 4
        inSlot := op.taken s.rs s.rt } := by
      rw [Instr.exec, ← h.word hpc, hlink]
    rw [hexec]
    refine h.step hpc rfl htaken ?_ ?_ (h.kept hcop ht hnone) hmem hos
    · rw [htarget]
    · rw [hstep, registers_of_silent hc hwrite hnolink (hc ▸ hload), h.registers]
      rfl

end Transfer

section Syscall

variable {ω : Type*} {handler : Handler ω} {s : State ω} {p : Process ω}

theorem val_writeAll_congr {r r' : Registers} (h : r.val = r'.val) (ws : List (Reg × Word)) :
    (r.writeAll ws).val = (r'.writeAll ws).val := by
  induction ws generalizing r r' with
  | nil => exact h
  | cons w ws ih => exact ih (val_write_congr h w.1 w.2)

/-- SYSCALL writes no register of its own. -/
theorem writeBack_syscall (hc : p.controls = Controls.ofBits 0b0000001101100001100)
    (hrt : regField p.seq.word 16 = 0) (r : Registers) :
    Seq.writeBack p.seq.executed (p.accessed handler).mem r = r := by
  have hlink : p.controls.link = false := by
    rw [hc]
    rfl
  have hrd : Id.rd p.seq.word p.controls = 0 := by
    rw [hc]
    exact hrt
  have hflag : p.seq.executed.broadcastFlag = false := by
    show (Exe.requestAltPc1 p.out && p.controls.link ||
      (Id.rd p.seq.word p.controls != 0 && p.controls.regWrite) && !p.controls.memRead) = false
    rw [hlink, hrd, Bool.and_false]
    rfl
  have hwrite : (p.accessed handler).mem.regWrite1Out = false := by
    show (if p.seq.executed.broadcastFlag then false
      else (Id.rd p.seq.word p.controls != 0 && p.controls.regWrite)) = false
    rw [hflag, hrd]
    rfl
  rw [Seq.writeBack, hflag, if_neg Bool.false_ne_true, hwrite, if_neg Bool.false_ne_true]

/-- **A system call.** -/
theorem Implements.calls (h : Implements p s) (hpc : p.seq.pc ≠ 0)
    (hw : isSyscall p.seq.word = true) (hs : Instr.Sound s .syscall) :
    Implements (p.step handler) (Instr.exec handler s .syscall) := by
  have ht := table_of_isSyscall hw
  have hc : p.controls = Controls.ofBits 0b0000001101100001100 := decode_of_table ht _
  obtain ⟨hop, hfunct⟩ := Bool.and_eq_true_iff.mp hw
  have hop : opcode p.seq.word = 0 := beq_iff_eq.mp hop
  have hcalled : p.called handler = handler s.registers.val s.memory s.os := by
    rw [Process.called, hc, if_pos (by rfl), h.registers, h.memory, h.os]
  have hnone : HiLoOp.ofWord p.seq.word = none := by
    rw [HiLoOp.ofWord, hop, beq_iff_eq.mp hfunct]
    rfl
  have hrt : regField p.seq.word 16 = 0 := h.word hpc ▸ hs
  have htaken := not_taken (p := p) (.inl hop) (by rw [hc]; rfl)
  refine h.step hpc rfl htaken rfl ?_ (h.kept (by rw [hop]; decide) ht hnone) ?_ ?_
  · show (Seq.writeBack p.seq.executed (p.accessed handler).mem
      (p.seq.registers.writeAll (p.called handler).1)).val = _
    rw [writeBack_syscall hc hrt, hcalled]
    exact val_writeAll_congr h.registers _
  · have hstore : p.seq.executed.memWrite1Out = false := congrArg Controls.memWrite hc
    show (p.accessed handler).mainMemory = _
    rw [Process.accessed, mainMemory_of_not_memWrite _ hstore, hcalled]
    rfl
  · show (p.called handler).2.2 = _
    rw [hcalled]
    rfl

end Syscall

section Step

variable {ω : Type*} {handler : Handler ω} {s : State ω} {p : Process ω}

/-- **The core does what MIPS says** of every instruction that is sound. -/
theorem implements_step (h : Implements p s) (hpc : p.seq.pc ≠ 0) (hs : s.Sound) :
    Implements (p.step handler) (s.step handler) := by
  obtain ⟨i, hi, hsound⟩ := hs
  have hw := encodes_of_instrOf hi
  rw [State.step, hi]
  dsimp only
  have hword := h.word hpc
  cases i with
  | arith op => exact h.arith hpc op hw
  | setLess op => exact h.setLess hpc op hw hsound
  | shift op => exact h.shift hpc op hw hsound
  | hiLo op => exact h.writesHiLo hpc op hw hsound
  | fromHi => exact h.fromHi hpc hw hsound
  | fromLo => exact h.fromLo hpc hw hsound
  | memory op =>
    have hop : opcode p.seq.word = op.opcode := by
      rw [hword]
      exact beq_iff_eq.mp hw
    cases hstore : isStore op with
    | true => exact h.stores hpc hop hstore
    | false => exact h.loads hpc hop hstore hsound
  | transfer op => exact h.transfers hpc (hword ▸ hw) hsound
  | syscall => exact h.calls hpc (hword ▸ hw) hsound

end Step

end Isa
end OooProcessor
