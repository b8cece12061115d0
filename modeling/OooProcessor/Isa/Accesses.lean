/-
# Loads and stores

EXE hands on the address and the register, MEM and `main` carry out the access
(`executed_memory`), and what is loaded goes to the register.
-/

import OooProcessor.Isa.Executes

namespace OooProcessor
namespace Isa

open Decoder Lib Mips Sim

section Bytes

variable {f : ℕ → BitVec 8} {i : ℕ} (m : MainMemory) (a v : Word)

theorem byteOf_ofBytes (hi : i < 4) : byteOf 4 (ofBytes f) i = f i :=
  byteOf_ofNat_number hi (by decide)

theorem wordAddress_eq : wordAddress a = Mem.memReadAddress a := by
  apply BitVec.eq_of_toNat_eq
  have ha := a.isLt
  rw [toNat_memReadAddress, wordAddress, BitVec.toNat_ofNat, Nat.mod_eq_of_lt (by omega)]

/-- **What MEM makes of a load.** -/
theorem dataReadAligned_eq_load {op : MemOp} (h : op.controls.memRead = true)
    (ha : op.aligns = true → a.toNat % op.width = 0) :
    (Mem.access op.controls.aluControl a v (readWord m (Mem.memReadAddress a)) 0).dataReadAligned =
      load op m a v := by
  cases op with
  | lwl =>
    refine eq_of_byteOf (k := 4) fun i hi => ?_
    rw [byteOf_lwl m v hi, load, byteOf_ofBytes hi]
  | lwr =>
    refine eq_of_byteOf (k := 4) fun i hi => ?_
    rw [byteOf_lwr m v hi, load, byteOf_ofBytes hi, wordAddress_eq]
  | lb | lbu | lh | lhu | lw => exact dataReadAligned_eq m v h rfl (ha rfl)
  | sb | sh | sw | swl | swr => exact absurd h (by decide)

/-- What a store writes. -/
theorem put_eq_store {op : MemOp} (h : op.controls.memWrite = true) :
    (put m (op.first a) (op.count a) fun i => byteOf 4 v (op.skip a + i)) = store op m a v := by
  cases op with
  | swl => exact put_congr fun i _ => congrArg (byteOf 4 v) (Nat.zero_add i)
  | swr =>
    have hfirst : MemOp.swr.first a = wordAddress a := (if_pos rfl).trans (wordAddress_eq a).symm
    rw [hfirst, store]
    refine put_congr fun i _ => ?_
    show byteOf 4 v (4 - (a.toNat % 4 + 1) + i) = _
    rw [show 4 - (a.toNat % 4 + 1) = 3 - a.toNat % 4 by omega]
  | sb | sh | sw => exact put_aligned m v h rfl
  | lb | lbu | lh | lhu | lw | lwl | lwr => exact absurd h (by decide)

end Bytes

section Access

variable {ω : Type*} {handler : Handler ω} {s : State ω} {p : Process ω} {op : MemOp}

/-- The rows of the loads and stores. -/
structure AccessRow (c : Controls) (stores : Bool) : Prop where
  link : c.link = false
  jump : c.jump = false
  branch : c.branch = false
  regDest : c.regDest = false
  signOrZero : c.signOrZero = true
  syscall : c.syscall = false
  memRead : c.memRead = !stores
  memWrite : c.memWrite = stores
  regWrite : c.regWrite = !stores

theorem accessRow (op : MemOp) : AccessRow op.controls (isStore op) := by
  cases op <;> exact ⟨rfl, rfl, rfl, rfl, rfl, rfl, rfl, rfl, rfl⟩

/-- The ALU adds the immediate, which it extends once more. -/
theorem aluResult_memory (op : MemOp) {i : Alu.Inputs}
    (hi : i.aluControl = op.controls.aluControl) (t : Alu.State) :
    (Alu.step i t).aluResult = i.a + (i.b.extractLsb' 0 16).signExtend 32 := by
  cases op <;>
    · rw [Alu.step, hi]
      rfl

/-- The opcodes of the loads and stores are above those of the branches, and that of
coprocessor 1. -/
theorem opcode_memory (op : MemOp) : 8 ≤ op.opcode ∧ op.opcode ≠ 0b010001 := by
  cases op <;> decide

theorem not_taken_memory (hop : opcode p.seq.word = op.opcode) :
    Exe.requestAltPc1 p.out = false := by
  refine not_taken (.inr (hop ▸ (opcode_memory op).1)) ?_
  exact (congrArg Controls.jump (MemOp.decode_eq hop _)).trans (accessRow op).jump

/-- Loads and stores name rt. -/
theorem rd_memory (hop : opcode p.seq.word = op.opcode) :
    Id.rd p.seq.word (decode p.seq.word p.seq.held) = regField p.seq.word 16 := by
  have hrow := accessRow op
  rw [MemOp.decode_eq hop, Id.rd, hrow.regDest, hrow.link, hrow.jump]
  rfl

/-- A load is not broadcast, and MEM writes what it has loaded. -/
theorem writeBack_load (hop : opcode p.seq.word = op.opcode) (hload : isStore op = false) :
    Seq.writeBack p.seq.executed (cycle p.seq.executed p.seq.sim).mem p.seq.registers =
      p.seq.registers.write (regField p.seq.word 16)
        (cycle p.seq.executed p.seq.sim).mem.writeData1Out := by
  have hrow := accessRow op
  have hc : decode p.seq.word p.seq.held = op.controls := MemOp.decode_eq hop _
  have hbroadcast : Exe.broadcasts p.out = false := by
    show (Exe.requestAltPc1 p.out && (decode p.seq.word p.seq.held).link ||
      (_ && !(decode p.seq.word p.seq.held).memRead)) = false
    rw [hc, hrow.link, hrow.memRead, hload, Bool.and_false, Bool.not_false, Bool.not_true,
      Bool.and_false, Bool.or_false]
  have hflag : p.seq.executed.broadcastFlag = false := hbroadcast
  have hwrite : (cycle p.seq.executed p.seq.sim).mem.regWrite1Out =
      (regField p.seq.word 16 != 0) := by
    show (if Exe.broadcasts p.out then false else
      (Id.rd p.seq.word (decode p.seq.word p.seq.held) != 0 &&
        (decode p.seq.word p.seq.held).regWrite)) = _
    rw [hbroadcast, if_neg Bool.false_ne_true, rd_memory hop, hc, hrow.regWrite, hload,
      Bool.not_false, Bool.and_true]
  have hregister : (cycle p.seq.executed p.seq.sim).mem.writeRegister1Out =
      regField p.seq.word 16 := rd_memory hop
  rw [Seq.writeBack, hflag, if_neg Bool.false_ne_true, hwrite, hregister]
  by_cases hzero : regField p.seq.word 16 = 0
  · rw [hzero]
    rfl
  · rw [if_pos (bne_iff_ne.mpr hzero)]

variable (h : Implements p s) (hpc : p.seq.pc ≠ 0) (hop : opcode p.seq.word = op.opcode)

include h hpc hop

/-- **What EXE hands on.** -/
theorem executed_memory : p.seq.executed = handOn op s.address s.rt p.seq.executed := by
  have hrow := accessRow op
  have hc : decode p.seq.word p.seq.held = op.controls := MemOp.decode_eq hop _
  have haddr : p.seq.executed.aluResult1Out = s.address := by
    show (Alu.step _ p.seq.exe.alu).aluResult = _
    rw [aluResult_memory op (congrArg Controls.aluControl hc)]
    show p.out.operandA1Out + (p.out.operandB1Out.extractLsb' 0 16).signExtend 32 = _
    rw [show p.out.operandA1Out = _ from operandA_issue _ _ _ _ _ hc hrow.link hrow.jump,
      show p.out.operandB1Out = _ from operandB_issue_immediate _ _ _ _ _ hc hrow.branch
        hrow.regDest, hrow.signOrZero, if_pos rfl, ArithOp.extractLsb'_signExtend,
      Registers.read_view, h.rs hpc, h.word hpc]
    rfl
  have hdatum : p.seq.executed.memWriteData1Out = s.rt := by
    show (if (decode p.seq.word p.seq.held).memRead = true
      then p.seq.registers.view.regs p.seq.mapC else p.seq.registers.view.regs p.seq.mapC) = _
    rw [ite_self, Seq.mapC, rd_memory hop]
    exact (Registers.read_view ..).trans (h.rt hpc)
  have hcontrol : p.seq.executed.aluControl1Out = op.controls.aluControl :=
    congrArg Controls.aluControl hc
  have hload : p.seq.executed.memRead1Out = op.controls.memRead := congrArg Controls.memRead hc
  have hstore : p.seq.executed.memWrite1Out = op.controls.memWrite := congrArg Controls.memWrite hc
  rw [handOn, ← haddr, ← hdatum, ← hcontrol, ← hload, ← hstore]

omit hpc in
theorem Implements.kept_memory : Agrees s.hiLo (outs (Exe.negedge p.out p.seq.exe).alu) := by
  obtain ⟨hlow, hcop⟩ := opcode_memory op
  obtain ⟨b, hb⟩ : ∃ b, (Form.immediate op.opcode).row = some b := by
    cases op <;> exact ⟨_, rfl⟩
  have ht : table p.seq.word = some _ :=
    Form.table_of_encodes (f := .immediate op.opcode) (beq_iff_eq.mpr hop) hb
  refine h.kept (hop ▸ hcop) ht (if_neg ?_)
  rw [hop]
  rintro h0
  rw [h0] at hlow
  exact absurd hlow (by decide)

/-- **A store.** -/
theorem Implements.stores (hstore : isStore op = true) :
    Implements (p.step handler) (Instr.exec handler s (.memory op)) := by
  have hrow := accessRow op
  have hc : p.controls = op.controls := MemOp.decode_eq hop _
  have hstep := Process.step_of_not_syscall handler p (hc ▸ hrow.syscall)
  have hexec : Instr.exec handler s (.memory op) =
      { s.next with memory := store op s.memory s.address s.rt } := if_pos hstore
  rw [hexec]
  refine h.step hpc rfl (not_taken_memory hop) rfl ?_ (h.kept_memory hop) ?_ ?_
  · rw [hstep, registers_of_silent hc (hrow.regWrite.trans (congrArg not hstore)) hrow.link
      (hrow.memRead.trans (congrArg not hstore)), h.registers]
    rfl
  · rw [hstep]
    show (cycle p.seq.executed p.seq.sim).mainMemory = _
    rw [executed_memory h hpc hop, mainMemory_store _ _ _ _ (hrow.memWrite.trans hstore),
      put_eq_store _ _ _ (hrow.memWrite.trans hstore), h.memory]
  · rw [hstep]
    exact h.os

/-- **A load.** -/
theorem Implements.loads (hload : isStore op = false) (hs : Instr.Sound s (.memory op)) :
    Implements (p.step handler) (Instr.exec handler s (.memory op)) := by
  have hrow := accessRow op
  have hc : p.controls = op.controls := MemOp.decode_eq hop _
  have hstep := Process.step_of_not_syscall handler p (hc ▸ hrow.syscall)
  have hexec : Instr.exec handler s (.memory op) =
      s.next.write (regField s.word 16) (load op s.memory s.address s.rt) :=
    if_neg (Bool.eq_false_iff.mp hload)
  have hread : op.controls.memRead = true := hrow.memRead.trans (congrArg not hload)
  rw [hexec]
  refine h.step hpc rfl (not_taken_memory hop) rfl ?_ (h.kept_memory hop) ?_ ?_
  · rw [hstep]
    show (Seq.writeBack p.seq.executed (cycle p.seq.executed p.seq.sim).mem
      p.seq.registers).val = _
    rw [writeBack_load hop hload, executed_memory h hpc hop, writeData1Out_load _ _ _ _ hread,
      dataReadAligned_eq_load _ _ _ hread hs, h.memory, h.word hpc]
    exact val_write_congr h.registers _ _
  · rw [hstep]
    refine (Seq.mainMemory_step (s := p.seq) ?_).trans h.memory
    exact (congrArg Controls.memWrite hc).trans (hrow.memWrite.trans hload)
  · rw [hstep]
    exact h.os

end Access

end Isa
end OooProcessor
