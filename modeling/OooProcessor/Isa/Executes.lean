/-
# The core executes MIPS

Decoder, the operands of ID, EXE, MEM and the write back, one instruction after another
(`Sim/Process.lean`), do what MIPS says of every instruction that is sound (`implements_step`).
-/

import OooProcessor.Isa.Instructions
import OooProcessor.Sim.Unaligned

namespace OooProcessor
namespace Isa

open Decoder Lib Mips Sim

variable {ω : Type*} {handler : Handler ω} {s t : State ω} {p : Process ω}

/-- A state of the process that is one of the program in MIPS. -/
structure Implements (p : Process ω) (s : State ω) : Prop where
  pc : p.seq.pc = s.pc
  npc : (if p.seq.exe.take then p.seq.exe.addr else p.seq.pc + 4) = s.npc
  inSlot : p.seq.exe.take = s.inSlot
  registers : p.seq.registers.val = s.registers.val
  hiLo : Agrees s.hiLo (p.seq.exe.hi, p.seq.exe.lo)
  alu : (p.seq.exe.hi, p.seq.exe.lo) = outs p.seq.exe.alu
  memory : p.seq.sim.mainMemory = s.memory
  os : p.os = s.os

/-- What ID hands on, as an instruction. -/
def handed (p : Process ω) : Instruction where
  view := p.seq.registers.view
  pc := p.seq.pc
  word := p.seq.word
  held := p.seq.held
  mapWr := p.seq.mapC
  special := p.seq.mapC

theorem rs_handed (p : Process ω) :
    (handed p).rs = p.seq.registers.val (regField p.seq.word 21) := Registers.read_view ..

theorem rt_handed (p : Process ω) :
    (handed p).rt = p.seq.registers.val (regField p.seq.word 16) := Registers.read_view ..

namespace Implements

variable (h : Implements p s) (hpc : p.seq.pc ≠ 0)

include h hpc

theorem word : p.seq.word = s.word := by
  rw [Seq.word, if_neg hpc, h.pc, h.memory, State.word]

theorem rs : p.seq.registers.val (regField p.seq.word 21) = s.rs := by
  rw [h.word hpc, h.registers, State.rs]

theorem rt : p.seq.registers.val (regField p.seq.word 16) = s.rt := by
  rw [h.word hpc, h.registers, State.rt]

/-- The state after an instruction, if it transfers control as it should and leaves what it
should. -/
theorem step
    (hpct : t.pc = s.npc)
    (htaken : Exe.requestAltPc1 p.out = t.inSlot)
    (hnpc : (if t.inSlot then Exe.target p.out else s.npc + 4) = t.npc)
    (hregs : (p.step handler).seq.registers.val = t.registers.val)
    (hhiLo : Agrees t.hiLo (outs (Exe.negedge p.out p.seq.exe).alu))
    (hmem : (p.step handler).seq.sim.mainMemory = t.memory)
    (hos : (p.step handler).os = t.os) : Implements (p.step handler) t := by
  have hpcs : (p.step handler).seq.pc = s.npc := by
    rw [← h.npc]
    show (if (if p.seq.pc ≠ 0 then p.seq.exe.take else false) = true
      then (if p.seq.pc ≠ 0 then p.seq.exe.addr else 0) else p.seq.pc + 4) = _
    rw [if_pos hpc, if_pos hpc]
  have htake : (p.step handler).seq.exe.take = t.inSlot := by
    show (if p.seq.pc ≠ 0 then Exe.requestAltPc1 p.out else p.seq.exe.take) = _
    rw [if_pos hpc, htaken]
  have haddr : (p.step handler).seq.exe.addr = Exe.target p.out := if_pos hpc
  refine ⟨hpcs.trans hpct.symm, ?_, htake, hregs, hhiLo, rfl, hmem, hos⟩
  rw [← hnpc, hpcs, htake, haddr]

end Implements

section Kept

variable {w : Word} {f : Form} {b : BitVec 19}

/-- The opcode of a form. -/
def opcodeOf : Form → BitVec 6
  | .register _ => 0
  | .immediate k => k

theorem opcode_of_encodes (h : f.encodes w = true) : opcode w = opcodeOf f := by
  cases f with
  | register k => exact beq_iff_eq.mp (Bool.and_eq_true_iff.mp h).1
  | immediate k => exact beq_iff_eq.mp h

/-- A form of no instruction that writes HI or LO. -/
def keepsHiLo : Form → Bool
  | .register k => !writingFuncts.contains k
  | .immediate k => k != 0

theorem ofWord_of_keepsHiLo (hf : keepsHiLo f = true) (h : f.encodes w = true) :
    HiLoOp.ofWord w = none := by
  unfold HiLoOp.ofWord
  cases f with
  | immediate k =>
    have hop := beq_iff_eq.mp h
    rw [if_neg (hop ▸ bne_iff_ne.mp hf)]
  | register k =>
    obtain ⟨hop, hfunct⟩ := Bool.and_eq_true_iff.mp h
    have hk : k ∉ writingFuncts := by
      rw [keepsHiLo, Bool.not_eq_true', ← Bool.not_eq_true, List.contains_iff_mem] at hf
      exact hf
    rw [if_pos (beq_iff_eq.mp hop), beq_iff_eq.mp hfunct]
    split <;> first
      | rfl
      | exact absurd (by decide) hk

/-- Words of coprocessor 1 and words without an entry apart, only MULT can go wrong. -/
theorem sound_handed (hop : opcode p.seq.word ≠ 0b010001) (ht : table p.seq.word = some b)
    (hmult : HiLoOp.ofWord p.seq.word = some .mult →
      SignFree (w := 32) (handed p).rs (handed p).rt) : Sound (handed p) := by
  have hcop : (opcode (handed p).word == 0b010001) = false := beq_eq_false_iff_ne.mpr hop
  refine ⟨fun h => ?_, ?_, fun h => ?_, fun h => ?_⟩
  · exact hmult h
  · rw [isFpMul, hcop]
    rfl
  · rw [isFpDiv, hcop] at h
    cases h
  · exact absurd (ht.symm.trans h) (Option.some_ne_none b)

/-- **An instruction that writes neither HI nor LO** keeps both. -/
theorem Implements.kept (h : Implements p s) (hop : opcode p.seq.word ≠ 0b010001)
    (ht : table p.seq.word = some b) (hnone : HiLoOp.ofWord p.seq.word = none) :
    Agrees s.hiLo (outs (Exe.negedge p.out p.seq.exe).alu) := by
  have hsound : Sound (handed p) := sound_handed hop ht fun hmult =>
    absurd (hnone.symm.trans hmult) (Option.some_ne_none _).symm
  have hkept := outs_of_sound (handed p) p.seq.exe hsound hnone
  rw [show (handed p).out = p.out from rfl] at hkept
  rw [hkept, ← h.alu]
  exact h.hiLo

end Kept

section Alu

theorem val_write_congr {r r' : Registers} (h : r.val = r'.val) (i : Reg) (v : Word) :
    (r.write i v).val = (r'.write i v).val := by
  show (if i = 0 then r.val else Function.update r.val i v) = if i = 0 then r'.val else _
  rw [h]

variable {f : Form} {signed : Bool} {g : Operands → Word}

/-- A form whose row neither stores nor calls, of no branch and of nothing that writes HI or
LO. -/
def ordinary (f : Form) : Bool :=
  (f.row.any fun b => !(Controls.ofBits b).memWrite && !(Controls.ofBits b).syscall) &&
    (opcodeOf f == 0 || decide (8 ≤ opcodeOf f)) && opcodeOf f != 0b010001 && keepsHiLo f

/-- **The instructions that the ALU computes.** -/
theorem Implements.computes (h : Implements p s) (hpc : p.seq.pc ≠ 0) (hg : Computes f signed g)
    (hf : ordinary f = true) (hw : f.encodes s.word = true) {v : Word}
    (hv : g ⟨s.rs, f.second signed s.word s.rt, s.word.extractLsb' 6 5, p.seq.exe.hi,
      p.seq.exe.lo⟩ = v) :
    Implements (p.step handler) (s.next.write (f.destination s.word) v) := by
  simp only [ordinary, Bool.and_eq_true, Option.any_eq_true, Bool.not_eq_true', Bool.or_eq_true,
    beq_iff_eq, decide_eq_true_eq, bne_iff_ne] at hf
  obtain ⟨⟨⟨⟨b, hrow, hstore, hsys⟩, hopcode⟩, hcop⟩, hkeeps⟩ := hf
  have hword := h.word hpc
  rw [← hword] at hw
  have hop := opcode_of_encodes hw
  have htable := Form.table_of_encodes hw hrow
  have hcontrols : p.controls = Controls.ofBits b := decode_of_table htable _
  have hpasses := Seq.passes_of_computes hg hrow hstore (Seq.brTaken_of_opcode hop hopcode) hw
  have hstep := Process.step_of_not_syscall handler p (hcontrols ▸ hsys)
  have htaken : Exe.requestAltPc1 p.out = false := by
    have htake := hpasses.take
    rwa [Seq.take_step, if_pos hpc, if_pos hpc] at htake
  have hvalue : g (operands p.seq.registers.view f signed p.seq.word p.seq.exe) = v := by
    rw [operands, Registers.read_view, Registers.read_view, h.rs hpc, h.rt hpc, hword]
    exact hv
  have hkept := h.kept (hop ▸ hcop) htable (ofWord_of_keepsHiLo hkeeps hw)
  refine h.step hpc rfl htaken rfl ?_ hkept ?_ ?_
  · rw [hstep, hpasses.registers, hvalue, hword]
    exact val_write_congr h.registers _ _
  · rw [hstep, hpasses.mainMemory, h.memory]
    rfl
  · rw [hstep]
    exact h.os

section Families

variable (h : Implements p s) (hpc : p.seq.pc ≠ 0)

include h hpc

theorem Implements.arith (op : ArithOp) (hw : op.form.encodes s.word = true) :
    Implements (p.step handler) (Instr.exec handler s (.arith op)) :=
  h.computes hpc op.computes (by cases op <;> decide) hw (op.operation_second _ _ _)

theorem Implements.setLess (op : SetLessOp) (hw : op.form.encodes s.word = true)
    (hs : Instr.Sound s (.setLess op)) :
    Implements (p.step handler) (Instr.exec handler s (.setLess op)) := by
  refine h.computes hpc op.computes (by cases op <;> decide) hw ?_
  have hsecond : op.form.second op.form.isRegister.not s.word s.rt = op.second s.word s.rt := by
    cases op <;> rfl
  dsimp only
  rw [hsecond]
  exact (op.chain_iff _ _).mpr hs

theorem Implements.shift (op : ShiftOp) (hw : op.form.encodes s.word = true)
    (hs : Instr.Sound s (.shift op)) :
    Implements (p.step handler) (Instr.exec handler s (.shift op)) := by
  refine h.computes hpc op.computes (by cases op <;> decide) hw ?_
  have hsecond : op.form.second false s.word s.rt = s.rt := by
    cases op <;> rfl
  dsimp only
  rw [hsecond]
  exact (op.operation_iff _ _ _).mpr hs

theorem Implements.fromHi (hw : mfhi.encodes s.word = true) (hs : Instr.Sound s .fromHi) :
    Implements (p.step handler) (Instr.exec handler s .fromHi) := by
  obtain ⟨v, hv⟩ := Option.isSome_iff_exists.mp hs
  refine h.computes hpc mfhi_computes (by decide) hw ?_
  rw [hv]
  exact h.hiLo.1 v hv

theorem Implements.fromLo (hw : mflo.encodes s.word = true) (hs : Instr.Sound s .fromLo) :
    Implements (p.step handler) (Instr.exec handler s .fromLo) := by
  obtain ⟨v, hv⟩ := Option.isSome_iff_exists.mp hs
  refine h.computes hpc mflo_computes (by decide) hw ?_
  rw [hv]
  exact h.hiLo.2 v hv

end Families

end Alu

section Rows

variable {c : Controls}

/-- What neither writes a register nor loads. -/
theorem registers_of_silent (hc : p.controls = c) (hwrite : c.regWrite = false)
    (hlink : c.link = false) (hload : c.memRead = false) :
    p.seq.step.registers = p.seq.registers := by
  rw [Seq.registers_step (s := p.seq) ((congrArg Controls.memRead hc).trans hload)]
  refine if_neg (Bool.eq_false_iff.mp ?_)
  show (Exe.requestAltPc1 p.out && p.controls.link ||
    (Id.rd p.seq.word p.controls != 0 && p.controls.regWrite) && !p.controls.memRead) = false
  rw [hc, hlink, hwrite, Bool.and_false, Bool.and_false, Bool.false_and, Bool.false_or]

/-- What is no transfer of control. -/
theorem not_taken (hop : opcode p.seq.word = 0 ∨ 8 ≤ opcode p.seq.word)
    (hjump : p.controls.jump = false) : Exe.requestAltPc1 p.out = false := by
  show (Compare.brTaken p.seq.word _ _ || p.controls.jump) = false
  rw [Seq.brTaken_of_opcode rfl hop, hjump]
  rfl

theorem ofWord_of_encodes {op : HiLoOp} {w : Word} (h : op.form.encodes w = true) :
    HiLoOp.ofWord w = some op := by
  cases op <;>
    · obtain ⟨hop, hfunct⟩ := Bool.and_eq_true_iff.mp h
      rw [HiLoOp.ofWord, if_pos (beq_iff_eq.mp hop), beq_iff_eq.mp hfunct]
      rfl

/-- **The instructions that write HI and LO.** -/
theorem Implements.writesHiLo (h : Implements p s) (hpc : p.seq.pc ≠ 0) (op : HiLoOp)
    (hw : op.form.encodes s.word = true) (hs : Instr.Sound s (.hiLo op)) :
    Implements (p.step handler) (Instr.exec handler s (.hiLo op)) := by
  rw [← h.word hpc] at hw
  obtain ⟨b, hrow, hsilent⟩ : ∃ b, op.form.row = some b ∧
      (Controls.ofBits b).regWrite = false ∧ (Controls.ofBits b).link = false ∧
        (Controls.ofBits b).memRead = false ∧ (Controls.ofBits b).memWrite = false ∧
          (Controls.ofBits b).syscall = false ∧ (Controls.ofBits b).jump = false := by
    cases op <;> exact ⟨_, rfl, by decide⟩
  obtain ⟨hwrite, hlink, hload, hstore, hsys, hjump⟩ := hsilent
  have hc : p.controls = Controls.ofBits b := decode_of_table (Form.table_of_encodes hw hrow) _
  have hop : opcode p.seq.word = 0 := by
    cases op <;> exact opcode_of_encodes hw
  have hstep := Process.step_of_not_syscall handler p (hc ▸ hsys)
  have hout := outs_of_ofWord (handed p) p.seq.exe (ofWord_of_encodes hw)
  rw [rs_handed, rt_handed, h.rs hpc, h.rt hpc, ← h.alu] at hout
  refine h.step hpc rfl (not_taken (.inl hop) (hc ▸ hjump)) rfl ?_ ?_ ?_ ?_
  · rw [hstep, registers_of_silent hc hwrite hlink hload, h.registers]
    rfl
  · rw [show p.out = (handed p).out from rfl, hout]
    exact h.hiLo.write op hs
  · rw [hstep]
    exact (Seq.mainMemory_step (s := p.seq) ((congrArg Controls.memWrite hc).trans hstore)).trans
      h.memory
  · rw [hstep]
    exact h.os

end Rows

end Isa
end OooProcessor
