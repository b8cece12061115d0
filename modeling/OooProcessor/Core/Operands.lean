/-
# Operands and results of the ALU instructions

An instruction of SPECIAL names rs, rt and rd, one with an opcode of its own rs, an
immediate and rt as its destination (`Form`).  The row of either tells ID the operands
and the register (`ID.v`, `rs`, `opB`, `OpB1`, `rd`) and the ALU what to make of them.
`Computes` says what a row asks for, and `delivers_of_computes` that EXE then hands on
the result for the destination.
-/

import OooProcessor.Core.Jump

namespace OooProcessor
namespace Mips

open Decoder

/-- How an instruction is encoded: SPECIAL with a funct, or an opcode. -/
inductive Form
  | register (funct : BitVec 6)
  | immediate (opcode : BitVec 6)

namespace Form

/-- The word is encoded so. -/
def encodes : Form → Word → Bool
  | register k, w => opcode w == 0b000000 && funct w == k
  | immediate k, w => opcode w == k

/-- The register the result is for: rd, or rt beside an immediate. -/
def destination : Form → Word → Reg
  | register _, w => regField w 11
  | immediate _, w => regField w 16

/-- The row of Decoder's tables for it. -/
def row : Form → Option (BitVec 19)
  | register k => specialTable.lookup k
  | immediate k =>
    if k = 0b000000 ∨ k = 0b000001 ∨ k = 0b010001 then none else opcodeTable.lookup k

/-- The instruction has rd as its destination. -/
def isRegister : Form → Bool
  | register _ => true
  | immediate _ => false

/-- The second operand: rt, or the immediate, extended with its sign or with zeros. -/
def second (signed : Bool) : Form → Word → Word → Word
  | register _, _, rt => rt
  | immediate _, w, _ =>
    if signed then (w.extractLsb' 0 16).signExtend 32 else (w.extractLsb' 0 16).setWidth 32

theorem table_of_encodes {f : Form} {w : Word} {b : BitVec 19} (h : f.encodes w = true)
    (hrow : f.row = some b) : table w = some b := by
  cases f with
  | register k =>
    simp only [encodes, Bool.and_eq_true, beq_iff_eq] at h
    obtain ⟨hop, hfunct⟩ := h
    rw [table, if_pos hop, hfunct]
    exact hrow
  | immediate k =>
    obtain rfl : opcode w = k := beq_iff_eq.mp h
    simp only [row] at hrow
    split_ifs at hrow with hnested
    push Not at hnested
    obtain ⟨h0, h1, h2⟩ := hnested
    rw [table, if_neg h0, if_neg h1, if_neg h2, hrow]
    rfl

end Form

/-- The row writes the result of the ALU to a register: no branch, jump or load. -/
def plain (f : Form) (c : Controls) : Bool :=
  !c.link && !c.jump && !c.branch && !c.memRead && c.regWrite && (c.regDest == f.isRegister)

/-- What the ALU works on: rs, the second operand, the shift amount, HI and LO. -/
structure Operands where
  a : Word
  b : Word
  shamt : BitVec 5
  hi : Word
  lo : Word

/-- **The instructions of a form compute `g`** of their operands. -/
def Computes (f : Form) (signed : Bool) (g : Operands → Word) : Prop :=
  ∃ b, f.row = some b ∧ plain f (Controls.ofBits b) = true ∧
    (Controls.ofBits b).signOrZero = signed ∧
      ∀ i s, i.aluControl = (Controls.ofBits b).aluControl →
        (Alu.step i s).aluResult = g ⟨i.a, i.b, i.shiftAmount, i.hiIn, i.loIn⟩

/-- **EXE hands on the result `val`** for the register `r`, and broadcasts it unless
`r` is `$0`. -/
structure Delivers (s : Exe.State) (r : Reg) (val : Word) : Prop where
  result : s.broadcastVal = val
  register : s.broadcastReg = r
  flag : s.broadcastFlag = (r != 0)

section Issue

variable (v : View) (pc : Word) {w : Word} (held : Controls) (mapWr special : Tag)
  {f : Form} {c : Controls}

/-- OpA1 is rs where nothing jumps or links. -/
theorem operandA_issue (hc : decode w held = c) (hl : c.link = false) (hj : c.jump = false) :
    (v.issue pc w held mapWr special).operandA1Out = v.read (regField w 21) := by
  show v.regs (v.frat (Id.rs w (decode w held))) = _
  rw [hc, Id.rs, hl, hj]
  rfl

/-- OpB1 is rt where the row has RegDest and does not link. -/
theorem operandB_issue_rt (hc : decode w held = c) (hl : c.link = false)
    (hd : c.regDest = true) :
    (v.issue pc w held mapWr special).operandB1Out = v.read (regField w 16) := by
  show (if (decode w held).branch && (decode w held).link then Id.opB pc w (decode w held)
    else if (decode w held).regDest then v.regs (v.frat (Id.rt w (decode w held)))
    else Id.opB pc w (decode w held)) = _
  rw [hc, hl, hd, Bool.and_false, Id.rt, hd]
  rfl

/-- It is the immediate where the row has not, and does not branch. -/
theorem operandB_issue_immediate (hc : decode w held = c) (hb : c.branch = false)
    (hd : c.regDest = false) : (v.issue pc w held mapWr special).operandB1Out =
      if c.signOrZero then (w.extractLsb' 0 16).signExtend 32
      else (w.extractLsb' 0 16).setWidth 32 := by
  show (if (decode w held).branch && (decode w held).link then Id.opB pc w (decode w held)
    else if (decode w held).regDest then v.regs (v.frat (Id.rt w (decode w held)))
    else Id.opB pc w (decode w held)) = _
  rw [hc, hb, hd, Bool.false_and, Id.opB, hb, hd]
  rfl

/-- The second operand of a plain row. -/
theorem operandB_issue (hc : decode w held = c) (hp : plain f c = true) :
    (v.issue pc w held mapWr special).operandB1Out =
      f.second c.signOrZero w (v.read (regField w 16)) := by
  simp only [plain, Bool.and_eq_true, Bool.not_eq_true', beq_iff_eq] at hp
  obtain ⟨⟨⟨⟨⟨hl, -⟩, hb⟩, -⟩, -⟩, hd⟩ := hp
  cases f with
  | register k => exact operandB_issue_rt v pc held mapWr special hc hl hd
  | immediate k => exact operandB_issue_immediate v pc held mapWr special hc hb hd

/-- The destination of a plain row. -/
theorem writeRegister_issue (hc : decode w held = c) (hp : plain f c = true) :
    (v.issue pc w held mapWr special).writeRegister1Out = f.destination w := by
  simp only [plain, Bool.and_eq_true, Bool.not_eq_true', beq_iff_eq] at hp
  obtain ⟨⟨⟨⟨⟨hl, hj⟩, -⟩, -⟩, -⟩, hd⟩ := hp
  show Id.rd w (decode w held) = _
  cases f with
  | register k =>
    rw [hc, Id.rd, hd]
    rfl
  | immediate k =>
    rw [hc, Id.rd, hd, hl, hj]
    rfl

/-- A plain row is broadcast from EXE unless its destination is `$0`. -/
theorem broadcasts_issue (hc : decode w held = c) (hp : plain f c = true) :
    Exe.broadcasts (v.issue pc w held mapWr special) = (f.destination w != 0) := by
  have hdest := writeRegister_issue v pc held mapWr special hc hp
  simp only [plain, Bool.and_eq_true, Bool.not_eq_true', beq_iff_eq] at hp
  obtain ⟨⟨⟨⟨⟨hl, -⟩, -⟩, hm⟩, hw⟩, -⟩ := hp
  have hlink : (v.issue pc w held mapWr special).allInfoIF.controls.link = false := by
    show (decode w held).link = false
    rw [hc, hl]
  have hload : (v.issue pc w held mapWr special).memRead1Out = false := by
    show (decode w held).memRead = false
    rw [hc, hm]
  have hflag : (v.issue pc w held mapWr special).issueRegWrFlag =
      ((v.issue pc w held mapWr special).writeRegister1Out != 0 && (decode w held).regWrite) := rfl
  rw [Exe.broadcasts, hlink, hload, hflag, hdest, hc, hw, Bool.and_false, Bool.false_or,
    Bool.not_false, Bool.and_true, Bool.and_true]

/-- The operands of the word `w`, which EXE meets in the state `e`. -/
def operands (f : Form) (signed : Bool) (w : Word) (e : Exe.State) : Operands where
  a := v.read (regField w 21)
  b := f.second signed w (v.read (regField w 16))
  shamt := w.extractLsb' 6 5
  hi := e.hi
  lo := e.lo

/-- **What EXE hands on for an instruction that computes `g`.** -/
theorem delivers_of_computes (e : Exe.State) {signed : Bool} {g : Operands → Word}
    (hg : Computes f signed g) (h : f.encodes w = true) :
    Delivers (executedState v pc w held mapWr special e) (f.destination w)
      (g (operands v f signed w e)) := by
  obtain ⟨b, hrow, hp, rfl, hstep⟩ := hg
  have hc : decode w held = Controls.ofBits b :=
    decode_of_table (Form.table_of_encodes h hrow) held
  have hplain := hp
  simp only [plain, Bool.and_eq_true, Bool.not_eq_true', beq_iff_eq] at hplain
  obtain ⟨⟨⟨⟨⟨hl, hj⟩, -⟩, -⟩, -⟩, -⟩ := hplain
  have hcontrol : (v.issue pc w held mapWr special).aluControl1Out =
      (Controls.ofBits b).aluControl := congrArg Controls.aluControl hc
  have hshamt : (v.issue pc w held mapWr special).shiftAmount1Out = w.extractLsb' 6 5 := rfl
  refine ⟨?_, ?_, ?_⟩
  · show (Alu.step _ e.alu).aluResult = _
    rw [hstep _ _ hcontrol, operandA_issue v pc held mapWr special hc hl hj,
      operandB_issue v pc held mapWr special hc hp, hshamt]
    rfl
  · exact writeRegister_issue v pc held mapWr special hc hp
  · exact broadcasts_issue v pc held mapWr special hc hp

/-- A result is delivered if and only if it is what the ALU computes. -/
theorem delivers_iff (e : Exe.State) {signed : Bool} {g : Operands → Word}
    (hg : Computes f signed g) (h : f.encodes w = true) (val : Word) :
    Delivers (executedState v pc w held mapWr special e) (f.destination w) val ↔
      g (operands v f signed w e) = val := by
  have hd := delivers_of_computes v pc held mapWr special e hg h
  constructor
  · intro hval
    rw [← hd.result, hval.result]
  · rintro rfl
    exact hd

end Issue

end Mips
end OooProcessor
