/-
# ID

`verilog/ID.v`: the fields of the word at the front of the decode queue, the
entry packed for the rename queue, the operands read from PHYS_REG, and the
output registers, which hand an instruction to EXE in one cycle out of four
(`bubble == 0`) and zeros in the other three.
-/

import OooProcessor.Rtl.Decoder

namespace OooProcessor
namespace Id

section Decode

variable (pc w : Word) (c : Controls)

def ip4 : Word := pc + 4

def immed : BitVec 16 := w.extractLsb' 0 16

def seShImm : Word := (immed w).signExtend 30 ++ 0#2

def jmDestImm : Word := (ip4 pc).extractLsb' 28 4 ++ w.extractLsb' 0 26 ++ 0#2

def brDestImm : Word := ip4 pc + seShImm w

def seImm : Word := (immed w).signExtend 32

def zeImm : Word := (immed w).setWidth 32

def opB : Word :=
  if c.branch then if c.link then ip4 pc + 4 else 0
  else if c.regDest then 0
  else if c.signOrZero then seImm w else zeImm w

def shamt : BitVec 5 := w.extractLsb' 6 5

def nextAddr : Word :=
  if c.jump then if c.jumpRegister then 0 else jmDestImm pc w else brDestImm pc w

def rs : Reg :=
  if (c.link && !c.jumpRegister) || (c.jump && !c.jumpRegister) then 0 else regField w 21

def rt : Reg := if c.regDest then regField w 16 else 0

def rd : Reg :=
  if c.regDest then regField w 11
  else if c.link then 31
  else if c.jump then 0
  else regField w 16

/-- `rename_entry`, for the word `w` at `pc` and the controls decoded for it. -/
def renameEntry : RenameEntry where
  opB := opB pc w c
  shamt := shamt w
  nextAddr := nextAddr pc w c
  controls := c
  pc := pc
  instr := w
  rs := rs w c
  rt := rt w c
  rd := rd w c

end Decode

/-- The registers that hand an instruction to EXE, and `SYS`. -/
structure Out where
  instr1Out : Word
  instr1PcOut : Word
  operandA1Out : Word
  operandB1Out : Word
  readRegisterA1Out : Reg
  readRegisterB1Out : Reg
  writeRegister1Out : Reg
  memWriteData1Out : Word
  regWrite1Out : Bool
  aluControl1Out : BitVec 6
  memRead1Out : Bool
  memWrite1Out : Bool
  shiftAmount1Out : BitVec 5
  sys : Bool
  allInfoIF : RobEntry
  issueRegWrMap : Tag
  issueRegWrFlag : Bool

instance : Zero Out := ⟨⟨0, 0, 0, 0, 0, 0, 0, 0, false, 0, false, false, 0, false, 0, 0, false⟩⟩

@[simp] theorem Out.zero_instr1PcOut : (0 : Out).instr1PcOut = 0 := rfl
@[simp] theorem Out.zero_regWrite1Out : (0 : Out).regWrite1Out = false := rfl

structure State where
  bubble : Fin 4
  out : Out

/-- What Rename and PHYS_REG present at an issue slot: `rename_out`,
`entry_load_special`, `oldA`, `oldB`, `oldC` and `REGS`. -/
structure Inputs where
  renameOut : RobEntry
  entryLoadSpecial : Tag
  oldA : Reg
  oldB : Reg
  oldC : Reg
  regs : Tag → Word

/-- `rsRawVal1` -/
def opA1 (i : Inputs) : Word := i.regs i.renameOut.mapA

/-- `rtRawVal1` -/
def rtRawVal1 (i : Inputs) : Word := i.regs i.renameOut.mapB

def opB1 (i : Inputs) : Word :=
  if i.renameOut.controls.branch && i.renameOut.controls.link then i.renameOut.opB
  else if i.renameOut.controls.regDest then rtRawVal1 i
  else i.renameOut.opB

/-- `MemWriteData1`: the old value of the destination of a load, for LWL and
LWR, and the register `MAPC` names otherwise. -/
def writeRegisterRawVal1 (i : Inputs) : Word :=
  if i.renameOut.controls.memRead then i.regs i.entryLoadSpecial else i.regs i.renameOut.mapWr

/-- `(WriteRegister1 != 0) ? rename_out[93] : 0` -/
def regWrite1 (i : Inputs) : Bool := i.oldC != 0 && i.renameOut.controls.regWrite

/-- The outputs of an issue slot. -/
def issue (i : Inputs) : Out where
  instr1Out := i.renameOut.instr
  instr1PcOut := i.renameOut.pc
  operandA1Out := opA1 i
  operandB1Out := opB1 i
  readRegisterA1Out := i.oldA
  readRegisterB1Out := i.oldB
  writeRegister1Out := i.oldC
  memWriteData1Out := writeRegisterRawVal1 i
  regWrite1Out := regWrite1 i
  aluControl1Out := i.renameOut.controls.aluControl
  memRead1Out := i.renameOut.controls.memRead
  memWrite1Out := i.renameOut.controls.memWrite
  shiftAmount1Out := i.renameOut.shamt
  sys := i.renameOut.controls.syscall
  allInfoIF := i.renameOut
  issueRegWrMap := i.renameOut.mapWr
  issueRegWrFlag := regWrite1 i

def reset : State := ⟨0, 0⟩

def posedge (i : Inputs) (s : State) : State where
  bubble := s.bubble + 1
  out := if s.bubble = 0 then issue i else 0

end Id
end OooProcessor
