/-
# EXE

`verilog/EXE.v`.  The ALU works on the falling edge, the output registers follow
on the next rising edge.  `take` and `addr` remember whether the last
instruction with a nonzero program counter redirects, and where to; the redirect
is raised when the instruction after it, its delay slot, passes.
-/

import OooProcessor.Rtl.Alu
import OooProcessor.Rtl.Id

namespace OooProcessor
namespace Exe

structure State where
  instr1Out : Word
  instr1PcOut : Word
  aluResult1Out : Word
  writeRegister1Out : Reg
  memWriteData1Out : Word
  regWrite1Out : Bool
  aluControl1Out : BitVec 6
  memRead1Out : Bool
  memWrite1Out : Bool
  requestAltPc : Bool
  altAddr : Word
  flush : Bool
  allInfoMEM : RobEntry
  broadcastFlag : Bool
  broadcastMap : Tag
  broadcastReg : Reg
  broadcastVal : Word
  exeRegWrMap : Tag
  hi : Word
  lo : Word
  take : Bool
  addr : Word
  alu : Alu.State

def reset : State where
  instr1Out := 0
  instr1PcOut := 0
  aluResult1Out := 0
  writeRegister1Out := 0
  memWriteData1Out := 0
  regWrite1Out := false
  aluControl1Out := 0
  memRead1Out := false
  memWrite1Out := false
  requestAltPc := false
  altAddr := 0
  flush := false
  allInfoMEM := 0
  broadcastFlag := false
  broadcastMap := 0
  broadcastReg := 0
  broadcastVal := 0
  exeRegWrMap := 0
  hi := 0
  lo := 0
  take := false
  addr := 0
  alu := ⟨0, 0, 0⟩

/-- `Request_Alt_PC1` -/
def requestAltPc1 (i : Id.Out) : Bool :=
  Compare.taken i.allInfoIF.controls.jump i.operandA1Out i.operandB1Out i.instr1Out

/-- What `addr` is assigned. -/
def target (i : Id.Out) : Word :=
  if i.allInfoIF.controls.jumpRegister then i.operandA1Out else i.allInfoIF.nextAddr

/-- `(Request_Alt_PC1 & IF_all_info[100]) | (issue_RegWr_flag & !MemRead1_IN)`:
the instruction's result is broadcast from EXE. -/
def broadcasts (i : Id.Out) : Bool :=
  (requestAltPc1 i && i.allInfoIF.controls.link) || (i.issueRegWrFlag && !i.memRead1Out)

/-- The ALU on the falling edge of CLK. -/
def negedge (i : Id.Out) (s : State) : State :=
  { s with
    alu := Alu.step
      { hiIn := s.hi, loIn := s.lo, a := i.operandA1Out, b := i.operandB1Out
        aluControl := i.aluControl1Out, shiftAmount := i.shiftAmount1Out } s.alu }

def posedge (i : Id.Out) (s : State) : State where
  instr1Out := i.instr1Out
  instr1PcOut := i.instr1PcOut
  aluResult1Out := s.alu.aluResult
  writeRegister1Out := i.writeRegister1Out
  memWriteData1Out := i.memWriteData1Out
  regWrite1Out := if broadcasts i then false else i.regWrite1Out
  aluControl1Out := i.aluControl1Out
  memRead1Out := i.memRead1Out
  memWrite1Out := i.memWrite1Out
  requestAltPc := if i.instr1PcOut ≠ 0 then s.take else false
  altAddr := if i.instr1PcOut ≠ 0 then s.addr else 0
  flush := if i.instr1PcOut ≠ 0 then s.take else false
  allInfoMEM := i.allInfoIF
  broadcastFlag := broadcasts i
  broadcastMap := i.issueRegWrMap
  broadcastReg := i.writeRegister1Out
  broadcastVal := s.alu.aluResult
  exeRegWrMap := i.issueRegWrMap
  hi := s.alu.hiOut
  lo := s.alu.loOut
  take := if i.instr1PcOut ≠ 0 then requestAltPc1 i else s.take
  addr := if i.instr1PcOut ≠ 0 then target i else s.addr
  alu := s.alu

end Exe
end OooProcessor
