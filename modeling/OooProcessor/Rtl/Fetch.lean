/-
# IF and NextInstructionCalculator

`verilog/IF.v` with `INCLUDE_IF_CONTENT`, as `config.v` defines it: the program
counter, and the instruction fetched last with its address.
`verilog/NextInstructionCalculator.v`, which no module instantiates, computes where
a jump or branch goes.
-/

import OooProcessor.Rtl.Types

namespace OooProcessor
namespace Fetch

structure State where
  instr1Out : Word
  instrPcOut : Word
  instrPcPlus4 : Word

structure Inputs where
  stall : Bool
  requestAltPc : Bool
  altPc : Word
  instr1FIM : Word

/-- The boot vector. -/
def bootVector : Word := 0xBFC00000

def reset : State := ⟨0, 0, bootVector⟩

/-- `Instr_address_2IM` -/
def instrAddress2IM (requestAltPc : Bool) (altPc : Word) (s : State) : Word :=
  if requestAltPc then altPc else s.instrPcPlus4

def posedge (i : Inputs) (s : State) : State :=
  if i.stall then s
  else
    { instr1Out := i.instr1FIM
      instrPcOut := instrAddress2IM i.requestAltPc i.altPc s
      instrPcPlus4 := instrAddress2IM i.requestAltPc i.altPc s + 4 }

end Fetch

namespace NextInstructionCalculator

variable (instrPcPlus4 instruction : Word)

def immediate : BitVec 16 := instruction.extractLsb' 0 16

def signExtendedShiftedImmediate : Word := (immediate instruction).signExtend 30 ++ 0#2

def jumpDestinationImmediate : Word :=
  instrPcPlus4.extractLsb' 28 4 ++ instruction.extractLsb' 0 26 ++ 0#2

def branchDestinationImmediate : Word := instrPcPlus4 + signExtendedShiftedImmediate instruction

/-- `NextInstructionAddress` -/
def nextInstructionAddress (jump jumpRegister : Bool) (registerValue : Word) : Word :=
  if jump then
    if jumpRegister then registerValue else jumpDestinationImmediate instrPcPlus4 instruction
  else branchDestinationImmediate instrPcPlus4 instruction

end NextInstructionCalculator
end OooProcessor
