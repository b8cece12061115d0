/-
# MEM

`verilog/MEM.v` with `INCLUDE_MEM_CONTENT`.  Everything between EXE's registers
and the data memory is combinational, but `data_write_2DM` is assigned in parts:
the bits a store does not drive keep what an earlier store left there.
-/

import OooProcessor.Rtl.Exe

namespace OooProcessor
namespace Mem

/-- What the combinational block drives. -/
structure Access where
  dataReadAligned : Word
  memWriteAddress : Word
  dataWrite2DM : Word
  dataWriteSize2DM : BitVec 2

/-- `{ALU_result[31:2], 2'b00}` -/
def memReadAddress (aluResult : Word) : Word := aluResult.extractLsb' 2 30 ++ 0#2

/-- The `case(ALU_Control)` on the address `a`, the register value `m`, the word
read `d` and the bits of `data_write_2DM` held so far. -/
def access (aluControl : BitVec 6) (a m d held : Word) : Access :=
  let offset : BitVec 2 := a.extractLsb' 0 2
  let load (aligned : Word) : Access := ⟨aligned, a, held, 0⟩
  match aluControl with
  -- LWL
  | 0b101101 => load <| match offset with
    | 0 => d
    | 1 => d.extractLsb' 0 24 ++ m.extractLsb' 0 8
    | 2 => d.extractLsb' 0 16 ++ m.extractLsb' 0 16
    | _ => d.extractLsb' 0 8 ++ m.extractLsb' 0 24
  -- LWR
  | 0b101110 => load <| match offset with
    | 0 => m.extractLsb' 8 24 ++ d.extractLsb' 24 8
    | 1 => m.extractLsb' 16 16 ++ d.extractLsb' 16 16
    | 2 => m.extractLsb' 24 8 ++ d.extractLsb' 8 24
    | _ => d
  -- LB
  | 0b100001 => load <| match offset with
    | 0 => (d.extractLsb' 24 8).signExtend 32
    | 1 => (d.extractLsb' 16 8).signExtend 32
    | 2 => (d.extractLsb' 8 8).signExtend 32
    | _ => (d.extractLsb' 0 8).signExtend 32
  -- LH; an odd address leaves the register value
  | 0b101011 => load <| match offset with
    | 0 => (d.extractLsb' 16 16).signExtend 32
    | 2 => (d.extractLsb' 0 16).signExtend 32
    | _ => m
  -- LBU
  | 0b101010 => load <| match offset with
    | 0 => (d.extractLsb' 24 8).setWidth 32
    | 1 => (d.extractLsb' 16 8).setWidth 32
    | 2 => (d.extractLsb' 8 8).setWidth 32
    | _ => (d.extractLsb' 0 8).setWidth 32
  -- LHU
  | 0b101100 => load <| match offset with
    | 0 => (d.extractLsb' 16 16).setWidth 32
    | 2 => (d.extractLsb' 0 16).setWidth 32
    | _ => m
  -- LW, LL, NOP, LWC1
  | 0b111101 | 0b101000 | 0b000000 | 0b110101 => load d
  -- SB
  | 0b101111 => ⟨m, a, held.extractLsb' 8 24 ++ m.extractLsb' 0 8, 1⟩
  -- SH
  | 0b110000 => ⟨m, a, held.extractLsb' 16 16 ++ m.extractLsb' 0 16, 2⟩
  -- SW, SC
  | 0b110001 | 0b110110 => ⟨m, a, m, 0⟩
  -- SWL
  | 0b110010 => match offset with
    | 0 => ⟨m, a, m, 0⟩
    | 1 => ⟨m, a, held.extractLsb' 24 8 ++ m.extractLsb' 8 24, 3⟩
    | 2 => ⟨m, a, held.extractLsb' 16 16 ++ m.extractLsb' 16 16, 2⟩
    | _ => ⟨m, a, held.extractLsb' 8 24 ++ m.extractLsb' 24 8, 1⟩
  -- SWR
  | 0b110011 => match offset with
    | 0 => ⟨m, memReadAddress a, held.extractLsb' 8 24 ++ m.extractLsb' 0 8, 1⟩
    | 1 => ⟨m, memReadAddress a, held.extractLsb' 16 16 ++ m.extractLsb' 0 16, 2⟩
    | 2 => ⟨m, memReadAddress a, held.extractLsb' 24 8 ++ m.extractLsb' 0 24, 3⟩
    | _ => ⟨m, memReadAddress a, m, 0⟩
  | _ => load d

/-- The registers on the write-back port and of the debug outputs, the physical
register written back, and `data_write_2DM`. -/
structure State where
  instr1Out : Word
  instr1PcOut : Word
  writeRegister1Out : Reg
  regWrite1Out : Bool
  writeData1Out : Word
  broadcastMap : Tag
  dataWrite2DM : Word

/-- `broadcast_map` is not reset. -/
def reset : State := ⟨0, 0, 0, false, 0, 0, 0⟩

/-- The access of the instruction EXE hands on, with `d` on `data_read_fDM`. -/
def accessOf (e : Exe.State) (d : Word) (s : State) : Access :=
  access e.aluControl1Out e.aluResult1Out e.memWriteData1Out d s.dataWrite2DM

/-- `WriteData1` -/
def writeData1 (e : Exe.State) (d : Word) (s : State) : Word :=
  if e.memRead1Out then (accessOf e d s).dataReadAligned else e.aluResult1Out

/-- `data_address_2DM` -/
def dataAddress2DM (e : Exe.State) (d : Word) (s : State) : Word :=
  if e.memWrite1Out then (accessOf e d s).memWriteAddress else memReadAddress e.aluResult1Out

def posedge (e : Exe.State) (d : Word) (s : State) : State where
  instr1Out := e.instr1Out
  instr1PcOut := e.instr1PcOut
  writeRegister1Out := e.writeRegister1Out
  regWrite1Out := e.regWrite1Out
  writeData1Out := writeData1 e d s
  broadcastMap := e.exeRegWrMap
  dataWrite2DM := (accessOf e d s).dataWrite2DM

end Mem
end OooProcessor
