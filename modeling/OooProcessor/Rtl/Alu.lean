/-
# ALU and compare

`verilog/ALU.v` and `verilog/compare.v`.  The ALU's outputs are registers that
an operation assigns only where it produces them: HI and LO keep their value
under every operation but the six that write them, and a division by zero writes
nothing.
-/

import OooProcessor.Rtl.Types

namespace OooProcessor

namespace Alu

/-- `aluResult`, `HI_OUT` and `LO_OUT`. -/
structure State where
  aluResult : Word
  hiOut : Word
  loOut : Word

structure Inputs where
  hiIn : Word
  loIn : Word
  a : Word
  b : Word
  aluControl : BitVec 6
  shiftAmount : BitVec 5

/-- The sign patches of SRA and SRAV: from `b >> sh`, bit 31 is set to the sign
of `b`, and bit `31 - k` as well for every `1 ≤ k ≤ sh`. -/
def signPatch (b : Word) (sh : BitVec 5) : Word :=
  (List.range 32).foldl
    (fun temp k =>
      if k ≤ sh.toNat then
        if b.msb then temp ||| (1#32 <<< (31 - k)) else temp &&& ~~~(1#32 <<< (31 - k))
      else temp)
    (b >>> sh.toNat)

/-- The `case(ALU_control)` on one active edge. -/
def step (i : Inputs) (s : State) : State :=
  match i.aluControl with
  -- add, addi, addiu, addu, lwc1, syscall
  | 0b000000 | 0b000010 | 0b000001 | 0b000011 | 0b110111 | 0b110101 =>
    { s with aluResult := i.a + i.b }
  -- loads and stores
  | 0b111101 | 0b101000 | 0b100001 | 0b101010 | 0b101011 | 0b101100 | 0b101101 | 0b101110
  | 0b101111 | 0b110000 | 0b110001 | 0b110110 | 0b110010 | 0b110011 | 0b111001 =>
    { s with aluResult := i.a + (i.b.extractLsb' 0 16).signExtend 32 }
  | 0b000100 => { s with aluResult := i.a &&& i.b }
  -- div; the block's earlier writes to parts of LO and HI are overwritten
  | 0b000101 =>
    if i.b ≠ 0 then { s with loOut := i.a.sdiv i.b, hiOut := i.a.srem i.b } else s
  | 0b000110 => if i.b ≠ 0 then { s with loOut := i.a / i.b, hiOut := i.a % i.b } else s
  | 0b001000 => { s with aluResult := i.b.extractLsb' 0 16 ++ 0#16 }
  | 0b001001 => { s with aluResult := i.hiIn }
  | 0b001010 => { s with aluResult := i.loIn }
  | 0b001011 => { s with hiOut := i.a }
  | 0b001100 => { s with loOut := i.a }
  -- mult, multu: the operands are unsigned and extended to the width of `temp`
  | 0b001101 =>
    let temp := i.a.setWidth 64 * i.b.setWidth 64
    { s with hiOut := temp.extractLsb' 32 32, loOut := temp.extractLsb' 0 32 }
  | 0b001111 => { s with aluResult := ~~~(i.a ||| i.b) }
  | 0b010000 => { s with aluResult := i.a ||| i.b }
  | 0b010011 => { s with aluResult := i.b <<< i.shiftAmount.toNat }
  | 0b010100 => { s with aluResult := i.b <<< i.a.toNat }
  -- slt
  | 0b010101 =>
    { s with
      aluResult :=
        if i.a.msb.toNat < i.b.msb.toNat then 0
        else if i.a.extractLsb' 0 31 > i.b.extractLsb' 0 31 then 0
        else if i.a = i.b then 0
        else 1 }
  -- sltu
  | 0b111111 =>
    { s with aluResult := if i.a > i.b then 0 else if i.a = i.b then 0 else 1 }
  | 0b011001 => { s with aluResult := signPatch i.b i.shiftAmount }
  | 0b011010 => { s with aluResult := signPatch i.b (i.a.extractLsb' 0 5) }
  | 0b011011 => { s with aluResult := i.b >>> i.shiftAmount.toNat }
  | 0b011100 => { s with aluResult := i.b >>> (i.a.extractLsb' 0 5).toNat }
  | 0b011101 | 0b011110 => { s with aluResult := i.a - i.b }
  | 0b011111 | 0b100000 => { s with aluResult := i.a ^^^ i.b }
  | 0b110100 | 0b111000 => { s with aluResult := i.b }
  | _ => { s with aluResult := 0 }

end Alu

namespace Compare

/-- `br_taken` -/
def brTaken (instr opA opB : Word) : Bool :=
  match instr.extractLsb' 26 6 with
  | 0b000001 =>
    match instr.extractLsb' 16 5 with
    | 0b00000 | 0b10000 => opA.msb
    | 0b00001 | 0b10001 => !opA.msb
    | _ => false
  | 0b000100 => opA == opB
  | 0b000101 => opA != opB
  | 0b000110 => opA.msb || opA == 0
  | 0b000111 => !opA.msb && opA != 0
  | _ => false

def taken (jump : Bool) (opA opB instr : Word) : Bool := brTaken instr opA opB || jump

end Compare
end OooProcessor
