/-
# Addition, subtraction, logic and immediates

The 14 instructions whose rows differ only in the operation, the extension of the
immediate and the destination field.  `ArithOp.computes` reads each row of `Decoder.v`
against the case of `ALU.v` it selects; what EXE broadcasts follows for all of them at
once (`executes_arith`).
-/

import OooProcessor.Core.Operands

namespace OooProcessor
namespace Mips

/-- The instructions that add, subtract, combine bits or load an immediate. -/
inductive ArithOp
  | add | addu | sub | subu | and | or | xor | nor
  | addi | addiu | andi | ori | xori | lui

namespace ArithOp

/-- The encoding. -/
def form : ArithOp → Form
  | add => .register 0b100000
  | addu => .register 0b100001
  | sub => .register 0b100010
  | subu => .register 0b100011
  | and => .register 0b100100
  | or => .register 0b100101
  | xor => .register 0b100110
  | nor => .register 0b100111
  | addi => .immediate 0b001000
  | addiu => .immediate 0b001001
  | andi => .immediate 0b001100
  | ori => .immediate 0b001101
  | xori => .immediate 0b001110
  | lui => .immediate 0b001111

/-- The immediate is extended with zeros by the logical instructions only. -/
def signed : ArithOp → Bool
  | and | or | xor | nor | add | addu | sub | subu | andi | ori | xori => false
  | addi | addiu | lui => true

/-- What the instruction makes of rs and its second operand. -/
def operation : ArithOp → Word → Word → Word
  | add, a, b | addu, a, b | addi, a, b | addiu, a, b => a + b
  | sub, a, b | subu, a, b => a - b
  | and, a, b | andi, a, b => a &&& b
  | or, a, b | ori, a, b => a ||| b
  | xor, a, b | xori, a, b => a ^^^ b
  | nor, a, b => ~~~(a ||| b)
  | lui, _, b => b.extractLsb' 0 16 ++ 0#16

/-- The result in MIPS, for the values `a` of rs and `b` of rt. -/
def result (op : ArithOp) (w a b : Word) : Word :=
  match op with
  | add | addu => a + b
  | sub | subu => a - b
  | and => a &&& b
  | or => a ||| b
  | xor => a ^^^ b
  | nor => ~~~(a ||| b)
  | addi | addiu => a + (w.extractLsb' 0 16).signExtend 32
  | andi => a &&& (w.extractLsb' 0 16).setWidth 32
  | ori => a ||| (w.extractLsb' 0 16).setWidth 32
  | xori => a ^^^ (w.extractLsb' 0 16).setWidth 32
  | lui => w.extractLsb' 0 16 ++ 0#16

/-- **Every row computes its instruction.** -/
theorem computes (op : ArithOp) :
    Computes op.form op.signed fun o => op.operation o.a o.b := by
  cases op <;>
    exact ⟨_, rfl, by decide, by decide, fun i s hi => by rw [Alu.step, hi]; rfl⟩

/-- The low half of an extended immediate is the immediate. -/
theorem extractLsb'_signExtend (x : BitVec 16) : (x.signExtend 32).extractLsb' 0 16 = x := by
  ext k hk
  rw [BitVec.getElem_extractLsb', BitVec.getLsbD_signExtend, Nat.zero_add]
  simp [hk, show k < 32 by omega]

/-- The operation on the operands is the result in MIPS. -/
theorem operation_second (op : ArithOp) (w a b : Word) :
    op.operation a (op.form.second op.signed w b) = op.result w a b := by
  cases op with
  | lui => exact congrArg (fun x : BitVec 16 => x ++ 0#16) (extractLsb'_signExtend _)
  | _ => rfl

end ArithOp

/-- **Additions, subtractions, logical and immediate instructions broadcast the result of
MIPS**, to rd or, beside an immediate, to rt. -/
theorem executes_arith (op : ArithOp) (v : View) (pc w : Word) (held : Controls)
    (mapWr special : Tag) (e : Exe.State) (h : op.form.encodes w = true) :
    Delivers (executedState v pc w held mapWr special e) (op.form.destination w)
      (op.result w (v.read (regField w 21)) (v.read (regField w 16))) := by
  rw [← op.operation_second]
  exact delivers_of_computes v pc held mapWr special e op.computes h

/-- `addiu $2, $1, -1`, where `$1` holds -1. -/
theorem executes_arith_addiu : Delivers
    (executedState minusOne 0xBFC00000 0x2422FFFF 0 0 0 Exe.reset) 2 0xFFFFFFFE := by
  have h := executes_arith .addiu minusOne 0xBFC00000 0x2422FFFF 0 0 0 Exe.reset (by decide)
  have hval : ArithOp.addiu.result 0x2422FFFF (minusOne.read (regField 0x2422FFFF 21))
      (minusOne.read (regField 0x2422FFFF 16)) = 0xFFFFFFFE := by decide
  rwa [hval] at h

end Mips
end OooProcessor
