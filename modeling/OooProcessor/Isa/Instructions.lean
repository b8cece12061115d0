/-
# The instructions of MIPS

What the words of a program mean, one instruction after another: a state has the address of
the next instruction and that of the one behind it, which a transfer of control changes
(`Instr.exec`).  Likely branches, coprocessors, load-linked and store-conditional are left
out, as are exceptions: additions wrap around.

Nothing here is read off the core.  `Instr.Sound` is what the core asks of an instruction
beyond that: most of it is where the core does something else.
-/

import OooProcessor.Core.HiLo
import OooProcessor.Core.SetLess
import OooProcessor.Sim.BigEndian
import OooProcessor.Sim.Process

namespace OooProcessor
namespace Isa

open Decoder Lib Mips Sim

deriving instance DecidableEq for ArithOp, SetLessOp, ShiftOp

/-- Jumps and branches. -/
inductive TransferOp
  | j | jal | jr | jalr | beq | bne | blez | bgtz | bltz | bgez | bltzal | bgezal
  deriving DecidableEq

namespace TransferOp

/-- The encoding. -/
def encodes (op : TransferOp) (w : Word) : Bool :=
  match op with
  | jr => opcode w == 0b000000 && funct w == 0b001000
  | jalr => opcode w == 0b000000 && funct w == 0b001001
  | bltz => opcode w == 0b000001 && Decoder.rt w == 0b00000
  | bgez => opcode w == 0b000001 && Decoder.rt w == 0b00001
  | bltzal => opcode w == 0b000001 && Decoder.rt w == 0b10000
  | bgezal => opcode w == 0b000001 && Decoder.rt w == 0b10001
  | j => opcode w == 0b000010
  | jal => opcode w == 0b000011
  | beq => opcode w == 0b000100
  | bne => opcode w == 0b000101
  | blez => opcode w == 0b000110
  | bgtz => opcode w == 0b000111

/-- Control is transferred, for the values `a` of rs and `b` of rt. -/
def taken (op : TransferOp) (a b : Word) : Bool :=
  match op with
  | j | jal | jr | jalr => true
  | beq => a == b
  | bne => a != b
  | blez => decide (a.toInt ≤ 0)
  | bgtz => decide (0 < a.toInt)
  | bltz | bltzal => decide (a.toInt < 0)
  | bgez | bgezal => decide (0 ≤ a.toInt)

/-- Where to, from the word `w` at `pc`. -/
def target (op : TransferOp) (pc w a : Word) : Word :=
  match op with
  | jr | jalr => a
  | j | jal => (pc + 4).extractLsb' 28 4 ++ w.extractLsb' 0 26 ++ 0#2
  | _ => pc + 4 + ((w.extractLsb' 0 16).signExtend 30 ++ 0#2)

/-- The register that gets the address behind the delay slot. -/
def link (op : TransferOp) (w : Word) : Option Reg :=
  match op with
  | jal | bltzal | bgezal => some 31
  | jalr => some (regField w 11)
  | _ => none

end TransferOp

section Access

/-- The address of the word that a byte is in. -/
def wordAddress (a : Word) : Word := BitVec.ofNat 32 (a.toNat / 4 * 4)

/-- The word with these bytes. -/
def ofBytes (f : ℕ → BitVec 8) : Word := BitVec.ofNat 32 (number f 4)

/-- The instruction stores. -/
def isStore : MemOp → Bool
  | .sb | .sh | .sw | .swl | .swr => true
  | _ => false

/-- What a load makes of the memory and of the value that its register holds. -/
def load (op : MemOp) (m : MainMemory) (a old : Word) : Word :=
  match op with
  | .lwl => ofBytes fun i =>
    if i < 4 - a.toNat % 4 then m (a + BitVec.ofNat 32 i) else byteOf 4 old i
  | .lwr => ofBytes fun i =>
    if i < 3 - a.toNat % 4 then byteOf 4 old i
    else m (wordAddress a + BitVec.ofNat 32 (i - (3 - a.toNat % 4)))
  | op => op.loaded fun i => m (a + BitVec.ofNat 32 i)

/-- What a store of `v` makes of the memory. -/
def store (op : MemOp) (m : MainMemory) (a v : Word) : MainMemory :=
  match op with
  | .swl => put m a (4 - a.toNat % 4) (byteOf 4 v)
  | .swr => put m (wordAddress a) (a.toNat % 4 + 1) fun i => byteOf 4 v (3 - a.toNat % 4 + i)
  | op => put m a op.width (byteOf op.width v)

end Access

/-- The instructions. -/
inductive Instr
  | arith (op : ArithOp)
  | setLess (op : SetLessOp)
  | shift (op : ShiftOp)
  | hiLo (op : HiLoOp)
  | fromHi
  | fromLo
  | memory (op : MemOp)
  | transfer (op : TransferOp)
  | syscall
  deriving DecidableEq

/-- The word encodes the instruction. -/
def Instr.encodes : Instr → Word → Bool
  | arith op => op.form.encodes
  | setLess op => op.form.encodes
  | shift op => op.form.encodes
  | hiLo op => op.form.encodes
  | fromHi => mfhi.encodes
  | fromLo => mflo.encodes
  | memory op => (Form.immediate op.opcode).encodes
  | transfer op => op.encodes
  | syscall => isSyscall

def instructions : List Instr :=
  [.add, .addu, .sub, .subu, .and, .or, .xor, .nor, .addi, .addiu, .andi, .ori, .xori,
      .lui].map .arith ++
    [.slt, .slti, .sltu, .sltiu].map .setLess ++
    [.sll, .srl, .sra, .sllv, .srlv, .srav].map .shift ++
    [.mult, .multu, .div, .divu, .mthi, .mtlo].map .hiLo ++
    [.lb, .lbu, .lh, .lhu, .lw, .lwl, .lwr, .sb, .sh, .sw, .swl, .swr].map .memory ++
    [.j, .jal, .jr, .jalr, .beq, .bne, .blez, .bgtz, .bltz, .bgez, .bltzal,
      .bgezal].map .transfer ++
    [.fromHi, .fromLo, .syscall]

/-- The instruction that a word encodes. -/
def instrOf (w : Word) : Option Instr := instructions.find? (·.encodes w)

theorem encodes_of_instrOf {w : Word} {i : Instr} (h : instrOf w = some i) :
    i.encodes w = true :=
  List.find?_some (p := fun i : Instr => i.encodes w) h

/-- A state of the program; `inSlot` says that the next instruction stands behind a transfer
that is taken. -/
structure State (ω : Type*) where
  pc : Word
  npc : Word
  inSlot : Bool
  registers : Registers
  hiLo : HiLo
  memory : MainMemory
  os : ω

namespace State

variable {ω : Type*} (s : State ω)

def word : Word := readWord s.memory s.pc

def rs : Word := s.registers.val (regField s.word 21)

def rt : Word := s.registers.val (regField s.word 16)

/-- The address of a load or a store. -/
def address : Word := s.rs + (s.word.extractLsb' 0 16).signExtend 32

/-- The next instruction. -/
def next : State ω := { s with pc := s.npc, npc := s.npc + 4, inSlot := false }

def write (r : Reg) (v : Word) : State ω := { s with registers := s.registers.write r v }

end State

section Step

variable {ω : Type*} (handler : Handler ω) (s : State ω)

/-- **What an instruction does.** -/
def Instr.exec : Instr → State ω
  | arith op => s.next.write (op.form.destination s.word) (op.result s.word s.rs s.rt)
  | setLess op => s.next.write (op.form.destination s.word)
      (if op.less s.rs (op.second s.word s.rt) then 1 else 0)
  | shift op => s.next.write (op.form.destination s.word) (op.result s.word s.rs s.rt)
  | hiLo op => { s.next with hiLo := op.leaves s.rs s.rt s.hiLo }
  | fromHi => s.next.write (mfhi.destination s.word) (s.hiLo.hi.getD 0)
  | fromLo => s.next.write (mflo.destination s.word) (s.hiLo.lo.getD 0)
  | memory op =>
    if isStore op then { s.next with memory := store op s.memory s.address s.rt }
    else s.next.write (regField s.word 16) (load op s.memory s.address s.rt)
  | transfer op =>
    let t := { s.next with
      npc := if op.taken s.rs s.rt then op.target s.pc s.word s.rs else s.npc + 4
      inSlot := op.taken s.rs s.rt }
    match op.link s.word with
    | some r => t.write r (s.pc + 8)
    | none => t
  | syscall =>
    let r := handler s.registers.val s.memory s.os
    { s.next with registers := s.registers.writeAll r.1, memory := r.2.1, os := r.2.2 }

/-- **What the core asks of an instruction**: not SLT or SLTI where the core compares too
early, nor SLLV by 32 or more, nor MULT of a negative number, nor BLTZAL or BGEZAL of one,
nor SYSCALL with a code where others have rt; and no access that is not aligned, and no
value of HI or LO that MIPS leaves open. -/
def Instr.Sound : Instr → Prop
  | setLess op => op.isSigned = true → ¬Early s.rs (op.second s.word s.rt)
  | shift op => op = .sllv → s.rs.toNat < 32 ∨ s.rt <<< (s.rs.toNat % 32) = 0
  | hiLo op => op = .mult → SignFree (w := 32) s.rs s.rt
  | fromHi => s.hiLo.hi.isSome = true
  | fromLo => s.hiLo.lo.isSome = true
  | memory op => op.aligns = true → s.address.toNat % op.width = 0
  | transfer op => op = .bltzal ∨ op = .bgezal → 0 ≤ s.rs.toInt
  | syscall => regField s.word 16 = 0
  | _ => True

instance (i : Instr) : Decidable (i.Sound s) := by
  cases i <;> unfold Instr.Sound <;> infer_instance

/-- The instruction takes a register of the core: one that writes a register, a system call,
but no word of zeros. -/
def Instr.takes : Instr → Bool
  | hiLo _ => false
  | memory op => !isStore op
  | transfer op => (op.link s.word).isSome
  | _ => s.word != 0

/-- It is a load. -/
def Instr.isLoad : Instr → Bool
  | memory op => !isStore op
  | _ => false

/-- One step, where the word has a meaning. -/
def State.step : State ω :=
  match instrOf s.word with
  | some i => i.exec handler s
  | none => s

/-- The next instruction has a meaning, and is sound. -/
def State.Sound : Prop := ∃ i, instrOf s.word = some i ∧ i.Sound s

instance : Decidable s.Sound :=
  inferInstanceAs (Decidable (∃ i, i ∈ instrOf s.word ∧ i.Sound s))

/-- How many registers the instructions have taken since a transfer was last taken. -/
def takenAt : ℕ → ℕ
  | 0 => 0
  | k + 1 =>
    let t := (State.step handler)^[k] s
    if t.inSlot then 0 else takenAt k + ((instrOf t.word).any (·.takes t)).toNat

end Step

/-- **What the core asks of a program before each instruction**: that it is sound; that 32
registers are not taken before a transfer is; that no load stands behind one; and that the
program is where it was, with its last twenty words out of reach. -/
structure Tame {ω : Type*} (P : Program) (s : State ω) (taken : ℕ) : Prop where
  sound : s.Sound
  room : taken < 32
  delaySlot : s.inSlot = true → (instrOf s.word).any Instr.isLoad = false
  inside : ∀ j ≤ 19, P.code (s.pc + BitVec.ofNat 32 (4 * j)) = true
  intact : P.In s.memory

instance {ω : Type*} (P : Program) (s : State ω) (n : ℕ) [Decidable (P.In s.memory)] :
    Decidable (Tame P s n) :=
  decidable_of_iff (s.Sound ∧ n < 32 ∧
      (s.inSlot = true → (instrOf s.word).any Instr.isLoad = false) ∧
      (∀ j ≤ 19, P.code (s.pc + BitVec.ofNat 32 (4 * j)) = true) ∧ P.In s.memory)
    ⟨fun ⟨hsound, hroom, hdelay, hinside, hintact⟩ => ⟨hsound, hroom, hdelay, hinside, hintact⟩,
      fun h => ⟨h.sound, h.room, h.delaySlot, h.inside, h.intact⟩⟩

/-- What a program starts with. -/
def State.start {ω : Type*} (m : MainMemory) (os : ω) : State ω where
  pc := Fetch.bootVector
  npc := Fetch.bootVector + 4
  inSlot := false
  registers := ⟨0, rfl⟩
  hiLo := ⟨none, none⟩
  memory := m
  os := os

end Isa
end OooProcessor
