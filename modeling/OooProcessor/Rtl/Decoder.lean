/-
# Decoder

`verilog/Decoder.v`.  A case statement over the opcode, and below SPECIAL,
REGIMM and COP1 over further fields, assigns all 13 control outputs at once
from a 19-bit literal.  The literals are the tables of this file.

The outputs are `reg`s of a block without a clock, and four of the inner
`default` branches only print "Not an Instruction!": for such a word nothing is
assigned and the outputs keep the values of the word before it.  `table` is
therefore partial, and `decode` takes the outputs held so far.  An opcode that
has no entry at all is assigned zero.
-/

import OooProcessor.Rtl.Types

namespace OooProcessor
namespace Decoder

/-- `Instr[31:26]` -/
def opcode (w : Word) : BitVec 6 := w.extractLsb' 26 6

/-- `Instr[25:21]` -/
def format (w : Word) : BitVec 5 := w.extractLsb' 21 5

/-- `Instr[20:16]` -/
def rt (w : Word) : BitVec 5 := w.extractLsb' 16 5

/-- `Instr[5:0]` -/
def funct (w : Word) : BitVec 6 := w.extractLsb' 0 6

/-- `case(funct)` under opcode `000000`, SPECIAL. -/
def specialTable : List (BitVec 6 × BitVec 19) := [
  (0b000000, 0b0100000100001001100),     -- sll,nop
  (0b000010, 0b0100000100001101100),     -- srl
  (0b000011, 0b0100000100001100100),     -- sra
  (0b000100, 0b0100000100001010000),     -- sllv
  (0b000110, 0b0100000100001110000),     -- srlv
  (0b000111, 0b0100000100001101000),     -- srav
  (0b001000, 0b0011000010011111000),     -- jr
  (0b001001, 0b1111001110011100000),     -- jalr
  (0b001100, 0b0000001101100001100),     -- syscall
  (0b001101, 0b0100001100001001100),     -- break
  (0b010000, 0b0100000100000100110),     -- mfhi
  (0b010001, 0b0000000000000101110),     -- mthi
  (0b010010, 0b0100000100000101001),     -- mflo
  (0b010011, 0b0000000000000110001),     -- mtlo
  (0b011000, 0b0100000000000110111),     -- mult
  (0b011001, 0b0100000000000110111),     -- multu
  (0b011010, 0b0100000000000010111),     -- div
  (0b011011, 0b0100000000000011011),     -- divu
  (0b100000, 0b0100000100000000000),     -- add
  (0b100001, 0b0100000100011011100),     -- addu
  (0b100010, 0b0100000100001110100),     -- sub
  (0b100011, 0b0100000100001111000),     -- subu
  (0b100100, 0b0100000100000010000),     -- and
  (0b100101, 0b0100000100001000000),     -- or
  (0b100110, 0b0100000100001111100),     -- xor
  (0b100111, 0b0100000100000111100),     -- nor
  (0b101010, 0b0100000100001010100),     -- slt
  (0b101011, 0b0100000100011111100)]     -- sltu

/-- `case(rt)` under opcode `000001`. -/
def regimmTable : List (BitVec 5 × BitVec 19) := [
  (0b00000, 0b0001000001010011100),      -- bltz
  (0b00001, 0b0001000001010001100),      -- bgez
  (0b10000, 0b1001001101000000100),      -- bltzal
  (0b10001, 0b1001001101000000100)]      -- bgezal

/-- The opcodes whose control word depends on nothing else. -/
def opcodeTable : List (BitVec 6 × BitVec 19) := [
  (0b000010, 0b0011000000000111000),     -- j
  (0b000011, 0b1011001101000000100),     -- jal
  (0b000100, 0b0101000001010001000),     -- beq
  (0b000101, 0b0101000001010100100),     -- bne
  (0b000110, 0b0001000001010011000),     -- blez
  (0b000111, 0b0001000001010010100),     -- bgtz
  (0b001000, 0b0000001101000000100),     -- addi
  (0b001001, 0b0000001101000001000),     -- addiu
  (0b001010, 0b0000001101001010100),     -- slti
  (0b001011, 0b0000001101011111100),     -- sltiu
  (0b001100, 0b0000001100000010000),     -- andi
  (0b001101, 0b0000001100001000000),     -- ori
  (0b001110, 0b0000001100010000000),     -- xori
  (0b001111, 0b0000001101000100000),     -- lui
  (0b100000, 0b0000101101010000100),     -- lb
  (0b100001, 0b0000101101010101100),     -- lh
  (0b100010, 0b0000101101010110100),     -- lwl
  (0b100011, 0b0000101101011110100),     -- lw
  (0b110000, 0b0000101101110100000),     -- ll
  (0b100100, 0b0000101101010101000),     -- lbu
  (0b100101, 0b0000101101010110000),     -- lhu
  (0b100110, 0b0000101101010111000),     -- lwr
  (0b101000, 0b0000011001010111100),     -- sb
  (0b101001, 0b0000011001011000000),     -- sh
  (0b101010, 0b0000011001011001000),     -- swl
  (0b101011, 0b0000011001011000100),     -- sw
  (0b111000, 0b0000011101111011000),     -- sc
  (0b101110, 0b0000011001011001100),     -- swr
  (0b110001, 0b0000101001011010100),     -- lwc1
  (0b111001, 0b0000011001011100100),     -- swc1
  (0b010100, 0b0001000001011101000),     -- beql
  (0b010110, 0b0001000001011101100),     -- blezl
  (0b010101, 0b0001000001011110000)]     -- bnel

/-- `case(format)` under opcode `010001`, COP1, but for the two formats that look
further into the word. -/
def cop1FormatTable : List (BitVec 5 × BitVec 19) := [
  (0b00000, 0b0000000101001110000),      -- mfc1
  (0b00010, 0b0000000101001101000),      -- cfc1
  (0b00100, 0b0100000001011100000),      -- mtc1
  (0b00110, 0b0100000001011010000),      -- ctc1
  (0b10001, 0b0100000001000100000)]      -- fp cvt.s

/-- `case(funct)` under COP1 format `10000`. -/
def cop1FunctTable : List (BitVec 6 × BitVec 19) := [
  (0b000000, 0b0100000000001101100),     -- fp add
  (0b000001, 0b0100000000000000000),     -- fp sub
  (0b000010, 0b0100000000000110100),     -- fp mul
  (0b000011, 0b0100000000000010100),     -- fp div
  (0b000101, 0b0100000000011011100),     -- fp abs
  (0b000110, 0b0100000001000010000),     -- fp mov
  (0b000111, 0b0100000000001000000)]     -- fp neg

/-- The control word assigned under COP1, if any. -/
def cop1 (w : Word) : Option (BitVec 19) :=
  if format w = 0b01000 then
    some (if w[16] then 0b0001000001001110100 else 0b0001000001000111100) -- bc1t, bc1f
  else if format w = 0b10000 then
    if w.extractLsb' 4 4 = 0b0011 then some 0b0000000000001111100 -- fp c.cond
    else cop1FunctTable.lookup (funct w)
  else cop1FormatTable.lookup (format w)

/-- The control word the case statement assigns for `w`, or `none` where it
assigns nothing. -/
def table (w : Word) : Option (BitVec 19) :=
  if opcode w = 0b000000 then specialTable.lookup (funct w)
  else if opcode w = 0b000001 then regimmTable.lookup (rt w)
  else if opcode w = 0b010001 then cop1 w
  else some ((opcodeTable.lookup (opcode w)).getD 0)

/-- The outputs of Decoder on `w`, where they have been `held` so far. -/
def decode (w : Word) (held : Controls) : Controls :=
  ((table w).map Controls.ofBits).getD held

/-- SYSCALL: opcode 0, funct `0x0c`. -/
def isSyscall (w : Word) : Bool := opcode w == 0 && funct w == 0x0c

/-- LL, opcode `0x30`. -/
def isLL (w : Word) : Bool := opcode w == 0b110000

/-- SC, opcode `0x38`. -/
def isSC (w : Word) : Bool := opcode w == 0b111000

/-- LWC1, opcode `0x31`. -/
def isLWC1 (w : Word) : Bool := opcode w == 0b110001

/-- COP1, opcode `0x11`. -/
def isCOP1 (w : Word) : Bool := opcode w == 0b010001

theorem decode_of_table {w : Word} {b : BitVec 19} (h : table w = some b) (held : Controls) :
    decode w held = Controls.ofBits b := by
  simp [decode, h]

theorem decode_of_none {w : Word} (h : table w = none) (held : Controls) :
    decode w held = held := by
  simp [decode, h]

theorem table_zero : table 0 = some 0b0100000100001001100 := by decide

section Facts

/-- The control words of the two branch formats of COP1 and of its compares. -/
def cop1Words : List (BitVec 19) :=
  [0b0001000001001110100, 0b0001000001000111100, 0b0000000000001111100] ++
    cop1FunctTable.map Prod.snd ++ cop1FormatTable.map Prod.snd

/-- A lookup that succeeds finds an entry of the table. -/
theorem mem_of_lookup {α β : Type*} [BEq α] [LawfulBEq α] {k : α} {v : β} :
    ∀ {l : List (α × β)}, l.lookup k = some v → (k, v) ∈ l
  | [], h => by simp at h
  | (a, b) :: l, h => by
    rw [List.lookup_cons] at h
    split at h
    · next heq =>
      obtain rfl := Option.some.inj h
      rw [beq_iff_eq] at heq
      exact heq ▸ List.mem_cons_self ..
    · exact List.mem_cons_of_mem _ (mem_of_lookup h)

theorem mem_cop1Words {w : Word} {b : BitVec 19} (h : cop1 w = some b) : b ∈ cop1Words := by
  unfold cop1 at h
  split_ifs at h with h1 h2 h3 h4
  · simp [cop1Words, ← Option.some.inj h]
  · simp [cop1Words, ← Option.some.inj h]
  · simp [cop1Words, ← Option.some.inj h]
  · have := List.mem_map_of_mem (f := Prod.snd) (mem_of_lookup h)
    simp only [cop1Words, List.mem_append]
    exact .inl (.inr this)
  · have := List.mem_map_of_mem (f := Prod.snd) (mem_of_lookup h)
    simp only [cop1Words, List.mem_append]
    exact .inr this

/-- **Every control word comes from one of the tables**, or is the zero of an
opcode that has no entry. -/
theorem table_cases {w : Word} {b : BitVec 19} (h : table w = some b) :
    (opcode w = 0b000000 ∧ (funct w, b) ∈ specialTable) ∨
      (rt w, b) ∈ regimmTable ∨ b ∈ cop1Words ∨ (opcode w, b) ∈ opcodeTable ∨ b = 0 := by
  unfold table at h
  split_ifs at h with h1 h2 h3
  · exact .inl ⟨h1, mem_of_lookup h⟩
  · exact .inr (.inl (mem_of_lookup h))
  · exact .inr (.inr (.inl (mem_cop1Words h)))
  · cases hl : opcodeTable.lookup (opcode w) with
    | none => simp_all
    | some c =>
      obtain rfl : c = b := by simpa [hl] using h
      exact .inr (.inr (.inr (.inl (mem_of_lookup hl))))

/-- A test that passes on every entry of a table. -/
theorem of_mem {κ : Type*} {Q : κ → BitVec 19 → Bool} {l : List (κ × BitVec 19)} {k : κ}
    {b : BitVec 19} (h : l.all (fun p => Q p.1 p.2) = true) (hb : (k, b) ∈ l) : Q k b = true :=
  List.all_eq_true.mp h (k, b) hb

/-- A test that passes on every control word of COP1. -/
theorem of_mem_cop1Words {Q : BitVec 19 → Bool} {b : BitVec 19} (h : cop1Words.all Q = true)
    (hb : b ∈ cop1Words) : Q b = true :=
  List.all_eq_true.mp h b hb

/-- `p` implies `q` for the control word `b`. -/
def implies (p q : Controls → Bool) (b : BitVec 19) : Bool :=
  !p (Controls.ofBits b) || q (Controls.ofBits b)

theorem of_implies {p q : Controls → Bool} {b : BitVec 19} (h : implies p q b = true)
    (hp : p (Controls.ofBits b) = true) : q (Controls.ofBits b) = true := by
  simpa [implies, hp] using h

/-- Every instruction that links writes a register. -/
theorem regWrite_of_link {w : Word} {b : BitVec 19} (h : table w = some b)
    (hl : (Controls.ofBits b).link = true) : (Controls.ofBits b).regWrite = true := by
  refine of_implies (p := Controls.link) (q := Controls.regWrite) ?_ hl
  rcases table_cases h with ⟨-, h⟩ | h | h | h | rfl
  · exact of_mem (Q := fun _ => implies Controls.link Controls.regWrite) (by decide) h
  · exact of_mem (Q := fun _ => implies Controls.link Controls.regWrite) (by decide) h
  · exact of_mem_cop1Words (by decide) h
  · exact of_mem (Q := fun _ => implies Controls.link Controls.regWrite) (by decide) h
  · decide

/-- No load links. -/
theorem not_memRead_of_link {w : Word} {b : BitVec 19} (h : table w = some b)
    (hl : (Controls.ofBits b).link = true) : (Controls.ofBits b).memRead = false := by
  rw [← Bool.not_eq_true']
  refine of_implies (p := Controls.link) (q := fun c => !c.memRead) ?_ hl
  rcases table_cases h with ⟨-, h⟩ | h | h | h | rfl
  · exact of_mem (Q := fun _ => implies Controls.link fun c => !c.memRead) (by decide) h
  · exact of_mem (Q := fun _ => implies Controls.link fun c => !c.memRead) (by decide) h
  · exact of_mem_cop1Words (by decide) h
  · exact of_mem (Q := fun _ => implies Controls.link fun c => !c.memRead) (by decide) h
  · decide

/-- Every load but LWC1 writes a register. -/
theorem regWrite_of_memRead {w : Word} {b : BitVec 19} (h : table w = some b)
    (hw : isLWC1 w = false) (hm : (Controls.ofBits b).memRead = true) :
    (Controls.ofBits b).regWrite = true := by
  refine of_implies (p := Controls.memRead) (q := Controls.regWrite) ?_ hm
  rcases table_cases h with ⟨-, h⟩ | h | h | h | rfl
  · exact of_mem (Q := fun _ => implies Controls.memRead Controls.regWrite) (by decide) h
  · exact of_mem (Q := fun _ => implies Controls.memRead Controls.regWrite) (by decide) h
  · exact of_mem_cop1Words (by decide) h
  · have hQ := of_mem (Q := fun k b => k == 0b110001 || implies Controls.memRead Controls.regWrite b)
      (by decide) h
    exact (Bool.or_eq_true_iff.mp hQ).resolve_left (by simpa [isLWC1] using hw)
  · decide

/-- Only SC both stores and writes a register. -/
theorem isSC_of_memWrite_regWrite {w : Word} {b : BitVec 19} (h : table w = some b)
    (hm : (Controls.ofBits b).memWrite = true) (hr : (Controls.ofBits b).regWrite = true) :
    isSC w = true := by
  have hno : ∀ {b}, implies Controls.memWrite (fun c => !c.regWrite) b = true →
      (Controls.ofBits b).memWrite = true → ¬(Controls.ofBits b).regWrite = true := by
    intro b hb hm hr
    simpa [hr] using of_implies hb hm
  refine of_not_not fun hsc => hno ?_ hm hr
  rcases table_cases h with ⟨-, h⟩ | h | h | h | rfl
  · exact of_mem (Q := fun _ => implies Controls.memWrite fun c => !c.regWrite) (by decide) h
  · exact of_mem (Q := fun _ => implies Controls.memWrite fun c => !c.regWrite) (by decide) h
  · exact of_mem_cop1Words (by decide) h
  · have hQ := of_mem (Q := fun k b => k == 0b111000 ||
      implies Controls.memWrite (fun c => !c.regWrite) b) (by decide) h
    exact (Bool.or_eq_true_iff.mp hQ).resolve_left hsc
  · decide

/-- The Syscall bit is set for SYSCALL, LL and SC. -/
theorem isSyscall_or_of_syscall {w : Word} {b : BitVec 19} (h : table w = some b)
    (hs : (Controls.ofBits b).syscall = true) :
    isSyscall w = true ∨ isLL w = true ∨ isSC w = true := by
  have hno : ∀ {b}, implies Controls.syscall (fun _ => false) b = true →
      ¬(Controls.ofBits b).syscall = true := by
    intro b hb hs
    simpa using of_implies hb hs
  refine of_not_not fun hnone => ?_
  simp only [not_or] at hnone
  obtain ⟨hsys, hll, hsc⟩ := hnone
  refine hno ?_ hs
  rcases table_cases h with ⟨hop, h⟩ | h | h | h | rfl
  · have hQ := of_mem (Q := fun k b => k == 0x0c || implies Controls.syscall (fun _ => false) b)
      (by decide) h
    refine (Bool.or_eq_true_iff.mp hQ).resolve_left fun hf => hsys ?_
    rw [isSyscall, hop, hf]
    rfl
  · exact of_mem (Q := fun _ => implies Controls.syscall fun _ => false) (by decide) h
  · exact of_mem_cop1Words (by decide) h
  · have hQ := of_mem (Q := fun k b => k == 0b110000 || (k == 0b111000 ||
      implies Controls.syscall (fun _ => false) b)) (by decide) h
    exact (Bool.or_eq_true_iff.mp ((Bool.or_eq_true_iff.mp hQ).resolve_left hll)).resolve_left hsc
  · decide

end Facts

end Decoder
end OooProcessor
