/-
# One instruction after another

What the core does to a program, without the pipeline: the word at the program counter
goes through Decoder, the operand selection of ID, ALU and EXE, and MEM with the memory
of the simulator, and its result is written before the next word is fetched.  `take` and
`addr` of EXE give the delay slot: a redirect is raised when the instruction after the
one that jumps passes, and an instruction at address 0 is passed over.

As in `main`, no word is fetched from address 0.  System calls are left out.
-/

import OooProcessor.Core.Arith
import OooProcessor.Core.Shift
import OooProcessor.Sim.Lanes

namespace OooProcessor
namespace Sim

open Decoder Mips

/-- The general registers, with `$0` hardwired. -/
structure Registers where
  val : Reg → Word
  zero : val 0 = 0

namespace Registers

/-- ID's view of them, with every register mapped as reset maps it. -/
def view (r : Registers) : View where
  frat := TableObj.reset.arr
  regs t := r.val (Fin.ofNat 32 t)
  zero := r.zero

/-- A write to `$0` is ignored. -/
def write (r : Registers) (i : Reg) (v : Word) : Registers where
  val := if i = 0 then r.val else Function.update r.val i v
  zero := by
    split_ifs with h
    · exact r.zero
    · rw [Function.update_of_ne (Ne.symm h)]
      exact r.zero

variable (r : Registers) {i j : Reg} (v v' : Word)

@[simp] theorem read_view (i : Reg) : r.view.read i = r.val i := by
  show r.val (Fin.ofNat 32 i) = r.val i
  congr
  exact Fin.ext (Nat.mod_eq_of_lt i.isLt)

theorem write_zero : r.write 0 v = r := rfl

/-- What a write to another register than `$0` leaves. -/
theorem val_write_of_ne (h : i ≠ 0) : (r.write i v).val j = if j = i then v else r.val j := by
  show (if i = 0 then r.val else Function.update r.val i v) j = _
  rw [if_neg h, Function.update_apply]

theorem write_write : (r.write i v).write i v' = r.write i v' := by
  unfold write
  congr 1
  split_ifs
  · rfl
  · exact Function.update_idem ..

end Registers

/-- The core between two instructions: the outputs Decoder holds, the registers of EXE,
and the memory with the state of MEM. -/
structure Seq where
  pc : Word
  registers : Registers
  held : Controls
  exe : Exe.State
  sim : State

namespace Seq

variable (s : Seq)

/-- The word at the program counter. -/
def word : Word := if s.pc = 0 then 0 else readWord s.sim.mainMemory s.pc

/-- Where the destination field of the word is mapped. -/
def mapC : Tag := s.registers.view.frat (Id.rd s.word (decode s.word s.held))

/-- EXE after the word. -/
def executed : Exe.State :=
  executedState s.registers.view s.pc s.word s.held s.mapC s.mapC s.exe

/-- The registers after EXE has broadcast and MEM has written back. -/
def writeBack (e : Exe.State) (mem : Mem.State) (r : Registers) : Registers :=
  let r := if e.broadcastFlag then r.write e.broadcastReg e.broadcastVal else r
  if mem.regWrite1Out then r.write mem.writeRegister1Out mem.writeData1Out else r

def step : Seq :=
  let e := s.executed
  let sim := cycle e s.sim
  { pc := if e.requestAltPc then e.altAddr else s.pc + 4
    registers := writeBack e sim.mem s.registers
    held := decode s.word s.held
    exe := e
    sim := sim }

section Step

variable {s}

/-- The next word is that behind, unless EXE redirects. -/
theorem pc_step (s : Seq) :
    s.step.pc = if s.pc ≠ 0 ∧ s.exe.take = true then s.exe.addr else s.pc + 4 := by
  show (if (if s.pc ≠ 0 then s.exe.take else false) = true
    then (if s.pc ≠ 0 then s.exe.addr else 0) else s.pc + 4) = _
  by_cases hpc : s.pc ≠ 0
  · simp only [if_pos hpc, and_iff_right hpc]
  · rw [if_neg hpc, if_neg Bool.false_ne_true, if_neg fun h => hpc h.1]

/-- What the word makes EXE remember. -/
theorem take_step (s : Seq) : s.step.exe.take = if s.pc ≠ 0 then
    Exe.requestAltPc1 (s.registers.view.issue s.pc s.word s.held s.mapC s.mapC)
      else s.exe.take := rfl

theorem addr_step (s : Seq) : s.step.exe.addr = if s.pc ≠ 0 then
    Exe.target (s.registers.view.issue s.pc s.word s.held s.mapC s.mapC) else s.exe.addr := rfl

/-- A word that is no store leaves the memory. -/
theorem mainMemory_step (h : (decode s.word s.held).memWrite = false) :
    s.step.sim.mainMemory = s.sim.mainMemory := mainMemory_of_not_memWrite s.sim h

/-- What is no load is written from EXE or not at all. -/
theorem registers_step (h : (decode s.word s.held).memRead = false) :
    s.step.registers = if s.executed.broadcastFlag then
      s.registers.write s.executed.broadcastReg s.executed.broadcastVal else s.registers := by
  have hmem : s.step.sim.mem.regWrite1Out = false := by
    show (if Exe.broadcasts (s.registers.view.issue s.pc s.word s.held s.mapC s.mapC) then false
      else (s.registers.view.issue s.pc s.word s.held s.mapC s.mapC).regWrite1Out) = false
    split_ifs with hb
    · rfl
    · have hload : (s.registers.view.issue s.pc s.word s.held s.mapC s.mapC).memRead1Out =
          false := h
      rw [Exe.broadcasts, hload, Bool.not_false, Bool.and_true, Bool.or_eq_true, not_or] at hb
      exact Bool.eq_false_iff.mpr hb.2
  exact if_neg (Bool.eq_false_iff.mp hmem)

/-- **What the word does** that is at the program counter, if it gives the registers
`regs` and does not jump. -/
structure Passes (s : Seq) (regs : Registers) : Prop where
  registers : s.step.registers = regs
  mainMemory : s.step.sim.mainMemory = s.sim.mainMemory
  take : s.step.exe.take = if s.pc ≠ 0 then false else s.exe.take

/-- An instruction that computes `g` writes it to its destination. -/
theorem passes_of_computes {f : Form} {signed : Bool} {g : Operands → Word} {b : BitVec 19}
    (hg : Computes f signed g) (hrow : f.row = some b)
    (hstore : (Controls.ofBits b).memWrite = false)
    (hbranch : ∀ x y, Compare.brTaken s.word x y = false) (h : f.encodes s.word = true) :
    Passes s (s.registers.write (f.destination s.word)
      (g (operands s.registers.view f signed s.word s.exe))) := by
  have hc : decode s.word s.held = Controls.ofBits b :=
    decode_of_table (Form.table_of_encodes h hrow) s.held
  have hdelivers : Delivers s.executed (f.destination s.word) _ :=
    delivers_of_computes s.registers.view s.pc s.held s.mapC s.mapC s.exe hg h
  obtain ⟨b', hrow', hplain, -, -⟩ := hg
  obtain rfl : b = b' := Option.some.inj (hrow.symm.trans hrow')
  simp only [plain, Bool.and_eq_true, Bool.not_eq_true'] at hplain
  obtain ⟨⟨⟨⟨⟨-, hjump⟩, -⟩, hload⟩, -⟩, -⟩ := hplain
  refine ⟨?_, mainMemory_step (hc ▸ hstore), ?_⟩
  · rw [registers_step (hc ▸ hload), hdelivers.flag, hdelivers.register, hdelivers.result]
    by_cases hzero : f.destination s.word = 0
    · rw [hzero]
      rfl
    · rw [if_pos (bne_iff_ne.mpr hzero)]
  · have htaken : Exe.requestAltPc1 (s.registers.view.issue s.pc s.word s.held s.mapC s.mapC) =
        false := by
      show (Compare.brTaken s.word _ _ || (decode s.word s.held).jump) = false
      rw [hbranch, hc, hjump]
      rfl
    rw [take_step, htaken]

/-- No opcode of the ALU instructions is one of a branch. -/
theorem brTaken_of_opcode {w : Word} {k : BitVec 6} (hop : opcode w = k)
    (hk : k = 0 ∨ 8 ≤ k) (x y : Word) : Compare.brTaken w x y = false := by
  have hop' : w.extractLsb' 26 6 = k := hop
  rw [Compare.brTaken, hop']
  split
  · exact absurd hk (by decide)
  · exact absurd hk (by decide)
  · exact absurd hk (by decide)
  · exact absurd hk (by decide)
  · exact absurd hk (by decide)
  · rfl

/-- Additions, logic and immediates. -/
theorem passes_arith (op : ArithOp) (h : op.form.encodes s.word = true) :
    Passes s (s.registers.write (op.form.destination s.word)
      (op.result s.word (s.registers.val (regField s.word 21))
        (s.registers.val (regField s.word 16)))) := by
  have hrow : ∃ b, op.form.row = some b ∧ (Controls.ofBits b).memWrite = false := by
    cases op <;> exact ⟨_, rfl, by decide⟩
  have hopcode : ∃ k, opcode s.word = k ∧ (k = 0 ∨ 8 ≤ k) := by
    cases op with
    | add | addu | sub | subu | and | or | xor | nor =>
      exact ⟨0, (beq_iff_eq.mp (Bool.and_eq_true_iff.mp h).1), .inl rfl⟩
    | addi | addiu | andi | ori | xori | lui => exact ⟨_, beq_iff_eq.mp h, .inr (by decide)⟩
  obtain ⟨b, hrow, hstore⟩ := hrow
  obtain ⟨k, hop, hk⟩ := hopcode
  have hpasses := passes_of_computes op.computes hrow hstore (brTaken_of_opcode hop hk) h
  have hval := op.operation_second s.word (s.registers.view.read (regField s.word 21))
    (s.registers.view.read (regField s.word 16))
  rw [Registers.read_view, Registers.read_view] at hval
  rw [← hval, ← Registers.read_view, ← Registers.read_view]
  exact hpasses

/-- The word 0 shifts `$0` by 0. -/
theorem passes_zero (h : s.word = 0) : Passes s s.registers := by
  have hopcode : opcode s.word = 0 := by
    rw [h]
    decide
  have hpasses := passes_of_computes ShiftOp.sll.computes rfl (by decide)
    (brTaken_of_opcode hopcode (.inl rfl)) (h ▸ (by decide : ShiftOp.sll.form.encodes 0 = true))
  have hdest : ShiftOp.sll.form.destination s.word = 0 := by
    rw [h]
    decide
  rwa [hdest] at hpasses

end Step

end Seq

end Sim
end OooProcessor
