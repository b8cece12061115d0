/-
# A program and its system calls

What `main` and the core make of a program together: one instruction after another
(`Sim/Sequential.lean`), with the handler in between where the word is a SYSCALL
(`Process.step`).  The core does that to a program of words that it carries out as they
stand (`Program`), as long as the program does not write over itself, stays away from its
last twenty words, has no load in the delay slot of a transfer that is taken, and takes no
33rd register from the free list without one (`Obeys`).
-/

import OooProcessor.Sim.Alike
import OooProcessor.Sim.Sequential
import OooProcessor.Sim.System

namespace OooProcessor
namespace Sim

open Decoder Mips

/-- Writes of a system call, one after another. -/
def Registers.writeAll (r : Registers) (ws : List (Reg × Word)) : Registers :=
  ws.foldl (fun r w => r.write w.1 w.2) r

theorem Registers.val_writeAll {ws : List (Reg × Word)} (hws : ∀ w ∈ ws, w.1 ≠ 0)
    (r : Registers) : (r.writeAll ws).val = sysWritten ws r.val := by
  induction ws generalizing r with
  | nil => rfl
  | cons w ws ih =>
    have hval : (r.write w.1 w.2).val = Function.update r.val w.1 w.2 :=
      if_neg (hws w (List.mem_cons_self ..))
    show ((r.write w.1 w.2).writeAll ws).val = _
    rw [ih fun v hv => hws v (List.mem_cons_of_mem _ hv), hval]
    rfl

/-- A word that passes the checks of `main` and that its tables describe: no word of
coprocessor 1, LL or SC. -/
def legal (w : Word) : Bool :=
  accepted w && (table w).isSome && !isCOP1 w && !isLWC1 w && !isLL w && !isSC w

/-- The words at the addresses of a program. -/
structure Program where
  code : Word → Bool
  text : Word → Word
  above : ∀ a, code a = true → 0x400000 ≤ a
  legal : ∀ a, code a = true → legal (text a) = true

namespace Program

variable (P : Program)

/-- The program as an instruction memory, with nothing around it. -/
def imem (a : Word) : Word := if P.code a then P.text a else 0

/-- It is in the memory. -/
def In (m : MainMemory) : Prop := ∀ a, P.code a = true → readWord m a = P.text a

theorem imem_of_code {a : Word} (h : P.code a = true) : P.imem a = P.text a := if_pos h

theorem legal_imem (a : Word) : Sim.legal (P.imem a) = true := by
  unfold imem
  split_ifs with h
  · exact P.legal a h
  · decide

/-- No address of it is 0. -/
theorem ne_zero {a : Word} (h : P.code a = true) : a ≠ 0 := by
  rintro rfl
  exact absurd (P.above 0 h) (by decide)

variable {P} {m : MainMemory} (h : P.In m)

include h

/-- `main` supplies the program, and does not refuse it. -/
theorem In.supplied {a : Word} (ha : P.code a = true) : supplied m a = P.imem a := by
  rw [Sim.supplied, if_neg (P.ne_zero ha), h a ha, P.imem_of_code ha]

theorem In.checked {a : Word} (ha : P.code a = true) (ha' : P.code (a + 4) = true) :
    checked m a = true := by
  have haccepted {a : Word} (ha : P.code a = true) : accepted (readWord m a) = true := by
    have hlegal := P.legal a ha
    simp only [Sim.legal, Bool.and_eq_true] at hlegal
    rw [h a ha]
    exact hlegal.1.1.1.1.1
  rw [Sim.checked, haccepted ha, haccepted ha']
  rfl

end Program

section List

/-- The words of a memory at some addresses. -/
def Program.ofList (as : List Word) (m : MainMemory) (h0 : as.all (0x400000 ≤ ·) = true)
    (h : as.all (fun a => Sim.legal (readWord m a)) = true) : Program where
  code a := decide (a ∈ as)
  text a := readWord m a
  above a ha := of_decide_eq_true (List.all_eq_true.mp h0 a (of_decide_eq_true ha))
  legal a ha := List.all_eq_true.mp h a (of_decide_eq_true ha)

variable {as : List Word} {m : MainMemory} (h0 : as.all (0x400000 ≤ ·) = true)
  (h : as.all (fun a => Sim.legal (readWord m a)) = true)

theorem Program.in_ofList_iff {m' : MainMemory} :
    (ofList as m h0 h).In m' ↔ as.all (fun a => readWord m' a == readWord m a) = true := by
  rw [List.all_eq_true]
  constructor
  · exact fun hin a ha => beq_iff_eq.mpr (hin a (decide_eq_true ha))
  · exact fun hall a ha => beq_iff_eq.mp (hall a (of_decide_eq_true ha))

instance (m' : MainMemory) : Decidable ((Program.ofList as m h0 h).In m') :=
  decidable_of_iff _ (Program.in_ofList_iff h0 h).symm

end List

/-- The program's view of the machine: `Seq` and what the operating system keeps. -/
structure Process (ω : Type*) where
  seq : Seq
  os : ω

namespace Process

variable {ω : Type*} (handler : Handler ω) (p : Process ω)

/-- What Decoder makes of the word at the program counter. -/
def controls : Controls := decode p.seq.word p.seq.held

/-- What the system call does, if the word is one. -/
def called : List (Reg × Word) × MainMemory × ω :=
  if p.controls.syscall then handler p.seq.registers.val p.seq.sim.mainMemory p.os
  else ([], p.seq.sim.mainMemory, p.os)

/-- The memory with its access. -/
def accessed : State :=
  cycle p.seq.executed { p.seq.sim with mainMemory := (p.called handler).2.1 }

/-- **One instruction**: its operands are read, the handler does what it does, and the
result and the access of the instruction follow. -/
def step : Process ω where
  seq := {
    pc := if p.seq.executed.requestAltPc then p.seq.executed.altAddr else p.seq.pc + 4
    registers := Seq.writeBack p.seq.executed (p.accessed handler).mem
      (p.seq.registers.writeAll (p.called handler).1)
    held := p.controls
    exe := p.seq.executed
    sim := p.accessed handler }
  os := (p.called handler).2.2

/-- After reset. -/
def start (m : MainMemory) (d : Word) (os : ω) : Process ω where
  seq := ⟨Fetch.bootVector, ⟨fun _ => 0, rfl⟩, 0, Exe.reset, ⟨m, d, Mem.reset⟩⟩
  os := os

/-- **What is no system call** is an instruction of the sequential machine. -/
theorem step_of_not_syscall (h : p.controls.syscall = false) :
    p.step handler = ⟨p.seq.step, p.os⟩ := by
  have hcalled : p.called handler = ([], p.seq.sim.mainMemory, p.os) :=
    if_neg (Bool.eq_false_iff.mp h)
  have haccessed : p.accessed handler = cycle p.seq.executed p.seq.sim := by
    rw [accessed, hcalled]
  rw [step, haccessed, hcalled]
  rfl

/-- What ID would hand to EXE. -/
def out : Id.Out :=
  p.seq.registers.view.issue p.seq.pc p.seq.word p.seq.held p.seq.mapC p.seq.mapC

/-- **The registers after an instruction**: what is written comes from EXE or from MEM. -/
theorem writeBack_val (hlink : p.controls.link = true → p.controls.regWrite = true)
    (r : Registers) (a : Reg) :
    (Seq.writeBack p.seq.executed (p.accessed handler).mem r).val a =
      if p.out.regWrite1Out = true ∧ p.out.writeRegister1Out = a then
        if Exe.broadcasts p.out then p.seq.executed.broadcastVal
        else (p.accessed handler).mem.writeData1Out
      else r.val a := by
  have hmem : (p.accessed handler).mem.regWrite1Out =
      if Exe.broadcasts p.out then false else p.out.regWrite1Out := rfl
  have hflag : p.seq.executed.broadcastFlag = Exe.broadcasts p.out := rfl
  have hreg : p.seq.executed.broadcastReg = p.out.writeRegister1Out := rfl
  have hmemReg : (p.accessed handler).mem.writeRegister1Out = p.out.writeRegister1Out := rfl
  have hnonzero : p.out.regWrite1Out = true → p.out.writeRegister1Out ≠ 0 := fun h =>
    bne_iff_ne.mp (Bool.and_eq_true_iff.mp h).1
  rw [Seq.writeBack, hflag, hreg, hmem, hmemReg]
  cases hb : Exe.broadcasts p.out with
  | true =>
    simp only [if_true, Bool.false_eq_true, if_false]
    by_cases hw : p.out.regWrite1Out = true
    · rw [Registers.val_write_of_ne _ _ (hnonzero hw)]
      exact if_congr ⟨fun h => ⟨hw, h.symm⟩, fun h => h.2.symm⟩ rfl rfl
    · -- a link to `$0` is broadcast all the same
      have hzero : p.out.writeRegister1Out = 0 := by
        by_contra hne
        rw [Exe.broadcasts, Bool.or_eq_true, Bool.and_eq_true, Bool.and_eq_true] at hb
        rcases hb with hb | hb
        · refine hw (Bool.and_eq_true_iff.mpr ⟨bne_iff_ne.mpr hne, hlink hb.2⟩)
        · exact hw hb.1
      rw [hzero, Registers.write_zero, if_neg fun h => hw h.1]
  | false =>
    simp only [Bool.false_eq_true, if_false]
    by_cases hw : p.out.regWrite1Out = true
    · rw [if_pos hw, Registers.val_write_of_ne _ _ (hnonzero hw)]
      exact if_congr ⟨fun h => ⟨hw, h.symm⟩, fun h => h.2.symm⟩ rfl rfl
    · rw [if_neg hw, if_neg fun h => hw h.1]

/-- The instruction takes a register from the free list. -/
def takes : Bool := Rename.allocates (Id.renameEntry p.seq.pc p.seq.word p.controls)

end Process

/-- A process with the number of registers taken since control was last redirected. -/
structure Counted (ω : Type*) extends Process ω where
  taken : ℕ

namespace Counted

variable {ω : Type*} (handler : Handler ω) (x : Counted ω)

def step : Counted ω where
  toProcess := x.toProcess.step handler
  taken := if x.seq.exe.take then 0 else x.taken + x.takes.toNat

def start (m : MainMemory) (d : Word) (os : ω) : Counted ω := ⟨Process.start m d os, 0⟩

/-- **What the core relies on** before an instruction. -/
structure Obeys (P : Program) (x : Counted ω) : Prop where
  room : x.taken < 32
  delaySlot : x.seq.exe.take = true → x.controls.memRead = false
  inside : ∀ j ≤ 19, P.code (x.seq.pc + BitVec.ofNat 32 (4 * j)) = true
  intact : P.In x.seq.sim.mainMemory

variable {handler x} {P : Program}

instance [Decidable (P.In x.seq.sim.mainMemory)] : Decidable (Obeys P x) :=
  decidable_of_iff (x.taken < 32 ∧ (x.seq.exe.take = true → x.controls.memRead = false) ∧
      (∀ j ≤ 19, P.code (x.seq.pc + BitVec.ofNat 32 (4 * j)) = true) ∧
      P.In x.seq.sim.mainMemory)
    ⟨fun ⟨hroom, hdelay, hinside, hintact⟩ => ⟨hroom, hdelay, hinside, hintact⟩,
      fun h => ⟨h.room, h.delaySlot, h.inside, h.intact⟩⟩

namespace Obeys

variable (h : Obeys P x)

include h

theorem code : P.code x.seq.pc = true := by
  have h0 := h.inside 0 (by omega)
  rwa [show x.seq.pc + BitVec.ofNat 32 (4 * 0) = x.seq.pc from BitVec.add_zero _] at h0

theorem pc_ne_zero : x.seq.pc ≠ 0 := P.ne_zero h.code

/-- The word at the program counter is the program's. -/
theorem word : x.seq.word = P.imem x.seq.pc := by
  rw [Seq.word, if_neg h.pc_ne_zero, h.intact _ h.code, P.imem_of_code h.code]

theorem legal : Sim.legal x.seq.word = true := h.word ▸ P.legal_imem _

theorem table : ∃ b, Decoder.table x.seq.word = some b ∧ x.controls = Controls.ofBits b := by
  have hlegal := h.legal
  simp only [Sim.legal, Bool.and_eq_true] at hlegal
  obtain ⟨b, hb⟩ := Option.isSome_iff_exists.mp hlegal.1.1.1.1.2
  exact ⟨b, hb, decode_of_table hb _⟩

/-- No store takes a register. -/
theorem not_regWrite (hm : x.controls.memWrite = true) : x.controls.regWrite = false := by
  obtain ⟨b, hb, hc⟩ := h.table
  have hlegal := h.legal
  simp only [Sim.legal, Bool.and_eq_true, Bool.not_eq_true'] at hlegal
  by_contra hr
  rw [Bool.not_eq_false] at hr
  have hsc := isSC_of_memWrite_regWrite hb (hc ▸ hm) (hc ▸ hr)
  exact Bool.false_ne_true (hlegal.2.symm.trans hsc)

theorem regWrite_of_link (hl : x.controls.link = true) : x.controls.regWrite = true := by
  obtain ⟨b, hb, hc⟩ := h.table
  rw [hc] at hl ⊢
  exact Decoder.regWrite_of_link hb hl

theorem kinds : kinds x.controls = true := by
  obtain ⟨b, hb, hc⟩ := h.table
  rw [hc]
  exact kinds_of_table hb

/-- Where control goes next. -/
theorem pc_step : (x.step handler).seq.pc =
    if x.seq.exe.take then x.seq.exe.addr else x.seq.pc + 4 := by
  have hreq : x.seq.executed.requestAltPc = x.seq.exe.take := if_pos h.pc_ne_zero
  have halt : x.seq.executed.altAddr = x.seq.exe.addr := if_pos h.pc_ne_zero
  show (if x.seq.executed.requestAltPc then x.seq.executed.altAddr else x.seq.pc + 4) = _
  rw [hreq, halt]

end Obeys

end Counted

end Sim
end OooProcessor
