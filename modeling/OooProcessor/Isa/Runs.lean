/-
# `main` executes MIPS

The core in the main loop runs a program as MIPS has it: whenever an instruction is issued,
the registers, HI and LO, the memory and the operating system are those of the program, and
the slot is known (`Leads`), whether the program stands at the reset address (`main_executes`) or
`main` has loaded it and written the boot vector (`main_runs`).  All that is asked of the
program is said of its run in MIPS (`Tame`).
-/

import OooProcessor.Isa.Transfers
import OooProcessor.Sim.Start

namespace OooProcessor
namespace Isa

open Decoder Lib Mips Sim

variable {ω : Type*} {handler : Handler ω} {s : State ω} {p : Process ω}

section Takes

/-- The row of the instruction writes a register, and loads. -/
def Flags (p : Process ω) (writes loads : Bool) : Prop :=
  p.controls.regWrite = writes ∧ p.controls.memRead = loads

theorem flags_of_computes {f : Form} {signed : Bool} {g : Operands → Word}
    (hg : Computes f signed g) (hw : f.encodes p.seq.word = true) : Flags p true false := by
  obtain ⟨b, hrow, hp, -⟩ := hg
  have hc : p.controls = Controls.ofBits b := decode_of_table (Form.table_of_encodes hw hrow) _
  simp only [plain, Bool.and_eq_true, Bool.not_eq_true'] at hp
  obtain ⟨⟨⟨-, hload⟩, hwrite⟩, -⟩ := hp
  exact ⟨hc ▸ hwrite, hc ▸ hload⟩

theorem flags_hiLo {op : HiLoOp} (hw : op.form.encodes p.seq.word = true) :
    Flags p false false := by
  obtain ⟨b, hrow, hwrite, hload⟩ : ∃ b, op.form.row = some b ∧
      (Controls.ofBits b).regWrite = false ∧ (Controls.ofBits b).memRead = false := by
    cases op <;> exact ⟨_, rfl, by decide⟩
  have hc : p.controls = Controls.ofBits b := decode_of_table (Form.table_of_encodes hw hrow) _
  exact ⟨hc ▸ hwrite, hc ▸ hload⟩

theorem flags_memory {op : MemOp} (hop : opcode p.seq.word = op.opcode) :
    Flags p (!isStore op) (!isStore op) := by
  have hc : p.controls = op.controls := MemOp.decode_eq hop _
  exact ⟨hc ▸ (accessRow op).regWrite, hc ▸ (accessRow op).memRead⟩

theorem flags_transfer {op : TransferOp} (hw : op.encodes p.seq.word = true) :
    Flags p (op.link p.seq.word).isSome false := by
  have hc : p.controls = Controls.ofBits op.row := decode_of_table (TransferOp.table_eq hw) _
  rw [Flags, hc]
  cases op <;> exact ⟨rfl, rfl⟩

theorem flags_syscall (hw : isSyscall p.seq.word = true) : Flags p true false := by
  have hc : p.controls = Controls.ofBits 0b0000001101100001100 :=
    decode_of_table (table_of_isSyscall hw) _
  rw [Flags, hc]
  exact ⟨rfl, rfl⟩

/-- An instruction that writes a register takes one, unless the word is 0. -/
theorem Flags.takes {writes loads : Bool} (h : Flags p writes loads) :
    p.takes = (writes && p.seq.word != 0 || loads) := by
  show (p.controls.regWrite && p.seq.word != 0 || p.controls.memRead) = _
  rw [h.1, h.2]

/-- **What an instruction takes and whether it loads** is as MIPS has it. -/
theorem takes_of_instrOf (h : Implements p s) (hpc : p.seq.pc ≠ 0) {i : Instr}
    (hi : instrOf s.word = some i) : p.takes = i.takes s ∧ p.controls.memRead = i.isLoad := by
  have hword := h.word hpc
  have hw := encodes_of_instrOf hi
  rw [← hword] at hw
  have hplain (hf : Flags p true false) :
      p.takes = (s.word != 0) ∧ p.controls.memRead = false := by
    rw [hf.takes, hword, Bool.true_and, Bool.or_false]
    exact ⟨rfl, hf.2⟩
  cases i with
  | arith op => exact hplain (flags_of_computes op.computes hw)
  | setLess op => exact hplain (flags_of_computes op.computes hw)
  | shift op => exact hplain (flags_of_computes op.computes hw)
  | fromHi => exact hplain (flags_of_computes mfhi_computes hw)
  | fromLo => exact hplain (flags_of_computes mflo_computes hw)
  | syscall => exact hplain (flags_syscall hw)
  | hiLo op =>
    have hf := flags_hiLo hw
    exact ⟨hf.takes, hf.2⟩
  | memory op =>
    have hf := flags_memory (beq_iff_eq.mp hw)
    refine ⟨hf.takes.trans ?_, hf.2⟩
    cases hstore : isStore op with
    | true => rw [Instr.takes, hstore]; rfl
    | false => rw [Instr.takes, hstore]; exact Bool.or_true _
  | transfer op =>
    have hf := flags_transfer hw
    have hne : p.seq.word ≠ 0 := by
      intro hzero
      rw [hzero] at hw
      cases op <;> exact absurd hw (by decide)
    refine ⟨hf.takes.trans ?_, hf.2⟩
    rw [bne_iff_ne.mpr hne, Bool.and_true, Bool.or_false, hword]
    rfl

end Takes

section Run

variable {P : Program} {x : Counted ω} {n : ℕ}

/-- Reset. -/
theorem implements_start (m : MainMemory) (d : Word) (os : ω) :
    Implements (Process.start m d os) (State.start m os) where
  pc := rfl
  npc := rfl
  inSlot := rfl
  registers := rfl
  hiLo := agrees_none
  alu := rfl
  memory := rfl
  os := rfl

theorem Tame.pc_ne_zero (ht : Tame P s n) : s.pc ≠ 0 := by
  have h0 := ht.inside 0 (Nat.zero_le 19)
  rw [show s.pc + BitVec.ofNat 32 (4 * 0) = s.pc from BitVec.add_zero _] at h0
  exact P.ne_zero h0

/-- A tame program obeys what the core relies on. -/
theorem Tame.obeys (ht : Tame P s n) (h : Implements x.toProcess s) (hn : x.taken = n) :
    x.Obeys P := by
  obtain ⟨i, hi, -⟩ := ht.sound
  have hpc : x.seq.pc ≠ 0 := h.pc ▸ ht.pc_ne_zero
  refine ⟨hn ▸ ht.room, fun htake => ?_, fun j hj => ?_, ?_⟩
  · have hload := ht.delaySlot (h.inSlot ▸ htake)
    rw [hi, Option.any_some] at hload
    exact (takes_of_instrOf h hpc hi).2.trans hload
  · rw [h.pc]
    exact ht.inside j hj
  · rw [h.memory]
    exact ht.intact

/-- **One instruction**, with the registers taken. -/
theorem Tame.step (ht : Tame P s n) (h : Implements x.toProcess s) (hn : x.taken = n) :
    Implements (x.step handler).toProcess (s.step handler) ∧ (x.step handler).taken =
      if s.inSlot then 0 else n + ((instrOf s.word).any (·.takes s)).toNat := by
  have hpc : x.seq.pc ≠ 0 := h.pc ▸ ht.pc_ne_zero
  refine ⟨implements_step h hpc ht.sound, ?_⟩
  obtain ⟨i, hi, -⟩ := ht.sound
  show (if x.seq.exe.take then 0 else x.taken + x.takes.toNat) = _
  rw [h.inSlot, hn, (takes_of_instrOf h hpc hi).1, hi, Option.any_some]

/-- **The sequential machine runs the program**, by induction on the instructions. -/
theorem implements_run (h : Implements x.toProcess s) (hn : x.taken = 0) {k : ℕ}
    (ht : ∀ i < k, Tame P ((State.step handler)^[i] s) (takenAt handler s i)) :
    Implements ((Counted.step handler)^[k] x).toProcess ((State.step handler)^[k] s) ∧
      ((Counted.step handler)^[k] x).taken = takenAt handler s k := by
  induction k with
  | zero => exact ⟨h, hn⟩
  | succ k ih =>
    obtain ⟨hk, hnk⟩ := ih fun i hi => ht i (Nat.lt_succ_of_lt hi)
    rw [Function.iterate_succ_apply', Function.iterate_succ_apply']
    exact (ht k (Nat.lt_succ_self k)).step hk hnk

end Run

section Main

variable (handler) in
/-- `k` instructions lead from a state to another, in `n` slots: one for each, and one for
every delay slot of a transfer that is taken. -/
abbrev Leads (k n : ℕ) (s t : State ω) : Prop :=
  Lib.Leads (State.step handler) (fun t => t.inSlot.toNat) k n s t

/-- What the core and `main` have of a state when its instruction is issued. -/
structure Shows (t : System ω) (s : State ω) : Prop where
  registers : ∀ r, t.core.regValue r = s.registers.val r
  hiLo : Agrees s.hiLo (t.core.exe.hi, t.core.exe.lo)
  memory : t.mainMemory = s.memory
  os : t.os = s.os
  issued : item t.core.renameQueueOut = (s.pc, s.word)

variable {P : Program} {x : Counted ω} {t : State ω} {j n : ℕ}

theorem shows_of_standsFor {y : System ω} (hstands : StandsFor P y x)
    (hissued : item y.core.renameQueueOut = (x.seq.pc, P.imem x.seq.pc))
    (h : Implements x.toProcess s) (hobeys : x.Obeys P) : Shows y s := by
  refine ⟨fun r => ?_, ?_, ?_, ?_, ?_⟩
  · rw [hstands.registers, h.registers]
  · rw [hstands.exe.hiLo, hstands.exe.outs, ← hstands.exe.hiLo']
    exact h.hiLo
  · exact hstands.memory.mainMemory.trans h.memory
  · exact hstands.os.trans h.os
  · have hword := h.word hobeys.pc_ne_zero
    rw [hissued, ← hobeys.word, hword, h.pc]

section Tamed

variable (h : Implements x.toProcess s) (hn : x.taken = 0)
  (ht : ∀ k ≤ j, Tame P ((State.step handler)^[k] s) (takenAt handler s k))

include h hn ht

/-- What a tame run is for the sequential machine. -/
theorem tamed {k : ℕ} (hk : k ≤ j) :
    Implements ((Counted.step handler)^[k] x).toProcess ((State.step handler)^[k] s) ∧
      ((Counted.step handler)^[k] x).Obeys P := by
  obtain ⟨hstep, hnk⟩ := implements_run h hn fun i hi => ht i (Nat.le_of_lt (hi.trans_le hk))
  exact ⟨hstep, (ht k hk).obeys hstep hnk⟩

/-- The slots that it takes. -/
theorem spent_eq : Lib.spent (Counted.step handler) Counted.cost x j =
    Lib.spent (State.step handler) (fun t => t.inSlot.toNat) s j :=
  Lib.spent_congr fun _ hk => congrArg Bool.toNat (tamed h hn ht hk.le).1.inSlot

end Tamed

variable {m : MainMemory} {d : Word} {os : ω}

/-- **`main` executes MIPS**: where a program leads in MIPS in some slots, `main` is three
slots later, if the program is tame on the way. -/
theorem main_executes (hz : SparesZero handler)
    (ht : ∀ k ≤ j, Tame P ((State.step handler)^[k] (State.start m os))
      (takenAt handler (State.start m os) k))
    (hrun : Leads handler j n (State.start m os) t) :
    Shows ((System.boot m d os).run (services handler) (4 * (3 + n))) t := by
  have hstart : Implements (Counted.start m d os).toProcess (State.start m os) :=
    implements_start m d os
  obtain ⟨h, hobeys⟩ := tamed hstart rfl ht le_rfl
  obtain ⟨hstands, hissued⟩ := issues_slot hz fun k hk => (tamed hstart rfl ht hk).2
  rw [issueSlot, spent_eq hstart rfl ht, hrun.spent] at hstands hissued
  rw [← hrun.iterate]
  exact shows_of_standsFor hstands hissued h hobeys

theorem tame_calling : ∀ k ≤ 9, Tame callingProgram
    ((State.step successor)^[k] (State.start calling 0))
    (takenAt successor (State.start calling 0) k) := by
  decide +kernel

/-- The second time around `$9` holds what the call returned in MIPS, and so in slot 13. -/
theorem main_executes_calling :
    ((System.boot calling 0 0).run (services successor) (4 * 13)).core.regValue 9 = 42 ∧
      item ((System.boot calling 0 0).run (services successor) (4 * 13)).core.renameQueueOut =
        (Fetch.bootVector + 8, 0x00404021) := by
  have hrun : Leads successor 9 10 (State.start calling 0)
      ((State.step successor)^[9] (State.start calling 0)) := ⟨rfl, by decide +kernel⟩
  have h := main_executes (d := 0) sparesZero_successor tame_calling hrun
  exact ⟨(h.registers 9).trans (by decide +kernel), h.issued.trans (by decide +kernel)⟩

variable {noopLoop : ℕ} {sp gp start : Word}

/-- The program as the boot vector leaves it: with `$29`, `$28` and `$31` loaded. -/
def State.booted (noopLoop : ℕ) (sp gp start : Word) (m : MainMemory) (os : ω) : State ω where
  pc := start
  npc := start + 4
  inSlot := false
  registers :=
    { val := fun r => if r = 31 then start
        else if r = 28 ∧ gp ≠ 0xFFFFFFFF then gp else if r = 29 then sp else 0
      zero := rfl }
  hiLo := ⟨none, none⟩
  memory := writeInitializationVector noopLoop sp gp start m
  os := os

theorem implements_booted
    (h : Entered sp gp start (writeInitializationVector noopLoop sp gp start m) os x) :
    Implements x.toProcess (State.booted noopLoop sp gp start m os) := by
  refine ⟨h.pc, ?_, h.take, funext h.registers, agrees_none, h.hiLo, h.mainMemory, h.os⟩
  rw [h.take, h.pc]
  rfl

/-- **`main` runs the program** that it has loaded: where this leads in MIPS from its entry
on, `main` is as many slots behind those of the boot vector, if it is tame on the way. -/
theorem main_runs (hz : SparesZero handler) (h : Covers P noopLoop sp gp start m)
    (ht : ∀ k ≤ j, Tame P ((State.step handler)^[k] (State.booted noopLoop sp gp start m os))
      (takenAt handler (State.booted noopLoop sp gp start m os) k))
    (hrun : Leads handler j n (State.booted noopLoop sp gp start m os) t) :
    Shows ((System.boot (writeInitializationVector noopLoop sp gp start m) d os).run
      (services handler) (4 * (wordsToJump noopLoop gp + 6 + n))) t := by
  obtain ⟨x, hx, hstarts⟩ := main_starts hz h d os
  have hbooted := implements_booted hx
  obtain ⟨himp, hobeys⟩ := tamed hbooted hx.taken ht le_rfl
  obtain ⟨hstands, hissued⟩ := hstarts j fun k hk => (tamed hbooted hx.taken ht hk).2
  rw [spent_eq hbooted hx.taken ht, hrun.spent] at hstands hissued
  rw [← hrun.iterate]
  exact shows_of_standsFor hstands hissued himp hobeys

/-- The vector without padding, and 32 words more. -/
def circlingCode : List Word := (List.range 40).map vectorAddr

/-- `addu $8,$28,$29; jr $31; nop`, behind a vector without padding. -/
def circling : MainMemory := atVector (List.replicate 8 0 ++ [0x039D4021, 0x03E00008])

def circlingProgram : Program :=
  .ofList circlingCode (writeInitializationVector 0 0x100 0x200 (vectorAddr 8) circling)
    (by decide +kernel) (by decide +kernel)

instance (m : MainMemory) : Decidable (circlingProgram.In m) :=
  inferInstanceAs (Decidable ((Program.ofList circlingCode _ _ _).In m))

/-- It jumps to its first word, which `$31` has, and comes to JR again in slot 17. -/
theorem main_runs_circling :
    let t := (System.boot (writeInitializationVector 0 0x100 0x200 (vectorAddr 8) circling) 0
      0).run (services successor) (4 * 17)
    t.core.regValue 8 = 0x300 ∧ item t.core.renameQueueOut = (vectorAddr 9, 0x03E00008) := by
  have hcovers : Covers circlingProgram 0 0x100 0x200 (vectorAddr 8) circling :=
    ⟨by decide +kernel, fun a _ => rfl⟩
  have ht : ∀ k ≤ 4, Tame circlingProgram
      ((State.step successor)^[k] (State.booted 0 0x100 0x200 (vectorAddr 8) circling 0))
      (takenAt successor (State.booted 0 0x100 0x200 (vectorAddr 8) circling 0) k) := by
    decide +kernel
  have hrun : Leads successor 4 5 (State.booted 0 0x100 0x200 (vectorAddr 8) circling 0)
      ((State.step successor)^[4] (State.booted 0 0x100 0x200 (vectorAddr 8) circling 0)) :=
    ⟨rfl, by decide +kernel⟩
  have h := main_runs (d := 0) sparesZero_successor hcovers ht hrun
  exact ⟨(h.registers 8).trans (by decide +kernel), h.issued.trans (by decide +kernel)⟩

end Main

end Isa
end OooProcessor
