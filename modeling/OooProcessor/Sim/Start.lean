/-
# From reset to the program

`main` loads a file, writes the boot vector, resets the core and runs.  The core carries out
the vector as any program (`Covers.obeys`), and issues the first instruction of the file with
`$29`, `$28` and `$31` loaded and everything else as it was; the instructions that follow
take the slots that they take by themselves (`main_starts`).  A program that calls `exit`
ends `main` with its status, no earlier, and with what it has written (`main_exits`).
-/

import OooProcessor.Sim.BootVector
import OooProcessor.Sim.Kept

namespace OooProcessor
namespace Sim

open Decoder Mips

section Words

theorem opcode_luiWord (r : Reg) (v : Word) :
    opcode (luiWord (BitVec.ofNat 32 r) v) = 0b001111 := by
  have hop : ∀ r : Reg, opcode (luiWord (BitVec.ofNat 32 r) 0) = 0b001111 := by decide
  rw [luiWord_eq, opcode_or, hop]

theorem opcode_oriWord (r : Reg) (v : Word) :
    opcode (oriWord (BitVec.ofNat 32 r) v) = 0b001101 := by
  have hop : ∀ r : Reg, opcode (oriWord (BitVec.ofNat 32 r) 0) = 0b001101 := by decide
  rw [oriWord_eq, opcode_or, hop]

/-- The instructions before JR are LUI and ORI. -/
theorem instructions_cases (ls : List (Reg × Word)) {k : ℕ} (hk : k < 2 * ls.length) :
    ∃ (r : Reg) (v : Word), (instructions ls).getD k 0 = luiWord (BitVec.ofNat 32 r) v ∨
      (instructions ls).getD k 0 = oriWord (BitVec.ofNat 32 r) v := by
  induction ls generalizing k with
  | nil => exact absurd hk (Nat.not_lt_zero k)
  | cons l ls ih =>
    rw [List.length_cons] at hk
    rcases k with _ | _ | k
    · exact ⟨l.1, l.2, .inl rfl⟩
    · exact ⟨l.1, l.2, .inr rfl⟩
    · exact ih (by omega)

end Words

section Passed

variable {ω : Type*} {p : Process ω} {regs : Registers}

/-- What a word of zeros is to Decoder. -/
theorem controls_zero (h : p.seq.word = 0) :
    p.controls.syscall = false ∧ p.controls.memRead = false ∧ p.takes = false := by
  have hc : p.controls = Controls.ofBits 0b0100000100001001100 := by
    rw [Process.controls, h]
    exact decode_of_table rfl _
  refine ⟨?_, ?_, ?_⟩
  · rw [hc]
    rfl
  · rw [hc]
    rfl
  · rw [Process.takes, h, hc]
    rfl

/-- An instruction of the ALU is no system call. -/
theorem syscall_arith (op : ArithOp) (h : op.form.encodes p.seq.word = true) :
    p.controls.syscall = false := by
  obtain ⟨b, hrow, hb⟩ : ∃ b, op.form.row = some b ∧ (Controls.ofBits b).syscall = false := by
    cases op <;> exact ⟨_, rfl, by decide⟩
  rw [Process.controls, decode_of_table (Form.table_of_encodes h hrow)]
  exact hb

/-- JR is none. -/
theorem syscall_jr (h : p.seq.word = 0x03E00008) : p.controls.syscall = false := by
  rw [Process.controls, h, decode_of_table (b := 0b0011000010011111000) rfl]
  rfl

/-- A word that does not jump or call, and takes no register if it is 0. -/
structure Plain (p : Process ω) (regs : Registers) : Prop where
  passes : p.seq.Passes regs
  syscall : p.controls.syscall = false
  takes : p.seq.word = 0 → p.takes = false

variable {m : MainMemory} {noopLoop i : ℕ} {ls : List (Reg × Word)}

/-- **The words before JR** are plain. -/
theorem At.plain (h : At m p.seq i regs) (hv : HoldsVector m noopLoop (instructions ls))
    (hi : i < 2 * ls.length * (noopLoop + 1)) (hpc : vectorAddr i ≠ 0) :
    (∃ regs', Plain p regs') ∧ (i % (noopLoop + 1) ≠ 0 → p.seq.word = 0) := by
  have hk : i / (noopLoop + 1) < 2 * ls.length :=
    Nat.div_lt_of_lt_mul (by rwa [Nat.mul_comm])
  have hword := hv.readWord_eq (k := i / (noopLoop + 1)) (j := i % (noopLoop + 1))
    (by rw [length_instructions]; omega) (Nat.le_of_lt_succ (Nat.mod_lt _ (Nat.succ_pos _)))
  rw [Nat.div_add_mod', ← h.word hpc] at hword
  refine ⟨?_, fun hne => by rw [hword, if_neg hne]⟩
  by_cases hj : i % (noopLoop + 1) = 0
  · rw [if_pos hj] at hword
    obtain ⟨r, v, hlui | hori⟩ := instructions_cases ls hk
    · have hop : opcode p.seq.word = 0b001111 := by rw [hword, hlui, opcode_luiWord]
      refine ⟨_, passes_lui r v (hword.trans hlui), syscall_arith .lui (beq_iff_eq.mpr hop), ?_⟩
      intro hzero
      rw [hzero] at hop
      exact absurd hop (by decide)
    · have hop : opcode p.seq.word = 0b001101 := by rw [hword, hori, opcode_oriWord]
      refine ⟨_, passes_ori r v (hword.trans hori), syscall_arith .ori (beq_iff_eq.mpr hop), ?_⟩
      intro hzero
      rw [hzero] at hop
      exact absurd hop (by decide)
  · rw [if_neg hj] at hword
    exact ⟨_, Seq.passes_zero hword, (controls_zero hword).1, fun _ => (controls_zero hword).2.2⟩

end Passed

/-- The program has all of the vector, with the words that IF may ask for behind it. -/
structure Covers (P : Program) (noopLoop : ℕ) (sp gp start : Word) (m : MainMemory) : Prop where
  code : ∀ i ≤ wordsToJump noopLoop gp + 20, P.code (vectorAddr i) = true
  intact : P.In (writeInitializationVector noopLoop sp gp start m)

section Vector

variable {ω : Type*} {handler : Handler ω} {P : Program} {noopLoop : ℕ} {sp gp start : Word}
  {m : MainMemory}

namespace Covers

variable (h : Covers P noopLoop sp gp start m)

include h

theorem nonzero {i : ℕ} (hi : i ≤ wordsToJump noopLoop gp + 20) : vectorAddr i ≠ 0 :=
  P.ne_zero (h.code i hi)

/-- A vector without an instruction at address 0 is shorter than the memory. -/
theorem words : (2 * loadCount gp + 2) * (noopLoop + 1) ≤ 2 ^ 30 := by
  by_contra hlong
  have hcount : 1 ≤ loadCount gp := by
    unfold loadCount
    split_ifs <;> omega
  have htwice : (2 * loadCount gp + 2) * (noopLoop + 1) ≤ 2 * wordsToJump noopLoop gp := by
    rw [wordsToJump, ← Nat.mul_assoc]
    exact Nat.mul_le_mul_right _ (by omega)
  refine h.nonzero (i := 0x10100000) (by omega) ?_
  decide

end Covers

/-- The process before word `i` of the vector. -/
structure Within (noopLoop : ℕ) (image : MainMemory) (os : ω) (i : ℕ) (x : Counted ω) : Prop where
  before : ∃ regs, At image x.seq i regs
  os : x.os = os
  taken : x.taken ≤ (i + noopLoop) / (noopLoop + 1)

variable {image : MainMemory} {os : ω} {x : Counted ω} {regs : Registers} {i : ℕ}

variable (handler) in
/-- **One word before JR.** -/
theorem Within.step {ls : List (Reg × Word)} (h : Within noopLoop image os i x)
    (hv : HoldsVector image noopLoop (instructions ls)) (hi : i < 2 * ls.length * (noopLoop + 1))
    (hpc : vectorAddr i ≠ 0) :
    (x.step handler).seq = x.seq.step ∧ Within noopLoop image os (i + 1) (x.step handler) := by
  obtain ⟨regs, hat⟩ := h.before
  obtain ⟨⟨regs', hplain⟩, hpadding⟩ := hat.plain (p := x.toProcess) hv hi hpc
  have hstep := Process.step_of_not_syscall handler x.toProcess hplain.syscall
  have hseq : (x.step handler).seq = x.seq.step := congrArg Process.seq hstep
  refine ⟨hseq, ⟨regs', ?_⟩, ?_, ?_⟩
  · rw [hseq]
    exact hat.pass hplain.passes
  · exact (congrArg Process.os hstep).trans h.os
  · have htaken : (x.step handler).taken = x.taken + x.takes.toNat := by
      show (if x.seq.exe.take then 0 else _) = _
      rw [hat.take, if_neg Bool.false_ne_true]
    have hbound := h.taken
    have hpos : 0 < noopLoop + 1 := Nat.succ_pos noopLoop
    rw [htaken, show i + 1 + noopLoop = i + (noopLoop + 1) by omega, Nat.add_div_right _ hpos]
    by_cases hj : i % (noopLoop + 1) = 0
    · have hsame : (i + noopLoop) / (noopLoop + 1) = i / (noopLoop + 1) := by
        obtain ⟨k, rfl⟩ := Nat.dvd_of_mod_eq_zero hj
        rw [Nat.mul_div_cancel_left _ hpos, Nat.add_comm, Nat.add_mul_div_left _ _ hpos,
          Nat.div_eq_of_lt (Nat.lt_succ_self noopLoop), Nat.zero_add]
      have hone := Bool.toNat_le x.takes
      rw [hsame] at hbound
      omega
    · have hmono : (i + noopLoop) / (noopLoop + 1) ≤ i / (noopLoop + 1) + 1 := by
        rw [← Nat.add_div_right _ hpos]
        exact Nat.div_le_div_right (by omega)
      rw [hplain.takes (hpadding hj)]
      exact hbound.trans hmono

/-- What the vector leaves, between reset and the program. -/
structure Entered (sp gp start : Word) (image : MainMemory) (os : ω) (x : Counted ω) : Prop where
  pc : x.seq.pc = start
  registers : ∀ r, x.seq.registers.val r = if r = 31 then start
    else if r = 28 ∧ gp ≠ 0xFFFFFFFF then gp else if r = 29 then sp else 0
  mainMemory : x.seq.sim.mainMemory = image
  os : x.os = os
  taken : x.taken = 0
  take : x.seq.exe.take = false
  hiLo : (x.seq.exe.hi, x.seq.exe.lo) = outs x.seq.exe.alu

/-- The process in the delay slot of JR. -/
structure Jumping (image : MainMemory) (os : ω) (i : ℕ) (regs : Registers) (x : Counted ω) :
    Prop where
  pc : x.seq.pc = vectorAddr i
  word : x.seq.word = 0
  registers : x.seq.registers = regs
  mainMemory : x.seq.sim.mainMemory = image
  os : x.os = os
  taken : x.taken ≤ 7
  take : x.seq.exe.take = true
  addr : x.seq.exe.addr = regs.val 31

/-- **JR.** -/
theorem Within.jump (hat : At image x.seq i regs) (hos : x.os = os) (htaken : x.taken ≤ 6)
    (hpc : vectorAddr i ≠ 0) (hpc' : vectorAddr (i + 1) ≠ 0)
    (hjr : readWord image (vectorAddr i) = 0x03E00008)
    (hslot : readWord image (vectorAddr (i + 1)) = 0) :
    Jumping image os (i + 1) regs (x.step handler) := by
  have hword : x.seq.word = 0x03E00008 := (hat.word hpc).trans hjr
  have hj : Jumps x.seq := jumps hword (by rwa [hat.pc])
  have hstep := Process.step_of_not_syscall handler x.toProcess (syscall_jr hword)
  have hseq : (x.step handler).seq = x.seq.step := congrArg Process.seq hstep
  have hnext : x.seq.step.pc = vectorAddr (i + 1) := by
    rw [Seq.pc_step, hat.take, hat.pc, if_neg (by simp), vectorAddr_succ]
  constructor
  · rw [hseq, hnext]
  · rw [hseq, Seq.word, hnext, if_neg hpc', hj.mainMemory, hat.mainMemory, hslot]
  · rw [hseq, hj.registers, hat.registers]
  · rw [hseq, hj.mainMemory, hat.mainMemory]
  · exact (congrArg Process.os hstep).trans hos
  · show (if x.seq.exe.take then 0 else x.taken + x.takes.toNat) ≤ 7
    rw [hat.take, if_neg Bool.false_ne_true]
    have hone := Bool.toNat_le x.takes
    omega
  · rw [hseq, hj.take]
  · rw [hseq, hj.addr, hat.registers]

/-- **Its delay slot.** -/
theorem Jumping.entered (h : Jumping image os i regs x) (hpc : vectorAddr i ≠ 0)
    (hregs : ∀ r, regs.val r = if r = 31 then start
      else if r = 28 ∧ gp ≠ 0xFFFFFFFF then gp else if r = 29 then sp else 0) :
    Entered sp gp start image os (x.step handler) := by
  have hstep := Process.step_of_not_syscall handler x.toProcess (controls_zero h.word).1
  have hseq : (x.step handler).seq = x.seq.step := congrArg Process.seq hstep
  have hp := Seq.passes_zero h.word
  have hne : x.seq.pc ≠ 0 := by rwa [h.pc]
  constructor
  · rw [hseq, Seq.pc_step, if_pos ⟨hne, h.take⟩, h.addr, hregs, if_pos rfl]
  · rw [hseq, hp.registers, h.registers]
    exact hregs
  · rw [hseq, hp.mainMemory, h.mainMemory]
  · exact (congrArg Process.os hstep).trans h.os
  · show (if x.seq.exe.take then 0 else _) = 0
    rw [h.take, if_pos rfl]
  · rw [hseq, hp.take, if_pos hne]
  · rfl

end Vector

/-- The process out of reset, with the vector in memory. -/
def booting {ω : Type*} (noopLoop : ℕ) (sp gp start : Word) (m : MainMemory) (d : Word) (os : ω) :
    Counted ω :=
  Counted.start (writeInitializationVector noopLoop sp gp start m) d os

namespace Covers

variable {ω : Type*} {P : Program} {noopLoop : ℕ} {sp gp start : Word} {m : MainMemory}
  (h : Covers P noopLoop sp gp start m) (handler : Handler ω) (d : Word) (os : ω)

include h

/-- The words before JR. -/
theorem within {i : ℕ} (hi : i ≤ wordsToJump noopLoop gp) :
    ((Counted.step handler)^[i] (booting noopLoop sp gp start m d os)).seq =
        Seq.step^[i] (booting noopLoop sp gp start m d os).seq ∧
      Within noopLoop (writeInitializationVector noopLoop sp gp start m) os i
        ((Counted.step handler)^[i] (booting noopLoop sp gp start m d os)) := by
  induction i with
  | zero => exact ⟨rfl, ⟨_, at_boot sp start ⟨fun _ => 0, rfl⟩ 0 ⟨m, d, Mem.reset⟩⟩, rfl,
      Nat.zero_le _⟩
  | succ i ih =>
    obtain ⟨hseq, hwithin⟩ := ih (by omega)
    have hlt : i < 2 * (loads sp gp start).length * (noopLoop + 1) := by
      rw [length_loads]
      exact hi
    obtain ⟨hseq', hwithin'⟩ := hwithin.step handler
      (vector_boot sp start ⟨fun _ => 0, rfl⟩ 0 ⟨m, d, Mem.reset⟩ h.words) hlt
      (h.nonzero (by omega))
    rw [Function.iterate_succ_apply', Function.iterate_succ_apply', ← hseq]
    exact ⟨hseq', hwithin'⟩

theorem taken_le {i : ℕ} (hi : i ≤ wordsToJump noopLoop gp) :
    ((Counted.step handler)^[i] (booting noopLoop sp gp start m d os)).taken ≤ 6 := by
  refine (h.within handler d os hi).2.taken.trans ?_
  have hcount : loadCount gp ≤ 3 := by
    unfold loadCount
    split_ifs <;> omega
  have hdiv : (i + noopLoop) / (noopLoop + 1) ≤ 2 * loadCount gp := by
    rw [wordsToJump] at hi
    refine Nat.le_of_lt_succ (Nat.div_lt_of_lt_mul ?_)
    rw [Nat.mul_succ, Nat.mul_comm]
    omega
  omega

/-- JR has passed. -/
theorem jumping : Jumping (writeInitializationVector noopLoop sp gp start m) os
    (wordsToJump noopLoop gp + 1)
    ((loads sp gp start).foldl (fun r l => r.write l.1 l.2) ⟨fun _ => 0, rfl⟩)
    ((Counted.step handler)^[wordsToJump noopLoop gp + 1]
      (booting noopLoop sp gp start m d os)) := by
  obtain ⟨hseq, hwithin⟩ := h.within handler d os le_rfl
  have hnonzero : ∀ k < 2 * loadCount gp, vectorAddr (k * (noopLoop + 1)) ≠ 0 := fun k hk =>
    h.nonzero (Nat.le_trans (Nat.mul_le_mul_right _ hk.le) (Nat.le_add_right _ 20))
  have hat := at_jump sp start ⟨fun _ => 0, rfl⟩ 0 ⟨m, d, Mem.reset⟩ h.words hnonzero
  rw [Function.iterate_succ_apply']
  refine Within.jump (hseq ▸ hat) hwithin.os (h.taken_le handler d os le_rfl)
    (h.nonzero (by omega)) (h.nonzero (by omega)) ?_ ?_
  · exact readWord_jr sp start ⟨fun _ => 0, rfl⟩ 0 ⟨m, d, Mem.reset⟩ h.words
  · exact readWord_slot sp start ⟨fun _ => 0, rfl⟩ 0 ⟨m, d, Mem.reset⟩ h.words

/-- **The program is entered.** -/
theorem entered : Entered sp gp start (writeInitializationVector noopLoop sp gp start m) os
    ((Counted.step handler)^[wordsToJump noopLoop gp + 2]
      (booting noopLoop sp gp start m d os)) := by
  rw [Function.iterate_succ_apply']
  exact (h.jumping handler d os).entered (h.nonzero (by omega)) fun r => val_foldl_loads ..

/-- **The vector obeys what the core relies on.** -/
theorem obeys {k : ℕ} (hk : k < wordsToJump noopLoop gp + 2) :
    ((Counted.step handler)^[k] (booting noopLoop sp gp start m d os)).Obeys P := by
  have hcode {i : ℕ} (hi : i ≤ wordsToJump noopLoop gp + 1) :
      ∀ j ≤ 19, P.code (vectorAddr i + BitVec.ofNat 32 (4 * j)) = true := by
    intro j hj
    rw [vectorAddr, BitVec.add_assoc, ← BitVec.ofNat_add, ← Nat.mul_add]
    exact h.code (i + j) (by omega)
  rcases Nat.lt_or_ge k (wordsToJump noopLoop gp + 1) with hlt | hge
  · have htaken := h.taken_le handler d os (Nat.le_of_lt_succ hlt)
    obtain ⟨regs, hat⟩ := (h.within handler d os (Nat.le_of_lt_succ hlt)).2.before
    refine ⟨by omega, fun ht => ?_, fun j hj => ?_, ?_⟩
    · rw [hat.take] at ht
      cases ht
    · rw [hat.pc]
      exact hcode hlt.le j hj
    · rw [hat.mainMemory]
      exact h.intact
  · obtain rfl : k = wordsToJump noopLoop gp + 1 := by omega
    have hjump := h.jumping handler d os
    refine ⟨Nat.lt_of_le_of_lt hjump.taken (by decide), fun _ => ?_, fun j hj => ?_, ?_⟩
    · exact (controls_zero hjump.word).2.1
    · rw [hjump.pc]
      exact hcode le_rfl j hj
    · rw [hjump.mainMemory]
      exact h.intact

/-- Every word of the vector takes a slot, and JR another one. -/
theorem issueSlot_add (j : ℕ) : issueSlot handler (booting noopLoop sp gp start m d os)
      (wordsToJump noopLoop gp + 2 + j) =
    wordsToJump noopLoop gp + 6 + Lib.spent (Counted.step handler) Counted.cost
      ((Counted.step handler)^[wordsToJump noopLoop gp + 2]
        (booting noopLoop sp gp start m d os)) j := by
  have hcost : ∀ i < wordsToJump noopLoop gp + 1, Counted.cost
      ((Counted.step handler)^[i] (booting noopLoop sp gp start m d os)) = 0 := by
    intro i hi
    obtain ⟨regs, hat⟩ := (h.within handler d os (Nat.le_of_lt_succ hi)).2.before
    rw [Counted.cost, hat.take]
    rfl
  have hlast : Counted.cost ((Counted.step handler)^[wordsToJump noopLoop gp + 1]
      (booting noopLoop sp gp start m d os)) = 1 := by
    rw [Counted.cost, (h.jumping handler d os).take]
    rfl
  rw [issueSlot, Lib.spent_add, Lib.spent, Lib.spent_of_cost_eq_zero hcost, hlast]
  omega

end Covers

section Main

variable {ω : Type*} {handler : Handler ω} {P : Program} {noopLoop : ℕ} {sp gp start : Word}
  {m : MainMemory}

/-- **`main` starts the program.**  The core carries out the vector, and finds the program
with its registers loaded; what it does from there on, it does in the slots that its
instructions take. -/
theorem main_starts (hz : SparesZero handler) (h : Covers P noopLoop sp gp start m) (d : Word)
    (os : ω) : ∃ x : Counted ω,
      Entered sp gp start (writeInitializationVector noopLoop sp gp start m) os x ∧
      ∀ j, (∀ k ≤ j, ((Counted.step handler)^[k] x).Obeys P) →
        let t := (System.boot (writeInitializationVector noopLoop sp gp start m) d os).run
          (services handler) (4 * (wordsToJump noopLoop gp + 6 +
            Lib.spent (Counted.step handler) Counted.cost x j))
        StandsFor P t ((Counted.step handler)^[j] x) ∧
          item t.core.renameQueueOut = (((Counted.step handler)^[j] x).seq.pc,
            P.imem ((Counted.step handler)^[j] x).seq.pc) := by
  refine ⟨_, h.entered handler d os, fun j hobeys => ?_⟩
  have hall : ∀ k ≤ wordsToJump noopLoop gp + 2 + j,
      ((Counted.step handler)^[k] (booting noopLoop sp gp start m d os)).Obeys P := by
    intro k hk
    rcases Nat.lt_or_ge k (wordsToJump noopLoop gp + 2) with hlt | hge
    · exact h.obeys handler d os hlt
    · obtain ⟨i, rfl⟩ := Nat.exists_eq_add_of_le hge
      rw [Nat.add_comm, Function.iterate_add_apply]
      exact hobeys i (by omega)
  have hissues := issues_slot hz hall
  have hslot : issueSlot handler
      (Counted.start (writeInitializationVector noopLoop sp gp start m) d os)
      (wordsToJump noopLoop gp + 2 + j) = _ := h.issueSlot_add handler d os j
  rw [hslot, Nat.add_comm (wordsToJump noopLoop gp + 2) j, Function.iterate_add_apply _ j]
    at hissues
  exact hissues

end Main

section Exit

variable {exec : ExecInfo} {host : HostCalls} {P : Program} {m : MainMemory} {d : Word} {os : Os}

/-- A run that has ended stays as it is. -/
theorem run_os_of_ended (t : System Os) {n : ℕ}
    (h : (t.run (services (switch exec host)) n).os.ended.isSome = true) {n' : ℕ} (hn : n ≤ n') :
    (t.run (services (switch exec host)) n').os = (t.run (services (switch exec host)) n).os := by
  obtain ⟨k, rfl⟩ := Nat.exists_eq_add_of_le hn
  obtain ⟨rs, hrs⟩ := t.exists_requests (services (switch exec host)) n k
  rw [System.os_run, hrs, List.foldl_append, ← System.os_run]
  exact after_of_ended h

/-- **`main` ends when its program does**: no cycle before the slot of the call that ends the
program finds `main` ended, and from the next slot on `main` has ended in the same way and
keeps what the program has left. -/
theorem main_exits {j : ℕ} (hobeys : ∀ k ≤ j + 1,
      ((Counted.step (switch exec host))^[k] (Counted.start m d os)).Obeys P)
    (hruns : ((Counted.step (switch exec host))^[j] (Counted.start m d os)).os.ended = none)
    (hends : ((Counted.step (switch exec host))^[j + 1]
      (Counted.start m d os)).os.ended.isSome = true) :
    (∀ n ≤ 4 * issueSlot (switch exec host) (Counted.start m d os) j,
      ((System.boot m d os).run (services (switch exec host)) n).os.ended = none) ∧
    ∀ n, 4 * issueSlot (switch exec host) (Counted.start m d os) (j + 1) ≤ n →
      ((System.boot m d os).run (services (switch exec host)) n).os =
        ((Counted.step (switch exec host))^[j + 1] (Counted.start m d os)).os := by
  have hbefore := (issues_slot sparesZero_switch
    (fun k hk => hobeys k (Nat.le_succ_of_le hk))).1.os
  have hafter := (issues_slot sparesZero_switch hobeys).1.os
  constructor
  · intro n hn
    by_contra hended
    have hsame := run_os_of_ended _ (Option.ne_none_iff_isSome.mp hended) hn
    rw [hbefore] at hsame
    exact hended (hsame ▸ hruns)
  · intro n hn
    rw [run_os_of_ended _ (hafter ▸ hends) hn, hafter]

/-- `addiu $2,$0,4001; addiu $4,$0,7; syscall` -/
def exiting : MainMemory := atVector [0x24020FA1, 0x24040007, 0x0000000C]

def exitingProgram : Program := .ofList callingCode exiting
  above_callingCode (by decide +kernel)

instance (m : MainMemory) : Decidable (exitingProgram.In m) :=
  inferInstanceAs (Decidable ((Program.ofList callingCode exiting _ _).In m))

/-- It ends `main` in slot 6, with the status 7. -/
theorem main_exits_exiting :
    ((System.boot exiting 0 (Os.init [] fun _ => [])).run
      (services (switch ⟨0, 0, 0, 0, 0, none⟩ .silent)) 20).os.ended = none ∧
    ((System.boot exiting 0 (Os.init [] fun _ => [])).run
      (services (switch ⟨0, 0, 0, 0, 0, none⟩ .silent)) 1000).os.ended = some (.exit 7) := by
  have hobeys : ∀ k ≤ 3, ((Counted.step (switch ⟨0, 0, 0, 0, 0, none⟩ .silent))^[k]
      (Counted.start exiting 0 (Os.init [] fun _ => []))).Obeys exitingProgram := by
    decide +kernel
  obtain ⟨hbefore, hafter⟩ := main_exits (j := 2) hobeys (by decide +kernel) (by decide +kernel)
  have hslot : issueSlot (switch ⟨0, 0, 0, 0, 0, none⟩ .silent)
      (Counted.start exiting 0 (Os.init [] fun _ => [])) 2 = 5 := by decide +kernel
  have hslot' : issueSlot (switch ⟨0, 0, 0, 0, 0, none⟩ .silent)
      (Counted.start exiting 0 (Os.init [] fun _ => [])) 3 = 6 := by decide +kernel
  refine ⟨hbefore 20 (by rw [hslot]), ?_⟩
  refine (congrArg Os.ended (hafter 1000 (by rw [hslot']; decide))).trans ?_
  decide +kernel

end Exit

end Sim
end OooProcessor
