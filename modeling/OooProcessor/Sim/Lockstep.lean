/-
# One issue slot against one instruction

The core with its memory before an issue slot stands for a state of the program
(`StandsFor`): the instructions in flight are those from its program counter on, its
registers are behind FRAT, EXE keeps what it keeps, and the memory is the same.  Here the
words the core is given are a program's whatever is in the memory (`fixed`).

A slot that finds the next instruction in flight does what the program does
(`Lockstep.step`), and one that finds a bubble does nothing (`Lockstep.bubble`).
-/

import OooProcessor.Core.Progress
import OooProcessor.Core.Redirect
import OooProcessor.Sim.Process

namespace OooProcessor
namespace Sim

open Decoder Mips

variable {ω : Type*} (P : Program) (handler : Handler ω)

/-- **The state of the core and its memory before a slot stands for one of the program.** -/
structure StandsFor (s : System ω) (x : Counted ω) : Prop where
  chain : Chain P.imem x.seq.pc (inFlight s.core) s.core.fetch.instrPcPlus4
  registers : ∀ a, s.core.regValue a = x.seq.registers.val a
  exe : ExeAlike s.core.exe x.seq.exe
  fresh : Fresh s.core x.taken
  memory : Same s.sim x.seq.sim
  os : s.os = x.os

/-- A system whose words are the program's, whatever is in the memory. -/
def fixed : Services ω := ⟨fun _ a => P.imem a, handler⟩

/-- No system call writes `$0`. -/
def SparesZero : Prop := ∀ regs m os, ∀ w ∈ (handler regs m os).1, w.1 ≠ 0

/-- It stands for one, and the instructions executed before lead up to that. -/
structure Lockstep (s : System ω) (n : ℕ) (x : Counted ω) : Prop where
  standsFor : StandsFor P (s.run (fixed P handler) n) x
  aligned : Aligned (s.env (fixed P handler)) P.imem n
  pc : rule (history (s.env (fixed P handler)) n) = x.seq.pc

variable {P handler} {s : System ω} {n : ℕ} {x : Counted ω}

section Environment

/-- The core's words are the program's. -/
theorem fetches_fixed (hs : s.core = Mips.reset) :
    Fetches (s.env (fixed P handler)) P.imem := by
  intro n
  show P.imem (s.run (fixed P handler) n).core.instrAddress2IM = _
  rw [System.core_run _ hs]

theorem legal_fetched (n : ℕ) : legal (fetched (s.env (fixed P handler)) n) = true :=
  P.legal_imem _

theorem noCop1_fixed : NoCop1 (s.env (fixed P handler)) := by
  intro n
  have hlegal : legal (fetched (s.env (fixed P handler)) n) = true := legal_fetched n
  simp only [legal, Bool.and_eq_true, Bool.not_eq_true'] at hlegal
  exact ⟨hlegal.1.1.2, hlegal.1.1.1.2⟩

theorem sysWritesNonzero_fixed (hz : SparesZero handler) :
    SysWritesNonzero (s.env (fixed P handler)) := by
  intro n w hw
  have hw' : w ∈ ((s.high (fixed P handler) n).called (fixed P handler)).1 := hw
  unfold System.called at hw'
  split_ifs at hw'
  · exact hz _ _ _ w hw'
  · exact absurd hw' List.not_mem_nil

/-- `read_register` finds the value behind the name. -/
theorem readRegister_high (hz : SparesZero handler) (hn : n % 4 = 0) :
    System.readRegister (Mips.high (s.env (fixed P handler)) n) =
      (Mips.run (s.env (fixed P handler)) n).regValue := by
  funext a
  have hcop1 : NoCop1 (s.env (fixed P handler)) := noCop1_fixed
  have hmap := frat_eq_rrat hcop1 n hn
  show (if a = 0 then 0 else (Mips.run _ n).physReg.arr ((Mips.run _ n).rrat.arr a)) = _
  rw [regValue, ← hmap]
  split_ifs with h0
  · rw [h0, frat_zero]
    exact (physReg_zero (sysWritesNonzero_fixed hz) n).symm
  · rfl

end Environment

section Instruction

/-- The entry of the next instruction. -/
theorem Counted.Obeys.entry {env : ℕ → Mips → Input} (hx : Counted.Obeys P x)
    (hitem : item (Mips.run env n).renameQueueOut = (x.seq.pc, P.imem x.seq.pc)) :
    (Mips.run env n).renameQueueOut = Id.renameEntry x.seq.pc x.seq.word x.controls := by
  obtain ⟨b, hb, hc⟩ := hx.table
  have hpc := congrArg Prod.fst hitem
  have hword := congrArg Prod.snd hitem
  rcases entry_renameQueueOut env (S := fun _ => True) trivial (fun _ => trivial) n with
    hzero | ⟨pc, w, c, -, -, hentry⟩
  · rw [hzero] at hpc
    exact absurd hpc.symm hx.pc_ne_zero
  · rw [hentry] at hpc hword ⊢
    obtain rfl : pc = x.seq.pc := hpc
    obtain rfl : w = x.seq.word := hword.trans hx.word.symm
    rw [decode_of_table hb, hc]

variable (hs : s.core = Mips.reset) (hz : SparesZero handler) (hn : n % 4 = 0)
  (h : Lockstep P handler s n x) (hx : Counted.Obeys P x)

include hs hn h hx

variable (hitem : item (Mips.run (s.env (fixed P handler)) n).renameQueueOut =
  (x.seq.pc, P.imem x.seq.pc))

include hitem

include hz in
/-- The handler is called alike. -/
theorem Lockstep.called : (s.high (fixed P handler) n).called (fixed P handler) =
    x.toProcess.called handler := by
  have hregs : (Mips.run (s.env (fixed P handler)) n).regValue = x.seq.registers.val := by
    funext a
    rw [← System.core_run _ hs]
    exact h.standsFor.registers a
  have hsys : (Mips.run (s.env (fixed P handler)) n).renameQueueOut.controls.syscall =
      x.controls.syscall := by
    rw [hx.entry hitem]
    rfl
  have hmem : (s.run (fixed P handler) n).mainMemory = x.seq.sim.mainMemory :=
    h.standsFor.memory.mainMemory
  rw [System.called_slot _ hs hn, hsys, readRegister_high hz hn, hregs, hmem, h.standsFor.os]
  rfl

/-- EXE does alike. -/
theorem Lockstep.executed :
    ExeAlike (Mips.run (s.env (fixed P handler)) (n + 4)).exe x.seq.executed ∧
      ResultAlike (Mips.run (s.env (fixed P handler)) (n + 2)).exe x.seq.executed ∧
      OutAlike (issued (s.env (fixed P handler)) n) x.toProcess.out ∧
      Exe.broadcasts (issued (s.env (fixed P handler)) n) = Exe.broadcasts x.toProcess.out := by
  have hentry := hx.entry hitem
  have hexe := h.standsFor.exe
  have hread (a : Reg) : (Mips.run (s.env (fixed P handler)) n).regValue a =
      x.seq.registers.view.read a := by
    rw [Registers.read_view, ← System.core_run _ hs]
    exact h.standsFor.registers a
  have hout := issued_alike x.seq.registers.view hn hread hentry rfl hx.not_regWrite rfl
  have hkinds : kinds (Mips.run (s.env (fixed P handler)) n).renameQueueOut.controls = true := by
    rw [hentry]
    exact hx.kinds
  rw [System.core_run _ hs] at hexe
  obtain ⟨h4, h2⟩ := hexe.slot hn hout hkinds
  rw [issued_eq _ hn]
  exact ⟨h4, h2, hout, (requestAltPc1_alike hout).2.2⟩

include hz in
/-- The access is alike, and so is what a load brings back. -/
theorem Lockstep.accessed :
    Same (s.run (fixed P handler) (n + 4)).sim (x.toProcess.accessed handler) ∧
      ((Mips.run (s.env (fixed P handler)) (n + 2)).exe.regWrite1Out = true →
        (Mips.run (s.env (fixed P handler)) (n + 3)).mem.writeData1Out =
          (x.toProcess.accessed handler).mem.writeData1Out) := by
  obtain ⟨-, hresult, -⟩ := h.executed hs hn hx hitem
  have hcalled := congrArg (fun c => c.2.1) (h.called hs hz hn hx hitem)
  have hone := System.same_one _ hs hn hcalled h.standsFor.memory
  have hthree := System.run_three (fixed P handler) hs hn
  have hfour := System.run_four (fixed P handler) hs hn
  have hdata : (Mips.run (s.env (fixed P handler)) (n + 3)).mem.writeData1Out =
      (s.run (fixed P handler) (n + 3)).sim.mem.writeData1Out := by
    rw [← System.core_run _ hs]
    rfl
  rw [hdata]
  rw [hthree] at hfour ⊢
  rcases hresult.access with hasks | ⟨hidle, hidle', hw⟩
  · obtain ⟨hsame, hload⟩ := hone.cycle hasks
    exact ⟨hfour.trans hsame, fun _ => hload⟩
  · refine ⟨hfour.trans ((hidle.cycle _).trans (hone.trans (hidle'.cycle _).symm)), fun h => ?_⟩
    exact absurd (hw.symm.trans h) (by decide)

include hz in
/-- The registers are alike. -/
theorem Lockstep.registers (a : Reg) : (s.run (fixed P handler) (n + 4)).core.regValue a =
    (x.step handler).seq.registers.val a := by
  obtain ⟨-, hresult, hout, hbroadcasts⟩ := h.executed hs hn hx hitem
  obtain ⟨-, hload⟩ := h.accessed hs hz hn hx hitem
  have hfresh := h.standsFor.fresh
  have hregs : (Mips.run (s.env (fixed P handler)) n).regValue = x.seq.registers.val := by
    funext a
    rw [← System.core_run _ hs]
    exact h.standsFor.registers a
  have hwrites : (machine.input (s.env (fixed P handler)) n).sysWrites =
      (x.toProcess.called handler).1 :=
    congrArg Prod.fst (h.called hs hz hn hx hitem)
  have hsys : (Mips.run (s.env (fixed P handler)) n).renameQueueOut.controls.syscall =
      x.controls.syscall := by
    rw [hx.entry hitem]
    rfl
  have hnonzero : ∀ w ∈ (x.toProcess.called handler).1, w.1 ≠ 0 := by
    intro w hw
    unfold Process.called at hw
    split_ifs at hw
    · exact hz _ _ _ w hw
    · exact absurd hw List.not_mem_nil
  -- what neither EXE nor MEM writes is what the handler leaves
  have hkept : (if x.controls.syscall then
      sysWritten (x.toProcess.called handler).1 x.seq.registers.val a
      else x.seq.registers.val a) =
        (x.seq.registers.writeAll (x.toProcess.called handler).1).val a := by
    rw [Registers.val_writeAll hnonzero]
    split_ifs with hc
    · rfl
    · rw [Process.called, if_neg hc]
      rfl
  have hwritten : WritesReg (s.env (fixed P handler)) n a ↔
      x.toProcess.out.regWrite1Out = true ∧ x.toProcess.out.writeRegister1Out = a := by
    rw [WritesReg, hout.regWrite, hout.writeRegister]
  rw [System.core_run _ hs] at hfresh ⊢
  rw [regValue_four hn noCop1_fixed hfresh hx.room, hregs, hwrites, hsys, hkept, Counted.step,
    Process.step, Process.writeBack_val handler _ hx.regWrite_of_link]
  refine if_ctx_congr hwritten (fun hw => ?_) fun _ => rfl
  rw [result, broadcastFlag_two, hbroadcasts]
  cases hb : Exe.broadcasts x.toProcess.out with
  | true => exact hresult.broadcastVal (hbroadcasts.trans hb)
  | false =>
    refine hload ?_
    show (if Exe.broadcasts (issued _ n) then false else (issued _ n).regWrite1Out) = true
    rw [hbroadcasts, hb, hout.regWrite]
    exact hw.1

/-- An instruction in the delay slot of a transfer that is taken flushes. -/
theorem Lockstep.flush :
    (Mips.run (s.env (fixed P handler)) (n + 2)).exe.flush = x.seq.exe.take := by
  have hpc : (Mips.run (s.env (fixed P handler)) n).renameQueueOut.pc = x.seq.pc :=
    congrArg RenameEntry.pc (hx.entry hitem)
  have htake := h.standsFor.exe.take
  rw [System.core_run _ hs] at htake
  rw [flush_two _ hn, hpc, htake, decide_eq_true hx.pc_ne_zero]
  rfl

/-- The count goes on or starts again. -/
theorem Lockstep.fresh :
    Fresh (s.run (fixed P handler) (n + 4)).core (x.step handler).taken := by
  have hentry := hx.entry hitem
  have hfresh := h.standsFor.fresh
  have hflush := h.flush hs hn hx hitem
  rw [System.core_run _ hs] at hfresh ⊢
  show Fresh _ (if x.seq.exe.take then 0 else x.taken + x.takes.toNat)
  cases ht : x.seq.exe.take with
  | false =>
    have hslot := hfresh.slot hn hx.room (hflush.trans ht)
    rw [hentry] at hslot
    exact hslot
  | true =>
    refine hfresh.flush hn noCop1_fixed hx.room (hflush.trans ht) ?_
    by_contra hw
    have hload := ((writesBack_iff _ hn).mp (by simpa using hw)).1
    rw [hentry] at hload
    exact Bool.false_ne_true ((hx.delaySlot ht).symm.trans hload)

include hz in
/-- **A slot that finds the next instruction** does what the program does. -/
theorem Lockstep.step : Lockstep P handler s (n + 4) (x.step handler) := by
  have hentry := hx.entry hitem
  have hpc : (Mips.run (s.env (fixed P handler)) n).renameQueueOut.pc = x.seq.pc :=
    congrArg RenameEntry.pc hentry
  have hne : rule (history (s.env (fixed P handler)) n) ≠ 0 := h.pc ▸ hx.pc_ne_zero
  have haligned := h.aligned.step (fetches_fixed hs) hn hne
  have hexe := h.standsFor.exe
  rw [System.core_run _ hs] at hexe
  have hrule : rule (history (s.env (fixed P handler)) (n + 4)) = (x.step handler).seq.pc := by
    rw [history_four _ hn, rule_issue hn h.aligned.remembers (hpc ▸ hx.pc_ne_zero), hpc,
      hexe.take, hexe.addr, hx.pc_step]
  refine ⟨⟨?_, h.registers hs hz hn hx hitem, ?_, h.fresh hs hn hx hitem,
    (h.accessed hs hz hn hx hitem).1, ?_⟩, haligned, hrule⟩
  · rw [System.core_run _ hs, ← hrule]
    exact haligned.chain
  · rw [System.core_run _ hs]
    exact (h.executed hs hn hx hitem).1
  · rw [System.os_four _ hs hn]
    exact congrArg (fun c => c.2.2) (h.called hs hz hn hx hitem)

end Instruction

section Bubble

variable (hs : s.core = Mips.reset) (hn : n % 4 = 0)
  (h : Lockstep P handler s n x) (hx : Counted.Obeys P x)
  (hitem : item (Mips.run (s.env (fixed P handler)) n).renameQueueOut = 0)

include hs hn h hx hitem

/-- **A slot that finds a bubble** does nothing. -/
theorem Lockstep.bubble : Lockstep P handler s (n + 4) x := by
  have hnothing := nothing_of_item hitem
  have hne : rule (history (s.env (fixed P handler)) n) ≠ 0 := h.pc ▸ hx.pc_ne_zero
  have haligned := h.aligned.step (fetches_fixed hs) hn hne
  have hrule : rule (history (s.env (fixed P handler)) (n + 4)) = x.seq.pc := by
    rw [history_four _ hn, history_of_bubble hn hnothing.pc]
    exact h.pc
  have hcalled : (s.high (fixed P handler) n).called (fixed P handler) =
      ([], (s.run (fixed P handler) n).mainMemory, (s.run (fixed P handler) n).os) := by
    rw [System.called_slot _ hs hn, hnothing.syscall]
    rfl
  have hfresh := h.standsFor.fresh
  have hexe := h.standsFor.exe
  rw [System.core_run _ hs] at hfresh hexe
  refine ⟨⟨?_, fun a => ?_, ?_, ?_, ?_, ?_⟩, haligned, hrule⟩
  · rw [System.core_run _ hs, ← hrule]
    exact haligned.chain
  · have hnot : ¬WritesReg (s.env (fixed P handler)) n a := by
      intro hw
      have hal := allocates_of_regWrite _ hn hw.1
      exact Bool.false_ne_true (hnothing.allocates.symm.trans hal)
    rw [← h.standsFor.registers a, System.core_run _ hs, System.core_run _ hs,
      regValue_four hn noCop1_fixed hfresh hx.room, if_neg hnot, hnothing.syscall]
    rfl
  · rw [System.core_run _ hs]
    refine hexe.bubble hn ((issued_pc _ hn).trans hnothing.pc) ?_
    rw [issued_eq _ hn]
    exact hnothing.touches
  · have hflush : (Mips.run (s.env (fixed P handler)) (n + 2)).exe.flush = false := by
      rw [flush_two _ hn, hnothing.pc]
      rfl
    have hslot := hfresh.slot hn hx.room hflush
    rw [hnothing.allocates] at hslot
    rw [System.core_run _ hs]
    exact hslot
  · have hout := issued_eq (s.env (fixed P handler)) hn
    have hidle : Idle (Mips.run (s.env (fixed P handler)) (n + 2)).exe := by
      refine ⟨?_, ?_, ?_⟩
      · exact (congrArg Id.Out.memRead1Out hout).trans hnothing.memRead
      · exact (congrArg Id.Out.memWrite1Out hout).trans hnothing.memWrite
      · rw [show (Mips.run (s.env (fixed P handler)) (n + 2)).exe.aluControl1Out = _ from
          congrArg Id.Out.aluControl1Out hout]
        exact hnothing.control
    have hmem := h.standsFor.memory.mainMemory
    have hone := System.same_one _ hs hn ((congrArg (fun c => c.2.1) hcalled).trans hmem)
      h.standsFor.memory
    have hfour := System.run_four (fixed P handler) hs hn
    rw [System.run_three (fixed P handler) hs hn] at hfour
    exact hfour.trans ((hidle.cycle _).trans hone)
  · rw [System.os_four _ hs hn, hcalled]
    exact h.standsFor.os

end Bubble

section Slot

variable (hs : s.core = Mips.reset) (hn : n % 4 = 0)
  (h : Lockstep P handler s n x) (hx : Counted.Obeys P x)

include hs hn h

/-- A slot finds one or the other. -/
theorem Lockstep.item_cases :
    item (Mips.run (s.env (fixed P handler)) n).renameQueueOut = 0 ∨
      item (Mips.run (s.env (fixed P handler)) n).renameQueueOut =
        (x.seq.pc, P.imem x.seq.pc) := by
  have hchain := h.standsFor.chain
  rw [System.core_run _ hs] at hchain
  rcases chain_issue (fetches_fixed hs) hn hchain with ⟨hitem, -⟩ | ⟨hitem, -⟩
  · exact .inl hitem
  · exact .inr hitem

omit hs hn h in
/-- The words from the program counter on are the program's. -/
theorem Counted.Obeys.code_of_reach {y : Counted ω} (hy : Counted.Obeys P y) {r : ℕ} (hr : r ≤ 18)
    {a : Word} (ha : a = y.seq.pc + BitVec.ofNat 32 (4 * r)) :
    P.code a = true ∧ P.code (a + 4) = true := by
  have hnext : a + 4 = y.seq.pc + BitVec.ofNat 32 (4 * (r + 1)) := by
    rw [ha, BitVec.add_assoc, Nat.mul_succ, BitVec.ofNat_add]
    rfl
  rw [hnext, ha]
  exact ⟨hy.inside r (by omega), hy.inside (r + 1) (by omega)⟩

include hx

/-- In the first two cycles IF asks for words of the program. -/
theorem Lockstep.address_first {j : ℕ} (hj : j < 2) :
    P.code (Mips.run (s.env (fixed P handler)) (n + j)).instrAddress2IM = true ∧
      P.code ((Mips.run (s.env (fixed P handler)) (n + j)).instrAddress2IM + 4) = true := by
  obtain ⟨r, hr, ha⟩ := address_lt_two (fetches_fixed hs) hn h.aligned hj
  exact hx.code_of_reach hr (h.pc ▸ ha)

/-- **Over the slot IF asks for words of the program only.** -/
theorem Lockstep.address (hx' : item (Mips.run (s.env (fixed P handler)) n).renameQueueOut = 0 ∨
      Counted.Obeys P (x.step handler)) {j : ℕ} (hj : j < 4) :
    P.code (Mips.run (s.env (fixed P handler)) (n + j)).instrAddress2IM = true ∧
      P.code ((Mips.run (s.env (fixed P handler)) (n + j)).instrAddress2IM + 4) = true := by
  by_cases hj2 : j < 2
  · exact h.address_first hs hn hx hj2
  · have hne : rule (history (s.env (fixed P handler)) n) ≠ 0 := h.pc ▸ hx.pc_ne_zero
    obtain ⟨r, hr, ha⟩ := address_two (fetches_fixed hs) hn h.aligned hne (j := j) (by omega)
    rcases h.item_cases hs hn with hitem | hitem
    · have hpc : rule (history (s.env (fixed P handler)) (n + 1)) = x.seq.pc := by
        rw [history_of_bubble hn (congrArg Prod.fst hitem)]
        exact h.pc
      exact hx.code_of_reach (by omega) (hpc ▸ ha)
    · have hpc : (Mips.run (s.env (fixed P handler)) n).renameQueueOut.pc = x.seq.pc :=
        congrArg Prod.fst hitem
      have hexe := h.standsFor.exe
      rw [System.core_run _ hs] at hexe
      have hrule : rule (history (s.env (fixed P handler)) (n + 1)) =
          (x.step handler).seq.pc := by
        rw [rule_issue hn h.aligned.remembers (hpc ▸ hx.pc_ne_zero), hpc, hexe.take, hexe.addr,
          hx.pc_step]
      have hne0 : item (Mips.run (s.env (fixed P handler)) n).renameQueueOut ≠ 0 :=
        fun h0 => hx.pc_ne_zero (hpc.symm.trans (congrArg Prod.fst h0))
      exact (hx'.resolve_left hne0).code_of_reach (by omega) (hrule ▸ ha)

end Slot

end Sim
end OooProcessor
