/-
# The main loop

`main` of `sim_main/sim_main.cpp` around the core.  A pass of its loop flips CLK, carries
out the memory accesses MEM asks for, checks the next two words for instructions it refuses,
supplies the word at `Instr_address_2IM`, and lets the core evaluate the edge; in the pass
before a falling edge it handles a system call first.

What a system call does is a parameter: the registers it writes, the memory and whatever
the operating system keeps, as a function of the registers, the memory and what it kept.
`read_register` and `write_register` go through RRAT into PHYS_REG.  Where the word comes
from is another, `supplied` for `main`.  The bulk accesses of the caches are left out: MIPS
ties their requests to 0.
-/

import OooProcessor.Core.Syscall
import OooProcessor.Core.Zero
import OooProcessor.Sim.Accesses

namespace OooProcessor
namespace Sim

open Mips

/-- A handler of system calls. -/
abbrev Handler (ω : Type*) :=
  (Reg → Word) → MainMemory → ω → List (Reg × Word) × MainMemory × ω

/-- Where the core gets its words and its system calls. -/
structure Services (ω : Type*) where
  supply : MainMemory → Word → Word
  handler : Handler ω

/-- `top->Instr1_fIM` for the address `Instr_address_2IM`. -/
def supplied (m : MainMemory) (address : Word) : Word :=
  if address = 0 then 0 else readWord m address

/-- The illegal-instruction checks on `nextInstruction` and `secondInstruction`. -/
def checked (m : MainMemory) (address : Word) : Bool :=
  accepted (readWord m address) && accepted (readWord m (address + 4))

/-- The core, `MAIN_MEMORY`, `data_read_fDM` and what the operating system keeps. -/
structure System (ω : Type*) where
  core : Mips
  mainMemory : MainMemory
  dataReadFDM : Word
  os : ω

namespace System

/-- `read_register` -/
def readRegister (s : Mips) (regno : Reg) : Word :=
  if regno = 0 then 0 else s.physReg.arr (s.rrat.arr regno)

variable {ω : Type*} (v : Services ω) (s : System ω)

/-- The memory, `data_read_fDM` and MEM. -/
def sim : State := ⟨s.mainMemory, s.dataReadFDM, s.core.mem⟩

/-- They are so after the memory accesses of a pass. -/
def accessed : State := memoryAccesses s.core.exe s.sim

/-- What the handler does in a pass, if SYS is 1. -/
def called : List (Reg × Word) × MainMemory × ω :=
  if s.core.id.out.sys then v.handler (readRegister s.core) s.accessed.mainMemory s.os
  else ([], s.accessed.mainMemory, s.os)

/-- What the core is given in a pass. -/
def input : Input where
  instr1FIM := v.supply s.accessed.mainMemory s.core.instrAddress2IM
  dataReadFDM := s.accessed.dataReadFDM
  sysWrites := (s.called v).1

/-- A pass with CLK = 1. -/
def rising : System ω where
  core := Mips.posedge (s.input v) s.core
  mainMemory := s.accessed.mainMemory
  dataReadFDM := s.accessed.dataReadFDM
  os := s.os

/-- A pass with CLK = 0. -/
def falling : System ω where
  core := Mips.negedge (s.input v) s.core
  mainMemory := (s.called v).2.1
  dataReadFDM := s.accessed.dataReadFDM
  os := (s.called v).2.2

/-- The pass ends the simulation: the next word or the one after it is refused. -/
def refuses : Bool := !checked s.accessed.mainMemory s.core.instrAddress2IM

/-- "Jumped near 0": the pass waits for the user. -/
def nearZero : Bool := decide (s.core.instrAddress2IM < 0x400000)

/-- After reset, with a program in memory. -/
def boot (m : MainMemory) (d : Word) (os : ω) : System ω := ⟨Mips.reset, m, d, os⟩

/-- The states before each rising edge. -/
def run : ℕ → System ω
  | 0 => s
  | n + 1 => ((run n).rising v).falling v

/-- The states between the edges. -/
def high (n : ℕ) : System ω := (s.run v n).rising v

/-- What the core is given in cycle `n`: the word and the datum before the rising edge, and
what a system call writes before the falling one. -/
def env (n : ℕ) (_ : Mips) : Input :=
  { (s.run v n).input v with sysWrites := ((s.high v n).called v).1 }

variable {s} {n : ℕ} (hs : s.core = Mips.reset)

include hs

/-- **The core of the system is one in an environment.** -/
theorem core_run (n : ℕ) : (s.run v n).core = Mips.run (s.env v) n := by
  induction n with
  | zero => exact hs
  | succ n ih =>
    have ih : _ = machine.run _ n := ih
    show Mips.negedge _ (Mips.posedge _ _) = machine.cycle _ (machine.run _ n)
    rw [← ih]
    rfl

/-- So it is between the edges of a cycle. -/
theorem core_high (n : ℕ) : (s.high v n).core = Mips.high (s.env v) n := by
  have hrun : (s.run v n).core = machine.run _ n := core_run v hs n
  show Mips.posedge _ _ = Mips.posedge _ (machine.run _ n)
  rw [← hrun]
  rfl

section Slot

omit hs in
/-- EXE asks the memory for something in one cycle of four only. -/
theorem idle_exe (env : ℕ → Mips → Input) (hn : n % 4 ≠ 2) : Idle (Mips.run env n).exe := by
  cases n with
  | zero => exact ⟨rfl, rfl, (by decide : (0 : BitVec 6) ∉ Mem.storeControls)⟩
  | succ n =>
    have hout := out_of_ne env (n := n) (by omega)
    refine ⟨?_, ?_, ?_⟩
    · exact congrArg Id.Out.memRead1Out hout
    · exact congrArg Id.Out.memWrite1Out hout
    · rw [show (Mips.run env (n + 1)).exe.aluControl1Out = 0 from
        congrArg Id.Out.aluControl1Out hout]
      decide

omit hs in
theorem idle_high (env : ℕ → Mips → Input) (hn : n % 4 ≠ 1) : Idle (Mips.high env n).exe := by
  obtain ⟨hr, hw, hk⟩ := idle_exe env (n := n + 1) (by omega)
  exact ⟨hr, hw, hk⟩

omit hs in
theorem accessed_of_idle (h : Idle s.core.exe) : s.accessed = s.sim := by
  unfold accessed memoryAccesses
  rw [h.memRead, h.memWrite]
  rfl

/-- Before a rising edge an access is carried out in the third cycle of a slot only. -/
theorem accessed_run (hn : n % 4 ≠ 2) : (s.run v n).accessed = (s.run v n).sim := by
  refine accessed_of_idle ?_
  rw [core_run v hs]
  exact idle_exe _ hn

/-- Before a falling edge it is in the second. -/
theorem accessed_high (hn : n % 4 ≠ 1) : (s.high v n).accessed = (s.high v n).sim := by
  refine accessed_of_idle ?_
  rw [core_high v hs]
  exact idle_high _ hn

theorem high_of_ne (hn : n % 4 ≠ 2) : (s.high v n).mainMemory = (s.run v n).mainMemory ∧
    (s.high v n).dataReadFDM = (s.run v n).dataReadFDM :=
  ⟨congrArg State.mainMemory (accessed_run v hs hn),
    congrArg State.dataReadFDM (accessed_run v hs hn)⟩

/-- The handler is called in the cycle of the slot, with nothing on its way to memory. -/
theorem called_slot (hn : n % 4 = 0) : (s.high v n).called v =
    if (Mips.run (s.env v) n).renameQueueOut.controls.syscall then
      v.handler (readRegister (Mips.high (s.env v) n)) (s.run v n).mainMemory (s.run v n).os
    else ([], (s.run v n).mainMemory, (s.run v n).os) := by
  have hsys : (Mips.high (s.env v) n).id.out.sys =
      (Mips.run (s.env v) n).renameQueueOut.controls.syscall := issued_sys _ hn
  have hmem : (s.high v n).sim.mainMemory = (s.run v n).mainMemory :=
    (high_of_ne v hs (by omega)).1
  rw [called, accessed_high v hs (by omega), core_high v hs, hsys, hmem]
  rfl

theorem called_of_ne (hn : n % 4 ≠ 0) :
    (s.high v n).called v = ([], (s.high v n).accessed.mainMemory, (s.run v n).os) := by
  have hsys : (Mips.high (s.env v) n).id.out.sys = false := by
    rw [out_high, out_of_ne _ (by omega)]
    rfl
  rw [called, core_high v hs, hsys]
  rfl

/-- The memory after the cycle of the slot is what the handler leaves. -/
theorem run_one (hn : n % 4 = 0) :
    (s.run v (n + 1)).mainMemory = ((s.high v n).called v).2.1 ∧
      (s.run v (n + 1)).dataReadFDM = (s.run v n).dataReadFDM ∧
      (s.run v (n + 1)).os = ((s.high v n).called v).2.2 := by
  refine ⟨rfl, ?_, rfl⟩
  show (s.high v n).accessed.dataReadFDM = _
  rw [accessed_high v hs (by omega)]
  exact (high_of_ne v hs (by omega)).2

/-- The falling edge of a cycle other than the first two changes no memory. -/
theorem falling_of_lt (hn : 2 ≤ n % 4) :
    (s.run v (n + 1)).mainMemory = (s.high v n).mainMemory ∧
      (s.run v (n + 1)).dataReadFDM = (s.high v n).dataReadFDM := by
  have hfall := accessed_high v hs (n := n) (by omega)
  constructor
  · show ((s.high v n).called v).2.1 = _
    rw [called_of_ne v hs (by omega), hfall]
    rfl
  · show (s.high v n).accessed.dataReadFDM = _
    rw [hfall]
    rfl

/-- What the operating system keeps changes in the cycle of the slot only. -/
theorem os_of_ne (hn : n % 4 ≠ 0) : (s.run v (n + 1)).os = (s.run v n).os := by
  show ((s.high v n).called v).2.2 = _
  rw [called_of_ne v hs hn]

/-- The second cycle carries the access of the instruction out. -/
theorem run_two (hn : n % 4 = 0) : (s.run v (n + 2)).sim =
    memoryAccesses (Mips.run (s.env v) (n + 2)).exe
      ⟨(s.run v (n + 1)).mainMemory, (s.run v (n + 1)).dataReadFDM,
        (Mips.run (s.env v) (n + 2)).mem⟩ := by
  obtain ⟨hmem, hdata⟩ := high_of_ne v hs (n := n + 1) (by omega)
  have hacc : (s.high v (n + 1)).accessed = memoryAccesses (Mips.run (s.env v) (n + 2)).exe
      ⟨(s.run v (n + 1)).mainMemory, (s.run v (n + 1)).dataReadFDM,
        (Mips.run (s.env v) (n + 2)).mem⟩ := by
    rw [accessed, sim, core_high v hs, hmem, hdata]
    rfl
  have hcalled : (s.run v (n + 2)).mainMemory = (s.high v (n + 1)).accessed.mainMemory := by
    show ((s.high v (n + 1)).called v).2.1 = _
    rw [called_of_ne v hs (by omega)]
  have hread : (s.run v (n + 2)).dataReadFDM = (s.high v (n + 1)).accessed.dataReadFDM := rfl
  rw [sim, hcalled, hread, hacc, core_run v hs]
  rfl

/-- **The access of a slot's instruction** is a cycle of the simulator. -/
theorem run_three (hn : n % 4 = 0) : (s.run v (n + 3)).sim =
    cycle (Mips.run (s.env v) (n + 2)).exe
      ⟨(s.run v (n + 1)).mainMemory, (s.run v (n + 1)).dataReadFDM,
        (Mips.run (s.env v) (n + 2)).mem⟩ := by
  obtain ⟨hmem, hdata⟩ := falling_of_lt v hs (n := n + 2) (by omega)
  rw [cycle_eq, ← run_two v hs hn, ← core_run v hs (n + 2), sim, hmem, hdata]
  rfl

/-- The memory is already what it will be when IF is given its word in the third cycle. -/
theorem accessed_two (hn : n % 4 = 0) :
    (s.run v (n + 2)).accessed.mainMemory = (s.run v (n + 3)).mainMemory :=
  (falling_of_lt v hs (n := n + 2) (by omega)).1.symm

/-- It is so one cycle before. -/
theorem mainMemory_two (hn : n % 4 = 0) :
    (s.run v (n + 2)).mainMemory = (s.run v (n + 3)).mainMemory := by
  have hthree := congrArg State.mainMemory (run_three v hs hn)
  rw [cycle_eq] at hthree
  refine (congrArg State.mainMemory (run_two v hs hn)).trans (Eq.trans ?_ hthree.symm)
  exact (mainMemory_memoryAccesses _ _).symm

omit hs in
/-- Where nothing is asked for the bits on `data_write_2DM` stay. -/
theorem dataWrite2DM_succ (env : ℕ → Mips → Input) (hn : n % 4 ≠ 2) :
    (Mips.run env (n + 1)).mem.dataWrite2DM = (Mips.run env n).mem.dataWrite2DM :=
  Mem.dataWrite2DM_of_not_mem (idle_exe env hn).aluControl ..

/-- Nothing happens to the memory in the fourth cycle. -/
theorem run_four (hn : n % 4 = 0) : Same (s.run v (n + 4)).sim (s.run v (n + 3)).sim := by
  obtain ⟨hmem, hdata⟩ := falling_of_lt v hs (n := n + 3) (by omega)
  obtain ⟨hmem', hdata'⟩ := high_of_ne v hs (n := n + 3) (by omega)
  refine ⟨hmem.trans hmem', hdata.trans hdata', ?_⟩
  show (s.run v (n + 4)).core.mem.dataWrite2DM = (s.run v (n + 3)).core.mem.dataWrite2DM
  rw [core_run v hs, core_run v hs]
  exact dataWrite2DM_succ _ (n := n + 3) (by omega)

/-- **What holds of the memory** before and after the handler and after the access holds
whenever a pass looks at it. -/
theorem forall_accessed (hn : n % 4 = 0) {Q : MainMemory → Prop}
    (h0 : Q (s.run v n).mainMemory) (h1 : Q (s.run v (n + 1)).mainMemory)
    (h4 : Q (s.run v (n + 4)).mainMemory) {j : ℕ} (hj : j < 4) :
    Q (s.run v (n + j)).accessed.mainMemory ∧ Q (s.high v (n + j)).accessed.mainMemory := by
  have hmem : (s.run v (n + 4)).mainMemory = (s.run v (n + 3)).mainMemory :=
    (run_four v hs hn).mainMemory
  have h3 : Q (s.run v (n + 3)).mainMemory := hmem ▸ h4
  have hhigh (j : ℕ) (hj : (n + j) % 4 ≠ 1) : (s.high v (n + j)).accessed.mainMemory =
      (s.run v (n + j)).accessed.mainMemory := by
    rw [accessed_high v hs hj]
    rfl
  have hrun (j : ℕ) (hj : (n + j) % 4 ≠ 2) : (s.run v (n + j)).accessed.mainMemory =
      (s.run v (n + j)).mainMemory := by
    rw [accessed_run v hs hj]
    rfl
  obtain rfl | rfl | rfl | rfl : j = 0 ∨ j = 1 ∨ j = 2 ∨ j = 3 := by omega
  · rw [hhigh 0 (by omega), hrun 0 (by omega)]
    exact ⟨h0, h0⟩
  · have htwo : (s.high v (n + 1)).accessed.mainMemory = (s.run v (n + 2)).mainMemory := by
      show _ = ((s.high v (n + 1)).called v).2.1
      rw [called_of_ne v hs (by omega)]
    rw [htwo, mainMemory_two v hs hn, hrun 1 (by omega)]
    exact ⟨h1, h3⟩
  · rw [hhigh 2 (by omega), accessed_two v hs hn]
    exact ⟨h3, h3⟩
  · rw [hhigh 3 (by omega), hrun 3 (by omega)]
    exact ⟨h3, h3⟩

/-- What EXE asks for finds what the handler leaves. -/
theorem same_one (hn : n % 4 = 0) {m : MainMemory} {t : State}
    (hm : ((s.high v n).called v).2.1 = m) (h : Same (s.run v n).sim t) : Same
      ⟨(s.run v (n + 1)).mainMemory, (s.run v (n + 1)).dataReadFDM,
        (Mips.run (s.env v) (n + 2)).mem⟩ { t with mainMemory := m } := by
  obtain ⟨hmem, hdata, -⟩ := run_one v hs hn
  have hwrite : (s.run v n).core.mem.dataWrite2DM = t.mem.dataWrite2DM := h.dataWrite2DM
  rw [core_run v hs] at hwrite
  refine ⟨hmem.trans hm, hdata.trans h.dataReadFDM, ?_⟩
  show (Mips.run (s.env v) (n + 2)).mem.dataWrite2DM = _
  rw [dataWrite2DM_succ _ (n := n + 1) (by omega), dataWrite2DM_succ _ (n := n) (by omega)]
  exact hwrite

/-- The operating system over a slot. -/
theorem os_four (hn : n % 4 = 0) : (s.run v (n + 4)).os = ((s.high v n).called v).2.2 := by
  rw [os_of_ne v hs (n := n + 3) (by omega), os_of_ne v hs (n := n + 2) (by omega),
    os_of_ne v hs (n := n + 1) (by omega)]
  exact (run_one v hs hn).2.2

end Slot

end System

end Sim
end OooProcessor
