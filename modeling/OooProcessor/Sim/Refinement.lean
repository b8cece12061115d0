/-
# `main` runs the program

The core in the main loop refines the sequential machine with its system calls: as long
as the program obeys what the core relies on, every issue slot finds the core, its memory
and the operating system in a state that stands for one of the program, every state of
the program is come to (`main_refines`).  IF runs ahead of the issue slot and fetches behind
transfers of control, and both stay inside the program, so that `main`, which looks at every
word, refuses none on the way (`main_never_refuses`).

The schedule is exact: three slots find the bubbles of reset, and then every instruction
takes one slot, and one in the delay slot of a transfer that is taken another one
(`issueSlot`).

First the words are taken from the program (`Sim/Lockstep.lean`).  There every slot goes on
or removes a bubble (`paced`), and IF asks for words of the program only.  These are in the
memory as long as the program leaves them there, and so `main` supplies the same
(`run_services`).
-/

import OooProcessor.Lib.Paced
import OooProcessor.Sim.Lockstep

namespace OooProcessor
namespace Sim

open Decoder Mips

variable {ω : Type*} {P : Program} {handler : Handler ω} {s : System ω} {n : ℕ}

/-- What `main` does for the core. -/
def services (handler : Handler ω) : Services ω := ⟨supplied, handler⟩

section Fixed

/-- The bubble that a flush makes. -/
def Counted.cost (x : Counted ω) : ℕ := x.seq.exe.take.toNat

variable (handler) in
/-- The slot in which instruction `k` of a program is issued. -/
def issueSlot (x : Counted ω) (k : ℕ) : ℕ := 3 + Lib.spent (Counted.step handler) Counted.cost x k

variable (P handler s) in
/-- Slot `m` stands for a state, and finds `d` bubbles before its instruction. -/
structure Paces (m d : ℕ) (x : Counted ω) : Prop where
  lockstep : Lockstep P handler s (4 * m) x
  delayed : if m = 0 then d = 3 else Delayed d (Mips.run (s.env (fixed P handler)) (4 * m))

variable (P handler s) in
/-- What the core relies on before the instruction, and after it if the slot issues it. -/
structure Steady (n : ℕ) (x : Counted ω) : Prop where
  obeys : x.Obeys P
  next : item (Mips.run (s.env (fixed P handler)) n).renameQueueOut = 0 ∨
    (x.step handler).Obeys P

/-- Reset. -/
theorem lockstep_boot (m : MainMemory) (d : Word) (os : ω) :
    Lockstep P handler (System.boot m d os) 0 (Counted.start m d os) where
  standsFor :=
    { chain := .inl ⟨rfl, rfl⟩
      registers := fun _ => rfl
      exe := ⟨rfl, rfl, rfl, rfl, rfl⟩
      fresh := (fresh_zero : Fresh (Mips.run ((System.boot m d os).env (fixed P handler)) 0) 0)
      memory := ⟨rfl, rfl, rfl⟩
      os := rfl }
  aligned := ⟨.inl ⟨rfl, rfl⟩, rfl⟩
  pc := rfl

theorem paces_boot (m : MainMemory) (d : Word) (os : ω) :
    Paces P handler (System.boot m d os) 0 3 (Counted.start m d os) :=
  ⟨lockstep_boot m d os, rfl⟩

section Slot

variable {x : Counted ω} {m d : ℕ} (hs : s.core = Mips.reset) (h : Paces P handler s m d x)
  (hx : x.Obeys P)

include hs h hx

theorem Paces.freelist_size :
    (Mips.run (s.env (fixed P handler)) (4 * m)).freelist.size ≠ 0 := by
  have hfresh := h.lockstep.standsFor.fresh
  rw [System.core_run _ hs] at hfresh
  obtain ⟨k, hk⟩ := hfresh.moved
  have := hk.size
  have := hx.room
  omega

/-- The slot finds a bubble as long as it has to. -/
theorem Paces.item_iff :
    item (Mips.run (s.env (fixed P handler)) (4 * m)).renameQueueOut = 0 ↔ d ≠ 0 := by
  have hdelayed := h.delayed
  rcases Nat.eq_zero_or_pos m with rfl | hm
  · obtain rfl : d = 3 := hdelayed
    exact ⟨fun _ => by decide, fun _ => rfl⟩
  · rw [if_neg (by omega)] at hdelayed
    exact hdelayed.item_iff (Nat.mul_mod_right 4 m) (by omega) (h.freelist_size hs hx)

/-- The slot issues the instruction if it does not have to wait. -/
theorem Paces.item_of_zero (hd : d = 0) :
    item (Mips.run (s.env (fixed P handler)) (4 * m)).renameQueueOut =
      (x.seq.pc, P.imem x.seq.pc) := by
  refine (h.lockstep.item_cases hs (Nat.mul_mod_right 4 m)).resolve_left fun hitem => ?_
  exact (h.item_iff hs hx).mp hitem hd

/-- IF does not ask for the word at 0. -/
theorem Paces.address_ne_zero (hnext : d ≠ 0 ∨ (x.step handler).Obeys P) {j : ℕ} (hj : j < 4) :
    (Mips.run (s.env (fixed P handler)) (4 * m + j)).instrAddress2IM ≠ 0 :=
  P.ne_zero (h.lockstep.address hs (Nat.mul_mod_right 4 m) hx
    (hnext.imp_left (h.item_iff hs hx).mpr) hj).1

end Slot

/-- **Slots against instructions**: a slot issues the next instruction or removes a bubble. -/
theorem paced (hs : s.core = Mips.reset) (hz : SparesZero handler) :
    Lib.Paced (Counted.step handler) (Counted.Obeys P) Counted.cost (Paces P handler s) where
  step := by
    intro m x h hx hx'
    have hn : 4 * m % 4 = 0 := Nat.mul_mod_right 4 m
    have hitem := h.item_of_zero hs hx rfl
    have hm : m ≠ 0 := by
      rintro rfl
      exact absurd (show (0 : ℕ) = 3 from h.delayed) (by decide)
    have hdelayed := h.delayed
    rw [if_neg hm] at hdelayed
    have haddr {j : ℕ} (hj : j < 4) := h.address_ne_zero hs hx (.inr hx') hj
    have hflush := h.lockstep.flush hs hn hx hitem
    refine ⟨?_, ?_⟩
    · rw [Nat.mul_succ]
      exact h.lockstep.step hs hz hn hx hitem
    · rw [if_neg (Nat.succ_ne_zero m), Nat.mul_succ, Counted.cost]
      cases ht : x.seq.exe.take with
      | false =>
        exact hdelayed.four hn (by omega) (h.freelist_size hs hx) (hflush.trans ht)
          fun j hj => haddr hj
      | true => exact delayed_flush hn (hflush.trans ht) fun j hj => haddr (by omega)
  wait := by
    intro m d x h hx
    have hn : 4 * m % 4 = 0 := Nat.mul_mod_right 4 m
    have hitem := (h.item_iff hs hx).mpr (Nat.succ_ne_zero d)
    have haddr {j : ℕ} (hj : j < 4) := h.address_ne_zero hs hx (.inl (Nat.succ_ne_zero d)) hj
    refine ⟨?_, ?_⟩
    · rw [Nat.mul_succ]
      exact h.lockstep.bubble hs hn hx hitem
    · have hdelayed := h.delayed
      rw [if_neg (Nat.succ_ne_zero m), Nat.mul_succ]
      rcases Nat.eq_zero_or_pos m with rfl | hm
      · obtain rfl : d = 2 := Nat.succ.inj hdelayed
        refine delayed_reset fun j hj => ?_
        have hzero := haddr hj
        rwa [Nat.mul_zero, Nat.zero_add] at hzero
      · rw [if_neg (by omega)] at hdelayed
        have hflush : (Mips.run (s.env (fixed P handler)) (4 * m + 2)).exe.flush = false := by
          rw [flush_two _ hn, (nothing_of_item hitem).pc]
          rfl
        exact hdelayed.four hn (by omega) (h.freelist_size hs hx) hflush fun j hj => haddr hj

/-- No system call goes with a store. -/
theorem Counted.Obeys.not_memWrite {x : Counted ω} (hx : x.Obeys P)
    (hs : x.controls.syscall = true) : x.controls.memWrite = false := by
  obtain ⟨b, hb, hc⟩ := hx.table
  have hlegal := hx.legal
  simp only [Sim.legal, Bool.and_eq_true, Bool.not_eq_true'] at hlegal
  rw [hc] at hs ⊢
  rcases isSyscall_or_of_syscall hb hs with h | h | h
  · obtain rfl := Option.some.inj (hb.symm.trans (table_of_isSyscall h))
    decide
  · exact absurd (hlegal.1.2.symm.trans h) (by decide)
  · exact absurd (hlegal.2.symm.trans h) (by decide)

/-- The program is in the memory while the instruction has not got to its access. -/
theorem Counted.Obeys.in_called {x : Counted ω} (hx : x.Obeys P)
    (hx' : (x.step handler).Obeys P) : P.In (x.toProcess.called handler).2.1 := by
  cases hs : x.controls.syscall with
  | false =>
    have hcalled : x.toProcess.called handler = ([], x.seq.sim.mainMemory, x.os) :=
      if_neg (Bool.eq_false_iff.mp hs)
    rw [hcalled]
    exact hx.intact
  | true =>
    have hmem : (x.step handler).seq.sim.mainMemory = (x.toProcess.called handler).2.1 :=
      mainMemory_of_not_memWrite _ (hx.not_memWrite hs)
    rw [← hmem]
    exact hx'.intact

variable {x : Counted ω} (hs : s.core = Mips.reset) (hz : SparesZero handler) (hn : n % 4 = 0)
  (h : Lockstep P handler s n x) (hx : Steady P handler s n x)

include hs hz hn h hx

/-- **The program is in the memory** whenever a pass looks at it. -/
theorem Lockstep.in_accessed {j : ℕ} (hj : j < 4) :
    P.In (s.run (fixed P handler) (n + j)).accessed.mainMemory ∧
      P.In (s.high (fixed P handler) (n + j)).accessed.mainMemory := by
  obtain ⟨hobeys, hnext⟩ := hx
  have h0 : P.In (s.run (fixed P handler) n).mainMemory := by
    rw [show (s.run (fixed P handler) n).mainMemory = _ from h.standsFor.memory.mainMemory]
    exact hobeys.intact
  have hone := (System.run_one (fixed P handler) hs hn).1
  by_cases hitem : item (Mips.run (s.env (fixed P handler)) n).renameQueueOut = 0
  · have h4 := (h.bubble hs hn hobeys hitem).standsFor.memory.mainMemory
    have hcalled : ((s.high (fixed P handler) n).called (fixed P handler)).2.1 =
        (s.run (fixed P handler) n).mainMemory := by
      rw [System.called_slot _ hs hn, (nothing_of_item hitem).syscall]
      rfl
    refine System.forall_accessed _ hs hn h0 ?_ ?_ hj
    · rw [hone, hcalled]
      exact h0
    · rw [show (s.run (fixed P handler) (n + 4)).mainMemory = _ from h4]
      exact hobeys.intact
  · have hobeys' := hnext.resolve_left hitem
    have hissued := (h.item_cases hs hn).resolve_left hitem
    have h4 := (h.step hs hz hn hobeys hissued).standsFor.memory.mainMemory
    refine System.forall_accessed _ hs hn h0 ?_ ?_ hj
    · rw [hone, h.called hs hz hn hobeys hissued]
      exact hobeys.in_called hobeys'
    · rw [show (s.run (fixed P handler) (n + 4)).mainMemory = _ from h4]
      exact hobeys'.intact

end Fixed

section Calling

/-- The bytes of some words at the boot vector. -/
def atVector (ws : List Word) (a : Word) : BitVec 8 :=
  let i := (a - Fetch.bootVector).toNat
  (ws.getD (i / 4) 0).extractLsb' (24 - 8 * (i % 4)) 8

/-- `addiu $4,$0,41; syscall; addu $8,$2,$0; sw $8,0x1000($0); lw $9,0x1000($0); j; nop`. -/
def calling : MainMemory :=
  atVector [0x24040029, 0x0000000C, 0x00404021, 0xAC081000, 0x8C091000, 0x0BF00000]

/-- It counts the calls, and returns its argument and 1. -/
def successor : Handler ℕ := fun regs m n => ([(2, regs 4 + 1)], m, n + 1)

/-- The words that the core may ask for. -/
def callingCode : List Word :=
  (List.range 32).map fun i => Fetch.bootVector + BitVec.ofNat 32 (4 * i)

theorem above_callingCode : callingCode.all (0x400000 ≤ ·) = true := by decide +kernel

def callingProgram : Program := .ofList callingCode calling
  above_callingCode (by decide +kernel)

instance (m : MainMemory) : Decidable (callingProgram.In m) :=
  inferInstanceAs (Decidable ((Program.ofList callingCode calling _ _).In m))

theorem sparesZero_successor : SparesZero successor := by
  intro regs m n w hw
  obtain rfl := List.mem_singleton.mp hw
  exact (by decide : (2 : Reg) ≠ 0)

theorem obeys_calling : ∀ k ≤ 9,
    ((Counted.step successor)^[k] (Counted.start calling 0 0)).Obeys callingProgram := by
  decide +kernel

end Calling

section Main

variable (handler) in
/-- A pass is given the same where IF asks for a word of the program. -/
theorem rising_services (t : System ω) (hin : P.In t.accessed.mainMemory)
    (hcode : P.code t.core.instrAddress2IM = true) :
    t.rising (services handler) = t.rising (fixed P handler) := by
  have hinput : t.input (services handler) = t.input (fixed P handler) :=
    congrArg (fun w => (⟨w, t.accessed.dataReadFDM, (t.called (fixed P handler)).1⟩ : Input))
      (hin.supplied hcode)
  rw [System.rising, hinput]
  rfl

/-- What a pass asks for is in the program, the word behind it as well, and the memory that
it reads holds the program. -/
structure System.Inside (P : Program) (t : System ω) : Prop where
  code : P.code t.core.instrAddress2IM = true
  next : P.code (t.core.instrAddress2IM + 4) = true
  memory : P.In t.accessed.mainMemory

/-- There `main` refuses nothing, and does not wait. -/
theorem System.Inside.not_refuses {t : System ω} (h : t.Inside P) :
    t.refuses = false ∧ t.nearZero = false := by
  constructor
  · rw [System.refuses, h.memory.checked h.code h.next]
    rfl
  · rw [System.nearZero]
    exact decide_eq_false (BitVec.not_lt.mpr (P.above _ h.code))

/-- The slots of a run stand for states with what the core relies on, up to slot `j`. -/
structure Followed (P : Program) (handler : Handler ω) (s : System ω) (j : ℕ) : Prop where
  before : ∀ m < j, ∃ x, Lockstep P handler s (4 * m) x ∧ Steady P handler s (4 * m) x
  last : ∃ x : Counted ω, Lockstep P handler s (4 * j) x ∧ x.Obeys P

namespace Followed

variable {j : ℕ} (h : Followed P handler s j) (hs : s.core = Mips.reset) (hz : SparesZero handler)

include h hs

/-- IF asks for words of the program. -/
theorem address (hn : n ≤ 4 * j) :
    P.code (s.run (fixed P handler) n).core.instrAddress2IM = true ∧
      P.code ((s.run (fixed P handler) n).core.instrAddress2IM + 4) = true := by
  rw [System.core_run _ hs]
  by_cases hlast : n = 4 * j
  · obtain ⟨x, hx, hobeys⟩ := h.last
    rw [hlast]
    exact hx.address_first hs (Nat.mul_mod_right 4 j) hobeys (j := 0) (by omega)
  · obtain ⟨x, hx, hsteady⟩ := h.before (n / 4) (by omega)
    have haddr := hx.address hs (Nat.mul_mod_right 4 _) hsteady.obeys hsteady.next
      (Nat.mod_lt n (by omega : 4 > 0))
    rwa [Nat.div_add_mod] at haddr

include hz

/-- The program is in the memory. -/
theorem in_accessed (hn : n < 4 * j) :
    P.In (s.run (fixed P handler) n).accessed.mainMemory ∧
      P.In (s.high (fixed P handler) n).accessed.mainMemory := by
  obtain ⟨x, hx, hsteady⟩ := h.before (n / 4) (by omega)
  have hin := hx.in_accessed hs hz (Nat.mul_mod_right 4 _) hsteady
    (Nat.mod_lt n (by omega : 4 > 0))
  rwa [Nat.div_add_mod] at hin

/-- **`main` supplies the program.** -/
theorem run_services (hn : n ≤ 4 * j) :
    s.run (services handler) n = s.run (fixed P handler) n := by
  induction n with
  | zero => rfl
  | succ n ih =>
    have ih := ih (by omega)
    have hrising := rising_services handler (s.run (fixed P handler) n)
      (h.in_accessed hs hz (n := n) (by omega)).1 (h.address hs (n := n) (by omega)).1
    show ((s.run (services handler) n).rising (services handler)).falling (services handler) = _
    rw [ih, hrising]
    rfl

/-- Both passes of a cycle are inside the program. -/
theorem inside (hn : n < 4 * j) : (s.run (services handler) n).Inside P ∧
    (s.high (services handler) n).Inside P := by
  obtain ⟨hin, hin'⟩ := h.in_accessed hs hz hn
  obtain ⟨hcode, hnext⟩ := h.address hs hn.le
  obtain ⟨hcode', hnext'⟩ := h.address hs (n := n + 1) (by omega)
  have hrising := rising_services handler (s.run (fixed P handler) n) hin hcode
  have hhigh : s.high (services handler) n = s.high (fixed P handler) n := by
    rw [System.high, h.run_services hs hz hn.le, hrising]
    rfl
  -- the falling edge does not change the address
  have haddr : (s.high (fixed P handler) n).core.instrAddress2IM =
      (s.run (fixed P handler) (n + 1)).core.instrAddress2IM := rfl
  rw [h.run_services hs hz hn.le, hhigh]
  refine ⟨⟨hcode, hnext, hin⟩, ⟨?_, ?_, hin'⟩⟩
  · rw [haddr]
    exact hcode'
  · rw [haddr]
    exact hnext'

end Followed

variable {m : MainMemory} {d : Word} {os : ω} {j : ℕ}

/-- A program that obeys the core up to instruction `j` is paced by the slots up to the one
that issues it, and so followed. -/
theorem paces_of_obeys (hz : SparesZero handler) (hobeys : ∀ k ≤ j,
      ((Counted.step handler)^[k] (Counted.start m d os)).Obeys P) :
    Paces P handler (System.boot m d os) (issueSlot handler (Counted.start m d os) j) 0
        ((Counted.step handler)^[j] (Counted.start m d os)) ∧
      (∀ i < issueSlot handler (Counted.start m d os) j, ∃ k ≤ j,
        Lockstep P handler (System.boot m d os) (4 * i)
          ((Counted.step handler)^[k] (Counted.start m d os))) ∧
      Followed P handler (System.boot m d os) (issueSlot handler (Counted.start m d os) j) := by
  have hpaced := paced (P := P) (s := System.boot m d os) rfl hz
  have hreaches := hpaced.reaches (paces_boot m d os) j hobeys
  rw [Nat.zero_add] at hreaches
  obtain ⟨hlast, hbefore⟩ := hreaches
  refine ⟨hlast, fun i hi => ?_, fun i hi => ?_, ⟨_, hlast.lockstep, hobeys j le_rfl⟩⟩
  · obtain ⟨k, hk, e, hR, -⟩ := hbefore i (Nat.zero_le i) hi
    exact ⟨k, hk, hR.lockstep⟩
  · obtain ⟨k, hk, e, hR, he⟩ := hbefore i (Nat.zero_le i) hi
    refine ⟨_, hR.lockstep, hobeys k hk, ?_⟩
    by_cases hzero : e = 0
    · have hnext := hobeys (k + 1) (he hzero)
      rw [Function.iterate_succ_apply'] at hnext
      exact .inr hnext
    · exact .inl ((hR.item_iff rfl (hobeys k hk)).mpr hzero)

/-- Every slot stands for a state of the program. -/
theorem stands_slot (hz : SparesZero handler) (hobeys : ∀ k ≤ j,
      ((Counted.step handler)^[k] (Counted.start m d os)).Obeys P) {i : ℕ}
    (hi : i ≤ issueSlot handler (Counted.start m d os) j) :
    ∃ k ≤ j, StandsFor P ((System.boot m d os).run (services handler) (4 * i))
      ((Counted.step handler)^[k] (Counted.start m d os)) := by
  obtain ⟨hlast, hbefore, hfollowed⟩ := paces_of_obeys hz hobeys
  rw [hfollowed.run_services rfl hz (by omega)]
  rcases Nat.eq_or_lt_of_le hi with rfl | hlt
  · exact ⟨j, le_rfl, hlast.lockstep.standsFor⟩
  · obtain ⟨k, hk, h⟩ := hbefore i hlt
    exact ⟨k, hk, h.standsFor⟩

/-- An instruction is issued: the slot stands for the state before it. -/
theorem issues_slot (hz : SparesZero handler) (hobeys : ∀ k ≤ j,
      ((Counted.step handler)^[k] (Counted.start m d os)).Obeys P) :
    StandsFor P ((System.boot m d os).run (services handler)
        (4 * issueSlot handler (Counted.start m d os) j))
        ((Counted.step handler)^[j] (Counted.start m d os)) ∧
      item ((System.boot m d os).run (services handler)
          (4 * issueSlot handler (Counted.start m d os) j)).core.renameQueueOut =
        (((Counted.step handler)^[j] (Counted.start m d os)).seq.pc,
          P.imem ((Counted.step handler)^[j] (Counted.start m d os)).seq.pc) := by
  obtain ⟨hlast, -, hfollowed⟩ := paces_of_obeys hz hobeys
  rw [hfollowed.run_services rfl hz le_rfl]
  refine ⟨hlast.lockstep.standsFor, ?_⟩
  rw [System.core_run _ rfl]
  exact hlast.item_of_zero rfl (hobeys j le_rfl) rfl

/-- **The core in the main loop refines the sequential machine**, as long as its states obey
what the core relies on: every issue slot stands for one of them, and every instruction is
issued on time, one slot for each before it, one for each transfer taken before it, and three
after reset. -/
theorem main_refines (hz : SparesZero handler) (hobeys : ∀ k ≤ j,
      ((Counted.step handler)^[k] (Counted.start m d os)).Obeys P) :
    (∀ i ≤ issueSlot handler (Counted.start m d os) j, ∃ k ≤ j,
      StandsFor P ((System.boot m d os).run (services handler) (4 * i))
        ((Counted.step handler)^[k] (Counted.start m d os))) ∧
    ∀ k ≤ j,
      let t := (System.boot m d os).run (services handler)
        (4 * issueSlot handler (Counted.start m d os) k)
      let x := (Counted.step handler)^[k] (Counted.start m d os)
      StandsFor P t x ∧ item t.core.renameQueueOut = (x.seq.pc, P.imem x.seq.pc) :=
  ⟨fun _ => stands_slot hz hobeys,
    fun _ hk => issues_slot hz fun i hi => hobeys i (hi.trans hk)⟩

/-- The second time around `$9` holds what the call returned, and two have been made. -/
theorem main_refines_calling :
    ((System.boot calling 0 0).run (services successor) (4 * 13)).core.regValue 9 = 42 ∧
      ((System.boot calling 0 0).run (services successor) (4 * 13)).os = 2 := by
  have hslot : issueSlot successor (Counted.start calling 0 0) 9 = 13 := by decide +kernel
  obtain ⟨h, -⟩ := (main_refines sparesZero_successor obeys_calling).2 9 le_rfl
  rw [hslot] at h
  exact ⟨(h.registers 9).trans (by decide +kernel), h.os.trans (by decide +kernel)⟩

/-- **IF never leaves the program** up to the slot of instruction `j`, neither ahead of it nor
behind a transfer of control: both passes of every cycle ask for a word of the program with
another one behind it, and read it from a memory that holds the program.  So `main` refuses
no word, nor does it wait for the user as near address 0. -/
theorem main_never_refuses (hz : SparesZero handler) (hobeys : ∀ k ≤ j,
      ((Counted.step handler)^[k] (Counted.start m d os)).Obeys P) (n : ℕ)
    (hn : n < 4 * issueSlot handler (Counted.start m d os) j) (t : System ω)
    (ht : t = (System.boot m d os).run (services handler) n ∨
      t = (System.boot m d os).high (services handler) n) :
    t.Inside P ∧ t.refuses = false ∧ t.nearZero = false := by
  obtain ⟨hrun, hhigh⟩ := (paces_of_obeys hz hobeys).2.2.inside rfl hz hn
  have hinside : t.Inside P := by
    rcases ht with rfl | rfl
    · exact hrun
    · exact hhigh
  exact ⟨hinside, hinside.not_refuses⟩

/-- The loop is left in none of its first thirteen slots. -/
theorem main_never_refuses_calling :
    ((System.boot calling 0 0).run (services successor) 51).Inside callingProgram ∧
      ((System.boot calling 0 0).run (services successor) 51).refuses = false ∧
      ((System.boot calling 0 0).run (services successor) 51).nearZero = false :=
  main_never_refuses sparesZero_successor obeys_calling 51 (by decide +kernel) _ (.inl rfl)

end Main

end Sim
end OooProcessor
