/-
# No register is lost

A register leaves the free list for an instruction and comes back from RRAT when
another result displaces it.  After reset the list is full and its `tail` stands
at 31, so that the first return finds its write lost; and the instruction need
not displace anything in the first place, if its destination is `$0`.  Only a
flush makes up for either, since it refills the list from RRAT, and it does so for
the instruction in the delay slot itself, unless that is a load, whose result
reaches RRAT later.

`KeepsRegisters` is the resulting condition on a slot.  `noneLost_iff` says that
the 64 registers are all accounted for at every issue slot of a run exactly when
every slot of it meets the condition.
-/

import OooProcessor.Core.Evaluate
import OooProcessor.Core.FreeList

namespace OooProcessor
namespace Mips

open Lib

/-- An instruction that takes a register is the delay slot of a taken branch, and
no load that writes a register other than `$0`. -/
def KeepsRegisters (s : Mips) : Prop :=
  Rename.allocates s.renameQueueOut = true →
    s.exe.take = true ∧ s.renameQueueOut.pc ≠ 0 ∧
      ¬(s.renameQueueOut.controls.memRead = true ∧ s.renameQueueOut.controls.regWrite = true ∧
        s.renameQueueOut.rd ≠ 0)

/-- Every register is mapped in RRAT or free, and so the list has 32 and does not
hold Rename back. -/
structure AllAccounted (s : Mips) : Prop where
  covering : s.maps.Covering
  size : 32 ≤ s.free.length
  running : s.freeHalt = false

/-- The free list as reset and flushes leave it. -/
structure Full (s : Mips) : Prop where
  head : s.freelist.head = 0
  tail : s.freelist.tail = 31
  size : s.freelist.size = 32

/-- No register is lost at any issue slot. -/
def NoneLost (env : ℕ → Mips → Input) : Prop :=
  ∀ n, (run env n).id.bubble = 0 → AllAccounted (run env n)

variable (env : ℕ → Mips → Input) {n : ℕ}

section Full

variable {s : Mips}

theorem Full.accounted (hf : Full s) (hc : s.maps.Covering) : AllAccounted s where
  covering := hc
  size := by rw [length_free, hf.size]
  running := by
    show (s.freelist.size == 0) = false
    rw [hf.size]
    rfl

/-- With a full list nothing is spare. -/
theorem Full.exact (hf : Full s) (hc : s.maps.Covering) :
    Function.Injective s.rrat.arr ∧ s.free.Nodup ∧ ∀ a, s.rrat.arr a ∉ s.free := by
  refine hc.exact ?_
  show s.free.length + Fintype.card Reg = 64
  rw [length_free, hf.size]
  rfl

/-- A full list accepts nothing. -/
theorem Full.not_accepts (hf : Full s) : s.accepts = false := by
  simp [accepts_eq, hf.size]

theorem full_of_flush (hflush : (run env n).exe.flush = true) : Full (run env (n + 1)) := by
  have hstep : (run env (n + 1)).freelist =
      QueueObj.flushed freelistParams (run env n).freelistInputs (run env n).freelist :=
    if_pos hflush
  constructor
  · rw [hstep]; rfl
  · rw [hstep]; rfl
  · rw [hstep]; rfl

/-- A rising edge that neither flushes nor accepts a return moves the head at
most. -/
theorem freelist_of_not_accepts (hflush : (run env n).exe.flush = false)
    (hacc : (run env n).accepts = false) :
    (run env (n + 1)).freelist.tail = (run env n).freelist.tail ∧
      (run env (n + 1)).freelist.queue = (run env n).freelist.queue ∧
      (Rename.allocates (run env n).renameQueueOut = false →
        (run env (n + 1)).freelist = (run env n).freelist) := by
  have hstep : (run env (n + 1)).freelist =
      QueueObj.advance freelistParams (run env n).freelistInputs (run env n).freelist :=
    if_neg (by simp [freelistInputs, hflush])
  have henq : QueueObj.enqueues freelistParams (run env n).freelistInputs (run env n).freelist =
      false := hacc
  have hdeq := dequeues_freelist (run env n)
  have hqueue : (run env (n + 1)).freelist.queue = (run env n).freelist.queue := by
    rw [hstep]
    simp [QueueObj.advance, henq]
  refine ⟨?_, hqueue, fun hal => ?_⟩
  · rw [hstep]
    simp [QueueObj.advance, henq]
  · rw [hstep]
    simp [QueueObj.advance, henq, hdeq, hal]

end Full

section Slot

variable (hn : n % 4 = 0)

include hn

theorem freelist_one : (run env (n + 1)).freelist.tail = (run env n).freelist.tail ∧
    (run env (n + 1)).freelist.queue = (run env n).freelist.queue ∧
    (Rename.allocates (run env n).renameQueueOut = false →
      (run env (n + 1)).freelist = (run env n).freelist) :=
  freelist_of_not_accepts env (exe_quiet env (by omega)).flush
    (by simp [accepts_eq, returnMap_slot env hn])

theorem freelist_two : (run env (n + 2)).freelist = (run env (n + 1)).freelist := by
  have hal : Rename.allocates (run env (n + 1)).renameQueueOut = false := by
    rw [renameQueueOut_of_ne env (by omega)]
    rfl
  exact (freelist_of_not_accepts env (n := n + 1) (exe_quiet env (by omega)).flush
    (by simp [accepts_eq, (rrat_one env hn).2])).2.2 hal

theorem freelist_three (hflush : (run env (n + 2)).exe.flush = false)
    (hacc : (run env (n + 2)).accepts = false) :
    (run env (n + 3)).freelist = (run env (n + 2)).freelist := by
  have hal : Rename.allocates (run env (n + 2)).renameQueueOut = false := by
    rw [renameQueueOut_of_ne env (by omega)]
    rfl
  exact (freelist_of_not_accepts env hflush hacc).2.2 hal

theorem freelist_four (hacc : (run env (n + 3)).accepts = false) :
    (run env (n + 4)).freelist = (run env (n + 3)).freelist := by
  have hal : Rename.allocates (run env (n + 3)).renameQueueOut = false := by
    rw [renameQueueOut_of_ne env (by omega)]
    rfl
  exact (freelist_of_not_accepts env (exe_quiet env (by omega)).flush hacc).2.2 hal

/-- Without a register from the list nothing is committed. -/
theorem not_commits_of_not_allocates
    (hal : Rename.allocates (run env n).renameQueueOut = false) :
    commitsExe (issued env n) = false ∧ writesBack (issued env n) = false := by
  constructor
  · by_contra hc
    have := remaps_of_commitsExe env hn (by simpa using hc)
    simp [remaps, hal] at this
  · by_contra hw
    have := remaps_of_writesBack env hn (by simpa using hw)
    simp [remaps, hal] at this

/-- RRAT at the next slot. -/
theorem rrat_next : (run env (n + 4)).rrat.arr =
    if commitsExe (issued env n) || writesBack (issued env n) then
      Function.update (run env n).rrat.arr (run env n).renameQueueOut.rd (run env n).mapWr
    else (run env n).rrat.arr := by
  rw [(rrat_four env hn).1, (rrat_three env hn).1, (rrat_two env hn).1]
  cases hw : writesBack (issued env n) with
  | false => simp
  | true =>
    rw [not_commitsExe_of_writesBack hw]
    rfl

/-- A flush in the slot leaves the registers outside RRAT at the time for the
next slot. -/
theorem free_next_of_flush (hflush : (run env (n + 2)).exe.flush = true) :
    (run env (n + 4)).free = (missing (run env (n + 2)).rrat.arr).take 32 ∧
      Full (run env (n + 4)) := by
  have hfull := full_of_flush env hflush
  have h4 := freelist_four env hn hfull.not_accepts
  refine ⟨?_, ?_⟩
  · rw [free, h4]
    exact free_run_succ_of_flush env hflush
  · exact ⟨h4 ▸ hfull.head, h4 ▸ hfull.tail, h4 ▸ hfull.size⟩

/-- Where RRAT is injective and does not change any more, the flush accounts for
every register. -/
theorem covering_of_flush (hflush : (run env (n + 2)).exe.flush = true)
    (hinj : Function.Injective (run env (n + 2)).rrat.arr)
    (hsame : (run env (n + 4)).rrat.arr = (run env (n + 2)).rrat.arr) :
    (run env (n + 4)).maps.Covering := by
  have hlen : (missing (run env (n + 2)).rrat.arr).length = 32 :=
    length_missing_of_injective hinj
  have hfree := (free_next_of_flush env hn hflush).1
  rw [List.take_of_length_le (by omega), ← hsame] at hfree
  have hmaps : (run env (n + 4)).maps = (run env (n + 4)).maps.rebuild := by
    rw [Renaming.rebuild, maps, hfree]
  rw [hmaps]
  exact Renaming.Covering.rebuild _

variable (hf : Full (run env n)) (hc : (run env n).maps.Covering)

include hf hc

omit hn in
/-- The register taken is not one RRAT maps to. -/
theorem rrat_ne_mapWr (hal : Rename.allocates (run env n).renameQueueOut = true) (a : Reg) :
    (run env n).rrat.arr a ≠ (run env n).mapWr := by
  intro ha
  refine (hf.exact hc).2.2 a ?_
  rw [ha, mapWr_of_allocates hal, free_eq_cons env n hal]
  exact List.mem_cons_self ..

omit hf hc in
/-- A slot that meets the condition is no load that writes a register. -/
theorem not_writesBack_of_keeps (hk : KeepsRegisters (run env n)) :
    writesBack (issued env n) = false := by
  by_contra hw
  rw [Bool.not_eq_false] at hw
  have hal := allocates_of_writesBack env hn hw
  obtain ⟨hload, hreg⟩ := (writesBack_iff env hn).mp hw
  rw [issued_regWrite env hn, Bool.and_eq_true, bne_iff_ne] at hreg
  exact (hk hal).2.2 ⟨hload, hreg.2, hreg.1⟩

/-- A slot that takes no register leaves the list as it is, or rebuilds it. -/
theorem full_step_of_not_allocates
    (hal : Rename.allocates (run env n).renameQueueOut = false) :
    Full (run env (n + 4)) ∧ (run env (n + 4)).maps.Covering := by
  obtain ⟨hinj, -, -⟩ := hf.exact hc
  obtain ⟨hnc, hnw⟩ := not_commits_of_not_allocates env hn hal
  have hr2 : (run env (n + 2)).rrat.arr = (run env n).rrat.arr := by
    rw [(rrat_two env hn).1, hnc]
    rfl
  have hr4 : (run env (n + 4)).rrat.arr = (run env n).rrat.arr := by
    rw [rrat_next env hn, hnc, hnw]
    rfl
  cases hflush : (run env (n + 2)).exe.flush with
  | true =>
    exact ⟨(free_next_of_flush env hn hflush).2,
      covering_of_flush env hn hflush (hr2 ▸ hinj) (hr4.trans hr2.symm)⟩
  | false =>
    have hacc2 : (run env (n + 2)).accepts = false := by
      rw [accepts_eq, (rrat_two env hn).2.1, hnc]
      rfl
    have hacc3 : (run env (n + 3)).accepts = false := by
      rw [accepts_eq, (rrat_three env hn).2.1, hnw]
      rfl
    have hlist : (run env (n + 4)).freelist = (run env n).freelist := by
      rw [freelist_four env hn hacc3, freelist_three env hn hflush hacc2, freelist_two env hn,
        (freelist_one env hn).2.2 hal]
    refine ⟨⟨hlist ▸ hf.head, hlist ▸ hf.tail, hlist ▸ hf.size⟩, ?_⟩
    intro p
    have hfree : (run env (n + 4)).free = (run env n).free := by rw [free, hlist]; rfl
    show (∃ a, (run env (n + 4)).rrat.arr a = p) ∨ p ∈ (run env (n + 4)).free
    rw [hr4, hfree]
    exact hc p

/-- **A slot that meets the condition loses nothing.** -/
theorem full_step (hk : KeepsRegisters (run env n)) :
    Full (run env (n + 4)) ∧ (run env (n + 4)).maps.Covering := by
  cases hal : Rename.allocates (run env n).renameQueueOut with
  | false => exact full_step_of_not_allocates env hn hf hc hal
  | true =>
    obtain ⟨hinj, -, -⟩ := hf.exact hc
    obtain ⟨htake, hpc, -⟩ := hk hal
    have hflush : (run env (n + 2)).exe.flush = true := by
      rw [flush_two env hn, htake, Bool.and_true, decide_eq_true_iff]
      exact hpc
    have hinj2 : Function.Injective (run env (n + 2)).rrat.arr := by
      rw [(rrat_two env hn).1]
      split_ifs
      · exact Renaming.injective_update hinj fun b _ => rrat_ne_mapWr env hf hc hal b
      · exact hinj
    have hsame : (run env (n + 4)).rrat.arr = (run env (n + 2)).rrat.arr := by
      rw [rrat_next env hn, (rrat_two env hn).1, not_writesBack_of_keeps env hn hk, Bool.or_false]
    exact ⟨(free_next_of_flush env hn hflush).2, covering_of_flush env hn hflush hinj2 hsame⟩

omit hn hc in
/-- The register taken from a full list is the one in `queue[0]`. -/
theorem freeReg_eq (hal : Rename.allocates (run env n).renameQueueOut = true) :
    (run env n).freeReg = (run env n).freelist.queue 0 := by
  have hd : QueueObj.dequeues (run env n).freelistInputs (run env n).freelist = true :=
    (dequeues_freelist _).trans hal
  rw [freeReg, QueueObj.dequeData, if_pos hd, hf.head]

omit hc in
/-- The list of the third cycle, where a register was taken: a return finds room,
and the cell it reads holds the register taken. -/
theorem freelist_two_of_allocates (hal : Rename.allocates (run env n).renameQueueOut = true) :
    (run env (n + 2)).free = (run env n).free.drop 1 ∧
      (run env (n + 2)).freelist.size < 32 ∧
      (run env (n + 2)).freelist.tail = 31 ∧
      (run env (n + 2)).freelist.queue 0 = (run env n).freeReg := by
  have h1 : (run env (n + 1)).free = (run env n).free.drop 1 := by
    rw [free_run_succ env (exe_quiet env (by omega)).flush, hal]
    simp [accepts_eq, returnMap_slot env hn]
  have h2 : (run env (n + 2)).free = (run env n).free.drop 1 := by
    rw [free, freelist_two env hn]
    exact h1
  refine ⟨h2, ?_, ?_, ?_⟩
  · rw [← length_free, h2, List.length_drop, length_free, hf.size]
    omega
  · rw [freelist_two env hn, (freelist_one env hn).1, hf.tail]
  · rw [freelist_two env hn, (freelist_one env hn).2.1, freeReg_eq env hf hal]

omit hc in
/-- The list of the next slot, where a register was taken and nothing flushed: the
return of a result puts the register taken back. -/
theorem free_next (hal : Rename.allocates (run env n).renameQueueOut = true)
    (hflush : (run env (n + 2)).exe.flush = false) : (run env (n + 4)).free =
      (run env n).free.drop 1 ++
        if commitsExe (issued env n) || writesBack (issued env n) then
          [(run env n).freeReg] else [] := by
  obtain ⟨h2, hsize, htail, hcell⟩ := freelist_two_of_allocates env hn hf hal
  have hacc2 : (run env (n + 2)).accepts = commitsExe (issued env n) := by
    rw [accepts_eq, (rrat_two env hn).2.1, decide_eq_true hsize, Bool.and_true]
  have h3 := free_run_succ env (n := n + 2) hflush
  have h4 := free_run_succ env (n := n + 3) (exe_quiet env (by omega)).flush
  rw [renameQueueOut_of_ne env (by omega), hacc2, returned_of_tail_eq htail, hcell, h2] at h3
  rw [renameQueueOut_of_ne env (by omega)] at h4
  cases hw : writesBack (issued env n) with
  | false =>
    have hacc3 : (run env (n + 3)).accepts = false := by
      rw [accepts_eq, (rrat_three env hn).2.1, hw]
      rfl
    rw [hacc3] at h4
    simpa using h4.trans (by simpa using h3)
  | true =>
    have hnc := not_commitsExe_of_writesBack hw
    have hlist := freelist_three env hn hflush (hacc2.trans hnc)
    have hacc3 : (run env (n + 3)).accepts = true := by
      rw [accepts_eq, (rrat_three env hn).2.1, hw, hlist, decide_eq_true hsize]
      rfl
    rw [hacc3, returned_of_tail_eq (hlist ▸ htail), hlist, hcell] at h4
    rw [hnc] at h3
    simp only [Rename.allocates_zero, Bool.toNat_false, List.drop_zero, Bool.false_eq_true,
      if_false, List.append_nil, if_true] at h3 h4
    rw [h4, h3]
    simp

/-- The register a result displaces, if it does not come back, is lost. -/
theorem not_covering (hal : Rename.allocates (run env n).renameQueueOut = true)
    (hcw : (commitsExe (issued env n) || writesBack (issued env n)) = true)
    (hlost : (run env n).rrat.arr (run env n).renameQueueOut.rd ∉ (run env (n + 4)).free) :
    ¬(run env (n + 4)).maps.Covering := by
  intro hcov
  rcases hcov ((run env n).rrat.arr (run env n).renameQueueOut.rd) with ⟨b, hb⟩ | hmem
  · have hb' : (run env (n + 4)).rrat.arr b =
        (run env n).rrat.arr (run env n).renameQueueOut.rd := hb
    rw [rrat_next env hn, if_pos hcw] at hb'
    by_cases hbrd : b = (run env n).renameQueueOut.rd
    · rw [hbrd, Function.update_self] at hb'
      exact rrat_ne_mapWr env hf hc hal _ hb'.symm
    · rw [Function.update_of_ne hbrd] at hb'
      exact hbrd ((hf.exact hc).1 hb')
  · exact hlost hmem

/-- A slot that flushes and still does not meet the condition is a load that writes
a register, and it is written back after the list was rebuilt. -/
theorem not_accounted_of_flush (hk : ¬KeepsRegisters (run env n))
    (hflush : (run env (n + 2)).exe.flush = true) : ¬AllAccounted (run env (n + 4)) := by
  intro hacct
  rw [KeepsRegisters, Classical.not_imp] at hk
  obtain ⟨hal, hk⟩ := hk
  have hfree := (free_next_of_flush env hn hflush).1
  rw [flush_two env hn, Bool.and_eq_true, decide_eq_true_iff] at hflush
  obtain ⟨hm, hr, hrd⟩ : (run env n).renameQueueOut.controls.memRead = true ∧
      (run env n).renameQueueOut.controls.regWrite = true ∧
      (run env n).renameQueueOut.rd ≠ 0 := by
    by_contra hno
    exact hk ⟨hflush.2, hflush.1, hno⟩
  have hw : writesBack (issued env n) = true := by
    rw [writesBack_iff env hn, issued_regWrite env hn, hr, bne_iff_ne.mpr hrd]
    exact ⟨hm, rfl⟩
  have hr2 : (run env (n + 2)).rrat.arr = (run env n).rrat.arr := by
    rw [(rrat_two env hn).1, not_commitsExe_of_writesBack hw]
    rfl
  refine not_covering env hn hf hc hal (by rw [hw, Bool.or_true]) ?_ hacct.covering
  rw [hfree, hr2]
  exact fun hmem => mem_missing.mp (List.mem_of_mem_take hmem) _ rfl

/-- Without a flush the list ends one short, or with the register taken back and
the one it displaces lost. -/
theorem not_accounted_of_not_flush (hal : Rename.allocates (run env n).renameQueueOut = true)
    (hflush : (run env (n + 2)).exe.flush = false) : ¬AllAccounted (run env (n + 4)) := by
  intro hacct
  have hfree := free_next env hn hf hal hflush
  cases hcw : commitsExe (issued env n) || writesBack (issued env n) with
  | false =>
    have hlen := hacct.size
    rw [hfree, hcw, List.length_append, List.length_drop, length_free, hf.size] at hlen
    simp at hlen
  | true =>
    refine not_covering env hn hf hc hal hcw ?_ hacct.covering
    rw [hfree, hcw]
    intro hmem
    refine (hf.exact hc).2.2 (run env n).renameQueueOut.rd ?_
    rcases List.mem_append.mp hmem with hmem | hmem
    · exact List.mem_of_mem_drop hmem
    · have heq := List.mem_singleton.mp hmem
      show (run env n).rrat.arr _ ∈ (run env n).free
      rw [heq, free_eq_cons env n hal]
      exact List.mem_cons_self ..

/-- **A slot that does not meet the condition loses a register.** -/
theorem not_accounted_step (hk : ¬KeepsRegisters (run env n)) :
    ¬AllAccounted (run env (n + 4)) := by
  cases hflush : (run env (n + 2)).exe.flush with
  | true => exact not_accounted_of_flush env hn hf hc hk hflush
  | false =>
    have hal := (Classical.not_imp.mp hk).1
    exact not_accounted_of_not_flush env hn hf hc hal hflush

end Slot

section Run

variable {env}

theorem full_zero : Full (run env 0) ∧ (run env 0).maps.Covering := by
  refine ⟨⟨rfl, rfl, rfl⟩, ?_⟩
  exact (by decide : ∀ p : Tag, (∃ a, TableObj.reset.arr a = p) ∨
    p ∈ QueueObj.contents freelistParams (QueueObj.reset freelistParams))

/-- Slots that meet the condition lead to slots where every register is
accounted for. -/
theorem full_of_keeps (n : ℕ) (hn : n % 4 = 0)
    (hk : ∀ k < n, (run env k).id.bubble = 0 → KeepsRegisters (run env k)) :
    Full (run env n) ∧ (run env n).maps.Covering := by
  refine Lib.Clocked.run_every (k := 4)
    (P := fun n => (∀ k < n, (run env k).id.bubble = 0 → KeepsRegisters (run env k)) →
      Full (run env n) ∧ (run env n).maps.Covering) (fun _ => full_zero) ?_ n hn hk
  intro n hn ih hk
  obtain ⟨hf, hc⟩ := ih fun k hkn => hk k (by omega)
  exact full_step env hn hf hc (hk n (by omega) ((bubble_run_eq_zero env).mpr hn))

end Run

/-- **No register is lost in a run if and only if every slot of it keeps its
registers.** -/
theorem noneLost_iff (env : ℕ → Mips → Input) :
    NoneLost env ↔ ∀ n, (run env n).id.bubble = 0 → KeepsRegisters (run env n) := by
  constructor
  · intro h n
    induction n using Nat.strong_induction_on with
    | _ n ih =>
      intro hb
      have hn := (bubble_run_eq_zero env).mp hb
      obtain ⟨hf, hc⟩ := full_of_keeps n hn ih
      by_contra hk
      refine not_accounted_step env hn hf hc hk (h (n + 4) ?_)
      rw [bubble_run_eq_zero]
      omega
  · intro hk n hb
    obtain ⟨hf, hc⟩ := full_of_keeps n ((bubble_run_eq_zero env).mp hb) fun k _ => hk k
    exact hf.accounted hc

/-- `addu $0,$0,$0` at every address. -/
def adduZero : ℕ → Mips → Input := programEnv (fun _ => 0x00000021) 0

/-- The first ADDU takes register 32 for `$0`, and 31 registers are left. -/
theorem not_noneLost_adduZero : ¬NoneLost adduZero := by
  intro h
  have hrun : machine.evalRun adduZero 16 (fun s => decide (s.free.length < 32)) = true := by
    decide +kernel
  rw [Clocked.evalRun_eq, decide_eq_true_iff] at hrun
  have hsize := (h 16 ((bubble_run_eq_zero _).mpr rfl)).size
  exact absurd hrun (by show ¬(run adduZero 16).free.length < 32; omega)

end Mips
end OooProcessor
