/-
# Busy registers

A register is awaited from the falling edge on at which Rename hands it out until
its result leaves EXE or MEM (`awaited`), and `busy` is meant to say so.  Rename
marks another register: not the one it hands out but the one the destination was
mapped to before, and it clears the one RRAT gives back.  Issue reads the bit the
wrong way round, as `busy[MapA]` is what the ready bit of the operand becomes.

So the two agree only in runs in which nothing is handed out, and in which what is
enqueued waits for nothing (`busyContract_iff`): at the first hand-out FRAT is still what it was
at reset, and the register comes from the other half of the register file.
-/

import OooProcessor.Core.Coverage
import OooProcessor.Issue.Held

namespace OooProcessor
namespace Mips

open Lib

/-- Rename takes a register from the free list at a falling edge. -/
def takes (i : Rename.Inputs) : Bool :=
  !(Rename.haltRenameQueue i || i.flush) && Rename.allocates i.entry

/-- The register it hands out. -/
def handsOut (s : Mips) : Option Tag := if takes s.renameInputs then some s.freeReg else none

/-- A result is broadcast or written back to `p` at a falling edge. -/
def results (s : Mips) (p : Tag) : Bool :=
  (s.exe.broadcastFlag && s.exe.broadcastMap == p) ||
    (s.mem.regWrite1Out && s.mem.broadcastMap == p)

variable (env : ℕ → Mips → Input)

/-- Register `p` has been handed out before cycle `n`, and its result has not come. -/
def awaited : ℕ → Tag → Bool
  | 0, _ => false
  | n + 1, p =>
    (high env n).handsOut == some p || (awaited n p && !(high env n).results p)

/-- The inputs of Issue with the wires of `ID.v` on `busy`. -/
def withBusy (s : Mips) (i : Issue.Inputs) : Issue.Inputs :=
  { i with busy := fun t => s.rename.busy t.toFin }

/-- What Issue is given beside the core, `i` on its other ports. -/
def issueEnv (i : ℕ → Issue.State → Issue.Inputs) (n : ℕ) (s : Issue.State) : Issue.Inputs :=
  (run env n).withBusy (i n s)

/-- In cycle `n` an instruction is enqueued into slot `x` of Issue. -/
def EnqueuesAt (multReady : Fin 16 → Bool) (i : ℕ → Issue.State → Issue.Inputs) (n : ℕ)
    (x : Fin 16) : Prop :=
  Issue.enqueues (Issue.input multReady (issueEnv env i) n)
    (Issue.run multReady (issueEnv env i) n) = some x

/-- What Rename gives Issue in cycle `n`. -/
def issueinfo (multReady : Fin 16 → Bool) (i : ℕ → Issue.State → Issue.Inputs) (n : ℕ) :
    BitVec 170 := (Issue.input multReady (issueEnv env i) n).renameIssueinfo

/-- **What Rename and Issue should agree on**: `busy` is what is awaited, and after an
enqueue the slot has an operand ready if its register is not busy. -/
structure BusyContract (multReady : Fin 16 → Bool) (i : ℕ → Issue.State → Issue.Inputs) :
    Prop where
  busy : ∀ n p, (run env n).rename.busy p = awaited env n p
  ready : ∀ n x, EnqueuesAt env multReady i n x → ∀ k,
    Issue.isOperand (issueinfo env multReady i n) k = true →
      Issue.tag (issueinfo env multReady i n) k ≠ 0 →
        (((Issue.high multReady (issueEnv env i) n).queue x).ready k = true ↔
          (run env n).rename.busy (Issue.tag (issueinfo env multReady i n) k).toFin = false)

section Marked

variable {i : Issue.Inputs} {k : Fin 3}

/-- **Issue copies the bit.** -/
theorem marked_of_tag_ne_zero (hk : Issue.isOperand i.renameIssueinfo k = true)
    (ht : Issue.tag i.renameIssueinfo k ≠ 0) :
    Issue.marked i k = i.busy (Issue.tag i.renameIssueinfo k) := by
  fin_cases k
  · exact if_neg ht
  · exact if_neg ht
  · have hno : Issue.noStoreData i.renameIssueinfo = false := by
      simpa [Issue.isOperand] using hk
    exact if_neg (by rw [hno]; exact Bool.false_ne_true)

/-- So what is enqueued is ready for the registers that are busy. -/
theorem ready_of_enqueuesAt {env : ℕ → Mips → Input} {multReady : Fin 16 → Bool}
    {i : ℕ → Issue.State → Issue.Inputs} {n : ℕ} {x : Fin 16}
    (h : EnqueuesAt env multReady i n x)
    (hk : Issue.isOperand (issueinfo env multReady i n) k = true)
    (ht : Issue.tag (issueinfo env multReady i n) k ≠ 0) :
    ((Issue.high multReady (issueEnv env i) n).queue x).ready k =
      (run env n).rename.busy (Issue.tag (issueinfo env multReady i n) k).toFin := by
  have hslot := Issue.queue_of_enqueues (Issue.holds_run n).empty h
  exact (congrArg (fun c => c.ready k) hslot).trans (marked_of_tag_ne_zero hk ht)

end Marked

section Rename

variable (i : Rename.Inputs) (t : Rename.State)

/-- **What becomes of the bits** at a falling edge. -/
theorem busy_negedge : (Rename.negedge i t).busy =
    if takes i then
      Rename.busyClear i t.busy (Function.update t.busy (i.fratMyMap i.entry.rd) true)
    else if i.flush then fun _ => false
    else Rename.busyClear i t.busy t.busy := by
  unfold Rename.negedge takes
  cases hgo : !(Rename.haltRenameQueue i || i.flush) with
  | false => rfl
  | true =>
    have hflush : i.flush = false := by
      rw [Bool.not_eq_true', Bool.or_eq_false_iff] at hgo
      exact hgo.2
    cases hal : Rename.allocates i.entry with
    | true => simp
    | false => simp [hflush]

end Rename

section Handout

variable {env} {n : ℕ}

/-- Registers are handed out in the cycle before an issue slot, for its instruction. -/
theorem handsOut_high (n : ℕ) : (high env n).handsOut =
    if n % 4 = 3 ∧ Rename.allocates (run env (n + 1)).renameQueueOut = true then
      some (run env (n + 1)).freeReg
    else none := by
  have htakes : takes (high env n).renameInputs =
      Rename.allocates (run env (n + 1)).renameQueueOut := by
    cases hal : Rename.allocates (run env (n + 1)).renameQueueOut with
    | false => exact (Bool.and_eq_false_iff).mpr (.inr hal)
    | true =>
      have hn : n % 4 = 3 := by
        by_contra hne
        rw [renameQueueOut_of_ne env (by omega)] at hal
        exact Bool.false_ne_true hal
      have hflush : (high env n).renameInputs.flush = false :=
        (exe_quiet env (n := n + 1) (by omega)).flush
      have hhalt : Rename.haltRenameQueue (high env n).renameInputs = false := by
        by_contra hh
        have hb : (high env n).id.bubble = 0 := (bubble_run_eq_zero env (n := n + 1)).mpr (by omega)
        have hheld : (high env n).haltRenameQueue = true := by
          simpa [Rename.haltRenameQueue, renameInputs, haltRenameQueue, hb] using hh
        have hzero : (run env (n + 1)).renameQueueOut = 0 := renameQueueOut_of_halt hheld
        rw [hzero] at hal
        exact Bool.false_ne_true hal
      rw [takes, hhalt, hflush]
      exact hal
  rw [handsOut, htakes]
  by_cases hn : n % 4 = 3
  · simp only [hn, true_and]
    rfl
  · rw [renameQueueOut_of_ne env (by omega)]
    simp

/-- A cycle in which nothing is handed out marks nothing. -/
theorem busy_succ (h : (high env n).handsOut = none)
    (hbusy : ∀ p, (run env n).rename.busy p = false) (p : Tag) :
    (run env (n + 1)).rename.busy p = false := by
  have hnone : (run env n).rename.busy = fun _ => false := funext hbusy
  have hgo : takes (high env n).renameInputs = false := by
    by_contra hgo
    rw [handsOut, if_pos (by simpa using hgo)] at h
    exact absurd h (Option.some_ne_none _)
  rw [rename_run_succ, busy_negedge, hgo, if_neg Bool.false_ne_true, hnone]
  split_ifs
  · rfl
  · rw [Rename.busyClear, ite_self, Function.update_eq_self]

/-- Before the first hand-out nothing is marked, and nothing awaited. -/
theorem busy_of_none (h : ∀ k < n, (high env k).handsOut = none) (p : Tag) :
    (run env n).rename.busy p = false ∧ awaited env n p = false := by
  induction n generalizing p with
  | zero => exact ⟨rfl, rfl⟩
  | succ n ih =>
    have ih := ih fun k hk => h k (Nat.lt_succ_of_lt hk)
    have hn := h n (Nat.lt_succ_self n)
    exact ⟨busy_succ hn (fun p => (ih p).1) p, by simp [awaited, hn, (ih p).2]⟩

/-- Before it the issue slots take no register. -/
theorem not_allocates_of_none (h : ∀ k < n, (high env k).handsOut = none) {m : ℕ} (hm : m ≤ n) :
    Rename.allocates (run env m).renameQueueOut = false := by
  cases m with
  | zero => rfl
  | succ m =>
    by_contra hal
    rw [Bool.not_eq_false] at hal
    have hout := h m hm
    rw [handsOut_high] at hout
    by_cases hn : m % 4 = 3
    · rw [if_pos ⟨hn, hal⟩] at hout
      exact absurd hout (Option.some_ne_none _)
    · rw [renameQueueOut_of_ne env (by omega)] at hal
      exact Bool.false_ne_true hal

/-- Nor do they move FRAT or RRAT. -/
theorem maps_of_none (hn : n % 4 = 0)
    (h : ∀ m < n, Rename.allocates (run env m).renameQueueOut = false) :
    (run env n).frat.arr = TableObj.reset.arr ∧ (run env n).rrat.arr = TableObj.reset.arr := by
  refine Clocked.run_every (k := 4)
    (P := fun n => (∀ m < n, Rename.allocates (run env m).renameQueueOut = false) →
      (run env n).frat.arr = TableObj.reset.arr ∧ (run env n).rrat.arr = TableObj.reset.arr)
    (fun _ => ⟨rfl, rfl⟩) ?_ n hn h
  intro n hn ih h
  obtain ⟨hf, hr⟩ := ih fun m hm => h m (by omega)
  have hal := h n (by omega)
  obtain ⟨hnc, hnw⟩ := not_commits_of_not_allocates env hn hal
  have hremaps : (run env n).remaps = false := by rw [remaps, hal, Bool.false_and]
  constructor
  · rw [frat_four env hn, frat_one env hn, hremaps, if_neg Bool.false_ne_true, hf]
  · rw [rrat_next env hn, hnc, hnw, Bool.or_self, if_neg Bool.false_ne_true, hr]

/-- **The first register handed out** is not the one the destination was mapped to. -/
theorem freeReg_ne_frat (hn : n % 4 = 0)
    (h : ∀ m < n, Rename.allocates (run env m).renameQueueOut = false)
    (hal : Rename.allocates (run env n).renameQueueOut = true) (a : Reg) :
    (run env n).freeReg ≠ (run env n).frat.arr a := by
  obtain ⟨hfrat, hrrat⟩ := maps_of_none hn h
  obtain ⟨hf, hc⟩ : Full (run env n) ∧ (run env n).maps.Covering :=
    full_of_keeps n hn fun k hk _ hal => absurd ((h k hk).symm.trans hal) Bool.false_ne_true
  have hmem : (run env n).freeReg ∈ (run env n).free := by
    rw [free_eq_cons env n hal]
    exact List.mem_cons_self ..
  intro heq
  rw [heq, hfrat, ← hrrat] at hmem
  exact (hf.exact hc).2.2 a hmem

/-- **The first hand-out** marks another register than it hands out. -/
theorem handsOut_eq_none (h : ∀ n p, (run env n).rename.busy p = awaited env n p) (n : ℕ) :
    (high env n).handsOut = none := by
  induction n using Nat.strong_induction_on with
  | _ n ih =>
    by_contra hsome
    obtain ⟨p, hp⟩ := Option.ne_none_iff_exists'.mp hsome
    have hout := hp.symm.trans (handsOut_high n)
    split_ifs at hout with hslot
    obtain ⟨hn, hal⟩ := hslot
    obtain rfl := Option.some.inj hout
    have hbefore : ∀ m < n + 1, Rename.allocates (run env m).renameQueueOut = false :=
      fun m hm => not_allocates_of_none ih (by omega)
    have hne : (run env (n + 1)).freeReg ≠
        (run env (n + 1)).frat.arr (run env (n + 1)).renameQueueOut.rd :=
      freeReg_ne_frat (by omega) hbefore hal _
    have hawaited : awaited env (n + 1) (run env (n + 1)).freeReg = true := by
      simp [awaited, hp]
    have hmarked : (run env (n + 1)).rename.busy (run env (n + 1)).freeReg = false := by
      have hnone : (run env n).rename.busy = fun _ => false :=
        funext fun p => (busy_of_none ih p).1
      have htakes : takes (high env n).renameInputs = true := by
        by_contra hno
        rw [handsOut, if_neg hno] at hp
        exact absurd hp.symm (Option.some_ne_none _)
      have hfrat : (high env n).renameInputs.fratMyMap = (run env (n + 1)).frat.arr :=
        (frat_of_ne env (n := n) (by omega)).symm
      rw [rename_run_succ, busy_negedge, htakes, if_pos rfl, hnone, Rename.busyClear, ite_self,
        hfrat]
      rw [Function.update_apply]
      split_ifs
      · rfl
      · exact Function.update_of_ne hne _ _
    rw [h, hawaited] at hmarked
    exact Bool.false_ne_true hmarked.symm

end Handout

/-- **When the busy bits are right**: Rename and Issue agree in a run if and only if
nothing is handed out in it, and no operand that is enqueued waits for a register. -/
theorem busyContract_iff (env : ℕ → Mips → Input) (multReady : Fin 16 → Bool)
    (i : ℕ → Issue.State → Issue.Inputs) :
    BusyContract env multReady i ↔ (∀ n, (high env n).handsOut = none) ∧
      ∀ n x, EnqueuesAt env multReady i n x → ∀ k,
        Issue.isOperand (issueinfo env multReady i n) k = true →
          Issue.tag (issueinfo env multReady i n) k = 0 := by
  constructor
  · rintro ⟨hbusy, hready⟩
    refine ⟨handsOut_eq_none hbusy, fun n x hx k hk => ?_⟩
    by_contra ht
    have hiff := hready n x hx k hk ht
    rw [ready_of_enqueuesAt hx hk ht] at hiff
    exact absurd hiff (by simp)
  · rintro ⟨hnone, htag⟩
    refine ⟨fun n p => ?_, fun n x hx k hk ht => absurd (htag n x hx k hk) ht⟩
    obtain ⟨hbusy, hawaited⟩ := busy_of_none (fun k (_ : k < n) => hnone k) p
    rw [hbusy, hawaited]

/-- `addiu $8,$0,1` at every address. -/
def addiuEight : ℕ → Mips → Input := programEnv (fun _ => 0x24080001) 0

/-- Its first ADDIU is handed a register. -/
theorem not_busyContract_addiuEight : ¬∀ env multReady i, BusyContract env multReady i := by
  intro h
  have hout := handsOut_eq_none (h addiuEight (fun _ => false) Issue.oneSlot).busy 11
  have hal : machine.evalRun addiuEight 12 (fun s => Rename.allocates s.renameQueueOut) = true := by
    decide +kernel
  rw [Clocked.evalRun_eq] at hal
  rw [handsOut_high, if_pos ⟨rfl, hal⟩] at hout
  exact absurd hout (Option.some_ne_none _)

end Mips
end OooProcessor
