/-
# One owner for each physical register

The free list hands a register out once only if nothing comes back to it that is
still in use.  Two things can: the write of a returned register is lost when
`tail` stands at 31, and whatever `queue[0]` was left with comes back in its
place; and a flush rebuilds the list from RRAT, while the load in a delay slot,
which FRAT already maps, has not reached RRAT yet.  `CleanStep` says that neither
happens in a cycle, and `noDoubleAllocation_iff` that these are all the ways to
allocate a register twice: in a run of clean steps no register ever has two
owners, and the first step that is not clean gives one two.
-/

import OooProcessor.Core.Evaluate
import OooProcessor.Core.FreeList

namespace OooProcessor
namespace Mips

open Lib

/-- The rising edge that follows brings back no register that is in use. -/
structure CleanStep (s : Mips) : Prop where
  /-- A flush finds every register FRAT maps in RRAT. -/
  flush : s.exe.flush = true → ∀ a, ∃ c, s.rrat.arr c = s.frat.arr a
  /-- A return at `tail = 31`, which leaves `queue[0]` as it was, finds a register
  there that is not in use. -/
  wrap : s.exe.flush = false → s.accepts = true → s.freelist.tail = 31 →
    s.maps.Unowned (s.freelist.queue 0)

variable (env : ℕ → Mips → Input) {n : ℕ}

/-- **No register is allocated twice**: in every state the free registers are
distinct and FRAT is injective, and at every issue slot, when the instruction
before has written back, neither FRAT nor RRAT maps to a free register. -/
structure NoDoubleAllocation : Prop where
  run : ∀ n, (run env n).free.Nodup ∧ Function.Injective (run env n).frat.arr
  high : ∀ n, (high env n).free.Nodup ∧ Function.Injective (high env n).frat.arr
  slot : ∀ n, (Mips.run env n).id.bubble = 0 →
    ∀ a, (Mips.run env n).frat.arr a ∉ (Mips.run env n).free ∧
      (Mips.run env n).rrat.arr a ∉ (Mips.run env n).free

section Slot

variable (hn : n % 4 = 0) (hx : (run env n).maps.Exclusive)

include hn hx

theorem exclusive_high_zero : (high env n).maps.Exclusive := by
  rw [maps_high_zero env hn]
  split_ifs
  · exact hx.take
  · exact hx

/-- The register taken has no owner until FRAT maps it. -/
theorem unowned_freeReg (hr : (run env n).remaps = true) :
    (high env n).maps.Unowned (run env n).freeReg := by
  have hal : Rename.allocates (run env n).renameQueueOut = true := by
    rw [remaps, Bool.and_eq_true] at hr
    exact hr.1
  rw [maps_high_zero env hn, if_pos hal]
  exact hx.unowned_take (free_eq_cons env n hal)

theorem exclusive_one : (run env (n + 1)).maps.Exclusive := by
  have h := exclusive_high_zero env hn hx
  rw [maps_one env hn]
  split_ifs with hr
  · exact h.install (unowned_freeReg env hn hx hr)
  · exact h

omit hx in
/-- What FRAT maps the destination to. -/
theorem frat_one_rd (hr : (run env n).remaps = true) :
    (run env (n + 1)).frat.arr (run env n).renameQueueOut.rd = (run env n).mapWr := by
  rw [frat_one env hn, if_pos hr, Function.update_self, mapWr_of_remaps hr]

/-- It is not what RRAT maps the destination to. -/
theorem rrat_one_ne (hr : (run env n).remaps = true) (a : Reg) :
    (run env (n + 1)).rrat.arr a ≠ (run env n).mapWr := by
  rw [(rrat_one env hn).1, mapWr_of_remaps hr]
  exact (unowned_freeReg env hn hx hr).back a

theorem exclusive_two : (run env (n + 2)).maps.Exclusive := by
  have h := exclusive_one env hn hx
  rw [maps_two env hn]
  split_ifs with hc
  · exact h.commit (frat_one_rd env hn (remaps_of_commitsExe env hn hc))
  · exact h

/-- What the second cycle returns is not in use any more. -/
theorem unowned_returned_two (hc : commitsExe (issued env n) = true) :
    (run env (n + 2)).maps.Unowned (run env (n + 2)).rrat.returnedMapping := by
  have hr := remaps_of_commitsExe env hn hc
  rw [maps_two env hn, if_pos hc, (rrat_two env hn).2.2 hc, ← (rrat_one env hn).1]
  exact (exclusive_one env hn hx).unowned_commit (frat_one_rd env hn hr)
    (rrat_one_ne env hn hx hr _)

variable (h2 : CleanStep (run env (n + 2)))

include h2

theorem exclusive_high_two : (high env (n + 2)).maps.Exclusive := by
  have h := exclusive_two env hn hx
  rw [maps_high_two env hn]
  split_ifs with hflush hacc
  · exact (h.rebuild (h2.flush hflush)).of_sublist (List.take_sublist 32 _)
  · refine h.release ?_
    by_cases ht : (run env (n + 2)).freelist.tail = 31
    · rw [returned_of_tail_eq ht]
      exact h2.wrap (by simpa using hflush) hacc ht
    · rw [returned_of_tail ht]
      rw [accepts_eq, (rrat_two env hn).2.1, Bool.and_eq_true] at hacc
      exact unowned_returned_two env hn hx hacc.1
  · exact h

theorem exclusive_three : (run env (n + 3)).maps.Exclusive := by
  have h := exclusive_high_two env hn hx h2
  rw [maps_three env hn]
  split_ifs with hw
  · refine h.commit ?_
    have hrd := frat_one_rd env hn (remaps_of_writesBack env hn hw)
    rwa [← frat_two env hn] at hrd
  · exact h

/-- What the third cycle returns is not in use any more. -/
theorem unowned_returned_three (hw : writesBack (issued env n) = true) :
    (run env (n + 3)).maps.Unowned (run env (n + 3)).rrat.returnedMapping := by
  have hr := remaps_of_writesBack env hn hw
  have hrrat : (run env (n + 2)).rrat.arr = (run env (n + 1)).rrat.arr := by
    rw [(rrat_two env hn).1, not_commitsExe_of_writesBack hw, (rrat_one env hn).1]
    rfl
  have hrd := frat_one_rd env hn hr
  rw [← frat_two env hn] at hrd
  rw [maps_three env hn, if_pos hw, (rrat_three env hn).2.2 hw]
  refine (exclusive_high_two env hn hx h2).unowned_commit hrd ?_
  show (run env (n + 2)).rrat.arr _ ≠ _
  rw [hrrat]
  exact rrat_one_ne env hn hx hr _

variable (h3 : CleanStep (run env (n + 3)))

include h3

theorem exclusive_high_three : (high env (n + 3)).maps.Exclusive := by
  have h := exclusive_three env hn hx h2
  rw [maps_high_three env hn]
  split_ifs with hacc
  · refine h.release ?_
    by_cases ht : (run env (n + 3)).freelist.tail = 31
    · rw [returned_of_tail_eq ht]
      exact h3.wrap (exe_quiet env (by omega)).flush hacc ht
    · rw [returned_of_tail ht]
      rw [accepts_eq, (rrat_three env hn).2.1, Bool.and_eq_true] at hacc
      exact unowned_returned_three env hn hx h2 hacc.1
  · exact h

end Slot

section Run

variable {env}

theorem exclusive_zero : (run env 0).maps.Exclusive where
  nodup := by
    show (QueueObj.contents freelistParams (QueueObj.reset freelistParams)).Nodup
    decide
  front_injective := (by decide : Function.Injective TableObj.reset.arr)
  back_injective := (by decide : Function.Injective TableObj.reset.arr)
  agree := (by decide : ∀ a b : Reg, TableObj.reset.arr a = TableObj.reset.arr b → a = b)
  front_not_mem := (by decide : ∀ a : Reg, TableObj.reset.arr a ∉
    QueueObj.contents freelistParams (QueueObj.reset freelistParams))
  back_not_mem := (by decide : ∀ a : Reg, TableObj.reset.arr a ∉
    QueueObj.contents freelistParams (QueueObj.reset freelistParams))

/-- A slot reached by clean steps finds every register with one owner. -/
theorem exclusive_slot (n : ℕ) (hn : n % 4 = 0) (hclean : ∀ k < n, CleanStep (run env k)) :
    (run env n).maps.Exclusive := by
  refine Clocked.run_every (k := 4)
    (P := fun n => (∀ k < n, CleanStep (run env k)) → (run env n).maps.Exclusive)
    (fun _ => exclusive_zero) ?_ n hn hclean
  intro n hn ih hclean
  have hx := ih fun k hk => hclean k (by omega)
  rw [maps_four env hn]
  exact exclusive_high_three env hn hx (hclean _ (by omega)) (hclean _ (by omega))

/-- **Clean steps keep one owner for each register**, between the edges as
well. -/
theorem exclusive_of_clean (n : ℕ) (hclean : ∀ k < n, CleanStep (run env k)) :
    (run env n).maps.Exclusive ∧ (CleanStep (run env n) → (high env n).maps.Exclusive) := by
  refine Clocked.run_all (k := 4) (by omega)
    (P := fun n => (∀ k < n, CleanStep (run env k)) → (run env n).maps.Exclusive ∧
      (CleanStep (run env n) → (high env n).maps.Exclusive)) ?_ n hclean
  intro n hn j hj hclean
  have hx := exclusive_slot n hn fun k hk => hclean k (by omega)
  obtain rfl | rfl | rfl | rfl : j = 0 ∨ j = 1 ∨ j = 2 ∨ j = 3 := by omega
  · exact ⟨hx, fun _ => exclusive_high_zero env hn hx⟩
  · exact ⟨exclusive_one env hn hx, fun _ => maps_high_one env hn ▸ exclusive_one env hn hx⟩
  · exact ⟨exclusive_two env hn hx, exclusive_high_two env hn hx⟩
  · have h2 := hclean (n + 2) (by omega)
    exact ⟨exclusive_three env hn hx h2, exclusive_high_three env hn hx h2⟩

end Run

section Converse

variable {env}

/-- In the first two cycles of a slot nothing comes back. -/
theorem clean_of_lt (hn : n % 4 < 2) : CleanStep (run env n) where
  flush h := by
    rw [(exe_quiet env (by omega)).flush] at h
    exact absurd h Bool.false_ne_true
  wrap _ h := by
    have hret : (run env n).rrat.returnMap = false := by
      obtain h0 | h1 : n % 4 = 0 ∨ n % 4 = 1 := by omega
      · exact returnMap_slot env h0
      · obtain ⟨k, rfl⟩ := Nat.exists_eq_add_of_le' (show 1 ≤ n by omega)
        exact (rrat_one env (by omega)).2
    rw [accepts_eq, hret] at h
    exact absurd h (by simp)

/-- A register in use that comes back is in use and free, or free twice. -/
theorem not_unowned {s : Mips} {p : Tag} (h : ¬s.maps.Unowned p) :
    (∃ a, s.frat.arr a = p) ∨ (∃ a, s.rrat.arr a = p) ∨ p ∈ s.free := by
  by_contra hno
  rw [not_or, not_or] at hno
  obtain ⟨hf, hr, hm⟩ := hno
  exact h ⟨fun a ha => hf ⟨a, ha⟩, fun a ha => hr ⟨a, ha⟩, hm⟩

theorem mem_free_four {p : Tag} (hn : n % 4 = 3) (h : p ∈ (run env n).free) :
    p ∈ (run env (n + 1)).free := by
  rw [free_run_succ env (exe_quiet env (by omega)).flush, renameQueueOut_of_ne env (by omega)]
  exact List.mem_append_left _ h

theorem frat_slot_eq (hn : n % 4 = 3) : (run env (n + 1)).frat.arr = (run env n).frat.arr :=
  frat_of_ne env (by omega)

theorem rrat_slot_eq (hn : n % 4 = 3) : (run env (n + 1)).rrat.arr = (run env n).rrat.arr :=
  (rrat_of_quiet env (exe_quiet env (by omega)) (mem_quiet env (by omega))).1

/-- A flush that misses a register FRAT maps frees it for the next slot. -/
theorem clean_flush (h : NoDoubleAllocation env) (hn : n % 4 = 2)
    (hx : (run env n).maps.Exclusive) (hflush : (run env n).exe.flush = true) (a : Reg) :
    ∃ c, (run env n).rrat.arr c = (run env n).frat.arr a := by
  by_contra hno
  have hlen : (missing (run env n).rrat.arr).length = 32 :=
    length_missing_of_injective hx.back_injective
  have hfree : (run env (n + 1)).free = missing (run env n).rrat.arr := by
    rw [free_run_succ_of_flush env hflush, List.take_of_length_le (by omega)]
  have hmem : (run env n).frat.arr a ∈ (run env (n + 1)).free := by
    rw [hfree, mem_missing]
    exact fun c hc => hno ⟨c, hc⟩
  have hslot := (h.slot (n + 2) ((bubble_run_eq_zero env).mpr (by omega)) a).1
  rw [frat_slot_eq (n := n + 1) (by omega), frat_of_ne env (n := n) (by omega)] at hslot
  exact hslot (mem_free_four (n := n + 1) (by omega) hmem)

/-- A return at `tail = 31` brings back what `queue[0]` holds. -/
theorem mem_free_of_wrap (hn : n % 4 ≠ 0) (hflush : (run env n).exe.flush = false)
    (hacc : (run env n).accepts = true) (ht : (run env n).freelist.tail = 31) :
    (run env (n + 1)).free = (run env n).free ++ [(run env n).freelist.queue 0] := by
  rw [free_run_succ env hflush, renameQueueOut_of_ne env hn, if_pos hacc, returned_of_tail_eq ht]
  rfl

/-- A register that is free after a return is free at the next slot, where the tables are
what they are now. -/
theorem mem_free_next_slot (hn : 2 ≤ n % 4) (hacc : (run env n).accepts = true) {p : Tag}
    (hmem : p ∈ (run env (n + 1)).free) : ∃ m, p ∈ (run env m).free ∧ m % 4 = 0 ∧
      (run env m).frat.arr = (run env n).frat.arr ∧
        (run env m).rrat.arr = (run env n).rrat.arr := by
  obtain h2 | h3 : n % 4 = 2 ∨ n % 4 = 3 := by omega
  · obtain ⟨k, rfl⟩ := Nat.exists_eq_add_of_le' (show 2 ≤ n by omega)
    have hk : k % 4 = 0 := by omega
    refine ⟨k + 4, mem_free_four (n := k + 3) (by omega) hmem, by omega, ?_, ?_⟩
    · rw [frat_four env hk, frat_two env hk]
    · have hcommit : commitsExe (issued env k) = true := by
        rw [accepts_eq, (rrat_two env hk).2.1, Bool.and_eq_true] at hacc
        exact hacc.1
      have hnot : ¬writesBack (issued env k) = true := fun hw => by
        rw [not_commitsExe_of_writesBack hw] at hcommit
        exact absurd hcommit Bool.false_ne_true
      rw [(rrat_four env hk).1, (rrat_three env hk).1, if_neg hnot]
  · exact ⟨n + 1, hmem, by omega, frat_slot_eq h3, rrat_slot_eq h3⟩

theorem clean_wrap (h : NoDoubleAllocation env) (hn : 2 ≤ n % 4)
    (hflush : (run env n).exe.flush = false) (hacc : (run env n).accepts = true)
    (ht : (run env n).freelist.tail = 31) :
    (run env n).maps.Unowned ((run env n).freelist.queue 0) := by
  by_contra hno
  have hfree := mem_free_of_wrap (show n % 4 ≠ 0 by omega) hflush hacc ht
  have hmem : (run env n).freelist.queue 0 ∈ (run env (n + 1)).free := by
    rw [hfree]
    exact List.mem_append_right _ (List.mem_singleton_self _)
  obtain ⟨m, hm, hmslot, hmf, hmr⟩ := mem_free_next_slot hn hacc hmem
  have hslot := h.slot m ((bubble_run_eq_zero env).mpr hmslot)
  rcases not_unowned hno with ⟨a, ha⟩ | ⟨a, ha⟩ | hdup
  · have := (hslot a).1
    rw [hmf, ha] at this
    exact this hm
  · have := (hslot a).2
    rw [hmr, ha] at this
    exact this hm
  · have hnodup := (h.run (n + 1)).1
    rw [hfree, List.nodup_append] at hnodup
    exact hnodup.2.2 _ hdup _ (List.mem_singleton_self _) rfl

end Converse

/-- **No register is allocated twice in a run if and only if every step of it is
clean.** -/
theorem noDoubleAllocation_iff (env : ℕ → Mips → Input) :
    NoDoubleAllocation env ↔ ∀ n, CleanStep (run env n) := by
  constructor
  · intro h n
    induction n using Nat.strong_induction_on with
    | _ n hclean =>
      have hx := (exclusive_of_clean n hclean).1
      by_cases hn : n % 4 < 2
      · exact clean_of_lt hn
      · refine ⟨fun hflush a => ?_, clean_wrap h (by omega)⟩
        have hn2 : n % 4 = 2 := by
          by_contra hne
          rw [(exe_quiet env hne).flush] at hflush
          exact absurd hflush Bool.false_ne_true
        exact clean_flush h hn2 hx hflush a
  · intro hclean
    have hx := fun n => exclusive_of_clean n fun k _ => hclean k
    refine ⟨fun n => ⟨(hx n).1.nodup, (hx n).1.front_injective⟩, fun n => ?_, fun n _ a =>
      ⟨(hx n).1.front_not_mem a, (hx n).1.back_not_mem a⟩⟩
    have hhigh := (hx n).2 (hclean n)
    exact ⟨hhigh.nodup, hhigh.front_injective⟩

/-- `addiu $9,$0,5`, once. -/
def oneAddiu : Word → Word
  | 0xBFC00000 => 0x24090005
  | _ => 0

/-- The first instruction that writes a register gets register 32 from the head
of the free list, and the return of the register it displaces puts 32 back. -/
theorem not_noDoubleAllocation_oneAddiu : ¬NoDoubleAllocation (programEnv oneAddiu 0) := by
  intro h
  have hrun : machine.evalRun (programEnv oneAddiu 0) 16
      (fun s => decide (s.frat.arr 9 ∈ s.free)) = true := by decide +kernel
  rw [Clocked.evalRun_eq] at hrun
  exact (h.slot 16 ((bubble_run_eq_zero _).mpr rfl) 9).1 (of_decide_eq_true hrun)

end Mips
end OooProcessor
