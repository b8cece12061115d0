/-
# The free list between two flushes

A flush refills the free list with the 32 registers that RRAT does not map, and reset
leaves it with 32 that no table maps.  From then on the list hands them out in order, and
what comes back is stored behind them, the first one lost, so that the cells not reached
yet stay as they are (`Moved.succ`).  The first 32 registers taken are therefore all
different and in no other use (`Fresh.slot`); the 33rd is the first once more.

A flush starts the count again, unless it finds a load in the delay slot, whose register
RRAT does not map yet (`Fresh.flush`).
-/

import OooProcessor.Core.Dataflow

namespace OooProcessor
namespace Mips

open Lib

/-- Since the free list was filled `c` registers have been taken and `k` come back. -/
structure Moved (q : QueueObj.State Tag) (c k : ℕ) : Prop where
  le : c ≤ 32
  lag : k ≤ c
  head : q.head = c % 32
  tail : q.tail = (31 + k) % 32
  size : q.size + c = 32 + k

variable {env : ℕ → Mips → Input} {n c k : ℕ}

section List

/-- One rising edge without a flush: the cells that are yet to be handed out stay. -/
theorem Moved.succ (h : Moved (run env n).freelist c k) (hflush : (run env n).exe.flush = false)
    (hal : Rename.allocates (run env n).renameQueueOut = true → c < 32)
    (hret : (run env n).rrat.returnMap = true → k < c) :
    Moved (run env (n + 1)).freelist (c + (Rename.allocates (run env n).renameQueueOut).toNat)
        (k + (run env n).rrat.returnMap.toNat) ∧
      ∀ i, c ≤ i → i < 32 → (run env (n + 1)).freelist.queue i = (run env n).freelist.queue i := by
  have hstep : (run env (n + 1)).freelist = QueueObj.advance freelistParams
      (run env n).freelistInputs (run env n).freelist := if_neg (by simp [freelistInputs, hflush])
  have hsize := h.size
  have henq : QueueObj.enqueues freelistParams (run env n).freelistInputs (run env n).freelist =
      (run env n).rrat.returnMap := by
    show (run env n).accepts = _
    rw [accepts_eq]
    cases hr : (run env n).rrat.returnMap with
    | false => rfl
    | true =>
      have := hret hr
      rw [decide_eq_true (by omega)]
      rfl
  rw [hstep]
  refine ⟨⟨?_, ?_, ?_, ?_, ?_⟩, fun i hi hi32 => ?_⟩
  · cases hd : Rename.allocates (run env n).renameQueueOut with
    | false => exact h.le
    | true => exact hal hd
  · have hlag := h.lag
    cases hr : (run env n).rrat.returnMap with
    | false => exact Nat.le_add_right_of_le hlag
    | true =>
      have := hret hr
      rw [Bool.toNat_true]
      omega
  · simp only [QueueObj.advance, dequeues_freelist, h.head]
    cases Rename.allocates (run env n).renameQueueOut with
    | false => rfl
    | true => exact (next_eq_mod (Nat.mod_lt _ (by decide))).trans (Nat.mod_add_mod ..)
  · simp only [QueueObj.advance, henq, h.tail]
    cases (run env n).rrat.returnMap with
    | false => rfl
    | true => exact (next_eq_mod (Nat.mod_lt _ (by decide))).trans (Nat.mod_add_mod ..)
  · simp only [QueueObj.advance, henq, dequeues_freelist]
    cases hd : Rename.allocates (run env n).renameQueueOut with
    | false => cases (run env n).rrat.returnMap <;> simp <;> omega
    | true =>
      have := hal hd
      cases (run env n).rrat.returnMap <;> simp <;> omega
  · have hidx : QueueObj.writeIndex freelistParams (run env n).freelist =
        ((31 + k) % 32 + 1) % 64 := by
      rw [← h.tail]
      rfl
    simp only [QueueObj.advance, henq, hidx]
    cases hr : (run env n).rrat.returnMap with
    | false => exact congrFun (writeAt_self _ _ _) i
    | true =>
      have hkc := hret hr
      have hc := h.le
      rcases Nat.eq_zero_or_pos k with rfl | hk
      · exact congrFun (writeAt_of_le (show 32 ≤ ((31 + 0) % 32 + 1) % 64 by decide) _ _) i
      · exact writeAt_apply_of_ne (by omega) _

/-- What a flush leaves. -/
theorem moved_of_flush (hflush : (run env n).exe.flush = true) :
    Moved (run env (n + 1)).freelist 0 0 := by
  have hstep : (run env (n + 1)).freelist = QueueObj.flushed freelistParams
      (run env n).freelistInputs (run env n).freelist := if_pos hflush
  rw [hstep]
  exact ⟨by decide, le_rfl, rfl, rfl, rfl⟩

/-- The cells of a list just filled are its entries. -/
theorem getElem?_free {s : Mips} (h : Moved s.freelist 0 0) {j : ℕ} (hj : j < 32) :
    s.free[j]? = some (s.freelist.queue j) := by
  have hsize : j < s.freelist.size := by
    have := h.size
    omega
  have hhead : s.freelist.head = 0 := h.head
  refine (getElem?_window hsize).trans ?_
  rw [hhead, Nat.zero_add]
  exact congrArg (fun i => some (s.freelist.queue i)) (Nat.mod_eq_of_lt hj)

end List

/-- **The registers yet to be handed out are all different and in no use**, `c` of them
gone since the list was filled. -/
structure Fresh (s : Mips) (c : ℕ) : Prop where
  moved : ∃ k, Moved s.freelist c k
  nodup : ∀ i j, c ≤ i → i < j → j < 32 → s.freelist.queue i ≠ s.freelist.queue j
  unmapped : ∀ j, c ≤ j → j < 32 → ∀ a, s.frat.arr a ≠ s.freelist.queue j
  injective : Function.Injective s.frat.arr

theorem fresh_zero : Fresh (run env 0) 0 where
  moved := ⟨0, by decide, le_rfl, rfl, rfl, rfl⟩
  nodup i j _ hij hj h := by
    have hval : (32 + i) % 64 = (32 + j) % 64 := congrArg Fin.val h
    omega
  unmapped j _ hj a h := by
    have hval : a.val = (32 + j) % 64 := congrArg Fin.val h
    have := a.isLt
    omega
  injective := (by decide : Function.Injective TableObj.reset.arr)

section Slot

/-- The register an instruction takes is the next one of the list. -/
theorem freeReg_of_moved {s : Mips} (h : Moved s.freelist c k) (hc : c < 32)
    (hal : Rename.allocates s.renameQueueOut = true) : s.freeReg = s.freelist.queue c := by
  have hhead : s.freelist.head = c := h.head.trans (Nat.mod_eq_of_lt hc)
  rw [freeReg, QueueObj.dequeData, dequeues_freelist, hal, if_pos rfl, hhead]

/-- It overwrites nothing. -/
theorem Fresh.ne_freeReg {s : Mips} (h : Fresh s c) (hc : c < 32)
    (hal : Rename.allocates s.renameQueueOut = true) (a : Reg) : s.frat.arr a ≠ s.freeReg := by
  obtain ⟨k, hk⟩ := h.moved
  rw [freeReg_of_moved hk hc hal]
  exact h.unmapped c le_rfl hc a

theorem Fresh.noOverwrite {s : Mips} (h : Fresh s c) (hc : c < 32) : NoOverwrite s :=
  fun hal _ a _ => h.ne_freeReg hc hal a

variable (hn : n % 4 = 0)

include hn

/-- The free list over the first two cycles of a slot, in which nothing comes back. -/
theorem Moved.two (h : Moved (run env n).freelist c k)
    (hal : Rename.allocates (run env n).renameQueueOut = true → c < 32) :
    Moved (run env (n + 2)).freelist
        (c + (Rename.allocates (run env n).renameQueueOut).toNat) k ∧
      ∀ i, c + (Rename.allocates (run env n).renameQueueOut).toNat ≤ i → i < 32 →
        (run env (n + 2)).freelist.queue i = (run env n).freelist.queue i := by
  have hret : (run env n).rrat.returnMap = false := returnMap_slot env hn
  have hret' : (run env (n + 1)).rrat.returnMap = false := (rrat_one env hn).2
  have hout : (run env (n + 1)).renameQueueOut = 0 := renameQueueOut_of_ne env (by omega)
  obtain ⟨h1, hq1⟩ := h.succ (exe_quiet env (by omega)).flush hal (by simp [hret])
  rw [hret] at h1
  obtain ⟨h2, hq2⟩ := h1.succ (exe_quiet env (by omega)).flush (by simp [hout]) (by simp [hret'])
  rw [hret', hout] at h2
  refine ⟨h2, fun i hi hi32 => ?_⟩
  rw [hq2 i hi hi32, hq1 i (by omega) hi32]

/-- An instruction that returns a register has taken one. -/
theorem allocates_of_returns (h : commitsExe (issued env n) = true ∨
    writesBack (issued env n) = true) : Rename.allocates (run env n).renameQueueOut = true := by
  rcases h with hx | hw
  · have hr := remaps_of_commitsExe env hn hx
    rw [remaps, Bool.and_eq_true] at hr
    exact hr.1
  · exact allocates_of_writesBack env hn hw

/-- The other two cycles: at most one register comes back. -/
theorem Moved.four (h : Moved (run env (n + 2)).freelist c k)
    (hflush : (run env (n + 2)).exe.flush = false)
    (hlag : Rename.allocates (run env n).renameQueueOut = true → k < c) :
    (∃ k, Moved (run env (n + 4)).freelist c k) ∧ ∀ i, c ≤ i → i < 32 →
      (run env (n + 4)).freelist.queue i = (run env (n + 2)).freelist.queue i := by
  have hret : (run env (n + 2)).rrat.returnMap = commitsExe (issued env n) :=
    (rrat_two env hn).2.1
  have hret' : (run env (n + 3)).rrat.returnMap = writesBack (issued env n) :=
    (rrat_three env hn).2.1
  have hout : (run env (n + 2)).renameQueueOut = 0 := renameQueueOut_of_ne env (by omega)
  have hout' : (run env (n + 3)).renameQueueOut = 0 := renameQueueOut_of_ne env (by omega)
  obtain ⟨h1, hq1⟩ := h.succ hflush (by simp [hout])
    (fun hr => hlag (allocates_of_returns hn (.inl (hret ▸ hr))))
  rw [hret, hout] at h1
  have hback : (run env (n + 3)).rrat.returnMap = true →
      k + (commitsExe (issued env n)).toNat < c := by
    intro hr
    rw [not_commitsExe_of_writesBack (hret' ▸ hr)]
    exact hlag (allocates_of_returns hn (.inr (hret' ▸ hr)))
  obtain ⟨h2, hq2⟩ := h1.succ (exe_quiet env (by omega)).flush (by simp [hout']) hback
  rw [hout'] at h2
  exact ⟨⟨_, h2⟩, fun i hi hi32 => (hq2 i hi hi32).trans (hq1 i hi hi32)⟩

/-- **A slot without a flush** takes one register or none. -/
theorem Fresh.slot (h : Fresh (run env n) c) (hc : c < 32)
    (hflush : (run env (n + 2)).exe.flush = false) :
    Fresh (run env (n + 4)) (c + (Rename.allocates (run env n).renameQueueOut).toNat) := by
  obtain ⟨k, hk⟩ := h.moved
  obtain ⟨h2, hq2⟩ := hk.two hn fun _ => hc
  obtain ⟨h4, hq4⟩ := h2.four hn hflush fun hal => by
    have := hk.lag
    rw [hal, Bool.toNat_true]
    omega
  have hcells : ∀ i, c + (Rename.allocates (run env n).renameQueueOut).toNat ≤ i → i < 32 →
      (run env (n + 4)).freelist.queue i = (run env n).freelist.queue i :=
    fun i hi hi32 => (hq4 i hi hi32).trans (hq2 i hi hi32)
  have hfrat : (run env (n + 4)).frat.arr = if (run env n).remaps then
      Function.update (run env n).frat.arr (run env n).renameQueueOut.rd
        ((run env n).freelist.queue c) else (run env n).frat.arr := by
    rw [frat_four env hn, frat_one env hn]
    cases hr : (run env n).remaps with
    | false => rfl
    | true =>
      rw [remaps, Bool.and_eq_true] at hr
      rw [freeReg_of_moved hk hc hr.1]
  refine ⟨h4, fun i j hi hij hj => ?_, fun j hj hj32 a => ?_, ?_⟩
  · rw [hcells i hi (by omega), hcells j (by omega) hj]
    exact h.nodup i j (by omega) hij hj
  · rw [hcells j hj hj32, hfrat]
    cases hr : (run env n).remaps with
    | false => exact h.unmapped j (by omega) hj32 a
    | true =>
      rw [remaps, Bool.and_eq_true] at hr
      rw [hr.1, Bool.toNat_true] at hj
      rw [if_pos rfl, Function.update_apply]
      split_ifs
      · exact h.nodup c j le_rfl (by omega) hj32
      · exact h.unmapped j (by omega) hj32 a
  · rw [hfrat]
    split_ifs
    · exact Renaming.injective_update h.injective fun a _ => h.unmapped c le_rfl hc a
    · exact h.injective

/-- **A flush starts again**, if no load is about to write back. -/
theorem Fresh.flush (hc : NoCop1 env) (h : Fresh (run env n) c) (hc32 : c < 32)
    (hflush : (run env (n + 2)).exe.flush = true) (hload : writesBack (issued env n) = false) :
    Fresh (run env (n + 4)) 0 := by
  have hmoved := moved_of_flush hflush
  have hout : (run env (n + 3)).renameQueueOut = 0 := renameQueueOut_of_ne env (by omega)
  have hret : (run env (n + 3)).rrat.returnMap = false := (rrat_three env hn).2.1.trans hload
  obtain ⟨h4, hq⟩ := hmoved.succ (exe_quiet env (by omega)).flush (by simp [hout])
    (by simp [hret])
  have hrrat : (run env (n + 2)).rrat.arr = (run env (n + 4)).frat.arr := by
    rw [frat_eq_rrat hc (n + 4) (by omega), (rrat_four env hn).1, (rrat_three env hn).1, hload]
    rfl
  have hfree : (run env (n + 3)).free = (missing (run env (n + 4)).frat.arr).take 32 := by
    rw [free_run_succ_of_flush env hflush, hrrat]
  have hcell : ∀ j < 32, (run env (n + 3)).free[j]? = some ((run env (n + 4)).freelist.queue j) :=
    fun j hj => by rw [getElem?_free hmoved hj, hq j (Nat.zero_le j) hj]
  have hnodup : (run env (n + 3)).free.Nodup := by
    rw [hfree]
    exact (nodup_missing _).sublist (List.take_sublist _ _)
  rw [hret, hout] at h4
  refine ⟨⟨0, h4⟩, fun i j _ hij hj heq => ?_, fun j _ hj a ha => ?_, ?_⟩
  · have hi := hcell i (by omega)
    rw [heq, ← hcell j hj] at hi
    obtain ⟨hlt, -⟩ := List.getElem?_eq_some_iff.mp (hcell i (by omega))
    exact absurd ((List.getElem?_inj hlt hnodup).mp hi) (by omega)
  · have hmem := List.mem_of_getElem? (hcell j hj)
    rw [hfree] at hmem
    exact mem_missing.mp (List.mem_of_mem_take hmem) a ha
  · rw [frat_four env hn, frat_one env hn]
    split_ifs with hr
    · rw [remaps, Bool.and_eq_true] at hr
      exact Renaming.injective_update h.injective fun a _ => h.ne_freeReg hc32 hr.1 a
    · exact h.injective

end Slot

section Run

variable (env) in
/-- The registers taken before slot `m` since the free list was filled. -/
def taken : ℕ → ℕ
  | 0 => 0
  | m + 1 =>
    if (run env (4 * m + 2)).exe.flush then 0
    else taken m + (Rename.allocates (run env (4 * m)).renameQueueOut).toNat

theorem fresh_slot (hc : NoCop1 env) {M : ℕ} (hroom : ∀ m < M, taken env m < 32)
    (hload : ∀ m < M, (run env (4 * m + 2)).exe.flush = true →
      writesBack (issued env (4 * m)) = false) {m : ℕ} (hm : m ≤ M) :
    Fresh (run env (4 * m)) (taken env m) := by
  induction m with
  | zero => exact fresh_zero
  | succ m ih =>
    have hfresh := ih (Nat.le_of_succ_le hm)
    have hn : 4 * m % 4 = 0 := Nat.mul_mod_right 4 m
    rw [Nat.mul_succ, taken]
    split_ifs with hflush
    · exact hfresh.flush hn hc (hroom m hm) hflush (hload m hm hflush)
    · exact hfresh.slot hn (hroom m hm) (Bool.eq_false_of_not_eq_true hflush)

/-- **The list hands out what is in no use**, slot after slot, and nothing is overwritten, as
long as no more than 32 registers are taken between two flushes and no flush finds a
load. -/
theorem fresh_run (hc : NoCop1 env) {M : ℕ} (hroom : ∀ m < M, taken env m < 32)
    (hload : ∀ m < M, (run env (4 * m + 2)).exe.flush = true →
      writesBack (issued env (4 * m)) = false) :
    (∀ m ≤ M, Fresh (run env (4 * m)) (taken env m)) ∧ ∀ m < M, NoOverwrite (run env (4 * m)) :=
  ⟨fun _ => fresh_slot hc hroom hload,
    fun m hm => (fresh_slot hc hroom hload hm.le).noOverwrite (hroom m hm)⟩

theorem taken_le (m : ℕ) : taken env m ≤ m := by
  induction m with
  | zero => exact le_rfl
  | succ m ih =>
    rw [taken]
    have hle := Bool.toNat_le (Rename.allocates (run env (4 * m)).renameQueueOut)
    split_ifs
    · exact Nat.zero_le _
    · omega

/-- `addiu $8,$0,1` before a jump back to it, with another one behind. -/
def countAndJump (a : Word) : Word := if a = 0xBFC00004 then 0x0BF00000 else 0x24080001

/-- The list is filled again in the fifth slot. -/
theorem fresh_run_countAndJump :
    Fresh (run (programEnv countAndJump 0) (4 * 6)) (taken (programEnv countAndJump 0) 6) ∧
      NoOverwrite (run (programEnv countAndJump 0) (4 * 5)) := by
  have hrun : ∀ m < 6, machine.evalRun (programEnv countAndJump 0) (4 * m + 1)
      (fun s => writesBack s.id.out) = false := by decide +kernel
  have hload : ∀ m < 6, writesBack (issued (programEnv countAndJump 0) (4 * m)) = false := by
    intro m hm
    have h := hrun m hm
    rw [Clocked.evalRun_eq] at h
    exact h
  have hc : NoCop1 (programEnv countAndJump 0) := fun n =>
    fetched_programEnv (S := fun w => Decoder.isLWC1 w = false ∧ Decoder.isCOP1 w = false)
      (by decide) (fun a => by unfold countAndJump; split_ifs <;> decide) 0 n
  have hroom : ∀ m < 6, taken (programEnv countAndJump 0) m < 32 := fun m hm =>
    Nat.lt_of_le_of_lt (taken_le m) (by omega)
  obtain ⟨hfresh, hkept⟩ := fresh_run hc hroom fun m hm _ => hload m hm
  exact ⟨hfresh 6 le_rfl, hkept 5 (by decide)⟩

end Run

end Mips
end OooProcessor
