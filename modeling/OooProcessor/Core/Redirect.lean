/-
# The cycle of a redirect

EXE asks for another address in one cycle only, and IF does not look at the request
while it is held back.  Nothing in the source checks that the two meet.  They do because
of the phase: a redirect is raised two cycles after its delay slot has left the rename
queue, so that the decode queue has room again, and two cycles before the rename queue
lets the next entry go (`redirect_ready`).

EXE takes an address 0 for a bubble.  A delay slot there raises nothing, and the redirect
waits for the next instruction (`not_redirectReady_zero`).
-/

import OooProcessor.Core.Sequence

namespace OooProcessor
namespace Mips

variable (env : ℕ → Mips → Input)

/-- The entries that have left the rename queue before cycle `n`, the most recent
first. -/
def dequeued : ℕ → List RenameEntry
  | 0 => []
  | n + 1 =>
    if QueueObj.dequeues (run env n).renameQueueInputs (run env n).renameQueue then
      (run env n).renameQueueOut :: dequeued n
    else dequeued n

/-- The address and the word of an instruction executed. -/
def Executed.item (r : Executed) : Word × Word := (r.pc, r.word)

/-- IF is sent elsewhere in cycle `n`: ID is half-way between two slots, the decode queue
has room, and the next rising edge loads the alternate address. -/
structure Obeyed (n : ℕ) : Prop where
  bubble : (run env n).id.bubble = 2
  room : (run env n).decodeQueue.size < 8
  halt : (run env n).halt = false
  loads : (run env (n + 1)).fetch.instrPcOut = (run env n).exe.altAddr

/-- The entry that has left the rename queue last is the delay slot of the instruction
that redirects. -/
def Drained (n : ℕ) : Prop :=
  ∃ d b past, history env n = d :: b :: past ∧ b.taken = true ∧ b.alt = (run env n).exe.altAddr ∧
    (dequeued env n).head?.map item = some d.item ∧ d.pc = rule (b :: past)

/-- The entry that has left the rename queue last is the first after the instruction that
redirects with another address than 0. -/
def DrainedNonzero (n : ℕ) : Prop :=
  ∃ d b past, history env n = d :: b :: past ∧ b.taken = true ∧ b.alt = (run env n).exe.altAddr ∧
    ∃ slot zeros branch older, dequeued env n = slot :: (zeros ++ branch :: older) ∧
      item slot = d.item ∧ slot.pc ≠ 0 ∧ (∀ e ∈ zeros, e.pc = 0) ∧ item branch = b.item

section Dequeued

variable {env} {n : ℕ}

theorem dequeued_succ_of_ne (hn : n % 4 ≠ 0) : dequeued env (n + 1) = dequeued env n :=
  if_neg (by simp [not_dequeues_of_ne env hn])

/-- An instruction that a slot takes is the last to have left. -/
theorem dequeued_issue (hpc : (run env n).renameQueueOut.pc ≠ 0) :
    dequeued env (n + 1) = (run env n).renameQueueOut :: dequeued env n :=
  if_pos (dequeues_of_pc hpc)

/-- What a slot with a bubble takes has address 0. -/
theorem filter_dequeued_bubble (hpc : (run env n).renameQueueOut.pc = 0) :
    (dequeued env (n + 1)).filter (fun e => e.pc ≠ 0) =
      (dequeued env n).filter (fun e => e.pc ≠ 0) := by
  rw [dequeued]
  split_ifs
  · exact List.filter_cons_of_neg (by simp [hpc])
  · rfl

theorem filter_dequeued_issue (hpc : (run env n).renameQueueOut.pc ≠ 0) :
    (dequeued env (n + 1)).filter (fun e => e.pc ≠ 0) =
      (run env n).renameQueueOut :: (dequeued env n).filter (fun e => e.pc ≠ 0) := by
  rw [dequeued_issue hpc]
  exact List.filter_cons_of_pos (decide_eq_true hpc)

theorem item_executed (hn : n % 4 = 0) :
    (executed (issued env n)).item = item (run env n).renameQueueOut :=
  Prod.ext (issued_pc env hn) (issued_instr env hn)

/-- **What has left the rename queue with an address has been executed**, in the same
order. -/
theorem filter_dequeued (env : ℕ → Mips → Input) (n : ℕ) :
    ((dequeued env n).filter fun e => e.pc ≠ 0).map item =
      (history env n).map Executed.item := by
  induction n with
  | zero => rfl
  | succ n ih =>
    by_cases hn : n % 4 = 0
    · by_cases hpc : (run env n).renameQueueOut.pc = 0
      · rw [filter_dequeued_bubble hpc, history_of_bubble hn hpc]
        exact ih
      · rw [filter_dequeued_issue hpc, history_of_pc hn hpc, List.map_cons, List.map_cons,
          item_executed hn, ih]
    · rw [dequeued_succ_of_ne hn, history_succ_of_ne env hn]
      exact ih

/-- Where the last instruction executed is among the entries. -/
theorem dequeued_of_history {b : Executed} {past : List Executed}
    (h : history env n = b :: past) : ∃ zeros branch older,
      dequeued env n = zeros ++ branch :: older ∧ (∀ e ∈ zeros, e.pc = 0) ∧
        item branch = b.item := by
  have hfilter := filter_dequeued env n
  rw [h, List.map_cons] at hfilter
  obtain ⟨branch, rest, hcons, hitem, -⟩ := List.map_eq_cons_iff.mp hfilter
  obtain ⟨zeros, older, hsplit, hzeros, -⟩ := List.filter_eq_cons_iff.mp hcons
  exact ⟨zeros, branch, older, hsplit, fun e he => by simpa using hzeros e he, hitem⟩

end Dequeued

section Cycle

variable {env} {n : ℕ}

/-- A redirect is raised two cycles after a slot, for an instruction with an address
after a taken one. -/
theorem slot_of_flush (h : (run env n).exe.flush = true) : ∃ m, n = m + 2 ∧ m % 4 = 0 ∧
    (run env m).renameQueueOut.pc ≠ 0 ∧ (run env m).exe.take = true := by
  have hn : n % 4 = 2 := by
    by_contra hn
    exact Bool.false_ne_true ((exe_quiet env hn).flush.symm.trans h)
  obtain ⟨m, rfl⟩ := Nat.exists_eq_add_of_le' (show 2 ≤ n by omega)
  have hm : m % 4 = 0 := by omega
  rw [flush_two env hm, Bool.and_eq_true, decide_eq_true_eq] at h
  exact ⟨m, rfl, hm, h.1, h.2⟩

theorem altAddr_two (hn : n % 4 = 0) (hpc : (run env n).renameQueueOut.pc ≠ 0) :
    (run env (n + 2)).exe.altAddr = (run env n).exe.addr := by
  have hne : (issued env n).instr1PcOut ≠ 0 := by rwa [issued_pc env hn]
  have halt : (run env (n + 2)).exe.altAddr = (run env (n + 1)).exe.addr := if_pos hne
  exact halt.trans (take_run_succ env (n := n) (by omega)).2

/-- **IF obeys**. -/
theorem obeyed (h : (run env n).exe.flush = true) : Obeyed env n := by
  obtain ⟨m, rfl, hm, hpc, -⟩ := slot_of_flush h
  have hhalt : (run env (m + 2)).halt = false := not_halt_of_issue
    (exe_quiet env (n := m) (by omega)).flush (exe_quiet env (n := m + 1) (by omega)).flush hpc
  have hreq := (requestAltPc_eq_flush env (m + 2)).trans h
  refine ⟨?_, ?_, hhalt, ?_⟩
  · rw [bubble_run]
    ext
    show (m + 2) % 4 = 2
    omega
  · have hle : (run env (m + 2)).decodeQueue.size ≤ 8 := (queues_wellFormed env (m + 2)).2.size_le
    have hne : (run env (m + 2)).decodeQueue.size ≠ 8 := by
      intro hsize
      have hfull : (run env (m + 2)).halt = true := by
        show ((run env (m + 2)).decodeQueue.size == 8) = true
        rw [hsize]
        rfl
      exact Bool.false_ne_true (hhalt.symm.trans hfull)
    omega
  · show (if (run env (m + 2)).halt then (run env (m + 2)).fetch
      else ⟨_, (run env (m + 2)).instrAddress2IM, _⟩ : Fetch.State).instrPcOut = _
    rw [hhalt]
    exact if_pos hreq

/-- **The last to have left** is the first instruction after the one that redirects. -/
theorem drainedNonzero (h : (run env n).exe.flush = true) : DrainedNonzero env n := by
  obtain ⟨m, rfl, hm, hpc, htake⟩ := slot_of_flush h
  have hrem : Remembers (run env m).exe (history env m) := remembers_slot m hm
  cases hh : history env m with
  | nil =>
    rw [hh] at hrem
    exact absurd (hrem.symm.trans htake) Bool.false_ne_true
  | cons b past =>
    rw [hh] at hrem
    have hhist : history env (m + 2) = executed (issued env m) :: b :: past := by
      rw [history_succ_of_ne env (n := m + 1) (by omega), history_of_pc hm hpc, hh]
    obtain ⟨zeros, branch, older, hsplit, hzeros, hitem⟩ := dequeued_of_history hh
    have hdeq : dequeued env (m + 2) =
        (run env m).renameQueueOut :: (zeros ++ branch :: older) := by
      rw [dequeued_succ_of_ne (n := m + 1) (by omega), dequeued_issue hpc, hsplit]
    exact ⟨_, b, past, hhist, hrem.1.symm.trans htake,
      hrem.2.symm.trans (altAddr_two hm hpc).symm, _, zeros, branch, older, hdeq,
      (item_executed hm).symm, hpc, hzeros, hitem⟩

/-- It is the delay slot, in a program without an address 0. -/
theorem drained {fetch : Word → Word} (hf : Fetches env fetch)
    (hne : ∀ k < n, rule (history env k) ≠ 0) (h : (run env n).exe.flush = true) :
    Drained env n := by
  obtain ⟨d, b, past, hhist, htaken, halt, slot, zeros, branch, older, hdeq, hitem, -, -, -⟩ :=
    drainedNonzero h
  have hfollows := follows env hf n hne
  rw [hhist] at hfollows
  refine ⟨d, b, past, hhist, htaken, halt, ?_, hfollows.1⟩
  rw [hdeq, ← hitem]
  rfl

end Cycle

/-- What the redirect of cycle `n` finds. -/
structure RedirectReady (n : ℕ) : Prop extends Obeyed env n where
  drainedNonzero : DrainedNonzero env n
  drained : ∀ fetch, Fetches env fetch → (∀ k < n, rule (history env k) ≠ 0) → Drained env n

/-- **A redirect finds IF ready and the queues drained**, whatever the core is fed. -/
theorem redirect_ready (env : ℕ → Mips → Input) (n : ℕ)
    (_hreq : (run env n).exe.requestAltPc = true) (hflush : (run env n).exe.flush = true) :
    RedirectReady env n where
  toObeyed := obeyed hflush
  drainedNonzero := drainedNonzero hflush
  drained _ hf hne := drained hf hne hflush

/-- With `beq $0,$0,-1` everywhere the first redirect comes in cycle 18. -/
theorem redirect_ready_branchSelf :
    (run (programEnv (fun _ => 0x1000FFFF) 0) 18).exe.flush = true ∧
      RedirectReady (programEnv (fun _ => 0x1000FFFF) 0) 18 := by
  have hrun : machine.evalRun (programEnv (fun _ => 0x1000FFFF) 0) 18
      (fun s => s.exe.requestAltPc && s.exe.flush) = true := by decide +kernel
  rw [Lib.Clocked.evalRun_eq, Bool.and_eq_true] at hrun
  exact ⟨hrun.2, redirect_ready _ 18 hrun.1 hrun.2⟩

section Zero

/-- Where control goes after an instruction that is no delay slot. -/
theorem rule_of_not_take {e : Exe.State} {past : List Executed} (h : Remembers e past)
    (htake : e.take = false) (r : Executed) : rule (r :: past) = r.pc + 4 := by
  cases past with
  | nil => rfl
  | cons r' past =>
    have hnot : r'.taken = false := h.1.symm.trans htake
    rw [rule, hnot]
    rfl

/-- A jump to the last word, which is a branch. -/
def jumpToLast (a : Word) : Word :=
  if a = 0xBFC00004 then 0x00200008        -- jr $1
  else if a = 0xFFFFFFFC then 0x1000FFFF   -- beq $0,$0,-1
  else 0x2401FFFC                          -- addiu $1,$0,-4

/-- What a slot takes, and what EXE remembers then, seen one cycle later. -/
theorem slot_of_evalRun (n : ℕ) (pc : Word) (take : Bool) (hn : n % 4 = 0)
    (h : machine.evalRun (programEnv jumpToLast 0) (n + 1)
      (fun s => (s.id.out.instr1PcOut, s.exe.take)) = (pc, take)) :
    (run (programEnv jumpToLast 0) n).renameQueueOut.pc = pc ∧
      (run (programEnv jumpToLast 0) n).exe.take = take := by
  rw [Lib.Clocked.evalRun_eq, Prod.ext_iff] at h
  exact ⟨(issued_pc _ hn).symm.trans h.1, (take_run_succ _ (by omega)).1.symm.trans h.2⟩

/-- The delay slot of the branch is at address 0: what has left the rename queue last is
the instruction behind it. -/
theorem not_redirectReady_zero : ¬∀ n, (run (programEnv jumpToLast 0) n).exe.requestAltPc = true →
    (run (programEnv jumpToLast 0) n).exe.flush = true →
      Obeyed (programEnv jumpToLast 0) n ∧ Drained (programEnv jumpToLast 0) n := by
  intro h
  obtain ⟨hbranch, hnone⟩ := slot_of_evalRun 28 0xFFFFFFFC false
    (by decide) (by decide +kernel)
  obtain ⟨hzero, -⟩ := slot_of_evalRun 32 0 true
    (by decide) (by decide +kernel)
  obtain ⟨hbehind, htaken⟩ := slot_of_evalRun 36 4 true
    (by decide) (by decide +kernel)
  have hflush : (run (programEnv jumpToLast 0) 38).exe.flush = true := by
    rw [flush_two _ (n := 36) (by decide), hbehind, htaken]
    rfl
  have hhist : history (programEnv jumpToLast 0) 38 =
      executed (issued (programEnv jumpToLast 0) 36) ::
        executed (issued (programEnv jumpToLast 0) 28) :: history (programEnv jumpToLast 0) 28 :=
    calc history (programEnv jumpToLast 0) 38
        = history (programEnv jumpToLast 0) 37 := history_succ_of_ne _ (n := 37) (by decide)
      _ = executed (issued (programEnv jumpToLast 0) 36) :: history (programEnv jumpToLast 0) 36 :=
          history_of_pc (by decide) (hbehind ▸ by decide)
      _ = executed (issued (programEnv jumpToLast 0) 36) :: history (programEnv jumpToLast 0) 29 :=
          congrArg _ ((history_four _ (n := 32) (by decide)).trans
            ((history_of_bubble (by decide) hzero).trans (history_four _ (n := 28) (by decide))))
      _ = _ := congrArg _ (history_of_pc (by decide) (hbranch ▸ by decide))
  obtain ⟨-, d, b, past, hhist', -, -, -, hrule⟩ :=
    h 38 ((requestAltPc_eq_flush _ 38).trans hflush) hflush
  rw [hhist] at hhist'
  obtain ⟨rfl, htail⟩ := List.cons.inj hhist'
  obtain ⟨rfl, rfl⟩ := List.cons.inj htail
  have hpc : (executed (issued (programEnv jumpToLast 0) 36)).pc = 4 :=
    (executed_pc _ (n := 36) (by decide)).trans hbehind
  have hpc' : (executed (issued (programEnv jumpToLast 0) 28)).pc = 0xFFFFFFFC :=
    (executed_pc _ (n := 28) (by decide)).trans hbranch
  rw [rule_of_not_take (remembers_slot 28 (by decide)) hnone, hpc, hpc'] at hrule
  exact absurd hrule (by decide)

end Zero

end Mips
end OooProcessor
