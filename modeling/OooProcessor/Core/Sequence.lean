/-
# The sequence of executed instructions

A MIPS instruction stream has one delay slot: the instruction after a taken
branch or jump is executed as well, and control continues at the target after it.
`rule` says so for the instructions ID has handed to EXE, the most recent first,
and `Follows` that a whole sequence obeys it, every instruction with the word
fetched from its address.

At an issue slot the instructions in flight are those from the address the rule
yields on, and `take` and `addr` of EXE are about the last instruction executed
(`Aligned`).  If that one was taken, the instruction issued now is its delay slot
and raises the flush two cycles later, when the flush discards everything behind
it.  So no bubble, stall or wrong path shows in the sequence
(`follows`).
-/

import OooProcessor.Core.Evaluate
import OooProcessor.Core.FrontEnd

namespace OooProcessor
namespace Mips

/-- An instruction as EXE sees it: its address and word, whether EXE finds it
taken, and the alternate address EXE computes. -/
structure Executed where
  pc : Word
  word : Word
  taken : Bool
  alt : Word

/-- What EXE makes of the instruction ID hands it. -/
def executed (o : Id.Out) : Executed where
  pc := o.instr1PcOut
  word := o.instr1Out
  taken := Exe.requestAltPc1 o
  alt := Exe.target o

/-- The address of the next instruction in program order. -/
def rule : List Executed → Word
  | [] => Fetch.bootVector
  | [r] => r.pc + 4
  | r :: r' :: _ => if r'.taken then r'.alt else r.pc + 4

/-- Every instruction is where the rule sends control, with the word fetched
there. -/
def Follows (fetch : Word → Word) : List Executed → Prop
  | [] => True
  | r :: past => r.pc = rule past ∧ r.word = fetch r.pc ∧ Follows fetch past

variable (env : ℕ → Mips → Input) {n : ℕ} {fetch : Word → Word}

/-- The instructions that ID has handed to EXE with a nonzero program counter up
to the state before cycle `n`, the most recent first. -/
def history : ℕ → List Executed
  | 0 => []
  | n + 1 =>
    let o := (run env (n + 1)).id.out
    if o.instr1PcOut ≠ 0 then executed o :: history n else history n

/-- What EXE remembers of the instruction before. -/
def Remembers (e : Exe.State) : List Executed → Prop
  | [] => e.take = false
  | r :: _ => e.take = r.taken ∧ e.addr = r.alt

/-- **What holds at an issue slot**: the instructions in flight start where the
rule sends control. -/
structure Aligned (fetch : Word → Word) (n : ℕ) : Prop where
  chain : Chain fetch (rule (history env n)) (inFlight (run env n)) (run env n).fetch.instrPcPlus4
  remembers : Remembers (run env n).exe (history env n)

section Cycles

theorem requestAltPc_eq_flush (n : ℕ) :
    (run env n).exe.requestAltPc = (run env n).exe.flush := by
  cases n <;> rfl

/-- Only an issue slot adds to the history. -/
theorem history_succ_of_ne (hn : n % 4 ≠ 0) : history env (n + 1) = history env n := by
  have hpc : ¬(run env (n + 1)).id.out.instr1PcOut ≠ 0 := by
    rw [out_of_ne env (n := n + 1) (by omega)]
    decide
  exact if_neg hpc

theorem history_four (hn : n % 4 = 0) : history env (n + 4) = history env (n + 1) := by
  rw [history_succ_of_ne env (n := n + 3) (by omega),
    history_succ_of_ne env (n := n + 2) (by omega), history_succ_of_ne env (n := n + 1) (by omega)]

theorem history_issue (hn : n % 4 = 0) : history env (n + 1) =
    if (run env n).renameQueueOut.pc ≠ 0 then executed (issued env n) :: history env n
    else history env n := by
  rw [← issued_pc env hn]
  rfl

variable {env} in
theorem history_of_pc (hn : n % 4 = 0) (hpc : (run env n).renameQueueOut.pc ≠ 0) :
    history env (n + 1) = executed (issued env n) :: history env n :=
  (history_issue env hn).trans (if_pos hpc)

variable {env} in
theorem history_of_bubble (hn : n % 4 = 0) (hpc : (run env n).renameQueueOut.pc = 0) :
    history env (n + 1) = history env n :=
  (history_issue env hn).trans (if_neg (not_not_intro hpc))

theorem executed_pc (hn : n % 4 = 0) :
    (executed (issued env n)).pc = (run env n).renameQueueOut.pc := issued_pc env hn

/-- EXE remembers the instruction of a slot until the next one passes. -/
theorem exe_four (hn : n % 4 = 0) :
    (run env (n + 4)).exe.take = (run env (n + 2)).exe.take ∧
      (run env (n + 4)).exe.addr = (run env (n + 2)).exe.addr := by
  obtain ⟨ht, ha⟩ := take_run_succ env (n := n + 2) (by omega)
  obtain ⟨ht', ha'⟩ := take_run_succ env (n := n + 3) (by omega)
  exact ⟨ht'.trans ht, ha'.trans ha⟩

/-- Away from the issue slot nothing leaves the rename queue. -/
theorem not_dequeues_of_ne (hn : n % 4 ≠ 0) :
    QueueObj.dequeues (run env n).renameQueueInputs (run env n).renameQueue = false := by
  simp [QueueObj.dequeues, renameQueueInputs, haltRenameQueue_of_ne env hn]

theorem leaving_of_ne (hn : n % 4 ≠ 0) : leaving (run env n) = [] := by
  rw [leaving, not_dequeues_of_ne env hn]
  rfl

variable {env}

/-- A cycle between two slots without a flush. -/
theorem chain_of_ne {a : Word} (hf : Fetches env fetch) (hn : n % 4 ≠ 0)
    (hflush : (run env n).exe.flush = false)
    (h : Chain fetch a (inFlight (run env n)) (run env n).fetch.instrPcPlus4) :
    Chain fetch a (inFlight (run env (n + 1))) (run env (n + 1)).fetch.instrPcPlus4 := by
  have hreq := (requestAltPc_eq_flush env n).trans hflush
  have hstep := chain_step hf hflush hreq h
  rwa [leaving_of_ne env hn, List.nil_append] at hstep

/-- What an issue slot takes is a bubble or the next instruction. -/
theorem chain_issue {a : Word} (hf : Fetches env fetch) (hn : n % 4 = 0)
    (h : Chain fetch a (inFlight (run env n)) (run env n).fetch.instrPcPlus4) :
    (item (run env n).renameQueueOut = 0 ∧
      Chain fetch a (inFlight (run env (n + 1))) (run env (n + 1)).fetch.instrPcPlus4) ∨
    (item (run env n).renameQueueOut = (a, fetch a) ∧
      Chain fetch (a + 4) (inFlight (run env (n + 1))) (run env (n + 1)).fetch.instrPcPlus4) := by
  have hquiet := exe_quiet env (n := n) (by omega)
  have hstep := chain_step hf hquiet.flush hquiet.requestAltPc h
  cases hd : QueueObj.dequeues (run env n).renameQueueInputs (run env n).renameQueue with
  | false =>
    have hzero : (run env n).renameQueueOut = 0 := if_neg (by simp [hd])
    rw [leaving, hd] at hstep
    rw [hzero]
    exact .inl ⟨rfl, hstep⟩
  | true =>
    rw [leaving, if_pos hd, List.singleton_append] at hstep
    exact hstep

end Cycles

section Slot

variable {env}

/-- EXE passes over a zero program counter. -/
theorem exe_two (hn : n % 4 = 0) (hpc : (run env n).renameQueueOut.pc = 0) :
    (run env (n + 2)).exe.take = (run env n).exe.take ∧
      (run env (n + 2)).exe.addr = (run env n).exe.addr := by
  have hzero : ¬(issued env n).instr1PcOut ≠ 0 := not_not_intro ((issued_pc env hn).trans hpc)
  have htake : (run env (n + 2)).exe.take = (run env (n + 1)).exe.take := if_neg hzero
  have haddr : (run env (n + 2)).exe.addr = (run env (n + 1)).exe.addr := if_neg hzero
  obtain ⟨ht, ha⟩ := take_run_succ env (n := n) (by omega)
  exact ⟨htake.trans ht, haddr.trans ha⟩

/-- What a slot does to `take` and `addr`. -/
theorem Remembers.slot (hn : n % 4 = 0) (h : Remembers (run env n).exe (history env n)) :
    Remembers (run env (n + 4)).exe (history env (n + 4)) := by
  obtain ⟨ht, ha⟩ := exe_four env hn
  rw [history_four env hn]
  by_cases hpc : (run env n).renameQueueOut.pc = 0
  · obtain ⟨ht', ha'⟩ := exe_two hn hpc
    rw [history_of_bubble hn hpc]
    cases hh : history env n with
    | nil =>
      rw [hh] at h
      exact (ht.trans ht').trans h
    | cons r past =>
      rw [hh] at h
      exact ⟨(ht.trans ht').trans h.1, (ha.trans ha').trans h.2⟩
  · have hne : (issued env n).instr1PcOut ≠ 0 := by rwa [issued_pc env hn]
    rw [history_of_pc hn hpc]
    exact ⟨ht.trans (if_pos hne), ha.trans (if_pos hne)⟩

/-- **EXE remembers the instruction executed last.** -/
theorem remembers_slot (n : ℕ) (hn : n % 4 = 0) : Remembers (run env n).exe (history env n) :=
  Lib.Clocked.run_every (P := fun n => Remembers (run env n).exe (history env n)) rfl
    (fun _ hn h => h.slot hn) n hn

/-- The empty slot leaves everything as it is. -/
theorem aligned_bubble (hf : Fetches env fetch) (hn : n % 4 = 0)
    (hitem : item (run env n).renameQueueOut = 0)
    (hchain : Chain fetch (rule (history env n)) (inFlight (run env (n + 1)))
      (run env (n + 1)).fetch.instrPcPlus4) : Aligned env fetch (n + 4) := by
  have hpc : (run env n).renameQueueOut.pc = 0 := congrArg Prod.fst hitem
  have hhist : history env (n + 4) = history env n := by
    rw [history_four env hn, history_of_bubble hn hpc]
  have hflush : (run env (n + 2)).exe.flush = false := by
    rw [flush_two env hn, hpc]
    rfl
  have h2 := chain_of_ne hf (by omega) (exe_quiet env (n := n + 1) (by omega)).flush hchain
  have h3 := chain_of_ne hf (n := n + 2) (by omega) hflush h2
  have h4 := chain_of_ne hf (n := n + 3) (by omega) (exe_quiet env (by omega)).flush h3
  rw [← hhist] at h4
  exact ⟨h4, remembers_slot (n + 4) (by omega)⟩

/-- What is in flight after an instruction has been issued follows it and, in a delay
slot, the transfer before it. -/
theorem chain_rule (hf : Fetches env fetch) (hn : n % 4 = 0) (h : Aligned env fetch n)
    (hpc : (run env n).renameQueueOut.pc ≠ 0)
    (hchain : Chain fetch ((run env n).renameQueueOut.pc + 4) (inFlight (run env (n + 2)))
      (run env (n + 2)).fetch.instrPcPlus4) :
    Chain fetch (rule (executed (issued env n) :: history env n)) (inFlight (run env (n + 3)))
      (run env (n + 3)).fetch.instrPcPlus4 := by
  have hne : (issued env n).instr1PcOut ≠ 0 := by rwa [issued_pc env hn]
  have hflush : (run env (n + 2)).exe.flush = (run env n).exe.take := by
    rw [flush_two env hn, decide_eq_true hpc, Bool.true_and]
  have hnext : (executed (issued env n)).pc = (run env n).renameQueueOut.pc := executed_pc env hn
  have hrem := h.remembers
  cases hh : history env n with
  | nil =>
    rw [hh] at hrem
    rw [rule, hnext]
    exact chain_of_ne hf (n := n + 2) (by omega) (hflush.trans hrem) hchain
  | cons r past =>
    rw [hh] at hrem
    rw [rule, hnext, ← hrem.1]
    cases htake : (run env n).exe.take with
    | false =>
      rw [if_neg (by decide)]
      exact chain_of_ne hf (n := n + 2) (by omega) (hflush.trans htake) hchain
    | true =>
      rw [if_pos rfl, ← hrem.2, ← (take_run_succ env (n := n) (by omega)).2]
      have hreq := (requestAltPc_eq_flush env (n + 2)).trans (hflush.trans htake)
      have hhalt := not_halt_of_issue (exe_quiet env (n := n) (by omega)).flush
        (exe_quiet env (n := n + 1) (by omega)).flush hpc
      have haddr : (run env (n + 2)).exe.altAddr = (run env (n + 1)).exe.addr := if_pos hne
      rw [← haddr]
      exact chain_flush hf (hflush.trans htake) hreq hhalt

/-- An issued instruction is remembered, and the one before it obeyed. -/
theorem Aligned.issue (hf : Fetches env fetch) (hn : n % 4 = 0) (h : Aligned env fetch n)
    (hpc : (run env n).renameQueueOut.pc ≠ 0)
    (hchain : Chain fetch ((run env n).renameQueueOut.pc + 4) (inFlight (run env (n + 1)))
      (run env (n + 1)).fetch.instrPcPlus4) : Aligned env fetch (n + 4) := by
  have hhist : history env (n + 4) = executed (issued env n) :: history env n := by
    rw [history_four env hn, history_of_pc hn hpc]
  have h2 := chain_of_ne hf (by omega) (exe_quiet env (n := n + 1) (by omega)).flush hchain
  have h3 := chain_rule hf hn h hpc h2
  have h4 := chain_of_ne hf (n := n + 3) (by omega) (exe_quiet env (by omega)).flush h3
  rw [← hhist] at h4
  exact ⟨h4, remembers_slot (n + 4) (by omega)⟩

theorem Aligned.step (hf : Fetches env fetch) (hn : n % 4 = 0) (h : Aligned env fetch n)
    (hne : rule (history env n) ≠ 0) : Aligned env fetch (n + 4) := by
  rcases chain_issue hf hn h.chain with ⟨hitem, hchain⟩ | ⟨hitem, hchain⟩
  · exact aligned_bubble hf hn hitem hchain
  · have hpc : (run env n).renameQueueOut.pc = rule (history env n) := congrArg Prod.fst hitem
    exact h.issue hf hn (hpc ▸ hne) (hpc ▸ hchain)

/-- **Every issue slot is aligned**, as long as the rule yields no address 0. -/
theorem aligned (hf : Fetches env fetch) (n : ℕ) (hn : n % 4 = 0)
    (hne : ∀ k < n, rule (history env k) ≠ 0) : Aligned env fetch n := by
  refine Lib.Clocked.run_every (k := 4)
    (P := fun n => (∀ k < n, rule (history env k) ≠ 0) → Aligned env fetch n) ?_ ?_ n hn hne
  · intro _
    exact ⟨.inl ⟨rfl, rfl⟩, rfl⟩
  · intro n hn ih hne
    exact (ih fun k hk => hne k (by omega)).step hf hn (hne n (by omega))

/-- What ID hands over at a slot is zero, or the next instruction. -/
theorem issued_next (hf : Fetches env fetch) (hn : n % 4 = 0)
    (hne : ∀ k < n + 1, rule (history env k) ≠ 0) :
    ((issued env n).instr1PcOut = 0 ∧ (issued env n).instr1Out = 0) ∨
      ((issued env n).instr1PcOut = rule (history env n) ∧
        (issued env n).instr1Out = fetch (rule (history env n))) := by
  have h := aligned hf n hn fun k hk => hne k (by omega)
  rw [issued_pc env hn, issued_instr env hn]
  rcases chain_issue hf hn h.chain with ⟨hitem, -⟩ | ⟨hitem, -⟩
  · exact .inl ⟨congrArg Prod.fst hitem, congrArg Prod.snd hitem⟩
  · exact .inr ⟨congrArg Prod.fst hitem, congrArg Prod.snd hitem⟩

end Slot

/-- The sequence only grows. -/
theorem monotone_length_history : Monotone fun n => (history env n).length := by
  refine monotone_nat_of_le_succ fun n => ?_
  show (history env n).length ≤ (history env (n + 1)).length
  rw [history]
  split_ifs
  · exact Nat.le_succ _
  · exact le_rfl

/-- The sequence grows by the next instruction or not at all. -/
theorem follows_succ (hf : Fetches env fetch) (n : ℕ)
    (hne : ∀ k < n + 1, rule (history env k) ≠ 0) (h : Follows fetch (history env n)) :
    Follows fetch (history env (n + 1)) := by
  by_cases hn : n % 4 = 0
  · rw [history_issue env hn, ← issued_pc env hn]
    split_ifs with hpc
    · rcases issued_next hf hn hne with ⟨hzero, -⟩ | ⟨hnext, hword⟩
      · exact absurd hzero hpc
      · exact ⟨hnext, hword.trans (congrArg fetch hnext.symm), h⟩
    · exact h
  · rwa [history_succ_of_ne env hn]

/-- **The executed instructions are the program's**, in order, each once, with one delay
slot after a taken one, as long as the rule yields no address 0. -/
theorem follows (hf : Fetches env fetch) (n : ℕ)
    (hne : ∀ k < n, rule (history env k) ≠ 0) : Follows fetch (history env n) := by
  induction n with
  | zero => trivial
  | succ n ih => exact follows_succ env hf n hne (ih fun k hk => hne k (by omega))

/-- What ID hands over without an address has no word either. -/
theorem instr_of_pc_eq_zero {env : ℕ → Mips → Input} (hf : Fetches env fetch)
    (hne : ∀ n, rule (history env n) ≠ 0) (n : ℕ) (hpc : (run env n).id.out.instr1PcOut = 0) :
    (run env n).id.out.instr1Out = 0 := by
  by_cases hn : n % 4 = 1
  · obtain ⟨m, rfl⟩ : ∃ m, n = m + 1 := ⟨n - 1, by omega⟩
    rcases issued_next hf (n := m) (by omega) fun k _ => hne k with ⟨-, hword⟩ | ⟨hnext, -⟩
    · exact hword
    · exact absurd (hnext.symm.trans hpc) (hne m)
  · rw [out_of_ne env hn]
    rfl

end Mips
end OooProcessor
