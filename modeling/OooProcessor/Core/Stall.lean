/-
# Where the program stops

`follows` says that what ID hands to EXE is a part of the program from its start on; it
says nothing of a core that hands over nothing.  With a register in the free list every
issue slot takes the first entry of the rename queue.  That entry is the next instruction,
or a bubble, and in the latter case what is in flight afterwards has one bubble less at its
front (`Behind.four`), so that the next instruction comes in the end (`exists_issue`).

An empty free list holds the rename queue back, and only an instruction that leaves this
queue can bring a register back.  So the core never leaves such a slot
(`stuck_of_empty`), and a program is executed exactly if its run has none
(`executesInOrder_iff`).
-/

import OooProcessor.Core.Coverage
import OooProcessor.Core.Progress

namespace OooProcessor
namespace Mips

variable (env : ℕ → Mips → Input) {n : ℕ} {fetch : Word → Word}

/-- **The program is executed**: what ID hands over follows the rule, it grows to any
length, and a bubble has no word. -/
structure ExecutesInOrder (fetch : Word → Word) : Prop where
  follows : ∀ n, Follows fetch (history env n)
  grows : ∀ k, ∃ n, (history env n).length = k
  bubbles : ∀ n, (run env n).id.out.instr1PcOut = 0 → (run env n).id.out.instr1Out = 0

/-- The next instruction is in flight behind `d` bubbles. -/
def Behind (d : ℕ) (s : Mips) : Prop :=
  ∃ x l, x ≠ 0 ∧ inFlight s = List.replicate d 0 ++ x :: l

section Chain

variable {a b : Word} {l : List (Word × Word)}

/-- Behind bubbles alone the chain ends where it starts. -/
theorem Chain.eq_of_bubbles (ha : a ≠ 0) (h : Chain fetch a l b) (hl : ∀ x ∈ l, x = 0) :
    a = b := by
  induction l with
  | nil => exact h
  | cons x l ih =>
    rcases h with ⟨-, h⟩ | ⟨hx, -⟩
    · exact ih h fun y hy => hl y (List.mem_cons_of_mem _ hy)
    · have hzero : x = 0 := hl x (List.mem_cons_self ..)
      exact absurd (congrArg Prod.fst (hx.symm.trans hzero)) ha

/-- A list with an entry other than 0 is one behind zeros. -/
theorem exists_behind {s : Mips} (h : ∃ x ∈ inFlight s, x ≠ 0) : ∃ d, Behind d s := by
  unfold Behind
  generalize inFlight s = l at h
  induction l with
  | nil =>
    obtain ⟨x, hx, -⟩ := h
    exact absurd hx List.not_mem_nil
  | cons y l ih =>
    by_cases hy : y = 0
    · obtain ⟨x, hx, hne⟩ := h
      have hx' : x ∈ l := (List.mem_cons.mp hx).resolve_left fun h => hne (h.trans hy)
      obtain ⟨d, z, l', hz, hl⟩ := ih ⟨x, hx', hne⟩
      refine ⟨d + 1, z, l', hz, ?_⟩
      rw [hl, hy, List.replicate_succ]
      rfl
    · exact ⟨0, y, l, hy, rfl⟩

end Chain

section Bubble

variable {env} (hn : n % 4 = 0) (h0 : 0 < n) (hitem : item (run env n).renameQueueOut = 0)

include hn hitem

/-- A slot with a bubble raises no flush. -/
theorem quiet_of_bubble {j : ℕ} (hj : j < 4) : (run env (n + j)).exe.flush = false := by
  by_cases h2 : j = 2
  · have hpc : (run env n).renameQueueOut.pc = 0 := congrArg Prod.fst hitem
    rw [h2, flush_two env hn, hpc]
    rfl
  · exact (exe_quiet env (by omega)).flush

include h0

theorem pos_decodeQueue_of_bubble {j : ℕ} (hj : j < 4) :
    0 < (run env (n + j)).decodeQueue.size := by
  cases j with
  | zero => exact (pos_slot hn h0).2
  | succ j => exact pos_decodeQueue (quiet_of_bubble hn hitem (by omega))

/-- The other cycles of the slot take nothing from what is in flight. -/
theorem inFlight_of_bubble {j : ℕ} (hj : j < 4) (hne : j ≠ 0) :
    inFlight (run env (n + j + 1)) = inFlight (run env (n + j)) ++
      if (run env (n + j)).halt then []
      else [((run env (n + j + 1)).fetch.instrPcOut, (run env (n + j + 1)).fetch.instr1Out)] := by
  have hlist := leaving_append_inFlight (quiet_of_bubble hn hitem hj)
    (pos_decodeQueue_of_bubble hn h0 hitem hj)
  rwa [leaving_of_ne env (by omega), List.nil_append] at hlist

variable (hfree : (run env n).freelist.size ≠ 0)

include hfree

/-- **The slot removes the bubble** and puts nothing in its place. -/
theorem inFlight_four_of_bubble : ∃ l, 0 :: inFlight (run env (n + 4)) =
    inFlight (run env n) ++ l := by
  have h1 := leaving_append_inFlight (quiet_of_bubble hn hitem (j := 0) (by omega))
    (pos_decodeQueue_of_bubble hn h0 hitem (j := 0) (by omega))
  rw [Nat.add_zero, leaving_slot hn (pos_slot hn h0).1 hfree, hitem] at h1
  have h2 := inFlight_of_bubble hn h0 hitem (j := 1) (by omega) (by omega)
  have h3 := inFlight_of_bubble hn h0 hitem (j := 2) (by omega) (by omega)
  have h4 := inFlight_of_bubble hn h0 hitem (j := 3) (by omega) (by omega)
  rw [h4, h3, h2, ← List.cons_append, ← List.cons_append, ← List.cons_append]
  rw [List.singleton_append] at h1
  rw [h1, List.append_assoc, List.append_assoc, List.append_assoc]
  exact ⟨_, rfl⟩

/-- One bubble less is left. -/
theorem Behind.four {d : ℕ} (h : Behind (d + 1) (run env n)) : Behind d (run env (n + 4)) := by
  obtain ⟨x, l, hx, hl⟩ := h
  obtain ⟨l', hlist⟩ := inFlight_four_of_bubble hn h0 hitem hfree
  refine ⟨x, l ++ l', hx, ?_⟩
  rw [hl, List.replicate_succ, List.append_assoc, List.cons_append, List.cons_append] at hlist
  exact (List.cons.inj hlist).2

/-- If only bubbles are in flight IF asks for the next instruction, and it is let in. -/
theorem exists_behind_four (hf : Fetches env fetch) (h : Aligned env fetch n)
    (hne : rule (history env n) ≠ 0) : ∃ d, Behind d (run env (n + 4)) := by
  refine exists_behind ?_
  have h4 := inFlight_of_bubble hn h0 hitem (j := 3) (by omega) (by omega)
  have h3 := inFlight_of_bubble hn h0 hitem (j := 2) (by omega) (by omega)
  by_cases hall : ∀ x ∈ inFlight (run env (n + 2)), x = 0
  · have hquiet : (run env (n + 2)).exe.flush = false := quiet_of_bubble hn hitem (by omega)
    have hpc : (run env n).renameQueueOut.pc = 0 := congrArg Prod.fst hitem
    have hchain := (chain_two hf hn h hne).1 hquiet
    rw [history_of_bubble hn hpc] at hchain
    have haddr : (run env (n + 2)).instrAddress2IM = rule (history env n) :=
      (if_neg (by simp [(requestAltPc_eq_flush env (n + 2)).trans hquiet])).trans
        (hchain.eq_of_bubbles hne hall).symm
    have hd : QueueObj.dequeues (run env n).renameQueueInputs (run env n).renameQueue = true := by
      by_contra hno
      have hleave := leaving_slot hn (pos_slot hn h0).1 hfree
      rw [leaving, if_neg hno] at hleave
      exact absurd hleave.symm (List.cons_ne_nil _ _)
    have hhalt : (run env (n + 2)).halt = false :=
      not_halt_of_not_renameHalt (quiet_of_bubble hn hitem (j := 1) (by omega))
        (not_renameHalt_of_dequeues (quiet_of_bubble hn hitem (j := 0) (by omega)) hd)
    refine ⟨_, ?_, fetch_ne_zero hhalt (by rwa [haddr])⟩
    rw [h4, h3, if_neg (by simp [hhalt])]
    simp
  · push Not at hall
    obtain ⟨x, hx, hne⟩ := hall
    refine ⟨x, ?_, hne⟩
    rw [h4, h3]
    simp [hx]

end Bubble

section Grows

variable {env} (hf : Fetches env fetch) (hne : ∀ n, rule (history env n) ≠ 0)
  (hfree : ∀ n, (run env n).id.bubble = 0 → (run env n).freelist.size ≠ 0)

include hf hne hfree

/-- **What is in flight is executed**: the next instruction leaves after the bubbles. -/
theorem exists_issue_of_behind {d : ℕ} (hn : n % 4 = 0) (h0 : 0 < n)
    (h : Behind d (run env n)) :
    ∃ m, m % 4 = 0 ∧ 0 < m ∧ (history env m).length = (history env n).length + 1 := by
  induction d generalizing n with
  | zero =>
    have hsize := hfree n ((bubble_run_eq_zero env).mpr hn)
    obtain ⟨x, l, hx, hl⟩ := h
    rw [inFlight, map_item_contents, leaving_slot hn (pos_slot hn h0).1 hsize] at hl
    have hitem : item (run env n).renameQueueOut = x := (List.cons.inj hl).1
    have hali := aligned hf n hn fun k _ => hne k
    rcases chain_issue hf hn hali.chain with ⟨hzero, -⟩ | ⟨hnext, -⟩
    · exact absurd (hitem.symm.trans hzero) hx
    · have hpc : (run env n).renameQueueOut.pc ≠ 0 :=
        fun h => hne n ((congrArg Prod.fst hnext).symm.trans h)
      refine ⟨n + 4, by omega, by omega, ?_⟩
      rw [history_four env hn, history_of_pc hn hpc, List.length_cons]
  | succ d ih =>
    have hsize := hfree n ((bubble_run_eq_zero env).mpr hn)
    have hitem : item (run env n).renameQueueOut = 0 := by
      obtain ⟨x, l, -, hl⟩ := h
      rw [inFlight, map_item_contents, leaving_slot hn (pos_slot hn h0).1 hsize] at hl
      exact (List.cons.inj hl).1
    obtain ⟨m, hm, hm0, hlen⟩ := ih (n := n + 4) (by omega) (by omega)
      (h.four hn h0 hitem hsize)
    refine ⟨m, hm, hm0, hlen.trans ?_⟩
    rw [history_four env hn, history_of_bubble hn (congrArg Prod.fst hitem)]

/-- **The next instruction comes**, from any issue slot on. -/
theorem exists_issue (hn : n % 4 = 0) (h0 : 0 < n) :
    ∃ m, m % 4 = 0 ∧ 0 < m ∧ (history env m).length = (history env n).length + 1 := by
  have hsize := hfree n ((bubble_run_eq_zero env).mpr hn)
  have hali := aligned hf n hn fun k _ => hne k
  rcases chain_issue hf hn hali.chain with ⟨hitem, -⟩ | ⟨hnext, -⟩
  · obtain ⟨d, hd⟩ := exists_behind_four hn h0 hitem hsize hf hali (hne n)
    obtain ⟨m, hm, hm0, hlen⟩ := exists_issue_of_behind hf hne hfree (n := n + 4) (by omega)
      (by omega) hd
    refine ⟨m, hm, hm0, hlen.trans ?_⟩
    rw [history_four env hn, history_of_bubble hn (congrArg Prod.fst hitem)]
  · have hpc : (run env n).renameQueueOut.pc ≠ 0 :=
      fun h => hne n ((congrArg Prod.fst hnext).symm.trans h)
    refine ⟨n + 4, by omega, by omega, ?_⟩
    rw [history_four env hn, history_of_pc hn hpc, List.length_cons]

/-- A run that always finds a register executes any number of instructions. -/
theorem exists_history_length (k : ℕ) :
    ∃ n, n % 4 = 0 ∧ 0 < n ∧ (history env n).length = k := by
  induction k with
  | zero =>
    refine ⟨4, rfl, by omega, ?_⟩
    have hpc : (run env 0).renameQueueOut.pc = 0 := rfl
    rw [history_four env (n := 0) rfl, history_of_bubble (n := 0) rfl hpc]
    rfl
  | succ k ih =>
    obtain ⟨n, hn, h0, hlen⟩ := ih
    obtain ⟨m, hm, hm0, hlen'⟩ := exists_issue hf hne hfree hn h0
    exact ⟨m, hm, hm0, by omega⟩

end Grows

section Stuck

variable {env} (hempty : (run env n).freelist.size = 0)

include hempty

/-- An empty free list holds the rename queue back. -/
theorem renameQueueOut_of_empty : (run env n).renameQueueOut = 0 := by
  refine renameQueueOut_of_halt ?_
  simp [haltRenameQueue, freeHalt, QueueObj.halt, freelistParams, hempty]

/-- **Nothing comes back to an empty list** by the next slot, and nothing is executed. -/
theorem stuck_four (hn : n % 4 = 0) : (run env (n + 4)).freelist.size = 0 ∧
    (history env (n + 4)).length = (history env n).length := by
  have hout := renameQueueOut_of_empty hempty
  have hpc : (run env n).renameQueueOut.pc = 0 := by
    rw [hout]
    rfl
  have hal : Rename.allocates (run env n).renameQueueOut = false := by
    rw [hout]
    rfl
  have hflush : (run env (n + 2)).exe.flush = false := by
    rw [flush_two env hn, hpc]
    rfl
  obtain ⟨hnc, hnw⟩ := not_commits_of_not_allocates env hn hal
  have hacc2 : (run env (n + 2)).accepts = false := by
    rw [accepts_eq, (rrat_two env hn).2.1, hnc]
    rfl
  have hacc3 : (run env (n + 3)).accepts = false := by
    rw [accepts_eq, (rrat_three env hn).2.1, hnw]
    rfl
  constructor
  · rwa [freelist_four env hn hacc3, freelist_three env hn hflush hacc2, freelist_two env hn,
      (freelist_one env hn).2.2 hal]
  · rw [history_four env hn, history_of_bubble hn hpc]

/-- **A core without a free register executes nothing more.** -/
theorem stuck_of_empty (hn : n % 4 = 0) (m : ℕ) :
    (history env m).length ≤ (history env n).length := by
  have hstuck : ∀ j, (run env (n + 4 * j)).freelist.size = 0 ∧
      (history env (n + 4 * j)).length = (history env n).length := by
    intro j
    induction j with
    | zero => exact ⟨hempty, rfl⟩
    | succ j ih =>
      obtain ⟨hsize, hlen⟩ := stuck_four ih.1 (by omega)
      exact ⟨hsize, hlen.trans ih.2⟩
  calc (history env m).length ≤ (history env (n + 4 * m)).length :=
        monotone_length_history env (by omega)
    _ = (history env n).length := (hstuck m).2

end Stuck

/-- **A program is executed** in order and without end exactly if no issue slot of its run
finds the free list empty, as long as the rule yields no address 0. -/
theorem executesInOrder_iff (env : ℕ → Mips → Input) (fetch : Word → Word)
    (hf : Fetches env fetch) (hne : ∀ n, rule (history env n) ≠ 0) :
    ExecutesInOrder env fetch ↔
      ∀ n, (run env n).id.bubble = 0 → (run env n).freelist.size ≠ 0 := by
  constructor
  · intro h n hb hempty
    obtain ⟨m, hm⟩ := h.grows ((history env n).length + 1)
    have hle := stuck_of_empty hempty ((bubble_run_eq_zero env).mp hb) m
    omega
  · intro hfree
    refine ⟨fun n => follows env hf n fun k _ => hne k, fun k => ?_, fun n hpc => ?_⟩
    · obtain ⟨n, -, -, hlen⟩ := exists_history_length hf hne hfree k
      exact ⟨n, hlen⟩
    · exact instr_of_pc_eq_zero hf hne n hpc

section Programs

variable {env}

/-- The cycles between the slots add nothing. -/
theorem rule_ne_zero_of_slots (h : ∀ n, n % 4 = 0 → rule (history env n) ≠ 0) (n : ℕ) :
    rule (history env n) ≠ 0 := by
  have hup (j : ℕ) (hj : ∀ i < j, (n + i) % 4 ≠ 0) : history env (n + j) = history env n := by
    induction j with
    | zero => rfl
    | succ j ih =>
      exact (history_succ_of_ne env (hj j (by omega))).trans (ih fun i hi => hj i (by omega))
  obtain ⟨j, hj, hslot⟩ : ∃ j, (∀ i < j, (n + i) % 4 ≠ 0) ∧ (n + j) % 4 = 0 :=
    ⟨(4 - n % 4) % 4, fun i hi => by omega, by omega⟩
  rw [← hup j hj]
  exact h (n + j) hslot

section Slot

variable (hn : n % 4 = 0)

include hn

/-- What EXE finds of the instruction of a slot. -/
theorem issued_requestAltPc1 : Exe.requestAltPc1 (issued env n) =
    Compare.taken (run env n).renameQueueOut.controls.jump (issued env n).operandA1Out
      (issued env n).operandB1Out (run env n).renameQueueOut.instr := by
  rw [issued_eq env hn]
  rfl

theorem issued_target (hreg : (run env n).renameQueueOut.controls.jumpRegister = false) :
    Exe.target (issued env n) = (run env n).renameQueueOut.nextAddr := by
  rw [issued_eq env hn]
  exact if_neg (by simp [issueInputs, Rename.pack, Id.issue, hreg])

/-- It remembers this until the next slot. -/
theorem exe_four_of_pc (hpc : (run env n).renameQueueOut.pc ≠ 0) :
    (run env (n + 4)).exe.take = Exe.requestAltPc1 (issued env n) ∧
      (run env (n + 4)).exe.addr = Exe.target (issued env n) := by
  have hne : (issued env n).instr1PcOut ≠ 0 := by rwa [issued_pc env hn]
  obtain ⟨ht, ha⟩ := exe_four env hn
  exact ⟨ht.trans (if_pos hne), ha.trans (if_pos hne)⟩

/-- A slot finds a bubble, which leaves EXE as it is, or the next instruction. -/
theorem slot_cases (hf : Fetches env fetch) (h : Aligned env fetch n)
    (hne : rule (history env n) ≠ 0) :
    ((run env n).renameQueueOut.instr = 0 ∧ history env (n + 4) = history env n ∧
      (run env (n + 4)).exe.take = (run env n).exe.take ∧
      (run env (n + 4)).exe.addr = (run env n).exe.addr) ∨
    ((run env n).renameQueueOut.pc ≠ 0 ∧
      (run env n).renameQueueOut.pc = rule (history env n) ∧
      (run env n).renameQueueOut.instr = fetch (rule (history env n))) := by
  rcases chain_issue hf hn h.chain with ⟨hitem, -⟩ | ⟨hitem, -⟩
  · have hpc : (run env n).renameQueueOut.pc = 0 := congrArg Prod.fst hitem
    obtain ⟨htake, haddr⟩ := exe_two hn hpc
    refine .inl ⟨congrArg Prod.snd hitem, ?_, (exe_four env hn).1.trans htake,
      (exe_four env hn).2.trans haddr⟩
    rw [history_four env hn, history_of_bubble hn hpc]
  · have hpc : (run env n).renameQueueOut.pc = rule (history env n) := congrArg Prod.fst hitem
    exact .inr ⟨hpc ▸ hne, hpc, congrArg Prod.snd hitem⟩

/-- A register taken for `$0` does not come back without a flush. -/
theorem size_four_of_zero (hrd : (run env n).renameQueueOut.rd = 0)
    (htake : (run env n).exe.take = false) : (run env (n + 4)).freelist.size +
      (Rename.allocates (run env n).renameQueueOut).toNat = (run env n).freelist.size := by
  have hnc : commitsExe (issued env n) = false := by
    rw [commitsExe, issued_writeRegister env hn, hrd]
    exact Bool.and_false _
  have hnw : writesBack (issued env n) = false := by
    rw [writesBack, issued_regWrite env hn, hrd]
    exact Bool.and_false _
  have hflush : (run env (n + 2)).exe.flush = false := by
    rw [flush_two env hn, htake, Bool.and_false]
  have hacc (m : ℕ) (hm : (run env m).rrat.returnMap = false) :
      (run env m).accepts = false := by
    rw [accepts_eq, hm]
    rfl
  have hlist : (run env (n + 4)).freelist = (run env (n + 1)).freelist := by
    rw [freelist_four env hn (hacc (n + 3) ((rrat_three env hn).2.1.trans hnw)),
      freelist_three env hn hflush (hacc (n + 2) ((rrat_two env hn).2.1.trans hnc)),
      freelist_two env hn]
  have hone := free_run_succ env (n := n) (exe_quiet env (by omega)).flush
  rw [hacc n (returnMap_slot env hn)] at hone
  have hlen := congrArg List.length hone
  rw [List.length_append, List.length_drop, length_free, length_free] at hlen
  have hpos : (Rename.allocates (run env n).renameQueueOut).toNat ≤ (run env n).freelist.size := by
    cases hal : Rename.allocates (run env n).renameQueueOut with
    | false => exact Nat.zero_le _
    | true =>
      have hcons := congrArg List.length (free_eq_cons env n hal)
      rw [length_free, List.length_cons] at hcons
      rw [Bool.toNat_true]
      omega
  rw [hlist, hlen]
  exact Nat.sub_add_cancel hpos

end Slot

/-- What IF reads while `addu $0,$0,$0` stands at every address. -/
def adduZeroFetch (a : Word) : Word := if a = 0 then 0 else 0x00000021

/-- Where that program is after as many instructions as registers are missing. -/
structure AdduZeroAt (n : ℕ) : Prop where
  aligned : Aligned adduZero adduZeroFetch n
  take : (run adduZero n).exe.take = false
  next : rule (history adduZero n) =
    Fetch.bootVector + BitVec.ofNat 32 (4 * (history adduZero n).length)
  size : (run adduZero n).freelist.size + (history adduZero n).length = 32

theorem AdduZeroAt.rule_ne_zero (h : AdduZeroAt n) : rule (history adduZero n) ≠ 0 := by
  have hsize := h.size
  rw [h.next, Fetch.bootVector]
  bv_omega

/-- Every entry of that program has the destination `$0`, and takes a register if it is no
bubble. -/
theorem entry_adduZero (n : ℕ) : (run adduZero n).renameQueueOut.controls.jump = false ∧
    (run adduZero n).renameQueueOut.rd = 0 ∧
    Rename.allocates (run adduZero n).renameQueueOut =
      ((run adduZero n).renameQueueOut.instr != 0) := by
  have h0 : (0 : Word) = 0 ∨ (0 : Word) = 0x00000021 := .inl rfl
  refine entry_of_decode adduZero (S := fun w => w = 0 ∨ w = 0x00000021)
    (P := fun e => e.controls.jump = false ∧ e.rd = 0 ∧ Rename.allocates e = (e.instr != 0))
    h0 (fetched_programEnv (S := fun w => w = 0 ∨ w = 0x00000021) h0 (fun _ => .inr rfl) 0)
    (by decide) ?_ n
  rintro pc w c (rfl | rfl) -
  · rw [Decoder.decode_of_table Decoder.table_zero]
    exact ⟨rfl, rfl, rfl⟩
  · rw [Decoder.decode_of_table (show Decoder.table 0x00000021 = some _ by rfl)]
    exact ⟨rfl, rfl, rfl⟩

theorem AdduZeroAt.four (hn : n % 4 = 0) (h : AdduZeroAt n) : AdduZeroAt (n + 4) := by
  obtain ⟨hjump, hrd, hal⟩ := entry_adduZero n
  have hne := h.rule_ne_zero
  have hf : Fetches adduZero adduZeroFetch := fun _ => rfl
  have hsize := size_four_of_zero hn hrd h.take
  have haligned := h.aligned.step hf hn hne
  rcases slot_cases hn hf h.aligned hne with ⟨hinstr, hhist, htake, -⟩ | ⟨hpos, hpc, hinstr⟩
  · rw [hal, hinstr] at hsize
    refine ⟨haligned, htake.trans h.take, hhist ▸ h.next, ?_⟩
    rw [hhist, ← h.size, ← hsize]
    rfl
  · have hinstr : (run adduZero n).renameQueueOut.instr = 0x00000021 := hinstr.trans (if_neg hne)
    have hhist : history adduZero (n + 4) =
        executed (issued adduZero n) :: history adduZero n := by
      rw [history_four _ hn, history_of_pc hn hpos]
    rw [hal, hinstr] at hsize
    refine ⟨haligned, ?_, ?_, ?_⟩
    · rw [(exe_four_of_pc hn hpos).1, issued_requestAltPc1 hn, hjump, hinstr]
      rfl
    · rw [history_four _ hn, rule_issue hn h.aligned.remembers hpos, h.take,
        if_neg Bool.false_ne_true, hpc, h.next, history_of_pc hn hpos, List.length_cons]
      rw [Nat.mul_succ, BitVec.ofNat_add, BitVec.add_assoc]
      rfl
    · have hsize' : (run adduZero (n + 4)).freelist.size + 1 =
          (run adduZero n).freelist.size := hsize
      have := h.size
      rw [hhist, List.length_cons]
      omega

theorem adduZeroAt (n : ℕ) (hn : n % 4 = 0) : AdduZeroAt n :=
  Lib.Clocked.run_every (P := AdduZeroAt) ⟨⟨.inl ⟨rfl, rfl⟩, rfl⟩, rfl, rfl, rfl⟩
    (fun _ hn h => h.four hn) n hn

end Programs

/-- **With `addu $0,$0,$0` everywhere** the rule never yields 0, and yet 32 instructions are
all that the core executes: each takes a register and none comes back. -/
theorem not_executesInOrder_adduZero : Fetches adduZero adduZeroFetch ∧
    (∀ n, rule (history adduZero n) ≠ 0) ∧ ¬ExecutesInOrder adduZero adduZeroFetch := by
  refine ⟨fun _ => rfl, rule_ne_zero_of_slots fun n hn => (adduZeroAt n hn).rule_ne_zero, ?_⟩
  intro h
  obtain ⟨n, hlen⟩ := h.grows 33
  have hle : (history adduZero n).length ≤ (history adduZero (4 * n)).length :=
    monotone_length_history adduZero (by omega)
  have hsize := (adduZeroAt (4 * n) (by omega)).size
  omega

section Loop

/-- `j 0xBFC00000` at the boot vector, with `addu $0,$0,$0` everywhere else. -/
def jumpLoopFetch (a : Word) : Word :=
  if a = 0 then 0 else if a = Fetch.bootVector then 0x0BF00000 else 0x00000021

def jumpLoop : ℕ → Mips → Input :=
  programEnv (fun a => if a = Fetch.bootVector then 0x0BF00000 else 0x00000021) 0

theorem fetches_jumpLoop : Fetches jumpLoop jumpLoopFetch := fun _ => by
  rw [jumpLoopFetch]
  rfl

/-- That program is at the jump, or at the ADDU in its delay slot. -/
structure JumpLoopAt (n : ℕ) : Prop where
  aligned : Aligned jumpLoop jumpLoopFetch n
  next : (run jumpLoop n).exe.take = false ∧ rule (history jumpLoop n) = Fetch.bootVector ∨
    (run jumpLoop n).exe.take = true ∧ (run jumpLoop n).exe.addr = Fetch.bootVector ∧
      rule (history jumpLoop n) = Fetch.bootVector + 4

theorem JumpLoopAt.rule_ne_zero (h : JumpLoopAt n) : rule (history jumpLoop n) ≠ 0 := by
  rcases h.next with ⟨-, hnext⟩ | ⟨-, -, hnext⟩
  · rw [hnext]
    decide
  · rw [hnext]
    decide

/-- What ID makes of the two words. -/
theorem entry_jumpLoop (n : ℕ) :
    ((run jumpLoop n).renameQueueOut.instr = 0x0BF00000 →
      (run jumpLoop n).renameQueueOut.controls.jump = true ∧
        (run jumpLoop n).renameQueueOut.controls.jumpRegister = false ∧
        (run jumpLoop n).renameQueueOut.nextAddr =
          Id.jmDestImm (run jumpLoop n).renameQueueOut.pc 0x0BF00000) ∧
    ((run jumpLoop n).renameQueueOut.controls.memRead = false ∧
      ((run jumpLoop n).renameQueueOut.instr = 0x00000021 →
        (run jumpLoop n).renameQueueOut.controls.jump = false)) ∧
    (Rename.allocates (run jumpLoop n).renameQueueOut = true →
      (run jumpLoop n).renameQueueOut.instr = 0x00000021) := by
  have h0 : (0 : Word) = 0 ∨ (0 : Word) = 0x0BF00000 ∨ (0 : Word) = 0x00000021 := .inl rfl
  have hword (a : Word) : (if a = Fetch.bootVector then (0x0BF00000 : Word) else 0x00000021) = 0 ∨
      (if a = Fetch.bootVector then (0x0BF00000 : Word) else 0x00000021) = 0x0BF00000 ∨
      (if a = Fetch.bootVector then (0x0BF00000 : Word) else 0x00000021) = 0x00000021 := by
    split_ifs
    · exact .inr (.inl rfl)
    · exact .inr (.inr rfl)
  refine entry_of_decode jumpLoop (S := fun w => w = 0 ∨ w = 0x0BF00000 ∨ w = 0x00000021)
    (P := fun e => (e.instr = 0x0BF00000 → e.controls.jump = true ∧
        e.controls.jumpRegister = false ∧ e.nextAddr = Id.jmDestImm e.pc 0x0BF00000) ∧
      (e.controls.memRead = false ∧ (e.instr = 0x00000021 → e.controls.jump = false)) ∧
      (Rename.allocates e = true → e.instr = 0x00000021))
    h0 (fetched_programEnv (S := fun w => w = 0 ∨ w = 0x0BF00000 ∨ w = 0x00000021) h0 hword 0)
    (by decide) ?_ n
  rintro pc w c (rfl | rfl | rfl) -
  · rw [Decoder.decode_of_table Decoder.table_zero]
    exact ⟨fun h => absurd h (by decide : (0 : Word) ≠ 0x0BF00000), ⟨rfl, fun _ => rfl⟩,
      fun h => absurd (show false = true from h) Bool.false_ne_true⟩
  · rw [Decoder.decode_of_table (show Decoder.table 0x0BF00000 = some _ by rfl)]
    exact ⟨fun _ => ⟨rfl, rfl, rfl⟩, ⟨rfl, fun h => absurd h (by decide :
      (0x0BF00000 : Word) ≠ 0x00000021)⟩, fun h => absurd (show false = true from h)
        Bool.false_ne_true⟩
  · rw [Decoder.decode_of_table (show Decoder.table 0x00000021 = some _ by rfl)]
    exact ⟨fun h => absurd h (by decide : (0x00000021 : Word) ≠ 0x0BF00000),
      ⟨rfl, fun _ => rfl⟩, fun _ => rfl⟩

theorem JumpLoopAt.four (hn : n % 4 = 0) (h : JumpLoopAt n) : JumpLoopAt (n + 4) := by
  obtain ⟨hj, ⟨-, haddu⟩, -⟩ := entry_jumpLoop n
  have hne := h.rule_ne_zero
  have haligned := h.aligned.step fetches_jumpLoop hn hne
  rcases slot_cases hn fetches_jumpLoop h.aligned hne with
    ⟨-, hhist, htake, haddr⟩ | ⟨hpos, hpc, hinstr⟩
  · refine ⟨haligned, ?_⟩
    rw [hhist, htake, haddr]
    exact h.next
  · have hrule := rule_issue hn h.aligned.remembers hpos
    rw [← history_four _ hn] at hrule
    obtain ⟨htake, haddr⟩ := exe_four_of_pc hn hpos
    refine ⟨haligned, ?_⟩
    rcases h.next with ⟨hno, hnext⟩ | ⟨hyes, hto, hnext⟩
    · -- the jump
      rw [hnext] at hpc hinstr
      obtain ⟨hjump, hreg, hdest⟩ := hj hinstr
      refine .inr ⟨?_, ?_, ?_⟩
      · rw [htake, issued_requestAltPc1 hn, hjump]
        exact Bool.or_true _
      · rw [haddr, issued_target hn hreg, hdest, hpc]
        rfl
      · rw [hrule, hno, if_neg Bool.false_ne_true, hpc]
    · -- its delay slot
      rw [hnext] at hinstr
      refine .inl ⟨?_, ?_⟩
      · have hword : (run jumpLoop n).renameQueueOut.instr = 0x00000021 := hinstr
        rw [htake, issued_requestAltPc1 hn, haddu hword, hword]
        rfl
      · rw [hrule, if_pos hyes, hto]

theorem jumpLoopAt (n : ℕ) (hn : n % 4 = 0) : JumpLoopAt n :=
  Lib.Clocked.run_every (P := JumpLoopAt) ⟨⟨.inl ⟨rfl, rfl⟩, rfl⟩, .inl ⟨rfl, rfl⟩⟩
    (fun _ hn h => h.four hn) n hn

/-- The register that the ADDU takes comes back with the flush. -/
theorem keepsRegisters_jumpLoop (hn : n % 4 = 0) : KeepsRegisters (run jumpLoop n) := by
  intro hal
  obtain ⟨-, ⟨hload, -⟩, htakes⟩ := entry_jumpLoop n
  have hword := htakes hal
  have h := jumpLoopAt n hn
  rcases slot_cases hn fetches_jumpLoop h.aligned h.rule_ne_zero with
    ⟨hinstr, -⟩ | ⟨hpos, -, hinstr⟩
  · exact absurd (hinstr.symm.trans hword) (by decide)
  · rcases h.next with ⟨-, hnext⟩ | ⟨htake, -, -⟩
    · rw [hnext] at hinstr
      exact absurd (hinstr.symm.trans hword) (by decide)
    · refine ⟨htake, hpos, fun hw => ?_⟩
      rw [hload] at hw
      exact absurd hw.1 Bool.false_ne_true

/-- **The jump to itself with an ADDU behind it** is executed for ever: at every slot the
list is full. -/
theorem executesInOrder_jumpLoop : ExecutesInOrder jumpLoop jumpLoopFetch := by
  refine (executesInOrder_iff jumpLoop jumpLoopFetch fetches_jumpLoop ?_).mpr fun n hb => ?_
  · exact rule_ne_zero_of_slots fun n hn => (jumpLoopAt n hn).rule_ne_zero
  · have hfull := full_of_keeps n ((bubble_run_eq_zero jumpLoop).mp hb) fun k _ hk =>
      keepsRegisters_jumpLoop ((bubble_run_eq_zero jumpLoop).mp hk)
    rw [hfull.1.size]
    decide

end Loop

end Mips
end OooProcessor
