/-
# Bubbles drain

A flush and reset leave the queues in front of the issue slot empty, and Decoder makes a
bubble of an empty decode queue (`Delayed.empty`).  One cycle later the decode queue has a
word and never runs empty again until the next flush, so that no more bubbles come to be
(`leaving_append_inFlight`), and every issue slot that finds a bubble removes it
(`Delayed.four`).

IF runs ahead of the issue slot by what the queues hold, 17 words at most, so that the
words it asks for meanwhile are those from the next instruction on (`address_lt_two`,
`address_two`).
-/

import OooProcessor.Core.Sequence

namespace OooProcessor

/-- A queue that is offered something is not empty after an edge without a flush. -/
theorem QueueObj.pos_posedge {α : Type*} {P : Params α} {i : Inputs α} {s : State α}
    (hinit : P.init = false) (h : WellFormed P s) (hL : 1 < P.length) (hen : i.enque = true)
    (hf : i.flush = false) : 0 < (posedge P i s).size := by
  have hlen := congrArg List.length (contents_posedge hinit h hen hf)
  rw [length_contents, List.length_append, List.length_drop, length_contents] at hlen
  rw [hlen]
  cases hhalt : halt P s with
  | false => simp
  | true =>
    have hfull : s.size = P.length := by
      rwa [halt_of_not_init hinit, beq_iff_eq] at hhalt
    have hle := Bool.toNat_le (dequeues i s)
    omega

namespace Mips

variable (env : ℕ → Mips → Input) {n : ℕ}

/-- The next words on their way to the issue slot are `d` bubbles, and no more are behind. -/
def Delayed (d : ℕ) (s : Mips) : Prop :=
  ∃ l, inFlight s = List.replicate d 0 ++ l ∧ (0 : Word × Word) ∉ l

section Queues

variable {env}

/-- A cycle without a flush leaves no decode queue empty. -/
theorem pos_decodeQueue (hflush : (run env n).exe.flush = false) :
    0 < (run env (n + 1)).decodeQueue.size :=
  QueueObj.pos_posedge rfl (queues_wellFormed env n).2 (by decide) rfl hflush

/-- Nor a rename queue. -/
theorem pos_renameQueue (hflush : (run env n).exe.flush = false) :
    0 < (run env (n + 1)).renameQueue.size :=
  QueueObj.pos_posedge rfl (queues_wellFormed env n).1 (by decide) rfl hflush

/-- **Nothing but the word fetched comes to be in flight** while the decode queue is not
empty. -/
theorem leaving_append_inFlight (hflush : (run env n).exe.flush = false)
    (hpos : 0 < (run env n).decodeQueue.size) :
    leaving (run env n) ++ inFlight (run env (n + 1)) = inFlight (run env n) ++
      if (run env n).halt then []
      else [((run env (n + 1)).fetch.instrPcOut, (run env (n + 1)).fetch.instr1Out)] := by
  have hwaiting : (QueueObj.contents renameQueueParams (run env n).renameQueue).map item ++
        QueueObj.contents decodeQueueParams (run env n).decodeQueue =
      leaving (run env n) ++
        ((QueueObj.contents renameQueueParams (run env (n + 1)).renameQueue).map item ++
          (QueueObj.contents decodeQueueParams (run env n).decodeQueue).drop
            (QueueObj.dequeues (run env n).decodeQueueInputs (run env n).decodeQueue).toNat) := by
    rw [map_item_contents env n, contents_renameQueue env hflush, List.map_append]
    cases hrun : (run env n).renameHalt with
    | true =>
      have hd : QueueObj.dequeues (run env n).decodeQueueInputs (run env n).decodeQueue =
          false := by simp [QueueObj.dequeues, decodeQueueInputs, hrun]
      rw [hd]
      simp
    | false =>
      have hd : QueueObj.dequeues (run env n).decodeQueueInputs (run env n).decodeQueue =
          true := by simp [QueueObj.dequeues, decodeQueueInputs, hrun, hpos]
      rcases decode_contents env n with hcons | ⟨-, hno⟩
      · conv_lhs => rw [hcons]
        simp
      · rw [hd] at hno
        exact absurd hno (by decide)
  simp only [inFlight, contents_decodeQueue env hflush]
  simp only [← List.append_assoc] at hwaiting ⊢
  rw [hwaiting]
  cases hhalt : (run env n).halt with
  | true =>
    have hfetch : (run env (n + 1)).fetch = (run env n).fetch := by
      show Fetch.posedge _ _ = _
      exact if_pos hhalt
    rw [hfetch]
    simp
  | false => simp

/-- The words in flight are no more than the queues and IF hold. -/
theorem length_inFlight_le (n : ℕ) : (inFlight (run env n)).length ≤ 17 := by
  have hr : (run env n).renameQueue.size ≤ 8 := (queues_wellFormed env n).1.size_le
  have hd : (run env n).decodeQueue.size ≤ 8 := (queues_wellFormed env n).2.size_le
  simp only [inFlight, List.length_append, List.length_map, QueueObj.length_contents,
    List.length_singleton]
  omega

/-- What is fetched from an address other than 0 is no bubble. -/
theorem fetch_ne_zero (hhalt : (run env n).halt = false)
    (haddr : (run env n).instrAddress2IM ≠ 0) :
    ((run env (n + 1)).fetch.instrPcOut, (run env (n + 1)).fetch.instr1Out) ≠ 0 := by
  have hpc : (run env (n + 1)).fetch.instrPcOut = (run env n).instrAddress2IM := by
    show (Fetch.posedge _ _).instrPcOut = _
    rw [Fetch.posedge, if_neg (by simp [fetchInputs, hhalt])]
    rfl
  exact fun h => haddr (hpc.symm.trans (congrArg Prod.fst h))

variable {d : ℕ}

/-- A cycle without a flush makes no bubble. -/
theorem Delayed.succ (h : Delayed d (run env n)) (hflush : (run env n).exe.flush = false)
    (hpos : 0 < (run env n).decodeQueue.size) (haddr : (run env n).instrAddress2IM ≠ 0) :
    Delayed (d - (leaving (run env n)).length) (run env (n + 1)) := by
  obtain ⟨l, hl, h0⟩ := h
  have hlist := leaving_append_inFlight hflush hpos
  have hleave := congrArg (List.drop (leaving (run env n)).length) hlist
  rw [List.drop_left, hl, List.append_assoc, List.drop_append, List.drop_replicate] at hleave
  refine ⟨_, hleave, fun hmem => ?_⟩
  rcases List.mem_append.mp (List.mem_of_mem_drop hmem) with hmem | hmem
  · exact h0 hmem
  · cases hhalt : (run env n).halt with
    | true =>
      rw [hhalt] at hmem
      exact List.not_mem_nil hmem
    | false =>
      rw [hhalt] at hmem
      exact fetch_ne_zero hhalt haddr (List.mem_singleton.mp hmem).symm

/-- **A cycle with both queues empty makes one.** -/
theorem Delayed.empty (h : Delayed d (run env n)) (hflush : (run env n).exe.flush = false)
    (hr : (run env n).renameQueue.size = 0) (hd : (run env n).decodeQueue.size = 0)
    (haddr : (run env n).instrAddress2IM ≠ 0) : Delayed (d + 1) (run env (n + 1)) := by
  obtain ⟨l, hl, h0⟩ := h
  have hnil {α : Type} {P : QueueObj.Params α} {q : QueueObj.State α} (hq : q.size = 0) :
      QueueObj.contents P q = [] :=
    List.eq_nil_of_length_eq_zero (QueueObj.length_contents.trans hq)
  have hrun : (run env n).renameHalt = false := by
    simp [renameHalt, QueueObj.halt, renameQueueParams, hr]
  have hhalt : (run env n).halt = false := by
    simp [halt, QueueObj.halt, decodeQueueParams, hd]
  have hitem : item (run env n).renameEntry = 0 := by
    rcases decode_contents env n with hcons | ⟨hzero, -⟩
    · rw [hnil hd] at hcons
      exact absurd hcons.symm (List.cons_ne_nil _ _)
    · exact hzero
  have hbefore : inFlight (run env n) =
      [((run env n).fetch.instrPcOut, (run env n).fetch.instr1Out)] := by
    rw [inFlight, hnil hr, hnil hd]
    rfl
  have hafter : inFlight (run env (n + 1)) = 0 :: inFlight (run env n) ++
      [((run env (n + 1)).fetch.instrPcOut, (run env (n + 1)).fetch.instr1Out)] := by
    rw [hbefore, inFlight, contents_renameQueue env hflush, contents_decodeQueue env hflush,
      hnil hr, hnil hd, hrun, hhalt]
    simp [hitem]
  have hlist : inFlight (run env (n + 1)) = List.replicate (d + 1) 0 ++
      (l ++ [((run env (n + 1)).fetch.instrPcOut, (run env (n + 1)).fetch.instr1Out)]) := by
    rw [hafter, hl, List.replicate_succ]
    exact List.append_assoc (0 :: List.replicate d 0) l _
  refine ⟨_, hlist, fun hmem => ?_⟩
  rcases List.mem_append.mp hmem with hmem | hmem
  · exact h0 hmem
  · exact fetch_ne_zero hhalt haddr (List.mem_singleton.mp hmem).symm

end Queues

section Slot

variable {env} {d : ℕ}

/-- A slot takes the first of the rename queue. -/
theorem leaving_slot (hn : n % 4 = 0) (hpos : 0 < (run env n).renameQueue.size)
    (hfree : (run env n).freelist.size ≠ 0) :
    leaving (run env n) = [item (run env n).renameQueueOut] := by
  have hrun : (run env n).haltRenameQueue = false := by
    have hb := (bubble_run_eq_zero env).mpr hn
    simp [haltRenameQueue, hb, freeHalt, QueueObj.halt, freelistParams, hfree]
  have hd : QueueObj.dequeues (run env n).renameQueueInputs (run env n).renameQueue = true := by
    simp [QueueObj.dequeues, renameQueueInputs, hrun, hpos]
  rw [leaving, if_pos hd]

/-- After the first slot no queue is empty at one. -/
theorem pos_slot (hn : n % 4 = 0) (h0 : 0 < n) :
    0 < (run env n).renameQueue.size ∧ 0 < (run env n).decodeQueue.size := by
  obtain ⟨k, rfl⟩ : ∃ k, n = k + 1 := ⟨n - 1, by omega⟩
  have hquiet : (run env k).exe.flush = false := (exe_quiet env (by omega)).flush
  exact ⟨pos_renameQueue hquiet, pos_decodeQueue hquiet⟩

variable (hn : n % 4 = 0) (h0 : 0 < n) (hfree : (run env n).freelist.size ≠ 0)

include hn h0 hfree

/-- **A slot finds a bubble** if one is next in flight. -/
theorem Delayed.item_iff (h : Delayed d (run env n)) :
    item (run env n).renameQueueOut = 0 ↔ d ≠ 0 := by
  obtain ⟨l, hl, hzero⟩ := h
  rw [inFlight, map_item_contents, leaving_slot hn (pos_slot hn h0).1 hfree] at hl
  cases d with
  | zero =>
    refine ⟨fun hitem => absurd ?_ hzero, fun h => absurd rfl h⟩
    have hl : _ = l := hl
    rw [← hl, ← hitem]
    exact List.mem_cons_self ..
  | succ d => exact ⟨fun _ => Nat.succ_ne_zero d, fun _ => (List.cons.inj hl).1⟩

/-- **A slot without a flush** takes one bubble away, if there is one. -/
theorem Delayed.four (h : Delayed d (run env n)) (hflush : (run env (n + 2)).exe.flush = false)
    (haddr : ∀ j < 4, (run env (n + j)).instrAddress2IM ≠ 0) :
    Delayed (d - 1) (run env (n + 4)) := by
  have hquiet : ∀ j < 4, (run env (n + j)).exe.flush = false := by
    intro j hj
    by_cases h2 : j = 2
    · rw [h2]
      exact hflush
    · exact (exe_quiet env (by omega)).flush
  have hpos : ∀ j < 4, 0 < (run env (n + j)).decodeQueue.size := by
    intro j hj
    cases j with
    | zero => exact (pos_slot hn h0).2
    | succ j => exact pos_decodeQueue (hquiet j (by omega))
  have hleave (j : ℕ) (hj : j < 4) (hne : j ≠ 0) := leaving_of_ne env (n := n + j) (by omega)
  have h1 := h.succ (hquiet 0 (by omega)) (hpos 0 (by omega)) (haddr 0 (by omega))
  rw [leaving_slot hn (pos_slot hn h0).1 hfree] at h1
  have h2 := h1.succ (hquiet 1 (by omega)) (hpos 1 (by omega)) (haddr 1 (by omega))
  rw [hleave 1 (by omega) (by omega)] at h2
  have h3 := h2.succ (hquiet 2 (by omega)) (hpos 2 (by omega)) (haddr 2 (by omega))
  rw [hleave 2 (by omega) (by omega)] at h3
  have h4 := h3.succ (hquiet 3 (by omega)) (hpos 3 (by omega)) (haddr 3 (by omega))
  rw [hleave 3 (by omega) (by omega)] at h4
  exact h4

omit h0 hfree

/-- **A flush makes one bubble.** -/
theorem delayed_flush (hflush : (run env (n + 2)).exe.flush = true)
    (haddr : ∀ j, j = 2 ∨ j = 3 → (run env (n + j)).instrAddress2IM ≠ 0) :
    Delayed 1 (run env (n + 4)) := by
  have hpc : (run env n).renameQueueOut.pc ≠ 0 := by
    rw [flush_two env hn, Bool.and_eq_true, decide_eq_true_iff] at hflush
    exact hflush.1
  have hhalt : (run env (n + 2)).halt = false :=
    not_halt_of_issue (exe_quiet env (by omega)).flush (exe_quiet env (by omega)).flush hpc
  have hr : (run env (n + 3)).renameQueue = QueueObj.flushed renameQueueParams
      (run env (n + 2)).renameQueueInputs (run env (n + 2)).renameQueue := if_pos hflush
  have hd : (run env (n + 3)).decodeQueue = QueueObj.flushed decodeQueueParams
      (run env (n + 2)).decodeQueueInputs (run env (n + 2)).decodeQueue := if_pos hflush
  have hlist : inFlight (run env (n + 3)) =
      [((run env (n + 3)).fetch.instrPcOut, (run env (n + 3)).fetch.instr1Out)] := by
    rw [inFlight, hr, hd, QueueObj.contents_flushed_of_not_init rfl,
      QueueObj.contents_flushed_of_not_init rfl]
    rfl
  have hthree : Delayed 0 (run env (n + 3)) := by
    refine ⟨_, hlist, fun hmem => ?_⟩
    exact fetch_ne_zero hhalt (haddr 2 (.inl rfl)) (List.mem_singleton.mp hmem).symm
  refine hthree.empty (exe_quiet env (by omega)).flush ?_ ?_ (haddr 3 (.inr rfl))
  · rw [hr]
    rfl
  · rw [hd]
    rfl

omit hn

/-- Reset is followed by two bubbles behind the one that the first slot finds. -/
theorem delayed_reset (haddr : ∀ j < 4, (run env j).instrAddress2IM ≠ 0) :
    Delayed 2 (run env 4) := by
  have hquiet (j : ℕ) (hj : j < 4) : (run env j).exe.flush = false := by
    by_cases h2 : j = 2
    · have hpc : (run env 0).renameQueueOut.pc = 0 := rfl
      rw [h2, flush_two env (n := 0) rfl, hpc]
      rfl
    · exact (exe_quiet env (by omega)).flush
  have hpos (j : ℕ) (hj : j < 4) : 0 < (run env (j + 1)).decodeQueue.size :=
    pos_decodeQueue (hquiet j hj)
  have hzero : Delayed 1 (run env 0) := ⟨[], rfl, List.not_mem_nil⟩
  have h1 := hzero.empty (hquiet 0 (by omega)) rfl rfl (haddr 0 (by omega))
  have h2 := h1.succ (hquiet 1 (by omega)) (hpos 0 (by omega)) (haddr 1 (by omega))
  rw [leaving_of_ne env (by omega)] at h2
  have h3 := h2.succ (hquiet 2 (by omega)) (hpos 1 (by omega)) (haddr 2 (by omega))
  rw [leaving_of_ne env (by omega)] at h3
  have h4 := h3.succ (hquiet 3 (by omega)) (hpos 2 (by omega)) (haddr 3 (by omega))
  rw [leaving_of_ne env (by omega)] at h4
  exact h4

end Slot

section Ahead

variable {fetch : Word → Word} {a b : Word} {l : List (Word × Word)}

/-- How far a chain reaches. -/
theorem Chain.reach (h : Chain fetch a l b) :
    ∃ r ≤ l.length, b = a + BitVec.ofNat 32 (4 * r) := by
  induction l generalizing a with
  | nil =>
    obtain rfl : a = b := h
    exact ⟨0, le_rfl, (BitVec.add_zero a).symm⟩
  | cons x l ih =>
    rcases h with ⟨-, h⟩ | ⟨-, h⟩
    · obtain ⟨r, hr, hb⟩ := ih h
      exact ⟨r, Nat.le_succ_of_le hr, hb⟩
    · obtain ⟨r, hr, hb⟩ := ih h
      refine ⟨r + 1, Nat.succ_le_succ hr, ?_⟩
      rw [hb, BitVec.add_assoc, Nat.mul_succ, Nat.add_comm (4 * r), BitVec.ofNat_add]
      rfl

variable {env}

/-- Without a redirect IF asks for the word after those in flight. -/
theorem address_of_chain (hreq : (run env n).exe.requestAltPc = false)
    (h : Chain fetch a (inFlight (run env n)) (run env n).fetch.instrPcPlus4) :
    ∃ r ≤ 17, (run env n).instrAddress2IM = a + BitVec.ofNat 32 (4 * r) := by
  obtain ⟨r, hr, hb⟩ := h.reach
  exact ⟨r, hr.trans (length_inFlight_le n), (if_neg (by simp [hreq])).trans hb⟩

/-- Up to the cycle after the slot IF asks for the words from the next instruction on. -/
theorem address_lt_two (hf : Fetches env fetch) (hn : n % 4 = 0) (h : Aligned env fetch n)
    {j : ℕ} (hj : j < 2) : ∃ r ≤ 18,
      (run env (n + j)).instrAddress2IM = rule (history env n) + BitVec.ofNat 32 (4 * r) := by
  have hreq : (run env (n + j)).exe.requestAltPc = false := (exe_quiet env (by omega)).requestAltPc
  obtain rfl | rfl : j = 0 ∨ j = 1 := by omega
  · obtain ⟨r, hr, ha⟩ := address_of_chain hreq h.chain
    exact ⟨r, by omega, ha⟩
  · rcases chain_issue hf hn h.chain with ⟨-, hchain⟩ | ⟨-, hchain⟩
    · obtain ⟨r, hr, ha⟩ := address_of_chain hreq hchain
      exact ⟨r, by omega, ha⟩
    · obtain ⟨r, hr, ha⟩ := address_of_chain hreq hchain
      refine ⟨r + 1, by omega, ?_⟩
      rw [ha, BitVec.add_assoc, Nat.mul_succ, Nat.add_comm (4 * r), BitVec.ofNat_add]
      rfl

/-- Where control goes after the instruction of a slot. -/
theorem rule_issue (hn : n % 4 = 0) (h : Remembers (run env n).exe (history env n))
    (hpc : (run env n).renameQueueOut.pc ≠ 0) : rule (history env (n + 1)) =
      if (run env n).exe.take then (run env n).exe.addr else (run env n).renameQueueOut.pc + 4 := by
  have hnext : (executed (issued env n)).pc = (run env n).renameQueueOut.pc := executed_pc env hn
  rw [history_of_pc hn hpc]
  cases hh : history env n with
  | nil =>
    rw [hh] at h
    have htake : (run env n).exe.take = false := h
    rw [rule, hnext, htake]
    rfl
  | cons r past =>
    rw [hh] at h
    rw [rule, hnext, h.1, h.2]

/-- A redirect sends IF where the rule does. -/
theorem altAddr_rule (hn : n % 4 = 0) (h : Aligned env fetch n)
    (hflush : (run env (n + 2)).exe.flush = true) :
    (run env (n + 2)).exe.altAddr = rule (history env (n + 1)) := by
  rw [flush_two env hn, Bool.and_eq_true, decide_eq_true_iff] at hflush
  obtain ⟨hpc, htake⟩ := hflush
  have hne : (issued env n).instr1PcOut ≠ 0 := by rwa [issued_pc env hn]
  have haddr : (run env (n + 2)).exe.altAddr = (run env (n + 1)).exe.addr := if_pos hne
  have hrem := h.remembers
  rw [haddr, (take_run_succ env (n := n) (by omega)).2, history_of_pc hn hpc]
  cases hh : history env n with
  | nil =>
    rw [hh] at hrem
    exact absurd htake (by rw [hrem]; decide)
  | cons r past =>
    rw [hh] at hrem
    rw [rule, if_pos (hrem.1.symm.trans htake), hrem.2]

/-- What is in flight after a slot follows what has been executed by then. -/
theorem chain_two (hf : Fetches env fetch) (hn : n % 4 = 0) (h : Aligned env fetch n)
    (hne : rule (history env n) ≠ 0) :
    ((run env (n + 2)).exe.flush = false → Chain fetch (rule (history env (n + 1)))
        (inFlight (run env (n + 2))) (run env (n + 2)).fetch.instrPcPlus4) ∧
      Chain fetch (rule (history env (n + 1))) (inFlight (run env (n + 3)))
        (run env (n + 3)).fetch.instrPcPlus4 := by
  have hquiet : (run env (n + 1)).exe.flush = false := (exe_quiet env (by omega)).flush
  rcases chain_issue hf hn h.chain with ⟨hitem, hchain⟩ | ⟨hitem, hchain⟩
  · have hpc : (run env n).renameQueueOut.pc = 0 := congrArg Prod.fst hitem
    have hflush : (run env (n + 2)).exe.flush = false := by
      rw [flush_two env hn, hpc]
      rfl
    have h2 := chain_of_ne hf (by omega) hquiet hchain
    rw [history_of_bubble hn hpc]
    exact ⟨fun _ => h2, chain_of_ne hf (n := n + 2) (by omega) hflush h2⟩
  · have heq : (run env n).renameQueueOut.pc = rule (history env n) := congrArg Prod.fst hitem
    have hpc : (run env n).renameQueueOut.pc ≠ 0 := heq ▸ hne
    rw [← heq] at hchain
    have h2 := chain_of_ne hf (by omega) hquiet hchain
    rw [history_of_pc hn hpc]
    refine ⟨fun hflush => ?_, chain_rule hf hn h hpc h2⟩
    have htake : (run env n).exe.take = false := by
      rwa [flush_two env hn, decide_eq_true hpc, Bool.true_and] at hflush
    have hnext : (executed (issued env n)).pc = (run env n).renameQueueOut.pc := executed_pc env hn
    have hrem := h.remembers
    cases hh : history env n with
    | nil => rwa [rule, hnext]
    | cons r past =>
      rw [hh] at hrem
      rwa [rule, ← hrem.1, htake, if_neg Bool.false_ne_true, hnext]

/-- **In the other two cycles** it asks for those after the instruction of the slot, at
the target if that is where control goes. -/
theorem address_two (hf : Fetches env fetch) (hn : n % 4 = 0) (h : Aligned env fetch n)
    (hne : rule (history env n) ≠ 0) {j : ℕ} (hj : j = 2 ∨ j = 3) : ∃ r ≤ 17,
      (run env (n + j)).instrAddress2IM =
        rule (history env (n + 1)) + BitVec.ofNat 32 (4 * r) := by
  obtain ⟨h2, h3⟩ := chain_two hf hn h hne
  rcases hj with rfl | rfl
  · cases hflush : (run env (n + 2)).exe.flush with
    | false =>
      exact address_of_chain ((requestAltPc_eq_flush env (n + 2)).trans hflush) (h2 hflush)
    | true =>
      have hreq := (requestAltPc_eq_flush env (n + 2)).trans hflush
      refine ⟨0, by omega, ?_⟩
      rw [instrAddress2IM, Fetch.instrAddress2IM, if_pos hreq, altAddr_rule hn h hflush]
      exact (BitVec.add_zero _).symm
  · exact address_of_chain (exe_quiet env (by omega)).requestAltPc h3

end Ahead

end Mips
end OooProcessor
