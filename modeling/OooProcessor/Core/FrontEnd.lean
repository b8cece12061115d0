/-
# The instructions in flight

Between IF and the issue slot an instruction passes IF's output registers, the
decode queue and the rename queue.  Read from the front of the rename queue back,
these hold consecutive instructions of the program, with bubbles in between where
the decode queue ran empty (`Chain`, `inFlight`).  One rising edge without a
flush moves the instructions on and appends the next one fetched (`chain_step`);
a full queue holds back whatever is behind it, and nothing is dropped or entered
twice.

A flush empties both queues in the cycle in which IF is sent to the alternate
address.  IF obeys only if the decode queue is not full then, and it is not: the
flush is raised for an instruction that left the rename queue two cycles before,
so that the rename queue had room in the cycle after and the decode queue in the
next (`not_halt_of_issue`).
-/

import OooProcessor.Core.Fifo
import OooProcessor.Core.Slot

namespace OooProcessor
namespace Mips

/-- Bubbles apart, `l` holds the instructions at `a`, `a + 4`, … with their words,
and `b` is the address after the last. -/
def Chain (fetch : Word → Word) : Word → List (Word × Word) → Word → Prop
  | a, [], b => a = b
  | a, x :: l, b => (x = 0 ∧ Chain fetch a l b) ∨ (x = (a, fetch a) ∧ Chain fetch (a + 4) l b)

section Chain

variable {fetch : Word → Word} {a b : Word} {l : List (Word × Word)}

/-- The next instruction joins at the end. -/
theorem Chain.push (h : Chain fetch a l b) : Chain fetch a (l ++ [(b, fetch b)]) (b + 4) := by
  induction l generalizing a with
  | nil =>
    obtain rfl : a = b := h
    exact .inr ⟨rfl, rfl⟩
  | cons x l ih =>
    rcases h with ⟨hx, h⟩ | ⟨hx, h⟩
    · exact .inl ⟨hx, ih h⟩
    · exact .inr ⟨hx, ih h⟩

/-- A bubble may enter anywhere. -/
theorem Chain.bubble {l' : List (Word × Word)} (h : Chain fetch a (l ++ l') b) :
    Chain fetch a (l ++ 0 :: l') b := by
  induction l generalizing a with
  | nil => exact .inl ⟨rfl, h⟩
  | cons x l ih =>
    rcases h with ⟨hx, h⟩ | ⟨hx, h⟩
    · exact .inl ⟨hx, ih h⟩
    · exact .inr ⟨hx, ih h⟩

end Chain

/-- The address and the word of an entry. -/
def item (e : RenameEntry) : Word × Word := (e.pc, e.instr)

/-- The instructions between IF and the issue slot, the oldest first. -/
def inFlight (s : Mips) : List (Word × Word) :=
  (QueueObj.contents renameQueueParams s.renameQueue).map item ++
    (QueueObj.contents decodeQueueParams s.decodeQueue ++
      [(s.fetch.instrPcOut, s.fetch.instr1Out)])

/-- What the next rising edge takes from the rename queue. -/
def leaving (s : Mips) : List (Word × Word) :=
  if QueueObj.dequeues s.renameQueueInputs s.renameQueue then [item s.renameQueueOut] else []

variable (env : ℕ → Mips → Input) {n : ℕ}

section Queues

theorem queues_wellFormed (n : ℕ) :
    QueueObj.WellFormed renameQueueParams (run env n).renameQueue ∧
      QueueObj.WellFormed decodeQueueParams (run env n).decodeQueue := by
  induction n with
  | zero => exact ⟨QueueObj.wellFormed_reset (by decide), QueueObj.wellFormed_reset (by decide)⟩
  | succ n ih =>
    exact ⟨QueueObj.wellFormed_posedge ih.1, QueueObj.wellFormed_posedge ih.2⟩

theorem contents_renameQueue (hflush : (run env n).exe.flush = false) :
    QueueObj.contents renameQueueParams (run env (n + 1)).renameQueue =
      (QueueObj.contents renameQueueParams (run env n).renameQueue).drop
          (QueueObj.dequeues (run env n).renameQueueInputs (run env n).renameQueue).toNat ++
        if (run env n).renameHalt then [] else [(run env n).renameEntry] :=
  QueueObj.contents_posedge rfl (queues_wellFormed env n).1 rfl hflush

theorem contents_decodeQueue (hflush : (run env n).exe.flush = false) :
    QueueObj.contents decodeQueueParams (run env (n + 1)).decodeQueue =
      (QueueObj.contents decodeQueueParams (run env n).decodeQueue).drop
          (QueueObj.dequeues (run env n).decodeQueueInputs (run env n).decodeQueue).toNat ++
        if (run env n).halt then []
        else [((run env n).fetch.instrPcOut, (run env n).fetch.instr1Out)] :=
  QueueObj.contents_posedge rfl (queues_wellFormed env n).2 rfl hflush

/-- The rename queue's contents begin with what leaves it. -/
theorem map_item_contents (n : ℕ) :
    (QueueObj.contents renameQueueParams (run env n).renameQueue).map item =
      leaving (run env n) ++
        ((QueueObj.contents renameQueueParams (run env n).renameQueue).drop
          (QueueObj.dequeues (run env n).renameQueueInputs
            (run env n).renameQueue).toNat).map item := by
  unfold leaving
  cases hd : QueueObj.dequeues (run env n).renameQueueInputs (run env n).renameQueue with
  | false => simp
  | true =>
    have hcons := QueueObj.contents_eq_cons (queues_wellFormed env n).1 hd
    rw [if_pos rfl, Bool.toNat_true]
    conv_lhs => rw [hcons]
    rfl

/-- What ID decodes is the first of the decode queue, or a bubble. -/
theorem decode_contents (n : ℕ) :
    QueueObj.contents decodeQueueParams (run env n).decodeQueue =
        item (run env n).renameEntry ::
          (QueueObj.contents decodeQueueParams (run env n).decodeQueue).drop
            (QueueObj.dequeues (run env n).decodeQueueInputs (run env n).decodeQueue).toNat ∨
      item (run env n).renameEntry = 0 ∧
        (QueueObj.dequeues (run env n).decodeQueueInputs (run env n).decodeQueue) = false := by
  cases hd : QueueObj.dequeues (run env n).decodeQueueInputs (run env n).decodeQueue with
  | false =>
    refine .inr ⟨?_, rfl⟩
    have hzero : (run env n).dequeData = (0, 0) := if_neg (by simp [hd])
    show ((run env n).dequeData.1, (run env n).dequeData.2) = 0
    rw [hzero]
    rfl
  | true =>
    refine .inl ?_
    have hcons := QueueObj.contents_eq_cons (queues_wellFormed env n).2 hd
    exact hcons

end Queues

section Step

variable {fetch : Word → Word} {a : Word}

/-- The environment feeds IF from an instruction memory. -/
def Fetches (fetch : Word → Word) : Prop :=
  ∀ n, fetched env n = fetch (run env n).instrAddress2IM

variable {env}

/-- IF waits, or holds the next word. -/
theorem fetch_run_succ (hf : Fetches env fetch) (n : ℕ) : (run env (n + 1)).fetch =
    if (run env n).halt then (run env n).fetch
    else ⟨fetch (run env n).instrAddress2IM, (run env n).instrAddress2IM,
      (run env n).instrAddress2IM + 4⟩ := by
  rw [← hf n]
  rfl

/-- IF hands its word to the decode queue exactly when it fetches another one. -/
theorem chain_fetch (hf : Fetches env fetch) (hreq : (run env n).exe.requestAltPc = false)
    {l : List (Word × Word)}
    (h : Chain fetch a (l ++ [((run env n).fetch.instrPcOut, (run env n).fetch.instr1Out)])
      (run env n).fetch.instrPcPlus4) :
    Chain fetch a (l ++ (if (run env n).halt then [] else
        [((run env n).fetch.instrPcOut, (run env n).fetch.instr1Out)]) ++
      [((run env (n + 1)).fetch.instrPcOut, (run env (n + 1)).fetch.instr1Out)])
      (run env (n + 1)).fetch.instrPcPlus4 := by
  have haddr : (run env n).instrAddress2IM = (run env n).fetch.instrPcPlus4 :=
    if_neg (by simp [hreq])
  rw [fetch_run_succ hf]
  cases (run env n).halt with
  | true => simpa using h
  | false =>
    rw [haddr]
    exact h.push

/-- **One rising edge of the front end.**  What leaves the rename queue and what
is in flight afterwards are the instructions that were in flight before and those
fetched since, in order. -/
theorem chain_step (hf : Fetches env fetch) (hflush : (run env n).exe.flush = false)
    (hreq : (run env n).exe.requestAltPc = false)
    (h : Chain fetch a (inFlight (run env n)) (run env n).fetch.instrPcPlus4) :
    Chain fetch a (leaving (run env n) ++ inFlight (run env (n + 1)))
      (run env (n + 1)).fetch.instrPcPlus4 := by
  -- the decode queue hands its first word, or a bubble, to a rename queue with room
  have hdecode := decode_contents env n
  rw [inFlight, map_item_contents, List.append_assoc] at h
  rw [inFlight, contents_renameQueue env hflush, contents_decodeQueue env hflush, List.map_append]
  generalize ((QueueObj.contents renameQueueParams (run env n).renameQueue).drop
    (QueueObj.dequeues (run env n).renameQueueInputs (run env n).renameQueue).toNat).map item =
      waiting at h ⊢
  generalize QueueObj.contents decodeQueueParams (run env n).decodeQueue = fetchedWords
    at h hdecode ⊢
  cases hrun : (run env n).renameHalt with
  | true =>
    have hd : QueueObj.dequeues (run env n).decodeQueueInputs (run env n).decodeQueue = false := by
      simp [QueueObj.dequeues, decodeQueueInputs, hrun]
    rw [hd]
    have hnext := chain_fetch hf hreq (l := leaving (run env n) ++ (waiting ++ fetchedWords))
      (by simpa only [List.append_assoc] using h)
    simpa only [if_true, List.map_nil, List.append_nil, Bool.toNat_false, List.drop_zero,
      List.append_assoc] using hnext
  | false =>
    rcases hdecode with hcons | ⟨hbub, hd⟩
    · rw [hcons] at h
      have hnext := chain_fetch hf hreq (l := leaving (run env n) ++
        (waiting ++ item (run env n).renameEntry ::
          fetchedWords.drop (QueueObj.dequeues (run env n).decodeQueueInputs
            (run env n).decodeQueue).toNat))
        (by simpa only [List.append_assoc, List.cons_append] using h)
      simpa only [Bool.false_eq_true, if_false, List.map_cons, List.map_nil, List.append_assoc,
        List.cons_append, List.nil_append] using hnext
    · rw [hd]
      rw [← List.append_assoc] at h
      have hnext := chain_fetch hf hreq (l := leaving (run env n) ++ (waiting ++ 0 :: fetchedWords))
        (by simpa only [List.append_assoc, List.cons_append] using h.bubble)
      simpa only [Bool.false_eq_true, if_false, List.map_cons, List.map_nil, List.append_assoc,
        List.cons_append, List.nil_append, hbub, Bool.toNat_false, List.drop_zero] using hnext

/-- **A flush leaves the instruction at the alternate address alone in flight**,
if IF is not held back. -/
theorem chain_flush (hf : Fetches env fetch) (hflush : (run env n).exe.flush = true)
    (hreq : (run env n).exe.requestAltPc = true) (hhalt : (run env n).halt = false) :
    Chain fetch (run env n).exe.altAddr (inFlight (run env (n + 1)))
      (run env (n + 1)).fetch.instrPcPlus4 := by
  have haddr : (run env n).instrAddress2IM = (run env n).exe.altAddr := if_pos hreq
  have hr : (run env (n + 1)).renameQueue = QueueObj.flushed renameQueueParams
      (run env n).renameQueueInputs (run env n).renameQueue := if_pos hflush
  have hd : (run env (n + 1)).decodeQueue = QueueObj.flushed decodeQueueParams
      (run env n).decodeQueueInputs (run env n).decodeQueue := if_pos hflush
  rw [inFlight, hr, hd, QueueObj.contents_flushed_of_not_init rfl,
    QueueObj.contents_flushed_of_not_init rfl, fetch_run_succ hf, hhalt, haddr]
  exact .inr ⟨rfl, rfl⟩

end Step

section Alignment

variable {env}

/-- A rename queue that an entry leaves has room in the next cycle. -/
theorem not_renameHalt_of_dequeues (hflush : (run env n).exe.flush = false)
    (hd : QueueObj.dequeues (run env n).renameQueueInputs (run env n).renameQueue = true) :
    (run env (n + 1)).renameHalt = false :=
  QueueObj.not_halt_posedge rfl (queues_wellFormed env n).1 (by decide) rfl hflush
    (.inl hd)

/-- With room in the rename queue the decode queue has room in the next cycle. -/
theorem not_halt_of_not_renameHalt (hflush : (run env n).exe.flush = false)
    (hrun : (run env n).renameHalt = false) : (run env (n + 1)).halt = false := by
  refine QueueObj.not_halt_posedge rfl (queues_wellFormed env n).2 (by decide) rfl
    hflush ?_
  rcases Nat.eq_zero_or_pos (run env n).decodeQueue.size with hzero | hpos
  · exact .inr hzero
  · exact .inl (by simp [QueueObj.dequeues, decodeQueueInputs, hrun, hpos])

/-- An instruction that is taken from the rename queue leaves it. -/
theorem dequeues_of_pc (hpc : (run env n).renameQueueOut.pc ≠ 0) :
    QueueObj.dequeues (run env n).renameQueueInputs (run env n).renameQueue = true := by
  by_contra hd
  refine hpc ?_
  have hzero : (run env n).renameQueueOut = 0 := if_neg hd
  rw [hzero]
  rfl

/-- **Two cycles after an instruction leaves the rename queue IF is not held
back.** -/
theorem not_halt_of_issue (hflush : (run env n).exe.flush = false)
    (hflush' : (run env (n + 1)).exe.flush = false) (hpc : (run env n).renameQueueOut.pc ≠ 0) :
    (run env (n + 2)).halt = false :=
  not_halt_of_not_renameHalt hflush' (not_renameHalt_of_dequeues hflush (dequeues_of_pc hpc))

end Alignment

end Mips
end OooProcessor
