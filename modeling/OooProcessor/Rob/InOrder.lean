/-
# Commit in order, once, when complete

`enqueued` and `committed` are what enters and leaves the reorder buffer since the
last flush.  The commits are right (`InOrder`) if what is committed is the
beginning of what was enqueued, `queue_size` counts the rest, and a cell that
commits holds the first of the rest, named by a completion since its enqueue.

ROB.v gives this as long as no completion names a free cell (`NamesOccupied`).  A
free cell normally has number 0, and the number 0 is what a bubble carries.  The
completion loop means to exclude it, but its `& (instr_num_q[i] != 0)` binds to
MEM's half of the condition only, so that a bubble completing in EXE marks every
free cell, and a marked cell commits although the buffer is empty
(`not_inOrder_bubble`).  The other free cell with a number is the one Rename
enqueues into in the cycle of a recovery: it is written after the loop that clears
the arrays.
-/

import Mathlib.Tactic.IntervalCases
import OooProcessor.Rob.Contents

namespace OooProcessor
namespace Rob

open Lib

variable (env : ℕ → State → Inputs)

/-- The entries accepted since the last flush, with the cycle, the oldest
first. -/
def enqueued : ℕ → List (ℕ × Entry)
  | 0 => []
  | n + 1 =>
    if flushes (run env n) then []
    else if accepts (machine.input env n) (run env n) then
      enqueued n ++ [(n, entry (machine.input env n))]
    else enqueued n

/-- The entries committed since the last flush, the oldest first. -/
def committed : ℕ → List Entry
  | 0 => []
  | n + 1 =>
    if flushes (run env n) then []
    else if commits (run env n) then committed n ++ [(head (run env n)).toEntry]
    else committed n

/-- A completion event carries the number `num`. -/
def names (i : Inputs) (num : ℤ) : Prop :=
  (i.exeCompleteFlag = true ∧ i.exeInstrNum = num) ∨
    (i.memCompleteFlag = true ∧ i.memInstrNum = num)

/-- One of the cycles from `m` on and before `n` completes `num`. -/
def NamedSince (m n : ℕ) (num : ℤ) : Prop :=
  ∃ k, m ≤ k ∧ k < n ∧ names (machine.input env k) num

/-- **What the commits of a run are held to**, in the state before cycle `n`. -/
structure InOrder (n : ℕ) : Prop where
  order : committed env n <+: (enqueued env n).map Prod.snd
  size : (run env n).queueSize = (enqueued env n).length - (committed env n).length
  bounds : 0 ≤ (run env n).queueSize ∧ (run env n).queueSize ≤ 64
  commit : commits (run env n) = true → ∃ m e,
    (enqueued env n)[(committed env n).length]? = some (m, e) ∧
      (head (run env n)).toEntry = e ∧ NamedSince env m n e.instrNum

/-- Rename enqueues nonzero numbers that no live entry has. -/
def Distinct : Prop := ∀ n, accepts (machine.input env n) (run env n) = true →
  (machine.input env n).renameInstrNum ≠ 0 ∧
    ∀ p ∈ (enqueued env n).drop (committed env n).length,
      p.2.instrNum ≠ (machine.input env n).renameInstrNum

variable {env} {n : ℕ}

section Tracked

/-- The cell `c` is where the entry `p` is kept, complete only if named. -/
structure Tracks (env : ℕ → State → Inputs) (n : ℕ) (p : ℕ × Entry) (c : Slot) : Prop where
  entry : c.toEntry = p.2
  since : p.1 ≤ n
  named : c.complete = true → NamedSince env p.1 n p.2.instrNum

/-- The contents of `s` are what is left of `enq` after `com`. -/
def Tracked (env : ℕ → State → Inputs) (n : ℕ) (enq : List (ℕ × Entry)) (com : List Entry)
    (s : State) : Prop :=
  ∃ past live, enq = past ++ live ∧ past.map Prod.snd = com ∧
    List.Forall₂ (Tracks env n) live (contents s)

theorem NamedSince.succ {m : ℕ} {num : ℤ} (h : NamedSince env m n num) :
    NamedSince env m (n + 1) num := by
  obtain ⟨k, hm, hk, hnames⟩ := h
  exact ⟨k, hm, Nat.lt_succ_of_lt hk, hnames⟩

theorem Tracks.succ {p : ℕ × Entry} {c : Slot} (h : Tracks env n p c) :
    Tracks env (n + 1) p c :=
  ⟨h.entry, Nat.le_succ_of_le h.since, fun hc => (h.named hc).succ⟩

theorem names_of_marks {i : Inputs} {c : Slot} (h : marks i c = true) : names i c.instrNum := by
  simp only [marks, Bool.or_eq_true, Bool.and_eq_true, beq_iff_eq, bne_iff_ne] at h
  rcases h with h | ⟨h, -⟩
  · exact .inl h
  · exact .inr h

/-- An entry that is completed now was named. -/
theorem Tracks.complete {p : ℕ × Entry} {c : Slot} (h : Tracks env n p c) :
    Tracks env (n + 1) p (Rob.complete (machine.input env n) c) := by
  refine ⟨h.entry, Nat.le_succ_of_le h.since, fun hc => ?_⟩
  rcases of_complete_complete hc with hm | hold
  · have hnames := names_of_marks hm
    rw [show c.instrNum = p.2.instrNum from congrArg Entry.instrNum h.entry] at hnames
    exact ⟨n, h.since, Nat.lt_succ_self n, hnames⟩
  · exact (h.named hold).succ

theorem tracks_slot (n : ℕ) :
    Tracks env n (n, entry (machine.input env n)) (slot (machine.input env n)) :=
  ⟨rfl, le_rfl, fun h => absurd (show false = true from h) (by decide)⟩

/-- **The rising edge** moves entry and cell together. -/
theorem tracked_high (hwf : WellFormed (run env n))
    (h : Tracked env n (enqueued env n) (committed env n) (run env n)) :
    Tracked env n (enqueued env (n + 1)) (committed env (n + 1)) (high env n) := by
  have hhigh : high env n = posedge (machine.input env n) (run env n) := rfl
  unfold enqueued committed
  rw [hhigh, posedge]
  cases hf : flushes (run env n) with
  | true => exact ⟨[], [], rfl, rfl, .nil⟩
  | false =>
    simp only [Bool.false_eq_true, if_false]
    obtain ⟨past, live, henq, hcom, htracks⟩ := h
    have hnew : List.Forall₂ (Tracks env n)
        (if accepts (machine.input env n) (run env n) then
          [(n, entry (machine.input env n))] else [])
        (if accepts (machine.input env n) (run env n) then [slot (machine.input env n)] else []) := by
      split_ifs
      · exact .cons (tracks_slot n) .nil
      · exact .nil
    have hlist : (if accepts (machine.input env n) (run env n) then
          enqueued env n ++ [(n, entry (machine.input env n))] else enqueued env n) =
        past ++ (live ++ if accepts (machine.input env n) (run env n) then
          [(n, entry (machine.input env n))] else []) := by
      rw [henq]
      split_ifs <;> simp
    rw [hlist, Tracked, contents_advance hwf]
    cases hc : commits (run env n) with
    | false =>
      refine ⟨past, _, rfl, hcom, ?_⟩
      exact List.rel_append htracks hnew
    | true =>
      rw [contents_eq_cons hwf hc] at htracks
      obtain ⟨p, rest, hp, hrest, rfl⟩ := List.forall₂_cons_right_iff.mp htracks
      refine ⟨past ++ [p], rest ++ _, ?_, ?_, List.rel_append hrest hnew⟩
      · simp
      · simp [hcom, hp.entry]

/-- **The falling edge** completes the entries it names. -/
theorem tracked_succ {enq : List (ℕ × Entry)} {com : List Entry}
    (h : Tracked env n enq com (high env n)) : Tracked env (n + 1) enq com (run env (n + 1)) := by
  obtain ⟨past, live, henq, hcom, htracks⟩ := h
  refine ⟨past, live, henq, hcom, ?_⟩
  have hrun : run env (n + 1) = negedge (machine.input env n) (high env n) := rfl
  rw [hrun]
  rcases negedge_cases (machine.input env n) (high env n) with hsame | hmap
  · rw [hsame]
    exact htracks.imp fun _ _ ht => ht.succ
  · rw [hmap, List.forall₂_map_right_iff]
    exact htracks.imp fun _ _ ht => ht.complete

end Tracked

/-- What the buffer holds is right as long as no completion names a free cell. -/
theorem tracked (n : ℕ) (hn : ∀ k < n, NamesOccupied (machine.input env k) (high env k)) :
    WellFormed (run env n) ∧
      Tracked env n (enqueued env n) (committed env n) (run env n) := by
  induction n with
  | zero => exact ⟨wellFormed_reset, [], [], rfl, rfl, .nil⟩
  | succ n ih =>
    obtain ⟨hwf, htracked⟩ := ih fun k hk => hn k (Nat.lt_succ_of_lt hk)
    refine ⟨?_, tracked_succ (tracked_high hwf htracked)⟩
    exact wellFormed_negedge (wellFormed_posedge hwf) (hn n (Nat.lt_succ_self n))

/-- **Commits are in order, once each and complete** in every run whose
completions name no free cell. -/
theorem inOrder (env : ℕ → State → Inputs) (n : ℕ)
    (hn : ∀ k < n, NamesOccupied (machine.input env k) (high env k)) : InOrder env n := by
  obtain ⟨hwf, past, live, henq, hcom, htracks⟩ := tracked n hn
  have hlength : (committed env n).length = past.length := by rw [← hcom, List.length_map]
  refine ⟨?_, ?_, ⟨hwf.size_nonneg, hwf.size_le⟩, fun hc => ?_⟩
  · rw [henq, List.map_append, hcom]
    exact List.prefix_append _ _
  · have hlive := htracks.length_eq
    rw [henq, List.length_append, hlength, ← length_contents hwf, ← hlive]
    push_cast
    omega
  · rw [contents_eq_cons hwf hc] at htracks
    obtain ⟨p, rest, hp, -, rfl⟩ := List.forall₂_cons_right_iff.mp htracks
    refine ⟨p.1, p.2, ?_, hp.entry, hp.named hc⟩
    rw [henq, hlength]
    simp

/-- No event. -/
def idle : Inputs := ⟨false, 0, 0, 0, false, false, 0, 0, false, 0⟩

/-- Rename enqueues instruction 1, and EXE completes it from the next cycle on. -/
def completeOne (n : ℕ) (_ : State) : Inputs :=
  if n = 0 then { idle with renameEnque := true, renameInstrNum := 1 }
  else { idle with exeCompleteFlag := true, exeInstrNum := 1 }

/-- The instruction has been committed before cycle 3. -/
theorem inOrder_completeOne : InOrder completeOne 3 := by
  refine inOrder completeOne 3 fun k hk => ?_
  unfold NamesOccupied
  interval_cases k <;> decide +kernel

/-- A bubble completes in EXE in every cycle, and nothing is enqueued. -/
def bubbles (_ : ℕ) (_ : State) : Inputs := { idle with exeCompleteFlag := true }

/-- After one bubble the empty buffer commits. -/
theorem not_inOrder_bubble : ¬∀ env, Distinct env → ∀ n, InOrder env n := by
  intro h
  have hdistinct : Distinct bubbles := fun n ha => absurd (show false = true from ha) (by decide)
  obtain ⟨m, e, hlive, -⟩ := (h bubbles hdistinct 1).commit (by decide)
  have hempty : enqueued bubbles 1 = [] := by decide
  rw [hempty] at hlive
  exact absurd hlive (by simp)

end Rob
end OooProcessor
