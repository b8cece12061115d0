/-
# The decode and rename queues are bounded queues

`QUEUE_obj` with `INIT` 0, for any `LENGTH` from 1 on and any width: from reset on it is the
bounded queue of `Lib.Fifo` of capacity `LENGTH`, whatever its inputs do and in whichever
order they do it (`bounded_run`).  What it takes is what stands on `enque_data`, so the
abstract queue is driven by the inputs alone.
-/

import OooProcessor.Queue.Run
import OooProcessor.Rtl.Mips

namespace OooProcessor
namespace QueueObj

open Lib

variable {α : Type*} {P : Params α} {i : Inputs α} {s : State α} {l : List α}

/-- With inputs `i` and in state `s`, the module shows what a queue of capacity `LENGTH` that
holds `l` shows, and its pointers are in range. -/
structure Represents (P : Params α) (i : Inputs α) (s : State α) (l : List α) : Prop where
  contents_eq : contents P s = l
  size_eq : s.size = l.length
  enqueues_iff : enqueues P i s = true ↔ i.enque = true ∧ l.length < P.length
  dequeues_iff : dequeues i s = true ↔ i.deque = true ∧ i.stall = false ∧ l ≠ []
  dequeData_eq : dequeData P i s =
    if i.deque = true ∧ i.stall = false then l.headD (P.ofInt 0) else P.ofInt 0
  halt_iff : halt P s = true ↔ l.length = P.length
  head_lt : s.head < P.length
  tail_lt : s.tail < P.length
  size_le : s.size ≤ P.length

theorem dequeues_iff_contents :
    dequeues i s = true ↔ i.deque = true ∧ i.stall = false ∧ contents P s ≠ [] := by
  have hne : contents P s ≠ [] ↔ 0 < s.size := by
    rw [← List.length_pos_iff, length_contents]
  rw [hne]
  simp [dequeues, and_assoc]

/-- The oldest entry is on `deque_data`, or 0 is. -/
theorem dequeData_eq_headD (h : WellFormed P s) : dequeData P i s =
    if i.deque = true ∧ i.stall = false then (contents P s).headD (P.ofInt 0) else P.ofInt 0 := by
  by_cases hd : dequeues i s = true
  · obtain ⟨hask, hrun, -⟩ := dequeues_iff_contents (P := P) |>.mp hd
    rw [if_pos ⟨hask, hrun⟩, contents_eq_cons h hd]
    rfl
  · rw [dequeData, if_neg hd]
    split_ifs with hask
    · have hnil : contents P s = [] := by
        by_contra hne
        exact hd (dequeues_iff_contents.mpr ⟨hask.1, hask.2, hne⟩)
      rw [hnil]
      rfl
    · rfl

/-- A well-formed state represents its contents. -/
theorem represents_contents (hinit : P.init = false) (h : WellFormed P s) (i : Inputs α) :
    Represents P i s (contents P s) where
  contents_eq := rfl
  size_eq := length_contents.symm
  enqueues_iff := by
    rw [enqueues_eq, Bool.and_eq_true, decide_eq_true_iff, length_contents]
  dequeues_iff := dequeues_iff_contents
  dequeData_eq := dequeData_eq_headD h
  halt_iff := by rw [halt_of_not_init hinit, beq_iff_eq, length_contents]
  head_lt := h.head_lt
  tail_lt := h.tail_lt
  size_le := h.size_le

/-- **The queue is a bounded queue.**  In every cycle from reset on it represents the list
that a queue of capacity `LENGTH` holds after the same requests. -/
theorem bounded_run (hinit : P.init = false) (hL : 0 < P.length) (i : ℕ → Inputs α) (n : ℕ) :
    Represents P (i n) (run P (reset P) i n)
      (Fifo.run P.length [] (fun k => request (i k) (i k).enqueData) n) := by
  have hwf : WellFormed P (reset P) := wellFormed_reset hL
  have hlist : contents P (run P (reset P) i n) =
      Fifo.run P.length [] (fun k => request (i k) (i k).enqueData) n := by
    have hnil : contents P (reset P) = [] := by simp [reset, hinit, contents]
    have hreq : requests P (reset P) i = fun k => request (i k) (i k).enqueData := by
      funext k
      rw [requests, entering, if_neg (by simp [hinit])]
    rw [contents_run hwf (by simp [hinit]) (by simp [hinit]), hnil, hreq]
  rw [← hlist]
  exact represents_contents hinit (wellFormed_run hwf n) (i n)

/-- A queue of one entry that is offered `k` in cycle `k`, asked for its entry in every cycle
and flushed in cycle 2. -/
theorem bounded_run_one :
    Represents (⟨false, 1, id⟩ : Params ℕ) ⟨false, false, true, 4, true, fun _ => 0⟩
      (run ⟨false, 1, id⟩ (reset ⟨false, 1, id⟩)
        (fun k => ⟨false, k == 2, true, k, true, fun _ => 0⟩) 4)
      [3] :=
  bounded_run (P := ⟨false, 1, id⟩) rfl Nat.one_pos
    (fun k => ⟨false, k == 2, true, k, true, fun _ => 0⟩) 4

end QueueObj
end OooProcessor
