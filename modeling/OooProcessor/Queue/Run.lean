/-
# QUEUE_obj over a run

`Core.Fifo` follows one rising edge of `QUEUE_obj`.  Here the module runs: a stream of inputs
takes it from a state `s₀` through one state for each cycle (`run`).

Every edge is a cycle of the bounded queue of `Lib.Fifo` (`contents_posedge_step`), and so
is every run (`contents_run`), with the values the module gives away (`dequeued_eq_given`)
and takes (`entered_eq_taken`).  The offered value is `entering`, which for the free list is
not always the one on `enque_data`.
-/

import OooProcessor.Core.Fifo
import OooProcessor.Lib.Fifo

namespace OooProcessor
namespace QueueObj

open Lib

variable {α : Type*}

section Definitions

variable (P : Params α) (s₀ : State α) (i : ℕ → Inputs α)

/-- The state before the rising edge of each cycle. -/
def run : ℕ → State α
  | 0 => s₀
  | n + 1 => posedge P (i n) (run n)

/-- The values dequeued in the first `n` cycles. -/
def dequeued : ℕ → List α
  | 0 => []
  | n + 1 =>
    dequeued n ++
      (if dequeues (i n) (run P s₀ i n) then [dequeData P (i n) (run P s₀ i n)] else [])

/-- The values on `enque_data` where `enque` was honoured, in a run without flush. -/
def accepted : ℕ → List α
  | 0 => []
  | n + 1 => accepted n ++ (if enqueues P (i n) (run P s₀ i n) then [(i n).enqueData] else [])

/-- The values that came to stand in the queue for them. -/
def entered : ℕ → List α
  | 0 => []
  | n + 1 =>
    entered n ++
      (if enqueues P (i n) (run P s₀ i n) then [entering P (i n) (run P s₀ i n)] else [])

end Definitions

/-- The inputs as a request to a bounded queue, with the value it would take. -/
def request (i : Inputs α) (x : α) : Fifo.Request α := ⟨i.enque, x, i.deque, i.stall, i.flush⟩

section Step

variable {P : Params α} {i : Inputs α} {s : State α} {x : α}

/-- Both write enables ask for room and nothing else. -/
theorem enqueues_eq : enqueues P i s = (i.enque && decide (s.size < P.length)) := by
  unfold enqueues
  cases hinit : P.init with
  | true => rfl
  | false =>
    rw [if_neg Bool.false_ne_true, halt_of_not_init hinit]
    by_cases hlt : s.size < P.length
    · have hne : (s.size == P.length) = false := beq_eq_false_iff_ne.mpr (Nat.ne_of_lt hlt)
      rw [hne, Bool.not_false, Bool.and_true]
    · rw [decide_eq_false hlt, Bool.and_false, Bool.and_false]

theorem takes_request : Fifo.takes P.length (request i x) (contents P s) = enqueues P i s := by
  rw [enqueues_eq, Fifo.takes, length_contents]
  rfl

theorem gives_request (h : WellFormed P s) :
    (Fifo.gives (request i x) (contents P s)).toList =
      if dequeues i s then [dequeData P i s] else [] := by
  by_cases hd : dequeues i s = true
  · have hask : (i.deque && !i.stall) = true := by
      simp only [dequeues, Bool.and_eq_true] at hd ⊢
      exact hd.1
    rw [Fifo.gives, if_pos (show ((request i x).ask && !(request i x).stall) = true from hask),
      contents_eq_cons h hd, if_pos hd]
    rfl
  · rw [if_neg hd, Fifo.gives]
    split_ifs with hask
    · have hzero : s.size = 0 := by
        by_contra hne
        exact hd (by
          simp only [dequeues, Bool.and_eq_true]
          exact ⟨by simpa [request] using hask, decide_eq_true (Nat.pos_of_ne_zero hne)⟩)
      have hnil : contents P s = [] := List.eq_nil_of_length_eq_zero (by simpa using hzero)
      rw [hnil]
      rfl
    · rfl

/-- **One edge is a cycle of a bounded queue.**  A free list is not flushed to empty, so
there is no flush there. -/
theorem contents_posedge_step (h : WellFormed P s) (hP : P.init = true → P.length < 64)
    (hf : P.init = true → i.flush = false) :
    contents P (posedge P i s) =
      Fifo.step P.length (request i (entering P i s)) (contents P s) := by
  rw [posedge, Fifo.step, gives_request h, takes_request]
  show _ = if i.flush then [] else _
  cases hflush : i.flush with
  | true =>
    have hinit : P.init = false := by
      by_contra hne
      rw [hf (by simpa using hne)] at hflush
      exact Bool.false_ne_true hflush
    rw [if_pos rfl, if_pos rfl, contents_flushed_of_not_init hinit]
  | false =>
    rw [if_neg Bool.false_ne_true, if_neg Bool.false_ne_true, contents_advance h hP]
    cases dequeues i s <;> rfl

end Step

section Run

variable {P : Params α} {s₀ : State α} {i : ℕ → Inputs α}

theorem wellFormed_run (h : WellFormed P s₀) (n : ℕ) : WellFormed P (run P s₀ i n) := by
  induction n with
  | zero => exact h
  | succ n ih => exact wellFormed_posedge ih

variable (P s₀ i) in
/-- The requests of a run. -/
def requests (n : ℕ) : Fifo.Request α := request (i n) (entering P (i n) (run P s₀ i n))

/-- **A run of the module is a run of a bounded queue.** -/
theorem contents_run (h : WellFormed P s₀) (hP : P.init = true → P.length < 64)
    (hf : P.init = true → ∀ k, (i k).flush = false) (n : ℕ) :
    contents P (run P s₀ i n) =
      Fifo.run P.length (contents P s₀) (requests P s₀ i) n := by
  induction n with
  | zero => rfl
  | succ n ih =>
    rw [run, contents_posedge_step (wellFormed_run h n) hP fun hinit => hf hinit n, Fifo.run, ← ih]
    rfl

theorem dequeued_eq_given (h : WellFormed P s₀) (hP : P.init = true → P.length < 64)
    (hf : P.init = true → ∀ k, (i k).flush = false) (n : ℕ) :
    dequeued P s₀ i n = Fifo.given P.length (contents P s₀) (requests P s₀ i) n := by
  induction n with
  | zero => rfl
  | succ n ih =>
    rw [dequeued, Fifo.given, ih, ← contents_run h hP hf n, requests,
      gives_request (wellFormed_run h n)]

theorem entered_eq_taken (h : WellFormed P s₀) (hP : P.init = true → P.length < 64)
    (hf : P.init = true → ∀ k, (i k).flush = false) (n : ℕ) :
    entered P s₀ i n = Fifo.taken P.length (contents P s₀) (requests P s₀ i) n := by
  induction n with
  | zero => rfl
  | succ n ih =>
    rw [entered, Fifo.taken, ih, ← contents_run h hP hf n, requests, takes_request]
    rfl

/-- **Nothing is lost or reordered**, once it stands in the queue. -/
theorem dequeued_append_contents (h : WellFormed P s₀) (hP : P.init = true → P.length < 64)
    (hf : ∀ k, (i k).flush = false) (n : ℕ) :
    dequeued P s₀ i n ++ contents P (run P s₀ i n) = contents P s₀ ++ entered P s₀ i n := by
  rw [dequeued_eq_given h hP (fun _ => hf), contents_run h hP (fun _ => hf),
    entered_eq_taken h hP (fun _ => hf)]
  exact Fifo.given_append_run fun k _ => hf k

end Run

end QueueObj
end OooProcessor
