/-
# The free list as a queue

The free list is `QUEUE_obj` with `INIT` 1 and `LENGTH` 32.  It is written one cell past
`tail`, at `(tail + 1) % 64`, while `tail` wraps at 31: with `tail` on the last cell the write
goes to cell 32, which is not there.  Cell 0 is never written, so the register that is
offered then is lost, and 32, which cell 0 has held since reset, is handed out in its place.

`tail` starts on the last cell and passes it every 32 enqueues, so the first value taken after
reset is lost, and every 32nd after it (`entered_run`).  Until such a value is dequeued the
free list is the queue it is meant to be, and from then on it is one only if the value was 32
(`isFifo_iff`).
-/

import OooProcessor.Queue.Run
import OooProcessor.Rtl.Mips

namespace OooProcessor
namespace QueueObj

open Lib Mips

section Prefix

variable {α : Type*} {l a b b' : List α}

/-- A list that begins one continuation of `a` begins another where the two agree as far as
it reaches. -/
theorem prefix_append_iff (h : l <+: a ++ b) :
    l <+: a ++ b' ↔ ∀ k, a.length + k < l.length → b'[k]? = b[k]? := by
  rw [List.prefix_iff_getElem?] at h ⊢
  constructor
  · intro h' k hk
    have hb := h (a.length + k) hk
    have hb' := h' (a.length + k) hk
    rw [List.getElem?_append_right (Nat.le_add_right _ _), Nat.add_sub_cancel_left] at hb hb'
    rw [hb, hb']
  · intro hagree j hj
    have hb := h j hj
    rcases Nat.lt_or_ge j a.length with hlt | hge
    · rw [List.getElem?_append_left hlt] at hb ⊢
      exact hb
    · obtain ⟨k, rfl⟩ := Nat.exists_eq_add_of_le hge
      rw [List.getElem?_append_right hge, Nat.add_sub_cancel_left] at hb ⊢
      rw [hagree k hj, hb]

end Prefix

/-- What the free list holds after reset: 32, 33, …, 63. -/
def initialFree : List Tag := (List.range 32).map fun k => Fin.ofNat 64 (32 + k)

section Run

variable {i : ℕ → Inputs Tag} {n : ℕ}

/-- The run of the free list from reset on. -/
def freeRun (i : ℕ → Inputs Tag) : ℕ → State Tag := run freelistParams (reset freelistParams) i

/-- The values it hands out in the first `n` cycles. -/
def handed (i : ℕ → Inputs Tag) : ℕ → List Tag :=
  dequeued freelistParams (reset freelistParams) i

/-- The values it accepts in them. -/
def returned (i : ℕ → Inputs Tag) : ℕ → List Tag :=
  accepted freelistParams (reset freelistParams) i

/-- After `n` cycles the free list has been a queue: it has handed out, in order, 32, 33, …,
63 and then what it accepted, it accepts exactly where it has room, and its size is the
number of values not yet handed out. -/
structure IsFifo (i : ℕ → Inputs Tag) (n : ℕ) : Prop where
  order : handed i n <+: initialFree ++ returned i n
  accepts : enqueues freelistParams (i n) (freeRun i n) = true ↔
    (i n).enque = true ∧ (freeRun i n).size < 32
  size : (freeRun i n).size + (handed i n).length = 32 + (returned i n).length

theorem wellFormed_freeReset : WellFormed freelistParams (reset freelistParams) :=
  wellFormed_reset (by decide)

theorem contents_freeReset : contents freelistParams (reset freelistParams) = initialFree := by
  decide

theorem returned_succ (i : ℕ → Inputs Tag) (n : ℕ) : returned i (n + 1) =
    returned i n ++
      (if enqueues freelistParams (i n) (freeRun i n) then [(i n).enqueData] else []) := rfl

theorem freeRun_succ (hf : ∀ k, (i k).flush = false) (n : ℕ) :
    freeRun i (n + 1) = advance freelistParams (i n) (freeRun i n) :=
  if_neg (by simp [hf n])

/-- Cell 0 is never written. -/
theorem cell_freeRun (hf : ∀ k, (i k).flush = false) (n : ℕ) : (freeRun i n).queue 0 = 32 := by
  induction n with
  | zero => rfl
  | succ n ih =>
    have hlt : (freeRun i n).tail < 32 := (wellFormed_run wellFormed_freeReset n).tail_lt
    have hidx : writeIndex freelistParams (freeRun i n) = (freeRun i n).tail + 1 :=
      Nat.mod_eq_of_lt (by omega)
    rw [freeRun_succ hf]
    show writeAt 32 _ (writeIndex freelistParams (freeRun i n)) _ 0 = 32
    rw [writeAt_apply_of_ne (by omega)]
    exact ih

/-- `tail` counts the values accepted. -/
theorem tail_freeRun (hf : ∀ k, (i k).flush = false) (n : ℕ) :
    (freeRun i n).tail = (31 + (returned i n).length) % 32 := by
  induction n with
  | zero => rfl
  | succ n ih =>
    have hlt : (freeRun i n).tail < 32 := (wellFormed_run wellFormed_freeReset n).tail_lt
    rw [freeRun_succ hf, returned_succ]
    show (if enqueues freelistParams (i n) (freeRun i n) then next 32 (freeRun i n).tail
      else (freeRun i n).tail) = _
    split_ifs
    · rw [next_eq_mod hlt, ih, List.length_append, List.length_singleton, Nat.mod_add_mod,
        Nat.add_assoc]
    · rw [List.append_nil, ih]

/-- Where `tail` is on the last cell, the entry of cell 0 comes in the place of the value
offered. -/
theorem entering_freeRun (hf : ∀ k, (i k).flush = false) (n : ℕ) :
    entering freelistParams (i n) (freeRun i n) =
      if (returned i n).length % 32 = 0 then 32 else (i n).enqueData := by
  have hlast : (freelistParams.init = true ∧ (freeRun i n).tail = freelistParams.length - 1) ↔
      (returned i n).length % 32 = 0 := by
    rw [tail_freeRun hf, show freelistParams.length - 1 = 31 from rfl]
    constructor
    · rintro ⟨-, heq⟩
      omega
    · intro hzero
      exact ⟨rfl, by omega⟩
  rw [entering, cell_freeRun hf]
  exact if_congr hlast rfl rfl

/-- **What is lost.**  In the place of the first value accepted, and of every 32nd after it,
stands 32. -/
theorem entered_run (hf : ∀ k, (i k).flush = false) (n : ℕ) :
    entered freelistParams (reset freelistParams) i n =
      (returned i n).mapIdx fun k x => if k % 32 = 0 then 32 else x := by
  induction n with
  | zero => rfl
  | succ n ih =>
    rw [entered, ih, returned_succ]
    show _ ++ (if enqueues freelistParams (i n) (freeRun i n) then
      [entering freelistParams (i n) (freeRun i n)] else []) = _
    split_ifs
    · rw [List.mapIdx_concat, entering_freeRun hf]
    · rw [List.append_nil, List.append_nil]

/-- What has been handed out and what is left are what was there and what entered. -/
theorem handed_append_contents (hf : ∀ k, (i k).flush = false) (n : ℕ) :
    handed i n ++ contents freelistParams (freeRun i n) =
      initialFree ++ (returned i n).mapIdx fun k x => if k % 32 = 0 then 32 else x := by
  rw [← entered_run hf n, ← contents_freeReset]
  exact dequeued_append_contents wellFormed_freeReset (fun _ => by decide) hf n

/-- No value is lost from the count. -/
theorem size_freeRun (hf : ∀ k, (i k).flush = false) (n : ℕ) :
    (freeRun i n).size + (handed i n).length = 32 + (returned i n).length := by
  have hlen := congrArg List.length (handed_append_contents hf n)
  rw [List.length_append, List.length_append, length_contents, List.length_mapIdx] at hlen
  have h32 : initialFree.length = 32 := rfl
  omega

/-- **The order is that of a queue** until a lost value is handed out that was not 32. -/
theorem handed_prefix_iff (hf : ∀ k, (i k).flush = false) (n : ℕ) :
    handed i n <+: initialFree ++ returned i n ↔
      ∀ k, 32 + 32 * k < (handed i n).length → (returned i n)[32 * k]? = some 32 := by
  have hprefix : handed i n <+: initialFree ++
      (returned i n).mapIdx fun k x => if k % 32 = 0 then 32 else x :=
    ⟨_, handed_append_contents hf n⟩
  have hsize := size_freeRun hf n
  rw [prefix_append_iff hprefix, show initialFree.length = 32 from rfl]
  constructor
  · intro hagree k hk
    have hlt : 32 * k < (returned i n).length := by omega
    rw [hagree (32 * k) hk, List.getElem?_mapIdx, List.getElem?_eq_getElem hlt]
    simp
  · intro hlost j hj
    have hlt : j < (returned i n).length := by omega
    rw [List.getElem?_mapIdx]
    by_cases hzero : j % 32 = 0
    · obtain ⟨k, rfl⟩ := Nat.dvd_of_mod_eq_zero hzero
      rw [hlost k hj, Option.map_some, if_pos hzero]
    · rw [List.getElem?_eq_getElem hlt, Option.map_some, if_neg hzero]

/-! ### What the inputs decide -/

/-- What the inputs ask of a queue. -/
def asked (i : ℕ → Inputs Tag) (n : ℕ) : Fifo.Request Tag := request (i n) (i n).enqueData

theorem like_asked : Fifo.Like (requests freelistParams (reset freelistParams) i) (asked i) :=
  fun _ => ⟨rfl, rfl, rfl, rfl⟩

/-- A queue with the same inputs accepts the same values. -/
theorem returned_eq_taken (hf : ∀ k, (i k).flush = false) (n : ℕ) :
    returned i n = Fifo.taken 32 initialFree (asked i) n := by
  induction n with
  | zero => rfl
  | succ n ih =>
    have htakes := calc
      enqueues freelistParams (i n) (freeRun i n)
        = Fifo.takes 32 (requests freelistParams (reset freelistParams) i n)
            (contents freelistParams (freeRun i n)) := takes_request.symm
      _ = Fifo.takes 32 (requests freelistParams (reset freelistParams) i n)
            (Fifo.run 32 initialFree (requests freelistParams (reset freelistParams) i) n) := by
          rw [freeRun, contents_run wellFormed_freeReset (fun _ => by decide) (fun _ => hf),
            contents_freeReset]
          rfl
      _ = Fifo.takes 32 (asked i n) (Fifo.run 32 initialFree (asked i) n) :=
          Fifo.takes_like like_asked n
    rw [returned_succ, Fifo.taken, ih, htakes]
    rfl

/-- And hands out as many. -/
theorem length_handed (hf : ∀ k, (i k).flush = false) (n : ℕ) :
    (handed i n).length = (Fifo.given 32 initialFree (asked i) n).length := by
  rw [← Fifo.length_given_like like_asked, ← contents_freeReset]
  exact congrArg _ (dequeued_eq_given wellFormed_freeReset (fun _ => by decide) (fun _ => hf) n)

/-- **When the free list is a queue.**  Exactly when, of the values that are the first, the
33rd, the 65th, … that a queue with the same inputs takes, those that it has reached with
what it has given are 32. -/
theorem isFifo_iff (i : ℕ → Inputs Tag) (hf : ∀ k, (i k).flush = false) (n : ℕ) :
    IsFifo i n ↔
      ∀ k, 32 + 32 * k < (Fifo.given 32 initialFree (asked i) n).length →
        (Fifo.taken 32 initialFree (asked i) n)[32 * k]? = some 32 := by
  rw [← length_handed hf, ← returned_eq_taken hf, ← handed_prefix_iff hf]
  constructor
  · intro h
    exact h.order
  · intro horder
    refine ⟨horder, ?_, size_freeRun hf n⟩
    rw [enqueues_eq, Bool.and_eq_true, decide_eq_true_iff]
    rfl

end Run

/-- A value is offered and one is asked for in every cycle. -/
def everyCycle (x : Tag) (_ : ℕ) : Inputs Tag := ⟨false, false, true, x, true, fun _ => 0⟩

/-- With 32 offered in every cycle the free list is a queue for 40 cycles. -/
theorem isFifo_iff_everyCycle : IsFifo (everyCycle 32) 40 :=
  (isFifo_iff (everyCycle 32) (fun _ => rfl) 40).mpr (by
    intro k hk
    have hlen : (Fifo.given 32 initialFree (asked (everyCycle 32)) 40).length = 40 := by
      decide +kernel
    rw [hlen] at hk
    obtain rfl : k = 0 := by omega
    decide +kernel)

/-- **The free list is not a queue.**  With 5 offered in every cycle the first 5 it accepts
goes to cell 32, and the 33rd value it hands out is 32 again. -/
theorem not_isFifo_everyCycle :
    ¬ ∀ i : ℕ → Inputs Tag, (∀ k, (i k).flush = false) → ∀ n, IsFifo i n := by
  intro h
  have hf : ∀ k, (everyCycle 5 k).flush = false := fun _ => rfl
  have horder := (handed_prefix_iff hf 33).mp (h (everyCycle 5) hf 33).order
  have hlen : (handed (everyCycle 5) 33).length = 33 := by
    rw [length_handed hf]
    decide +kernel
  have hfirst : (returned (everyCycle 5) 33)[0]? = some 5 := by
    rw [returned_eq_taken hf]
    decide +kernel
  have hlost := horder 0 (by rw [hlen]; decide)
  rw [Nat.mul_zero, hfirst] at hlost
  exact absurd hlost (by decide)

end QueueObj
end OooProcessor
