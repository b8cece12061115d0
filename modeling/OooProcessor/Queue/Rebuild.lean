/-
# What a flush makes of the free list

On a flush the free list marks the physical registers that RRAT maps no architectural
register to, and writes the marked ones to its array from cell 0 on.  32 architectural
registers that are mapped to different registers leave 32 of the 64 free, as many as the
array has cells: the loop writes inside it (`slot_lt`), and after it the array is the list
of the free registers in increasing order (`cells_flushed`), whatever it was before.

From there on the free list hands each of them out once (`rebuilt_posedge`).
-/

import OooProcessor.Queue.Run
import OooProcessor.Rtl.Mips

namespace OooProcessor
namespace QueueObj

open Lib Mips

section Compact

variable {α : Type*} (P : Params α) (t : Tag → Bool)

/-- One turn of the loop that compacts the marked registers. -/
def turn (qj : (ℕ → α) × ℕ) (p : Tag) : (ℕ → α) × ℕ :=
  if t p then (writeAt P.length qj.1 qj.2 (P.ofInt p), qj.2 + 1) else qj

theorem compact_eq_foldl (q : ℕ → α) :
    compact P t q = (List.finRange 64).foldl (turn P t) (q, 0) := rfl

/-- The index `j` when the loop comes to register `p`. -/
def slot (q : ℕ → α) (p : Tag) : ℕ :=
  (((List.finRange 64).take p).foldl (turn P t) (q, 0)).2

/-- `j` counts the marked registers. -/
theorem foldl_turn_snd (l : List Tag) (q : ℕ → α) (j : ℕ) :
    (l.foldl (turn P t) (q, j)).2 = j + (l.filter t).length := by
  induction l generalizing q j with
  | nil => rfl
  | cons p l ih =>
    rw [List.foldl_cons, turn]
    by_cases hp : t p = true
    · rw [if_pos hp, ih, List.filter_cons_of_pos hp, List.length_cons]
      omega
    · rw [if_neg hp, ih, List.filter_cons_of_neg hp]

/-- After the loop it is their number. -/
theorem compact_snd (q : ℕ → α) : (compact P t q).2 = ((List.finRange 64).filter t).length := by
  rw [compact_eq_foldl, foldl_turn_snd, Nat.zero_add]

/-- A marked register is written before the index that the loop ends with. -/
theorem slot_lt (q : ℕ → α) {p : Tag} (hp : t p = true) : slot P t q p < (compact P t q).2 := by
  have hsplit : List.finRange 64 =
      (List.finRange 64).take p ++ p :: (List.finRange 64).drop (p + 1) := by
    have hlt : (p : ℕ) < (List.finRange 64).length := by simp
    have hdrop := List.drop_eq_getElem_cons hlt
    rw [List.getElem_finRange] at hdrop
    conv_lhs => rw [← List.take_append_drop p (List.finRange 64), hdrop]
    rfl
  have hcount := congrArg (fun l => (l.filter t).length) hsplit
  simp only [List.filter_append, List.length_append, List.filter_cons_of_pos hp,
    List.length_cons] at hcount
  rw [slot, foldl_turn_snd, compact_snd]
  omega

end Compact

section Rebuilt

/-- `queue[0..31]` -/
def cells (s : State Tag) : List Tag := (List.range 32).map s.queue

/-- The free list as a flush is meant to leave it. -/
structure Rebuilt (rMapping : Reg → Tag) (s : State Tag) : Prop where
  head_eq : s.head = 0
  tail_eq : s.tail = 31
  size_eq : s.size = 32
  increasing : (cells s).Pairwise (· < ·)
  mem_iff : ∀ p, p ∈ cells s ↔ ∀ a, rMapping a ≠ p

variable {i : Inputs Tag} {s : State Tag}

theorem length_missing_rMapping (hinj : Function.Injective i.rMapping) :
    (missing i.rMapping).length = 32 := length_missing_of_injective hinj

theorem contents_flushed_of_injective (hinj : Function.Injective i.rMapping) :
    contents freelistParams (flushed freelistParams i s) = missing i.rMapping := by
  have hlen : freelistParams.length = (missing i.rMapping).length :=
    (length_missing_rMapping hinj).symm
  rw [contents_flushed rfl hlen.le, List.take_of_length_le hlen.ge]
  refine (List.map_congr_left fun p _ => ?_).trans (List.map_id _)
  exact Fin.ofNat_val_eq_self p

/-- After a flush the array is the list of the free registers. -/
theorem cells_flushed (hinj : Function.Injective i.rMapping) :
    cells (flushed freelistParams i s) = missing i.rMapping := by
  rw [← contents_flushed_of_injective hinj (s := s), cells, contents, window]
  refine List.map_congr_left fun k hk => ?_
  have hhead : (flushed freelistParams i s).head = 0 := rfl
  have hmod : k % freelistParams.length = k := Nat.mod_eq_of_lt (List.mem_range.mp hk)
  rw [hhead, Nat.zero_add, hmod]

theorem rebuilt_flushed (hinj : Function.Injective i.rMapping) :
    Rebuilt i.rMapping (flushed freelistParams i s) where
  head_eq := rfl
  tail_eq := rfl
  size_eq := rfl
  increasing := by
    rw [cells_flushed hinj]
    exact (List.pairwise_lt_finRange 64).filter _
  mem_iff p := by rw [cells_flushed hinj, mem_missing]

/-- With 32 marked registers the compaction stays inside the array. -/
theorem slot_temp_lt (hinj : Function.Injective i.rMapping) (q : ℕ → Tag) {p : Tag}
    (hp : temp i.rMapping p = true) : slot freelistParams (temp i.rMapping) q p < 32 := by
  have hlt := slot_lt freelistParams _ q hp
  rwa [compact_snd, filter_temp, length_missing_rMapping hinj] at hlt

/-- Without an enqueue the flushed list is given away from its first register on. -/
theorem dequeued_flushed (hinj : Function.Injective i.rMapping) {j : ℕ → Inputs Tag}
    (hf : ∀ k, (j k).flush = false) (he : ∀ k, (j k).enque = false) (n : ℕ) :
    dequeued freelistParams (flushed freelistParams i s) j n =
      (missing i.rMapping).take
        (Nat.count (fun k => (j k).deque = true ∧ (j k).stall = false) n) := by
  have hwf : WellFormed freelistParams (flushed freelistParams i s) :=
    wellFormed_flushed (by decide)
  rw [dequeued_eq_given hwf (fun _ => by decide) (fun _ => hf), contents_flushed_of_injective hinj]
  exact Fifo.given_eq_take he hf n

/-- **A flush rebuilds the free list.**  From any state, and for any injective mapping, the
list is rebuilt without a write outside the array, and the next 32 dequeues give each
register nobody is mapped to once. -/
theorem rebuilt_posedge (i : Inputs Tag) (s : State Tag) (hflush : i.flush = true)
    (hinj : Function.Injective i.rMapping) :
    Rebuilt i.rMapping (posedge freelistParams i s) ∧
      (∀ p, temp i.rMapping p = true →
        slot freelistParams (temp i.rMapping) s.queue p < freelistParams.length) ∧
      ∀ j : ℕ → Inputs Tag, (∀ k, (j k).flush = false) → (∀ k, (j k).enque = false) → ∀ n,
        32 ≤ Nat.count (fun k => (j k).deque = true ∧ (j k).stall = false) n →
          ∀ p, (dequeued freelistParams (posedge freelistParams i s) j n).count p =
            if ∀ a, i.rMapping a ≠ p then 1 else 0 := by
  have hstep : posedge freelistParams i s = flushed freelistParams i s := if_pos hflush
  rw [hstep]
  refine ⟨rebuilt_flushed hinj, fun p hp => slot_temp_lt hinj s.queue hp, ?_⟩
  intro j hf he n hn p
  have hall : (missing i.rMapping).length ≤
      Nat.count (fun k => (j k).deque = true ∧ (j k).stall = false) n := by
    rw [length_missing_rMapping hinj]
    exact hn
  rw [dequeued_flushed hinj hf he, List.take_of_length_le hall, (nodup_missing _).count]
  exact if_congr mem_missing rfl rfl

/-- With architectural register `a` mapped to `2a`, and every cell and pointer at 0. -/
theorem rebuilt_posedge_even :
    (dequeued freelistParams
        (posedge freelistParams ⟨false, true, false, 0, false, fun a => Fin.ofNat 64 (2 * a)⟩
          ⟨0, 0, 0, fun _ => 0⟩)
        (fun _ => ⟨false, false, false, 0, true, fun _ => 0⟩) 32).count 63 = 1 :=
  (rebuilt_posedge ⟨false, true, false, 0, false, fun a => Fin.ofNat 64 (2 * a)⟩
      ⟨0, 0, 0, fun _ => 0⟩ rfl (by decide)).2.2
    (fun _ => ⟨false, false, false, 0, true, fun _ => 0⟩) (fun _ => rfl) (fun _ => rfl) 32
    (by simp [Nat.count_true]) 63

end Rebuilt

end QueueObj
end OooProcessor
