/-
# What the reorder buffer holds

The entries in the `queue_size` cells from `commit_pointer` on, the oldest first
(`contents`).  In a well-formed buffer a rising edge without recovery takes the
first of them where it commits and appends what Rename enqueues where there is
room (`contents_advance`), and a falling edge completes them one by one
(`negedge_cases`).

Well-formed includes that no other cell has its completion bit set: commit looks
at the bit of the cell at `commit_pointer` and never at `queue_size`.  A falling
edge that names no free cell keeps it so (`wellFormed_negedge`).
-/

import OooProcessor.Lib.Ring
import OooProcessor.Rtl.Rob

namespace OooProcessor
namespace Rob

open Lib

variable {i : Inputs} {s : State}

/-- The entries enqueued and not committed, the oldest first. -/
def contents (s : State) : List Slot := ring s.queue s.commitPointer s.queueSize.toNat

/-- The cell `j` holds one of them. -/
def occupied (s : State) (j : Fin 64) : Bool := inRing s.commitPointer s.queueSize.toNat j

structure WellFormed (s : State) : Prop where
  size_nonneg : 0 ≤ s.queueSize
  size_le : s.queueSize ≤ 64
  enquePointer : s.enquePointer = s.commitPointer + Fin.ofNat 64 s.queueSize.toNat
  occupied_of_complete : ∀ j, (s.queue j).complete = true → occupied s j = true

theorem length_contents (h : WellFormed s) : ((contents s).length : ℤ) = s.queueSize := by
  rw [contents, length_ring, Int.toNat_of_nonneg h.size_nonneg]

theorem wellFormed_reset : WellFormed reset where
  size_nonneg := le_rfl
  size_le := by decide
  enquePointer := rfl
  occupied_of_complete _ h := absurd (show false = true from h) (by decide)

/-- Only an occupied cell commits. -/
theorem pos_of_commits (h : WellFormed s) (hc : commits s = true) : 0 < s.queueSize.toNat := by
  have hocc := h.occupied_of_complete _ hc
  rwa [occupied, inRing, decide_eq_true_iff, sub_self] at hocc

/-- What commits is the first of the contents. -/
theorem contents_eq_cons (h : WellFormed s) (hc : commits s = true) :
    contents s = head s :: (contents s).drop 1 := by
  obtain ⟨m, hm⟩ := Nat.exists_eq_add_of_lt (pos_of_commits h hc)
  rw [contents, hm, Nat.zero_add, ring_succ]
  rfl

theorem lt_of_accepts (h : accepts i s = true) : s.queueSize < 64 := by
  rw [accepts, Bool.and_eq_true, decide_eq_true_iff] at h
  exact h.2

/-- A completion bit that a rising edge leaves was there before, and not in the
cell committed. -/
theorem of_complete_writes {queue : Fin 64 → Slot} {j : Fin 64}
    (h : (writes i s queue j).complete = true) :
    (queue j).complete = true ∧ (commits s = true → j ≠ s.commitPointer) := by
  have hentered : ∀ q : Fin 64 → Slot, (Function.update q s.enquePointer (slot i) j).complete =
      true → (q j).complete = true := by
    intro q hq
    by_cases hj : j = s.enquePointer
    · subst hj
      rw [Function.update_self] at hq
      exact absurd hq (by simp [slot])
    · rwa [Function.update_of_ne hj] at hq
  unfold writes at h
  cases hc : commits s with
  | false =>
    rw [hc, if_neg (by decide)] at h
    refine ⟨?_, fun hfalse => absurd hfalse (by decide)⟩
    split_ifs at h
    · exact hentered queue h
    · exact h
  | true =>
    rw [hc, if_pos rfl] at h
    by_cases hj : j = s.commitPointer
    · subst hj
      rw [Function.update_self] at h
      exact absurd h (by decide)
    · rw [Function.update_of_ne hj] at h
      refine ⟨?_, fun _ => hj⟩
      split_ifs at h
      · exact hentered queue h
      · exact h

section Advance

/-- **One rising edge without recovery**: the first entry leaves where the buffer
commits, the new one joins where there is room. -/
theorem contents_advance (h : WellFormed s) : contents (advance i s) =
    (contents s).drop (commits s).toNat ++ if accepts i s then [slot i] else [] := by
  obtain ⟨n, hn⟩ := Int.eq_ofNat_of_zero_le h.size_nonneg
  have henq := h.enquePointer
  have hle := h.size_le
  have hpos := pos_of_commits h
  have hlt : accepts i s = true → s.queueSize < 64 := lt_of_accepts
  simp only [contents, advance, writes]
  rw [hn, Int.toNat_natCast] at henq hpos ⊢
  rw [hn] at hle hlt
  cases hc : commits s with
  | false =>
    cases ha : accepts i s with
    | false => simp
    | true =>
      have hroom : n < 64 := by have := hlt ha; omega
      simp only [if_true, Bool.false_eq_true, if_false, Bool.toNat_false, List.drop_zero, henq]
      exact ring_push hroom (slot i)
  | true =>
    obtain ⟨m, rfl⟩ := Nat.exists_eq_add_of_lt (hpos hc)
    rw [Nat.zero_add] at *
    have htail : (ring s.queue s.commitPointer (m + 1)).drop 1 =
        ring s.queue (s.commitPointer + 1) m := by rw [ring_succ]; rfl
    simp only [if_true, Bool.toNat_true, htail]
    cases ha : accepts i s with
    | false =>
      have hsize : ((m + 1 : ℕ) - 1 : ℤ).toNat = m := by omega
      simp only [Bool.false_eq_true, if_false, List.append_nil, hsize]
      exact ring_update_head (by omega) 0
    | true =>
      have hroom : m + 1 < 64 := by have := hlt ha; omega
      have hpast : s.enquePointer = s.commitPointer + 1 + Fin.ofNat 64 m := by
        rw [henq, ofNat_succ, add_assoc]
      simp only [if_true, Int.toNat_natCast]
      rw [ring_update_head hroom, hpast, ring_push (by omega)]

/-- The size counts what an edge takes and adds. -/
theorem queueSize_advance (h : WellFormed s) :
    (advance i s).queueSize.toNat + (commits s).toNat =
      s.queueSize.toNat + (accepts i s).toNat ∧ 0 ≤ (advance i s).queueSize ∧
        (advance i s).queueSize ≤ 64 := by
  have hlt : accepts i s = true → s.queueSize < 64 := lt_of_accepts
  have hpos := pos_of_commits h
  have hnonneg := h.size_nonneg
  have hle := h.size_le
  cases hc : commits s with
  | false =>
    cases ha : accepts i s with
    | false => simp [advance, hc, ha, hnonneg, hle]
    | true =>
      have := hlt ha
      simp only [advance, hc, ha, if_true, Bool.false_eq_true, if_false, Bool.toNat_false,
        Bool.toNat_true]
      omega
  | true =>
    have := hpos hc
    cases ha : accepts i s with
    | false =>
      simp only [advance, hc, ha, if_true, Bool.false_eq_true, if_false, Bool.toNat_false,
        Bool.toNat_true]
      omega
    | true => simp [advance, hc, ha, hnonneg, hle]

theorem wellFormed_advance (h : WellFormed s) : WellFormed (advance i s) := by
  obtain ⟨hsize, hnonneg, hle⟩ := queueSize_advance (i := i) h
  refine ⟨hnonneg, hle, ?_, fun j hj => ?_⟩
  · have henq : (advance i s).enquePointer =
        s.commitPointer + Fin.ofNat 64 (s.queueSize.toNat + (accepts i s).toNat) := by
      simp only [advance]
      cases accepts i s with
      | false => exact h.enquePointer
      | true =>
        rw [if_pos rfl, h.enquePointer, Bool.toNat_true, ofNat_succ, add_comm 1, add_assoc]
    rw [henq, ← hsize]
    simp only [advance]
    cases commits s with
    | false => rfl
    | true =>
      rw [Bool.toNat_true, ofNat_succ, ← add_assoc]
      rfl
  · obtain ⟨hold, hne⟩ := of_complete_writes hj
    have hocc := h.occupied_of_complete j hold
    rw [occupied, inRing, decide_eq_true_iff] at hocc ⊢
    simp only [advance] at hsize ⊢
    cases hc : commits s with
    | false =>
      rw [hc] at hsize
      simp only [Bool.false_eq_true, if_false, Bool.toNat_false] at hsize ⊢
      omega
    | true =>
      have hstep := val_sub_add_one (hne hc)
      rw [hc] at hsize
      simp only [if_true, Bool.toNat_true] at hsize ⊢
      omega

end Advance

section Recover

/-- Recovery leaves no completion bit behind, even in the cell that Rename
enqueues into in the same cycle. -/
theorem wellFormed_recover (i : Inputs) (s : State) : WellFormed (recover i s) where
  size_nonneg := le_rfl
  size_le := show (0 : ℤ) ≤ 64 by decide
  enquePointer := rfl
  occupied_of_complete _ h := by
    obtain ⟨h, -⟩ := of_complete_writes h
    exact absurd (show false = true from h) (by decide)

theorem wellFormed_posedge (h : WellFormed s) : WellFormed (posedge i s) := by
  unfold posedge
  split_ifs
  · exact wellFormed_recover i s
  · exact wellFormed_advance h

end Recover

section Complete

/-- The completions of a falling edge name no free cell. -/
def NamesOccupied (i : Inputs) (s : State) : Prop :=
  ∀ j, marks i (s.queue j) = true → occupied s j = true

/-- A completion bit was set before, or is set now. -/
theorem of_complete_complete {c : Slot} (h : (complete i c).complete = true) :
    marks i c = true ∨ c.complete = true := by
  simp only [complete] at h
  split_ifs at h with hm
  · exact .inl hm
  · exact .inr h

/-- **One falling edge** leaves the entries where they are and completes those it
names, or does nothing. -/
theorem negedge_cases (i : Inputs) (s : State) : negedge i s = s ∨
    contents (negedge i s) = (contents s).map (complete i) := by
  unfold negedge
  split_ifs
  · exact .inr (ring_map (complete i) s.queue s.commitPointer s.queueSize.toNat)
  · exact .inl rfl

theorem wellFormed_negedge (h : WellFormed s) (hn : NamesOccupied i s) :
    WellFormed (negedge i s) := by
  unfold negedge
  split_ifs
  · refine ⟨h.size_nonneg, h.size_le, h.enquePointer, fun j hj => ?_⟩
    rcases of_complete_complete hj with hm | hold
    · exact hn j hm
    · exact h.occupied_of_complete j hold
  · exact h

end Complete

end Rob
end OooProcessor
