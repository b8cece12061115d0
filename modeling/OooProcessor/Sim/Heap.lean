/-
# The heap of the simulator

`mm_malloc` and `mm_free` of `sim_main/sm_heap.cpp`.  `HEAP_STATUS` is a map that
reads 0 where nothing has been assigned; its `int`s, `BLOCKNUM` and `blockCounter` are
32-bit words here, and `exec.HEAPSTART` is a parameter.  The log is left out.

Each of the three loops moves an address by one, so that it ends in two rounds of all
addresses or not at all; one that has not ended after `turns` turns is `none`.

`scan_of_fits` and `scan_of_not_fits` say what the scan for space finds, `fill_eq` and
`clear_eq` what the other two loops write.
-/

import OooProcessor.Lib.Stretch
import OooProcessor.Rtl.Types
import Mathlib.Logic.Function.Basic

namespace OooProcessor
namespace Sim

open Lib

/-- `HEAP_END`, `HEAP_STATUS` and `BLOCKNUM` -/
structure Heap where
  heapEnd : Word
  status : Word → Word
  blocknum : Word

namespace Heap

def init : Heap := ⟨0, fun _ => 0, 1⟩

/-- Two rounds of all addresses. -/
def turns : ℕ := 2 ^ 33

/-- The loop of `prepHeapBlock`, where `past` is `addr + size`. -/
def fill : ℕ → Word → Word → Word → (Word → Word) → Option (Word → Word)
  | 0, _, _, _, _ => none
  | fuel + 1, past, blocknum, i, status =>
    if i < past then fill fuel past blocknum (i + 1) (Function.update status i blocknum)
    else some status

def prepHeapBlock (addr size : Word) (h : Heap) : Option Heap :=
  (fill turns (addr + size) h.blocknum addr h.status).map fun status => { h with status }

/-- The loop of `mm_malloc` up to its `return`: the address at which a block ends, or
`none` if it finds no space. -/
def scan (status : Word → Word) (size bound : Word) : ℕ → Word → Word → Option (Option Word)
  | 0, _, _ => none
  | fuel + 1, i, blockCounter =>
    if i ≤ bound then
      let blockCounter := if status i = 0 then blockCounter + 1 else 0
      let blockStart := i - size + 1
      if size ≤ blockCounter ∧ blockStart.toNat % 4 = 0 then some (some i)
      else scan status size bound fuel (i + 1) blockCounter
    else some none

/-- `mm_malloc`: the pointer it returns and the heap it leaves. -/
def mmMalloc (heapStart size : Word) (h : Heap) : Option (Word × Heap) :=
  if size = 0 then some (0, h)
  else
    let h := { h with
      heapEnd := if h.heapEnd = 0 then heapStart else h.heapEnd
      blocknum := h.blocknum + 1 }
    match scan h.status size (h.heapEnd + size) turns heapStart 0 with
    | none => none
    | some none => some (0, h)
    | some (some i) =>
      let blockStart := i - size + 1
      (prepHeapBlock blockStart size h).map fun h =>
        (blockStart, { h with heapEnd := if h.heapEnd < i then i else h.heapEnd })

/-- The loop of `mm_free`. -/
def clear (num heapEnd : Word) : ℕ → Word → (Word → Word) → Option (Word → Word)
  | 0, _, _ => none
  | fuel + 1, i, status =>
    if i ≤ heapEnd then
      if status i = num then clear num heapEnd fuel (i + 1) (Function.update status i 0)
      else some status
    else some status

/-- How `mm_free` ends. -/
inductive Freed
  | returned (h : Heap)
  | exited

/-- `mm_free` -/
def mmFree (addr : Word) (h : Heap) : Option Freed :=
  let num := h.status addr
  if addr = 0 then some (.returned h)
  else if num = 0 then some .exited
  else
    (clear num h.heapEnd turns addr h.status).map fun status => .returned { h with status }

section Scan

variable {status : Word → Word} {size bound : Word} {lo n : ℕ}

/-- The byte at `n` is not in a block. -/
def unused (status : Word → Word) (n : ℕ) : Bool := status (BitVec.ofNat 32 n) == 0

/-- A block of `size` bytes that ends at `n` is where the scan looks for one. -/
def Fits (status : Word → Word) (size : Word) (lo n : ℕ) : Prop :=
  size.toNat ≤ stretch (unused status) lo (n + 1) ∧ (n + 1 - size.toNat) % 4 = 0

instance : Decidable (Fits status size lo n) :=
  inferInstanceAs (Decidable (_ ∧ _))

theorem toNat_ofNat (h : n < 2 ^ 32) : (BitVec.ofNat 32 n : Word).toNat = n := by
  rw [BitVec.toNat_ofNat, Nat.mod_eq_of_lt h]

theorem ofNat_add_one (n : ℕ) : (BitVec.ofNat 32 n : Word) + 1 = BitVec.ofNat 32 (n + 1) :=
  (BitVec.ofNat_add n 1).symm

/-- Where a block of `size` bytes that ends at `n` starts. -/
theorem toNat_blockStart (h : size.toNat ≤ n + 1) (hn : n < 2 ^ 32) (hs : size ≠ 0) :
    (BitVec.ofNat 32 n - size + 1 : Word).toNat = n + 1 - size.toNat := by
  have hpos : size.toNat ≠ 0 := fun h0 => hs (BitVec.eq_of_toNat_eq h0)
  have hsize := size.isLt
  have hone : (1 : Word).toNat = 1 := rfl
  rw [BitVec.toNat_add, BitVec.toNat_sub, toNat_ofNat hn, hone]
  omega

/-- **One turn of the scan.** -/
theorem scan_succ (hlo0 : 0 < lo) (hlo : lo ≤ n) (hn : n < 2 ^ 32) (hs : size ≠ 0)
    (hbound : n ≤ bound.toNat) (fuel : ℕ) :
    scan status size bound (fuel + 1) (BitVec.ofNat 32 n)
        (BitVec.ofNat 32 (stretch (unused status) lo n)) =
      if Fits status size lo n then some (some (BitVec.ofNat 32 n))
      else scan status size bound fuel (BitVec.ofNat 32 (n + 1))
        (BitVec.ofNat 32 (stretch (unused status) lo (n + 1))) := by
  have hcounter : (if status (BitVec.ofNat 32 n) = 0 then
      (BitVec.ofNat 32 (stretch (unused status) lo n) : Word) + 1 else 0) =
        BitVec.ofNat 32 (stretch (unused status) lo (n + 1)) := by
    rw [stretch_succ hlo]
    by_cases h0 : status (BitVec.ofNat 32 n) = 0
    · have hunused : unused status n = true := beq_iff_eq.mpr h0
      rw [if_pos h0, if_pos hunused, ofNat_add_one]
    · have hunused : ¬unused status n = true := fun h => h0 (beq_iff_eq.mp h)
      rw [if_neg h0, if_neg hunused]
      rfl
  have hfits : (size ≤ BitVec.ofNat 32 (stretch (unused status) lo (n + 1)) ∧
      (BitVec.ofNat 32 n - size + 1 : Word).toNat % 4 = 0) ↔ Fits status size lo n := by
    have hlen : lo + stretch (unused status) lo (n + 1) ≤ n + 1 := stretch_le (by omega)
    rw [BitVec.le_def, toNat_ofNat (by omega), Fits]
    refine and_congr_right fun hle => ?_
    rw [toNat_blockStart (by omega) hn hs]
  have hle : (BitVec.ofNat 32 n : Word) ≤ bound := by
    rw [BitVec.le_def, toNat_ofNat hn]
    exact hbound
  rw [scan, if_pos hle]
  simp only [hcounter, hfits]
  rw [ofNat_add_one]

/-- **The scan finds the first block that fits.** -/
theorem scan_of_fits (hlo0 : 0 < lo) (hs : size ≠ 0) {fuel j : ℕ} (hlo : lo ≤ n) (hj : n ≤ j)
    (hj32 : j < 2 ^ 32) (hbound : j ≤ bound.toNat) (hfuel : j - n < fuel)
    (hfits : Fits status size lo j) (hfirst : ∀ k, n ≤ k → k < j → ¬Fits status size lo k) :
    scan status size bound fuel (BitVec.ofNat 32 n)
      (BitVec.ofNat 32 (stretch (unused status) lo n)) = some (some (BitVec.ofNat 32 j)) := by
  induction fuel generalizing n with
  | zero => omega
  | succ fuel ih =>
    rw [scan_succ hlo0 hlo (by omega) hs (by omega)]
    rcases Nat.eq_or_lt_of_le hj with rfl | hlt
    · rw [if_pos hfits]
    · rw [if_neg (hfirst n le_rfl hlt)]
      exact ih (by omega) hlt (by omega) fun k hk => hfirst k (by omega)

/-- **Where nothing fits it ends at the bound**, if the bound is not the last
address. -/
theorem scan_of_not_fits (hlo0 : 0 < lo) (hs : size ≠ 0) {fuel : ℕ} (hlo : lo ≤ n)
    (hn : n < 2 ^ 32) (hbound : bound.toNat + 1 < 2 ^ 32) (hfuel : bound.toNat + 1 - n < fuel)
    (hnone : ∀ k, k ≤ bound.toNat → ¬Fits status size lo k) :
    scan status size bound fuel (BitVec.ofNat 32 n)
      (BitVec.ofNat 32 (stretch (unused status) lo n)) = some none := by
  induction fuel generalizing n with
  | zero => omega
  | succ fuel ih =>
    rcases Nat.lt_or_ge bound.toNat n with hlt | hle
    · have hpast : ¬(BitVec.ofNat 32 n : Word) ≤ bound := by
        rw [BitVec.le_def, toNat_ofNat hn]
        omega
      rw [scan, if_neg hpast]
    · rw [scan_succ hlo0 hlo hn hs hle, if_neg (hnone n hle)]
      exact ih (by omega) (by omega) (by omega)

/-- A block that fits is unused and lies above `lo`. -/
theorem Fits.unused (h : Fits status size lo n) (hs : size ≠ 0) : lo + size.toNat ≤ n + 1 ∧
    ∀ x, n + 1 ≤ x + size.toNat → x ≤ n → status (BitVec.ofNat 32 x) = 0 := by
  have hpos : size.toNat ≠ 0 := fun h0 => hs (BitVec.eq_of_toNat_eq h0)
  have hlo : lo ≤ n + 1 := by
    by_contra hlt
    have hzero : stretch (Heap.unused status) lo (n + 1) = 0 := stretch_of_le (by omega)
    have := h.1
    omega
  obtain ⟨hsize, hall⟩ := (le_stretch_iff hlo).mp h.1
  exact ⟨hsize, fun x hx hxn => beq_iff_eq.mp (hall x hx (Nat.lt_succ_of_le hxn))⟩

end Scan

section Loops

/-- `status` with the `k` bytes from `n` on set to `v`. -/
def mark (status : Word → Word) (n k : ℕ) (v : Word) : Word → Word :=
  fun a => if n ≤ a.toNat ∧ a.toNat < n + k then v else status a

variable {status : Word → Word} {num heapEnd v a : Word} {n k fuel : ℕ}

theorem mark_of_mem (h : n ≤ a.toNat ∧ a.toNat < n + k) : mark status n k v a = v := if_pos h

theorem mark_of_not_mem (h : ¬(n ≤ a.toNat ∧ a.toNat < n + k)) :
    mark status n k v a = status a := if_neg h

/-- A byte before the others makes them one more. -/
theorem mark_succ (hn : n + (k + 1) < 2 ^ 32) :
    mark (Function.update status (BitVec.ofNat 32 n) v) (n + 1) k v = mark status n (k + 1) v := by
  funext a
  by_cases ha : a = BitVec.ofNat 32 n
  · have han : a.toNat = n := by rw [ha, toNat_ofNat (by omega)]
    rw [mark_of_not_mem (by omega), mark_of_mem (by omega), ha, Function.update_self]
  · have han : a.toNat ≠ n := by
      intro h
      exact ha (BitVec.eq_of_toNat_eq (by rw [h, toNat_ofNat (by omega)]))
    unfold mark
    rw [Function.update_of_ne ha]
    refine if_congr ?_ rfl rfl
    omega

theorem mark_zero : mark status n 0 v = status := by
  funext a
  exact mark_of_not_mem (by omega)

/-- **What `prepHeapBlock` writes**, where the block does not reach the last
address. -/
theorem fill_eq (hn : n + k < 2 ^ 32) (hfuel : k < fuel) :
    fill fuel (BitVec.ofNat 32 (n + k)) num (BitVec.ofNat 32 n) status =
      some (mark status n k num) := by
  induction fuel generalizing n k status with
  | zero => omega
  | succ fuel ih =>
    have hlt : (BitVec.ofNat 32 n : Word) < BitVec.ofNat 32 (n + k) ↔ 0 < k := by
      rw [BitVec.lt_def, toNat_ofNat hn, toNat_ofNat (by omega)]
      omega
    rw [fill]
    cases k with
    | zero =>
      rw [if_neg (by rw [hlt]; omega), mark_zero]
    | succ k =>
      rw [if_pos (by rw [hlt]; omega), ofNat_add_one, ← mark_succ hn,
        show n + (k + 1) = n + 1 + k by omega]
      exact ih (by omega) (by omega)

/-- **What `mm_free` clears**: the `k` bytes that carry the number, where the byte
after them is past the heap or carries another. -/
theorem clear_eq (hn : n + k < 2 ^ 32) (hend : n + k ≤ heapEnd.toNat + 1) (hfuel : k < fuel)
    (hblock : ∀ x, n ≤ x → x < n + k → status (BitVec.ofNat 32 x) = num)
    (hnext : heapEnd.toNat < n + k ∨ status (BitVec.ofNat 32 (n + k)) ≠ num) :
    clear num heapEnd fuel (BitVec.ofNat 32 n) status = some (mark status n k 0) := by
  induction fuel generalizing n k status with
  | zero => omega
  | succ fuel ih =>
    have hle : (BitVec.ofNat 32 n : Word) ≤ heapEnd ↔ n ≤ heapEnd.toNat := by
      rw [BitVec.le_def, toNat_ofNat (by omega)]
    rw [clear]
    cases k with
    | zero =>
      rw [mark_zero]
      rcases hnext with hnext | hnext
      · rw [if_neg (by rw [hle]; omega)]
      · rw [Nat.add_zero] at hnext
        rw [if_neg hnext, ite_self]
    | succ k =>
      rw [if_pos (by rw [hle]; omega), if_pos (hblock n le_rfl (by omega)), ofNat_add_one,
        ← mark_succ hn]
      have hne : ∀ x, n < x → x < 2 ^ 32 → (BitVec.ofNat 32 x : Word) ≠ BitVec.ofNat 32 n := by
        intro x hx hx32 h
        have := congrArg BitVec.toNat h
        rw [toNat_ofNat hx32, toNat_ofNat (by omega)] at this
        omega
      refine ih (by omega) (by omega) (by omega) (fun x hx hxk => ?_) ?_
      · rw [Function.update_of_ne (hne x (by omega) (by omega))]
        exact hblock x (by omega) (by omega)
      · rw [show n + 1 + k = n + (k + 1) by omega, Function.update_of_ne (hne _ (by omega) hn)]
        exact hnext

end Loops

end Heap
end Sim
end OooProcessor
