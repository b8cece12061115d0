/-
# When the heap finds space

`mm_malloc` looks for a block from `HEAPSTART` up to `HEAP_END + size`.  Above `HEAP_END` no
byte is in use (`Bounded`), so there is always room for a block from the first aligned address
above it on; but the bound of the search does not count the bytes that alignment skips.
Where `HEAP_END + 1` is no multiple of 4 that block ends beyond the bound, and the call
fails unless an aligned stretch of free bytes starts below (`succeeds_iff`).

Before anything is given out the bound is `HEAPSTART + size`, which is 0 for a block that
reaches the last address.
-/

import OooProcessor.Sim.Blocks
import Mathlib.Order.Bounds.Basic

namespace OooProcessor
namespace Sim

open Lib Heap

/-- The states of the heap that calls on live pointers reach, and whether a block has been
given out on the way. -/
inductive Reachable (heapStart : Word) : Bool → World → Prop
  | init : Reachable heapStart false World.init
  | call {given : Bool} {w w' : World} (c : Call) : Reachable heapStart given w → Legal w c →
      next heapStart c w = some w' → Reachable heapStart (given || !w'.live.isEmpty) w'

/-- `mm_malloc(size)` returns an address other than 0. -/
def Succeeds (heapStart size : Word) (h : Heap) : Prop :=
  ∃ p heap, mmMalloc heapStart size h = some (p, heap) ∧ p ≠ 0

/-- The first aligned address above the heap: `HEAPSTART` until a block has been given out. -/
def FirstAbove (heapStart : Word) (given : Bool) (h : Heap) (s : ℕ) : Prop :=
  if given then
    IsLeast {s | 4 ∣ s ∧ heapStart.toNat ≤ s ∧ h.heapEnd.toNat + 1 ≤ s} s
  else s = heapStart.toNat

/-- The `size` bytes from `p` on are in no block. -/
def FreeAt (size : Word) (h : Heap) (p : ℕ) : Prop :=
  ∀ x, p ≤ x → x < p + size.toNat → h.status (BitVec.ofNat 32 x) = 0

/-- The search has room: nothing lies between `HEAP_END` and the next aligned address, or an
aligned block is free below.  For the first block its end must not be the last address. -/
def HasRoom (heapStart size : Word) (given : Bool) (h : Heap) : Prop :=
  if given then
    4 ∣ h.heapEnd.toNat + 1 ∨
      ∃ p, 4 ∣ p ∧ heapStart.toNat ≤ p ∧ p ≤ h.heapEnd.toNat ∧ FreeAt size h p
  else heapStart.toNat + size.toNat < 2 ^ 32

section Loops

variable {status status' : Word → Word} {past num heapEnd i a : Word} {fuel : ℕ}

/-- `prepHeapBlock` writes below the end of its block only. -/
theorem fill_of_le (h : fill fuel past num i status = some status') (ha : past ≤ a) :
    status' a = status a := by
  induction fuel generalizing i status with
  | zero => exact absurd h (by simp [fill])
  | succ fuel ih =>
    rw [fill] at h
    split_ifs at h with hlt
    · have hne : a ≠ i := by
        rintro rfl
        exact BitVec.not_lt.mpr ha hlt
      rw [ih h, Function.update_of_ne hne]
    · rw [Option.some.inj h]

/-- It comes to its end. -/
theorem exists_fill (fuel : ℕ) (past num i : Word) (status : Word → Word)
    (hfuel : past.toNat - i.toNat < fuel) :
    ∃ status', fill fuel past num i status = some status' := by
  induction fuel generalizing i status with
  | zero => omega
  | succ fuel ih =>
    rw [fill]
    split_ifs with hlt
    · have hone : (i + 1 : Word).toNat = i.toNat + 1 := by
        rw [BitVec.lt_def] at hlt
        have hpast := past.isLt
        rw [BitVec.toNat_add, show (1 : Word).toNat = 1 from rfl, Nat.mod_eq_of_lt (by omega)]
      rw [BitVec.lt_def] at hlt
      exact ih _ _ (by omega)
    · exact ⟨status, rfl⟩

/-- `mm_free` marks no byte. -/
theorem clear_eq_zero (h : clear num heapEnd fuel i status = some status') (ha : status a = 0) :
    status' a = 0 := by
  induction fuel generalizing i status with
  | zero => exact absurd h (by simp [clear])
  | succ fuel ih =>
    rw [clear] at h
    split_ifs at h
    · refine ih h ?_
      rw [Function.update_apply]
      split_ifs
      · rfl
      · exact ha
    · rw [← Option.some.inj h, ha]
    · rw [← Option.some.inj h, ha]

end Loops

section Malloc

variable {heapStart size : Word} {h heap : Heap} {p : Word}

/-- **What any call of `mm_malloc` leaves above the heap.** -/
theorem mmMalloc_above (hm : mmMalloc heapStart size h = some (p, heap)) :
    (p = 0 ∧ heap = h) ∨
      (h.upTo heapStart ≤ heap.heapEnd ∧ ∀ a, heap.heapEnd < a → heap.status a = h.status a) := by
  by_cases hs : size = 0
  · rw [mmMalloc, if_pos hs] at hm
    obtain ⟨rfl, rfl⟩ := Prod.mk.inj (Option.some.inj hm)
    exact .inl ⟨rfl, rfl⟩
  right
  rcases hscan : scan h.status size (h.upTo heapStart + size) turns heapStart 0 with _ | _ | i
  · unfold upTo at hscan
    rw [mmMalloc, if_neg hs] at hm
    simp only [hscan] at hm
    exact absurd hm (by simp)
  · obtain ⟨rfl, rfl⟩ := Prod.mk.inj (Option.some.inj ((mmMalloc_nothing hs hscan).symm.trans hm))
    exact ⟨BitVec.le_refl _, fun _ _ => rfl⟩
  · obtain ⟨status, hfill⟩ := exists_fill turns (i - size + 1 + size) (h.blocknum + 1)
      (i - size + 1) h.status (by unfold turns; omega)
    obtain ⟨rfl, rfl⟩ :=
      Prod.mk.inj (Option.some.inj ((mmMalloc_found hs hscan hfill).symm.trans hm))
    have hpast : (i - size + 1 + size : Word) = i + 1 := by bv_omega
    rw [hpast] at hfill
    simp only
    constructor
    · split_ifs with hlt
      · exact BitVec.le_of_lt hlt
      · exact BitVec.le_refl _
    · intro a ha
      refine fill_of_le hfill ?_
      have hia : i < a := by
        split_ifs at ha with hlt
        · exact ha
        · bv_omega
      bv_omega

/-- Where a block is free, a block that fits ends. -/
theorem fits_of_free {q : ℕ} (hs : size ≠ 0) (h4 : 4 ∣ q) (hq : heapStart.toNat ≤ q)
    (hfree : FreeAt size h q) : Fits h.status size heapStart.toNat (q + size.toNat - 1) := by
  have hpos : size.toNat ≠ 0 := fun h0 => hs (BitVec.eq_of_toNat_eq h0)
  have hend : q + size.toNat - 1 + 1 = q + size.toNat := by omega
  constructor
  · rw [hend, le_stretch_iff (by omega)]
    refine ⟨by omega, fun x hx hlt => ?_⟩
    exact beq_iff_eq.mpr (hfree x (by omega) hlt)
  · rw [hend, Nat.add_sub_cancel]
    exact Nat.mod_eq_zero_of_dvd h4

/-- And the other way round. -/
theorem free_of_fits {j : ℕ} (hs : size ≠ 0) (hfits : Fits h.status size heapStart.toNat j) :
    ∃ q, q + size.toNat = j + 1 ∧ 4 ∣ q ∧ heapStart.toNat ≤ q ∧ FreeAt size h q := by
  obtain ⟨hroom, hunused⟩ := hfits.unused hs
  refine ⟨j + 1 - size.toNat, by omega, Nat.dvd_of_mod_eq_zero hfits.2, by omega, ?_⟩
  intro x hx hlt
  exact hunused x (by omega) (by omega)

/-- **A block that fits within the bound is found.** -/
theorem succeeds_of_fits (h0 : heapStart ≠ 0) (hs : size ≠ 0) {j : ℕ}
    (hj : j ≤ (h.upTo heapStart + size).toNat) (hfits : Fits h.status size heapStart.toNat j) :
    Succeeds heapStart size h := by
  have hpos : heapStart.toNat ≠ 0 := fun hz => h0 (BitVec.eq_of_toNat_eq hz)
  have hbound := (h.upTo heapStart + size).isLt
  have hfirst : ∃ j, Fits h.status size heapStart.toNat j := ⟨j, hfits⟩
  have hle : Nat.find hfirst ≤ j := Nat.find_min' hfirst hfits
  have hroom := ((Nat.find_spec hfirst).unused hs).1
  have hscan := scan_found h0 hs (hle.trans hj) (Nat.find_spec hfirst)
    fun k hk => Nat.find_min hfirst hk
  obtain ⟨status, hfill⟩ := exists_fill turns
    (BitVec.ofNat 32 (Nat.find hfirst) - size + 1 + size) (h.blocknum + 1)
    (BitVec.ofNat 32 (Nat.find hfirst) - size + 1) h.status (by unfold turns; omega)
  refine ⟨_, _, mmMalloc_found hs hscan hfill, fun hz => ?_⟩
  have hstart := congrArg BitVec.toNat hz
  rw [toNat_blockStart (by omega) (by omega) hs, show (0 : Word).toNat = 0 from rfl] at hstart
  omega

/-- A call that returns 0 does not succeed. -/
theorem not_succeeds (hm : mmMalloc heapStart size h = some (0, heap)) :
    ¬Succeeds heapStart size h := by
  rintro ⟨p, heap', hm', hne⟩
  rw [hm] at hm'
  exact hne (Prod.mk.inj (Option.some.inj hm')).1.symm

/-- Nothing given out yet, and a bound that has wrapped to an address below `HEAPSTART`. -/
theorem mmMalloc_of_wrap (h0 : heapStart ≠ 0) (hs : size ≠ 0)
    (hupTo : h.upTo heapStart = heapStart) (hge : 2 ^ 32 ≤ heapStart.toNat + size.toNat) :
    mmMalloc heapStart size h = some (0, ⟨heapStart, h.status, h.blocknum + 1⟩) := by
  have hsize := size.isLt
  have hbound : (h.upTo heapStart + size).toNat = heapStart.toNat + size.toNat - 2 ^ 32 := by
    rw [hupTo, BitVec.toNat_add, Nat.mod_eq_sub_mod hge, Nat.mod_eq_of_lt (by omega)]
  have hnone : ∀ k ≤ (h.upTo heapStart + size).toNat,
      ¬Fits h.status size heapStart.toNat k := by
    intro k hk hfits
    have hroom := (hfits.unused hs).1
    omega
  have hm := mmMalloc_nothing hs (scan_nothing h0 hs (by omega) hnone)
  rwa [hupTo] at hm

/-- Nothing given out yet: the first block fits right at `HEAPSTART`, and the bound is
`HEAPSTART + size`. -/
theorem succeeds_iff_of_fresh (h0 : heapStart ≠ 0) (h4 : 4 ∣ heapStart.toNat) (hs : size ≠ 0)
    (hstatus : ∀ a, h.status a = 0) (hupTo : h.upTo heapStart = heapStart) :
    Succeeds heapStart size h ↔ heapStart.toNat + size.toNat < 2 ^ 32 := by
  constructor
  · intro hsucc
    by_contra hge
    exact not_succeeds (mmMalloc_of_wrap h0 hs hupTo (Nat.le_of_not_lt hge)) hsucc
  · intro hlt
    have hbound : (h.upTo heapStart + size).toNat = heapStart.toNat + size.toNat := by
      rw [hupTo, BitVec.toNat_add, Nat.mod_eq_of_lt hlt]
    exact succeeds_of_fits h0 hs (by omega) (fits_of_free hs h4 le_rfl fun x _ _ => hstatus _)

/-- A block has been given out: the call succeeds if and only if the search has room. -/
theorem succeeds_iff_of_bounded (h0 : heapStart ≠ 0) (h4 : 4 ∣ heapStart.toNat) (hs : size ≠ 0)
    (hstart : heapStart ≤ h.heapEnd) (hunused : ∀ a, h.heapEnd < a → h.status a = 0)
    (hspace : ∃ s, 4 ∣ s ∧ h.heapEnd.toNat + 1 ≤ s ∧ s + size.toNat ≤ 2 ^ 32) :
    Succeeds heapStart size h ↔ 4 ∣ h.heapEnd.toNat + 1 ∨
      ∃ p, 4 ∣ p ∧ heapStart.toNat ≤ p ∧ p ≤ h.heapEnd.toNat ∧ FreeAt size h p := by
  obtain ⟨s, hs4, hsend, hs32⟩ := hspace
  rw [BitVec.le_def] at hstart
  have hpos : size.toNat ≠ 0 := fun hz => hs (BitVec.eq_of_toNat_eq hz)
  have hupTo : h.upTo heapStart = h.heapEnd := by
    refine if_neg fun hz => h0 (BitVec.eq_of_toNat_eq ?_)
    rw [hz] at hstart
    exact Nat.le_zero.mp hstart
  have hbound : (h.upTo heapStart + size).toNat = h.heapEnd.toNat + size.toNat := by
    rw [hupTo, BitVec.toNat_add, Nat.mod_eq_of_lt (by omega)]
  constructor
  · intro hsucc
    by_contra hno
    obtain ⟨hmis, hnone⟩ := not_or.mp hno
    -- the aligned block above the heap ends beyond the bound, and there is none below
    have hfits : ∀ k ≤ (h.upTo heapStart + size).toNat,
        ¬Fits h.status size heapStart.toNat k := by
      intro k hk hfits
      obtain ⟨q, hq, hq4, hqstart, hfree⟩ := free_of_fits hs hfits
      rcases Nat.lt_or_ge h.heapEnd.toNat q with hlt | hle
      · exact hmis (by rwa [show h.heapEnd.toNat + 1 = q by omega])
      · exact hnone ⟨q, hq4, hqstart, hle, hfree⟩
    have hlast : h.heapEnd.toNat + 1 ≠ s := by
      rintro rfl
      exact hmis hs4
    exact not_succeeds (mmMalloc_nothing hs (scan_nothing h0 hs (by omega) hfits)) hsucc
  · rintro (haligned | ⟨p, hp4, hpstart, hpend, hfree⟩)
    · refine succeeds_of_fits h0 hs (by omega) (fits_of_free hs haligned (by omega) ?_)
      intro x hx hlt
      refine hunused _ ?_
      rw [BitVec.lt_def, toNat_ofNat (by omega)]
      omega
    · exact succeeds_of_fits h0 hs (by omega) (fits_of_free hs hp4 hpstart hfree)

end Malloc

/-- What every reachable state keeps: no byte above `HEAP_END` is in use, and until a block
has been given out none is. -/
structure Bounded (heapStart : Word) (given : Bool) (w : World) : Prop where
  unused : ∀ a, w.heap.heapEnd < a → w.heap.status a = 0
  start : given = true → heapStart ≤ w.heap.heapEnd
  fresh : given = false →
    w.live = [] ∧ (∀ a, w.heap.status a = 0) ∧ w.heap.upTo heapStart = heapStart

section Steps

variable {heapStart size addr : Word} {given : Bool} {w w' : World}

theorem le_upTo (heapStart : Word) (h : Heap) : h.heapEnd ≤ h.upTo heapStart := by
  unfold upTo
  split_ifs with hz
  · rw [hz]
    exact Nat.zero_le _
  · exact BitVec.le_refl _

theorem Bounded.start_le_upTo (h : Bounded heapStart given w) :
    heapStart ≤ w.heap.upTo heapStart := by
  cases given with
  | false =>
    rw [(h.fresh rfl).2.2]
    exact BitVec.le_refl _
  | true => exact BitVec.le_trans (h.start rfl) (le_upTo heapStart w.heap)

/-- Until a block has been given out, a call that gives out none changes little. -/
theorem Bounded.fresh_malloc (h : Bounded heapStart false w) (h0 : heapStart ≠ 0)
    (h4 : 4 ∣ heapStart.toNat) {heap : Heap}
    (hm : mmMalloc heapStart size w.heap = some (0, heap)) :
    heap.status = w.heap.status ∧ heap.upTo heapStart = heapStart := by
  obtain ⟨-, hstatus, hupTo⟩ := h.fresh rfl
  by_cases hs : size = 0
  · rw [mmMalloc, if_pos hs] at hm
    obtain ⟨-, rfl⟩ := Prod.mk.inj (Option.some.inj hm)
    exact ⟨rfl, hupTo⟩
  · have hge : ¬heapStart.toNat + size.toNat < 2 ^ 32 := fun hlt =>
      not_succeeds hm ((succeeds_iff_of_fresh h0 h4 hs hstatus hupTo).mpr hlt)
    rw [mmMalloc_of_wrap h0 hs hupTo (Nat.le_of_not_lt hge)] at hm
    obtain ⟨-, rfl⟩ := Prod.mk.inj (Option.some.inj hm)
    exact ⟨rfl, if_neg h0⟩

/-- **A call of `mm_malloc` keeps the bound.** -/
theorem Bounded.malloc (h : Bounded heapStart given w) (h0 : heapStart ≠ 0)
    (h4 : 4 ∣ heapStart.toNat) (hnext : next heapStart (.malloc size) w = some w') :
    Bounded heapStart (given || !w'.live.isEmpty) w' := by
  obtain ⟨⟨p, heap⟩, hm, rfl⟩ := Option.map_eq_some_iff.mp hnext
  have hfresh : (given || !(if p = 0 then w.live else ⟨p, size⟩ :: w.live).isEmpty) = false →
      given = false ∧ p = 0 := by
    intro hno
    obtain ⟨hgiven, hlive⟩ := Bool.or_eq_false_iff.mp hno
    refine ⟨hgiven, ?_⟩
    by_contra hne
    rw [if_neg hne] at hlive
    exact Bool.noConfusion hlive
  constructor
  · intro a ha
    rcases mmMalloc_above hm with ⟨-, rfl⟩ | ⟨hle, hsame⟩
    · exact h.unused a ha
    · have hend := le_upTo heapStart w.heap
      show heap.status a = 0
      rw [hsame a ha]
      exact h.unused a (by change heap.heapEnd < a at ha; bv_omega)
  · intro hgiven
    rcases mmMalloc_above hm with ⟨rfl, rfl⟩ | ⟨hle, -⟩
    · cases given with
      | true => exact h.start rfl
      | false =>
        rw [if_pos rfl, (h.fresh rfl).1] at hgiven
        exact Bool.noConfusion hgiven
    · exact BitVec.le_trans h.start_le_upTo hle
  · intro hno
    obtain ⟨rfl, rfl⟩ := hfresh hno
    obtain ⟨hlive, hstatus, -⟩ := h.fresh rfl
    obtain ⟨hsame, hupTo⟩ := h.fresh_malloc h0 h4 hm
    refine ⟨?_, fun a => ?_, hupTo⟩
    · show (if (0 : Word) = 0 then w.live else ⟨0, size⟩ :: w.live) = []
      rw [if_pos rfl, hlive]
    show heap.status a = 0
    rw [hsame]
    exact hstatus a

/-- **A call of `mm_free` keeps the bound.** -/
theorem Bounded.free (h : Bounded heapStart given w) (hl : Legal w (.free addr))
    (hnext : next heapStart (.free addr) w = some w') :
    Bounded heapStart (given || !w'.live.isEmpty) w' := by
  obtain ⟨b, hb, -⟩ := hl
  -- a live block has been given out
  have hgiven : given = true := by
    by_contra hno
    have hlive := (h.fresh (Bool.eq_false_of_not_eq_true hno)).1
    rw [hlive] at hb
    exact List.not_mem_nil hb
  subst hgiven
  rw [next] at hnext
  rcases hfree : mmFree addr w.heap with _ | ⟨heap⟩ | _
  · rw [hfree] at hnext
    exact absurd hnext (by simp)
  · rw [hfree] at hnext
    obtain rfl := Option.some.inj hnext
    have hkeeps : heap.heapEnd = w.heap.heapEnd ∧
        ∀ a, w.heap.status a = 0 → heap.status a = 0 := by
      rw [mmFree] at hfree
      split_ifs at hfree with haddr hnum
      · obtain rfl := Freed.returned.inj (Option.some.inj hfree)
        exact ⟨rfl, fun _ ha => ha⟩
      · exact absurd hfree (by simp)
      · obtain ⟨status, hclear, hreturned⟩ := Option.map_eq_some_iff.mp hfree
        obtain rfl := Freed.returned.inj hreturned
        exact ⟨rfl, fun a ha => clear_eq_zero hclear ha⟩
    refine ⟨fun a ha => hkeeps.2 a (h.unused a ?_), fun _ => ?_, fun hno => Bool.noConfusion hno⟩
    · rw [← hkeeps.1]
      exact ha
    · show heapStart ≤ heap.heapEnd
      rw [hkeeps.1]
      exact h.start rfl
  · rw [hfree] at hnext
    exact absurd hnext (by simp)

end Steps

section Runs

variable {heapStart : Word} {given : Bool} {w : World}

/-- **Every reachable state keeps the bound.** -/
theorem Reachable.bounded (h : Reachable heapStart given w) (h0 : heapStart ≠ 0)
    (h4 : 4 ∣ heapStart.toNat) : Bounded heapStart given w := by
  induction h with
  | init =>
    exact ⟨fun _ _ => rfl, fun hno => Bool.noConfusion hno, fun _ => ⟨rfl, fun _ => rfl, rfl⟩⟩
  | call c _ hl hnext ih =>
    cases c with
    | malloc size => exact ih.malloc h0 h4 hnext
    | free addr => exact ih.free hl hnext

/-- **When `mm_malloc` finds space.**  In every reachable state, and for every size for which
the aligned block right above the heap lies in the address space, exactly when the search has
room. -/
theorem succeeds_iff (heapStart : Word) (h0 : heapStart ≠ 0) (h4 : 4 ∣ heapStart.toNat)
    (given : Bool) (w : World) (hreach : Reachable heapStart given w) (size : Word)
    (hs : size ≠ 0) (s : ℕ) (hfirst : FirstAbove heapStart given w.heap s)
    (hspace : s + size.toNat ≤ 2 ^ 32) :
    Succeeds heapStart size w.heap ↔ HasRoom heapStart size given w.heap := by
  have hb := hreach.bounded h0 h4
  cases given with
  | false =>
    obtain ⟨-, hstatus, hupTo⟩ := hb.fresh rfl
    exact succeeds_iff_of_fresh h0 h4 hs hstatus hupTo
  | true =>
    obtain ⟨⟨hs4, -, hsend⟩, -⟩ := hfirst
    exact succeeds_iff_of_bounded h0 h4 hs (hb.start rfl) hb.unused ⟨s, hs4, hsend, hspace⟩

/-- Above the first 4 bytes nothing has to be skipped. -/
theorem succeeds_iff_four : Succeeds 0xC0000000 4 World.four.heap := by
  have hreach : Reachable 0xC0000000 true World.four :=
    .call (.malloc 4) .init trivial next_four
  have hfirst : FirstAbove 0xC0000000 true World.four.heap 0xC0000004 :=
    ⟨by decide, fun s hs => hs.2.2⟩
  exact (succeeds_iff 0xC0000000 (by decide) (by decide) true World.four hreach 4 (by decide)
    0xC0000004 hfirst (by decide)).mpr (.inl (by decide))

/-- The first 5 bytes have been given out. -/
def World.five : World :=
  ⟨⟨0xC0000004, mark (fun _ => 0) 0xC0000000 5 2, 2⟩, [⟨0xC0000000, 5⟩]⟩

theorem next_five : next 0xC0000000 (.malloc 5) World.init = some World.five :=
  next_found (i := 0xC0000004) (by decide) rfl (fill_eq (by decide) (by decide)) (by decide)

/-- **A call fails with room above the heap.**  The 4 bytes from 0xC0000008 on are free, and
the search ends at 0xC0000008. -/
theorem not_succeeds_five : ¬∀ given w, Reachable 0xC0000000 given w → ∀ size : Word, size ≠ 0 →
    ∀ s, FirstAbove 0xC0000000 given w.heap s → s + size.toNat ≤ 2 ^ 32 →
      Succeeds 0xC0000000 size w.heap := by
  intro h
  have hfirst : FirstAbove 0xC0000000 true World.five.heap 0xC0000008 := by
    refine ⟨by decide, fun s hs => ?_⟩
    obtain ⟨⟨k, rfl⟩, -, hend⟩ := hs
    have hfive : World.five.heap.heapEnd.toNat = 0xC0000004 := rfl
    omega
  have hscan : scan World.five.heap.status 4 (0xC0000004 + 4) turns 0xC0000000 0 = some none := rfl
  exact not_succeeds (mmMalloc_nothing (by decide) hscan)
    (h true World.five (.call (.malloc 5) .init trivial next_five) 4 (by decide) 0xC0000008 hfirst
      (by decide))

end Runs

end Sim
end OooProcessor
