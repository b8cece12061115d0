/-
# The blocks of the heap

A run of the heap is a list of calls; beside the heap goes the list of the blocks
that are live, as the program that calls it knows them.  `Represents` is what the heap
owes the program: the live blocks are aligned and apart, and `HEAP_STATUS` marks their
bytes and no other.

The heap keeps that in every run that stays clear of two limits (`heap_run`).  A block
that ends at the last address is not marked at all, since `addr + size` is 0 for it;
and a block number that comes round again is 0 once, and otherwise may be that of the
next block when a block is freed.
-/

import OooProcessor.Sim.Heap

namespace OooProcessor
namespace Sim

open Lib Heap

/-- A block: its pointer and its size. -/
structure Block where
  addr : Word
  size : Word
  deriving DecidableEq

/-- The byte at `a` is in the block. -/
def Block.Contains (b : Block) (a : Word) : Prop :=
  b.addr.toNat ≤ a.toNat ∧ a.toNat < b.addr.toNat + b.size.toNat

/-- The heap, and the blocks that are live. -/
structure World where
  heap : Heap
  live : List Block

def World.init : World := ⟨Heap.init, []⟩

inductive Call
  | malloc (size : Word)
  | free (addr : Word)
  deriving DecidableEq

/-- A call, if it returns. -/
def next (heapStart : Word) : Call → World → Option World
  | .malloc size, w =>
    (mmMalloc heapStart size w.heap).map fun r =>
      ⟨r.2, if r.1 = 0 then w.live else ⟨r.1, size⟩ :: w.live⟩
  | .free addr, w =>
    match mmFree addr w.heap with
    | some (.returned heap) => some ⟨heap, w.live.filter fun b => b.addr != addr⟩
    | _ => none

/-- A run of calls. -/
def runCalls (heapStart : Word) : List Call → World → Option World
  | [], w => some w
  | c :: cs, w => (next heapStart c w).bind (runCalls heapStart cs)

/-- **What the heap owes its callers.** -/
structure Represents (heapStart : Word) (w : World) : Prop where
  start : ∀ b ∈ w.live, heapStart.toNat ≤ b.addr.toNat ∧ b.addr.toNat % 4 = 0
  size : ∀ b ∈ w.live, b.size ≠ 0 ∧ b.addr.toNat + b.size.toNat ≤ 2 ^ 32
  disjoint : w.live.Pairwise fun b b' => ∀ a, ¬(b.Contains a ∧ b'.Contains a)
  status : ∀ a, w.heap.status a ≠ 0 ↔ ∃ b ∈ w.live, b.Contains a

/-- What a call is held to. -/
def Behaves (heapStart : Word) (w : World) : Call → Prop
  | .malloc size => ∃ p heap, mmMalloc heapStart size w.heap = some (p, heap) ∧
      (p ≠ 0 → p.toNat % 4 = 0 ∧ heapStart.toNat ≤ p.toNat)
  | .free addr => ∀ b ∈ w.live, b.addr = addr → ∃ heap,
      mmFree addr w.heap = some (.returned heap) ∧
        ∀ a, (b.Contains a → heap.status a = 0) ∧
          (¬b.Contains a → heap.status a = w.heap.status a)

/-- `HEAP_END` as `mm_malloc` uses it. -/
def Heap.upTo (heapStart : Word) (h : Heap) : Word := if h.heapEnd = 0 then heapStart else h.heapEnd

/-- Only live pointers are freed. -/
def Legal (w : World) : Call → Prop
  | .malloc _ => True
  | .free addr => ∃ b ∈ w.live, b.addr = addr

/-- **A call stays clear of the limits**: a block that must end below the last address
to be found by then can do so, the number of a block that is found is not 0, and the
byte after a block that is freed is past the heap or has another number. -/
def Clear (heapStart : Word) (w : World) : Call → Prop
  | .malloc size => size ≠ 0 → (w.heap.upTo heapStart).toNat + size.toNat < 2 ^ 32 →
      ((w.heap.upTo heapStart).toNat + size.toNat = 2 ^ 32 - 1 →
        ∃ j < 2 ^ 32 - 1, Fits w.heap.status size heapStart.toNat j) ∧
      ((∃ j ≤ (w.heap.upTo heapStart).toNat + size.toNat,
        Fits w.heap.status size heapStart.toNat j) → w.heap.blocknum + 1 ≠ 0)
  | .free addr => ∀ b ∈ w.live, b.addr = addr →
      w.heap.heapEnd.toNat < addr.toNat + b.size.toNat ∨
        w.heap.status (addr + b.size) ≠ w.heap.status addr

/-- Every call of a run is legal and stays clear of the limits. -/
def AllClear (heapStart : Word) : List Call → World → Prop
  | [], _ => True
  | c :: cs, w => Legal w c ∧ Clear heapStart w c ∧
      ∀ w', next heapStart c w = some w' → AllClear heapStart cs w'

section Scan

variable {heapStart size : Word} {status : Word → Word} {e : Word}

/-- The scan starts with nothing counted. -/
theorem scan_start (status : Word → Word) (size bound : Word) : scan status size bound turns
    heapStart 0 = scan status size bound turns (BitVec.ofNat 32 heapStart.toNat)
      (BitVec.ofNat 32 (stretch (unused status) heapStart.toNat heapStart.toNat)) := by
  rw [stretch_self, BitVec.ofNat_toNat, BitVec.setWidth_eq]
  rfl

/-- The scan of `mm_malloc` where something fits. -/
theorem scan_found (h0 : heapStart ≠ 0) (hs : size ≠ 0) {bound : Word} {j : ℕ}
    (hj : j ≤ bound.toNat) (hfits : Fits status size heapStart.toNat j)
    (hfirst : ∀ k < j, ¬Fits status size heapStart.toNat k) :
    scan status size bound turns heapStart 0 = some (some (BitVec.ofNat 32 j)) := by
  have hpos : heapStart.toNat ≠ 0 := fun h => h0 (BitVec.eq_of_toNat_eq h)
  have hsize : size.toNat ≠ 0 := fun h => hs (BitVec.eq_of_toNat_eq h)
  have hroom := (hfits.unused hs).1
  have hbound := bound.isLt
  rw [scan_start]
  exact scan_of_fits (by omega) hs le_rfl (by omega) (by omega) hj (by unfold turns; omega) hfits
    fun k _ hk => hfirst k hk

/-- The scan of `mm_malloc` where nothing fits. -/
theorem scan_nothing (h0 : heapStart ≠ 0) (hs : size ≠ 0) {bound : Word}
    (hbound : bound.toNat + 1 < 2 ^ 32)
    (hnone : ∀ k ≤ bound.toNat, ¬Fits status size heapStart.toNat k) :
    scan status size bound turns heapStart 0 = some none := by
  have hpos : heapStart.toNat ≠ 0 := fun h => h0 (BitVec.eq_of_toNat_eq h)
  rw [scan_start]
  exact scan_of_not_fits (by omega) hs le_rfl heapStart.isLt hbound (by unfold turns; omega) hnone

/-- The scan of `mm_malloc` ends, at the first block that fits if there is one. -/
theorem scan_cases (h0 : heapStart ≠ 0) (hs : size ≠ 0)
    (he32 : e.toNat + 1 < 2 ^ 32)
    (hlast : e.toNat + size.toNat = 2 ^ 32 - 1 →
      ∃ j < 2 ^ 32 - 1, Fits status size heapStart.toNat j) :
    scan status size (e + size) turns heapStart 0 = some none ∨
      ∃ j, j ≤ e.toNat + size.toNat ∧ e.toNat + size.toNat < 2 ^ 32 ∧ j < 2 ^ 32 - 1 ∧
        Fits status size heapStart.toNat j ∧
          scan status size (e + size) turns heapStart 0 = some (some (BitVec.ofNat 32 j)) := by
  have hsize := size.isLt
  have hbound : (e + size).toNat = (e.toNat + size.toNat) % 2 ^ 32 := BitVec.toNat_add e size
  rcases Nat.lt_or_ge (e.toNat + size.toNat) (2 ^ 32) with hlt | hge
  · rw [Nat.mod_eq_of_lt hlt] at hbound
    by_cases hfits : ∃ j, j ≤ e.toNat + size.toNat ∧ Fits status size heapStart.toNat j
    · right
      have hfirst := Nat.find_spec hfits
      have hmin : ∀ k, k < Nat.find hfits → ¬Fits status size heapStart.toNat k :=
        fun k hk hf => Nat.find_min hfits hk ⟨by omega, hf⟩
      have hlt32 : Nat.find hfits < 2 ^ 32 - 1 := by
        by_contra hge
        obtain ⟨j, hj, hf⟩ := hlast (by omega)
        exact hmin j (by omega) hf
      exact ⟨Nat.find hfits, hfirst.1, hlt, hlt32, hfirst.2,
        scan_found h0 hs (by omega) hfirst.2 hmin⟩
    · left
      have hne : e.toNat + size.toNat ≠ 2 ^ 32 - 1 := by
        intro heq
        obtain ⟨j, hj, hf⟩ := hlast heq
        exact hfits ⟨j, by omega, hf⟩
      exact scan_nothing h0 hs (by omega) fun k hk hf => hfits ⟨k, by omega, hf⟩
  · left
    have hwrap : (e + size).toNat = e.toNat + size.toNat - 2 ^ 32 := by
      rw [hbound, Nat.mod_eq_sub_mod hge, Nat.mod_eq_of_lt (by omega)]
    -- past the last address the bound is below `e`, and the block is longer than the rest
    refine scan_nothing h0 hs (by omega) fun k hk hf => ?_
    have hroom := (hf.unused hs).1
    omega

end Scan

/-- What every call keeps: beside what the heap owes, the bytes of a block carry one
number, and `HEAP_END` is past all blocks and below the last address. -/
structure Valid (heapStart : Word) (w : World) : Prop extends Represents heapStart w where
  numbers : ∀ b ∈ w.live, ∀ a, b.Contains a → w.heap.status a = w.heap.status b.addr
  within : ∀ b ∈ w.live, b.addr.toNat + b.size.toNat ≤ w.heap.heapEnd.toNat + 1
  heapEnd : w.heap.heapEnd.toNat + 1 < 2 ^ 32

section Steps

variable {heapStart size : Word} {w : World}

theorem Block.contains_addr {b : Block} (h : b.size ≠ 0) : b.Contains b.addr :=
  ⟨le_rfl, by have := fun h0 => h (BitVec.eq_of_toNat_eq h0); simp at this; omega⟩

/-- `mm_malloc` has given out the `size` bytes from `p` on, and left `heap`. -/
structure Given (heapStart size : Word) (h : Heap) (p : ℕ) (heap : Heap) : Prop where
  nonempty : size ≠ 0
  start : heapStart.toNat ≤ p
  aligned : p % 4 = 0
  room : p + size.toNat < 2 ^ 32
  unused : ∀ x, p ≤ x → x < p + size.toNat → h.status (BitVec.ofNat 32 x) = 0
  status : ∃ num ≠ 0, heap.status = mark h.status p size.toNat num
  past : p + size.toNat ≤ heap.heapEnd.toNat + 1

/-- `mm_malloc` where the scan finds a block. -/
theorem mmMalloc_found {h : Heap} {i : Word} {status : Word → Word} (hs : size ≠ 0)
    (hscan : scan h.status size (h.upTo heapStart + size) turns heapStart 0 = some (some i))
    (hfill : fill turns (i - size + 1 + size) (h.blocknum + 1) (i - size + 1) h.status =
      some status) :
    mmMalloc heapStart size h = some (i - size + 1,
      ⟨if h.upTo heapStart < i then i else h.upTo heapStart, status, h.blocknum + 1⟩) := by
  unfold upTo at hscan
  rw [mmMalloc, if_neg hs]
  simp only [hscan, prepHeapBlock, hfill]
  rfl

/-- `mm_malloc` where the scan finds nothing. -/
theorem mmMalloc_nothing {h : Heap} (hs : size ≠ 0)
    (hscan : scan h.status size (h.upTo heapStart + size) turns heapStart 0 = some none) :
    mmMalloc heapStart size h = some (0, ⟨h.upTo heapStart, h.status, h.blocknum + 1⟩) := by
  unfold upTo at hscan
  rw [mmMalloc, if_neg hs]
  simp only [hscan]
  rfl

/-- What is live after a call that finds a block. -/
theorem next_found {i : Word} {status : Word → Word} (hs : size ≠ 0)
    (hscan : scan w.heap.status size (w.heap.upTo heapStart + size) turns heapStart 0 =
      some (some i))
    (hfill : fill turns (i - size + 1 + size) (w.heap.blocknum + 1) (i - size + 1) w.heap.status =
      some status) (hne : i - size + 1 ≠ 0) :
    next heapStart (.malloc size) w =
      some ⟨⟨if w.heap.upTo heapStart < i then i else w.heap.upTo heapStart, status,
        w.heap.blocknum + 1⟩, ⟨i - size + 1, size⟩ :: w.live⟩ := by
  rw [next, mmMalloc_found hs hscan hfill, Option.map_some, if_neg hne]

theorem ofNat_toNat (a : Word) : BitVec.ofNat 32 a.toNat = a := by
  rw [BitVec.ofNat_toNat, BitVec.setWidth_eq]

/-- **A block that fits is given out**, if it ends below the last address and its number
is not 0. -/
theorem mmMalloc_given {h : Heap} {j : ℕ} (hs : size ≠ 0) (hj : j < 2 ^ 32 - 1)
    (hfits : Fits h.status size heapStart.toNat j) (hnum : h.blocknum + 1 ≠ 0)
    (hscan : scan h.status size (h.upTo heapStart + size) turns heapStart 0 =
      some (some (BitVec.ofNat 32 j))) :
    ∃ p heap, mmMalloc heapStart size h = some (BitVec.ofNat 32 p, heap) ∧
      heap.heapEnd.toNat = max (h.upTo heapStart).toNat j ∧ Given heapStart size h p heap := by
  have hpos : size.toNat ≠ 0 := fun h => hs (BitVec.eq_of_toNat_eq h)
  obtain ⟨hroom, hunused⟩ := hfits.unused hs
  obtain ⟨p, hp⟩ : ∃ p, p + size.toNat = j + 1 := ⟨j + 1 - size.toNat, by omega⟩
  have hstart : (BitVec.ofNat 32 j - size + 1 : Word) = BitVec.ofNat 32 p := by
    apply BitVec.eq_of_toNat_eq
    rw [toNat_blockStart (by omega) (by omega) hs, toNat_ofNat (by omega)]
    omega
  have hpast : (BitVec.ofNat 32 p + size : Word) = BitVec.ofNat 32 (p + size.toNat) := by
    rw [BitVec.ofNat_add, ofNat_toNat]
  have hfill : fill turns (BitVec.ofNat 32 j - size + 1 + size) (h.blocknum + 1)
      (BitVec.ofNat 32 j - size + 1) h.status =
        some (mark h.status p size.toNat (h.blocknum + 1)) := by
    rw [hstart, hpast]
    exact fill_eq (by omega) (by unfold turns; omega)
  have hend : (if h.upTo heapStart < BitVec.ofNat 32 j then BitVec.ofNat 32 j
      else h.upTo heapStart : Word).toNat = max (h.upTo heapStart).toNat j := by
    have hj32 : (BitVec.ofNat 32 j : Word).toNat = j := toNat_ofNat (by omega)
    simp only [BitVec.lt_def, hj32]
    split_ifs with hlt
    · rw [hj32, Nat.max_eq_right hlt.le]
    · rw [Nat.max_eq_left (Nat.le_of_not_lt hlt)]
  refine ⟨p, _, hstart ▸ mmMalloc_found hs hscan hfill, hend, hs, by omega, ?_, by omega,
    fun x hx hxp => hunused x (by omega) (by omega), ⟨h.blocknum + 1, hnum, rfl⟩, ?_⟩
  · have haligned := hfits.2
    omega
  · rw [hend]
    omega

/-- **What `mm_malloc` does** in a call that stays clear of the limits. -/
theorem mmMalloc_cases (h0 : heapStart ≠ 0) (h4 : heapStart.toNat % 4 = 0)
    (hv : w.heap.heapEnd.toNat + 1 < 2 ^ 32) (hc : Clear heapStart w (.malloc size)) :
    ∃ p heap, mmMalloc heapStart size w.heap = some (BitVec.ofNat 32 p, heap) ∧
      w.heap.heapEnd.toNat ≤ heap.heapEnd.toNat ∧ heap.heapEnd.toNat + 1 < 2 ^ 32 ∧
        ((p = 0 ∧ heap.status = w.heap.status) ∨ Given heapStart size w.heap p heap) := by
  by_cases hs : size = 0
  · exact ⟨0, w.heap, if_pos hs, le_rfl, hv, .inl ⟨rfl, rfl⟩⟩
  have hupTo : w.heap.heapEnd.toNat ≤ (w.heap.upTo heapStart).toNat ∧
      (w.heap.upTo heapStart).toNat + 1 < 2 ^ 32 := by
    have hstart := heapStart.isLt
    unfold upTo
    split_ifs with hz
    · rw [hz]
      exact ⟨Nat.zero_le _, by omega⟩
    · exact ⟨le_rfl, hv⟩
  have hlast : (w.heap.upTo heapStart).toNat + size.toNat = 2 ^ 32 - 1 →
      ∃ j < 2 ^ 32 - 1, Fits w.heap.status size heapStart.toNat j :=
    fun h => (hc hs (by omega)).1 h
  rcases scan_cases h0 hs hupTo.2 hlast with hscan | ⟨j, hj, hlt, hj32, hfits, hscan⟩
  · exact ⟨0, _, mmMalloc_nothing hs hscan, hupTo.1, hupTo.2, .inl ⟨rfl, rfl⟩⟩
  · obtain ⟨p, heap, hmalloc, hend, hgiven⟩ :=
      mmMalloc_given hs hj32 hfits ((hc hs hlt).2 ⟨j, hj, hfits⟩) hscan
    exact ⟨p, heap, hmalloc, by omega, by omega, .inr hgiven⟩

/-- A byte is in one live block at most. -/
theorem Represents.eq_of_contains (h : Represents heapStart w) {b b' : Block} (hb : b ∈ w.live)
    (hb' : b' ∈ w.live) {a : Word} (ha : b.Contains a) (ha' : b'.Contains a) : b = b' := by
  obtain ⟨i, hi, rfl⟩ := List.mem_iff_getElem.mp hb
  obtain ⟨j, hj, rfl⟩ := List.mem_iff_getElem.mp hb'
  have hapart := List.pairwise_iff_getElem.mp h.disjoint
  rcases Nat.lt_trichotomy i j with hlt | rfl | hlt
  · exact absurd ⟨ha, ha'⟩ (hapart i j hi hj hlt a)
  · rfl
  · exact absurd ⟨ha', ha⟩ (hapart j i hj hi hlt a)

/-- A new block is apart from the live ones. -/
theorem Given.not_contains {p : ℕ} {heap : Heap} (hg : Given heapStart size w.heap p heap)
    (h : Represents heapStart w) {b : Block} (hb : b ∈ w.live) {a : Word} (ha : b.Contains a) :
    ¬(p ≤ a.toNat ∧ a.toNat < p + size.toNat) := by
  rintro ⟨h1, h2⟩
  have hzero := hg.unused a.toNat h1 h2
  rw [ofNat_toNat] at hzero
  exact (h.status a).mpr ⟨b, hb, ha⟩ hzero

theorem Block.contains_ofNat {p : ℕ} (hp : p < 2 ^ 32) (a : Word) :
    Block.Contains ⟨BitVec.ofNat 32 p, size⟩ a ↔ p ≤ a.toNat ∧ a.toNat < p + size.toNat := by
  rw [Block.Contains, toNat_ofNat hp]

/-- The block given out is one more that the heap owes its callers. -/
theorem Given.represents {p : ℕ} {heap : Heap} (hg : Given heapStart size w.heap p heap)
    (h : Represents heapStart w) :
    Represents heapStart ⟨heap, ⟨BitVec.ofNat 32 p, size⟩ :: w.live⟩ := by
  obtain ⟨num, hnum, hstatus⟩ := hg.status
  have hroom := hg.room
  have hp : (BitVec.ofNat 32 p : Word).toNat = p := toNat_ofNat (by omega)
  have hnew (a : Word) : Block.Contains ⟨BitVec.ofNat 32 p, size⟩ a ↔ _ :=
    Block.contains_ofNat (by omega) a
  refine ⟨fun b hb => ?_, fun b hb => ?_, ?_, fun a => ?_⟩
  · rcases List.mem_cons.mp hb with rfl | hb
    · show _ ≤ (BitVec.ofNat 32 p : Word).toNat ∧ _
      rw [hp]
      exact ⟨hg.start, hg.aligned⟩
    · exact h.start b hb
  · rcases List.mem_cons.mp hb with rfl | hb
    · show _ ∧ (BitVec.ofNat 32 p : Word).toNat + _ ≤ _
      rw [hp]
      exact ⟨hg.nonempty, hroom.le⟩
    · exact h.size b hb
  · refine List.pairwise_cons.mpr ⟨fun b hb a => ?_, h.disjoint⟩
    rintro ⟨ha, ha'⟩
    exact hg.not_contains h hb ha' ((hnew a).mp ha)
  · show heap.status a ≠ 0 ↔ _
    rw [List.exists_mem_cons_iff, hnew, hstatus]
    by_cases hin : p ≤ a.toNat ∧ a.toNat < p + size.toNat
    · rw [mark_of_mem hin]
      exact ⟨fun _ => .inl hin, fun _ => hnum⟩
    · rw [mark_of_not_mem hin, h.status a]
      exact ⟨.inr, fun h => h.resolve_left hin⟩

/-- **A block is given out.** -/
theorem Given.valid {p : ℕ} {heap : Heap} (hg : Given heapStart size w.heap p heap)
    (h : Valid heapStart w) (hle : w.heap.heapEnd.toNat ≤ heap.heapEnd.toNat)
    (hend : heap.heapEnd.toNat + 1 < 2 ^ 32) :
    Valid heapStart ⟨heap, ⟨BitVec.ofNat 32 p, size⟩ :: w.live⟩ := by
  obtain ⟨num, -, hstatus⟩ := hg.status
  have hroom := hg.room
  have hp : (BitVec.ofNat 32 p : Word).toNat = p := toNat_ofNat (by omega)
  have hpos : 0 < size.toNat :=
    Nat.pos_of_ne_zero fun h0 => hg.nonempty (BitVec.eq_of_toNat_eq h0)
  have hold {b : Block} (hb : b ∈ w.live) {a : Word} (ha : b.Contains a) :
      heap.status a = w.heap.status a := by
    rw [hstatus]
    exact mark_of_not_mem (hg.not_contains h.toRepresents hb ha)
  refine ⟨hg.represents h.toRepresents, fun b hb a ha => ?_, fun b hb => ?_, hend⟩
  · show heap.status a = heap.status b.addr
    rcases List.mem_cons.mp hb with rfl | hb
    · have hin := (Block.contains_ofNat (by omega) a).mp ha
      rw [hstatus, mark_of_mem hin, mark_of_mem (by rw [hp]; omega)]
    · rw [hold hb ha, hold hb (Block.contains_addr (h.size b hb).1)]
      exact h.numbers b hb a ha
  · rcases List.mem_cons.mp hb with rfl | hb
    · show (BitVec.ofNat 32 p : Word).toNat + _ ≤ _
      rw [hp]
      exact hg.past
    · exact (h.within b hb).trans (Nat.add_le_add_right hle 1)

/-- **A call of `mm_malloc`.** -/
theorem malloc_step (h0 : heapStart ≠ 0) (h4 : heapStart.toNat % 4 = 0) (h : Valid heapStart w)
    (hc : Clear heapStart w (.malloc size)) : Behaves heapStart w (.malloc size) ∧
      ∃ w', next heapStart (.malloc size) w = some w' ∧ Valid heapStart w' := by
  obtain ⟨p, heap, hm, hle, hend, hcases⟩ := mmMalloc_cases h0 h4 h.heapEnd hc
  have hpos : 0 < heapStart.toNat := Nat.pos_of_ne_zero fun hz => h0 (BitVec.eq_of_toNat_eq hz)
  rcases hcases with ⟨rfl, hstatus⟩ | hg
  · refine ⟨⟨0, heap, hm, fun hne => absurd rfl hne⟩, ⟨heap, w.live⟩, ?_, ?_⟩
    · rw [next, hm]
      rfl
    · refine ⟨⟨h.start, h.size, h.disjoint, fun a => ?_⟩, fun b hb a ha => ?_, fun b hb => ?_, hend⟩
      · rw [hstatus]
        exact h.status a
      · rw [hstatus]
        exact h.numbers b hb a ha
      · exact (h.within b hb).trans (Nat.add_le_add_right hle 1)
  · have hroom := hg.room
    have hp : (BitVec.ofNat 32 p : Word).toNat = p := toNat_ofNat (by omega)
    have hne : (BitVec.ofNat 32 p : Word) ≠ 0 := by
      intro hz
      have hstart := hg.start
      rw [← hp, hz] at hstart
      exact absurd hstart (Nat.not_le_of_lt hpos)
    refine ⟨⟨_, heap, hm, fun _ => by rw [hp]; exact ⟨hg.aligned, hg.start⟩⟩, _, ?_,
      hg.valid h hle hend⟩
    rw [next, hm, Option.map_some, if_neg hne]

/-- **What `mm_free` does** to a live block in a call that stays clear of the
limits. -/
theorem mmFree_cases (h0 : heapStart ≠ 0) (h : Valid heapStart w) {b : Block} (hb : b ∈ w.live)
    (hnext : w.heap.heapEnd.toNat < b.addr.toNat + b.size.toNat ∨
      w.heap.status (b.addr + b.size) ≠ w.heap.status b.addr) :
    ∃ heap, mmFree b.addr w.heap = some (.returned heap) ∧ heap.heapEnd = w.heap.heapEnd ∧
      (∀ a, b.Contains a → heap.status a = 0) ∧
        ∀ a, ¬b.Contains a → heap.status a = w.heap.status a := by
  have hcontains := Block.contains_addr (h.size b hb).1
  have hnum : w.heap.status b.addr ≠ 0 := (h.status b.addr).mpr ⟨b, hb, hcontains⟩
  have haddr : b.addr ≠ 0 := by
    intro hz
    have hstart := (h.start b hb).1
    rw [hz] at hstart
    exact h0 (BitVec.eq_of_toNat_eq (Nat.le_zero.mp hstart))
  have hwithin := h.within b hb
  have hend := h.heapEnd
  have hafter : BitVec.ofNat 32 (b.addr.toNat + b.size.toNat) = b.addr + b.size := by
    rw [BitVec.ofNat_add, ofNat_toNat, ofNat_toNat]
  obtain ⟨status, hclear, hin, hout⟩ : ∃ status,
      clear (w.heap.status b.addr) w.heap.heapEnd turns b.addr w.heap.status = some status ∧
        (∀ a, b.Contains a → status a = 0) ∧
          ∀ a, ¬b.Contains a → status a = w.heap.status a := by
    refine ⟨mark w.heap.status b.addr.toNat b.size.toNat 0, ?_, fun a ha => mark_of_mem ha,
      fun a ha => mark_of_not_mem ha⟩
    have hclear : clear (w.heap.status b.addr) w.heap.heapEnd turns
        (BitVec.ofNat 32 b.addr.toNat) w.heap.status =
          some (mark w.heap.status b.addr.toNat b.size.toNat 0) := by
      refine clear_eq (by omega) hwithin (by unfold turns; omega) (fun x hx hxk => ?_) ?_
      · exact h.numbers b hb _ (by rw [Block.Contains, toNat_ofNat (by omega)]; omega)
      · rw [hafter]
        exact hnext
    rwa [ofNat_toNat] at hclear
  refine ⟨{ w.heap with status }, ?_, rfl, hin, hout⟩
  rw [mmFree]
  simp only [if_neg haddr, if_neg hnum, hclear]
  rfl

/-- A block that is not freed lies apart from the one that is. -/
theorem Represents.apart (h : Represents heapStart w) {b b' : Block} (hb : b ∈ w.live)
    (hb' : b' ∈ w.live.filter fun b' => b'.addr != b.addr) {a : Word} (ha' : b'.Contains a) :
    ¬b.Contains a := by
  obtain ⟨hlive, hne⟩ := List.mem_filter.mp hb'
  intro ha
  rw [h.eq_of_contains hlive hb ha' ha, bne_self_eq_false] at hne
  exact Bool.noConfusion hne

/-- **A block is freed.** -/
theorem Valid.freed (h : Valid heapStart w) {b : Block} (hb : b ∈ w.live) {heap : Heap}
    (hend : heap.heapEnd = w.heap.heapEnd) (hin : ∀ a, b.Contains a → heap.status a = 0)
    (hout : ∀ a, ¬b.Contains a → heap.status a = w.heap.status a) :
    Valid heapStart ⟨heap, w.live.filter fun b' => b'.addr != b.addr⟩ := by
  have hlive {b' : Block} (hb' : b' ∈ w.live.filter fun b' => b'.addr != b.addr) : b' ∈ w.live :=
    List.mem_of_mem_filter hb'
  refine ⟨⟨fun b' hb' => h.start b' (hlive hb'), fun b' hb' => h.size b' (hlive hb'),
    h.disjoint.filter _, fun a => ?_⟩, fun b' hb' a ha => ?_, fun b' hb' => ?_, ?_⟩
  · show heap.status a ≠ 0 ↔ _
    by_cases ha : b.Contains a
    · rw [hin a ha]
      refine ⟨fun hne => absurd rfl hne, ?_⟩
      rintro ⟨b', hb', ha'⟩
      exact absurd ha (h.apart hb hb' ha')
    · rw [hout a ha, h.status a]
      constructor
      · rintro ⟨b', hb', ha'⟩
        refine ⟨b', List.mem_filter.mpr ⟨hb', bne_iff_ne.mpr fun heq => ha ?_⟩, ha'⟩
        have haddr : b.Contains b'.addr := heq ▸ Block.contains_addr (h.size b hb).1
        rw [h.eq_of_contains hb hb' haddr (Block.contains_addr (h.size b' hb').1)]
        exact ha'
      · rintro ⟨b', hb', ha'⟩
        exact ⟨b', hlive hb', ha'⟩
  · show heap.status a = heap.status b'.addr
    have haddr := Block.contains_addr (h.size b' (hlive hb')).1
    rw [hout a (h.apart hb hb' ha), hout _ (h.apart hb hb' haddr)]
    exact h.numbers b' (hlive hb') a ha
  · show _ ≤ heap.heapEnd.toNat + 1
    rw [hend]
    exact h.within b' (hlive hb')
  · show heap.heapEnd.toNat + 1 < _
    rw [hend]
    exact h.heapEnd

/-- **A call of `mm_free`.** -/
theorem free_step (h0 : heapStart ≠ 0) (h : Valid heapStart w) {addr : Word}
    (hl : Legal w (.free addr)) (hc : Clear heapStart w (.free addr)) :
    Behaves heapStart w (.free addr) ∧
      ∃ w', next heapStart (.free addr) w = some w' ∧ Valid heapStart w' := by
  obtain ⟨b, hb, rfl⟩ := hl
  obtain ⟨heap, hfree, hend, hin, hout⟩ := mmFree_cases h0 h hb (hc b hb rfl)
  refine ⟨fun b' hb' haddr => ?_, ⟨heap, w.live.filter fun b' => b'.addr != b.addr⟩, ?_,
    h.freed hb hend hin hout⟩
  · have hsame : b' = b := h.eq_of_contains hb' hb
      (haddr ▸ Block.contains_addr (h.size b' hb').1) (Block.contains_addr (h.size b hb).1)
    subst hsame
    exact ⟨heap, hfree, fun a => ⟨hin a, hout a⟩⟩
  · rw [next, hfree]

end Steps

section Runs

variable {heapStart : Word} {w : World}

theorem init_valid (heapStart : Word) : Valid heapStart World.init where
  start := fun b hb => absurd hb List.not_mem_nil
  size := fun b hb => absurd hb List.not_mem_nil
  disjoint := List.Pairwise.nil
  status := fun a => ⟨fun h => absurd rfl h, fun ⟨_, hb, _⟩ => absurd hb List.not_mem_nil⟩
  numbers := fun b hb => absurd hb List.not_mem_nil
  within := fun b hb => absurd hb List.not_mem_nil
  heapEnd := by decide

/-- **One call** that stays clear of the limits. -/
theorem call_step (h0 : heapStart ≠ 0) (h4 : heapStart.toNat % 4 = 0) (h : Valid heapStart w)
    {c : Call} (hl : Legal w c) (hc : Clear heapStart w c) : Behaves heapStart w c ∧
      ∃ w', next heapStart c w = some w' ∧ Valid heapStart w' := by
  cases c with
  | malloc size => exact malloc_step h0 h4 h hc
  | free addr => exact free_step h0 h hl hc

/-- Calls that stay clear of the limits return, and keep the heap valid. -/
theorem runCalls_valid (h0 : heapStart ≠ 0) (h4 : heapStart.toNat % 4 = 0)
    (calls : List Call) (h : Valid heapStart w) (hclear : AllClear heapStart calls w) :
    ∃ w', runCalls heapStart calls w = some w' ∧ Valid heapStart w' := by
  induction calls generalizing w with
  | nil => exact ⟨w, rfl, h⟩
  | cons c calls ih =>
    obtain ⟨hl, hc, hrest⟩ := hclear
    obtain ⟨-, w₁, hnext, hvalid⟩ := call_step h0 h4 h hl hc
    obtain ⟨w₂, hrun, hvalid₂⟩ := ih hvalid (hrest w₁ hnext)
    exact ⟨w₂, by rw [runCalls, hnext, Option.bind_some, hrun], hvalid₂⟩

/-- **The heap keeps what it owes its callers** in every run whose calls stay clear of the
limits: the live blocks are aligned, apart and marked, and the next call does what it is
held to if it stays clear of them too. -/
theorem heap_run (heapStart : Word) (h0 : heapStart ≠ 0) (h4 : heapStart.toNat % 4 = 0)
    (calls : List Call) (hclear : AllClear heapStart calls World.init) :
    ∃ w, runCalls heapStart calls World.init = some w ∧ Represents heapStart w ∧
      ∀ c, Legal w c → Clear heapStart w c → Behaves heapStart w c := by
  obtain ⟨w, hrun, hvalid⟩ := runCalls_valid h0 h4 calls (init_valid heapStart) hclear
  exact ⟨w, hrun, hvalid.toRepresents, fun c hl hc => (call_step h0 h4 hvalid hl hc).1⟩

/-- The first 4 bytes have been given out. -/
def World.four : World :=
  ⟨⟨0xC0000003, mark (fun _ => 0) 0xC0000000 4 2, 2⟩, [⟨0xC0000000, 4⟩]⟩

theorem next_four : next 0xC0000000 (.malloc 4) World.init = some World.four :=
  next_found (i := 0xC0000003) (by decide) rfl (fill_eq (by decide) (by decide)) (by decide)

/-- And 8 behind them. -/
def World.eight : World :=
  ⟨⟨0xC000000B, mark World.four.heap.status 0xC0000004 8 3, 3⟩,
    ⟨0xC0000004, 8⟩ :: World.four.live⟩

/-- And 4 behind these. -/
def World.sixteen : World :=
  ⟨⟨0xC000000F, mark World.eight.heap.status 0xC000000C 4 4, 4⟩,
    ⟨0xC000000C, 4⟩ :: World.eight.live⟩

theorem next_eight : next 0xC0000000 (.malloc 8) World.four = some World.eight :=
  next_found (i := 0xC000000B) (by decide) rfl (fill_eq (by decide) (by decide)) (by decide)

theorem next_sixteen : next 0xC0000000 (.malloc 4) World.eight = some World.sixteen :=
  next_found (i := 0xC000000F) (by decide) rfl (fill_eq (by decide) (by decide)) (by decide)

/-- Of three blocks the one in the middle is freed. -/
theorem heap_run_three : ∃ w,
    runCalls 0xC0000000 [.malloc 4, .malloc 8, .malloc 4, .free 0xC0000004] World.init =
        some w ∧
      Represents 0xC0000000 w ∧
        ∀ c, Legal w c → Clear 0xC0000000 w c → Behaves 0xC0000000 w c := by
  refine heap_run 0xC0000000 (by decide) (by decide) _
    ⟨trivial, fun _ _ => ⟨fun h => absurd h (by decide), fun _ => by decide⟩, fun w' hw' => ?_⟩
  obtain rfl := Option.some.inj (next_four.symm.trans hw')
  refine ⟨trivial, fun _ _ => ⟨fun h => absurd h (by decide), fun _ => by decide⟩,
    fun w' hw' => ?_⟩
  obtain rfl := Option.some.inj (next_eight.symm.trans hw')
  refine ⟨trivial, fun _ _ => ⟨fun h => absurd h (by decide), fun _ => by decide⟩,
    fun w' hw' => ?_⟩
  obtain rfl := Option.some.inj (next_sixteen.symm.trans hw')
  refine ⟨⟨⟨0xC0000004, 8⟩, by decide, rfl⟩, fun b hb haddr => .inr ?_, fun _ _ => trivial⟩
  -- the byte behind the second block is the first of the third
  have hsecond : ∀ b ∈ World.sixteen.live, b.addr = 0xC0000004 → b.size = 8 := by decide
  rw [hsecond b hb haddr]
  decide

/-- Every call of a run is legal. -/
def AllLegal (heapStart : Word) : List Call → World → Prop
  | [], _ => True
  | c :: cs, w => Legal w c ∧ ∀ w', next heapStart c w = some w' → AllLegal heapStart cs w'

/-- A block that reaches the last address has been given out too. -/
def World.full : World :=
  ⟨⟨0xFFFFFFFF, World.four.heap.status, 3⟩, [⟨0xC0000004, 0x3FFFFFFC⟩, ⟨0xC0000000, 4⟩]⟩

theorem next_full : next 0xC0000000 (.malloc 0x3FFFFFFC) World.four = some World.full := by
  have hsize : (0x3FFFFFFC : Word).toNat = 0x3FFFFFFC := rfl
  have hscan : scan World.four.heap.status 0x3FFFFFFC (0xC0000003 + 0x3FFFFFFC) turns
      0xC0000000 0 = some (some (BitVec.ofNat 32 0xFFFFFFFF)) := by
    refine scan_found (by decide) (by decide) (by decide)
      ⟨(le_stretch_iff (by decide)).mpr ⟨by decide, fun x hx hlt => ?_⟩, by decide⟩
      fun k hk hfits => ?_
    · rw [hsize] at hx
      refine beq_iff_eq.mpr ?_
      show mark (fun _ => 0) 0xC0000000 4 2 (BitVec.ofNat 32 x) = 0
      refine mark_of_not_mem ?_
      rw [toNat_ofNat (by omega)]
      omega
    · -- a block that ends earlier would hold the last byte of the first one
      obtain ⟨hroom, hunused⟩ := hfits.unused (by decide)
      have hstart : (0xC0000000 : Word).toNat = 0xC0000000 := rfl
      rw [hsize] at hroom hunused
      exact absurd (hunused 0xC0000003 (by omega) (by omega)) (by decide)
  have hfill : fill turns (0xC0000004 + 0x3FFFFFFC) 3 0xC0000004 World.four.heap.status =
      some World.four.heap.status := rfl
  exact next_found (i := 0xFFFFFFFF) (by decide) hscan hfill (by decide)

/-- The block that reaches the last address is not marked. -/
theorem not_heap_run : ¬∀ calls, AllLegal 0xC0000000 calls World.init → ∃ w,
    runCalls 0xC0000000 calls World.init = some w ∧ Represents 0xC0000000 w ∧
      ∀ c, Legal w c → Behaves 0xC0000000 w c := by
  intro h
  obtain ⟨w, hrun, hrep, -⟩ := h [.malloc 4, .malloc 0x3FFFFFFC]
    ⟨trivial, fun _ _ => ⟨trivial, fun _ _ => trivial⟩⟩
  rw [runCalls, next_four, Option.bind_some, runCalls, next_full] at hrun
  obtain rfl := Option.some.inj hrun
  exact (hrep.status 0xC0000004).mpr ⟨_, List.mem_cons_self, by decide, by decide⟩ (by decide)

end Runs

end Sim
end OooProcessor
