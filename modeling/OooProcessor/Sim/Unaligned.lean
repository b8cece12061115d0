/-
# Unaligned words

SWL and SWR write a word that need not be aligned, the one the bytes of the first
word it touches and the other those of the second; LWL and LWR read one into the two
ends of a register.  The pairs are inverse to each other (`unaligned`), in spite of
the remark in `MEM.v` that SWR may be wrong.
-/

import OooProcessor.Sim.Lanes

namespace OooProcessor
namespace Sim

open Lib Mem

/-- EXE's registers when no memory instruction is in them. -/
abbrev Quiet := {e : Exe.State // e.memRead1Out = false ∧ e.memWrite1Out = false}

/-- Cycles without a memory access. -/
def quiet (es : List Quiet) (s : State) : State := es.foldl (fun s e => cycle e.1 s) s

theorem mainMemory_quiet (es : List Quiet) (s : State) :
    (quiet es s).mainMemory = s.mainMemory := by
  induction es generalizing s with
  | nil => rfl
  | cons e es ih => exact (ih (cycle e.1 s)).trans (mainMemory_of_not_memWrite s e.2.2)

section Pair

variable {a : Word}

/-- The second word an unaligned word touches, or the only one. -/
theorem memReadAddress_add_three (a : Word) {i : ℕ} (hi : 3 ≤ i + (a + 3).toNat % 4) :
    memReadAddress (a + 3) + BitVec.ofNat 32 (i - (3 - (a + 3).toNat % 4)) =
      a + BitVec.ofNat 32 i := by
  have ha := a.isLt
  have hthree : (a + 3).toNat = (a.toNat + 3) % 2 ^ 32 := BitVec.toNat_add a 3
  apply BitVec.eq_of_toNat_eq
  simp only [BitVec.toNat_add, BitVec.toNat_ofNat, toNat_memReadAddress, hthree] at hi ⊢
  omega

/-- **SWL and SWR together** write the word. -/
theorem put_swl_swr (m : MainMemory) (a v : Word) :
    (put (put m (MemOp.swl.first a) (MemOp.swl.count a) fun i => byteOf 4 v (MemOp.swl.skip a + i))
      (MemOp.swr.first (a + 3)) (MemOp.swr.count (a + 3))
        fun i => byteOf 4 v (MemOp.swr.skip (a + 3) + i)) = put m a 4 (byteOf 4 v) := by
  have hthree : (a + 3).toNat = (a.toNat + 3) % 2 ^ 32 := BitVec.toNat_add a 3
  show put (put m a (4 - a.toNat % 4) fun i => byteOf 4 v (0 + i)) (memReadAddress (a + 3))
    ((a + 3).toNat % 4 + 1) (fun i => byteOf 4 v (4 - ((a + 3).toNat % 4 + 1) + i)) = _
  rcases Nat.eq_zero_or_pos (a.toNat % 4) with h | h
  · have hfirst : memReadAddress (a + 3) = a := by
      have hthree := memReadAddress_add_three a (i := 0) (by omega)
      simpa [show (a + 3).toNat % 4 = 3 by omega] using hthree
    rw [hfirst, h, show (a + 3).toNat % 4 = 3 by omega, put_put_self]
    exact put_congr fun i _ => congrArg (byteOf 4 v) (Nat.zero_add i)
  · have hlast : (a + 3).toNat % 4 + 1 = a.toNat % 4 := by omega
    have hfirst : memReadAddress (a + 3) = a + BitVec.ofNat 32 (4 - a.toNat % 4) := by
      have := memReadAddress_add_three a (i := 4 - a.toNat % 4) (by omega)
      rwa [show 4 - a.toNat % 4 - (3 - (a + 3).toNat % 4) = 0 by omega, BitVec.add_zero] at this
    rw [hfirst, hlast, put_put _ _ (by omega), Nat.sub_add_cancel (by omega)]
    refine put_congr fun i _ => ?_
    split_ifs with hlt
    · rw [Nat.zero_add]
    · rw [Nat.add_sub_cancel' (by omega)]

variable (m : MainMemory) (v : Word) {i : ℕ}

/-- The bytes of two parts of words put together. -/
theorem byteOf_merge {k l s t : ℕ} (x y : Word) (hs : s + k ≤ 4) (ht : t + l ≤ 4)
    (hi : i < k + l) :
    byteOf (k + l) (x.extractLsb' (8 * (4 - s - k)) (8 * k) ++
      y.extractLsb' (8 * (4 - t - l)) (8 * l)) i =
        if i < k then byteOf 4 x (s + i) else byteOf 4 y (t + (i - k)) := by
  split_ifs with hk
  · rw [byteOf_append_of_lt _ _ hk, byteOf_extractLsb' x hk rfl rfl hs]
  · rw [byteOf_append_of_le _ _ (by omega) hi, byteOf_extractLsb' y (by omega) rfl rfl ht]

/-- **LWL** reads the bytes up to the end of the aligned word into the high end. -/
theorem byteOf_lwl (hi : i < 4) :
    byteOf 4 (access MemOp.lwl.controls.aluControl a v (readWord m (memReadAddress a))
      0).dataReadAligned i =
        if i < 4 - a.toNat % 4 then m (a + BitVec.ofNat 32 i) else byteOf 4 v i := by
  have hbytes {j : ℕ} (h : a.toNat % 4 = j) :
      (if i < 4 - j then byteOf 4 (readWord m (memReadAddress a)) (j + i)
        else byteOf 4 v (4 - j + (i - (4 - j)))) =
      if i < 4 - j then m (a + BitVec.ofNat 32 i) else byteOf 4 v i := by
    split_ifs with hlt
    · rw [byteOf_readWord m _ (by omega), memReadAddress_add h]
    · rw [Nat.add_sub_cancel' (by omega)]
  rcases mod_four_cases a with h | h | h | h <;> unfold access <;> rw [offset_eq h, h]
  · rw [if_pos hi, ← memReadAddress_add h i, Nat.zero_add]
    exact byteOf_readWord m _ hi
  · exact (byteOf_merge (k := 3) (l := 1) (s := 1) (t := 3) _ v (by decide) (by decide) hi).trans
      (hbytes h)
  · exact (byteOf_merge (k := 2) (l := 2) (s := 2) (t := 2) _ v (by decide) (by decide) hi).trans
      (hbytes h)
  · exact (byteOf_merge (k := 1) (l := 3) (s := 3) (t := 1) _ v (by decide) (by decide) hi).trans
      (hbytes h)

/-- **LWR** reads the bytes of the aligned word up to the address into the low end. -/
theorem byteOf_lwr (hi : i < 4) :
    byteOf 4 (access MemOp.lwr.controls.aluControl a v (readWord m (memReadAddress a))
      0).dataReadAligned i =
        if i < 3 - a.toNat % 4 then byteOf 4 v i
        else m (memReadAddress a + BitVec.ofNat 32 (i - (3 - a.toNat % 4))) := by
  have hbytes {k : ℕ} :
      (if i < k then byteOf 4 v (0 + i)
        else byteOf 4 (readWord m (memReadAddress a)) (0 + (i - k))) =
      if i < k then byteOf 4 v i else m (memReadAddress a + BitVec.ofNat 32 (i - k)) := by
    rw [Nat.zero_add, Nat.zero_add, byteOf_readWord m _ (by omega)]
  rcases mod_four_cases a with h | h | h | h <;> unfold access <;> rw [offset_eq h, h]
  · exact (byteOf_merge (k := 3) (l := 1) (s := 0) (t := 0) v _ (by decide) (by decide) hi).trans
      hbytes
  · exact (byteOf_merge (k := 2) (l := 2) (s := 0) (t := 0) v _ (by decide) (by decide) hi).trans
      hbytes
  · exact (byteOf_merge (k := 1) (l := 3) (s := 0) (t := 0) v _ (by decide) (by decide) hi).trans
      hbytes
  · exact byteOf_readWord m _ hi

/-- **LWL and LWR together** read the word, whatever the register held. -/
theorem byteOf_lwl_lwr (hi : i < 4) :
    byteOf 4 (access MemOp.lwr.controls.aluControl (a + 3)
      (access MemOp.lwl.controls.aluControl a v (readWord m (memReadAddress a)) 0).dataReadAligned
      (readWord m (memReadAddress (a + 3))) 0).dataReadAligned i =
        m (a + BitVec.ofNat 32 i) := by
  have hthree : (a + 3).toNat = (a.toNat + 3) % 2 ^ 32 := BitVec.toNat_add a 3
  rw [byteOf_lwr m _ hi]
  split_ifs with hlt
  · rw [byteOf_lwl m v hi, if_pos (by omega)]
  · rw [memReadAddress_add_three a (by omega)]

end Pair

/-- **Unaligned words round trip**: SWL and SWR write the word `v` at any address `a`
and nothing else; LWL and LWR then read it back into a register that held anything.
Between them there may be cycles without a memory access. -/
theorem unaligned (s : State) (a v w : Word) (e₁ e₂ e₃ e₄ : Exe.State)
    (q₁ q₂ q₃ : List Quiet) :
    let stored := cycle (handOn .swr (a + 3) v e₂) (quiet q₁ (cycle (handOn .swl a v e₁) s))
    let left := cycle (handOn .lwl a w e₃) (quiet q₂ stored)
    let right := cycle (handOn .lwr (a + 3) left.mem.writeData1Out e₄) (quiet q₃ left)
    (∀ x, stored.mainMemory x =
      if (x - a).toNat < 4 then byteOf 4 v (x - a).toNat else s.mainMemory x) ∧
        right.mainMemory = stored.mainMemory ∧ right.mem.writeData1Out = v := by
  intro stored left right
  have hstored : stored.mainMemory = put s.mainMemory a 4 (byteOf 4 v) := by
    show (cycle _ (quiet q₁ (cycle _ s))).mainMemory = _
    rw [mainMemory_store _ _ _ _ rfl, mainMemory_quiet, mainMemory_store _ _ _ _ rfl, put_swl_swr]
  have hleft : left.mainMemory = stored.mainMemory := by
    show (cycle _ (quiet q₂ stored)).mainMemory = _
    rw [mainMemory_of_not_memWrite _ rfl, mainMemory_quiet]
  have hvalue : left.mem.writeData1Out = (access MemOp.lwl.controls.aluControl a w
      (readWord stored.mainMemory (memReadAddress a)) 0).dataReadAligned := by
    show (cycle _ (quiet q₂ stored)).mem.writeData1Out = _
    rw [writeData1Out_load _ _ _ _ rfl, mainMemory_quiet]
  refine ⟨fun x => by rw [hstored]; rfl, ?_, ?_⟩
  · show (cycle _ (quiet q₃ left)).mainMemory = _
    rw [mainMemory_of_not_memWrite _ rfl, mainMemory_quiet, hleft]
  · have hright : right.mem.writeData1Out = (access MemOp.lwr.controls.aluControl (a + 3)
        left.mem.writeData1Out (readWord stored.mainMemory (memReadAddress (a + 3)))
          0).dataReadAligned := by
      show (cycle _ (quiet q₃ left)).mem.writeData1Out = _
      rw [writeData1Out_load _ _ _ _ rfl, mainMemory_quiet, hleft]
    refine eq_of_byteOf (k := 4) fun i hi => ?_
    rw [hright, hvalue, byteOf_lwl_lwr _ _ hi, hstored, put_add hi (by decide)]

end Sim
end OooProcessor
