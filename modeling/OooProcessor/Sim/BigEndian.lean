/-
# Big-endian byte memory

Aligned loads and stores, in any order and with any cycles between them, against a
memory of bytes that remembers the last store to each: MEM's lanes and the accesses
of `main` implement it (`bigEndian`).
-/

import OooProcessor.Sim.Lanes

namespace OooProcessor
namespace Sim

open Lib Mem

namespace MemOp

/-- The instructions that want an aligned address. -/
def aligns (op : MemOp) : Bool := op != lwl && op != lwr && op != swl && op != swr

/-- Their number of bytes. -/
def width : MemOp → ℕ
  | lb | lbu | sb => 1
  | lh | lhu | sh => 2
  | _ => 4

/-- The value to load where the bytes addressed are `f 0`, `f 1`, … -/
def loaded (f : ℕ → BitVec 8) : MemOp → Word
  | lb => (BitVec.ofNat 8 (number f 1)).signExtend 32
  | lh => (BitVec.ofNat 16 (number f 2)).signExtend 32
  | lbu => BitVec.ofNat 32 (number f 1)
  | lhu => BitVec.ofNat 32 (number f 2)
  | _ => BitVec.ofNat 32 (number f 4)

end MemOp

section Aligned

variable {op : MemOp} {a : Word} {j k : ℕ} (m : MainMemory) (v : Word)

/-- Bytes cut out of the aligned word are those from the address on. -/
theorem extractLsb'_readWord (h : a.toNat % 4 = j) (hk : j + k ≤ 4) :
    (readWord m (memReadAddress a)).extractLsb' (8 * (4 - j - k)) (8 * k) =
      BitVec.ofNat (8 * k) (number (fun i => m (a + BitVec.ofNat 32 i)) k) := by
  rw [← ofNat_number_byteOf ((readWord m (memReadAddress a)).extractLsb' _ _)]
  congr 1
  refine number_congr fun i hi => ?_
  rw [byteOf_extractLsb' _ hi rfl rfl hk, byteOf_readWord m _ (by omega), memReadAddress_add h]

theorem setWidth_ofNat_number (f : ℕ → BitVec 8) (hk : k ≤ 4) :
    (BitVec.ofNat (8 * k) (number f k)).setWidth 32 = BitVec.ofNat 32 (number f k) := by
  have hlt := number_lt f k
  rw [show (256 : ℕ) = 2 ^ 8 by rfl, ← pow_mul] at hlt
  rw [BitVec.setWidth_ofNat_of_le_of_lt (by omega) hlt]

theorem dataReadAligned_lb :
    (access MemOp.lb.controls.aluControl a v (readWord m (memReadAddress a)) 0).dataReadAligned =
      MemOp.lb.loaded fun i => m (a + BitVec.ofNat 32 i) := by
  rcases mod_four_cases a with h | h | h | h <;> unfold access <;> rw [offset_eq h]
  all_goals exact congrArg (BitVec.signExtend 32) (extractLsb'_readWord (k := 1) m h (by decide))

theorem dataReadAligned_lbu :
    (access MemOp.lbu.controls.aluControl a v (readWord m (memReadAddress a)) 0).dataReadAligned =
      MemOp.lbu.loaded fun i => m (a + BitVec.ofNat 32 i) := by
  refine Eq.trans ?_ (setWidth_ofNat_number (k := 1) _ (by decide))
  rcases mod_four_cases a with h | h | h | h <;> unfold access <;> rw [offset_eq h]
  all_goals exact congrArg (BitVec.setWidth 32) (extractLsb'_readWord (k := 1) m h (by decide))

theorem dataReadAligned_lh (hmod : a.toNat % 2 = 0) :
    (access MemOp.lh.controls.aluControl a v (readWord m (memReadAddress a)) 0).dataReadAligned =
      MemOp.lh.loaded fun i => m (a + BitVec.ofNat 32 i) := by
  have hcases : a.toNat % 4 = 0 ∨ a.toNat % 4 = 2 := by omega
  rcases hcases with h | h <;> unfold access <;> rw [offset_eq h]
  all_goals exact congrArg (BitVec.signExtend 32) (extractLsb'_readWord (k := 2) m h (by decide))

theorem dataReadAligned_lhu (hmod : a.toNat % 2 = 0) :
    (access MemOp.lhu.controls.aluControl a v (readWord m (memReadAddress a)) 0).dataReadAligned =
      MemOp.lhu.loaded fun i => m (a + BitVec.ofNat 32 i) := by
  have hcases : a.toNat % 4 = 0 ∨ a.toNat % 4 = 2 := by omega
  refine Eq.trans ?_ (setWidth_ofNat_number (k := 2) _ (by decide))
  rcases hcases with h | h <;> unfold access <;> rw [offset_eq h]
  all_goals exact congrArg (BitVec.setWidth 32) (extractLsb'_readWord (k := 2) m h (by decide))

/-- **What an aligned load returns.** -/
theorem dataReadAligned_eq (h : op.controls.memRead = true) (ha : op.aligns = true)
    (hmod : a.toNat % op.width = 0) :
    (access op.controls.aluControl a v (readWord m (memReadAddress a)) 0).dataReadAligned =
      op.loaded fun i => m (a + BitVec.ofNat 32 i) := by
  cases op with
  | lb => exact dataReadAligned_lb m v
  | lbu => exact dataReadAligned_lbu m v
  | lh => exact dataReadAligned_lh m v hmod
  | lhu => exact dataReadAligned_lhu m v hmod
  | lw =>
    show readWord m (memReadAddress a) = _
    rw [memReadAddress_of_mod hmod, readWord_eq]
    rfl
  | sb | sh | sw | swl | swr => exact absurd h (by decide)
  | lwl | lwr => exact absurd ha (by decide)

/-- The block of an aligned store. -/
theorem put_aligned (h : op.controls.memWrite = true) (ha : op.aligns = true) :
    (put m (op.first a) (op.count a) fun i => byteOf 4 v (op.skip a + i)) =
      put m a op.width (byteOf op.width v) := by
  cases op with
  | sb =>
    refine put_congr fun i hi => ?_
    have hi' : i < 1 := hi
    interval_cases i
    rfl
  | sh =>
    refine put_congr fun i hi => ?_
    have hi' : i < 2 := hi
    interval_cases i <;> rfl
  | sw => exact put_congr fun i _ => congrArg (byteOf 4 v) (Nat.zero_add i)
  | lb | lh | lbu | lhu | lw | lwl | lwr => exact absurd h (by decide)
  | swl | swr => exact absurd ha (by decide)

end Aligned

/-- An aligned access: the instruction, its address and rt, and what else EXE hands
on with it. -/
structure AlignedAccess where
  op : MemOp
  address : Word
  value : Word
  exe : Exe.State
  aligns : op.aligns = true
  aligned : address.toNat % op.width = 0

/-- A clock cycle of EXE's registers: an aligned access, or anything that accesses no
memory. -/
inductive Step
  | access (o : AlignedAccess)
  | other (e : Exe.State) (h : e.memRead1Out = false ∧ e.memWrite1Out = false)

/-- EXE's registers. -/
def Step.exe : Step → Exe.State
  | access o => handOn o.op o.address o.value o.exe
  | other e _ => e

/-- The simulator after `n` cycles from the state `s`. -/
def run (steps : ℕ → Step) (s : State) : ℕ → State
  | 0 => s
  | n + 1 => cycle (steps n).exe (run steps s n)

/-- The bytes of the memory `m` after a step, as the MIPS manual has it. -/
def Step.store (m : MainMemory) : Step → MainMemory
  | access o =>
    if o.op.controls.memWrite then put m o.address o.op.width (byteOf o.op.width o.value) else m
  | other _ _ => m

/-- The byte last stored at `x`, in the first `n` steps from the memory `m`. -/
def lastStored (m : MainMemory) (steps : ℕ → Step) : ℕ → Word → BitVec 8
  | 0, x => m x
  | n + 1, x => (steps n).store (lastStored m steps n) x

/-- A step changes the memory as it should. -/
theorem mainMemory_cycle (t : Step) (s : State) :
    (cycle t.exe s).mainMemory = t.store s.mainMemory := by
  cases t with
  | access o =>
    cases hw : o.op.controls.memWrite with
    | true =>
      rw [Step.exe, mainMemory_store _ _ _ _ hw, put_aligned _ _ hw o.aligns, Step.store, if_pos hw]
    | false =>
      rw [Step.exe, mainMemory_of_not_memWrite s (e := handOn o.op o.address o.value o.exe) hw,
        Step.store, hw, if_neg Bool.false_ne_true]
  | other e h => exact mainMemory_of_not_memWrite s h.2

/-- The memory is what was last stored, byte by byte. -/
theorem mainMemory_run (steps : ℕ → Step) (s : State) (n : ℕ) :
    (run steps s n).mainMemory = lastStored s.mainMemory steps n := by
  induction n with
  | zero => rfl
  | succ n ih => rw [run, mainMemory_cycle, ih]; rfl

/-- **MEM and the simulator are a big-endian byte memory**: in every run of aligned
accesses, a store changes the bytes it addresses and no other, and a load returns the
bytes last stored there. -/
theorem bigEndian (steps : ℕ → Step) (s : State) (n : ℕ) (o : AlignedAccess)
    (ho : steps n = .access o) :
    (∀ x, (run steps s n).mainMemory x = lastStored s.mainMemory steps n x) ∧
      (o.op.controls.memWrite = true → ∀ x, (run steps s (n + 1)).mainMemory x =
        if (x - o.address).toNat < o.op.width then
          byteOf o.op.width o.value (x - o.address).toNat
        else (run steps s n).mainMemory x) ∧
      (o.op.controls.memRead = true →
        (run steps s (n + 1)).mainMemory = (run steps s n).mainMemory ∧
          (run steps s (n + 1)).mem.writeData1Out =
            o.op.loaded fun i => lastStored s.mainMemory steps n (o.address + BitVec.ofNat 32 i)) := by
  refine ⟨fun x => by rw [mainMemory_run], fun hw x => ?_, fun hr => ⟨?_, ?_⟩⟩
  · rw [run, mainMemory_cycle, ho, Step.store, if_pos hw]
    rfl
  · have hw : o.op.controls.memWrite = false := not_memWrite_of_memRead hr
    rw [run, mainMemory_cycle, ho, Step.store, hw, if_neg Bool.false_ne_true]
  · rw [run, ho, Step.exe, writeData1Out_load _ _ _ _ hr, mainMemory_run,
      dataReadAligned_eq _ _ hr o.aligns o.aligned]

/-- A byte stored, then loaded with its sign. -/
def storeLoad (n : ℕ) : Step :=
  .access (if n = 0 then ⟨.sb, 0x102, 0x80, Exe.reset, rfl, rfl⟩
    else ⟨.lb, 0x102, 0, Exe.reset, rfl, rfl⟩)

/-- The load returns the byte, extended. -/
theorem bigEndian_storeLoad :
    (run storeLoad ⟨fun _ => 0, 0, Mem.reset⟩ 2).mem.writeData1Out = 0xFFFFFF80 := by
  obtain ⟨-, -, hload⟩ := bigEndian storeLoad ⟨fun _ => 0, 0, Mem.reset⟩ 1 _ rfl
  exact (hload rfl).2.trans (by decide)

end Sim
end OooProcessor
