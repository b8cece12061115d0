/-
# The lanes of MEM

What one memory instruction in EXE's output registers does to the memory, and what
it writes back, in bytes: `main` carries the instruction out twice, and the bits of
`data_write_2DM` that a store does not drive are not written.

A store writes a block of the bytes of its register (`mainMemory_store`); a load
takes bytes of the word at the aligned address (`writeData1Out_load`).
-/

import OooProcessor.Rtl.Decoder
import OooProcessor.Sim.Memory
import Mathlib.Tactic.IntervalCases

namespace OooProcessor
namespace Sim

open Lib Mem

/-- The memory instructions MEM handles, but for LL, SC and those of the FPU. -/
inductive MemOp
  | lb | lbu | lh | lhu | lw | lwl | lwr | sb | sh | sw | swl | swr
  deriving DecidableEq

namespace MemOp

/-- `instr[31:26]` -/
def opcode : MemOp → BitVec 6
  | lb => 0b100000
  | lh => 0b100001
  | lwl => 0b100010
  | lw => 0b100011
  | lbu => 0b100100
  | lhu => 0b100101
  | lwr => 0b100110
  | sb => 0b101000
  | sh => 0b101001
  | swl => 0b101010
  | sw => 0b101011
  | swr => 0b101110

/-- What Decoder makes of it. -/
def controls (op : MemOp) : Controls :=
  Controls.ofBits ((Decoder.opcodeTable.lookup op.opcode).getD 0)

theorem decode_eq {op : MemOp} {w : Word} (h : Decoder.opcode w = op.opcode) (held : Controls) :
    Decoder.decode w held = op.controls := by
  have ht : Decoder.table w = some ((Decoder.opcodeTable.lookup op.opcode).getD 0) := by
    rw [Decoder.table, h, if_neg (by cases op <;> decide), if_neg (by cases op <;> decide),
      if_neg (by cases op <;> decide)]
  rw [Decoder.decode, ht]
  rfl

/-- The first byte a store at `a` writes. -/
def first (op : MemOp) (a : Word) : Word := if op = swr then memReadAddress a else a

/-- How many bytes it writes. -/
def count (op : MemOp) (a : Word) : ℕ :=
  match op with
  | sb => 1
  | sh => 2
  | swl => 4 - a.toNat % 4
  | swr => a.toNat % 4 + 1
  | _ => 4

/-- How many bytes of the register it leaves out before them. -/
def skip (op : MemOp) (a : Word) : ℕ := if op = swl then 0 else 4 - op.count a

end MemOp

/-- EXE's registers with the instruction `op` at the address `a`, where rt holds `v`. -/
def handOn (op : MemOp) (a v : Word) (e : Exe.State) : Exe.State :=
  { e with
    aluResult1Out := a
    memWriteData1Out := v
    aluControl1Out := op.controls.aluControl
    memRead1Out := op.controls.memRead
    memWrite1Out := op.controls.memWrite }

section Address

variable {a : Word} {j : ℕ}

theorem toNat_memReadAddress (a : Word) : (memReadAddress a).toNat = a.toNat / 4 * 4 := by
  have ha := a.isLt
  rw [memReadAddress, BitVec.toNat_append, BitVec.extractLsb'_toNat, Nat.shiftRight_eq_div_pow,
    Nat.mod_eq_of_lt (by omega), Nat.shiftLeft_eq]
  simp

theorem memReadAddress_and (a : Word) : memReadAddress a &&& 0xfffffffc = memReadAddress a := by
  have hmask : ∀ b < 30, (0xfffffffc : Word).getLsbD (b + 2) = true := by decide
  apply BitVec.eq_of_getLsbD_eq
  intro b hb
  rw [BitVec.getLsbD_and]
  rcases Nat.lt_or_ge b 2 with h2 | h2
  · have hlow : (memReadAddress a).getLsbD b = false := by
      rw [memReadAddress, BitVec.getLsbD_append]
      simp [h2]
    rw [hlow, Bool.false_and]
  · obtain ⟨c, rfl⟩ : ∃ c, b = c + 2 := ⟨b - 2, by omega⟩
    rw [hmask c (by omega), Bool.and_true]

/-- The offset of an address in its word. -/
theorem offset_eq (h : a.toNat % 4 = j) : a.extractLsb' 0 2 = BitVec.ofNat 2 j := by
  apply BitVec.eq_of_toNat_eq
  simp [h]
  omega

/-- Byte `i` from `a` on, in the aligned word. -/
theorem memReadAddress_add (h : a.toNat % 4 = j) (i : ℕ) :
    memReadAddress a + BitVec.ofNat 32 (j + i) = a + BitVec.ofNat 32 i := by
  have ha := a.isLt
  apply BitVec.eq_of_toNat_eq
  simp only [BitVec.toNat_add, BitVec.toNat_ofNat, toNat_memReadAddress]
  omega

theorem memReadAddress_of_mod (h : a.toNat % 4 = 0) : memReadAddress a = a := by
  simpa using memReadAddress_add h 0

theorem mod_four_cases (a : Word) :
    a.toNat % 4 = 0 ∨ a.toNat % 4 = 1 ∨ a.toNat % 4 = 2 ∨ a.toNat % 4 = 3 := by omega

end Address

section Store

variable {op : MemOp} (m : MainMemory) (a v d held : Word)

/-- The bytes of a lane at the bottom of `data_write_2DM`. -/
theorem byteOf_lane {n k s i : ℕ} (x : BitVec n) (v : Word) (hi : i < k) (hs : s + k ≤ 4) :
    byteOf k (x ++ v.extractLsb' (8 * (4 - s - k)) (8 * k)) i = byteOf 4 v (s + i) := by
  rw [byteOf_append x _ hi le_rfl]
  exact byteOf_extractLsb' v hi rfl rfl hs

/-- The block that an access with these outputs writes. -/
theorem writeAccess_of_eq (out : Access) {x : Word} {k s : ℕ}
    (hout : out.memWriteAddress = x ∧ sizeBytes out.dataWriteSize2DM = k)
    (hbyte : ∀ i < k, byteOf k out.dataWrite2DM i = byteOf 4 v (s + i)) :
    writeAccess m out.memWriteAddress out.dataWriteSize2DM out.dataWrite2DM =
      put m x k fun i => byteOf 4 v (s + i) := by
  obtain ⟨rfl, rfl⟩ := hout
  rw [writeAccess_eq]
  exact put_congr hbyte

theorem writeAccess_swl :
    let out := access MemOp.swl.controls.aluControl a v d held
    writeAccess m out.memWriteAddress out.dataWriteSize2DM out.dataWrite2DM =
      put m a (4 - a.toNat % 4) fun i => byteOf 4 v (0 + i) := by
  intro out
  rcases mod_four_cases a with h | h | h | h
  · have hout : out = ⟨v, a, v, 0⟩ := by unfold out access; rw [offset_eq h]; rfl
    rw [hout, h]
    exact writeAccess_of_eq m v _ ⟨rfl, rfl⟩ fun i hi => by rw [Nat.zero_add]
  · have hout : out = ⟨v, a, held.extractLsb' 24 8 ++ v.extractLsb' 8 24, 3⟩ := by
      unfold out access; rw [offset_eq h]; rfl
    rw [hout, h]
    exact writeAccess_of_eq m v _ ⟨rfl, rfl⟩ fun i hi =>
      byteOf_lane (k := 3) (s := 0) (held.extractLsb' 24 8) v hi (by decide)
  · have hout : out = ⟨v, a, held.extractLsb' 16 16 ++ v.extractLsb' 16 16, 2⟩ := by
      unfold out access; rw [offset_eq h]; rfl
    rw [hout, h]
    exact writeAccess_of_eq m v _ ⟨rfl, rfl⟩ fun i hi =>
      byteOf_lane (k := 2) (s := 0) (held.extractLsb' 16 16) v hi (by decide)
  · have hout : out = ⟨v, a, held.extractLsb' 8 24 ++ v.extractLsb' 24 8, 1⟩ := by
      unfold out access; rw [offset_eq h]; rfl
    rw [hout, h]
    exact writeAccess_of_eq m v _ ⟨rfl, rfl⟩ fun i hi =>
      byteOf_lane (k := 1) (s := 0) (held.extractLsb' 8 24) v hi (by decide)

theorem writeAccess_swr :
    let out := access MemOp.swr.controls.aluControl a v d held
    writeAccess m out.memWriteAddress out.dataWriteSize2DM out.dataWrite2DM =
      put m (memReadAddress a) (a.toNat % 4 + 1)
        fun i => byteOf 4 v (4 - (a.toNat % 4 + 1) + i) := by
  intro out
  rcases mod_four_cases a with h | h | h | h
  · have hout : out = ⟨v, memReadAddress a, held.extractLsb' 8 24 ++ v.extractLsb' 0 8, 1⟩ := by
      unfold out access; rw [offset_eq h]; rfl
    rw [hout, h]
    exact writeAccess_of_eq m v _ ⟨rfl, rfl⟩ fun i hi =>
      byteOf_lane (k := 1) (s := 3) (held.extractLsb' 8 24) v hi (by decide)
  · have hout : out = ⟨v, memReadAddress a, held.extractLsb' 16 16 ++ v.extractLsb' 0 16, 2⟩ := by
      unfold out access; rw [offset_eq h]; rfl
    rw [hout, h]
    exact writeAccess_of_eq m v _ ⟨rfl, rfl⟩ fun i hi =>
      byteOf_lane (k := 2) (s := 2) (held.extractLsb' 16 16) v hi (by decide)
  · have hout : out = ⟨v, memReadAddress a, held.extractLsb' 24 8 ++ v.extractLsb' 0 24, 3⟩ := by
      unfold out access; rw [offset_eq h]; rfl
    rw [hout, h]
    exact writeAccess_of_eq m v _ ⟨rfl, rfl⟩ fun i hi =>
      byteOf_lane (k := 3) (s := 1) (held.extractLsb' 24 8) v hi (by decide)
  · have hout : out = ⟨v, memReadAddress a, v, 0⟩ := by unfold out access; rw [offset_eq h]; rfl
    rw [hout, h]
    exact writeAccess_of_eq m v _ ⟨rfl, rfl⟩ fun i hi => by rw [Nat.sub_self, Nat.zero_add]

/-- **The block a store writes**, whatever `data_write_2DM` held. -/
theorem writeAccess_access (h : op.controls.memWrite = true) :
    let out := access op.controls.aluControl a v d held
    writeAccess m out.memWriteAddress out.dataWriteSize2DM out.dataWrite2DM =
      put m (op.first a) (op.count a) fun i => byteOf 4 v (op.skip a + i) := by
  cases op with
  | sb =>
    exact writeAccess_of_eq m v ⟨v, a, held.extractLsb' 8 24 ++ v.extractLsb' 0 8, 1⟩
      ⟨rfl, rfl⟩ fun i hi =>
        byteOf_lane (k := 1) (s := 3) (held.extractLsb' 8 24) v hi (by decide)
  | sh =>
    exact writeAccess_of_eq m v ⟨v, a, held.extractLsb' 16 16 ++ v.extractLsb' 0 16, 2⟩
      ⟨rfl, rfl⟩ fun i hi =>
        byteOf_lane (k := 2) (s := 2) (held.extractLsb' 16 16) v hi (by decide)
  | sw =>
    exact writeAccess_of_eq m v ⟨v, a, v, 0⟩ ⟨rfl, rfl⟩
      fun i hi => congrArg (byteOf 4 v) (Nat.zero_add i).symm
  | swl => exact writeAccess_swl m a v d held
  | swr => exact writeAccess_swr m a v d held
  | _ => exact absurd h (by decide)

end Store

section Cycle

/-- No instruction both loads and stores. -/
theorem not_memWrite_of_memRead {op : MemOp} (h : op.controls.memRead = true) :
    op.controls.memWrite = false := by
  cases op with
  | sb | sh | sw | swl | swr => exact absurd h (by decide)
  | _ => rfl

variable {op : MemOp} (a v : Word) (e : Exe.State) (s : State)

/-- **A store writes its block** and nothing else; a cycle without one leaves the
memory. -/
theorem mainMemory_store (h : op.controls.memWrite = true) :
    (cycle (handOn op a v e) s).mainMemory =
      put s.mainMemory (op.first a) (op.count a) fun i => byteOf 4 v (op.skip a + i) := by
  have hpass (s : State) : (memoryAccesses (handOn op a v e) s).mainMemory =
      put s.mainMemory (op.first a) (op.count a) fun i => byteOf 4 v (op.skip a + i) := by
    have haddr : dataAddress2DM (handOn op a v e) s.dataReadFDM s.mem =
        (accessOf (handOn op a v e) s.dataReadFDM s.mem).memWriteAddress := if_pos h
    show (if op.controls.memWrite = true then writeAccess s.mainMemory
      (dataAddress2DM (handOn op a v e) s.dataReadFDM s.mem) _ _ else _) = _
    rw [if_pos h, haddr]
    exact writeAccess_access s.mainMemory a v s.dataReadFDM s.mem.dataWrite2DM h
  show (memoryAccesses _ (evalFalling _ (memoryAccesses _ s))).mainMemory = _
  rw [hpass]
  show put (memoryAccesses _ s).mainMemory _ _ _ = _
  rw [hpass, put_put_self]

/-- A cycle without a store leaves the memory. -/
theorem mainMemory_of_not_memWrite {e : Exe.State} (h : e.memWrite1Out = false) :
    (cycle e s).mainMemory = s.mainMemory := by
  have hpass (s : State) : (memoryAccesses e s).mainMemory = s.mainMemory := by
    show (if e.memWrite1Out = true then _ else _) = _
    rw [h, if_neg Bool.false_ne_true]
  exact (hpass _).trans (hpass s)

/-- What a load returns does not depend on `data_write_2DM`. -/
theorem dataReadAligned_held (h : op.controls.memRead = true) (d held held' : Word) :
    (access op.controls.aluControl a v d held).dataReadAligned =
      (access op.controls.aluControl a v d held').dataReadAligned := by
  cases op with
  | sb | sh | sw | swl | swr => exact absurd h (by decide)
  | _ => rfl

/-- **A load hands the word at the aligned address to the lanes.** -/
theorem writeData1Out_load (h : op.controls.memRead = true) :
    (cycle (handOn op a v e) s).mem.writeData1Out =
      (access op.controls.aluControl a v (readWord s.mainMemory (memReadAddress a))
        0).dataReadAligned := by
  have hw : op.controls.memWrite = false := not_memWrite_of_memRead h
  have haddr (d : Word) (t : Mem.State) :
      dataAddress2DM (handOn op a v e) d t = memReadAddress a :=
    if_neg (by show ¬op.controls.memWrite = true; rw [hw]; exact Bool.false_ne_true)
  have hread (s : State) : (memoryAccesses (handOn op a v e) s).dataReadFDM =
      readWord s.mainMemory (memReadAddress a) := by
    show (if op.controls.memRead = true then readWord s.mainMemory
      (dataAddress2DM (handOn op a v e) s.dataReadFDM s.mem &&& 0xfffffffc) else _) = _
    rw [if_pos h, haddr, memReadAddress_and]
  have hmem : (memoryAccesses (handOn op a v e) s).mainMemory = s.mainMemory := by
    show (if op.controls.memWrite = true then _ else _) = _
    rw [hw, if_neg Bool.false_ne_true]
  show (if op.controls.memRead = true then (access op.controls.aluControl a v
    (memoryAccesses _ (evalFalling _ (memoryAccesses _ s))).dataReadFDM _).dataReadAligned
      else _) = _
  rw [if_pos h, hread]
  show (access _ a v (readWord (memoryAccesses _ s).mainMemory _) _).dataReadAligned = _
  rw [hmem]
  exact dataReadAligned_held a v h _ _ 0

end Cycle

end Sim
end OooProcessor
