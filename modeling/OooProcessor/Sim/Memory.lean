/-
# The memory of the simulator

`sim_main/sm_memory.cpp`, and the memory accesses of `main` in
`sim_main/sim_main.cpp`.  `MAIN_MEMORY` is a map that reads 0 where nothing has been
written; addresses are `int`, that is, modulo `2^32`.  The log is left out.

`main` looks at the outputs of MEM before each of the two evaluations of a clock
cycle, so that one instruction in EXE's output registers is carried out twice.
-/

import OooProcessor.Lib.ByteMemory
import OooProcessor.Rtl.Mem

namespace OooProcessor
namespace Sim

/-- `MAIN_MEMORY` -/
abbrev MainMemory := Lib.Memory 32

def readWord (m : MainMemory) (location : Word) : Word :=
  let val : Word := 0
  let val := val + (m (location + 0)).setWidth 32
  let val := val <<< 8
  let val := val + (m (location + 1)).setWidth 32
  let val := val <<< 8
  let val := val + (m (location + 2)).setWidth 32
  let val := val <<< 8
  val + (m (location + 3)).setWidth 32

def writeByte (m : MainMemory) (location : Word) (val : BitVec 8) : MainMemory :=
  Function.update m location val

def writeHalfWord (m : MainMemory) (location : Word) (val : BitVec 16) : MainMemory :=
  let m := Function.update m location ((val >>> 8).setWidth 8)
  Function.update m (location + 1) ((val &&& 0xff).setWidth 8)

def writeWord (m : MainMemory) (location : Word) (val : Word) : MainMemory :=
  let m := Function.update m location ((val >>> 24).setWidth 8)
  let m := Function.update m (location + 1) ((val >>> 16 &&& 0xff).setWidth 8)
  let m := Function.update m (location + 2) ((val >>> 8 &&& 0xffff).setWidth 8)
  Function.update m (location + 3) ((val &&& 0xffffff).setWidth 8)

/-- `switch(top->data_write_size_2DM)` -/
def writeAccess (m : MainMemory) (address : Word) (size : BitVec 2) (data : Word) : MainMemory :=
  match size with
  | 0 => writeWord m address data
  | 1 => writeByte m address (data.setWidth 8)
  | 2 => writeHalfWord m address (data.setWidth 16)
  | _ =>
    let m := writeByte m address ((data >>> 16).setWidth 8)
    writeHalfWord m (address + 1) ((data &&& 0xffff).setWidth 16)

/-- The memory, `data_read_fDM`, and the state of MEM. -/
structure State where
  mainMemory : MainMemory
  dataReadFDM : Word
  mem : Mem.State

/-- The memory accesses of one pass of the main loop, with `e` in EXE's registers. -/
def memoryAccesses (e : Exe.State) (s : State) : State :=
  let out := Mem.accessOf e s.dataReadFDM s.mem
  let address := Mem.dataAddress2DM e s.dataReadFDM s.mem
  { s with
    dataReadFDM :=
      if e.memRead1Out then readWord s.mainMemory (address &&& 0xfffffffc) else s.dataReadFDM
    mainMemory :=
      if e.memWrite1Out then
        writeAccess s.mainMemory address out.dataWriteSize2DM out.dataWrite2DM
      else s.mainMemory }

/-- `top->eval()` on the falling edge: of what MEM keeps only `data_write_2DM` is
assigned. -/
def evalFalling (e : Exe.State) (s : State) : State :=
  { s with mem :=
      { s.mem with dataWrite2DM := (Mem.accessOf e s.dataReadFDM s.mem).dataWrite2DM } }

/-- `top->eval()` on the rising edge. -/
def evalRising (e : Exe.State) (s : State) : State :=
  { s with mem := Mem.posedge e s.dataReadFDM s.mem }

/-- The clock cycle in which `e` is in EXE's registers. -/
def cycle (e : Exe.State) (s : State) : State :=
  evalRising e (memoryAccesses e (evalFalling e (memoryAccesses e s)))

section Bytes

open Lib

variable (m : MainMemory) (location : Word)

theorem toNat_setWidth_byte (b : BitVec 8) : (b.setWidth 32).toNat = b.toNat := by
  rw [BitVec.toNat_setWidth, Nat.mod_eq_of_lt (by have := b.isLt; omega)]

/-- A word is read most significant byte first. -/
theorem readWord_eq : readWord m location =
    BitVec.ofNat 32 (number (fun i => m (location + BitVec.ofNat 32 i)) 4) := by
  apply BitVec.eq_of_toNat_eq
  have h0 := (m (location + 0)).isLt
  have h1 := (m (location + 1)).isLt
  have h2 := (m (location + 2)).isLt
  have h3 := (m (location + 3)).isLt
  have hz : (0 : Word).toNat = 0 := rfl
  have hn : number (fun i => m (location + BitVec.ofNat 32 i)) 4 =
      256 * (256 * (256 * (256 * 0 + (m (location + 0)).toNat) + (m (location + 1)).toNat) +
        (m (location + 2)).toNat) + (m (location + 3)).toNat := rfl
  simp only [readWord, BitVec.toNat_add, BitVec.toNat_shiftLeft, toNat_setWidth_byte,
    Nat.shiftLeft_eq, BitVec.toNat_ofNat, hn, hz]
  omega

/-- The bytes of the word read are the bytes there. -/
theorem byteOf_readWord {i : ℕ} (hi : i < 4) :
    byteOf 4 (readWord m location) i = m (location + BitVec.ofNat 32 i) := by
  rw [readWord_eq]
  exact byteOf_ofNat_number hi (by decide)

/-- A byte shifted out and masked. -/
theorem setWidth_and_eq {n : ℕ} (v : BitVec n) (s : ℕ) (mask : BitVec n)
    (hmask : ∀ b < 8, mask.getLsbD b = true) :
    (v >>> s &&& mask).setWidth 8 = v.extractLsb' s 8 := by
  apply BitVec.eq_of_getLsbD_eq
  intro b hb
  simp [hb, hmask b hb]

theorem setWidth_eq_extractLsb' {n : ℕ} (v : BitVec n) (s : ℕ) :
    (v >>> s).setWidth 8 = v.extractLsb' s 8 := by
  apply BitVec.eq_of_getLsbD_eq
  intro b hb
  simp [hb]

/-- Updates of consecutive bytes are one block. -/
theorem update_put {k : ℕ} (hk : k < 2 ^ 32) (f : ℕ → BitVec 8) :
    Function.update (put m location k f) (location + BitVec.ofNat 32 k) (f k) =
      put m location (k + 1) f := by
  have h := put_one (m := put m location k f) (a := location + BitVec.ofNat 32 k) fun i => f (i + k)
  rw [Nat.zero_add] at h
  rw [← h, put_put k 1 (by omega)]
  refine put_congr fun i hi => ?_
  split_ifs with hlt
  · rfl
  · rw [Nat.sub_add_cancel (by omega)]

theorem writeByte_eq (val : BitVec 8) :
    writeByte m location val = put m location 1 (byteOf 1 val) := by
  rw [put_one, writeByte]
  congr 1
  exact BitVec.extractLsb'_eq_self.symm

/-- A half word, byte by byte. -/
theorem writeHalfWord_eq_updates (val : BitVec 16) : writeHalfWord m location val =
    Function.update (Function.update m location (byteOf 2 val 0)) (location + 1)
      (byteOf 2 val 1) := by
  have h0 : (val >>> 8).setWidth 8 = byteOf 2 val 0 := setWidth_eq_extractLsb' val 8
  have h1 : (val &&& 0xff).setWidth 8 = byteOf 2 val 1 :=
    setWidth_and_eq val 0 0xff (by decide)
  rw [writeHalfWord, h0, h1]

/-- A word, byte by byte. -/
theorem writeWord_eq_updates (val : Word) : writeWord m location val =
    Function.update (Function.update (Function.update (Function.update m location
      (byteOf 4 val 0)) (location + 1) (byteOf 4 val 1)) (location + 2) (byteOf 4 val 2))
        (location + 3) (byteOf 4 val 3) := by
  have h0 : (val >>> 24).setWidth 8 = byteOf 4 val 0 := setWidth_eq_extractLsb' val 24
  have h1 : (val >>> 16 &&& 0xff).setWidth 8 = byteOf 4 val 1 :=
    setWidth_and_eq val 16 0xff (by decide)
  have h2 : (val >>> 8 &&& 0xffff).setWidth 8 = byteOf 4 val 2 :=
    setWidth_and_eq val 8 0xffff (by decide)
  have h3 : (val &&& 0xffffff).setWidth 8 = byteOf 4 val 3 :=
    setWidth_and_eq val 0 0xffffff (by decide)
  rw [writeWord, h0, h1, h2, h3]

theorem writeHalfWord_eq (val : BitVec 16) :
    writeHalfWord m location val = put m location 2 (byteOf 2 val) := by
  rw [writeHalfWord_eq_updates, ← put_one (byteOf 2 val)]
  exact update_put m location (by decide) (byteOf 2 val)

theorem writeWord_eq (val : Word) : writeWord m location val = put m location 4 (byteOf 4 val) := by
  have hput (k : ℕ) (hk : k < 2 ^ 32) := update_put m location hk (byteOf 4 val)
  rw [writeWord_eq_updates, ← put_one (byteOf 4 val)]
  calc Function.update (Function.update (Function.update (put m location 1 (byteOf 4 val))
          (location + 1) (byteOf 4 val 1)) (location + 2) (byteOf 4 val 2))
        (location + 3) (byteOf 4 val 3)
      = Function.update (Function.update (put m location 2 (byteOf 4 val))
          (location + 2) (byteOf 4 val 2)) (location + 3) (byteOf 4 val 3) := by
        rw [← hput 1 (by decide)]; rfl
    _ = Function.update (put m location 3 (byteOf 4 val)) (location + 3) (byteOf 4 val 3) := by
        rw [← hput 2 (by decide)]; rfl
    _ = put m location 4 (byteOf 4 val) := hput 3 (by decide)

/-- How many bytes a size code stands for. -/
def sizeBytes (size : BitVec 2) : ℕ := if size = 0 then 4 else size.toNat

/-- **A write puts the low bytes** of the data there, as many as its size says. -/
theorem writeAccess_eq (size : BitVec 2) (data : Word) : writeAccess m location size data =
    put m location (sizeBytes size) (byteOf (sizeBytes size) data) := by
  have hsize : size = 0 ∨ size = 1 ∨ size = 2 ∨ size = 3 := by
    revert size
    decide
  rcases hsize with rfl | rfl | rfl | rfl
  · exact writeWord_eq m location data
  · rw [← put_congr fun i hi => byteOf_setWidth data hi le_rfl]
    exact writeByte_eq m location _
  · rw [← put_congr fun i hi => byteOf_setWidth data hi le_rfl]
    exact writeHalfWord_eq m location _
  · show writeHalfWord (writeByte m location _) (location + BitVec.ofNat 32 1) _ = _
    rw [writeByte_eq, writeHalfWord_eq, put_put 1 2 (by decide)]
    refine put_congr fun i hi => ?_
    split_ifs with h1
    · obtain rfl : i = 0 := by omega
      exact BitVec.extractLsb'_eq_self.trans (setWidth_eq_extractLsb' data 16)
    · have hmask : (data &&& 0xffff).setWidth 16 = data.setWidth 16 := by
        apply BitVec.eq_of_getLsbD_eq
        intro b hb
        have hone : ∀ b < 16, (0xffff : Word).getLsbD b = true := by decide
        simp only [BitVec.getLsbD_setWidth, BitVec.getLsbD_and, hone b hb, Bool.and_true]
      rw [hmask, byteOf_setWidth data (by omega) le_rfl, byteOf, byteOf,
        show 2 - 1 - (i - 1) = sizeBytes 3 - 1 - i by rw [sizeBytes]; simp; omega]

end Bytes

end Sim
end OooProcessor
