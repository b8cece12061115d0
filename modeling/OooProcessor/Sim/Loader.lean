/-
# Loading an executable

`LoadOSMemoryELF` of `sim_main/sm_elfload.cpp` from the point at which the file is
mapped, and `init_syscalls` and `fill_syscall_redirects` of `sim_main/sm_syscalls.cpp`:
the segments of the file go to `MAIN_MEMORY`, and system calls are written over the
functions of the operating system that its symbols name.  What is printed is left out,
as are `BRK_ADDRESS`, which nobody uses, and `hex_str_to_uint32` and `functionBypass`,
which nobody calls.  `NO_EMULATE_LL_SC` is not defined.

Every write of the two steps is a block of bytes (`loadSegments_eq`,
`fillSyscallRedirects_eq`).
-/

import OooProcessor.Sim.Elf
import OooProcessor.Sim.Memory
import Mathlib.Data.List.GetD

namespace OooProcessor
namespace Sim

/-- A pointer to a field of `syscalls`. -/
inductive SyscallAddress
  | libcOpen | libcRead | exit | munmap | geteuid | getuid | uname | getpid | getgid | getegid
  | libcMalloc | cfree | fxstat64 | mmap | libcWrite | cxxExAndAdd | cxxAtomicAdd
  deriving DecidableEq

/-- `init_syscalls` -/
def initSyscalls : SyscallAddress → Word
  | .cxxExAndAdd => 0xFFFFFFE0
  | .cxxAtomicAdd => 0xFFFFFFE0
  | _ => 0xFFFFFFF0

def fillSyscall (m : MainMemory) (address : Word) (call : BitVec 16) : MainMemory :=
  let m := writeWord m (address + 0x0) (0x24020000 ||| call.setWidth 32)
  let m := writeWord m (address + 0x4) 0xc
  let m := writeWord m (address + 0x8) 0x03e00008
  writeWord m (address + 0xc) 0x0

def fillExAndAdd (m : MainMemory) (address : Word) : MainMemory :=
  let m := writeWord m (address + 0x00) 0x8c820000
  let m := writeWord m (address + 0x04) 0x00000000
  let m := writeWord m (address + 0x08) 0x00a21821
  let m := writeWord m (address + 0x0c) 0xac830000
  let m := writeWord m (address + 0x10) 0x03e00008
  writeWord m (address + 0x14) 0x24030001

def fillAtomicAdd (m : MainMemory) (address : Word) : MainMemory :=
  let m := writeWord m (address + 0x00) 0x8c820000
  let m := writeWord m (address + 0x04) 0x00000000
  let m := writeWord m (address + 0x08) 0x00a21021
  let m := writeWord m (address + 0x0c) 0xac820000
  let m := writeWord m (address + 0x10) 0x03e00008
  writeWord m (address + 0x14) 0x24020001

/-- `fill_syscall_redirects`, with `EMULATE_LLSC`. -/
def fillSyscallRedirects (emulateLLSC : Bool) (syscalls : SyscallAddress → Word)
    (m : MainMemory) : MainMemory :=
  let m := fillSyscall m (syscalls .cfree) 4091
  let m := fillSyscall m (syscalls .exit) 4001
  let m := fillSyscall m (syscalls .fxstat64) 4028
  let m := fillSyscall m (syscalls .libcMalloc) 4555
  let m := fillSyscall m (syscalls .libcOpen) 4005
  let m := fillSyscall m (syscalls .libcRead) 4003
  let m := fillSyscall m (syscalls .libcWrite) 4004
  let m := fillSyscall m (syscalls .mmap) 4090
  let m := fillSyscall m (syscalls .munmap) 4091
  let m := fillSyscall m (syscalls .uname) 4122
  if emulateLLSC then
    let m := fillExAndAdd m (syscalls .cxxExAndAdd)
    fillAtomicAdd m (syscalls .cxxAtomicAdd)
  else m

/-- `exeFormat.function_pointers` -/
def functionPointers : List (String × SyscallAddress) :=
  [("__uname", .uname),
    ("__libc_malloc", .libcMalloc),
    ("__cfree", .cfree),
    ("__fxstat64", .fxstat64),
    ("__mmap", .mmap),
    ("__libc_write", .libcWrite),
    ("__munmap", .libcWrite),
    ("__libc_read", .libcWrite),
    ("__libc_open", .libcOpen),
    ("_ZN9__gnu_cxx18__exchange_and_addEPVii", .cxxExAndAdd),
    ("_ZN9__gnu_cxx12__atomic_addEPVii", .cxxAtomicAdd)]

/-- The bytes of a segment, one by one. -/
def loadSegment (d : ElfData) (m : MainMemory) (seg : ExeSegment) : MainMemory :=
  (List.range seg.lengthInFile.toNat).foldl
    (fun m j => Function.update m (BitVec.ofNat 32 j + seg.startAddress)
      (d (BitVec.ofNat 32 j + seg.offsetInFile).toNat)) m

def loadSegments (d : ElfData) (m : MainMemory) (segmentList : List ExeSegment) : MainMemory :=
  segmentList.foldl (loadSegment d) m

/-- `execinfo` -/
structure ExecInfo where
  gsp : Word
  gra : Word
  gpcStart : Word
  heapStart : Word
  breakStart : Word
  gp : Option Word

/-- What a program starts with. -/
structure Loaded where
  exec : ExecInfo
  syscalls : SyscallAddress → Word
  mainMemory : MainMemory

/-- `LoadOSMemoryELF` -/
def loadOSMemoryELF (emulateLLSC : Bool) (d : ElfData) (m : MainMemory) : Except Stop Loaded :=
  match parseElf functionPointers d initSyscalls with
  | .error e => .error e
  | .ok (exeFormat, syscalls) =>
    let m := loadSegments d m exeFormat.segmentList
    .ok
      { exec :=
          { gpcStart := exeFormat.entryAddr
            breakStart := 0x80000000
            heapStart := 0xC0000000
            gsp := 0xf7021fc0
            gra := 0x1006a244
            gp := exeFormat.globalPointer }
        syscalls
        mainMemory := fillSyscallRedirects emulateLLSC syscalls m }

section Blocks

open Lib

variable {m : MainMemory} {a : Word}

/-- The bytes of words, one word after another. -/
def wordsByte (ws : List Word) (i : ℕ) : BitVec 8 := byteOf 4 (ws.getD (i / 4) 0) (i % 4)

/-- `fill_syscall` -/
def stub (call : BitVec 16) : List Word := [0x24020000 ||| call.setWidth 32, 0xc, 0x03e00008, 0x0]

/-- `fill_ex_and_add` -/
def exAndAdd : List Word :=
  [0x8c820000, 0x00000000, 0x00a21821, 0xac830000, 0x03e00008, 0x24030001]

/-- `fill_atomic_add` -/
def atomicAdd : List Word :=
  [0x8c820000, 0x00000000, 0x00a21021, 0xac820000, 0x03e00008, 0x24020001]

/-- The words from an address on. -/
def wordsAt (a : Word) (ws : List Word) : Patch 32 := ⟨a, 4 * ws.length, wordsByte ws⟩

/-- Write words one after another. -/
def writeWords (m : MainMemory) (a : Word) (ws : List Word) : MainMemory :=
  (List.range ws.length).foldl
    (fun m k => writeWord m (a + BitVec.ofNat 32 (4 * k)) (ws.getD k 0)) m

/-- **Words one after another are a block.** -/
theorem writeWords_eq (ws : List Word) (hlen : 4 * ws.length ≤ 2 ^ 32) :
    writeWords m a ws = put m a (4 * ws.length) (wordsByte ws) := by
  have hall : ∀ n, 4 * n ≤ 2 ^ 32 → (List.range n).foldl
      (fun m k => writeWord m (a + BitVec.ofNat 32 (4 * k)) (ws.getD k 0)) m =
        put m a (4 * n) (wordsByte ws) := by
    intro n hn
    induction n with
    | zero =>
      funext x
      exact (put_of_le (Nat.zero_le _)).symm
    | succ n ih =>
      rw [List.range_succ, List.foldl_append, List.foldl_cons, List.foldl_nil, ih (by omega),
        writeWord_eq, put_put (4 * n) 4 (by omega), Nat.mul_succ]
      refine put_congr fun i hi => ?_
      split_ifs with hlt
      · rfl
      · rw [wordsByte, show i / 4 = n by omega, show i % 4 = i - 4 * n by omega]
  exact hall ws.length hlen

/-- Words behind words. -/
theorem writeWords_append (ws ws' : List Word) : writeWords m a (ws ++ ws') =
    writeWords (writeWords m a ws) (a + BitVec.ofNat 32 (4 * ws.length)) ws' := by
  have hfirst : (List.range ws.length).foldl (fun m k =>
      writeWord m (a + BitVec.ofNat 32 (4 * k)) ((ws ++ ws').getD k 0)) m = writeWords m a ws := by
    refine List.foldl_ext _ _ m fun m k hk => ?_
    rw [List.getD_append _ _ _ _ (List.mem_range.mp hk)]
  have hoff (k : ℕ) : a + BitVec.ofNat 32 (4 * (ws.length + k)) =
      a + BitVec.ofNat 32 (4 * ws.length) + BitVec.ofNat 32 (4 * k) := by
    rw [BitVec.add_assoc, ← BitVec.ofNat_add, Nat.mul_add]
  have hget (k : ℕ) : (ws ++ ws').getD (ws.length + k) 0 = ws'.getD k 0 := by
    rw [List.getD_append_right _ _ _ _ (Nat.le_add_right ..), Nat.add_sub_cancel_left]
  rw [writeWords, List.length_append, List.range_add, List.foldl_append, hfirst,
    List.foldl_map, writeWords]
  exact List.foldl_ext _ _ _ fun m k _ => by rw [hoff, hget]

theorem fillSyscall_eq (call : BitVec 16) : fillSyscall m a call =
    put m a 16 (wordsByte (stub call)) :=
  writeWords_eq (stub call) (show 4 * 4 ≤ 2 ^ 32 by decide)

theorem fillExAndAdd_eq : fillExAndAdd m a = put m a 24 (wordsByte exAndAdd) :=
  writeWords_eq exAndAdd (by decide)

theorem fillAtomicAdd_eq : fillAtomicAdd m a = put m a 24 (wordsByte atomicAdd) :=
  writeWords_eq atomicAdd (by decide)

/-- What `fill_syscall_redirects` writes, and where to. -/
def redirects (emulateLLSC : Bool) : List (SyscallAddress × List Word) :=
  [(.cfree, stub 4091), (.exit, stub 4001), (.fxstat64, stub 4028), (.libcMalloc, stub 4555),
    (.libcOpen, stub 4005), (.libcRead, stub 4003), (.libcWrite, stub 4004), (.mmap, stub 4090),
    (.munmap, stub 4091), (.uname, stub 4122)] ++
  if emulateLLSC then [(.cxxExAndAdd, exAndAdd), (.cxxAtomicAdd, atomicAdd)] else []

/-- **The blocks that `fill_syscall_redirects` writes.** -/
theorem fillSyscallRedirects_eq (emulateLLSC : Bool) (syscalls : SyscallAddress → Word) :
    fillSyscallRedirects emulateLLSC syscalls m =
      patchAll m ((redirects emulateLLSC).map fun r => wordsAt (syscalls r.1) r.2) := by
  simp only [fillSyscallRedirects, fillSyscall_eq, fillExAndAdd_eq, fillAtomicAdd_eq]
  cases emulateLLSC <;> rfl

/-- Where a segment goes. -/
def ExeSegment.patch (d : ElfData) (seg : ExeSegment) : Patch 32 :=
  ⟨seg.startAddress, seg.lengthInFile.toNat,
    fun i => d (BitVec.ofNat 32 i + seg.offsetInFile).toNat⟩

/-- **What the segments hold** goes to the memory, a later segment over an earlier. -/
theorem loadSegments_eq (d : ElfData) (segmentList : List ExeSegment) :
    loadSegments d m segmentList = patchAll m (segmentList.map (ExeSegment.patch d)) := by
  have hseg (m : MainMemory) (seg : ExeSegment) : loadSegment d m seg =
      put m (seg.patch d).addr (seg.patch d).len (seg.patch d).byte := by
    have hall : ∀ n ≤ 2 ^ 32, (List.range n).foldl
        (fun m j => Function.update m (BitVec.ofNat 32 j + seg.startAddress)
          (d (BitVec.ofNat 32 j + seg.offsetInFile).toNat)) m =
            put m seg.startAddress n (seg.patch d).byte := by
      intro n hn
      induction n with
      | zero =>
        funext x
        exact (put_of_le (Nat.zero_le _)).symm
      | succ n ih =>
        rw [List.range_succ, List.foldl_append, List.foldl_cons, List.foldl_nil, ih (by omega),
          BitVec.add_comm (BitVec.ofNat 32 n) seg.startAddress]
        exact update_put m seg.startAddress (by omega) (seg.patch d).byte
    exact hall _ seg.lengthInFile.isLt.le
  rw [patchAll, List.foldl_map, loadSegments]
  exact congrArg (fun f => List.foldl f m segmentList) (funext fun m => funext (hseg m))

end Blocks

section Words

open Lib

variable (m : MainMemory) (a v : Word)

/-- A word is its bytes. -/
theorem readWord_eq_iff :
    readWord m a = v ↔ ∀ i < 4, m (a + BitVec.ofNat 32 i) = byteOf 4 v i := by
  constructor
  · rintro rfl i hi
    exact (byteOf_readWord m a hi).symm
  · intro h
    refine eq_of_byteOf (k := 4) fun i hi => ?_
    rw [byteOf_readWord m a hi, h i hi]

/-- The words that stand at an address. -/
def Stands (m : MainMemory) (a : Word) (ws : List Word) : Prop :=
  ∀ k < ws.length, readWord m (a + BitVec.ofNat 32 (4 * k)) = ws.getD k 0

/-- Words stand at an address if their bytes do. -/
theorem stands_iff {ws : List Word} : Stands m a ws ↔
    ∀ i < 4 * ws.length, m (a + BitVec.ofNat 32 i) = wordsByte ws i := by
  have hword (k : ℕ) := readWord_eq_iff m (a + BitVec.ofNat 32 (4 * k)) (ws.getD k 0)
  have hoff (k i : ℕ) : a + BitVec.ofNat 32 (4 * k) + BitVec.ofNat 32 i =
      a + BitVec.ofNat 32 (4 * k + i) := by
    rw [BitVec.add_assoc, ← BitVec.ofNat_add]
  constructor
  · intro h i hi
    have hbyte := (hword (i / 4)).mp (h (i / 4) (by omega)) (i % 4) (by omega)
    rwa [hoff, Nat.div_add_mod] at hbyte
  · intro h k hk
    refine (hword k).mpr fun i hi => ?_
    rw [hoff, h _ (by omega), wordsByte, show (4 * k + i) / 4 = k by omega,
      show (4 * k + i) % 4 = i by omega]

end Words

end Sim
end OooProcessor
