/-
# The system calls of the simulator

The switch of `main` in `sim_main/sim_main.cpp` on the number in `$2`, with `fxstat64` and
`sm_uname` of `sim_main/sm_syscalls.cpp`.  What a call asks of the host's own kernel is a
parameter (`HostCalls`).  A run that a call ends stays as it is: `main` exits, returns, or
reads outside of its tables.  What `main` logs is left out, as are the display and the
`utsname` for a modern C library.

No call writes `$0` (`sparesZero_switch`), so that what is said of the main loop with any
handler is true of the one with these calls.
-/

import OooProcessor.Sim.Break
import OooProcessor.Sim.Heap
import OooProcessor.Sim.ReadCall
import OooProcessor.Sim.Refinement

namespace OooProcessor
namespace Sim

open Lib Heap

/-- How a run ends. -/
inductive Ended
  | exit (status : Word)
  | unallocated (addr : Word)
  | unimplemented (syscallIndex : Word)
  | undefined
  deriving DecidableEq

/-- What the simulator keeps for its program. -/
structure Os where
  fdtFilename : List String
  fdtState : List Word
  fileDescriptorIndex : Word
  stdin : List (BitVec 8)
  output : Stream → List (BitVec 8)
  created : String → Bool
  heap : Heap
  currentBreak : Word
  ended : Option Ended

/-- What `main` starts with, for some input and files. -/
def Os.init (stdin : List (BitVec 8)) (output : Stream → List (BitVec 8)) : Os where
  fdtFilename := ["stdin", "stdout", "stderr"]
  fdtState := [0, 0, 0]
  fileDescriptorIndex := 3
  stdin := stdin
  output := output
  created _ := false
  heap := Heap.init
  currentBreak := 0
  ended := none

/-- The calls that `main` hands to its own kernel. -/
inductive HostCall
  | getpid | getuid | getgid | geteuid | getegid | getppid | getpgrp | getrlimit | getrusage
  | gettimeofday | getpgid
  deriving DecidableEq

/-- The cases of the switch. -/
inductive Syscall
  | exit | readFile | writeToFile | openFile | closeFile | stat | fStat | kill | brk | mMap
  | munmap | uname | malloc
  | hostCall (call : HostCall)
  deriving DecidableEq

def syscalls : List (Word × Syscall) :=
  [(4246, .exit), (4001, .exit), (4003, .readFile), (4004, .writeToFile), (4005, .openFile),
    (4006, .closeFile), (4018, .stat), (4020, .hostCall .getpid), (4024, .hostCall .getuid),
    (4028, .fStat), (4037, .kill), (4045, .brk), (4047, .hostCall .getgid),
    (4049, .hostCall .geteuid), (4050, .hostCall .getegid), (4064, .hostCall .getppid),
    (4065, .hostCall .getpgrp), (4076, .hostCall .getrlimit), (4077, .hostCall .getrusage),
    (4078, .hostCall .gettimeofday), (4090, .mMap), (4091, .munmap), (4122, .uname),
    (4132, .hostCall .getpgid), (4555, .malloc)]

/-- What the host's kernel answers. -/
structure HostCalls where
  disk : Disk
  syscall : HostCall → Word
  kill : Word → Word → Word
  stat : Os → String → Word
  fstat : Os → Word → Word

/-- A kernel that answers everything with 0. -/
def HostCalls.silent : HostCalls where
  disk := .plain
  syscall _ := 0
  kill _ _ := 0
  stat _ _ := 0
  fstat _ _ := 0

/-- `loadSingleHEX` of words, one after another. -/
def loadAll (entries : List (String × Word)) (sp : Word) (m : MainMemory) : MainMemory :=
  entries.foldl (fun m e => loadSingleHEXString m e.1.toList (sp + e.2) 0) m

/-- `fxstat64` -/
def fxstat64 : Word → MainMemory → MainMemory :=
  loadAll
    [("00000009", 32), ("00000000", 48), ("00000002", 52), ("00002190", 56), ("00000001", 60),
      ("00001fb3", 64), ("00000005", 68), ("00008800", 72), ("00000000", 88), ("00000000", 92),
      ("00000400", 120), ("00000000", 128), ("00000000", 132)]

/-- What `sm_uname` loads, and where to. -/
def unameWords : List (String × Word) :=
  [("6d697073", 348), ("32000000", 316), ("20323030", 312), ("20434454", 308),
    ("353a3239", 304), ("31363a30", 300), ("6e203420", 296), ("65204a75", 292),
    ("50205475", 288), ("3120534d", 284), ("00000023", 280), ("342e3138", 220),
    ("0000322e", 216), ("63000000", 156), ("00736573", 152), ("78000000", 96),
    ("4c696e75", 92), ("53657363", 88)]

/-- `sm_uname` -/
def smUname : Word → MainMemory → MainMemory := loadAll unameWords

/-- The loop that reads a file name; `none` if it has not ended after that many turns. -/
def filenameAt (m : MainMemory) : ℕ → Word → Option (List (BitVec 8))
  | 0, _ => none
  | fuel + 1, k => if m k = 0 then some [] else (filenameAt m fuel (k + 1)).map (m k :: ·)

/-- A `std::string` of these bytes. -/
def stringOf (bytes : List (BitVec 8)) : String :=
  String.ofList (bytes.map fun b => Char.ofNat b.toNat)

/-- What a call writes to registers, and what it leaves. -/
abbrev Reply := List (Reg × Word) × MainMemory × Os

/-- The file calls' view, with every register in its own place. -/
def hostOf (disk : Disk) (regs : Reg → Word) (m : MainMemory) (os : Os) : Host where
  disk := disk
  mainMemory := m
  rrat r := r.castLE (by omega)
  physReg t := regs (Fin.ofNat 32 t)
  fdtFilename := os.fdtFilename
  fdtState := os.fdtState
  stdin := os.stdin
  output := os.output
  created := os.created

/-- The tables as such a call leaves them. -/
def Os.withFiles (os : Os) (h : Host) : Os :=
  { os with
    fdtFilename := h.fdtFilename
    fdtState := h.fdtState
    stdin := h.stdin
    output := h.output
    created := h.created }

/-- What such a call returns and leaves. -/
def fileCall (disk : Disk) (call : Host → Option Host) (regs : Reg → Word) (m : MainMemory)
    (os : Os) : Except Ended Reply :=
  match call (hostOf disk regs m os) with
  | none => .error .undefined
  | some h => .ok ([(2, readRegister h 2)], h.mainMemory, os.withFiles h)

/-- The file that a name stands for, and that `main` can open to write. -/
def Disk.Truncates (disk : Disk) (filename : String) (s : Stream) : Prop :=
  s = .file (disk.file filename) ∧ disk.opens s = true

instance (disk : Disk) (filename : String) (s : Stream) :
    Decidable (disk.Truncates filename s) := inferInstanceAs (Decidable (_ ∧ _))

/-- The tables with another file, which is empty if it could be opened. -/
def Os.opened (os : Os) (disk : Disk) (filename : String) : Os :=
  { os with
    fdtFilename := os.fdtFilename ++ [filename]
    fdtState := os.fdtState ++ [1]
    fileDescriptorIndex := os.fileDescriptorIndex + 1
    output := fun s => if disk.Truncates filename s then [] else os.output s
    created := fun name => os.created name || decide (disk.Truncates filename (.file name)) }

def openCall (disk : Disk) (regs : Reg → Word) (m : MainMemory) (os : Os) :
    Except Ended Reply :=
  match filenameAt m (2 ^ 32) (regs 4) with
  | none => .error .undefined
  | some bytes => .ok ([(2, os.fileDescriptorIndex)], m, os.opened disk (stringOf bytes))

def closeCall (regs : Reg → Word) (m : MainMemory) (os : Os) : Except Ended Reply :=
  if (regs 4).toNat < os.fdtState.length then
    .ok ([(2, 0)], m, { os with fdtState := os.fdtState.set (regs 4).toNat 0 })
  else .error .undefined

/-- `size` of the case 4090, a `uint32_t`. -/
def mMapSize (regs : Reg → Word) : Word :=
  let size := regs 5 * (1 + regs 4)
  if size < 32 then 32 else size

/-- `size` of the case 4555, an `int`. -/
def mallocSize (regs : Reg → Word) : Word :=
  let size := regs 4
  if size.slt 32 then 32 else size

/-- `mm_malloc` of the size a call computes. -/
def allocate (exec : ExecInfo) (size : Word) (m : MainMemory) (os : Os) : Except Ended Reply :=
  match mmMalloc exec.heapStart size os.heap with
  | none => .error .undefined
  | some (ans, heap) => .ok ([(2, ans)], m, { os with heap })

def freeCall (regs : Reg → Word) (m : MainMemory) (os : Os) : Except Ended Reply :=
  match mmFree (regs 4) os.heap with
  | none => .error .undefined
  | some .exited => .error (.unallocated (regs 4))
  | some (.returned heap) => .ok ([], m, { os with heap })

/-- A case of the switch. -/
def Syscall.reply (exec : ExecInfo) (host : HostCalls) (regs : Reg → Word) (m : MainMemory)
    (os : Os) : Syscall → Except Ended Reply
  | .exit => .error (.exit (regs 4))
  | .readFile => fileCall host.disk read regs m os
  | .writeToFile => fileCall host.disk write regs m os
  | .openFile => openCall host.disk regs m os
  | .closeFile => closeCall regs m os
  | .stat =>
    -- `$4` is overwritten with `$5` before it is read
    match os.fdtFilename[(regs 5).toNat]? with
    | none => .error .undefined
    | some name =>
      .ok ([(4, regs 5), (5, regs 6), (2, host.stat os name)], fxstat64 (regs 29) m, os)
  | .fStat =>
    .ok ([(4, regs 5), (5, regs 6), (2, host.fstat os (regs 5))], fxstat64 (regs 29) m, os)
  | .kill => .ok ([(2, host.kill (regs 4) (regs 5))], m, os)
  | .brk =>
    let result := mmSbrk exec os.currentBreak (regs 4)
    .ok ([(2, result)], m, { os with currentBreak := result })
  | .mMap => allocate exec (mMapSize regs) m os
  | .munmap => freeCall regs m os
  | .uname => .ok ([(2, 0)], smUname (regs 29) m, os)
  | .malloc => allocate exec (mallocSize regs) m os
  | .hostCall call => .ok ([(2, host.syscall call)], m, os)

/-- The switch. -/
def reply (exec : ExecInfo) (host : HostCalls) (regs : Reg → Word) (m : MainMemory) (os : Os) :
    Except Ended Reply :=
  match syscalls.lookup (regs 2) with
  | none => .error (.unimplemented (regs 2))
  | some call => call.reply exec host regs m os

/-- The system calls of `main`. -/
def switch (exec : ExecInfo) (host : HostCalls) : Handler Os := fun regs m os =>
  match os.ended with
  | some _ => ([], m, os)
  | none =>
    match reply exec host regs m os with
    | .error e => ([], m, { os with ended := some e })
    | .ok r => r

section Cases

variable {exec : ExecInfo} {host : HostCalls} {regs : Reg → Word} {m : MainMemory} {os : Os}
  {r : Reply}

theorem fileCall_ok {disk : Disk} {call : Host → Option Host}
    (h : fileCall disk call regs m os = .ok r) : ∃ h', call (hostOf disk regs m os) = some h' ∧
      r = ([(2, readRegister h' 2)], h'.mainMemory, os.withFiles h') := by
  unfold fileCall at h
  split at h
  · cases h
  · next h' hcall =>
    cases h
    exact ⟨h', hcall, rfl⟩

theorem openCall_ok {disk : Disk} (h : openCall disk regs m os = .ok r) :
    ∃ bytes, filenameAt m (2 ^ 32) (regs 4) = some bytes ∧
      r = ([(2, os.fileDescriptorIndex)], m, os.opened disk (stringOf bytes)) := by
  unfold openCall at h
  split at h
  · cases h
  · next bytes hname =>
    cases h
    exact ⟨bytes, hname, rfl⟩

theorem closeCall_ok (h : closeCall regs m os = .ok r) :
    r = ([(2, 0)], m, { os with fdtState := os.fdtState.set (regs 4).toNat 0 }) := by
  unfold closeCall at h
  split_ifs at h
  cases h
  rfl

theorem allocate_ok {size : Word} (h : allocate exec size m os = .ok r) :
    ∃ ans heap, mmMalloc exec.heapStart size os.heap = some (ans, heap) ∧
      r = ([(2, ans)], m, { os with heap }) := by
  unfold allocate at h
  split at h
  · cases h
  · next ans heap hmalloc =>
    cases h
    exact ⟨ans, heap, hmalloc, rfl⟩

theorem freeCall_ok (h : freeCall regs m os = .ok r) :
    ∃ heap, mmFree (regs 4) os.heap = some (.returned heap) ∧ r = ([], m, { os with heap }) := by
  unfold freeCall at h
  split at h
  · cases h
  · cases h
  · next heap hfree =>
    cases h
    exact ⟨heap, hfree, rfl⟩

/-- A `stat` that finds the name. -/
theorem stat_ok (h : Syscall.stat.reply exec host regs m os = .ok r) :
    ∃ name, os.fdtFilename[(regs 5).toNat]? = some name ∧
      r = ([(4, regs 5), (5, regs 6), (2, host.stat os name)], fxstat64 (regs 29) m, os) := by
  cases hname : os.fdtFilename[(regs 5).toNat]? with
  | none =>
    simp only [Syscall.reply, hname] at h
    cases h
  | some name =>
    simp only [Syscall.reply, hname] at h
    cases h
    exact ⟨name, rfl, rfl⟩

theorem exists_of_reply (h : reply exec host regs m os = .ok r) :
    ∃ call, syscalls.lookup (regs 2) = some call ∧ call.reply exec host regs m os = .ok r := by
  unfold reply at h
  cases hcall : syscalls.lookup (regs 2) with
  | none =>
    rw [hcall] at h
    cases h
  | some call =>
    rw [hcall] at h
    exact ⟨call, rfl, h⟩

theorem switch_of_ended (h : os.ended.isSome = true) :
    switch exec host regs m os = ([], m, os) := by
  obtain ⟨e, he⟩ := Option.isSome_iff_exists.mp h
  rw [switch, he]

theorem switch_of_reply (hended : os.ended = none) {call : Syscall}
    (hcall : syscalls.lookup (regs 2) = some call)
    (hr : call.reply exec host regs m os = .ok r) : switch exec host regs m os = r := by
  have hreply : reply exec host regs m os = .ok r := by
    rw [reply, hcall]
    exact hr
  rw [switch, hended, hreply]

variable (exec host regs m os) in
/-- **A run has ended, ends, or a case of the switch returns.** -/
theorem switch_cases :
    (os.ended.isSome = true ∧ switch exec host regs m os = ([], m, os)) ∨
      (os.ended = none ∧ ∃ e, switch exec host regs m os = ([], m, { os with ended := some e })) ∨
      (os.ended = none ∧ ∃ call, syscalls.lookup (regs 2) = some call ∧
        call.reply exec host regs m os = .ok (switch exec host regs m os)) := by
  unfold switch
  cases os.ended with
  | some e => exact .inl ⟨rfl, rfl⟩
  | none =>
    cases hreply : reply exec host regs m os with
    | error e => exact .inr (.inl ⟨rfl, e, rfl⟩)
    | ok r => exact .inr (.inr ⟨rfl, exists_of_reply hreply⟩)

/-- The registers that a call writes. -/
theorem switch_writes : ∀ w ∈ (switch exec host regs m os).1, w.1 = 2 ∨ w.1 = 4 ∨ w.1 = 5 := by
  intro w hw
  have htwo {v : Word} (h : w ∈ [((2 : Reg), v)]) : w.1 = 2 ∨ w.1 = 4 ∨ w.1 = 5 := by
    rw [List.mem_singleton.mp h]
    exact .inl rfl
  have hallocate {size : Word} {r : Reply} (hr : allocate exec size m os = .ok r)
      (hw : w ∈ r.1) : w.1 = 2 ∨ w.1 = 4 ∨ w.1 = 5 := by
    obtain ⟨ans, heap, -, rfl⟩ := allocate_ok hr
    exact htwo hw
  have hstat {v : Word} (h : w ∈ [((4 : Reg), regs 5), (5, regs 6), (2, v)]) :
      w.1 = 2 ∨ w.1 = 4 ∨ w.1 = 5 := by
    simp only [List.mem_cons, List.not_mem_nil, or_false] at h
    rcases h with rfl | rfl | rfl
    · exact .inr (.inl rfl)
    · exact .inr (.inr rfl)
    · exact .inl rfl
  rcases switch_cases exec host regs m os with ⟨-, heq⟩ | ⟨-, e, heq⟩ | ⟨-, call, -, hr⟩
  · rw [heq] at hw
    exact absurd hw List.not_mem_nil
  · rw [heq] at hw
    exact absurd hw List.not_mem_nil
  · generalize switch exec host regs m os = r at hw hr
    cases call with
    | exit => cases hr
    | readFile | writeToFile =>
      obtain ⟨h', -, rfl⟩ := fileCall_ok hr
      exact htwo hw
    | openFile =>
      obtain ⟨bytes, -, rfl⟩ := openCall_ok hr
      exact htwo hw
    | closeFile =>
      obtain rfl := closeCall_ok hr
      exact htwo hw
    | stat =>
      obtain ⟨name, -, rfl⟩ := stat_ok hr
      exact hstat hw
    | fStat =>
      cases hr
      exact hstat hw
    | kill | brk | uname =>
      cases hr
      exact htwo hw
    | mMap | malloc => exact hallocate hr hw
    | munmap =>
      obtain ⟨heap, -, rfl⟩ := freeCall_ok hr
      exact absurd hw List.not_mem_nil
    | hostCall call =>
      cases hr
      exact htwo hw

/-- **No call writes `$0`.** -/
theorem sparesZero_switch : SparesZero (switch exec host) := by
  intro regs m os w hw
  rcases switch_writes w hw with h | h | h <;> rw [h] <;> decide

end Cases

end Sim
end OooProcessor
