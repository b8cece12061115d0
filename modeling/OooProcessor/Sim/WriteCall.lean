/-
# The system call that writes

System call 4004 of `main` in `sim_main/sim_main.cpp`, with `read_register` and
`write_register` of `sim_main/sm_regfile.cpp`.  A file is the list of its bytes.  What the
host makes of the names of files is a parameter (`Disk`); `main` does not look whether it
could open one, and writes nothing if it could not.  What `main` logs is left out.

The loop for the console stops at the first byte that is 0, and looks at the length only
after it has counted it down: a length of 0 wraps to `2^32 - 1`.  It ends in `2^32` turns at
most (`consoleLoop_eq`).
-/

import OooProcessor.Rtl.RegisterFiles
import OooProcessor.Sim.Memory

namespace OooProcessor
namespace Sim

open Lib

/-- What is written to. -/
inductive Stream
  | file (name : String)
  | stdoutFile
  | stderrFile
  | cout
  deriving DecidableEq

/-- What the host makes of the names of files: the file that a name stands for, whether
`main` can open it to write, whether it can open it to read once it is there, and whether
it is there from the start.  The two files of `main` itself, `stdout.txt` and `stderr.txt`,
are taken to be none of those that a program names. -/
structure Disk where
  file : String → String
  writable : String → Bool
  readable : String → Bool
  found : String → Bool

/-- Every name is that of a file of its own, which `main` creates. -/
def Disk.plain : Disk where
  file := id
  writable _ := true
  readable _ := true
  found _ := false

/-- What the file calls of `main` work on. -/
structure Host where
  disk : Disk
  mainMemory : MainMemory
  rrat : Reg → Tag
  physReg : Tag → Word
  fdtFilename : List String
  fdtState : List Word
  stdin : List (BitVec 8)
  output : Stream → List (BitVec 8)
  created : String → Bool

def readRegister (h : Host) (regno : Reg) : Word :=
  if regno = 0 then 0 else h.physReg (h.rrat regno)

def writeRegister (h : Host) (regno : Reg) (value : Word) : Host :=
  { h with physReg := Function.update h.physReg (h.rrat regno) value }

/-- `<<` to these streams; a file that is opened is there afterwards. -/
def append (streams : List Stream) (bytes : List (BitVec 8)) (h : Host) : Host :=
  { h with
    output := fun s => if s ∈ streams then h.output s ++ bytes else h.output s
    created := fun name => h.created name || decide (.file name ∈ streams) }

/-- `main` has the stream open, or can open it. -/
def Disk.opens (disk : Disk) : Stream → Bool
  | .file name => disk.writable name
  | _ => true

/-- The loop for a file: `i` after it, and what it wrote. -/
def fileLoop (m : MainMemory) : ℕ → Word → List (BitVec 8) → Word × List (BitVec 8)
  | 0, i, written => (i, written)
  | length + 1, i, written => fileLoop m length (i + 1) (written ++ [m i])

/-- The loop for the console; `none` if it has not ended after that many turns. -/
def consoleLoop (m : MainMemory) :
    ℕ → Word → Word → List (BitVec 8) → Option (Word × List (BitVec 8))
  | 0, _, _, _ => none
  | fuel + 1, length, i, written =>
    if m i ≠ 0 then
      let length := length - 1
      let written := written ++ [m i]
      let i := i + 1
      if length = 0 then some (i, written) else consoleLoop m fuel length i written
    else some (i, written)

/-- The streams that a file descriptor stands for. -/
def destination (h : Host) (fd : Word) : Option (List Stream) :=
  if fd = 1 then some [.cout, .stdoutFile]
  else if fd = 2 then some [.cout, .stderrFile]
  else h.fdtFilename[fd.toNat]?.map fun name => [.file (h.disk.file name)]

/-- The system call 4004. -/
def write (h : Host) : Option Host := do
  let k := readRegister h 5
  let length := readRegister h 6
  let fd := readRegister h 4
  let streams ← destination h fd
  let (i, written) ←
    if fd ≠ 1 ∧ fd ≠ 2 then some (fileLoop h.mainMemory length.toNat k [])
    else consoleLoop h.mainMemory (2 ^ 32) length k []
  let h := append (streams.filter h.disk.opens) written h
  let i := i + 1
  return writeRegister h 2 (i - k - 1)

section Loops

variable (m : MainMemory)

theorem fileLoop_eq (n : ℕ) (i : Word) (written : List (BitVec 8)) :
    fileLoop m n i written = (i + BitVec.ofNat 32 n, written ++ bytesAt m i n) := by
  induction n generalizing i written with
  | zero => rw [fileLoop, bytesAt, List.append_nil, BitVec.add_zero]
  | succ n ih => rw [fileLoop, ih, add_one_ofNat, List.append_assoc, List.singleton_append, bytesAt]

/-- After how many turns the length is counted down to 0. -/
def turnsOf (length : Word) : ℕ := (length - 1).toNat + 1

theorem turnsOf_of_ne_zero {length : Word} (h : length ≠ 0) : turnsOf length = length.toNat := by
  have hpos : 0 < length.toNat := Nat.pos_of_ne_zero fun h0 => h (BitVec.eq_of_toNat_eq h0)
  have hone : (1 : Word).toNat = 1 := rfl
  rw [turnsOf, BitVec.toNat_sub_of_le hpos, hone]
  omega

/-- **The loop for the console** writes up to the first byte that is 0, if the length is
not counted down before. -/
theorem consoleLoop_eq {fuel : ℕ} {length : Word} (hfuel : turnsOf length ≤ fuel) (i : Word)
    (written : List (BitVec 8)) : ∃ j ≤ turnsOf length,
      (∀ t < j, m (i + BitVec.ofNat 32 t) ≠ 0) ∧
      (j < turnsOf length → m (i + BitVec.ofNat 32 j) = 0) ∧
      consoleLoop m fuel length i written =
        some (i + BitVec.ofNat 32 j, written ++ bytesAt m i j) := by
  induction fuel generalizing length i written with
  | zero => exact absurd hfuel (by simp [turnsOf])
  | succ fuel ih =>
    unfold consoleLoop
    by_cases hzero : m i = 0
    · refine ⟨0, Nat.zero_le _, fun t ht => absurd ht t.not_lt_zero, fun _ => ?_, ?_⟩
      · rw [BitVec.add_zero]
        exact hzero
      · rw [if_neg (not_not_intro hzero), bytesAt, List.append_nil, BitVec.add_zero]
    · rw [if_pos hzero]
      by_cases hlast : length - 1 = 0
      · have hturns : turnsOf length = 1 := by
          rw [turnsOf, hlast]
          rfl
        refine ⟨1, hturns.ge, fun t ht => ?_, fun h => absurd h (by omega), ?_⟩
        · obtain rfl : t = 0 := by omega
          rw [BitVec.add_zero]
          exact hzero
        · rw [if_pos hlast]
          rfl
      · have hturns : turnsOf length = turnsOf (length - 1) + 1 := by
          rw [turnsOf_of_ne_zero hlast]
          rfl
        have hrest : turnsOf (length - 1) ≤ fuel := by omega
        obtain ⟨j, hj, hnonzero, hstop, heq⟩ := ih hrest (i + 1) (written ++ [m i])
        refine ⟨j + 1, by omega, fun t ht => ?_, fun h => ?_, ?_⟩
        · cases t with
          | zero =>
            rw [BitVec.add_zero]
            exact hzero
          | succ t =>
            rw [← add_one_ofNat]
            exact hnonzero t (by omega)
        · rw [← add_one_ofNat]
          exact hstop (by omega)
        · rw [if_neg hlast]
          exact heq.trans (by rw [add_one_ofNat, List.append_assoc, List.singleton_append, bytesAt])

end Loops

section Write

variable {h : Host}

/-- What the call does after `j` bytes. -/
def wrote (h : Host) (streams : List Stream) (j : ℕ) : Host :=
  writeRegister (append streams (bytesAt h.mainMemory (readRegister h 5) j) h) 2 (BitVec.ofNat 32 j)

theorem add_sub_sub (k j : Word) : k + j + 1 - k - 1 = j := by
  rw [BitVec.sub_sub, BitVec.add_assoc, BitVec.add_comm k (j + 1), BitVec.add_assoc,
    BitVec.add_comm 1 k, BitVec.add_sub_cancel]

/-- **What the call writes**: to a file all of the bytes, to the console those before the
first 0. -/
theorem write_eq {streams : List Stream} (hdest : destination h (readRegister h 4) = some streams) :
    ∃ j, write h = some (wrote h (streams.filter h.disk.opens) j) ∧
      (readRegister h 4 ≠ 1 ∧ readRegister h 4 ≠ 2 → j = (readRegister h 6).toNat) ∧
      (readRegister h 4 = 1 ∨ readRegister h 4 = 2 → j ≤ turnsOf (readRegister h 6) ∧
        (∀ t < j, h.mainMemory (readRegister h 5 + BitVec.ofNat 32 t) ≠ 0) ∧
        (j < turnsOf (readRegister h 6) →
          h.mainMemory (readRegister h 5 + BitVec.ofNat 32 j) = 0)) := by
  by_cases hfd : readRegister h 4 ≠ 1 ∧ readRegister h 4 ≠ 2
  · refine ⟨(readRegister h 6).toNat, ?_, fun _ => rfl, fun h12 => absurd hfd (by tauto)⟩
    rw [write, hdest]
    simp only [Option.bind_eq_bind, Option.bind_some, if_pos hfd, fileLoop_eq, List.nil_append,
      add_sub_sub]
    rfl
  · have hturns : turnsOf (readRegister h 6) ≤ 2 ^ 32 := (readRegister h 6 - 1).isLt
    obtain ⟨j, hj, hnonzero, hstop, heq⟩ :=
      consoleLoop_eq h.mainMemory hturns (readRegister h 5) []
    refine ⟨j, ?_, fun h => absurd h hfd, fun _ => ⟨hj, hnonzero, hstop⟩⟩
    rw [write, hdest]
    simp only [Option.bind_eq_bind, Option.bind_some, if_neg hfd, heq, List.nil_append,
      add_sub_sub]
    rfl

/-- The call appends the bytes it was given to the destination of the file descriptor, and
returns how many they are. -/
def WritesAll (h : Host) : Prop := ∃ streams created,
  destination h (readRegister h 4) = some streams ∧
    write h = some { wrote h streams (readRegister h 6).toNat with created }

/-- `main` can open the file that a file descriptor stands for, to append to it. -/
def CanAppend (h : Host) (fd : Word) : Prop :=
  ∀ name, h.fdtFilename[fd.toNat]? = some name → h.disk.writable (h.disk.file name) = true

/-- The number of bytes shows in the output. -/
theorem wrote_inj {streams : List Stream} {s : Stream} (hs : s ∈ streams) {j j' : ℕ}
    {created : String → Bool} (heq : wrote h streams j = { wrote h streams j' with created }) :
    j = j' := by
  have hout := congrArg (fun h : Host => (h.output s).length) heq
  simpa [wrote, writeRegister, append, hs] using hout

/-- To a file all bytes are written that can be. -/
theorem writesAll_file (hentry : (readRegister h 4).toNat < h.fdtFilename.length)
    (hfd : readRegister h 4 ≠ 1 ∧ readRegister h 4 ≠ 2) :
    WritesAll h ↔ readRegister h 6 = 0 ∨ CanAppend h (readRegister h 4) := by
  have hname := List.getElem?_eq_getElem hentry
  generalize h.fdtFilename[(readRegister h 4).toNat] = name at hname
  have hdest : destination h (readRegister h 4) = some [.file (h.disk.file name)] := by
    rw [destination, if_neg hfd.1, if_neg hfd.2, hname]
    rfl
  have hcan : CanAppend h (readRegister h 4) ↔ h.disk.writable (h.disk.file name) = true := by
    constructor
    · exact fun hall => hall name hname
    · rintro hw name' hname'
      obtain rfl := Option.some.inj (hname.symm.trans hname')
      exact hw
  obtain ⟨j, hwrite, hfile, -⟩ := write_eq hdest
  obtain rfl := hfile hfd
  rw [hcan]
  cases hw : h.disk.writable (h.disk.file name) with
  | true =>
    have hopens : [Stream.file (h.disk.file name)].filter h.disk.opens =
        [.file (h.disk.file name)] := List.filter_cons_of_pos hw
    rw [hopens] at hwrite
    exact iff_of_true ⟨_, _, hdest, hwrite⟩ (.inr rfl)
  | false =>
    have hopens : [Stream.file (h.disk.file name)].filter h.disk.opens = [] :=
      List.filter_cons_of_neg (by simp [Disk.opens, hw])
    rw [hopens] at hwrite
    have hzero : readRegister h 6 = 0 ↔ (readRegister h 6).toNat = 0 := BitVec.toNat_eq
    simp only [Bool.false_eq_true, or_false, hzero]
    constructor
    · rintro ⟨streams, created, hdest', heq⟩
      obtain rfl := Option.some.inj (hdest.symm.trans hdest')
      have hout := congrArg (fun h : Host => (h.output (.file (h.disk.file name))).length)
        (Option.some.inj (hwrite.symm.trans heq))
      simpa [wrote, writeRegister, append] using hout.symm
    · intro hnone
      refine ⟨_, h.created, hdest, hwrite.trans ?_⟩
      rw [hnone]
      simp [wrote, writeRegister, append, bytesAt]

/-- To the console those before the first that is 0. -/
theorem writesAll_console (hfd : readRegister h 4 = 1 ∨ readRegister h 4 = 2) :
    WritesAll h ↔ (readRegister h 6 = 0 → h.mainMemory (readRegister h 5) = 0) ∧
      ∀ t < (readRegister h 6).toNat,
        h.mainMemory (readRegister h 5 + BitVec.ofNat 32 t) ≠ 0 := by
  obtain ⟨streams, hdest, hopens, hs⟩ : ∃ streams,
      destination h (readRegister h 4) = some streams ∧
        streams.filter h.disk.opens = streams ∧ Stream.cout ∈ streams := by
    rcases hfd with hfd | hfd
    · exact ⟨_, if_pos hfd, rfl, List.mem_cons_self ..⟩
    · exact ⟨_, (if_neg (by rw [hfd]; decide)).trans (if_pos hfd), rfl, List.mem_cons_self ..⟩
  obtain ⟨j, hwrite, -, hconsole⟩ := write_eq hdest
  rw [hopens] at hwrite
  have hall : WritesAll h ↔ j = (readRegister h 6).toNat := by
    constructor
    · rintro ⟨streams', created, hdest', heq⟩
      obtain rfl := Option.some.inj (hdest.symm.trans hdest')
      exact wrote_inj hs (Option.some.inj (hwrite.symm.trans heq))
    · rintro rfl
      exact ⟨streams, _, hdest, hwrite⟩
  rw [hall]
  obtain ⟨hj, hnonzero, hstop⟩ := hconsole hfd
  constructor
  · intro heq
    refine ⟨fun hzero => ?_, fun t ht => hnonzero t (by omega)⟩
    have hstop := hstop (by rw [heq, hzero]; exact Nat.succ_pos _)
    rwa [heq, hzero, show (0 : Word).toNat = 0 from rfl, BitVec.add_zero] at hstop
  · rintro ⟨hempty, hbytes⟩
    by_cases hzero : readRegister h 6 = 0
    · rw [hzero]
      by_contra hne
      refine hnonzero 0 (Nat.pos_of_ne_zero hne) ?_
      rw [BitVec.add_zero]
      exact hempty hzero
    · rw [turnsOf_of_ne_zero hzero] at hj hstop
      by_contra hne
      exact hbytes j (by omega) (hstop (by omega))

/-- **When all bytes are written:** to a file if there are none or it can be opened, to the
console if none of them is 0, and where there are none, if the next one is 0. -/
theorem writesAll_iff (hentry : (readRegister h 4).toNat < h.fdtFilename.length) :
    WritesAll h ↔
      (readRegister h 4 ≠ 1 ∧ readRegister h 4 ≠ 2 →
        readRegister h 6 = 0 ∨ CanAppend h (readRegister h 4)) ∧
      (readRegister h 4 = 1 ∨ readRegister h 4 = 2 →
        (readRegister h 6 = 0 → h.mainMemory (readRegister h 5) = 0) ∧
        ∀ t < (readRegister h 6).toNat,
          h.mainMemory (readRegister h 5 + BitVec.ofNat 32 t) ≠ 0) := by
  by_cases hfd : readRegister h 4 = 1 ∨ readRegister h 4 = 2
  · have hno : ¬(readRegister h 4 ≠ 1 ∧ readRegister h 4 ≠ 2) := by tauto
    rw [writesAll_console hfd, forall_prop_of_true hfd]
    exact (and_iff_right fun h => absurd h hno).symm
  · have hfile : readRegister h 4 ≠ 1 ∧ readRegister h 4 ≠ 2 := not_or.mp hfd
    rw [writesAll_file hentry hfile, forall_prop_of_true hfile]
    exact (and_iff_left fun h => absurd h hfd).symm

/-- `write(1, buf, 1)`, where all bytes of the memory are the same. -/
def writeOne (byte : BitVec 8) : Host where
  disk := .plain
  mainMemory := fun _ => byte
  rrat := TableObj.reset.arr
  physReg := fun r => if r = 4 ∨ r = 6 then 1 else 0
  fdtFilename := ["stdin", "stdout", "stderr"]
  fdtState := [0, 0, 0]
  stdin := []
  output := fun _ => []
  created := fun _ => false

theorem writesAll_iff_one : (readRegister (writeOne 0x61) 4).toNat < 3 ∧
    (WritesAll (writeOne 0x61) ↔
      (readRegister (writeOne 0x61) 4 ≠ 1 ∧ readRegister (writeOne 0x61) 4 ≠ 2 →
        readRegister (writeOne 0x61) 6 = 0 ∨
          CanAppend (writeOne 0x61) (readRegister (writeOne 0x61) 4)) ∧
      (readRegister (writeOne 0x61) 4 = 1 ∨ readRegister (writeOne 0x61) 4 = 2 →
        (readRegister (writeOne 0x61) 6 = 0 →
          (writeOne 0x61).mainMemory (readRegister (writeOne 0x61) 5) = 0) ∧
        ∀ t < (readRegister (writeOne 0x61) 6).toNat,
          (writeOne 0x61).mainMemory
            (readRegister (writeOne 0x61) 5 + BitVec.ofNat 32 t) ≠ 0)) :=
  ⟨by decide, writesAll_iff (by decide)⟩

/-- A byte that is 0 is not written. -/
theorem not_writesAll_zero : ¬WritesAll (writeOne 0) := by
  intro hall
  obtain ⟨-, hbytes⟩ := (writesAll_console (.inl rfl)).mp hall
  exact hbytes 0 (by decide) rfl

end Write

end Sim
end OooProcessor
