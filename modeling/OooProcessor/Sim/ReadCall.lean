/-
# The system call that reads

System call 4003 of `main` in `sim_main/sim_main.cpp`.  From standard input it takes one
word, from a file all lines without their ends; it puts a newline after 70 characters if
there are more, stores the text with the 0 behind it, and writes a newline over the 0.
Register 6, which holds how many bytes the caller has room for, is not read.

`i` is an `int`, which the condition of the loop compares with a `size_t`.  A file that
cannot be opened never comes to its end, so that the call does not return.  What `main` logs
is left out.
-/

import OooProcessor.Sim.HexLoad
import OooProcessor.Sim.WriteCall

namespace OooProcessor
namespace Sim

open Lib

/-- `isspace` -/
def isSpace (c : BitVec 8) : Bool := c == 0x20 || (9 ≤ c && c ≤ 13)

/-- `cin >> input` -/
def nextWord (stdin : List (BitVec 8)) : List (BitVec 8) :=
  (stdin.dropWhile isSpace).takeWhile fun c => !isSpace c

/-- What `cin >> input` leaves in the stream. -/
def afterWord (stdin : List (BitVec 8)) : List (BitVec 8) :=
  (stdin.dropWhile isSpace).dropWhile fun c => !isSpace c

/-- The lines that `getline` reads, one after another. -/
def lines : List (BitVec 8) → List (BitVec 8)
  | [] => []
  | c :: cs => if c = 0x0a then lines cs else c :: lines cs

/-- `if (input.size()>70)input.insert(70,"\n")` -/
def insertNewline (input : List (BitVec 8)) : List (BitVec 8) :=
  if 70 < input.length then input.take 70 ++ 0x0a :: input.drop 70 else input

/-- An `int` as a `size_t`. -/
def sizeT (i : Word) : BitVec 64 := i.signExtend 64

/-- The loop that stores the text; `none` if it has not ended after that many turns. -/
def readLoop (input : List (BitVec 8)) (addr : Word) :
    ℕ → Word → MainMemory → Option (Word × MainMemory)
  | 0, _, _ => none
  | fuel + 1, i, m =>
    if sizeT i ≤ sizeT addr + BitVec.ofNat 64 input.length then
      readLoop input addr fuel (i + 1)
        (loadSingleHEXInt m ((input.getD (i - addr).toNat 0).signExtend 32) i 1)
    else some (i, m)

/-- `main` can open the file to read. -/
def canRead (h : Host) (file : String) : Bool :=
  h.disk.readable file && (h.disk.found file || h.created file)

/-- The text that the call takes from a file descriptor; `none` if that has no name, or if
the loop up to `eof` does not end. -/
def inputText (h : Host) (fd : Word) : Option (List (BitVec 8)) :=
  if fd = 0 then some (nextWord h.stdin)
  else
    match h.fdtFilename[fd.toNat]? with
    | none => none
    | some name =>
      if canRead h (h.disk.file name) then some (lines (h.output (.file (h.disk.file name))))
      else none

/-- The system call 4003. -/
def read (h : Host) : Option Host := do
  let addr := readRegister h 5
  let fd := readRegister h 4
  let text ← inputText h fd
  let h := if fd = 0 then { h with stdin := afterWord h.stdin } else h
  let input := insertNewline text
  let (i, m) ← readLoop input addr (input.length + 2) addr h.mainMemory
  let h := { h with mainMemory := loadSingleHEXString m ['0', 'a'] (i - 1) 1 }
  let state ← h.fdtState[fd.toNat]?
  if fd = 0 then
    if state ≠ 0 then
      let h := writeRegister h 2 (i - addr)
      return { h with fdtState := h.fdtState.set fd.toNat 0 }
    else return writeRegister h 2 (i - addr)
  else
    if state ≠ 0 then
      let h := writeRegister h 2 (i - addr)
      return { h with fdtState := h.fdtState.set fd.toNat 0 }
    else return writeRegister h 2 0

section Loop

variable {m : MainMemory} {input : List (BitVec 8)} {addr : Word}

/-- The addresses from `addr` on to `addr + k` are the values of an `int` that only grows. -/
def NoOverflow (addr : Word) (k : ℕ) : Prop :=
  addr.toNat + k < 2 ^ 32 ∧ (addr.toNat < 2 ^ 31 → addr.toNat + k < 2 ^ 31)

/-- The comparison, where nothing overflows. -/
theorem sizeT_le_iff {t : ℕ} (hno : NoOverflow addr (input.length + 1))
    (ht : t ≤ input.length + 1) :
    sizeT (addr + BitVec.ofNat 32 t) ≤ sizeT addr + BitVec.ofNat 64 input.length ↔
      t ≤ input.length := by
  obtain ⟨hwrap, hsign⟩ := hno
  have hsize (i : Word) : (sizeT i).toNat =
      i.toNat + if 2 ^ 31 ≤ i.toNat then 2 ^ 64 - 2 ^ 32 else 0 := by
    have hi := i.isLt
    rw [sizeT, BitVec.toNat_signExtend, BitVec.toNat_setWidth, Nat.mod_eq_of_lt (by omega),
      BitVec.msb_eq_decide]
    simp only [decide_eq_true_eq]
  rw [BitVec.le_def, BitVec.toNat_add, hsize, hsize, BitVec.toNat_add, BitVec.toNat_ofNat,
    BitVec.toNat_ofNat]
  split_ifs
  all_goals omega

/-- A character, stored as an `int`. -/
theorem loadSingleHEXInt_char (m : MainMemory) (c : BitVec 8) (i : Word) :
    loadSingleHEXInt m (c.signExtend 32) i 1 = Function.update m i c := by
  have hlow : (c.signExtend 32).setWidth 8 = c := by
    apply BitVec.eq_of_getLsbD_eq
    intro b hb
    simp only [BitVec.getLsbD_setWidth, BitVec.getLsbD_signExtend, hb, show b < 32 by omega,
      decide_true, Bool.true_and, if_true]
  rw [loadSingleHEXInt_byte, writeByte, hlow]

/-- **The loop stores the text and the 0 behind it.** -/
theorem readLoop_eq (hno : NoOverflow addr (input.length + 1)) {fuel t : ℕ}
    (hfuel : t + fuel = input.length + 2) (hpos : 0 < fuel) :
    readLoop input addr fuel (addr + BitVec.ofNat 32 t)
        (put m addr t fun j => input.getD j 0) =
      some (addr + BitVec.ofNat 32 (input.length + 1),
        put m addr (input.length + 1) fun j => input.getD j 0) := by
  obtain ⟨hwrap, -⟩ := id hno
  induction fuel generalizing t with
  | zero => exact absurd hpos (lt_irrefl _)
  | succ fuel ih =>
    unfold readLoop
    by_cases hlast : t ≤ input.length
    · rw [if_pos ((sizeT_le_iff hno (by omega)).mpr hlast), toNat_add_sub (by omega),
        loadSingleHEXInt_char, update_put m addr (by omega) fun j => input.getD j 0,
        BitVec.add_assoc, show BitVec.ofNat 32 t + 1 = BitVec.ofNat 32 (t + 1) from
          (BitVec.ofNat_add ..).symm]
      exact ih (by omega) (by omega)
    · have ht : t = input.length + 1 := by omega
      rw [if_neg (mt (sizeT_le_iff hno (by omega)).mp hlast), ht]

end Loop

section Read

variable {h : Host}

/-- What the call delivers: the text, with a newline after 70 characters if it has more,
and a newline at its end. -/
def delivered (text : List (BitVec 8)) : List (BitVec 8) := insertNewline text ++ [0x0a]

/-- No byte is changed outside of the `n` bytes the caller has room for, the number returned
is at most `n`, and so many of the bytes delivered are in the memory from `buf` on. -/
structure HonoursCount (h h' : Host) (text : List (BitVec 8)) : Prop where
  frame : ∀ x, (readRegister h 6).toNat ≤ (x - readRegister h 5).toNat →
    h'.mainMemory x = h.mainMemory x
  count : (readRegister h' 2).toNat ≤ (readRegister h 6).toNat
  bytes : bytesAt h'.mainMemory (readRegister h 5) (readRegister h' 2).toNat =
    (delivered text).take (readRegister h' 2).toNat

theorem length_insertNewline (input : List (BitVec 8)) :
    (insertNewline input).length = input.length + if 70 < input.length then 1 else 0 := by
  unfold insertNewline
  split_ifs with hlong
  · simp
    omega
  · rfl

theorem length_delivered (text : List (BitVec 8)) : (delivered text).length =
    text.length + if 70 < text.length then 2 else 1 := by
  rw [delivered, List.length_append, length_insertNewline, List.length_singleton]
  split_ifs
  · rfl
  · rfl

/-- The newline takes the place of the 0. -/
theorem put_newline (m : MainMemory) {input : List (BitVec 8)} {addr : Word}
    (hno : NoOverflow addr (input.length + 1)) :
    loadSingleHEXString (put m addr (input.length + 1) fun j => input.getD j 0) ['0', 'a']
        (addr + BitVec.ofNat 32 (input.length + 1) - 1) 1 =
      put m addr (input.length + 1) fun j => (input ++ [0x0a]).getD j 0 := by
  obtain ⟨hwrap, -⟩ := hno
  have hlt : input.length < 2 ^ 32 := by omega
  have hlast : addr + BitVec.ofNat 32 (input.length + 1) - 1 =
      addr + BitVec.ofNat 32 input.length := by
    rw [BitVec.ofNat_add, ← BitVec.add_assoc]
    exact BitVec.add_sub_cancel _ _
  have hstore (m : MainMemory) (i : Word) :
      loadSingleHEXString m ['0', 'a'] i 1 = Function.update m i 0x0a := rfl
  have hsame : put m addr input.length (fun j => input.getD j 0) =
      put m addr input.length fun j => (input ++ [0x0a]).getD j 0 :=
    put_congr fun j hj => (List.getD_append _ _ _ _ hj).symm
  have hnew : (input ++ [0x0a]).getD input.length (0 : BitVec 8) = 0x0a := by simp
  have hput := update_put m addr hlt fun j => (input ++ [0x0a]).getD j 0
  rw [hlast, hstore, ← update_put m addr hlt fun j => input.getD j 0, Function.update_idem, hsame]
  rwa [hnew] at hput

variable {text : List (BitVec 8)} {state : Word}

/-- The loop and the newline behind it store what is delivered. -/
theorem readLoop_delivered {m : MainMemory} {addr : Word}
    (hno : NoOverflow addr (delivered text).length) :
    ∃ m', readLoop (insertNewline text) addr ((insertNewline text).length + 2) addr m =
        some (addr + BitVec.ofNat 32 (delivered text).length, m') ∧
      loadSingleHEXString m' ['0', 'a'] (addr + BitVec.ofNat 32 (delivered text).length - 1) 1 =
        put m addr (delivered text).length fun j => (delivered text).getD j 0 := by
  have hlen : (delivered text).length = (insertNewline text).length + 1 := by
    rw [delivered, List.length_append, List.length_singleton]
  rw [hlen] at hno ⊢
  have hloop := readLoop_eq (m := m) hno (t := 0) (Nat.zero_add _) (Nat.succ_pos _)
  have hmem : put m addr 0 (fun j => (insertNewline text).getD j 0) = m := rfl
  rw [BitVec.add_zero, hmem] at hloop
  exact ⟨_, hloop, put_newline m hno⟩

/-- **What the call does** for a file descriptor that is open, or standard input. -/
theorem read_eq (htext : inputText h (readRegister h 4) = some text)
    (hstate : h.fdtState[(readRegister h 4).toNat]? = some state)
    (hopen : readRegister h 4 = 0 ∨ state ≠ 0)
    (hno : NoOverflow (readRegister h 5) (delivered text).length) :
    ∃ h', read h = some h' ∧
      h'.mainMemory = put h.mainMemory (readRegister h 5) (delivered text).length
        (fun j => (delivered text).getD j 0) ∧
      readRegister h' 2 = BitVec.ofNat 32 (delivered text).length := by
  obtain ⟨m, hloop, hnewline⟩ := readLoop_delivered (m := h.mainMemory) hno
  have hcount : readRegister h 5 + BitVec.ofNat 32 (delivered text).length -
      readRegister h 5 = BitVec.ofNat 32 (delivered text).length := by
    rw [BitVec.add_comm, BitVec.add_sub_cancel]
  have hreg (h : Host) (v : Word) : readRegister (writeRegister h 2 v) 2 = v :=
    Function.update_self ..
  have hclose (h : Host) (v : Word) (l : List Word) :
      readRegister { writeRegister h 2 v with fdtState := l } 2 = v := hreg h v
  unfold read
  by_cases hfd : readRegister h 4 = 0
  · simp only [htext, hstate, Option.bind_eq_bind, Option.bind_some, if_pos hfd, hloop]
    by_cases hclosed : state ≠ 0
    · rw [if_pos hclosed]
      exact ⟨_, rfl, hnewline, (hclose _ _ _).trans hcount⟩
    · rw [if_neg hclosed]
      exact ⟨_, rfl, hnewline, (hreg _ _).trans hcount⟩
  · simp only [htext, hstate, Option.bind_eq_bind, Option.bind_some, if_neg hfd, hloop,
      if_pos (hopen.resolve_left hfd)]
    exact ⟨_, rfl, hnewline, (hclose _ _ _).trans hcount⟩

/-- **What the call does** for a file descriptor that is closed: it stores the text all the
same, and returns 0. -/
theorem read_closed_eq (htext : inputText h (readRegister h 4) = some text)
    (hstate : h.fdtState[(readRegister h 4).toNat]? = some 0) (hfd : readRegister h 4 ≠ 0)
    (hno : NoOverflow (readRegister h 5) (delivered text).length) :
    read h = some (writeRegister { h with
      mainMemory := put h.mainMemory (readRegister h 5) (delivered text).length
        fun j => (delivered text).getD j 0 } 2 0) := by
  obtain ⟨m, hloop, hnewline⟩ := readLoop_delivered (m := h.mainMemory) hno
  unfold read
  simp only [htext, hstate, Option.bind_eq_bind, Option.bind_some, if_neg hfd, hloop,
    if_neg (not_not_intro (rfl : (0 : Word) = 0)), hnewline]
  rfl

/-- **When the call honours its count:** when the text, with what is put into it and behind
it, is not longer than what was asked for. -/
theorem honoursCount_iff (htext : inputText h (readRegister h 4) = some text)
    (hstate : h.fdtState[(readRegister h 4).toNat]? = some state)
    (hopen : readRegister h 4 = 0 ∨ state ≠ 0)
    (hno : NoOverflow (readRegister h 5) (delivered text).length) :
    (∃ h', read h = some h' ∧ HonoursCount h h' text) ↔
      text.length + (if 70 < text.length then 2 else 1) ≤ (readRegister h 6).toNat := by
  obtain ⟨h', hread, hmem, hreg⟩ := read_eq htext hstate hopen hno
  obtain ⟨hwrap, -⟩ := hno
  have hcount : (readRegister h' 2).toNat = (delivered text).length := by
    rw [hreg, BitVec.toNat_ofNat, Nat.mod_eq_of_lt (by omega)]
  rw [← length_delivered]
  constructor
  · rintro ⟨h'', hread', hhonours⟩
    obtain rfl := Option.some.inj (hread.symm.trans hread')
    rw [← hcount]
    exact hhonours.count
  · intro hle
    refine ⟨h', hread, ?_, by rwa [hcount], ?_⟩
    · intro x hx
      rw [hmem, put_of_le (by omega)]
    · rw [hcount, List.take_length, hmem, bytesAt_put (by omega)]
      apply List.ext_getElem (by simp)
      intro j hj _
      simp at hj
      simp [hj]

/-- `read(0, buf, n)` with a word of one character to read. -/
def readOne (n : Word) : Host where
  disk := .plain
  mainMemory := fun _ => 0
  rrat := TableObj.reset.arr
  physReg := fun r => if r = 6 then n else 0
  fdtFilename := ["stdin", "stdout", "stderr"]
  fdtState := [0, 0, 0]
  stdin := [0x61, 0x0a]
  output := fun _ => []
  created := fun _ => false

theorem honoursCount_iff_two :
    inputText (readOne 2) (readRegister (readOne 2) 4) = some [0x61] ∧
      (readOne 2).fdtState[(readRegister (readOne 2) 4).toNat]? = some 0 ∧
      ((∃ h', read (readOne 2) = some h' ∧ HonoursCount (readOne 2) h' [0x61]) ↔
        [(0x61 : BitVec 8)].length + (if 70 < [(0x61 : BitVec 8)].length then 2 else 1) ≤
          (readRegister (readOne 2) 6).toNat) := by
  have htext : inputText (readOne 2) (readRegister (readOne 2) 4) = some [0x61] := by decide
  have hstate : (readOne 2).fdtState[(readRegister (readOne 2) 4).toNat]? = some 0 := by decide
  refine ⟨htext, hstate, honoursCount_iff htext hstate (.inl rfl) ?_⟩
  constructor
  · decide
  · decide

/-- The character and a newline, where one byte was asked for. -/
theorem not_honoursCount_one :
    ¬∃ h', read (readOne 1) = some h' ∧ HonoursCount (readOne 1) h' [0x61] := by
  rintro ⟨h', hread, hhonours⟩
  have htext : inputText (readOne 1) (readRegister (readOne 1) 4) = some [0x61] := by decide
  have hstate : (readOne 1).fdtState[(readRegister (readOne 1) 4).toNat]? = some 0 := by decide
  have hno : NoOverflow (readRegister (readOne 1) 5) (delivered [0x61]).length := by
    constructor
    · decide
    · decide
  obtain ⟨h'', hread', -, hreg⟩ := read_eq htext hstate (.inl rfl) hno
  obtain rfl := Option.some.inj (hread.symm.trans hread')
  have hcount := hhonours.count
  rw [hreg] at hcount
  exact absurd hcount (by decide)

end Read

end Sim
end OooProcessor
