/-
# The boot vector

`write_instruction`, `write_load_immediate` and `write_initialization_vector` of
`sim_main/sm_syscalls.cpp`: at the address the core starts from, LUI and ORI load `$29`,
`$28` unless no global pointer is known, and `$31`, and JR goes to the program.
`NOOP_LOOP` words of zeros stand behind every instruction.  What is printed is left out.

The vector is the words of its instructions and their padding
(`writeInitializationVector_eq`).  With that padding the whole of it can be longer than
the memory, or have an instruction at address 0, which nothing is fetched from; otherwise
it does what it encodes (`boots`).
-/

import OooProcessor.Sim.Loader
import OooProcessor.Sim.Sequential

namespace OooProcessor
namespace Sim

open Lib Mips Decoder

/-- `write_instruction`, on the address to write to and the memory. -/
def writeInstruction (noopLoop : ℕ) (s : Word × MainMemory) (instruction : Word) :
    Word × MainMemory :=
  let s := (s.1 + 4, writeWord s.2 s.1 instruction)
  (List.range noopLoop).foldl (fun s _ => (s.1 + 4, writeWord s.2 s.1 0)) s

/-- LUI, as `write_load_immediate` encodes it. -/
def luiWord (regno value : Word) : Word :=
  (0x3C000000 : Word) ||| (regno <<< 16) ||| (value >>> 16 &&& 0xFFFF)

/-- ORI. -/
def oriWord (regno value : Word) : Word :=
  (0x34000000 : Word) ||| (regno <<< 21) ||| (regno <<< 16) ||| (value &&& 0xFFFF)

/-- `write_load_immediate` -/
def writeLoadImmediate (noopLoop : ℕ) (s : Word × MainMemory) (regno value : Word) :
    Word × MainMemory :=
  let s := writeInstruction noopLoop s (luiWord regno value)
  writeInstruction noopLoop s (oriWord regno value)

/-- `write_initialization_vector` -/
def writeInitializationVector (noopLoop : ℕ) (sp gp start : Word) (m : MainMemory) :
    MainMemory :=
  let s := (0xBFC00000, m)
  let s := writeLoadImmediate noopLoop s 29 sp
  let s := if gp ≠ 0xFFFFFFFF then writeLoadImmediate noopLoop s 28 gp else s
  let s := writeLoadImmediate noopLoop s 31 start
  let s := writeInstruction noopLoop s 0x3E00008
  (writeInstruction noopLoop s 0).2

/-- An instruction and the words of zeros behind it. -/
def padded (noopLoop : ℕ) (w : Word) : List Word := w :: List.replicate noopLoop 0

/-- The registers the vector loads, and what with. -/
def loads (sp gp start : Word) : List (Reg × Word) :=
  (29, sp) :: if gp = 0xFFFFFFFF then [(31, start)] else [(28, gp), (31, start)]

/-- Its instructions: the loads, JR and the delay slot. -/
def instructions (ls : List (Reg × Word)) : List Word :=
  (ls.flatMap fun l => [luiWord (BitVec.ofNat 32 l.1) l.2, oriWord (BitVec.ofNat 32 l.1) l.2]) ++
    [0x03E00008, 0]

section Layout

variable {noopLoop : ℕ} {m : MainMemory} {a : Word}

/-- The address behind words written one after another, and the memory with them. -/
def afterWords (m : MainMemory) (a : Word) (ws : List Word) : Word × MainMemory :=
  (a + BitVec.ofNat 32 (4 * ws.length), writeWords m a ws)

theorem afterWords_concat (ws : List Word) (w : Word) :
    ((afterWords m a ws).1 + 4, writeWord (afterWords m a ws).2 (afterWords m a ws).1 w) =
      afterWords m a (ws ++ [w]) := by
  have haddr : (afterWords m a ws).1 + 4 = (afterWords m a (ws ++ [w])).1 := by
    show a + BitVec.ofNat 32 (4 * ws.length) + BitVec.ofNat 32 4 = a + BitVec.ofNat 32 (4 * _)
    rw [BitVec.add_assoc, ← BitVec.ofNat_add, List.length_append]
    rfl
  refine Prod.ext haddr ?_
  show _ = writeWords m a (ws ++ [w])
  rw [writeWords_append]
  show _ = writeWord (writeWords m a ws) (a + BitVec.ofNat 32 (4 * ws.length) + 0#32) w
  rw [BitVec.add_zero]
  rfl

/-- An instruction goes behind what is written. -/
theorem writeInstruction_afterWords (ws : List Word) (w : Word) :
    writeInstruction noopLoop (afterWords m a ws) w = afterWords m a (ws ++ padded noopLoop w) := by
  rw [writeInstruction, afterWords_concat, padded, List.append_cons]
  induction noopLoop with
  | zero => rw [List.replicate_zero, List.append_nil]; rfl
  | succ n ih =>
    rw [List.range_succ, List.foldl_append, ih, List.foldl_cons, List.foldl_nil, afterWords_concat,
      List.append_assoc, List.cons_append, ← List.replicate_succ']

theorem writeLoadImmediate_afterWords (ws : List Word) (regno value : Word) :
    writeLoadImmediate noopLoop (afterWords m a ws) regno value = afterWords m a (ws ++
      [luiWord regno value, oriWord regno value].flatMap (padded noopLoop)) := by
  rw [writeLoadImmediate, writeInstruction_afterWords, writeInstruction_afterWords,
    List.append_assoc]
  simp only [List.flatMap_cons, List.flatMap_nil, List.append_nil]

/-- **The vector** is its instructions, each with its padding. -/
theorem writeInitializationVector_eq (sp gp start : Word) :
    writeInitializationVector noopLoop sp gp start m = writeWords m Fetch.bootVector
      ((instructions (loads sp gp start)).flatMap (padded noopLoop)) := by
  have hstart : ((0xBFC00000 : Word), m) = afterWords m Fetch.bootVector [] :=
    Prod.ext (BitVec.add_zero _).symm rfl
  rw [writeInitializationVector, hstart, writeLoadImmediate_afterWords]
  by_cases hgp : gp = 0xFFFFFFFF
  · rw [if_neg (not_not.mpr hgp), writeLoadImmediate_afterWords, writeInstruction_afterWords,
      writeInstruction_afterWords, loads, if_pos hgp]
    simp only [instructions, List.flatMap_append, List.flatMap_cons, List.flatMap_nil,
      List.append_nil, List.append_assoc, List.nil_append]
    rfl
  · rw [if_pos hgp, writeLoadImmediate_afterWords, writeLoadImmediate_afterWords,
      writeInstruction_afterWords, writeInstruction_afterWords, loads, if_neg hgp]
    simp only [instructions, List.flatMap_append, List.flatMap_cons, List.flatMap_nil,
      List.append_nil, List.append_assoc, List.nil_append]
    rfl

/-- The words of padded instructions, counted from the first word of one. -/
theorem getD_padded (is : List Word) (k : ℕ) {j : ℕ} (hj : j ≤ noopLoop) :
    (is.flatMap (padded noopLoop)).getD (k * (noopLoop + 1) + j) 0 =
      if j = 0 then is.getD k 0 else 0 := by
  have hlen (w : Word) : (padded noopLoop w).length = noopLoop + 1 := by
    rw [padded, List.length_cons, List.length_replicate]
  induction is generalizing k with
  | nil => split_ifs <;> rfl
  | cons w is ih =>
    rw [List.flatMap_cons]
    cases k with
    | zero =>
      rw [Nat.zero_mul, Nat.zero_add, List.getD_append _ _ _ _ (by rw [hlen]; omega)]
      cases j with
      | zero => rfl
      | succ j =>
        rw [if_neg j.succ_ne_zero]
        exact List.getD_replicate 0 (by omega)
    | succ k =>
      rw [List.getD_append_right _ _ _ _ (by rw [hlen, Nat.succ_mul]; omega), hlen,
        show (k + 1) * (noopLoop + 1) + j - (noopLoop + 1) = k * (noopLoop + 1) + j by
          rw [Nat.succ_mul]; omega, ih]
      rfl

theorem length_flatMap_padded (is : List Word) :
    (is.flatMap (padded noopLoop)).length = is.length * (noopLoop + 1) := by
  induction is with
  | nil => rw [List.flatMap_nil, List.length_nil, Nat.zero_mul]
  | cons w is ih =>
    rw [List.flatMap_cons, List.length_append, ih, padded, List.length_cons,
      List.length_replicate, List.length_cons, Nat.succ_mul, Nat.add_comm]

/-- What is written and does not overlap itself stands there. -/
theorem stands_writeWords {ws : List Word} (h : 4 * ws.length ≤ 2 ^ 32) :
    Stands (writeWords m a ws) a ws := by
  rw [stands_iff, writeWords_eq ws h]
  exact fun i hi => put_add hi h

/-- Padding as long as the memory leaves nothing of it. -/
theorem writeWords_replicate {n : ℕ} (h : 2 ^ 32 ≤ 4 * n) :
    writeWords m a (List.replicate n 0) = fun _ => 0 := by
  obtain ⟨k, l, rfl, hl⟩ : ∃ k l, n = k + l ∧ 4 * l = 2 ^ 32 := ⟨n - 2 ^ 30, 2 ^ 30, by omega⟩
  rw [← List.replicate_append_replicate, writeWords_append, writeWords_eq]
  · funext x
    have hx : (x - (a + BitVec.ofNat 32 (4 * k))).toNat < 2 ^ 32 := BitVec.isLt _
    rw [put_of_lt (by rwa [List.length_replicate, List.length_replicate, hl]), wordsByte,
      List.getD_replicate 0 (by omega)]
    simp [byteOf]
  · rw [List.length_replicate, hl]

end Layout

section Words

/-- The fields above an immediate. -/
theorem extractLsb'_or_high (c : Word) (imm : BitVec 16) {k : ℕ} (l : ℕ) (hk : 16 ≤ k) :
    (c ||| imm.setWidth 32).extractLsb' k l = c.extractLsb' k l := by
  apply BitVec.eq_of_getLsbD_eq
  intro b hb
  rw [BitVec.getLsbD_extractLsb', BitVec.getLsbD_extractLsb', BitVec.getLsbD_or,
    BitVec.getLsbD_setWidth, BitVec.getLsbD_of_ge imm (k + b) (by omega), Bool.and_false,
    Bool.or_false]

theorem extractLsb'_or_low {c : Word} (hc : c.extractLsb' 0 16 = 0) (imm : BitVec 16) :
    (c ||| imm.setWidth 32).extractLsb' 0 16 = imm := by
  apply BitVec.eq_of_getLsbD_eq
  intro b hb
  have hbit : (c.extractLsb' 0 16).getLsbD b = false := by
    rw [hc]
    exact BitVec.getLsbD_zero
  rw [BitVec.getLsbD_extractLsb', decide_eq_true hb, Bool.true_and] at hbit
  rw [BitVec.getLsbD_extractLsb', decide_eq_true hb, Bool.true_and, BitVec.getLsbD_or, hbit,
    Bool.false_or, BitVec.getLsbD_setWidth, Nat.zero_add, decide_eq_true (by omega),
    Bool.true_and]

theorem and_0xFFFF (v : Word) : v &&& 0xFFFF = (v.extractLsb' 0 16).setWidth 32 := by
  apply BitVec.eq_of_getLsbD_eq
  intro b hb
  have hmask : (0xFFFF : Word).getLsbD b = decide (b < 16) := by
    revert b
    decide
  rw [BitVec.getLsbD_and, hmask, BitVec.getLsbD_setWidth, BitVec.getLsbD_extractLsb', Nat.zero_add,
    decide_eq_true hb, Bool.true_and, Bool.and_comm]

/-- The halves of a value, as LUI and ORI put them together. -/
theorem halves_or (v : Word) :
    (v.extractLsb' 16 16 ++ 0#16) ||| (v.extractLsb' 0 16).setWidth 32 = v := by
  apply BitVec.eq_of_getLsbD_eq
  intro b hb
  rw [BitVec.getLsbD_or, BitVec.getLsbD_append, BitVec.getLsbD_setWidth,
    BitVec.getLsbD_extractLsb', BitVec.getLsbD_extractLsb', Nat.zero_add, decide_eq_true hb,
    Bool.true_and]
  by_cases hlow : b < 16
  · rw [if_pos hlow, decide_eq_true hlow, BitVec.getLsbD_zero, Bool.false_or, Bool.true_and]
  · rw [if_neg hlow, decide_eq_false hlow, decide_eq_true (by omega), Bool.true_and,
      Bool.false_and, Bool.or_false, Nat.add_sub_cancel' (by omega)]

theorem luiWord_eq (regno v : Word) :
    luiWord regno v = luiWord regno 0 ||| (v.extractLsb' 16 16).setWidth 32 := by
  have hzero : (0 : Word) >>> 16 &&& 0xFFFF = 0#32 := rfl
  have hhigh : (v >>> 16).extractLsb' 0 16 = v.extractLsb' 16 16 := by
    apply BitVec.eq_of_getLsbD_eq
    intro b hb
    rw [BitVec.getLsbD_extractLsb', BitVec.getLsbD_extractLsb', BitVec.getLsbD_ushiftRight,
      Nat.zero_add]
  rw [luiWord, luiWord, hzero, BitVec.or_zero, and_0xFFFF, hhigh]

theorem oriWord_eq (regno v : Word) :
    oriWord regno v = oriWord regno 0 ||| (v.extractLsb' 0 16).setWidth 32 := by
  have hzero : (0 : Word) &&& 0xFFFF = 0#32 := rfl
  rw [oriWord, oriWord, hzero, BitVec.or_zero, and_0xFFFF]

theorem opcode_or (c : Word) (imm : BitVec 16) : opcode (c ||| imm.setWidth 32) = opcode c :=
  extractLsb'_or_high c imm 6 (by decide)

theorem regField_or (c : Word) (imm : BitVec 16) {k : ℕ} (hk : 16 ≤ k) :
    regField (c ||| imm.setWidth 32) k = regField c k :=
  congrArg BitVec.toFin (extractLsb'_or_high c imm 5 hk)

variable {s : Seq} (r : Reg) (v : Word)

/-- `luiWord` encodes LUI. -/
theorem passes_lui (h : s.word = luiWord (BitVec.ofNat 32 r) v) :
    s.Passes (s.registers.write r (v.extractLsb' 16 16 ++ 0#16)) := by
  have hfields : ∀ r : Reg, opcode (luiWord (BitVec.ofNat 32 r) 0) = 0b001111 ∧
      regField (luiWord (BitVec.ofNat 32 r) 0) 16 = r ∧
        (luiWord (BitVec.ofNat 32 r) 0).extractLsb' 0 16 = 0 := by decide
  obtain ⟨hop, hrt, hlow⟩ := hfields r
  rw [luiWord_eq] at h
  have hencodes : ArithOp.lui.form.encodes s.word = true := by
    rw [h]
    exact beq_iff_eq.mpr ((opcode_or _ _).trans hop)
  have hdest : ArithOp.lui.form.destination s.word = r := by
    rw [h]
    exact (regField_or _ _ (by decide)).trans hrt
  have himm : s.word.extractLsb' 0 16 = v.extractLsb' 16 16 := by
    rw [h, extractLsb'_or_low hlow]
  have hpasses := Seq.passes_arith .lui hencodes
  rw [hdest] at hpasses
  simp only [ArithOp.result, himm] at hpasses
  exact hpasses

/-- `oriWord` encodes ORI. -/
theorem passes_ori (h : s.word = oriWord (BitVec.ofNat 32 r) v) :
    s.Passes (s.registers.write r
      (s.registers.val r ||| (v.extractLsb' 0 16).setWidth 32)) := by
  have hfields : ∀ r : Reg, opcode (oriWord (BitVec.ofNat 32 r) 0) = 0b001101 ∧
      regField (oriWord (BitVec.ofNat 32 r) 0) 21 = r ∧
        regField (oriWord (BitVec.ofNat 32 r) 0) 16 = r ∧
          (oriWord (BitVec.ofNat 32 r) 0).extractLsb' 0 16 = 0 := by decide
  obtain ⟨hop, hrs, hrt, hlow⟩ := hfields r
  rw [oriWord_eq] at h
  have hencodes : ArithOp.ori.form.encodes s.word = true := by
    rw [h]
    exact beq_iff_eq.mpr ((opcode_or _ _).trans hop)
  have hsource : regField s.word 21 = r := by
    rw [h]
    exact (regField_or _ _ (by decide)).trans hrs
  have hdest : ArithOp.ori.form.destination s.word = r := by
    rw [h]
    exact (regField_or _ _ (by decide)).trans hrt
  have himm : s.word.extractLsb' 0 16 = v.extractLsb' 0 16 := by
    rw [h, extractLsb'_or_low hlow]
  have hpasses := Seq.passes_arith .ori hencodes
  rw [hdest, hsource] at hpasses
  simp only [ArithOp.result, himm] at hpasses
  exact hpasses

/-- LUI and ORI one after the other load the value. -/
theorem write_halves (regs : Registers) :
    (regs.write r (v.extractLsb' 16 16 ++ 0#16)).write r
      ((regs.write r (v.extractLsb' 16 16 ++ 0#16)).val r |||
        (v.extractLsb' 0 16).setWidth 32) = regs.write r v := by
  rw [Registers.write_write]
  by_cases hr : r = 0
  · rw [hr, Registers.write_zero, Registers.write_zero]
  · rw [Registers.val_write_of_ne _ _ hr, if_pos rfl, halves_or]

end Words

/-- The address of word `i` of the vector. -/
def vectorAddr (i : ℕ) : Word := Fetch.bootVector + BitVec.ofNat 32 (4 * i)

theorem vectorAddr_succ (i : ℕ) : vectorAddr (i + 1) = vectorAddr i + 4 := by
  show Fetch.bootVector + BitVec.ofNat 32 (4 * i + 4) = _
  rw [BitVec.ofNat_add, ← BitVec.add_assoc]
  rfl

section Run

variable {m : MainMemory} {s : Seq} {i : ℕ} {regs regs' : Registers}

/-- The core before word `i` of the vector, with no jump under way. -/
structure At (m : MainMemory) (s : Seq) (i : ℕ) (regs : Registers) : Prop where
  pc : s.pc = vectorAddr i
  registers : s.registers = regs
  mainMemory : s.sim.mainMemory = m
  take : s.exe.take = false

theorem At.word (h : At m s i regs) (hpc : vectorAddr i ≠ 0) :
    s.word = readWord m (vectorAddr i) := by
  rw [Seq.word, h.pc, if_neg hpc, h.mainMemory]

/-- What does not jump is passed. -/
theorem At.pass (h : At m s i regs) (hp : s.Passes regs') : At m s.step (i + 1) regs' where
  pc := by
    rw [Seq.pc_step, h.take, h.pc, if_neg (by simp), vectorAddr_succ]
  registers := hp.registers
  mainMemory := hp.mainMemory.trans h.mainMemory
  take := by
    rw [hp.take, h.take]
    split_ifs <;> rfl

/-- So is a word of zeros, and whatever is at address 0. -/
theorem At.nop (h : At m s i regs) (hw : vectorAddr i ≠ 0 → readWord m (vectorAddr i) = 0) :
    At m s.step (i + 1) regs := by
  have hword : s.word = 0 := by
    by_cases hpc : vectorAddr i = 0
    · rw [Seq.word, h.pc, if_pos hpc]
    · rw [h.word hpc, hw hpc]
  exact h.registers ▸ h.pass (Seq.passes_zero hword)

theorem At.nops (h : At m s i regs) {n : ℕ}
    (hw : ∀ j < n, vectorAddr (i + j) ≠ 0 → readWord m (vectorAddr (i + j)) = 0) :
    At m (Seq.step^[n] s) (i + n) regs := by
  induction n with
  | zero => exact h
  | succ n ih =>
    rw [Function.iterate_succ_apply', ← Nat.add_assoc]
    exact (ih fun j hj => hw j (by omega)).nop (hw n (by omega))

variable {noopLoop : ℕ} {is : List Word} {k : ℕ}

/-- The padded instructions `is` make up the vector. -/
def HoldsVector (m : MainMemory) (noopLoop : ℕ) (is : List Word) : Prop :=
  Stands m Fetch.bootVector (is.flatMap (padded noopLoop))

/-- What stands at the instructions, and behind them. -/
theorem HoldsVector.readWord_eq (h : HoldsVector m noopLoop is) (hk : k < is.length) {j : ℕ}
    (hj : j ≤ noopLoop) : readWord m (vectorAddr (k * (noopLoop + 1) + j)) =
      if j = 0 then is.getD k 0 else 0 := by
  have hlt : k * (noopLoop + 1) + j < (is.flatMap (padded noopLoop)).length := by
    have hmul := Nat.mul_le_mul_right (noopLoop + 1) (Nat.succ_le_of_lt hk)
    rw [length_flatMap_padded]
    rw [Nat.succ_mul] at hmul
    omega
  rw [← getD_padded is k hj]
  exact h _ hlt

/-- **One instruction and its padding**: what the instruction does. -/
theorem At.block (h : At m s (k * (noopLoop + 1)) regs) (hv : HoldsVector m noopLoop is)
    (hk : k < is.length) (hpc : vectorAddr (k * (noopLoop + 1)) ≠ 0)
    (hpasses : s.word = is.getD k 0 → s.Passes regs') :
    At m (Seq.step^[noopLoop + 1] s) ((k + 1) * (noopLoop + 1)) regs' := by
  have hword : s.word = is.getD k 0 := by
    have hfirst := hv.readWord_eq hk (Nat.zero_le noopLoop)
    rw [Nat.add_zero, if_pos rfl] at hfirst
    rw [h.word hpc, hfirst]
  have hnops : At m (Seq.step^[noopLoop] s.step) (k * (noopLoop + 1) + 1 + noopLoop) regs' := by
    refine (h.pass (hpasses hword)).nops fun j hj _ => ?_
    have hpad := hv.readWord_eq hk (show j + 1 ≤ noopLoop by omega)
    rw [if_neg j.succ_ne_zero] at hpad
    rwa [show k * (noopLoop + 1) + 1 + j = k * (noopLoop + 1) + (j + 1) by omega]
  rw [Function.iterate_succ_apply,
    show (k + 1) * (noopLoop + 1) = k * (noopLoop + 1) + 1 + noopLoop by
      rw [Nat.succ_mul]; omega]
  exact hnops

/-- A load is two instructions. -/
theorem At.load (h : At m s (k * (noopLoop + 1)) regs) (hv : HoldsVector m noopLoop is) {r : Reg}
    {v : Word} (hk : k + 1 < is.length) (hlui : is.getD k 0 = luiWord (BitVec.ofNat 32 r) v)
    (hori : is.getD (k + 1) 0 = oriWord (BitVec.ofNat 32 r) v)
    (hpc : vectorAddr (k * (noopLoop + 1)) ≠ 0)
    (hpc' : vectorAddr ((k + 1) * (noopLoop + 1)) ≠ 0) :
    At m (Seq.step^[2 * (noopLoop + 1)] s) ((k + 2) * (noopLoop + 1)) (regs.write r v) := by
  have hfirst := h.block hv (by omega) hpc fun hw => passes_lui r v (hw.trans hlui)
  have hsecond := hfirst.block hv hk hpc' fun hw => passes_ori r v (hw.trans hori)
  rw [hfirst.registers, h.registers, write_halves] at hsecond
  rwa [Nat.two_mul, Function.iterate_add_apply]

/-- **The loads**, by induction: each finds its registers as the ones before left them. -/
theorem At.loads (ls : List (Reg × Word)) (h : At m s (k * (noopLoop + 1)) regs)
    (hv : HoldsVector m noopLoop is) (hlen : k + 2 * ls.length ≤ is.length)
    (hget : ∀ j < 2 * ls.length, is.getD (k + j) 0 = (instructions ls).getD j 0)
    (hpc : ∀ j < 2 * ls.length, vectorAddr ((k + j) * (noopLoop + 1)) ≠ 0) :
    At m (Seq.step^[2 * ls.length * (noopLoop + 1)] s) ((k + 2 * ls.length) * (noopLoop + 1))
      (ls.foldl (fun r l => r.write l.1 l.2) regs) := by
  induction ls generalizing s k regs with
  | nil =>
    rw [List.length_nil, Nat.mul_zero, Nat.zero_mul]
    exact h
  | cons l ls ih =>
    rw [List.length_cons, Nat.mul_succ 2] at hlen hget hpc
    rw [List.length_cons, Nat.mul_succ 2]
    have hload := h.load hv (by omega) (hget 0 (by omega)) (hget 1 (by omega)) (hpc 0 (by omega))
      (hpc 1 (by omega))
    have hrest := ih hload (by omega)
      (fun j hj => by
        rw [show k + 2 + j = k + (j + 2) by omega, hget (j + 2) (by omega)]
        rfl)
      (fun j hj => by
        rw [show k + 2 + j = k + (j + 2) by omega]
        exact hpc (j + 2) (by omega))
    rw [Nat.add_mul (2 * ls.length), Function.iterate_add_apply,
      show k + (2 * ls.length + 2) = k + 2 + 2 * ls.length by omega]
    exact hrest

/-- What a jump to the address in `$31` does. -/
structure Jumps (s : Seq) : Prop where
  registers : s.step.registers = s.registers
  mainMemory : s.step.sim.mainMemory = s.sim.mainMemory
  take : s.step.exe.take = true
  addr : s.step.exe.addr = s.registers.val 31

/-- The word `0x03E00008` is such a jump. -/
theorem jumps (hw : s.word = 0x03E00008) (hpc : s.pc ≠ 0) : Jumps s := by
  have hc : decode s.word s.held = Controls.ofBits 0b0011000010011111000 := by
    rw [hw]
    exact decode_of_table rfl s.held
  have hrs : regField s.word 21 = 31 := by
    rw [hw]
    decide
  refine ⟨?_, Seq.mainMemory_step (by rw [hc]; rfl), ?_, ?_⟩
  · rw [Seq.registers_step (by rw [hc]; rfl)]
    refine if_neg (Bool.eq_false_iff.mp ?_)
    show (Compare.taken (decode s.word s.held).jump _ _ _ && (decode s.word s.held).link ||
      (_ && (decode s.word s.held).regWrite) && _) = false
    rw [hc]
    simp only [show (Controls.ofBits 0b0011000010011111000).link = false by rfl,
      show (Controls.ofBits 0b0011000010011111000).regWrite = false by rfl, Bool.and_false,
      Bool.false_and, Bool.or_false]
  · rw [Seq.take_step, if_pos hpc]
    show (_ || (decode s.word s.held).jump) = true
    rw [hc]
    exact Bool.or_true _
  · rw [Seq.addr_step, if_pos hpc]
    show (if (decode s.word s.held).jumpRegister then
      s.registers.view.regs (s.registers.view.frat (Id.rs s.word (decode s.word s.held)))
        else _) = _
    rw [hc, if_pos (by rfl)]
    show s.registers.view.read (regField s.word 21) = _
    rw [Registers.read_view, hrs]

/-- **JR and its delay slot** lead to the address in `$31`. -/
theorem At.jump (h : At m s i regs) (hpc : vectorAddr i ≠ 0) (hpc' : vectorAddr (i + 1) ≠ 0)
    (hjr : readWord m (vectorAddr i) = 0x03E00008) (hslot : readWord m (vectorAddr (i + 1)) = 0) :
    s.step.pc = vectorAddr (i + 1) ∧ (Seq.step^[2] s).pc = regs.val 31 ∧
      (Seq.step^[2] s).registers = regs ∧ (Seq.step^[2] s).sim.mainMemory = m := by
  have hj : Jumps s := jumps ((h.word hpc).trans hjr) (by rwa [h.pc])
  have hnext : s.step.pc = vectorAddr (i + 1) := by
    rw [Seq.pc_step, h.take, h.pc, if_neg (by simp), vectorAddr_succ]
  have hword : s.step.word = 0 := by
    rw [Seq.word, hnext, if_neg hpc', hj.mainMemory, h.mainMemory, hslot]
  have hp := Seq.passes_zero hword
  refine ⟨hnext, ?_, ?_, ?_⟩
  · show s.step.step.pc = _
    rw [Seq.pc_step, if_pos ⟨by rwa [hnext], hj.take⟩, hj.addr, h.registers]
  · show s.step.step.registers = _
    rw [hp.registers, hj.registers, h.registers]
  · show s.step.step.sim.mainMemory = _
    rw [hp.mainMemory, hj.mainMemory, h.mainMemory]

end Run

/-- How many registers the vector loads. -/
def loadCount (gp : Word) : ℕ := if gp = 0xFFFFFFFF then 2 else 3

/-- The core out of reset, with the vector in memory. -/
def boot (noopLoop : ℕ) (sp gp start : Word) (registers : Registers) (held : Controls)
    (sim : State) : Seq where
  pc := Fetch.bootVector
  registers := registers
  held := held
  exe := Exe.reset
  sim := { sim with
    mainMemory := writeInitializationVector noopLoop sp gp start sim.mainMemory }

/-- How many words have passed when JR is next. -/
def wordsToJump (noopLoop : ℕ) (gp : Word) : ℕ := 2 * loadCount gp * (noopLoop + 1)

/-- What the vector encodes, between `s₀` and `s`. -/
structure Booted (sp gp start : Word) (s₀ s : Seq) : Prop where
  pc : s.pc = start
  sp : s.registers.val 29 = sp
  ra : s.registers.val 31 = start
  gp : s.registers.val 28 = if gp = 0xFFFFFFFF then s₀.registers.val 28 else gp
  others : ∀ r, r ≠ 28 → r ≠ 29 → r ≠ 31 → s.registers.val r = s₀.registers.val r
  mainMemory : s.sim.mainMemory = s₀.sim.mainMemory

/-- Whatever the registers and the memory hold: from the loads the core gets to JR, from
there to its delay slot, and from there to the program. -/
def Boots (noopLoop : ℕ) (sp gp start : Word) : Prop :=
  ∀ registers held sim,
    (Seq.step^[wordsToJump noopLoop gp + 1]
        (boot noopLoop sp gp start registers held sim)).pc =
      vectorAddr (wordsToJump noopLoop gp + 1) ∧
    Booted sp gp start (boot noopLoop sp gp start registers held sim)
      (Seq.step^[wordsToJump noopLoop gp + 2] (boot noopLoop sp gp start registers held sim))

/-- The vector does not overlap itself, and has no instruction at address 0. -/
structure VectorFits (noopLoop : ℕ) (gp : Word) : Prop where
  words : (2 * loadCount gp + 2) * (noopLoop + 1) ≤ 2 ^ 30
  nonzero : ∀ k ≤ 2 * loadCount gp, vectorAddr (k * (noopLoop + 1)) ≠ 0

section Boot

variable {noopLoop : ℕ} {sp gp start : Word}

theorem length_loads : (loads sp gp start).length = loadCount gp := by
  rw [loads, loadCount]
  split_ifs <;> rfl

theorem length_instructions (ls : List (Reg × Word)) :
    (instructions ls).length = 2 * ls.length + 2 := by
  induction ls with
  | nil => rfl
  | cons l ls ih =>
    show (instructions ls).length + 2 = 2 * (ls.length + 1) + 2
    omega

/-- Behind the loads. -/
theorem getD_instructions (ls : List (Reg × Word)) (j : ℕ) :
    (instructions ls).getD (2 * ls.length + j) 0 = [0x03E00008, (0 : Word)].getD j 0 := by
  induction ls with
  | nil => rw [List.length_nil, Nat.mul_zero, Nat.zero_add]; rfl
  | cons l ls ih =>
    rw [List.length_cons, show 2 * (ls.length + 1) + j = 2 * ls.length + j + 2 by omega, ← ih]
    rfl

/-- The registers after the loads. -/
theorem val_foldl_loads (regs : Registers) (r : Reg) :
    ((loads sp gp start).foldl (fun r l => r.write l.1 l.2) regs).val r =
      if r = 31 then start else if r = 28 ∧ gp ≠ 0xFFFFFFFF then gp else if r = 29 then sp
        else regs.val r := by
  have h28 (regs : Registers) (v : Word) := regs.val_write_of_ne (j := r) v (i := 28) (by decide)
  have h29 (regs : Registers) (v : Word) := regs.val_write_of_ne (j := r) v (i := 29) (by decide)
  have h31 (regs : Registers) (v : Word) := regs.val_write_of_ne (j := r) v (i := 31) (by decide)
  by_cases hgp : gp = 0xFFFFFFFF
  · rw [loads, if_pos hgp, if_neg fun h : r = 28 ∧ gp ≠ 0xFFFFFFFF => h.2 hgp, List.foldl_cons,
      List.foldl_cons, List.foldl_nil, h31, h29]
  · rw [loads, if_neg hgp, List.foldl_cons, List.foldl_cons, List.foldl_cons, List.foldl_nil, h31,
      h28, h29]
    simp only [ne_eq, hgp, not_false_eq_true, and_true]

variable (sp start) (registers : Registers) (held : Controls) (sim : State)

theorem vector_boot (h : (2 * loadCount gp + 2) * (noopLoop + 1) ≤ 2 ^ 30) :
    HoldsVector (boot noopLoop sp gp start registers held sim).sim.mainMemory noopLoop
      (instructions (loads sp gp start)) := by
  show Stands (writeInitializationVector noopLoop sp gp start sim.mainMemory) _ _
  rw [writeInitializationVector_eq]
  refine stands_writeWords ?_
  rw [length_flatMap_padded, length_instructions, length_loads]
  omega

theorem at_boot : At (boot noopLoop sp gp start registers held sim).sim.mainMemory
    (boot noopLoop sp gp start registers held sim) 0 registers :=
  ⟨(BitVec.add_zero _).symm, rfl, rfl, rfl⟩

/-- The core gets to JR with the registers loaded. -/
theorem at_jump (h : (2 * loadCount gp + 2) * (noopLoop + 1) ≤ 2 ^ 30)
    (hpc : ∀ k < 2 * loadCount gp, vectorAddr (k * (noopLoop + 1)) ≠ 0) :
    At (boot noopLoop sp gp start registers held sim).sim.mainMemory
      (Seq.step^[wordsToJump noopLoop gp] (boot noopLoop sp gp start registers held sim))
      (2 * loadCount gp * (noopLoop + 1))
      ((loads sp gp start).foldl (fun r l => r.write l.1 l.2) registers) := by
  have hstart : At (boot noopLoop sp gp start registers held sim).sim.mainMemory
      (boot noopLoop sp gp start registers held sim) (0 * (noopLoop + 1)) registers := by
    rw [Nat.zero_mul]
    exact at_boot sp start registers held sim
  have hloads := hstart.loads (loads sp gp start) (vector_boot sp start registers held sim h)
    (by rw [length_instructions]; omega) (fun j _ => by rw [Nat.zero_add])
    (by simpa only [Nat.zero_add, length_loads] using hpc)
  rwa [Nat.zero_add, length_loads] at hloads

/-- JR's delay slot is not at address 0: the loads are an even number of instructions. -/
theorem vectorAddr_slot_ne_zero (n : ℕ) :
    vectorAddr (2 * n * (noopLoop + 1) + 1) ≠ 0 := by
  intro h
  have hnat := congrArg BitVec.toNat h
  rw [vectorAddr, BitVec.toNat_add, BitVec.toNat_ofNat,
    show 4 * (2 * n * (noopLoop + 1) + 1) = 8 * (n * (noopLoop + 1)) + 4 by ring] at hnat
  have hboot : Fetch.bootVector.toNat = 3217031168 := rfl
  have hzero : (0 : Word).toNat = 0 := rfl
  omega

/-- JR stands behind the loads. -/
theorem readWord_jr (h : (2 * loadCount gp + 2) * (noopLoop + 1) ≤ 2 ^ 30) :
    readWord (boot noopLoop sp gp start registers held sim).sim.mainMemory
      (vectorAddr (2 * loadCount gp * (noopLoop + 1))) = 0x03E00008 := by
  have hlen : (instructions (loads sp gp start)).length = 2 * loadCount gp + 2 := by
    rw [length_instructions, length_loads]
  have hget := getD_instructions (loads sp gp start) 0
  rw [length_loads, Nat.add_zero] at hget
  have hjr := (vector_boot sp start registers held sim h).readWord_eq (k := 2 * loadCount gp)
    (by rw [hlen]; omega) (Nat.zero_le noopLoop)
  rw [Nat.add_zero, if_pos rfl, hget] at hjr
  exact hjr

/-- A word of zeros stands behind JR, which is the last instruction if there is no
padding. -/
theorem readWord_slot (h : (2 * loadCount gp + 2) * (noopLoop + 1) ≤ 2 ^ 30) :
    readWord (boot noopLoop sp gp start registers held sim).sim.mainMemory
      (vectorAddr (2 * loadCount gp * (noopLoop + 1) + 1)) = 0 := by
  have hlen : (instructions (loads sp gp start)).length = 2 * loadCount gp + 2 := by
    rw [length_instructions, length_loads]
  have hv := vector_boot sp start registers held sim h
  rcases Nat.eq_zero_or_pos noopLoop with rfl | hpos
  · have hget := getD_instructions (loads sp gp start) 1
    rw [length_loads] at hget
    have hlast := hv.readWord_eq (k := 2 * loadCount gp + 1) (by rw [hlen]; omega) le_rfl
    rw [if_pos rfl, hget] at hlast
    exact hlast
  · rw [hv.readWord_eq (by rw [hlen]; omega) hpos, if_neg Nat.one_ne_zero]

/-- **The boot vector does what it encodes**, for every padding with which it neither
overlaps itself nor has an instruction at address 0. -/
theorem boots (noopLoop : ℕ) (sp gp start : Word) (h : VectorFits noopLoop gp) :
    Boots noopLoop sp gp start := by
  intro registers held sim
  have hjump := at_jump sp start registers held sim h.words
    fun k hk => h.nonzero k hk.le
  obtain ⟨hnext, hpc, hregs, hmem⟩ := hjump.jump (h.nonzero _ le_rfl)
    (vectorAddr_slot_ne_zero _) (readWord_jr sp start registers held sim h.words)
    (readWord_slot sp start registers held sim h.words)
  have htwo : Seq.step^[wordsToJump noopLoop gp + 2]
      (boot noopLoop sp gp start registers held sim) = Seq.step^[2]
        (Seq.step^[wordsToJump noopLoop gp] (boot noopLoop sp gp start registers held sim)) := by
    rw [Nat.add_comm, Function.iterate_add_apply]
  rw [Function.iterate_succ_apply', htwo]
  refine ⟨hnext, ?_, ?_, ?_, ?_, fun r h28 h29 h31 => ?_, hmem⟩
  · rw [hpc, val_foldl_loads, if_pos rfl]
  · rw [hregs, val_foldl_loads, if_neg (by decide), if_neg fun h => absurd h.1 (by decide),
      if_pos rfl]
  · rw [hregs, val_foldl_loads, if_pos rfl]
  · rw [hregs, val_foldl_loads, if_neg (by decide)]
    by_cases hgp : gp = 0xFFFFFFFF
    · rw [if_neg fun h => h.2 hgp, if_neg (by decide), if_pos hgp]
      rfl
    · rw [if_pos ⟨rfl, hgp⟩, if_neg hgp]
  · rw [hregs, val_foldl_loads, if_neg h31, if_neg fun h => h28 h.1, if_neg h29]
    rfl

/-- With the default padding. -/
theorem boots_default : Boots 7 0xF7021FC0 0x10008000 0x00400000 :=
  boots 7 0xF7021FC0 0x10008000 0x00400000 ⟨by decide, by decide⟩

/-- Padding that fills the memory leaves nothing of the loads. -/
theorem writeInitializationVector_of_le (h : 2 ^ 30 ≤ noopLoop) (m : MainMemory) :
    writeInitializationVector noopLoop sp gp start m = fun _ => 0 := by
  have hzero (s : Word × MainMemory) (w : Word) :
      (writeInstruction noopLoop s w).2 = fun _ => 0 := by
    have hs : s = afterWords s.2 s.1 [] := Prod.ext (BitVec.add_zero _).symm rfl
    rw [hs, writeInstruction_afterWords, List.nil_append, padded, ← List.singleton_append,
      afterWords, writeWords_append, writeWords_replicate (by omega)]
  rw [writeInitializationVector, hzero]

theorem not_boots_of_le (h : 2 ^ 30 ≤ noopLoop) (hsp : sp ≠ 0) :
    ¬Boots noopLoop sp gp start := by
  intro hb
  have hstart : At (fun _ => 0) (boot noopLoop sp gp start ⟨fun _ => 0, rfl⟩ 0
      ⟨fun _ => 0, 0, Mem.reset⟩) 0 ⟨fun _ => 0, rfl⟩ :=
    ⟨(BitVec.add_zero _).symm, rfl, writeInitializationVector_of_le sp start h _, rfl⟩
  have hread (a : Word) : readWord (fun _ => 0) a = 0 :=
    (readWord_eq_iff _ a 0).mpr fun i _ => by simp [byteOf]
  have hrun := hstart.nops (n := wordsToJump noopLoop gp + 2) fun j _ _ => hread _
  have hbooted := (hb ⟨fun _ => 0, rfl⟩ 0 ⟨fun _ => 0, 0, Mem.reset⟩).2.sp
  rw [hrun.registers] at hbooted
  exact hsp hbooted.symm

/-- If JR is at address 0, it is passed over. -/
theorem not_boots_of_jump_at_zero (h : (2 * loadCount gp + 2) * (noopLoop + 1) ≤ 2 ^ 30)
    (hpc : ∀ k < 2 * loadCount gp, vectorAddr (k * (noopLoop + 1)) ≠ 0)
    (hzero : vectorAddr (2 * loadCount gp * (noopLoop + 1)) = 0) (hstart : start ≠ 8) :
    ¬Boots noopLoop sp gp start := by
  intro hb
  have hjump := at_jump sp start ⟨fun _ => 0, rfl⟩ 0
    ⟨fun _ => 0, 0, Mem.reset⟩ h hpc
  have hslot := (hjump.nop fun hne => absurd hzero hne).nop fun _ => readWord_slot _ _ _ _ _ h
  have hbooted := (hb ⟨fun _ => 0, rfl⟩ 0 ⟨fun _ => 0, 0, Mem.reset⟩).2.pc
  rw [Function.iterate_succ_apply', Function.iterate_succ_apply', hslot.pc, vectorAddr_succ,
    vectorAddr_succ, hzero] at hbooted
  exact hstart hbooted.symm

/-- `2^30` words of padding overwrite the vector with zeros; with 67371007, and no global
pointer, JR is at address 0. -/
theorem not_boots : ¬Boots (2 ^ 30) 0xF7021FC0 0x10008000 0x00400000 ∧
    ¬Boots 67371007 0xF7021FC0 0xFFFFFFFF 0x00400000 :=
  ⟨not_boots_of_le _ _ le_rfl (by decide),
    not_boots_of_jump_at_zero _ _ (by decide) (by decide) (by decide) (by decide)⟩

end Boot

end Sim
end OooProcessor
