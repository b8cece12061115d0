/-
# HI and LO over a run

ALU writes its registers `HI_OUT` and `LO_OUT` on one edge of the clock, EXE copies them
into HI and LO on the other, and the next MFHI or MFLO reads the copy.  A run of EXE is
what ID hands it cycle by cycle, a bubble being all zeros; `hiLoAt` says what MIPS has left
in the two registers by then, if it defines it.

EXE agrees with that as long as every instruction is `Sound`: MULT multiplies unsigned
numbers, `mul.fmt` and `div.fmt` of COP1 select the integer operations, and a word without
an entry in Decoder's tables selects what the word before it did.
-/

import OooProcessor.Core.Operands
import OooProcessor.Lib.Products

namespace OooProcessor
namespace Mips

open Decoder Lib

/-- The two registers, where MIPS defines what they hold. -/
structure HiLo where
  hi : Option Word
  lo : Option Word

/-- The instructions that write HI or LO. -/
inductive HiLoOp
  | mult | multu | div | divu | mthi | mtlo
  deriving DecidableEq

namespace HiLoOp

/-- The instruction that a word is, if it is one of them. -/
def ofWord (w : Word) : Option HiLoOp :=
  if opcode w = 0b000000 then
    match funct w with
    | 0b011000 => some mult
    | 0b011001 => some multu
    | 0b011010 => some div
    | 0b011011 => some divu
    | 0b010001 => some mthi
    | 0b010011 => some mtlo
    | _ => none
  else none

/-- **What MIPS leaves in HI and LO**, for the values `a` of rs and `b` of rt.  A
division by zero leaves them undefined, and so does that of the least number by -1. -/
def leaves (op : HiLoOp) (a b : Word) (r : HiLo) : HiLo :=
  match op with
  | mult =>
    ⟨some ((signedProduct a b).extractLsb' 32 32), some ((signedProduct a b).extractLsb' 0 32)⟩
  | multu =>
    ⟨some ((unsignedProduct a b).extractLsb' 32 32), some ((unsignedProduct a b).extractLsb' 0 32)⟩
  | div =>
    if b = 0 ∨ (a = BitVec.intMin 32 ∧ b = -1) then ⟨none, none⟩
    else ⟨some (BitVec.ofInt 32 (a.toInt.tmod b.toInt)),
      some (BitVec.ofInt 32 (a.toInt.tdiv b.toInt))⟩
  | divu =>
    if b = 0 then ⟨none, none⟩
    else ⟨some (BitVec.ofNat 32 (a.toNat % b.toNat)), some (BitVec.ofNat 32 (a.toNat / b.toNat))⟩
  | mthi => { r with hi := some a }
  | mtlo => { r with lo := some a }

/-- What `ALU.v` leaves in `HI_OUT` and `LO_OUT`, which held `s`. -/
def writes (op : HiLoOp) (a b : Word) (s : Word × Word) : Word × Word :=
  match op with
  | mult | multu =>
    ((unsignedProduct a b).extractLsb' 32 32, (unsignedProduct a b).extractLsb' 0 32)
  | div => if b ≠ 0 then (a.srem b, a.sdiv b) else s
  | divu => if b ≠ 0 then (a % b, a / b) else s
  | mthi => (a, s.2)
  | mtlo => (s.1, a)

end HiLoOp

/-- The registers hold what MIPS says, where it says anything. -/
def Agrees (r : HiLo) (s : Word × Word) : Prop :=
  (∀ v, r.hi = some v → s.1 = v) ∧ (∀ v, r.lo = some v → s.2 = v)

section Operations

variable {a b : Word} {r : HiLo} {s : Word × Word}

theorem agrees_some {hi lo : Word} : Agrees ⟨some hi, some lo⟩ (hi, lo) := by
  constructor
  · rintro v ⟨⟩
    rfl
  · rintro v ⟨⟩
    rfl

theorem agrees_none : Agrees ⟨none, none⟩ s := by
  constructor
  · rintro v ⟨⟩
  · rintro v ⟨⟩

theorem sdiv_eq_ofInt (a b : Word) : a.sdiv b = BitVec.ofInt 32 (a.toInt.tdiv b.toInt) := by
  rw [← BitVec.toInt_inj, BitVec.toInt_sdiv, BitVec.toInt_ofInt]

theorem srem_eq_ofInt (a b : Word) : a.srem b = BitVec.ofInt 32 (a.toInt.tmod b.toInt) := by
  rw [← BitVec.toInt_srem, BitVec.ofInt_toInt]

/-- **An operation keeps the agreement**, MULT where the sign makes no difference. -/
theorem Agrees.write (h : Agrees r s) (op : HiLoOp)
    (hmult : op = .mult → SignFree (w := 32) a b) :
    Agrees (op.leaves a b r) (op.writes a b s) := by
  obtain ⟨hhi, hlo⟩ := h
  cases op with
  | mult =>
    have hprod := (signedProduct_eq_iff a b).mpr (hmult rfl)
    rw [HiLoOp.leaves, hprod]
    exact agrees_some
  | multu => exact agrees_some
  | div =>
    by_cases hundefined : b = 0 ∨ (a = BitVec.intMin 32 ∧ b = -1)
    · rw [HiLoOp.leaves, if_pos hundefined]
      exact agrees_none
    · have hb : b ≠ 0 := fun h => hundefined (.inl h)
      rw [HiLoOp.leaves, if_neg hundefined, HiLoOp.writes, if_pos hb, srem_eq_ofInt,
        sdiv_eq_ofInt]
      exact agrees_some
  | divu =>
    by_cases hb : b = 0
    · rw [HiLoOp.leaves, if_pos hb]
      exact agrees_none
    · have hmod : a % b = BitVec.ofNat 32 (a.toNat % b.toNat) := by
        rw [← BitVec.toNat_umod, BitVec.ofNat_toNat, BitVec.setWidth_eq]
      have hdiv : a / b = BitVec.ofNat 32 (a.toNat / b.toNat) := by
        rw [← BitVec.toNat_udiv, BitVec.ofNat_toNat, BitVec.setWidth_eq]
      rw [HiLoOp.leaves, if_neg hb, HiLoOp.writes, if_pos hb, hmod, hdiv]
      exact agrees_some
  | mthi =>
    refine ⟨?_, hlo⟩
    rintro v ⟨⟩
    rfl
  | mtlo =>
    refine ⟨hhi, ?_⟩
    rintro v ⟨⟩
    rfl

end Operations

section Selection

/-- The operations of the ALU that write HI or LO. -/
def touches (k : BitVec 6) : Bool :=
  k == 0b000101 || k == 0b000110 || k == 0b001011 || k == 0b001100 || k == 0b001101

/-- `mul.fmt` of COP1. -/
def isFpMul (w : Word) : Bool :=
  opcode w == 0b010001 && format w == 0b10000 && funct w == 0b000010

/-- `div.fmt` of COP1. -/
def isFpDiv (w : Word) : Bool :=
  opcode w == 0b010001 && format w == 0b10000 && funct w == 0b000011

/-- What the ALU leaves in `HI_OUT` and `LO_OUT`. -/
def outs (s : Alu.State) : Word × Word := (s.hiOut, s.loOut)

/-- The other operations keep both registers. -/
theorem outs_step_of_not_touches {i : Alu.Inputs} (h : touches i.aluControl = false)
    (s : Alu.State) : outs (Alu.step i s) = outs s := by
  unfold Alu.step
  split <;> first
    | rfl
    | rename_i hk
      rw [hk] at h
      exact absurd h (by decide)

/-- A division by zero keeps them too. -/
theorem outs_step_div_zero {i : Alu.Inputs} (h : i.aluControl = 0b000101) (hb : i.b = 0)
    (s : Alu.State) : outs (Alu.step i s) = outs s := by
  rw [Alu.step, h, hb]
  rfl

/-- The functs of the instructions that write HI or LO. -/
def writingFuncts : List (BitVec 6) :=
  [0b011000, 0b011001, 0b011010, 0b011011, 0b010001, 0b010011]

theorem funct_of_ofWord {w : Word} (hop : opcode w = 0b000000) (h : HiLoOp.ofWord w = none) :
    funct w ∉ writingFuncts := by
  intro hmem
  simp only [writingFuncts, List.mem_cons, List.not_mem_nil, or_false] at hmem
  rcases hmem with hf | hf | hf | hf | hf | hf <;>
    · rw [HiLoOp.ofWord, if_pos hop, hf] at h
      exact nomatch h

/-- A row of a table of which only the keys `ks` select one of the operations. -/
theorem not_touches_of_lookup {n : ℕ} {l : List (BitVec n × BitVec 19)} (ks : List (BitVec n))
    {k : BitVec n} {b : BitVec 19}
    (h : l.all (fun p => ks.contains p.1 || !touches (Controls.ofBits p.2).aluControl) = true)
    (hk : k ∉ ks) (hb : l.lookup k = some b) : touches (Controls.ofBits b).aluControl = false := by
  have hrow := of_mem (Q := fun k b => ks.contains k || !touches (Controls.ofBits b).aluControl) h
    (mem_of_lookup hb)
  rw [Bool.or_eq_true, List.contains_iff_mem, Bool.not_eq_true'] at hrow
  exact hrow.resolve_left hk

/-- The row of `div.fmt`. -/
theorem table_of_isFpDiv {w : Word} (h : isFpDiv w = true) :
    table w = some 0b0100000000000010100 := by
  simp only [isFpDiv, Bool.and_eq_true, beq_iff_eq] at h
  obtain ⟨⟨hop, hformat⟩, hfunct⟩ := h
  have hcond : w.extractLsb' 4 4 ≠ 0b0011 := by
    intro hcond
    have hset : (w.extractLsb' 4 4).getLsbD 0 = true := by rw [hcond]; rfl
    have hclear : (funct w).getLsbD 4 = false := by rw [hfunct]; rfl
    simp only [funct, BitVec.getLsbD_extractLsb'] at hset hclear
    simp at hclear
    simp [hclear] at hset
  have hcop1 : cop1 w = some 0b0100000000000010100 := by
    rw [cop1, if_neg (by rw [hformat]; decide), if_pos hformat, if_neg hcond, hfunct]
    rfl
  rw [table, if_neg (by rw [hop]; decide), if_neg (by rw [hop]; decide), if_pos hop, hcop1]

/-- **No other row selects one of the operations**, but for the two of COP1. -/
theorem not_touches_of_table {w : Word} {b : BitVec 19} (ht : table w = some b)
    (hnone : HiLoOp.ofWord w = none) (hmul : isFpMul w = false) (hdiv : isFpDiv w = false) :
    touches (Controls.ofBits b).aluControl = false := by
  unfold table at ht
  split_ifs at ht with h0 h1 h2
  · exact not_touches_of_lookup writingFuncts (by decide) (funct_of_ofWord h0 hnone) ht
  · exact not_touches_of_lookup [] (by decide) List.not_mem_nil ht
  · unfold cop1 at ht
    split_ifs at ht with hbranch hbit hfmt hcond
    · obtain rfl := Option.some.inj ht
      decide
    · obtain rfl := Option.some.inj ht
      decide
    · obtain rfl := Option.some.inj ht
      decide
    · have hcop : (opcode w == 0b010001) = true := beq_iff_eq.mpr h2
      have hformat : (format w == 0b10000) = true := beq_iff_eq.mpr hfmt
      refine not_touches_of_lookup [0b000010, 0b000011] (by decide) ?_ ht
      simp only [List.mem_cons, List.not_mem_nil, or_false]
      rintro (hf | hf)
      · rw [isFpMul, hcop, hformat, hf] at hmul
        exact absurd hmul (by decide)
      · rw [isFpDiv, hcop, hformat, hf] at hdiv
        exact absurd hdiv (by decide)
    · exact not_touches_of_lookup [] (by decide) List.not_mem_nil ht
  · cases hl : opcodeTable.lookup (opcode w) with
    | none =>
      obtain rfl : 0 = b := by simpa [hl] using ht
      decide
    | some c =>
      obtain rfl : c = b := by simpa [hl] using ht
      exact not_touches_of_lookup [] (by decide) List.not_mem_nil hl

end Selection

/-- An instruction that ID hands to EXE: the word and where it stands, the outputs of
Decoder held before it, and the registers it reads through. -/
structure Instruction where
  view : View
  pc : Word
  word : Word
  held : Controls
  mapWr : Tag
  special : Tag

namespace Instruction

variable (x : Instruction)

/-- The value of its rs. -/
def rs : Word := x.view.read (regField x.word 21)

/-- The value of its rt. -/
def rt : Word := x.view.read (regField x.word 16)

/-- What the registers between ID and EXE hold. -/
def out : Id.Out := x.view.issue x.pc x.word x.held x.mapWr x.special

end Instruction

/-- What ID hands to EXE in a cycle: between two issue slots a bubble, and at an issue slot
an instruction, or the empty entry of a rename queue that has none. -/
inductive Handed
  | bubble
  | empty (view : View) (mapWr special : Tag)
  | instruction (x : Instruction)

/-- The registers between ID and EXE. -/
def Handed.out : Handed → Id.Out
  | bubble => 0
  | empty v mapWr special => Id.issue (v.inputs 0 mapWr special)
  | instruction x => x.out

/-- EXE before the falling edge of each cycle, where ID hands it `o`. -/
def exeRun (o : ℕ → Id.Out) : ℕ → Exe.State
  | 0 => Exe.reset
  | n + 1 => Exe.posedge (o n) (Exe.negedge (o n) (exeRun o n))

/-- What MIPS has left in HI and LO before the instruction of cycle `n`. -/
def hiLoAt (i : ℕ → Handed) : ℕ → HiLo
  | 0 => ⟨none, none⟩
  | n + 1 =>
    match i n with
    | .instruction x =>
      match HiLoOp.ofWord x.word with
      | some op => op.leaves x.rs x.rt (hiLoAt i n)
      | none => hiLoAt i n
    | _ => hiLoAt i n

/-- **The instruction writes HI and LO as it should**: MULT where the sign makes no
difference, no operation of COP1 on them, and no word without an entry that inherits
one. -/
structure Sound (x : Instruction) : Prop where
  mult : HiLoOp.ofWord x.word = some .mult → SignFree (w := 32) x.rs x.rt
  fpMul : isFpMul x.word = false
  fpDiv : isFpDiv x.word = true → x.rt = 0
  unlisted : table x.word = none → touches x.held.aluControl = false

/-- MFHI and MFLO. -/
def mfhi : Form := .register 0b010000

def mflo : Form := .register 0b010010

/-- **HI and LO at cycle `n` of a run**: MFHI and MFLO deliver what MIPS says they hold,
and a bubble or an instruction that writes neither keeps them. -/
structure Holds (i : ℕ → Handed) (n : ℕ) : Prop where
  fromHi : ∀ x v, i n = .instruction x → mfhi.encodes x.word = true → (hiLoAt i n).hi = some v →
    Delivers (exeRun (fun k => (i k).out) (n + 1)) (mfhi.destination x.word) v
  fromLo : ∀ x v, i n = .instruction x → mflo.encodes x.word = true → (hiLoAt i n).lo = some v →
    Delivers (exeRun (fun k => (i k).out) (n + 1)) (mflo.destination x.word) v
  kept : (∀ x, i n = .instruction x → HiLoOp.ofWord x.word = none) →
    (exeRun (fun k => (i k).out) (n + 1)).hi = (exeRun (fun k => (i k).out) n).hi ∧
      (exeRun (fun k => (i k).out) (n + 1)).lo = (exeRun (fun k => (i k).out) n).lo

section Step

variable (x : Instruction) (e : Exe.State) {op : HiLoOp}

namespace HiLoOp

/-- The encoding. -/
def form : HiLoOp → Form
  | mult => .register 0b011000
  | multu => .register 0b011001
  | div => .register 0b011010
  | divu => .register 0b011011
  | mthi => .register 0b010001
  | mtlo => .register 0b010011

theorem encodes_of_ofWord {w : Word} (h : ofWord w = some op) : op.form.encodes w = true := by
  unfold ofWord at h
  split_ifs at h with hop
  split at h <;> first
    | rename_i hf
      obtain rfl := Option.some.inj h
      rw [form, Form.encodes, hop, hf]
      rfl
    | exact absurd h.symm (Option.some_ne_none op)

/-- The row reads rt, unless the instruction moves rs. -/
def readsRt : HiLoOp → Bool
  | mult | multu | div | divu => true
  | mthi | mtlo => false

/-- **What the row of each instruction asks for.** -/
theorem row_cases (op : HiLoOp) : ∃ b, op.form.row = some b ∧
    (Controls.ofBits b).link = false ∧ (Controls.ofBits b).jump = false ∧
      (Controls.ofBits b).regDest = op.readsRt ∧
        ∀ i s, i.aluControl = (Controls.ofBits b).aluControl →
          outs (Alu.step i s) = op.writes i.a i.b (outs s) := by
  have hproduct (i : Alu.Inputs) := setWidth_mul_setWidth (w := 32) i.a i.b
  cases op with
  | mult =>
    refine ⟨_, rfl, by decide, by decide, by decide, fun i s hi => ?_⟩
    rw [Alu.step, hi]
    exact congrArg (fun p : BitVec 64 => (p.extractLsb' 32 32, p.extractLsb' 0 32)) (hproduct i)
  | multu =>
    refine ⟨_, rfl, by decide, by decide, by decide, fun i s hi => ?_⟩
    rw [Alu.step, hi]
    exact congrArg (fun p : BitVec 64 => (p.extractLsb' 32 32, p.extractLsb' 0 32)) (hproduct i)
  | div =>
    refine ⟨_, rfl, by decide, by decide, by decide, fun i s hi => ?_⟩
    rw [Alu.step, hi]
    exact apply_ite outs (i.b ≠ 0) _ _
  | divu =>
    refine ⟨_, rfl, by decide, by decide, by decide, fun i s hi => ?_⟩
    rw [Alu.step, hi]
    exact apply_ite outs (i.b ≠ 0) _ _
  | mthi => exact ⟨_, rfl, by decide, by decide, by decide, fun i s hi => by rw [Alu.step, hi]; rfl⟩
  | mtlo => exact ⟨_, rfl, by decide, by decide, by decide, fun i s hi => by rw [Alu.step, hi]; rfl⟩

/-- What moves rs does not depend on the second operand. -/
theorem writes_of_not_readsRt (h : op.readsRt = false) (a b b' : Word) (s : Word × Word) :
    op.writes a b s = op.writes a b' s := by
  cases op <;> first
    | rfl
    | exact Bool.noConfusion h

end HiLoOp

/-- **An instruction that writes HI or LO.** -/
theorem outs_of_ofWord (h : HiLoOp.ofWord x.word = some op) :
    outs (Exe.negedge x.out e).alu = op.writes x.rs x.rt (outs e.alu) := by
  obtain ⟨b, hrow, hl, hj, hd, hstep⟩ := op.row_cases
  have hc : decode x.word x.held = Controls.ofBits b :=
    decode_of_table (Form.table_of_encodes (HiLoOp.encodes_of_ofWord h) hrow) x.held
  have hcontrol : x.out.aluControl1Out = (Controls.ofBits b).aluControl :=
    congrArg Controls.aluControl hc
  have ha : x.out.operandA1Out = x.rs :=
    operandA_issue x.view x.pc x.held x.mapWr x.special hc hl hj
  refine (hstep _ e.alu hcontrol).trans ?_
  show op.writes x.out.operandA1Out x.out.operandB1Out _ = _
  rw [ha]
  cases hrt : op.readsRt with
  | true =>
    have hb : x.out.operandB1Out = x.rt :=
      operandB_issue_rt x.view x.pc x.held x.mapWr x.special hc hl (hd.trans hrt)
    rw [hb]
  | false => exact HiLoOp.writes_of_not_readsRt hrt _ _ _ _

/-- **An instruction that writes neither**, if it is sound. -/
theorem outs_of_sound (hs : Sound x) (h : HiLoOp.ofWord x.word = none) :
    outs (Exe.negedge x.out e).alu = outs e.alu := by
  have hcontrol : x.out.aluControl1Out = (decode x.word x.held).aluControl := rfl
  cases ht : table x.word with
  | none =>
    have hc := decode_of_none ht x.held
    refine outs_step_of_not_touches (i := ⟨_, _, _, _, x.out.aluControl1Out, _⟩) ?_ e.alu
    rw [hcontrol, hc]
    exact hs.unlisted ht
  | some b =>
    have hc := decode_of_table ht x.held
    cases hdiv : isFpDiv x.word with
    | false =>
      refine outs_step_of_not_touches (i := ⟨_, _, _, _, x.out.aluControl1Out, _⟩) ?_ e.alu
      rw [hcontrol, hc]
      exact not_touches_of_table ht h hs.fpMul hdiv
    | true =>
      -- `div.fmt` divides integers, and leaves HI and LO where the divisor is zero
      obtain rfl := Option.some.inj (ht.symm.trans (table_of_isFpDiv hdiv))
      have hb : x.out.operandB1Out = x.rt :=
        operandB_issue_rt x.view x.pc x.held x.mapWr x.special hc rfl rfl
      refine outs_step_div_zero (i := ⟨_, _, _, x.out.operandB1Out, x.out.aluControl1Out, _⟩) ?_ ?_
        e.alu
      · rw [hcontrol, hc]
        rfl
      · exact hb.trans (hs.fpDiv hdiv)

end Step

section Run

variable {i : ℕ → Handed} {n : ℕ}

/-- HI and LO are copies of what the ALU holds. -/
theorem hiLo_exeRun (o : ℕ → Id.Out) (n : ℕ) :
    ((exeRun o n).hi, (exeRun o n).lo) = outs (exeRun o n).alu := by
  cases n with
  | zero => rfl
  | succ n => rfl

theorem hiLo_exeRun_succ (o : ℕ → Id.Out) (n : ℕ) :
    ((exeRun o (n + 1)).hi, (exeRun o (n + 1)).lo) =
      outs (Exe.negedge (o n) (exeRun o n)).alu := rfl

/-- A control of zeros adds, and keeps both. -/
theorem outs_of_control {o : Id.Out} (h : o.aluControl1Out = 0) (e : Exe.State) :
    outs (Exe.negedge o e).alu = outs e.alu :=
  outs_step_of_not_touches (i := ⟨_, _, _, _, o.aluControl1Out, _⟩) (by rw [h]; rfl) e.alu

/-- **A bubble or an instruction that writes neither keeps both.** -/
theorem hiLo_kept (hs : ∀ x, i n = .instruction x → Sound x)
    (hnone : ∀ x, i n = .instruction x → HiLoOp.ofWord x.word = none) :
    ((exeRun (fun k => (i k).out) (n + 1)).hi, (exeRun (fun k => (i k).out) (n + 1)).lo) =
      ((exeRun (fun k => (i k).out) n).hi, (exeRun (fun k => (i k).out) n).lo) := by
  rw [hiLo_exeRun_succ, hiLo_exeRun]
  cases hi : i n with
  | bubble => exact outs_of_control rfl _
  | empty v mapWr special => exact outs_of_control rfl _
  | instruction x => exact outs_of_sound x _ (hs x hi) (hnone x hi)

/-- What MIPS has left stays where nothing writes it. -/
theorem hiLoAt_kept (hnone : ∀ x, i n = .instruction x → HiLoOp.ofWord x.word = none) :
    hiLoAt i (n + 1) = hiLoAt i n := by
  rw [hiLoAt]
  cases hi : i n with
  | bubble => rfl
  | empty v mapWr special => rfl
  | instruction x =>
    dsimp only
    rw [hnone x hi]

/-- **EXE agrees with MIPS** as long as every instruction is sound. -/
theorem agrees_run (h : ∀ k < n, ∀ x, i k = .instruction x → Sound x) :
    Agrees (hiLoAt i n)
      ((exeRun (fun k => (i k).out) n).hi, (exeRun (fun k => (i k).out) n).lo) := by
  induction n with
  | zero => exact agrees_none
  | succ n ih =>
    have hbefore := ih fun k hk => h k (Nat.lt_succ_of_lt hk)
    have hs := h n (Nat.lt_succ_self n)
    by_cases hwrite : ∃ x op, i n = .instruction x ∧ HiLoOp.ofWord x.word = some op
    · obtain ⟨x, op, hi, hop⟩ := hwrite
      have hout := outs_of_ofWord x (exeRun (fun k => (i k).out) n) hop
      have hafter : hiLoAt i (n + 1) = op.leaves x.rs x.rt (hiLoAt i n) := by
        rw [hiLoAt, hi]
        dsimp only
        rw [hop]
      rw [hiLo_exeRun] at hbefore
      rw [hiLo_exeRun_succ, hafter, hi, show (Handed.instruction x).out = x.out from rfl, hout]
      refine hbefore.write op ?_
      rintro rfl
      exact (hs x hi).mult hop
    · have hnone : ∀ x, i n = .instruction x → HiLoOp.ofWord x.word = none := by
        intro x hi
        by_contra hop
        obtain ⟨op, hop⟩ := Option.ne_none_iff_exists'.mp hop
        exact hwrite ⟨x, op, hi, hop⟩
      rw [hiLo_kept hs hnone, hiLoAt_kept hnone]
      exact hbefore

theorem mfhi_computes : Computes mfhi false Operands.hi :=
  ⟨_, rfl, by decide, by decide, fun i s hi => by rw [Alu.step, hi]; rfl⟩

theorem mflo_computes : Computes mflo false Operands.lo :=
  ⟨_, rfl, by decide, by decide, fun i s hi => by rw [Alu.step, hi]; rfl⟩

/-- What EXE hands on for the instruction of cycle `n`. -/
theorem delivers_exeRun {x : Instruction} (hi : i n = .instruction x) {f : Form} {signed : Bool}
    {g : Operands → Word} (hg : Computes f signed g) (h : f.encodes x.word = true) :
    Delivers (exeRun (fun k => (i k).out) (n + 1)) (f.destination x.word)
      (g (operands x.view f signed x.word (exeRun (fun k => (i k).out) n))) := by
  have hd := delivers_of_computes x.view x.pc x.held x.mapWr x.special
    (exeRun (fun k => (i k).out) n) hg h
  have hstep : exeRun (fun k => (i k).out) (n + 1) = executedState x.view x.pc x.word x.held
      x.mapWr x.special (exeRun (fun k => (i k).out) n) := by
    rw [exeRun, hi]
    rfl
  rwa [← hstep] at hd

/-- **HI and LO over a run**: as long as every instruction is sound, MFHI and MFLO deliver
what the last instruction to write them has left, and nothing else changes them. -/
theorem hiLo_run (i : ℕ → Handed) (n : ℕ) (h : ∀ k ≤ n, ∀ x, i k = .instruction x → Sound x) :
    Holds i n := by
  obtain ⟨hhi, hlo⟩ := agrees_run (n := n) fun k hk => h k hk.le
  refine ⟨fun x v hi hx hv => ?_, fun x v hi hx hv => ?_, fun hnone => ?_⟩
  · obtain rfl := hhi v hv
    exact delivers_exeRun hi mfhi_computes hx
  · obtain rfl := hlo v hv
    exact delivers_exeRun hi mflo_computes hx
  · have hkept := hiLo_kept (h n le_rfl) hnone
    exact ⟨congrArg Prod.fst hkept, congrArg Prod.snd hkept⟩

/-- A word handed on at `0xBFC00000` where `$1` holds -1. -/
def fromMinusOne (w : Word) : Instruction := ⟨minusOne, 0xBFC00000, w, 0, 0, 0⟩

/-- The word `w`, `mfhi $3` and bubbles. -/
def thenMfhi (w : Word) (n : ℕ) : Handed :=
  if n = 0 then .instruction (fromMinusOne w)
  else if n = 1 then .instruction (fromMinusOne 0x00001810)
  else .bubble

theorem sound_thenMfhi {w : Word} (hw : Sound (fromMinusOne w)) (k : ℕ) (x : Instruction)
    (hx : thenMfhi w k = .instruction x) : Sound x := by
  unfold thenMfhi at hx
  split_ifs at hx
  · obtain rfl := Handed.instruction.inj hx
    exact hw
  · obtain rfl := Handed.instruction.inj hx
    exact ⟨fun h => absurd h (by decide), rfl, fun h => absurd h (by decide),
      fun h => absurd h (by decide)⟩

/-- After `multu $1, $1` it delivers the upper half of the square of `0xFFFFFFFF`. -/
theorem hiLo_run_multu :
    Delivers (exeRun (fun k => (thenMfhi 0x00210019 k).out) 2) 3 0xFFFFFFFE :=
  (hiLo_run (thenMfhi 0x00210019) 1 fun k _ => sound_thenMfhi
    ⟨fun h => absurd h (by decide), rfl, fun h => absurd h (by decide),
      fun h => absurd h (by decide)⟩ k).fromHi (fromMinusOne 0x00001810) 0xFFFFFFFE rfl (by decide)
    (by decide)

/-- After `mult $1, $1` too, where the upper half of the square of -1 is 0. -/
theorem not_hiLo_run : ¬∀ (i : ℕ → Handed) (n : ℕ), Holds i n := by
  intro h
  have hhi := (h (thenMfhi 0x00210018) 1).fromHi (fromMinusOne 0x00001810) 0 rfl (by decide)
    (by decide)
  exact absurd hhi.result (by decide)

end Run

section Core

variable {env : ℕ → Mips → Input}

/-- **EXE of the core** makes such a run of what ID hands it. -/
theorem exe_eq_exeRun (n : ℕ) : (run env n).exe =
    Exe.negedge (run env n).id.out (exeRun (fun k => (run env k).id.out) n) := by
  induction n with
  | zero => rfl
  | succ n ih =>
    show Exe.negedge (run env (n + 1)).id.out (Exe.posedge (run env n).id.out (run env n).exe) = _
    rw [ih]
    rfl

/-- **What ID hands on in a run of the core** is a bubble, an empty entry or an
instruction. -/
theorem out_eq_handed (hsys : SysWritesNonzero env) (n : ℕ) :
    ∃ h : Handed, (run env n).id.out = h.out := by
  by_cases hslot : n % 4 = 1
  · obtain ⟨m, rfl⟩ : ∃ m, n = m + 1 := ⟨n - 1, by omega⟩
    have hm : m % 4 = 0 := by omega
    have hissued := issued_eq_view hsys hm
    rcases entry_renameQueueOut env (S := fun _ => True) trivial (fun _ => trivial) m with
      hzero | ⟨pc, w, c, -, -, hentry⟩
    · rw [hzero] at hissued
      exact ⟨.empty _ _ _, hissued⟩
    · rw [hentry] at hissued
      exact ⟨.instruction ⟨_, pc, w, c, _, _⟩, hissued⟩
  · exact ⟨.bubble, out_of_ne env hslot⟩

end Core

end Mips
end OooProcessor
