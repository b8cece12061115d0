/-
# Shifts

SRA and SRAV shift to the right and then set the bits that came in one by one, each
under a test of the amount; all 32 amounts come out as arithmetic shifts
(`signPatch_eq`).  SRLV and SRAV take the low five bits of rs for the amount.  SLLV takes
all of rs, so that 32 and more shift everything out (`shifts_iff`).
-/

import OooProcessor.Core.Operands

namespace OooProcessor
namespace Mips

/-- The shifts by the shamt field and by rs. -/
inductive ShiftOp
  | sll | srl | sra | sllv | srlv | srav

namespace ShiftOp

def form : ShiftOp → Form
  | sll => .register 0b000000
  | srl => .register 0b000010
  | sra => .register 0b000011
  | sllv => .register 0b000100
  | srlv => .register 0b000110
  | srav => .register 0b000111

/-- The amount in MIPS: the shamt field, or rs modulo 32. -/
def amount (op : ShiftOp) (w a : Word) : ℕ :=
  match op with
  | sll | srl | sra => (w.extractLsb' 6 5).toNat
  | sllv | srlv | srav => a.toNat % 32

/-- The result in MIPS, for the values `a` of rs and `b` of rt. -/
def result (op : ShiftOp) (w a b : Word) : Word :=
  match op with
  | sll | sllv => b <<< op.amount w a
  | srl | srlv => b >>> op.amount w a
  | sra | srav => b.sshiftRight (op.amount w a)

/-- The operation of `ALU.v` that the row selects. -/
def operation (op : ShiftOp) (a b : Word) (shamt : BitVec 5) : Word :=
  match op with
  | sll => b <<< shamt.toNat
  | srl => b >>> shamt.toNat
  | sra => Alu.signPatch b shamt
  | sllv => b <<< a.toNat
  | srlv => b >>> (a.extractLsb' 0 5).toNat
  | srav => Alu.signPatch b (a.extractLsb' 0 5)

/-- **Every row selects its operation.** -/
theorem computes (op : ShiftOp) : Computes op.form false fun o =>
    op.operation o.a o.b o.shamt := by
  cases op <;>
    exact ⟨_, rfl, by decide, by decide, fun i s hi => by rw [Alu.step, hi]; rfl⟩

end ShiftOp

section Patches

variable {t b : Word} {j k n : ℕ}

/-- One patch of `temp`. -/
def patch (sign : Bool) (n : ℕ) (t : Word) : Word :=
  if sign then t ||| (1#32 <<< n) else t &&& ~~~(1#32 <<< n)

/-- A patch sets one bit. -/
theorem getLsbD_patch (sign : Bool) (hj : j < 32) :
    (patch sign n t).getLsbD j = if j = n then sign else t.getLsbD j := by
  have hone : (1#32 <<< n).getLsbD j = decide (j = n) := by
    rw [BitVec.getLsbD_shiftLeft, BitVec.getLsbD_one]
    by_cases h : j = n
    · simp [h]
      omega
    · simp [h, hj]
      omega
  unfold patch
  cases sign with
  | true =>
    rw [if_pos rfl, BitVec.getLsbD_or, hone]
    by_cases h : j = n <;> simp [h]
  | false =>
    rw [if_neg Bool.false_ne_true, BitVec.getLsbD_and, BitVec.getLsbD_not, hone]
    by_cases h : j = n <;> simp [h, hj]

/-- The bits after the first `m` patches. -/
theorem getLsbD_patches (b : Word) (sh m : ℕ) (hm : m ≤ 32) (hj : j < 32) :
    ((List.range m).foldl (fun t k => if k ≤ sh then patch b.msb (31 - k) t else t)
        (b >>> sh)).getLsbD j =
      if 31 - j < m ∧ 31 - j ≤ sh then b.msb else b.getLsbD (sh + j) := by
  induction m with
  | zero => simp [BitVec.getLsbD_ushiftRight]
  | succ m ih =>
    rw [List.range_succ, List.foldl_append, List.foldl_cons, List.foldl_nil]
    split_ifs with hsh hj' hj'
    · rw [getLsbD_patch _ hj, ih (by omega)]
      by_cases h : j = 31 - m
      · rw [if_pos h]
      · rw [if_neg h, if_pos (by omega)]
    · rw [getLsbD_patch _ hj, ih (by omega), if_neg (by omega), if_neg (by omega)]
    · rw [ih (by omega), if_pos (by omega)]
    · rw [ih (by omega), if_neg (by omega)]

/-- **The patches make an arithmetic shift.** -/
theorem signPatch_eq (b : Word) (sh : BitVec 5) :
    Alu.signPatch b sh = b.sshiftRight sh.toNat := by
  have hsh := sh.isLt
  apply BitVec.eq_of_getLsbD_eq
  intro j hj
  refine (getLsbD_patches b sh.toNat 32 le_rfl hj).trans ?_
  have hin : (!decide (32 ≤ j)) = true := by simp [hj]
  rw [BitVec.getLsbD_sshiftRight, hin, Bool.true_and]
  rcases Nat.lt_trichotomy (sh.toNat + j) 31 with hlt | heq | hgt
  · rw [if_neg (by omega), if_pos (by omega)]
  · -- the sign itself, which the first patch writes as well
    rw [if_pos (by omega), if_pos (by omega), heq]
    exact BitVec.msb_eq_getLsbD_last b
  · rw [if_pos (by omega), if_neg (by omega)]

end Patches

namespace ShiftOp

/-- An amount of 32 or more. -/
theorem shiftLeft_toNat_iff (a b : Word) :
    b <<< a.toNat = b <<< (a.toNat % 32) ↔ a.toNat < 32 ∨ b <<< (a.toNat % 32) = 0 := by
  rcases Nat.lt_or_ge a.toNat 32 with hlt | hge
  · simp [hlt, Nat.mod_eq_of_lt hlt]
  · rw [BitVec.shiftLeft_eq_zero hge]
    constructor
    · intro h
      exact .inr h.symm
    · rintro (h | h)
      · omega
      · exact h.symm

/-- The operation on the operands is the result in MIPS, but for SLLV by 32 and more. -/
theorem operation_iff (op : ShiftOp) (w a b : Word) :
    op.operation a b (w.extractLsb' 6 5) = op.result w a b ↔
      (op = sllv → a.toNat < 32 ∨ b <<< (a.toNat % 32) = 0) := by
  cases op with
  | sll => simp [operation, result, amount]
  | srl => simp [operation, result, amount]
  | sra => simp [operation, result, amount, signPatch_eq]
  | sllv => simpa [operation, result, amount] using shiftLeft_toNat_iff a b
  | srlv => simp [operation, result, amount]
  | srav => simp [operation, result, amount, signPatch_eq]

end ShiftOp

/-- **A shift delivers the result of MIPS** if and only if it is not SLLV by 32 or more of a
word that the amount modulo 32 does not shift out. -/
theorem shifts_iff (op : ShiftOp) (v : View) (pc w : Word) (held : Controls)
    (mapWr special : Tag) (e : Exe.State) (h : op.form.encodes w = true) :
    Delivers (executedState v pc w held mapWr special e) (op.form.destination w)
        (op.result w (v.read (regField w 21)) (v.read (regField w 16))) ↔
      (op = .sllv → (v.read (regField w 21)).toNat < 32 ∨
        v.read (regField w 16) <<< ((v.read (regField w 21)).toNat % 32) = 0) := by
  have hsecond : op.form.second false w (v.read (regField w 16)) = v.read (regField w 16) := by
    cases op <;> rfl
  rw [delivers_iff v pc held mapWr special e op.computes h, operands, hsecond]
  exact op.operation_iff w _ _

/-- `$1` holds 32, `$2` holds 1 and every other register 0. -/
def thirtyTwo : View where
  frat := TableObj.reset.arr
  regs t := if t = 1 then 32 else if t = 2 then 1 else 0
  zero := rfl

/-- `srlv $3, $2, $1` shifts by 0. -/
theorem shifts_iff_srlv :
    Delivers (executedState thirtyTwo 0xBFC00000 0x00221806 0 0 0 Exe.reset) 3 1 := by
  have h := (shifts_iff .srlv thirtyTwo 0xBFC00000 0x00221806 0 0 0 Exe.reset (by decide)).mpr
    fun h => nomatch h
  have hval : ShiftOp.srlv.result 0x00221806 (thirtyTwo.read (regField 0x00221806 21))
      (thirtyTwo.read (regField 0x00221806 16)) = 1 := by decide
  rwa [hval] at h

/-- `sllv $3, $2, $1` shifts everything out. -/
theorem not_shifts_sllv : ¬∀ (op : ShiftOp) (v : View) (pc w : Word) (held : Controls)
    (mapWr special : Tag) (e : Exe.State), op.form.encodes w = true →
      Delivers (executedState v pc w held mapWr special e) (op.form.destination w)
        (op.result w (v.read (regField w 21)) (v.read (regField w 16))) := by
  intro h
  have hsllv := h .sllv thirtyTwo 0xBFC00000 0x00221804 0 0 0 Exe.reset (by decide)
  exact absurd hsllv.result (by decide)

end Mips
end OooProcessor
