/-
# Set on less than

`ALU.v` compares for SLT in a chain of tests: rs is not less where only the second operand
is negative, nor where the low 31 bits of rs are the greater, nor where both are equal.  The
second test comes too early where only rs is negative, since its low bits then say
nothing (`signedChain_iff`).  SLTU and SLTIU compare all 32 bits at once.
-/

import OooProcessor.Core.Operands

namespace OooProcessor
namespace Mips

/-- SLT, SLTI, SLTU and SLTIU. -/
inductive SetLessOp
  | slt | slti | sltu | sltiu

namespace SetLessOp

def form : SetLessOp → Form
  | slt => .register 0b101010
  | slti => .immediate 0b001010
  | sltu => .register 0b101011
  | sltiu => .immediate 0b001011

/-- The comparison is one of signed numbers. -/
def isSigned : SetLessOp → Bool
  | slt | slti => true
  | sltu | sltiu => false

/-- The first operand is less than the second. -/
def less (op : SetLessOp) (a b : Word) : Bool :=
  if op.isSigned then decide (a.toInt < b.toInt) else decide (a.toNat < b.toNat)

/-- The second operand: rt, or the immediate extended with its sign. -/
def second (op : SetLessOp) (w b : Word) : Word := op.form.second true w b

end SetLessOp

/-- The chain of `slt`. -/
def signedChain (a b : Word) : Word :=
  if a.msb.toNat < b.msb.toNat then 0
  else if a.extractLsb' 0 31 > b.extractLsb' 0 31 then 0
  else if a = b then 0
  else 1

/-- The chain of `sltu`. -/
def unsignedChain (a b : Word) : Word := if a > b then 0 else if a = b then 0 else 1

section Chains

/-- rs is negative, the second operand is not, and the low bits of rs are the greater. -/
def Early (a b : Word) : Prop :=
  a.toInt < 0 ∧ 0 ≤ b.toInt ∧ b.extractLsb' 0 31 < a.extractLsb' 0 31

instance (a b : Word) : Decidable (Early a b) := inferInstanceAs (Decidable (_ ∧ _))

/-- A word is its low 31 bits, less the weight of its sign. -/
theorem toInt_eq_low (x : Word) :
    x.toInt = (x.extractLsb' 0 31).toNat - (if x.msb then 2 ^ 31 else 0) := by
  have hlt := x.isLt
  have hlow : (x.extractLsb' 0 31).toNat = x.toNat % 2 ^ 31 := by
    rw [BitVec.extractLsb'_toNat, Nat.shiftRight_zero]
  rw [hlow, BitVec.toInt_eq_msb_cond, BitVec.msb_eq_decide]
  split_ifs with h
  · rw [decide_eq_true_iff] at h
    omega
  · rw [decide_eq_true_iff] at h
    omega

/-- **The chain of `slt`** is the order of signed numbers but where it stops early. -/
theorem signedChain_eq (a b : Word) :
    signedChain a b = if a.toInt < b.toInt ∧ ¬Early a b then 1 else 0 := by
  have ha := toInt_eq_low a
  have hb := toInt_eq_low b
  have hla := (a.extractLsb' 0 31).isLt
  have hlb := (b.extractLsb' 0 31).isLt
  simp only [signedChain, Early, gt_iff_lt, BitVec.lt_def, ← BitVec.toInt_inj]
  cases hma : a.msb <;> cases hmb : b.msb <;> rw [hma] at ha <;> rw [hmb] at hb <;>
    simp only [Bool.toNat_true, Bool.toNat_false, Bool.false_eq_true, if_false, if_true,
      Nat.lt_irrefl, Nat.zero_lt_one, Nat.not_lt_zero] at ha hb ⊢ <;>
    split_ifs <;> first | rfl | omega

theorem signedChain_iff (a b : Word) :
    signedChain a b = (if a.toInt < b.toInt then 1 else 0) ↔ ¬Early a b := by
  have hne : (1 : Word) ≠ 0 := by decide
  rw [signedChain_eq]
  by_cases hlt : a.toInt < b.toInt
  · by_cases hearly : Early a b
    · simp [hlt, hearly]
    · simp [hlt, hearly]
  · have hno : ¬Early a b := fun h => hlt (lt_of_lt_of_le h.1 h.2.1)
    simp [hlt, hno]

/-- The chain of `sltu` is the order of unsigned numbers. -/
theorem unsignedChain_eq (a b : Word) :
    unsignedChain a b = if a.toNat < b.toNat then 1 else 0 := by
  simp only [unsignedChain, gt_iff_lt, BitVec.lt_def, ← BitVec.toNat_inj]
  split_ifs <;> first | rfl | omega

end Chains

namespace SetLessOp

/-- The chain that the row selects. -/
def chain (op : SetLessOp) (a b : Word) : Word :=
  if op.isSigned then signedChain a b else unsignedChain a b

/-- **Every row selects its chain**, and extends the immediate with its sign. -/
theorem computes (op : SetLessOp) : Computes op.form (op.form.isRegister.not) fun o =>
    op.chain o.a o.b := by
  cases op <;>
    exact ⟨_, rfl, by decide, by decide, fun i s hi => by rw [Alu.step, hi]; rfl⟩

/-- The result is right but where the chain of a signed comparison stops early. -/
theorem chain_iff (op : SetLessOp) (a b : Word) :
    op.chain a b = (if op.less a b then 1 else 0) ↔ (op.isSigned = true → ¬Early a b) := by
  unfold chain less
  cases op.isSigned with
  | true =>
    have h := signedChain_iff a b
    simpa using h
  | false =>
    have h := unsignedChain_eq a b
    simpa using h

end SetLessOp

/-- **What a set on less than sets** is the order of rs and the second operand if and only
if the comparison is not a signed one that stops early. -/
theorem setsLess_iff (op : SetLessOp) (v : View) (pc w : Word) (held : Controls)
    (mapWr special : Tag) (e : Exe.State) (h : op.form.encodes w = true) :
    Delivers (executedState v pc w held mapWr special e) (op.form.destination w)
        (if op.less (v.read (regField w 21)) (op.second w (v.read (regField w 16))) then 1 else 0) ↔
      (op.isSigned = true →
        ¬Early (v.read (regField w 21)) (op.second w (v.read (regField w 16)))) := by
  have hsecond : op.form.second op.form.isRegister.not w (v.read (regField w 16)) =
      op.second w (v.read (regField w 16)) := by
    cases op <;> rfl
  rw [delivers_iff v pc held mapWr special e op.computes h, operands, hsecond]
  exact op.chain_iff _ _

/-- `sltu $3, $1, $0`, where `$1` holds -1. -/
theorem setsLess_iff_sltu :
    Delivers (executedState minusOne 0xBFC00000 0x0020182B 0 0 0 Exe.reset) 3 0 :=
  (setsLess_iff .sltu minusOne 0xBFC00000 0x0020182B 0 0 0 Exe.reset (by decide)).mpr
    fun h => Bool.noConfusion h

/-- `slt $3, $1, $0` sets 0 for -1 and 0. -/
theorem not_setsLess_slt : ¬∀ (op : SetLessOp) (v : View) (pc w : Word) (held : Controls)
    (mapWr special : Tag) (e : Exe.State), op.form.encodes w = true →
      Delivers (executedState v pc w held mapWr special e) (op.form.destination w)
        (if op.less (v.read (regField w 21)) (op.second w (v.read (regField w 16))) then 1
        else 0) := by
  intro h
  have hslt := h .slt minusOne 0xBFC00000 0x0020182A 0 0 0 Exe.reset (by decide)
  exact absurd hslt.result (by decide)

end Mips
end OooProcessor
