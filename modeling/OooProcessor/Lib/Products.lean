/-
# Signed and unsigned products

The product of two words in double width, the words read as signed numbers or as
unsigned ones.  They are the same if and only if the sign makes no difference: no factor
is negative, one is zero, or both are the least number (`signedProduct_eq_iff`).
-/

import Mathlib.Algebra.Ring.Divisibility.Basic
import Mathlib.Data.BitVec
import Mathlib.Tactic.Common
import Mathlib.Tactic.Ring

namespace OooProcessor
namespace Lib

variable {w : ℕ}

def signedProduct (a b : BitVec w) : BitVec (w + w) := BitVec.ofInt (w + w) (a.toInt * b.toInt)

def unsignedProduct (a b : BitVec w) : BitVec (w + w) := BitVec.ofNat (w + w) (a.toNat * b.toNat)

/-- No factor is negative, one is zero, or both are the least number. -/
def SignFree (a b : BitVec w) : Prop :=
  (a.msb = false ∧ b.msb = false) ∨ a = 0 ∨ b = 0 ∨ (a = BitVec.intMin w ∧ b = BitVec.intMin w)

instance (a b : BitVec w) : Decidable (SignFree a b) := inferInstanceAs (Decidable (_ ∨ _))

variable {a b : BitVec w}

theorem setWidth_mul_setWidth (a b : BitVec w) :
    a.setWidth (w + w) * b.setWidth (w + w) = unsignedProduct a b := by
  apply BitVec.eq_of_toNat_eq
  rw [BitVec.toNat_mul, BitVec.toNat_setWidth, BitVec.toNat_setWidth, unsignedProduct,
    BitVec.toNat_ofNat, ← Nat.mul_mod]

/-- When two numbers are the same word. -/
theorem ofInt_eq_ofInt_iff {n : ℕ} {x y : ℤ} :
    BitVec.ofInt n x = BitVec.ofInt n y ↔ (2 : ℤ) ^ n ∣ x - y := by
  rw [← BitVec.toInt_inj, BitVec.toInt_ofInt, BitVec.toInt_ofInt,
    Int.bmod_eq_bmod_iff_bmod_sub_eq_zero, ← Int.dvd_iff_bmod_eq_zero]
  norm_cast

/-- What a negative factor takes from the product. -/
def excess (a b : BitVec w) : ℕ :=
  (if a.msb then b.toNat else 0) + (if b.msb then a.toNat else 0)

/-- The signed product is the unsigned one less the excess, which starts at the upper
half. -/
theorem toInt_mul_toInt (a b : BitVec w) : ∃ k : ℤ,
    a.toInt * b.toInt - (a.toNat * b.toNat : ℕ) = 2 ^ (w + w) * k - 2 ^ w * excess a b := by
  rw [BitVec.toInt_eq_msb_cond, BitVec.toInt_eq_msb_cond, excess, pow_add]
  cases a.msb <;> cases b.msb
  · exact ⟨0, by simp⟩
  · exact ⟨0, by simp; ring⟩
  · exact ⟨0, by simp; ring⟩
  · exact ⟨1, by simp; ring⟩

theorem products_eq_iff_dvd (a b : BitVec w) :
    signedProduct a b = unsignedProduct a b ↔ 2 ^ w ∣ excess a b := by
  have hpow : (2 : ℤ) ^ w ≠ 0 := pow_ne_zero _ (by decide)
  obtain ⟨k, hk⟩ := toInt_mul_toInt a b
  rw [signedProduct, unsignedProduct, ← BitVec.ofInt_natCast, ofInt_eq_ofInt_iff, hk]
  constructor
  · intro h
    have hdvd : (2 : ℤ) ^ (w + w) ∣ 2 ^ w * excess a b :=
      (dvd_sub_right (dvd_mul_right _ k)).mp h
    rw [pow_add, Int.mul_dvd_mul_iff_left hpow] at hdvd
    exact_mod_cast hdvd
  · intro h
    refine dvd_sub (dvd_mul_right _ k) ?_
    rw [pow_add]
    exact mul_dvd_mul_left _ (by exact_mod_cast h)

/-- Two negative factors add up to the whole range only if both are the least. -/
theorem eq_intMin_of_dvd {a b : BitVec w} (hma : a.msb = true) (hmb : b.msb = true)
    (h : 2 ^ w ∣ b.toNat + a.toNat) : a = BitVec.intMin w ∧ b = BitVec.intMin w := by
  have ha := a.isLt
  have hb := b.isLt
  have hga := BitVec.msb_eq_true_iff_two_mul_ge.mp hma
  have hgb := BitVec.msb_eq_true_iff_two_mul_ge.mp hmb
  obtain ⟨c, hc⟩ := h
  have hc1 : c = 1 := by
    rcases Nat.lt_trichotomy c 1 with hlt | heq | hgt
    · obtain rfl : c = 0 := by omega
      omega
    · exact heq
    · have := Nat.mul_le_mul_left (2 ^ w) hgt
      omega
  subst hc1
  have hw : 0 < w := by
    by_contra h0
    obtain rfl : w = 0 := by omega
    omega
  have hhalf : 2 * 2 ^ (w - 1) = 2 ^ w := by rw [← pow_succ', Nat.sub_add_cancel hw]
  have hmin (x : BitVec w) (hx : 2 * x.toNat = 2 ^ w) : x = BitVec.intMin w := by
    apply BitVec.eq_of_toNat_eq
    rw [BitVec.toNat_intMin_of_pos hw]
    omega
  exact ⟨hmin a (by omega), hmin b (by omega)⟩

/-- **The products are the same** if and only if the sign makes no difference. -/
theorem signedProduct_eq_iff (a b : BitVec w) :
    signedProduct a b = unsignedProduct a b ↔ SignFree a b := by
  have hzero (x : BitVec w) (hx : 2 ^ w ∣ x.toNat) : x = 0 :=
    BitVec.eq_of_toNat_eq (Nat.eq_zero_of_dvd_of_lt hx x.isLt)
  rw [products_eq_iff_dvd]
  constructor
  · intro h
    cases hma : a.msb <;> cases hmb : b.msb <;>
      simp only [excess, hma, hmb, Bool.false_eq_true, if_false, if_true, Nat.zero_add,
        Nat.add_zero] at h
    · exact .inl ⟨hma, hmb⟩
    · exact .inr (.inl (hzero a h))
    · exact .inr (.inr (.inl (hzero b h)))
    · exact .inr (.inr (.inr (eq_intMin_of_dvd hma hmb h)))
  · rintro (⟨hma, hmb⟩ | rfl | rfl | ⟨rfl, rfl⟩)
    · simp [excess, hma, hmb]
    · simp [excess]
    · simp [excess]
    · rcases Nat.eq_zero_or_pos w with rfl | hw
      · simp
      · rw [excess, BitVec.msb_intMin, decide_eq_true hw, if_pos rfl,
          BitVec.toNat_intMin_of_pos hw, ← Nat.two_mul, ← pow_succ', Nat.sub_add_cancel hw]

end Lib
end OooProcessor
