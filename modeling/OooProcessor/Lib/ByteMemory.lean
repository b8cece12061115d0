/-
# A memory of bytes

A memory maps an address of `w` bits to a byte, and addresses wrap.  `put` writes
`k` consecutive bytes; two adjacent blocks written one after the other are one
block (`put_put`).  A number is kept most significant byte first: `byteOf k v` are
the low `k` bytes of a vector in that order, `number` reads them back
(`number_byteOf`, `byteOf_ofNat_number`).
-/

import Mathlib.Data.Nat.ModEq
import Mathlib.Logic.Function.Basic
import Mathlib.Tactic.Common
import Mathlib.Tactic.Ring
import Mathlib.Tactic.SplitIfs

namespace OooProcessor
namespace Lib

variable {w n k : ℕ}

/-- A memory of `2^w` bytes. -/
abbrev Memory (w : ℕ) := BitVec w → BitVec 8

/-- Write the bytes `f 0`, …, `f (k - 1)` from address `a` on. -/
def put (m : Memory w) (a : BitVec w) (k : ℕ) (f : ℕ → BitVec 8) : Memory w :=
  fun x => if (x - a).toNat < k then f (x - a).toNat else m x

/-- The `k` bytes from address `a` on. -/
def bytesAt (m : Memory w) (a : BitVec w) : ℕ → List (BitVec 8)
  | 0 => []
  | k + 1 => m a :: bytesAt m (a + 1) k

/-- Byte `i` of the low `k` bytes of `v`, most significant first. -/
def byteOf (k : ℕ) (v : BitVec n) (i : ℕ) : BitVec 8 := v.extractLsb' (8 * (k - 1 - i)) 8

/-- The number that the bytes `f 0`, …, `f (k - 1)` are the digits of. -/
def number (f : ℕ → BitVec 8) : ℕ → ℕ
  | 0 => 0
  | k + 1 => 256 * number f k + (f k).toNat

section BytesAt

variable {m : Memory w} {a : BitVec w}

@[simp] theorem length_bytesAt (k : ℕ) : (bytesAt m a k).length = k := by
  induction k generalizing a with
  | zero => rfl
  | succ k ih => rw [bytesAt, List.length_cons, ih]

theorem add_one_ofNat (a : BitVec w) (i : ℕ) :
    a + 1 + BitVec.ofNat w i = a + BitVec.ofNat w (i + 1) := by
  rw [BitVec.add_assoc, Nat.add_comm i 1, BitVec.ofNat_add]
  rfl

theorem getElem?_bytesAt {i : ℕ} (hi : i < k) :
    (bytesAt m a k)[i]? = some (m (a + BitVec.ofNat w i)) := by
  induction k generalizing a i with
  | zero => omega
  | succ k ih =>
    cases i with
    | zero => rw [bytesAt, List.getElem?_cons_zero, BitVec.add_zero]
    | succ i => rw [bytesAt, List.getElem?_cons_succ, ih (by omega), add_one_ofNat]

end BytesAt

section Put

variable {m : Memory w} {a x : BitVec w} {f g : ℕ → BitVec 8}

theorem put_of_lt (h : (x - a).toNat < k) : put m a k f x = f (x - a).toNat := if_pos h

theorem put_of_le (h : k ≤ (x - a).toNat) : put m a k f x = m x := if_neg (by omega)

/-- The distance of an address from `a`. -/
theorem toNat_add_sub {i : ℕ} (h : i < 2 ^ w) : (a + BitVec.ofNat w i - a).toNat = i := by
  rw [BitVec.add_comm, BitVec.add_sub_cancel, BitVec.toNat_ofNat, Nat.mod_eq_of_lt h]

/-- What was put there is there. -/
theorem put_add {i : ℕ} (hi : i < k) (hk : k ≤ 2 ^ w) :
    put m a k f (a + BitVec.ofNat w i) = f i := by
  have hd : (a + BitVec.ofNat w i - a).toNat = i := toNat_add_sub (hi.trans_le hk)
  rw [put_of_lt (by rw [hd]; exact hi), hd]

theorem put_congr (h : ∀ i < k, f i = g i) : put m a k f = put m a k g := by
  funext x
  by_cases hx : (x - a).toNat < k
  · rw [put_of_lt hx, put_of_lt hx, h _ hx]
  · rw [put_of_le (by omega), put_of_le (by omega)]

/-- Writing a block again leaves the second contents. -/
theorem put_put_self : put (put m a k f) a k g = put m a k g := by
  funext x
  by_cases hx : (x - a).toNat < k
  · rw [put_of_lt hx, put_of_lt hx]
  · rw [put_of_le (by omega), put_of_le (by omega), put_of_le (by omega)]

/-- One byte is an update. -/
theorem put_one (f : ℕ → BitVec 8) : put m a 1 f = Function.update m a (f 0) := by
  funext x
  by_cases hx : x = a
  · subst hx
    rw [Function.update_self, put_of_lt (by simp)]
    simp
  · rw [Function.update_of_ne hx, put_of_le]
    have hne : (x - a).toNat ≠ 0 := by
      intro h0
      have hzero : x - a = 0#w := BitVec.eq_of_toNat_eq (by simpa using h0)
      rw [BitVec.sub_eq_iff_eq_add, BitVec.zero_add] at hzero
      exact hx hzero
    omega

/-- **Adjacent blocks** are one block. -/
theorem put_put (i j : ℕ) (h : i + j ≤ 2 ^ w) :
    put (put m a i f) (a + BitVec.ofNat w i) j g =
      put m a (i + j) fun d => if d < i then f d else g (d - i) := by
  rcases Nat.eq_zero_or_pos j with rfl | hj
  · funext x
    rw [put_of_le (Nat.zero_le _)]
    by_cases hx : (x - a).toNat < i
    · rw [put_of_lt hx, put_of_lt (by omega), if_pos hx]
    · rw [put_of_le (by omega), put_of_le (by omega)]
  · funext x
    have hi : (BitVec.ofNat w i).toNat = i := by
      rw [BitVec.toNat_ofNat, Nat.mod_eq_of_lt (by omega)]
    have hd : (x - (a + BitVec.ofNat w i)).toNat = ((x - a).toNat + (2 ^ w - i)) % 2 ^ w := by
      rw [← BitVec.sub_sub, BitVec.toNat_sub, hi, Nat.add_comm]
    have hx := (x - a).isLt
    by_cases hlt : (x - a).toNat < i
    · rw [Nat.mod_eq_of_lt (by omega)] at hd
      rw [put_of_le (by omega), put_of_lt hlt, put_of_lt (by omega), if_pos hlt]
    · have hd' : (x - (a + BitVec.ofNat w i)).toNat = (x - a).toNat - i := by
        rw [hd, Nat.mod_eq_sub_mod (by omega), Nat.mod_eq_of_lt (by omega)]
        omega
      by_cases hlt' : (x - a).toNat < i + j
      · rw [put_of_lt (by omega), put_of_lt hlt', if_neg hlt, hd']
      · rw [put_of_le (by omega), put_of_le (by omega), put_of_le (by omega)]

/-- What was put there is read back. -/
theorem bytesAt_put (hk : k ≤ 2 ^ w) : bytesAt (put m a k f) a k = (List.range k).map f := by
  apply List.ext_getElem?
  intro i
  by_cases hi : i < k
  · rw [getElem?_bytesAt hi, put_add hi hk, List.getElem?_map, List.getElem?_range hi]
    rfl
  · rw [List.getElem?_eq_none (by rw [length_bytesAt]; omega),
      List.getElem?_eq_none (by simp; omega)]

end Put

section Number

variable {f g : ℕ → BitVec 8}

theorem number_congr (h : ∀ i < k, f i = g i) : number f k = number g k := by
  induction k with
  | zero => rfl
  | succ k ih => rw [number, number, ih fun i hi => h i (by omega), h k (by omega)]

theorem number_lt (f : ℕ → BitVec 8) (k : ℕ) : number f k < 256 ^ k := by
  induction k with
  | zero => exact Nat.one_pos
  | succ k ih =>
    have hb := (f k).isLt
    rw [number, pow_succ]
    omega

/-- The bytes of a vector are its digits. -/
theorem number_byteOf (v : BitVec n) (k : ℕ) : number (byteOf k v) k = v.toNat % 256 ^ k := by
  have hdigits : ∀ j ≤ k, number (byteOf k v) j = v.toNat / 256 ^ (k - j) % 256 ^ j := by
    intro j hj
    induction j with
    | zero => rw [number, pow_zero, Nat.mod_one]
    | succ j ih =>
      obtain ⟨d, rfl⟩ : ∃ d, k = j + 1 + d := ⟨k - (j + 1), by omega⟩
      have hpow : (2 : ℕ) ^ (8 * d) = 256 ^ d := by rw [pow_mul]; rfl
      have hbyte : (byteOf (j + 1 + d) v j).toNat = v.toNat / 256 ^ d % 256 := by
        rw [byteOf, BitVec.extractLsb'_toNat, Nat.shiftRight_eq_div_pow,
          show j + 1 + d - 1 - j = d by omega, hpow]
      rw [number, ih (by omega), hbyte, show j + 1 + d - j = d + 1 by omega,
        show j + 1 + d - (j + 1) = d by omega, pow_succ, ← Nat.div_div_eq_div_mul, pow_succ,
        Nat.mul_comm (256 ^ j) 256, Nat.mod_mul]
      omega
  have h := hdigits k le_rfl
  rwa [Nat.sub_self, pow_zero, Nat.div_one] at h

/-- A digit of the number. -/
theorem number_div_mod {i : ℕ} (hi : i < k) :
    number f k / 256 ^ (k - 1 - i) % 256 = (f i).toNat := by
  induction k with
  | zero => omega
  | succ k ih =>
    have hb := (f k).isLt
    rcases Nat.lt_succ_iff_lt_or_eq.mp hi with hlt | rfl
    · have hk := ih hlt
      rw [show k + 1 - 1 - i = (k - 1 - i) + 1 by omega, pow_succ', ← Nat.div_div_eq_div_mul,
        number, show (256 * number f k + (f k).toNat) / 256 = number f k by omega, hk]
    · rw [number, show i + 1 - 1 - i = 0 by omega, pow_zero, Nat.div_one]
      omega

/-- The bytes of the number are the bytes it was read from. -/
theorem byteOf_ofNat_number {i : ℕ} (hi : i < k) (hn : 8 * k ≤ n) :
    byteOf k (BitVec.ofNat n (number f k)) i = f i := by
  apply BitVec.eq_of_toNat_eq
  have hlt : number f k < 2 ^ n :=
    (number_lt f k).trans_le (by
      rw [show (256 : ℕ) = 2 ^ 8 by rfl, ← pow_mul]
      exact Nat.pow_le_pow_right (by omega) hn)
  rw [byteOf, BitVec.extractLsb'_toNat, BitVec.toNat_ofNat, Nat.mod_eq_of_lt hlt,
    Nat.shiftRight_eq_div_pow, pow_mul]
  exact number_div_mod hi

/-- A vector is the number its bytes are the digits of. -/
theorem ofNat_number_byteOf (v : BitVec (8 * k)) :
    BitVec.ofNat (8 * k) (number (byteOf k v) k) = v := by
  rw [number_byteOf, show (256 : ℕ) = 2 ^ 8 by rfl, ← pow_mul, Nat.mod_eq_of_lt v.isLt,
    BitVec.ofNat_toNat, BitVec.setWidth_eq]

/-- Vectors of the same bytes are equal. -/
theorem eq_of_byteOf {v v' : BitVec (8 * k)} (h : ∀ i < k, byteOf k v i = byteOf k v' i) :
    v = v' := by
  rw [← ofNat_number_byteOf v, number_congr h, ofNat_number_byteOf]

/-- The bytes of `k` bytes cut out of `w`, of which `j` stand above them. -/
theorem byteOf_extractLsb' (v : BitVec n) {w j start len i : ℕ} (hi : i < k)
    (hs : start = 8 * (w - j - k)) (hl : len = 8 * k) (hw : j + k ≤ w) :
    byteOf k (v.extractLsb' start len) i = byteOf w v (j + i) := by
  subst hs hl
  apply BitVec.eq_of_getLsbD_eq
  intro b hb
  simp only [byteOf, BitVec.getLsbD_extractLsb', hb, decide_true, Bool.true_and,
    show 8 * (k - 1 - i) + b < 8 * k by omega,
    show 8 * (w - j - k) + (8 * (k - 1 - i) + b) = 8 * (w - 1 - (j + i)) + b by omega]

/-- Truncation keeps the low bytes. -/
theorem byteOf_setWidth (v : BitVec n) {l i : ℕ} (hi : i < k) (hl : 8 * k ≤ l) :
    byteOf k (v.setWidth l) i = byteOf k v i := by
  apply BitVec.eq_of_getLsbD_eq
  intro b hb
  simp only [byteOf, BitVec.getLsbD_extractLsb', BitVec.getLsbD_setWidth, hb,
    show 8 * (k - 1 - i) + b < l by omega, decide_true, Bool.true_and]

/-- The low bytes of a vector put together from two. -/
theorem byteOf_append (x : BitVec n) {l : ℕ} (y : BitVec l) {i : ℕ} (hi : i < k)
    (hl : 8 * k ≤ l) : byteOf k (x ++ y) i = byteOf k y i := by
  rw [byteOf, byteOf, BitVec.extractLsb'_append_eq_of_add_le (by omega)]

/-- The high bytes. -/
theorem byteOf_append_of_lt {l i : ℕ} (x : BitVec (8 * k)) (y : BitVec (8 * l)) (hi : i < k) :
    byteOf (k + l) (x ++ y) i = byteOf k x i := by
  rw [byteOf, byteOf, BitVec.extractLsb'_append_eq_of_le (by omega),
    show 8 * (k + l - 1 - i) - 8 * l = 8 * (k - 1 - i) by omega]

/-- The bytes after them. -/
theorem byteOf_append_of_le {l i : ℕ} (x : BitVec (8 * k)) (y : BitVec (8 * l)) (hk : k ≤ i)
    (hi : i < k + l) : byteOf (k + l) (x ++ y) i = byteOf l y (i - k) := by
  rw [byteOf, byteOf, BitVec.extractLsb'_append_eq_of_add_le (by omega),
    show k + l - 1 - i = l - 1 - (i - k) by omega]

end Number

end Lib
end OooProcessor
