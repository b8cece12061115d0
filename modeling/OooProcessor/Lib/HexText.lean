/-
# Numbers as text

`hexText k n` is the number `n` as `k` hexadecimal digits in lower case.  A number
printed without leading zeros and filled up with zeros is that text (`zeroFill_toDigits`), and
a text of binary digits, read most significant first, is the number whose bits they are
(`ofBits_reverse_range`).
-/

import Mathlib.Data.Nat.Notation
import Mathlib.Tactic.Common
import Mathlib.Tactic.Ring

namespace OooProcessor
namespace Lib

/-- The last `k` hexadecimal digits of a number. -/
def hexText : ℕ → ℕ → List Char
  | 0, _ => []
  | k + 1, n => hexText k (n / 16) ++ [Nat.digitChar (n % 16)]

/-- A text with zeros in front of it, `k` characters if it is not longer. -/
def zeroFill (k : ℕ) (text : List Char) : List Char := List.replicate (k - text.length) '0' ++ text

/-- The number whose binary digits a text shows, after the digits of `n`. -/
def ofBits (n : ℕ) (text : List Char) : ℕ :=
  text.foldl (fun n c => 2 * n + if c = '1' then 1 else 0) n

variable {k n : ℕ}

theorem length_hexText (k n : ℕ) : (hexText k n).length = k := by
  induction k generalizing n with
  | zero => rfl
  | succ k ih => rw [hexText, List.length_append, ih, List.length_singleton]

theorem hexText_zero (k : ℕ) : hexText k 0 = List.replicate k '0' := by
  induction k with
  | zero => rfl
  | succ k ih =>
    rw [hexText, Nat.zero_div, ih, List.replicate_succ']
    rfl

/-- **Printed and filled up**, a number is its text. -/
theorem zeroFill_toDigits (hk : 0 < k) (hn : n < 16 ^ k) :
    zeroFill k (Nat.toDigits 16 n) = hexText k n := by
  induction k generalizing n with
  | zero => omega
  | succ k ih =>
    rw [Nat.toDigits_eq_if (by decide)]
    split_ifs with hlt
    · rw [hexText, Nat.div_eq_of_lt hlt, Nat.mod_eq_of_lt hlt, hexText_zero]
      rfl
    · have hdiv : n / 16 < 16 ^ k := by
        rw [Nat.pow_succ, Nat.mul_comm] at hn
        exact Nat.div_lt_of_lt_mul hn
      have hpos : 0 < k := by
        rcases Nat.eq_zero_or_pos k with rfl | h
        · omega
        · exact h
      rw [hexText, ← ih hpos hdiv, zeroFill, zeroFill, List.length_append, List.length_singleton,
        Nat.add_sub_add_right, List.append_assoc]

/-- **The bits of a number**, most significant first, show its remainder. -/
theorem ofBits_reverse_range (n x k : ℕ) :
    ofBits n ((List.range k).reverse.map fun i => if x.testBit i then '1' else '0') =
      n * 2 ^ k + x % 2 ^ k := by
  induction k generalizing n with
  | zero => simp [ofBits, Nat.mod_one]
  | succ k ih =>
    have hbit : (if (if x.testBit k then '1' else '0') = '1' then 1 else 0) = x / 2 ^ k % 2 := by
      rw [Nat.testBit_eq_decide_div_mod_eq]
      have := Nat.mod_two_eq_zero_or_one (x / 2 ^ k)
      split_ifs with h h'
      all_goals simp_all
    rw [List.range_succ, List.reverse_append, List.reverse_singleton, List.singleton_append,
      List.map_cons, ofBits, List.foldl_cons, hbit, ← ofBits, ih, Nat.mod_pow_succ]
    ring

end Lib
end OooProcessor
