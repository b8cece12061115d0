/-
# The loaders that go through text

The two `loadSingleHEX` of `sim_main/sm_memory.cpp`, with `itob`, and `hexCharValue` of
`sim_main/sm_memory.h`.  The argument `comment` is not used, and what is in a comment is
left out.  A character past the end of a string reads as 0.

For a word and for a byte both leave what `writeWord` and `writeByte` leave
(`loadSingleHEXInt_word`, `loadSingleHEXString_word`, and so on).  For a half word the one
for `int`s stores the two bytes the other way around (`loadSingleHEXInt_halfWord_iff`), and in
the one for strings `+` binds stronger than `<<`, so that both digits are shifted
(`loadSingleHEXString_halfWord_iff`).
-/

import OooProcessor.Lib.HexText
import OooProcessor.Sim.Memory
import Mathlib.Data.List.GetD

namespace OooProcessor
namespace Sim

open Lib

def hexCharValue (ch : Char) : ℕ :=
  if '0' ≤ ch ∧ ch ≤ '9' then ch.toNat - '0'.toNat
  else if 'a' ≤ ch ∧ ch ≤ 'f' then ch.toNat - 'a'.toNat + 10
  else 0

/-- `s[i]` -/
def charAt (s : List Char) (i : ℕ) : Char := s.getD i (Char.ofNat 0)

/-- `s.substr(pos, n)` -/
def substr (s : List Char) (pos n : ℕ) : List Char := (s.drop pos).take n

/-- `itob`: the loop goes from the end of `buff` to its start. -/
def itob (x : Word) : List Char :=
  (List.range 32).foldl
    (fun buff i => (if x &&& ((1 : Word) <<< i) ≠ 0 then '1' else '0') :: buff) []

/-- What `s` holds after the loop that fills it up to `size` characters, and the number. -/
def hexOf (size : ℕ) (binaryStr : List Char) : List Char :=
  zeroFill size (Nat.toDigits 16 (ofBits 0 binaryStr))

/-- `loadSingleHEX` with a string. -/
def loadSingleHEXString (m : MainMemory) (newValue : List Char) (location : Word)
    (bhWord : ℕ) : MainMemory :=
  let h (i : ℕ) : ℕ := hexCharValue (charAt newValue i)
  match bhWord with
  | 0 =>
    let m := Function.update m (location + 0) (BitVec.ofNat 8 (h 1 + h 0 <<< 4))
    let m := Function.update m (location + 1) (BitVec.ofNat 8 (h 3 + h 2 <<< 4))
    let m := Function.update m (location + 2) (BitVec.ofNat 8 (h 5 + h 4 <<< 4))
    Function.update m (location + 3) (BitVec.ofNat 8 (h 7 + h 6 <<< 4))
  | 1 => Function.update m location (BitVec.ofNat 8 (h 1 + h 0 <<< 4))
  | 2 =>
    -- the sums are not in parentheses in the source
    let m := Function.update m location (BitVec.ofNat 8 ((h 0 + h 1) <<< 4))
    Function.update m (location + 1) (BitVec.ofNat 8 ((h 3 + h 2) <<< 4))
  | _ => m

/-- `loadSingleHEX` with an `int`. -/
def loadSingleHEXInt (m : MainMemory) (newValue : Word) (location : Word) (bhWord : ℕ) :
    MainMemory :=
  let newBinValue := itob newValue
  match bhWord with
  | 0 =>
    let s := hexOf 8 (substr newBinValue 0 32)
    let h (pos i : ℕ) : ℕ := hexCharValue (charAt (substr s pos 2) i)
    let m := Function.update m (location + 3) (BitVec.ofNat 8 (h 6 0 <<< 4 + h 6 1))
    let m := Function.update m (location + 2) (BitVec.ofNat 8 (h 4 0 <<< 4 + h 4 1))
    let m := Function.update m (location + 1) (BitVec.ofNat 8 (h 2 0 <<< 4 + h 2 1))
    Function.update m (location + 0) (BitVec.ofNat 8 (h 0 0 <<< 4 + h 0 1))
  | 1 =>
    let s := hexOf 2 (substr newBinValue 24 8)
    let h (i : ℕ) : ℕ := hexCharValue (charAt s i)
    Function.update m location (BitVec.ofNat 8 (h 0 <<< 4 + h 1))
  | 2 =>
    let s := hexOf 4 (substr newBinValue 16 16)
    let h (i : ℕ) : ℕ := hexCharValue (charAt s i)
    let m := Function.update m (location + 1) (BitVec.ofNat 8 (h 0 <<< 4 + h 1))
    Function.update m location (BitVec.ofNat 8 (h 2 <<< 4 + h 3))
  | _ => m

/-- How many digits a size has. -/
def digitsOf (bhWord : ℕ) : ℕ := if bhWord = 0 then 8 else if bhWord = 1 then 2 else 4

/-- What a load of the low bits of a value is to leave. -/
def written (m : MainMemory) (value location : Word) : ℕ → MainMemory
  | 0 => writeWord m location value
  | 1 => writeByte m location (value.setWidth 8)
  | 2 => writeHalfWord m location (value.setWidth 16)
  | _ => m

/-- Both loaders leave what the write of the low bits leaves. -/
def LoadersAgree (m : MainMemory) (value location : Word) (bhWord : ℕ) : Prop :=
  loadSingleHEXInt m value location bhWord = written m value location bhWord ∧
    loadSingleHEXString m (hexText (digitsOf bhWord) value.toNat) location bhWord =
      written m value location bhWord

section Text

theorem hexCharValue_digitChar {n : ℕ} (hn : n < 16) : hexCharValue (Nat.digitChar n) = n := by
  revert n
  decide

/-- The test of a bit. -/
theorem and_shiftLeft_ne_zero_iff (x : Word) {i : ℕ} (hi : i < 32) :
    x &&& ((1 : Word) <<< i) ≠ 0 ↔ x.toNat.testBit i = true := by
  have htwo : (1 : Word) <<< i = BitVec.twoPow 32 i := (BitVec.twoPow_eq 32 i).symm
  have hne : BitVec.twoPow 32 i ≠ 0 := by
    intro h
    have := congrArg (fun v : Word => v.getLsbD i) h
    simp [hi] at this
  rw [htwo, BitVec.and_twoPow]
  show (if x.toNat.testBit i then BitVec.twoPow 32 i else 0) ≠ 0 ↔ _
  split_ifs with h
  · exact iff_of_true hne h
  · exact iff_of_false (by simp) h

theorem itob_eq (x : Word) :
    itob x = (List.range 32).reverse.map fun i => if x.toNat.testBit i then '1' else '0' := by
  unfold itob
  rw [List.foldl_flip_cons_eq_append, List.append_nil, ← List.map_reverse]
  refine List.map_congr_left fun i hi => ?_
  have hi : i < 32 := List.mem_range.mp (List.mem_reverse.mp hi)
  simp only [and_shiftLeft_ne_zero_iff x hi]

/-- **The text of the low bits** that the conversion arrives at. -/
theorem hexOf_substr_itob (x : Word) {k : ℕ} (hk : 0 < k) (hk' : k ≤ 8) :
    hexOf k (substr (itob x) (32 - 4 * k) (4 * k)) = hexText k (x.toNat % 2 ^ (4 * k)) := by
  have hbits : substr (itob x) (32 - 4 * k) (4 * k) =
      (List.range (4 * k)).reverse.map fun i => if x.toNat.testBit i then '1' else '0' := by
    rw [substr, itob_eq, ← List.map_drop, ← List.map_take, List.drop_reverse, List.length_range,
      List.take_range, List.take_of_length_le (by simp; omega)]
    congr 3
    omega
  have hpow : 2 ^ (4 * k) = 16 ^ k := by rw [Nat.pow_mul]
  rw [hexOf, hbits, ofBits_reverse_range, Nat.zero_mul, Nat.zero_add, zeroFill_toDigits hk]
  rw [← hpow]
  exact Nat.mod_lt _ (Nat.two_pow_pos _)

end Text

section Bytes

variable (m : MainMemory) (value location : Word)

theorem charAt_hexText {k i : ℕ} (hi : i < k) (n : ℕ) :
    charAt (hexText k n) i = Nat.digitChar (n / 16 ^ (k - 1 - i) % 16) := by
  induction k generalizing n with
  | zero => omega
  | succ k ih =>
    rcases Nat.lt_succ_iff_lt_or_eq.mp hi with hlt | rfl
    · have hpow : n / 16 / 16 ^ (k - 1 - i) = n / 16 ^ (k + 1 - 1 - i) := by
        rw [Nat.div_div_eq_div_mul, ← Nat.pow_succ', show (k - 1 - i).succ = k + 1 - 1 - i by omega]
      rw [hexText, charAt, List.getD_append _ _ _ _ (by rwa [length_hexText]), ← hpow]
      exact ih hlt _
    · rw [hexText, charAt, List.getD_append_right _ _ _ _ (length_hexText i _).le, length_hexText,
        Nat.sub_self, Nat.add_sub_cancel, Nat.sub_self, Nat.pow_zero, Nat.div_one]
      rfl

/-- The value of digit `i` of a text. -/
theorem hexCharValue_hexText {k i : ℕ} (hi : i < k) (n : ℕ) :
    hexCharValue (charAt (hexText k n) i) = n / 16 ^ (k - 1 - i) % 16 := by
  rw [charAt_hexText hi, hexCharValue_digitChar (Nat.mod_lt _ (by decide))]

/-- Two digits are a byte. -/
theorem digits_eq_byte {k i : ℕ} (hi : i < k) (n : ℕ) :
    hexCharValue (charAt (hexText (2 * k) n) (2 * i)) <<< 4 +
        hexCharValue (charAt (hexText (2 * k) n) (2 * i + 1)) =
      n / 2 ^ (8 * (k - 1 - i)) % 2 ^ 8 := by
  have hpow : 2 ^ (8 * (k - 1 - i)) = 16 ^ (2 * k - 1 - (2 * i + 1)) := by
    rw [show 8 * (k - 1 - i) = 4 * (2 * k - 1 - (2 * i + 1)) by omega, Nat.pow_mul]
  have hhigh : n / 16 ^ (2 * k - 1 - 2 * i) = n / 2 ^ (8 * (k - 1 - i)) / 16 := by
    rw [hpow, Nat.div_div_eq_div_mul, ← Nat.pow_succ,
      show (2 * k - 1 - (2 * i + 1)).succ = 2 * k - 1 - 2 * i by omega]
  rw [hexCharValue_hexText (by omega), hexCharValue_hexText (by omega), hhigh, ← hpow,
    Nat.shiftLeft_eq]
  omega

/-- Byte `i` of a value, from the text of its low `k` bytes. -/
theorem byte_eq_byteOf {k i n : ℕ} (hi : i < k)
    (hn : n = value.toNat ∨ n = value.toNat % 2 ^ (8 * k)) :
    BitVec.ofNat 8 (hexCharValue (charAt (hexText (2 * k) n) (2 * i)) <<< 4 +
      hexCharValue (charAt (hexText (2 * k) n) (2 * i + 1))) = byteOf k value i := by
  have hbyte : n / 2 ^ (8 * (k - 1 - i)) % 2 ^ 8 =
      value.toNat / 2 ^ (8 * (k - 1 - i)) % 2 ^ 8 := by
    rcases hn with rfl | rfl
    · rfl
    · have hk : 8 * k = 8 * (k - 1 - i) + (8 + 8 * i) := by omega
      rw [hk, Nat.pow_add, Nat.mod_mul_right_div_self, Nat.pow_add, Nat.mod_mul_right_mod]
  apply BitVec.eq_of_toNat_eq
  rw [digits_eq_byte hi, hbyte, BitVec.toNat_ofNat, Nat.mod_mod, byteOf, BitVec.extractLsb'_toNat,
    Nat.shiftRight_eq_div_pow]

end Bytes

section Agreement

variable (m : MainMemory) (value location : Word)

/-- The text of the low `k` bytes, as the loader for `int`s gets it. -/
theorem byte_of_hexOf {k i : ℕ} (hi : i < k) (hk : k ≤ 4) :
    let s := hexOf (2 * k) (substr (itob value) (32 - 8 * k) (8 * k))
    BitVec.ofNat 8 (hexCharValue (charAt s (2 * i)) <<< 4 + hexCharValue (charAt s (2 * i + 1))) =
      byteOf k value i := by
  have htext : hexOf (2 * k) (substr (itob value) (32 - 8 * k) (8 * k)) =
      hexText (2 * k) (value.toNat % 2 ^ (8 * k)) := by
    have h := hexOf_substr_itob value (k := 2 * k) (by omega) (by omega)
    rwa [← Nat.mul_assoc] at h
  rw [htext]
  exact byte_eq_byteOf value hi (.inr rfl)

/-- The text of the low `k` bytes, as the loader for strings gets it. -/
theorem byte_of_hexText {k i : ℕ} (hi : i < k) :
    let s := hexText (2 * k) value.toNat
    BitVec.ofNat 8 (hexCharValue (charAt s (2 * i + 1)) + hexCharValue (charAt s (2 * i)) <<< 4) =
      byteOf k value i := by
  intro s
  rw [Nat.add_comm]
  exact byte_eq_byteOf value hi (.inl rfl)

theorem add_ne_add {i j : ℕ} (hi : i < 2 ^ 32) (hj : j < 2 ^ 32) (hij : i ≠ j) :
    location + BitVec.ofNat 32 i ≠ location + BitVec.ofNat 32 j := by
  intro h
  have hi' := toNat_add_sub (a := location) hi
  rw [h, toNat_add_sub hj] at hi'
  exact hij hi'.symm

theorem charAt_substr {s : List Char} {pos n i : ℕ} (hi : i < n) :
    charAt (substr s pos n) i = charAt s (pos + i) := by
  simp [charAt, substr, List.getD, List.getElem?_take_of_lt hi]

/-- **Words agree** when they come as strings, -/
theorem loadSingleHEXString_word :
    loadSingleHEXString m (hexText 8 value.toNat) location 0 = writeWord m location value := by
  have h0 := byte_of_hexText value (k := 4) (i := 0) (by decide)
  have h1 := byte_of_hexText value (k := 4) (i := 1) (by decide)
  have h2 := byte_of_hexText value (k := 4) (i := 2) (by decide)
  have h3 := byte_of_hexText value (k := 4) (i := 3) (by decide)
  rw [writeWord_eq_updates, ← h0, ← h1, ← h2, ← h3]
  unfold loadSingleHEXString
  rw [show location + 0 = location from BitVec.add_zero location]
  rfl

/-- and when they come as `int`s, which are stored from the last byte on. -/
theorem loadSingleHEXInt_word :
    loadSingleHEXInt m value location 0 = writeWord m location value := by
  have h0 := byte_of_hexOf value (k := 4) (i := 0) (by decide) le_rfl
  have h1 := byte_of_hexOf value (k := 4) (i := 1) (by decide) le_rfl
  have h2 := byte_of_hexOf value (k := 4) (i := 2) (by decide) le_rfl
  have h3 := byte_of_hexOf value (k := 4) (i := 3) (by decide) le_rfl
  have hne {i j : ℕ} (hi : i < 4) (hj : j < 4) (hij : i ≠ j) :
      location + BitVec.ofNat 32 i ≠ location + BitVec.ofNat 32 j :=
    add_ne_add location (by omega) (by omega) hij
  have hback : loadSingleHEXInt m value location 0 = Function.update (Function.update
      (Function.update (Function.update m (location + BitVec.ofNat 32 3) (byteOf 4 value 3))
        (location + BitVec.ofNat 32 2) (byteOf 4 value 2)) (location + BitVec.ofNat 32 1)
          (byteOf 4 value 1)) (location + BitVec.ofNat 32 0) (byteOf 4 value 0) := by
    unfold loadSingleHEXInt
    simp only [charAt_substr (i := 0) (n := 2) (by decide),
      charAt_substr (i := 1) (n := 2) (by decide)]
    rw [← h0, ← h1, ← h2, ← h3]
    rfl
  rw [hback, Function.update_comm (hne (i := 1) (j := 0) (by decide) (by decide) (by decide)),
    Function.update_comm (hne (i := 2) (j := 0) (by decide) (by decide) (by decide)),
    Function.update_comm (hne (i := 3) (j := 0) (by decide) (by decide) (by decide)),
    Function.update_comm (hne (i := 2) (j := 1) (by decide) (by decide) (by decide)),
    Function.update_comm (hne (i := 3) (j := 1) (by decide) (by decide) (by decide)),
    Function.update_comm (hne (i := 3) (j := 2) (by decide) (by decide) (by decide)),
    writeWord_eq_updates, BitVec.add_zero]
  rfl

/-- **Bytes agree.** -/
theorem loadSingleHEXString_byte :
    loadSingleHEXString m (hexText 2 value.toNat) location 1 =
      writeByte m location (value.setWidth 8) := by
  have h0 := byte_of_hexText value (k := 1) (i := 0) (by decide)
  have hlow : value.setWidth 8 = byteOf 1 value 0 := setWidth_eq_extractLsb' value 0
  rw [writeByte, hlow, ← h0]
  rfl

theorem loadSingleHEXInt_byte :
    loadSingleHEXInt m value location 1 = writeByte m location (value.setWidth 8) := by
  have h0 := byte_of_hexOf value (k := 1) (i := 0) (by decide) (by decide)
  have hlow : value.setWidth 8 = byteOf 1 value 0 := setWidth_eq_extractLsb' value 0
  rw [writeByte, hlow, ← h0]
  rfl

theorem update_two_eq_iff {a b : Word} (hab : a ≠ b) {x x' y y' : BitVec 8} :
    Function.update (Function.update m a x) b y = Function.update (Function.update m a x') b y' ↔
      x = x' ∧ y = y' := by
  constructor
  · intro h
    have ha := congrFun h a
    have hb := congrFun h b
    rw [Function.update_of_ne hab, Function.update_of_ne hab, Function.update_self,
      Function.update_self] at ha
    rw [Function.update_self, Function.update_self] at hb
    exact ⟨ha, hb⟩
  · rintro ⟨rfl, rfl⟩
    rfl

theorem writeHalfWord_setWidth : writeHalfWord m location (value.setWidth 16) =
    Function.update (Function.update m location (byteOf 2 value 0)) (location + 1)
      (byteOf 2 value 1) := by
  rw [writeHalfWord_eq_updates, byteOf_setWidth value (by decide) le_rfl,
    byteOf_setWidth value (by decide) le_rfl]

theorem ne_add_one : location ≠ location + 1 := by
  have h := add_ne_add location (i := 0) (j := 1) (by omega) (by omega) (by decide)
  rwa [BitVec.add_zero] at h

theorem byteOf_two_eq_iff : byteOf 2 value 0 = byteOf 2 value 1 ↔
    value.toNat / 2 ^ 8 % 2 ^ 8 = value.toNat % 2 ^ 8 := by
  rw [← BitVec.toNat_inj, byteOf, byteOf, BitVec.extractLsb'_toNat, BitVec.extractLsb'_toNat,
    Nat.shiftRight_eq_div_pow, Nat.shiftRight_eq_div_pow]
  simp

/-- **Half words agree** through an `int` when their two bytes are the same: the loader
stores them the other way around. -/
theorem loadSingleHEXInt_halfWord_iff :
    loadSingleHEXInt m value location 2 = writeHalfWord m location (value.setWidth 16) ↔
      value.toNat / 2 ^ 8 % 2 ^ 8 = value.toNat % 2 ^ 8 := by
  have h0 := byte_of_hexOf value (k := 2) (i := 0) (by decide) (by decide)
  have h1 := byte_of_hexOf value (k := 2) (i := 1) (by decide) (by decide)
  have hload : loadSingleHEXInt m value location 2 = Function.update (Function.update m
      (location + 1) (byteOf 2 value 0)) location (byteOf 2 value 1) := by
    rw [← h0, ← h1]
    rfl
  rw [hload, writeHalfWord_setWidth, Function.update_comm (ne_add_one location).symm,
    update_two_eq_iff m (ne_add_one location), ← byteOf_two_eq_iff]
  exact ⟨fun h => h.2, fun h => ⟨h.symm, h⟩⟩

/-- Both digits shifted, instead of the first. -/
theorem shifted_eq_iff (a : ℕ) {b : ℕ} (hb : b < 16) :
    BitVec.ofNat 8 ((a + b) <<< 4) = BitVec.ofNat 8 (b + a <<< 4) ↔ b = 0 := by
  rw [← BitVec.toNat_inj, BitVec.toNat_ofNat, BitVec.toNat_ofNat, Nat.shiftLeft_eq,
    Nat.shiftLeft_eq]
  omega

/-- **Half words agree** as strings when the second digit of each byte is 0. -/
theorem loadSingleHEXString_halfWord_iff :
    loadSingleHEXString m (hexText 4 value.toNat) location 2 =
        writeHalfWord m location (value.setWidth 16) ↔
      value.toNat / 2 ^ 8 % 2 ^ 4 = 0 ∧ value.toNat % 2 ^ 4 = 0 := by
  have h0 := byte_of_hexText value (k := 2) (i := 0) (by decide)
  have h1 := byte_of_hexText value (k := 2) (i := 1) (by decide)
  have hdigit (i : ℕ) (hi : i < 4) := hexCharValue_hexText hi value.toNat
  have hlt (i : ℕ) (hi : i < 4) : hexCharValue (charAt (hexText 4 value.toNat) i) < 16 := by
    rw [hdigit i hi]
    exact Nat.mod_lt _ (by decide)
  rw [writeHalfWord_setWidth, ← h0, ← h1]
  refine (update_two_eq_iff m (ne_add_one location)).trans (and_congr ?_ ?_)
  · refine (shifted_eq_iff _ (hlt 1 (by decide))).trans ?_
    rw [hdigit 1 (by decide)]
    exact Iff.rfl
  · rw [Nat.add_comm]
    refine (shifted_eq_iff _ (hlt 3 (by decide))).trans ?_
    rw [hdigit 3 (by decide), Nat.pow_zero, Nat.div_one]
    exact Iff.rfl

/-- **When the loaders agree:** for a word and a byte always, for a half word when its two
bytes are the same and have 0 as second digit. -/
theorem loadersAgree_iff (bhWord : ℕ) : LoadersAgree m value location bhWord ↔
    (bhWord = 2 →
      value.toNat / 2 ^ 8 % 2 ^ 8 = value.toNat % 2 ^ 8 ∧ value.toNat % 2 ^ 4 = 0) := by
  rcases bhWord with _ | _ | _ | n
  · refine iff_of_true ⟨loadSingleHEXInt_word m value location, ?_⟩ (by omega)
    exact loadSingleHEXString_word m value location
  · refine iff_of_true ⟨loadSingleHEXInt_byte m value location, ?_⟩ (by omega)
    exact loadSingleHEXString_byte m value location
  · refine (and_congr (loadSingleHEXInt_halfWord_iff m value location)
      (loadSingleHEXString_halfWord_iff m value location)).trans ?_
    rw [forall_prop_of_true rfl]
    omega
  · exact iff_of_true ⟨rfl, rfl⟩ (by omega)

/-- The half word 1. -/
theorem not_loadersAgree_one : ¬LoadersAgree (fun _ => 0) 1 0 2 := by
  rintro ⟨h, -⟩
  have h0 := congrFun h 0
  exact absurd h0 (by decide)

end Agreement

end Sim
end OooProcessor
