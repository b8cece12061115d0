/-
# Concatenations of vectors

`{x, y, …}` puts vectors of different widths next to each other, the first at the high
end, and is cut or filled with zeros to the width of what it is assigned to
(`assigned`).  A part-select that starts where the parts behind `x` end and is as wide as
`x` gives `x` back (`extractLsb'_assigned`); no bit belongs to two parts (`separate`); a
concatenation of concatenations is one of all their parts (`assigned_map_of`).
-/

import Mathlib.Algebra.BigOperators.Group.List.Basic
import Mathlib.Data.BitVec

namespace OooProcessor
namespace Lib

/-- A vector with its width. -/
structure Part where
  width : ℕ
  bits : BitVec width

/-- A single bit. -/
def Part.bit (b : Bool) : Part := ⟨1, BitVec.ofBool b⟩

/-- The width of a concatenation. -/
def total : List Part → ℕ
  | [] => 0
  | p :: l => p.width + total l

/-- `{x, y, …}` -/
def concat : (l : List Part) → BitVec (total l)
  | [] => 0#0
  | p :: l => p.bits ++ concat l

/-- A concatenation as a part of another. -/
def Part.of (l : List Part) : Part := ⟨total l, concat l⟩

/-- A vector of `n` bits that is assigned a concatenation. -/
def assigned (n : ℕ) (l : List Part) : BitVec n := (concat l).setWidth n

/-- The lowest bit of the part `k` of parts of the widths `ws`. -/
def low (ws : List ℕ) (k : ℕ) : ℕ := (ws.drop (k + 1)).sum

section Widths

variable {ws : List ℕ} {k j : ℕ}

/-- A part ends where the one before it starts, or the concatenation ends. -/
theorem low_add_getElem {w : ℕ} (h : ws[k]? = some w) : low ws k + w = (ws.drop k).sum := by
  obtain ⟨hk, rfl⟩ := List.getElem?_eq_some_iff.mp h
  rw [List.drop_eq_getElem_cons hk, List.sum_cons, low, Nat.add_comm]

theorem sum_drop_le (ws : List ℕ) (k : ℕ) : (ws.drop k).sum ≤ ws.sum := by
  conv_rhs => rw [← List.take_append_drop k ws, List.sum_append]
  exact Nat.le_add_left _ _

theorem sum_drop_le_low (ws : List ℕ) (hkj : k < j) : (ws.drop j).sum ≤ low ws k := by
  obtain ⟨d, rfl⟩ := Nat.exists_eq_add_of_lt hkj
  rw [low, show k + d + 1 = k + 1 + d by omega, ← List.drop_drop]
  exact sum_drop_le _ d

/-- No bit belongs to two parts. -/
def Separate (ws : List ℕ) : Prop :=
  ∀ k j w v i, k ≠ j → ws[k]? = some w → ws[j]? = some v →
    low ws k ≤ i ∧ i < low ws k + w → ¬(low ws j ≤ i ∧ i < low ws j + v)

/-- **Parts are separate**, whatever their widths. -/
theorem separate (ws : List ℕ) : Separate ws := by
  intro k j w v i hkj hw hv hi
  rw [low_add_getElem hw] at hi
  rw [low_add_getElem hv]
  rcases Nat.lt_or_gt_of_ne hkj with hlt | hlt
  · have hle := sum_drop_le_low ws hlt
    omega
  · have hle := sum_drop_le_low ws hlt
    omega

end Widths

section Bits

variable {l : List Part} {p : Part} {ws : List ℕ} {n k lo : ℕ}

theorem total_eq_sum (l : List Part) : total l = (l.map Part.width).sum := by
  induction l with
  | nil => rfl
  | cons p l ih => rw [total, ih, List.map_cons, List.sum_cons]

theorem total_append (l l' : List Part) : total (l ++ l') = total l + total l' := by
  simp [total_eq_sum]

/-- The first part is at the high end. -/
theorem getLsbD_concat_cons (p : Part) (l : List Part) (i : ℕ) : (concat (p :: l)).getLsbD i =
    if i < total l then (concat l).getLsbD i else p.bits.getLsbD (i - total l) :=
  BitVec.getLsbD_append

theorem getLsbD_concat_append (l l' : List Part) (i : ℕ) : (concat (l ++ l')).getLsbD i =
    if i < total l' then (concat l').getLsbD i else (concat l).getLsbD (i - total l') := by
  induction l generalizing i with
  | nil =>
    split_ifs with hi
    · rfl
    · have hnil : (concat []).getLsbD (i - total l') = false :=
        BitVec.getLsbD_of_ge _ _ (Nat.zero_le _)
      rw [hnil, List.nil_append, BitVec.getLsbD_of_ge _ _ (by omega)]
  | cons p l ih =>
    rw [List.cons_append, getLsbD_concat_cons, getLsbD_concat_cons, ih, total_append]
    by_cases hi : i < total l'
    · rw [if_pos (by omega), if_pos hi, if_pos hi]
    · rw [if_neg hi, if_neg hi]
      by_cases hj : i < total l + total l'
      · rw [if_pos hj, if_pos (by omega)]
      · rw [if_neg hj, if_neg (by omega), Nat.sub_sub, Nat.add_comm]

/-- Two parts of a concatenation change with their bits. -/
theorem getLsbD_concat_append_congr {l₁ l₂ l l' : List Part} (ht : total l = total l')
    (h₁ : ∀ i, (concat l₁).getLsbD i = (concat l₂).getLsbD i)
    (h : ∀ i, (concat l).getLsbD i = (concat l').getLsbD i) (i : ℕ) :
    (concat (l₁ ++ l)).getLsbD i = (concat (l₂ ++ l')).getLsbD i := by
  rw [getLsbD_concat_append, getLsbD_concat_append, h, ht, h₁]

theorem getLsbD_concat_of_cons (l l' : List Part) (i : ℕ) :
    (concat (.of l :: l')).getLsbD i = (concat (l ++ l')).getLsbD i := by
  rw [getLsbD_concat_cons, getLsbD_concat_append]
  rfl

theorem total_map_of (ls : List (List Part)) : total (ls.map .of) = total ls.flatten := by
  induction ls with
  | nil => rfl
  | cons l ls ih =>
    rw [List.flatten_cons, total_append, ← ih]
    rfl

theorem getLsbD_concat_map_of (ls : List (List Part)) (i : ℕ) :
    (concat (ls.map .of)).getLsbD i = (concat ls.flatten).getLsbD i := by
  induction ls generalizing i with
  | nil => rfl
  | cons l ls ih =>
    rw [List.map_cons, getLsbD_concat_of_cons, List.flatten_cons]
    exact getLsbD_concat_append_congr (total_map_of ls) (fun _ => rfl) ih i

/-- **A concatenation of concatenations** is one of all their parts. -/
theorem assigned_map_of (n : ℕ) (ls : List (List Part)) :
    assigned n (ls.map .of) = assigned n ls.flatten := by
  apply BitVec.eq_of_getLsbD_eq
  intro i _
  rw [assigned, assigned, BitVec.getLsbD_setWidth, BitVec.getLsbD_setWidth, getLsbD_concat_map_of]

/-- So is one whose first part is one. -/
theorem assigned_of_cons (n : ℕ) (l l' : List Part) :
    assigned n (.of l :: l') = assigned n (l ++ l') := by
  apply BitVec.eq_of_getLsbD_eq
  intro i _
  rw [assigned, assigned, BitVec.getLsbD_setWidth, BitVec.getLsbD_setWidth,
    getLsbD_concat_of_cons]

/-- A vector of the width of what is assigned to it. -/
theorem mk_assigned (h : total l = n) : (⟨n, assigned n l⟩ : Part) = .of l := by
  subst h
  rw [Part.of, assigned, BitVec.setWidth_eq]

theorem assigned_singleton (p : Part) : assigned p.width [p] = p.bits := by
  apply BitVec.eq_of_getLsbD_eq
  intro i hi
  have hlow : ¬i < total [] := Nat.not_lt_zero i
  rw [assigned, BitVec.getLsbD_setWidth, getLsbD_concat_cons, if_neg hlow, decide_eq_true hi,
    Bool.true_and]
  rfl

/-- **A part-select of several parts** is their concatenation. -/
theorem extractLsb'_assigned_append (l₁ l₂ l₃ : List Part) {w : ℕ} (hlo : total l₃ = lo)
    (hw : total l₂ = w) (hn : lo + w ≤ n) :
    (assigned n (l₁ ++ (l₂ ++ l₃))).extractLsb' lo w = assigned w l₂ := by
  subst hlo hw
  apply BitVec.eq_of_getLsbD_eq
  intro i hi
  rw [BitVec.getLsbD_extractLsb', assigned, assigned, BitVec.getLsbD_setWidth,
    BitVec.getLsbD_setWidth, getLsbD_concat_append, getLsbD_concat_append, total_append,
    if_pos (by omega), if_neg (by omega), Nat.add_sub_cancel_left, decide_eq_true hi,
    decide_eq_true (by omega)]
  simp only [Bool.true_and]

/-- **A part-select gives the part back.** -/
theorem extractLsb'_assigned (hws : l.map Part.width = ws) (h : l[k]? = some p)
    (hlo : low ws k = lo) (hn : lo + p.width ≤ n) :
    (assigned n l).extractLsb' lo p.width = p.bits := by
  obtain ⟨hk, rfl⟩ := List.getElem?_eq_some_iff.mp h
  have hsplit : l.take k ++ ([l[k]] ++ l.drop (k + 1)) = l := by
    rw [List.singleton_append, ← List.drop_eq_getElem_cons hk, List.take_append_drop]
  have htotal : total (l.drop (k + 1)) = lo := by
    rw [total_eq_sum, List.map_drop, hws, ← hlo, low]
  have hselect := extractLsb'_assigned_append (l.take k) [l[k]] (l.drop (k + 1)) htotal rfl hn
  rw [hsplit] at hselect
  exact hselect.trans (assigned_singleton _)

/-- The low end of what is assigned is what a shorter vector is assigned. -/
theorem extractLsb'_zero_assigned {m : ℕ} (hm : m ≤ n) (l : List Part) :
    (assigned n l).extractLsb' 0 m = assigned m l := by
  apply BitVec.eq_of_getLsbD_eq
  intro i hi
  rw [BitVec.getLsbD_extractLsb', Nat.zero_add, assigned, assigned, BitVec.getLsbD_setWidth,
    BitVec.getLsbD_setWidth, decide_eq_true (show i < n by omega), Bool.true_and]

/-- The select of a part that is a single bit. -/
theorem getLsbD_assigned {b : Bool} (hws : l.map Part.width = ws) (h : l[k]? = some (.bit b))
    (hlo : low ws k = lo) (hn : lo < n) : (assigned n l).getLsbD lo = b := by
  have hbit := congrArg (BitVec.getLsbD · 0) (extractLsb'_assigned hws h hlo hn)
  rw [BitVec.getLsbD_extractLsb', Nat.add_zero] at hbit
  simpa [Part.bit] using hbit

end Bits

end Lib
end OooProcessor
