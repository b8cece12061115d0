/-
# Assignments and patches one after another

In a run of assignments the last one to a place counts (`foldl_assign_of_last`), and a
place that none of them is to keeps its value (`foldl_assign_cases`).  The same for blocks
of bytes written to a memory: a byte comes from the last block that covers it
(`patchAll_apply`), so that a block that shares no byte with the others stands in the
end as it was written (`patchAll_of_mem`).
-/

import OooProcessor.Lib.ByteMemory
import Mathlib.Data.List.Induction

namespace OooProcessor
namespace Lib

section Assign

variable {α σ : Type*} [DecidableEq σ] {target : ℕ → Option σ} {value : ℕ → α} {s : σ → α}
  {a : σ} {n : ℕ}

/-- Turn `i` assigns `value i` to what `target i` points to, if to anything. -/
def assign (target : ℕ → Option σ) (value : ℕ → α) (s : σ → α) (i : ℕ) : σ → α :=
  match target i with
  | some a => Function.update s a (value i)
  | none => s

theorem assign_of_eq {i : ℕ} (h : target i = some a) : assign target value s i a = value i := by
  rw [assign, h]
  exact Function.update_self a (value i) s

theorem assign_of_ne {i : ℕ} (h : target i ≠ some a) : assign target value s i a = s a := by
  unfold assign
  cases ht : target i with
  | none => rfl
  | some b => exact Function.update_of_ne (fun hab => h (by rw [ht, hab])) _ _

/-- **The last assignment counts.** -/
theorem foldl_assign_of_last {i : ℕ} (hi : i < n) (ht : target i = some a)
    (hlast : ∀ j, i < j → j < n → target j ≠ some a) :
    (List.range n).foldl (assign target value) s a = value i := by
  induction n with
  | zero => omega
  | succ n ih =>
    rw [List.range_succ, List.foldl_append, List.foldl_cons, List.foldl_nil]
    rcases Nat.lt_succ_iff_lt_or_eq.mp hi with hlt | rfl
    · rw [assign_of_ne (hlast n hlt (Nat.lt_succ_self n))]
      exact ih hlt fun j hij hj => hlast j hij (Nat.lt_succ_of_lt hj)
    · exact assign_of_eq ht

/-- A place has its first value or that of the last assignment to it. -/
theorem foldl_assign_cases (target : ℕ → Option σ) (value : ℕ → α) (s : σ → α) (a : σ) (n : ℕ) :
    ((List.range n).foldl (assign target value) s a = s a ∧ ∀ j < n, target j ≠ some a) ∨
      ∃ i < n, target i = some a ∧ (List.range n).foldl (assign target value) s a = value i ∧
        ∀ j, i < j → j < n → target j ≠ some a := by
  induction n with
  | zero => exact .inl ⟨rfl, fun j hj => absurd hj (Nat.not_lt_zero j)⟩
  | succ n ih =>
    by_cases ht : target n = some a
    · have hlast : ∀ j, n < j → j < n + 1 → target j ≠ some a := fun j h h' => by omega
      exact .inr ⟨n, Nat.lt_succ_self n, ht,
        foldl_assign_of_last (Nat.lt_succ_self n) ht hlast, hlast⟩
    · rw [List.range_succ, List.foldl_append, List.foldl_cons, List.foldl_nil, assign_of_ne ht]
      have hsnoc {P : ℕ → Prop} (h : ∀ j < n, P j → target j ≠ some a) :
          ∀ j < n + 1, P j → target j ≠ some a := by
        intro j hj hP
        rcases Nat.lt_succ_iff_lt_or_eq.mp hj with hlt | rfl
        · exact h j hlt hP
        · exact ht
      rcases ih with ⟨hsame, hnone⟩ | ⟨i, hi, hti, hval, hlast⟩
      · exact .inl ⟨hsame, fun j hj => hsnoc (P := fun _ => True) (fun j hj _ => hnone j hj) j hj
          trivial⟩
      · exact .inr ⟨i, Nat.lt_succ_of_lt hi, hti, hval, fun j hij hj =>
          hsnoc (P := fun j => i < j) (fun j hj hij => hlast j hij hj) j hj hij⟩

/-- A field that the turns of a loop with `P` assign: it has its first value or that of the
last of them. -/
theorem foldl_field_cases {τ : Type*} {get : τ → α} {f : τ → ℕ → τ} {P : ℕ → Prop}
    [DecidablePred P] (value : ℕ → α)
    (hf : ∀ t i, get (f t i) = if P i then value i else get t) (t : τ) (n : ℕ) :
    (get ((List.range n).foldl f t) = get t ∧ ∀ i < n, ¬P i) ∨
      ∃ i < n, P i ∧ (∀ j < n, P j → j ≤ i) ∧ get ((List.range n).foldl f t) = value i := by
  let target : ℕ → Option Unit := fun i => if P i then some () else none
  have htarget {i : ℕ} : target i = some () ↔ P i := by
    show (if P i then some () else none) = some () ↔ P i
    split_ifs with h
    · exact iff_of_true rfl h
    · exact iff_of_false (by simp) h
  have hassign (t : τ) (i : ℕ) : assign target value (fun _ => get t) i = fun _ => get (f t i) := by
    funext u
    rw [hf]
    split_ifs with h
    · exact assign_of_eq (htarget.mpr h)
    · exact assign_of_ne (mt htarget.mp h)
  rw [← congrFun (List.foldl_hom (fun t (_ : Unit) => get t) hassign) ()]
  rcases foldl_assign_cases target value (fun _ => get t) () n with
    ⟨hsame, hnone⟩ | ⟨i, hi, hti, hval, hlast⟩
  · exact .inl ⟨hsame, fun i hi hP => hnone i hi (htarget.mpr hP)⟩
  · refine .inr ⟨i, hi, htarget.mp hti, fun j hj hP => ?_, hval⟩
    by_contra hlt
    exact hlast j (by omega) hj (htarget.mpr hP)

end Assign

section Patch

variable {w : ℕ}

/-- A block of bytes and where it goes. -/
structure Patch (w : ℕ) where
  addr : BitVec w
  len : ℕ
  byte : ℕ → BitVec 8

/-- The address is in the block. -/
def Patch.Covers (p : Patch w) (x : BitVec w) : Prop := (x - p.addr).toNat < p.len

instance (p : Patch w) (x : BitVec w) : Decidable (p.Covers x) :=
  inferInstanceAs (Decidable (_ < _))

/-- The byte that the block has for an address. -/
def Patch.at (p : Patch w) (x : BitVec w) : BitVec 8 := p.byte (x - p.addr).toNat

/-- Write the blocks one after another. -/
def patchAll (m : Memory w) (ps : List (Patch w)) : Memory w :=
  ps.foldl (fun m p => put m p.addr p.len p.byte) m

/-- What the memory then holds, from the last block back. -/
def patched (m : Memory w) (ps : List (Patch w)) : Memory w := fun x =>
  match ps.reverse.find? fun p => p.Covers x with
  | some p => p.at x
  | none => m x

variable {m : Memory w} {ps qs : List (Patch w)} {p : Patch w} {x : BitVec w}

theorem patchAll_append : patchAll m (ps ++ qs) = patchAll (patchAll m ps) qs := List.foldl_append

theorem patchAll_concat : patchAll m (ps ++ [p]) = put (patchAll m ps) p.addr p.len p.byte :=
  patchAll_append

/-- **A byte comes from the last block that covers it.** -/
theorem patchAll_apply (m : Memory w) (ps : List (Patch w)) (x : BitVec w) :
    patchAll m ps x = patched m ps x := by
  induction ps using List.reverseRecOn with
  | nil => rfl
  | append_singleton ps p ih =>
    rw [patchAll_concat, patched, List.reverse_append, List.reverse_singleton,
      List.singleton_append]
    by_cases h : p.Covers x
    · rw [put_of_lt h]
      simp only [List.find?_cons, h, decide_true]
      rfl
    · rw [put_of_le (Nat.le_of_not_lt h)]
      simp only [List.find?_cons, h, decide_false]
      exact ih

/-- A byte outside all blocks. -/
theorem patchAll_of_not_covers (h : ∀ p ∈ ps, ¬p.Covers x) : patchAll m ps x = m x := by
  have hnone : ps.reverse.find? (fun p => p.Covers x) = none :=
    List.find?_eq_none.mpr fun p hp => by simpa using h p (List.mem_reverse.mp hp)
  rw [patchAll_apply, patched, hnone]

/-- **A byte that one block covers alone.** -/
theorem patchAll_of_mem (hp : p ∈ ps) (hx : p.Covers x) (halone : ∀ q ∈ ps, q.Covers x → q = p) :
    patchAll m ps x = p.at x := by
  rw [patchAll_apply, patched]
  cases hfind : ps.reverse.find? (fun p => p.Covers x) with
  | none =>
    have hno := List.find?_eq_none.mp hfind p (List.mem_reverse.mpr hp)
    exact absurd (decide_eq_true hx) hno
  | some q =>
    have hq := List.mem_of_find?_eq_some hfind
    have hcovers : q.Covers x := by simpa using List.find?_some hfind
    rw [halone q (List.mem_reverse.mp hq) hcovers]

end Patch

end Lib
end OooProcessor
