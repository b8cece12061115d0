/-
# Computations that succeed under a condition

A program that checks each of its accesses is a computation in `Except`.  `Succeeds x P v`
says that it succeeds exactly under `P`, and then with the value `v`.  One rule for each
way to build a program (`Succeeds.bind`, `Succeeds.ite`, `Succeeds.foldlM`) gives the
condition of the whole from those of its accesses.
-/

import Mathlib.Data.Nat.Notation
import Mathlib.Tactic.Common
import Mathlib.Tactic.SplitIfs

namespace OooProcessor
namespace Lib

universe u

variable {ε : Type*} {α β : Type u}

/-- `x` succeeds exactly under `P`, with the value `v`. -/
structure Succeeds (x : Except ε α) (P : Prop) (v : α) : Prop where
  ok : P → x = .ok v
  fails : ¬P → ∃ e, x = .error e

namespace Succeeds

variable {x y : Except ε α} {f : α → Except ε β} {P Q : Prop} {u v : α} {w : β}

theorem isOk_iff (h : Succeeds x P v) : (∃ u, x = .ok u) ↔ P := by
  constructor
  · rintro ⟨u, hu⟩
    by_contra hP
    obtain ⟨e, he⟩ := h.fails hP
    rw [hu] at he
    cases he
  · exact fun hP => ⟨v, h.ok hP⟩

/-- The value of a computation that succeeds. -/
theorem eq_of_ok (h : Succeeds x P v) (hx : x = .ok u) : u = v := by
  have hP := h.isOk_iff.mp ⟨u, hx⟩
  rw [h.ok hP] at hx
  exact (Except.ok.inj hx).symm

theorem congr (h : Succeeds x P v) (hPQ : P ↔ Q) (hv : Q → v = u) : Succeeds x Q u where
  ok hQ := by rw [h.ok (hPQ.mpr hQ), hv hQ]
  fails hQ := h.fails (mt hPQ.mp hQ)

theorem pure (v : α) : Succeeds (Pure.pure v : Except ε α) True v where
  ok _ := rfl
  fails h := absurd trivial h

/-- An access that is checked. -/
theorem guard {P : Prop} [Decidable P] (v : α) (e : ε) :
    Succeeds (if P then .ok v else .error e) P v where
  ok h := if_pos h
  fails h := ⟨e, if_neg h⟩

theorem bind (hx : Succeeds x P v) (hf : P → Succeeds (f v) Q w) :
    Succeeds (x >>= f) (P ∧ Q) w where
  ok := by
    rintro ⟨hP, hQ⟩
    rw [hx.ok hP]
    exact (hf hP).ok hQ
  fails h := by
    by_cases hP : P
    · rw [hx.ok hP]
      exact (hf hP).fails fun hQ => h ⟨hP, hQ⟩
    · obtain ⟨e, he⟩ := hx.fails hP
      exact ⟨e, by rw [he]; rfl⟩

theorem ite {c : Prop} [Decidable c] (hx : c → Succeeds x P v) (hy : ¬c → Succeeds y Q u) :
    Succeeds (if c then x else y) ((c → P) ∧ (¬c → Q)) (if c then v else u) := by
  by_cases hc : c
  · rw [if_pos hc, if_pos hc]
    exact (hx hc).congr ⟨fun h => ⟨fun _ => h, fun h' => absurd hc h'⟩, fun h => h.1 hc⟩
      fun _ => rfl
  · rw [if_neg hc, if_neg hc]
    exact (hy hc).congr ⟨fun h => ⟨fun h' => absurd h' hc, fun _ => h⟩, fun h => h.2 hc⟩
      fun _ => rfl

/-- A loop succeeds if each of its turns does. -/
theorem foldlM {g : α → ℕ → Except ε α} {h : α → ℕ → α} {R : ℕ → Prop} {n : ℕ}
    (hg : ∀ a, ∀ i < n, Succeeds (g a i) (R i) (h a i)) (a : α) :
    Succeeds ((List.range n).foldlM g a) (∀ i < n, R i) ((List.range n).foldl h a) := by
  induction n with
  | zero =>
    exact (pure a).congr ⟨fun _ i hi => absurd hi i.not_lt_zero, fun _ => trivial⟩ fun _ => rfl
  | succ n ih =>
    have hloop := ih fun b i hi => hg b i (Nat.lt_succ_of_lt hi)
    have hturn (b : α) : Succeeds ([n].foldlM g b) (R n) (h b n) :=
      ((hg b n n.lt_succ_self).bind fun _ => pure _).congr (iff_of_eq (and_true _)) fun _ => rfl
    rw [List.range_succ, List.foldlM_append, List.foldl_append]
    exact (hloop.bind fun _ => hturn _).congr Nat.forall_lt_succ_right.symm fun _ => rfl

end Succeeds

end Lib
end OooProcessor
