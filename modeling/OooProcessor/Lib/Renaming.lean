/-
# Register renaming

Names `A` are mapped to registers `P` twice: `front` is the map new readers see,
`back` the map of the results that have arrived, and `free` lists the registers
that wait to be handed out.  Five operations move a register: `take` removes the
first free one, `install` maps a name to it at the front, `commit` does the same
at the back, `release` puts a register at the end of the list, and `rebuild`
fills the list with what the back map does not use.

Three properties of such a state are followed through the operations:
`Exclusive`, no register has two owners; `Covering`, every register is used at
the back or free; and `Pinned`, one name keeps one register, which nothing else
gets.
-/

import OooProcessor.Lib.Missing
import Mathlib.Logic.Function.Basic

namespace OooProcessor
namespace Lib

/-- Two maps of names to registers and the registers that are free. -/
structure Renaming (A P : Type*) where
  front : A → P
  back : A → P
  free : List P

namespace Renaming

variable {A P : Type*} {s : Renaming A P} {a : A} {p : P}

/-- Hand out the first free register. -/
def take (s : Renaming A P) : Renaming A P := { s with free := s.free.drop 1 }

/-- Map `a` to `p` at the front. -/
def install [DecidableEq A] (s : Renaming A P) (a : A) (p : P) : Renaming A P :=
  { s with front := Function.update s.front a p }

/-- Map `a` to `p` at the back. -/
def commit [DecidableEq A] (s : Renaming A P) (a : A) (p : P) : Renaming A P :=
  { s with back := Function.update s.back a p }

/-- Put `p` at the end of the free registers. -/
def release (s : Renaming A P) (p : P) : Renaming A P := { s with free := s.free ++ [p] }

/-- Free exactly what the back map does not use. -/
def rebuild [Fintype A] {b : ℕ} (s : Renaming A (Fin b)) : Renaming A (Fin b) :=
  { s with free := missing s.back }

/-- `p` has no owner. -/
structure Unowned (s : Renaming A P) (p : P) : Prop where
  front : ∀ a, s.front a ≠ p
  back : ∀ a, s.back a ≠ p
  free : p ∉ s.free

section Exclusive

/-- **No register has two owners**: the free registers are distinct and neither
map uses them, and a register that the two maps share belongs to one name. -/
structure Exclusive (s : Renaming A P) : Prop where
  nodup : s.free.Nodup
  front_injective : Function.Injective s.front
  back_injective : Function.Injective s.back
  agree : ∀ a b, s.front a = s.back b → a = b
  front_not_mem : ∀ a, s.front a ∉ s.free
  back_not_mem : ∀ a, s.back a ∉ s.free

/-- An update with a value the function does not take keeps it injective. -/
theorem injective_update [DecidableEq A] {f : A → P} (hf : Function.Injective f)
    (hp : ∀ b, b ≠ a → f b ≠ p) : Function.Injective (Function.update f a p) := by
  intro b c hbc
  by_cases hb : b = a
  · by_cases hc : c = a
    · rw [hb, hc]
    · rw [hb, Function.update_self, Function.update_of_ne hc] at hbc
      exact absurd hbc.symm (hp c hc)
  · by_cases hc : c = a
    · rw [hc, Function.update_self, Function.update_of_ne hb] at hbc
      exact absurd hbc (hp b hb)
    · rw [Function.update_of_ne hb, Function.update_of_ne hc] at hbc
      exact hf hbc

/-- Fewer free registers have no more owners. -/
theorem Exclusive.of_sublist (h : Exclusive s) {l : List P} (hl : l.Sublist s.free) :
    Exclusive { s with free := l } where
  nodup := h.nodup.sublist hl
  front_injective := h.front_injective
  back_injective := h.back_injective
  agree := h.agree
  front_not_mem a hm := h.front_not_mem a (hl.subset hm)
  back_not_mem a hm := h.back_not_mem a (hl.subset hm)

theorem Exclusive.take (h : Exclusive s) : Exclusive s.take :=
  h.of_sublist (List.drop_sublist 1 _)

/-- The register handed out has no owner left. -/
theorem Exclusive.unowned_take (h : Exclusive s) {l : List P} (hl : s.free = p :: l) :
    Unowned s.take p where
  front a hp := by
    obtain rfl : s.front a = p := hp
    exact h.front_not_mem a (hl ▸ List.mem_cons_self ..)
  back a hp := by
    obtain rfl : s.back a = p := hp
    exact h.back_not_mem a (hl ▸ List.mem_cons_self ..)
  free hm := by
    have hnd := h.nodup
    rw [hl, List.nodup_cons] at hnd
    simp only [Renaming.take, hl, List.drop_one, List.tail_cons] at hm
    exact hnd.1 hm

theorem Exclusive.install [DecidableEq A] (h : Exclusive s) (hp : Unowned s p) :
    Exclusive (s.install a p) where
  nodup := h.nodup
  front_injective := injective_update h.front_injective fun b _ => hp.front b
  back_injective := h.back_injective
  agree b c hbc := by
    by_cases hb : b = a
    · simp only [Renaming.install, hb, Function.update_self] at hbc
      exact absurd hbc.symm (hp.back c)
    · simp only [Renaming.install, Function.update_of_ne hb] at hbc
      exact h.agree b c hbc
  front_not_mem b hm := by
    by_cases hb : b = a
    · simp only [Renaming.install, hb, Function.update_self] at hm
      exact hp.free hm
    · simp only [Renaming.install, Function.update_of_ne hb] at hm
      exact h.front_not_mem b hm
  back_not_mem := h.back_not_mem

/-- A name commits the register the front map has for it. -/
theorem Exclusive.commit [DecidableEq A] (h : Exclusive s) (hp : s.front a = p) :
    Exclusive (s.commit a p) where
  nodup := h.nodup
  front_injective := h.front_injective
  back_injective := injective_update h.back_injective fun b hb hbp =>
    hb (h.agree a b (hp.trans hbp.symm)).symm
  agree b c hbc := by
    by_cases hc : c = a
    · simp only [Renaming.commit, hc, Function.update_self] at hbc
      rw [hc]
      exact h.front_injective (hbc.trans hp.symm)
    · simp only [Renaming.commit, Function.update_of_ne hc] at hbc
      exact h.agree b c hbc
  front_not_mem := h.front_not_mem
  back_not_mem b hm := by
    by_cases hb : b = a
    · simp only [Renaming.commit, hb, Function.update_self] at hm
      exact h.front_not_mem a (hp ▸ hm)
    · simp only [Renaming.commit, Function.update_of_ne hb] at hm
      exact h.back_not_mem b hm

/-- The register a commit displaces has no owner left. -/
theorem Exclusive.unowned_commit [DecidableEq A] (h : Exclusive s) (hp : s.front a = p)
    (hne : s.back a ≠ p) : Unowned (s.commit a p) (s.back a) where
  front b hb := by
    obtain rfl := h.agree b a hb
    exact hne (hb.symm.trans hp)
  back b hb := by
    by_cases hba : b = a
    · simp only [Renaming.commit, hba, Function.update_self] at hb
      exact hne hb.symm
    · simp only [Renaming.commit, Function.update_of_ne hba] at hb
      exact hba (h.back_injective hb)
  free := h.back_not_mem a

theorem Exclusive.release (h : Exclusive s) (hp : Unowned s p) : Exclusive (s.release p) where
  nodup := by
    rw [Renaming.release, List.nodup_append]
    refine ⟨h.nodup, List.nodup_singleton p, fun q hq r hr hqr => hp.free ?_⟩
    rw [List.mem_singleton] at hr
    exact hr ▸ hqr ▸ hq
  front_injective := h.front_injective
  back_injective := h.back_injective
  agree := h.agree
  front_not_mem a hm := by
    rcases List.mem_append.mp hm with hm | hm
    · exact h.front_not_mem a hm
    · exact hp.front a (List.mem_singleton.mp hm)
  back_not_mem a hm := by
    rcases List.mem_append.mp hm with hm | hm
    · exact h.back_not_mem a hm
    · exact hp.back a (List.mem_singleton.mp hm)

/-- A rebuild is safe when nothing is mapped at the front alone. -/
theorem Exclusive.rebuild [Fintype A] {b : ℕ} {s : Renaming A (Fin b)} (h : Exclusive s)
    (hfront : ∀ a, ∃ c, s.back c = s.front a) : Exclusive s.rebuild where
  nodup := nodup_missing _
  front_injective := h.front_injective
  back_injective := h.back_injective
  agree := h.agree
  front_not_mem a hm := by
    obtain ⟨c, hc⟩ := hfront a
    exact mem_missing.mp hm c hc
  back_not_mem a hm := mem_missing.mp hm a rfl

end Exclusive

section Pinned

variable {z : A} {q : P}

/-- The name `z` keeps the register `q`, and nothing else has it. -/
structure Pinned (z : A) (q : P) (s : Renaming A P) : Prop where
  front_eq : s.front z = q
  back_eq : s.back z = q
  front_ne : ∀ a, a ≠ z → s.front a ≠ q
  back_ne : ∀ a, a ≠ z → s.back a ≠ q
  not_mem : q ∉ s.free

theorem Pinned.take (h : Pinned z q s) : Pinned z q s.take :=
  { h with not_mem := fun hm => h.not_mem (List.mem_of_mem_drop hm) }

theorem Pinned.install [DecidableEq A] (h : Pinned z q s) (ha : a ≠ z) (hp : p ≠ q) :
    Pinned z q (s.install a p) :=
  { h with
    front_eq := by
      simp only [Renaming.install, Function.update_of_ne ha.symm]
      exact h.front_eq
    front_ne := fun b hb => by
      by_cases hba : b = a
      · simp only [Renaming.install, hba, Function.update_self]
        exact hp
      · simp only [Renaming.install, Function.update_of_ne hba]
        exact h.front_ne b hb }

theorem Pinned.commit [DecidableEq A] (h : Pinned z q s) (ha : a ≠ z) (hp : p ≠ q) :
    Pinned z q (s.commit a p) :=
  { h with
    back_eq := by
      simp only [Renaming.commit, Function.update_of_ne ha.symm]
      exact h.back_eq
    back_ne := fun b hb => by
      by_cases hba : b = a
      · simp only [Renaming.commit, hba, Function.update_self]
        exact hp
      · simp only [Renaming.commit, Function.update_of_ne hba]
        exact h.back_ne b hb }

theorem Pinned.release (h : Pinned z q s) (hp : p ≠ q) : Pinned z q (s.release p) :=
  { h with
    not_mem := fun hm => by
      rcases List.mem_append.mp hm with hm | hm
      · exact h.not_mem hm
      · exact hp (List.mem_singleton.mp hm).symm }

/-- The register handed out is not the pinned one. -/
theorem Pinned.ne_of_free (h : Pinned z q s) (hp : p ∈ s.free) : p ≠ q :=
  fun heq => h.not_mem (heq ▸ hp)

end Pinned

section Covering

/-- Every register is used at the back or free. -/
def Covering (s : Renaming A P) : Prop := ∀ p, (∃ a, s.back a = p) ∨ p ∈ s.free

theorem Covering.rebuild [Fintype A] {b : ℕ} (s : Renaming A (Fin b)) :
    s.rebuild.Covering := by
  intro p
  by_cases hp : ∃ a, s.back a = p
  · exact .inl hp
  · exact .inr (mem_missing.mpr fun a ha => hp ⟨a, ha⟩)

/-- **A covering that has no register to spare is exact**: every register has one
place. -/
theorem Covering.exact [Fintype A] {b : ℕ} {s : Renaming A (Fin b)} (h : s.Covering)
    (hlen : s.free.length + Fintype.card A = b) :
    Function.Injective s.back ∧ s.free.Nodup ∧ ∀ a, s.back a ∉ s.free := by
  classical
  have huniv : s.free.toFinset ∪ Finset.univ.image s.back = Finset.univ := by
    ext p
    have := h p
    simp only [Finset.mem_union, List.mem_toFinset, Finset.mem_image, Finset.mem_univ, true_and,
      iff_true]
    exact this.symm
  have hcard := Finset.card_union_add_card_inter s.free.toFinset (Finset.univ.image s.back)
  rw [huniv, Finset.card_univ, Fintype.card_fin] at hcard
  have hfree := List.toFinset_card_le s.free
  have himage : (Finset.univ.image s.back).card ≤ Fintype.card A := Finset.card_image_le
  refine ⟨?_, ?_, fun a ha => ?_⟩
  · have heq : (Finset.univ.image s.back).card = (Finset.univ : Finset A).card := by
      rw [Finset.card_univ]
      omega
    exact fun a c hac => Finset.card_image_iff.mp heq (Finset.mem_coe.mpr (Finset.mem_univ a))
      (Finset.mem_coe.mpr (Finset.mem_univ c)) hac
  · have heq : s.free.dedup.length = s.free.length := by
      rw [← List.card_toFinset]
      omega
    have := List.Sublist.eq_of_length (List.dedup_sublist s.free) heq
    exact this ▸ List.nodup_dedup _
  · have hmem : s.back a ∈ s.free.toFinset ∩ Finset.univ.image s.back := by
      simp [ha]
    have := Finset.card_pos.mpr ⟨_, hmem⟩
    omega

end Covering

end Renaming
end Lib
end OooProcessor
