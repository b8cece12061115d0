/-
# The write ports of PHYS_REG

Both ports of `PHYS_REG.v` assign in every falling edge that is not stalled, a disabled
one the value that its register has.  Port 2 is assigned last, so that it wins where
both name one register.  Disabled, it takes back what port 1 writes there
(`independent_iff`).
-/

import OooProcessor.Rtl.RegisterFiles

namespace OooProcessor
namespace PhysRegs

variable {i : Inputs} {s : State}

/-- **The ports write what they are told and no more**: port 2 before port 1, and
neither where it is disabled. -/
structure Independent (i : Inputs) (s : State) : Prop where
  others : ∀ p, ¬(i.update1 = true ∧ p = i.regToUpdate1) →
    ¬(i.update2 = true ∧ p = i.regToUpdate2) → (negedge i s).arr p = s.arr p
  port1 : i.update1 = true → ¬(i.update2 = true ∧ i.regToUpdate1 = i.regToUpdate2) →
    (negedge i s).arr i.regToUpdate1 = i.newValue1
  port2 : i.update2 = true → (negedge i s).arr i.regToUpdate2 = i.newValue2

/-- The register that port 2 names. -/
theorem arr_negedge_port2 (hs : i.stall = false) : (negedge i s).arr i.regToUpdate2 =
    if i.update2 then i.newValue2 else s.arr i.regToUpdate2 := by
  simp [negedge, hs]

/-- The register that port 1 names, if port 2 names another. -/
theorem arr_negedge_port1 (hs : i.stall = false) (hne : i.regToUpdate1 ≠ i.regToUpdate2) :
    (negedge i s).arr i.regToUpdate1 =
      if i.update1 then i.newValue1 else s.arr i.regToUpdate1 := by
  simp [negedge, hs, Function.update_of_ne hne]

/-- The registers that neither names. -/
theorem arr_negedge_of_ne (hs : i.stall = false) {p : Tag} (h1 : p ≠ i.regToUpdate1)
    (h2 : p ≠ i.regToUpdate2) : (negedge i s).arr p = s.arr p := by
  simp [negedge, hs, Function.update_of_ne h1, Function.update_of_ne h2]

/-- **The ports are independent** if and only if port 1 does not write another value to a
register that port 2, disabled, names as well. -/
theorem independent_iff (i : Inputs) (s : State) (hs : i.stall = false) :
    Independent i s ↔ (i.update1 = true → i.update2 = false →
      i.regToUpdate1 = i.regToUpdate2 → i.newValue1 = s.arr i.regToUpdate1) := by
  constructor
  · intro hind h1 h2 heq
    have hwrite := hind.port1 h1 fun h => by simp [h2] at h
    rw [heq, arr_negedge_port2 hs, h2, if_neg Bool.false_ne_true] at hwrite
    rw [heq, hwrite]
  · intro hsame
    refine ⟨fun p hp1 hp2 => ?_, fun h1 hno => ?_, fun h2 => ?_⟩
    · by_cases h2 : p = i.regToUpdate2
      · subst h2
        rw [arr_negedge_port2 hs, if_neg fun h => hp2 ⟨h, rfl⟩]
      · by_cases h1 : p = i.regToUpdate1
        · subst h1
          rw [arr_negedge_port1 hs h2, if_neg fun h => hp1 ⟨h, rfl⟩]
        · exact arr_negedge_of_ne hs h1 h2
    · by_cases heq : i.regToUpdate1 = i.regToUpdate2
      · have h2 : i.update2 = false := by
          by_contra h2
          exact hno ⟨by simpa using h2, heq⟩
        rw [hsame h1 h2 heq, heq, arr_negedge_port2 hs, h2, if_neg Bool.false_ne_true]
      · rw [arr_negedge_port1 hs heq, if_pos h1]
    · rw [arr_negedge_port2 hs, if_pos h2]

/-- Port 1 writes `value` to register 1, and port 2 is disabled and names register `p`. -/
def portOne (value : Word) (p : Tag) : Inputs := ⟨false, 1, value, true, p, 0, false⟩

theorem independent_iff_portOne : Independent (portOne 5 2) reset :=
  (independent_iff (portOne 5 2) reset rfl).mpr fun _ _ h => absurd h (by decide)

/-- A disabled port 2 that names register 1 as well takes the 5 back. -/
theorem not_independent_portOne :
    ¬∀ (i : Inputs) (s : State), i.stall = false → Independent i s := by
  intro h
  exact absurd ((h (portOne 5 1) reset rfl).port1 rfl (by decide)) (by decide)

end PhysRegs
end OooProcessor
