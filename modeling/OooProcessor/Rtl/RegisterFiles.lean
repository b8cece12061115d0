/-
# TABLE_obj and PHYS_REG

`verilog/TABLE_obj.v`, a register alias table with one write port, and
`verilog/PHYS_REG.v`, the physical register file with two.  Both change on the
falling edge.  Every port performs its nonblocking write on every edge, a
disabled one with the value already stored, and of two writes to one index the
later assignment of the block stands.
-/

import OooProcessor.Rtl.Types
import Mathlib.Logic.Function.Basic
import Mathlib.Tactic.SplitIfs

namespace OooProcessor

namespace TableObj

/-- `arr`, and the `reg`s behind the two outputs of the write port. -/
structure State where
  arr : Reg → Tag
  returnedMapping : Tag
  returnMap : Bool

structure Inputs where
  stall : Bool
  regToMap : Reg
  newMapping : Tag
  remap : Bool
  newMap : Reg → Tag
  overwrite : Bool

/-- Reset maps register `i` to physical register `i`; the outputs are not
reset. -/
def reset : State := ⟨fun i => ⟨i, by omega⟩, 0, false⟩

/-- `(remap & (reg_to_map != 0))` -/
def remaps (i : Inputs) : Bool := i.remap && i.regToMap != 0

def negedge (i : Inputs) (s : State) : State :=
  if i.stall then s
  else if i.overwrite then { s with arr := i.newMap }
  else
    { arr := Function.update s.arr i.regToMap
        (if remaps i then i.newMapping else s.arr i.regToMap)
      returnedMapping := if remaps i then s.arr i.regToMap else 0
      returnMap := remaps i }

/-- A table without `overwrite` changes by one remap at most. -/
theorem arr_negedge {i : Inputs} (hs : i.stall = false) (ho : i.overwrite = false) (s : State) :
    (negedge i s).arr =
      if remaps i then Function.update s.arr i.regToMap i.newMapping else s.arr := by
  unfold negedge
  cases hr : remaps i <;> simp [hs, ho]

/-- The guard `reg_to_map != 0`: no remap moves register 0. -/
theorem arr_negedge_zero {i : Inputs} (hs : i.stall = false) (ho : i.overwrite = false)
    (s : State) : (negedge i s).arr 0 = s.arr 0 := by
  rw [arr_negedge hs ho]
  split_ifs with hr
  · have hne : (0 : Reg) ≠ i.regToMap := by
      rintro h
      simp [remaps, ← h] at hr
    exact Function.update_of_ne hne _ _
  · rfl

theorem returnMap_negedge {i : Inputs} (hs : i.stall = false) (ho : i.overwrite = false)
    (s : State) : (negedge i s).returnMap = remaps i := by
  simp [negedge, hs, ho]

theorem returnedMapping_negedge {i : Inputs} (hs : i.stall = false) (ho : i.overwrite = false)
    (hr : remaps i = true) (s : State) : (negedge i s).returnedMapping = s.arr i.regToMap := by
  simp [negedge, hs, ho, hr]

end TableObj

namespace PhysRegs

structure State where
  arr : Tag → Word

structure Inputs where
  stall : Bool
  regToUpdate1 : Tag
  newValue1 : Word
  update1 : Bool
  regToUpdate2 : Tag
  newValue2 : Word
  update2 : Bool

def reset : State := ⟨fun _ => 0⟩

def negedge (i : Inputs) (s : State) : State :=
  if i.stall then s
  else
    { arr :=
        Function.update
          (Function.update s.arr i.regToUpdate1
            (if i.update1 then i.newValue1 else s.arr i.regToUpdate1))
          i.regToUpdate2 (if i.update2 then i.newValue2 else s.arr i.regToUpdate2) }

theorem negedge_of_idle {i : Inputs} (h1 : i.update1 = false) (h2 : i.update2 = false)
    (s : State) : negedge i s = s := by
  cases s
  simp [negedge, h1, h2]

/-- A write through port 1 stands unless the idle port 2 names the same
register and stores its old value back. -/
theorem arr_negedge_of_update1 {i : Inputs} (hs : i.stall = false) (h1 : i.update1 = true)
    (h2 : i.update2 = false) (hne : i.regToUpdate1 ≠ i.regToUpdate2) (s : State) :
    (negedge i s).arr = Function.update s.arr i.regToUpdate1 i.newValue1 := by
  simp only [negedge, hs, h1, h2, Bool.false_eq_true, if_false, if_true]
  rw [Function.update_comm hne, Function.update_eq_self]

theorem arr_negedge_of_update2 {i : Inputs} (hs : i.stall = false) (h1 : i.update1 = false)
    (h2 : i.update2 = true) (s : State) :
    (negedge i s).arr = Function.update s.arr i.regToUpdate2 i.newValue2 := by
  simp [negedge, hs, h1, h2]

end PhysRegs
end OooProcessor
