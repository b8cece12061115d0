/-
# Arbiter, Arbiter_main

`verilog/Arbiter.v` grants the first of four requests if its own group is granted.
`verilog/Arbiter_main.v` puts four of them under a fifth, and numbers the grants.
-/

import Mathlib.Data.List.FinRange
import Mathlib.Tactic.FinCases
import OooProcessor.Rtl.Types

namespace OooProcessor
namespace Arbiter

/-- `GR` -/
def request (r : Fin 4 → Bool) : Bool := r 0 || r 1 || r 2 || r 3

/-- `G0` to `G3` -/
def grant (gg : Bool) (r : Fin 4 → Bool) : Fin 4 → Bool
  | 0 => gg && r 0
  | 1 => gg && !r 0 && r 1
  | 2 => gg && !r 0 && !r 1 && r 2
  | 3 => gg && !r 0 && !r 1 && !r 2 && r 3

/-- A grant answers a request. -/
theorem of_grant {gg : Bool} {r : Fin 4 → Bool} {j : Fin 4} (h : grant gg r j = true) :
    r j = true := by
  fin_cases j <;> simp_all [grant]

end Arbiter

namespace ArbiterMain

/-- The requests of Arbiter0 to Arbiter3. -/
def group (ready : Fin 16 → Bool) (p : Fin 4) (j : Fin 4) : Bool :=
  ready ⟨4 * p + j, by omega⟩

/-- `GR0` to `GR3` -/
def groupRequest (ready : Fin 16 → Bool) (p : Fin 4) : Bool := Arbiter.request (group ready p)

/-- `GG0` to `GG3` -/
def groupGrant (ready : Fin 16 → Bool) : Fin 4 → Bool := Arbiter.grant true (groupRequest ready)

/-- `grant` -/
def grant (ready : Fin 16 → Bool) (i : Fin 16) : Bool :=
  Arbiter.grant (groupGrant ready ⟨i / 4, by omega⟩) (group ready ⟨i / 4, by omega⟩)
    ⟨i % 4, by omega⟩

/-- `granted`, with `none` for 16. -/
def granted (ready : Fin 16 → Bool) : Option (Fin 16) := (List.finRange 16).find? (grant ready)

/-- **What is granted was requested.** -/
theorem of_granted {ready : Fin 16 → Bool} {i : Fin 16} (h : granted ready = some i) :
    ready i = true := by
  have hgrant : grant ready i = true := List.find?_some h
  have hreq := Arbiter.of_grant hgrant
  rw [group] at hreq
  have hi : (⟨4 * (i / 4) + i % 4, by omega⟩ : Fin 16) = i := Fin.ext (Nat.div_add_mod i 4)
  rwa [hi] at hreq

end ArbiterMain
end OooProcessor
