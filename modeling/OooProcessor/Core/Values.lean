/-
# The values behind the names

What FRAT and PHYS_REG hold together is one value for each architectural register, and
one issue slot changes it as the instruction of the slot says: the handler of a system
call writes through RRAT, which is FRAT at that time, and the result of the instruction is
stored under a register that no name leads to yet.
-/

import OooProcessor.Core.Fresh

namespace OooProcessor
namespace Mips

/-- The value of an architectural register. -/
def regValue (s : Mips) (a : Reg) : Word := s.physReg.arr (s.frat.arr a)

/-- Writes of a system call, one after another. -/
def sysWritten (ws : List (Reg × Word)) (v : Reg → Word) : Reg → Word :=
  ws.foldl (fun v w => Function.update v w.1 w.2) v

/-- `write_register` through a table that maps no two names alike. -/
theorem foldl_writeRegister {m : Reg → Tag} (hm : Function.Injective m) (ws : List (Reg × Word))
    (regs : PhysRegs.State) (a : Reg) :
    (ws.foldl (fun regs w => writeRegister m regs w.1 w.2) regs).arr (m a) =
      sysWritten ws (fun a => regs.arr (m a)) a := by
  induction ws generalizing regs with
  | nil => rfl
  | cons w ws ih =>
    have hone : (fun a => (writeRegister m regs w.1 w.2).arr (m a)) =
        Function.update (fun a => regs.arr (m a)) w.1 w.2 :=
      Function.update_comp_eq_of_injective regs.arr hm w.1 w.2
    rw [List.foldl_cons, ih, hone]
    rfl

variable {env : ℕ → Mips → Input} {n c : ℕ}

section Slot

variable (hn : n % 4 = 0)

include hn

/-- The registers after the handler of the slot's cycle. -/
theorem value_handler (hc : NoCop1 env) (hinj : Function.Injective (run env n).frat.arr)
    (a : Reg) : (run env (n + 1)).physReg.arr ((run env n).frat.arr a) =
      if (run env n).renameQueueOut.controls.syscall then
        sysWritten (machine.input env n).sysWrites (run env n).regValue a
      else (run env n).regValue a := by
  have hsys : (high env n).id.out.sys = (run env n).renameQueueOut.controls.syscall :=
    issued_sys env hn
  rw [physReg_one env hn, syscallHandler, hsys]
  split_ifs
  · have hmap : (high env n).rrat.arr = (run env n).frat.arr := (frat_eq_rrat hc n hn).symm
    rw [hmap]
    exact foldl_writeRegister hinj _ _ a
  · rfl

/-- A slot stores the result of its instruction under the register the instruction was
given, or nothing. -/
theorem arr_four : (run env (n + 4)).physReg.arr =
    if Exe.broadcasts (issued env n) || writesBack (issued env n) then
      Function.update (run env (n + 1)).physReg.arr (run env n).mapWr (result env n)
    else (run env (n + 1)).physReg.arr := by
  have hp := (pinned_slot env n hn).1
  rw [physReg_four env hn, physReg_three env hn, physReg_two env hn fun hb =>
    mapWr_ne_zero env hp (allocates_of_broadcasts env hn hb), result, broadcastFlag_two]
  cases hb : Exe.broadcasts (issued env n) with
  | false => simp
  | true =>
    have hw : writesBack (issued env n) = false := by simp [writesBack, hb]
    simp [hw]

/-- An instruction writes the name that FRAT moves for it. -/
theorem writesReg_iff (hc : NoCop1 env) (a : Reg) : WritesReg env n a ↔
    (run env n).remaps = true ∧ a = (run env n).renameQueueOut.rd := by
  rw [WritesReg, issued_writeRegister env hn]
  constructor
  · rintro ⟨hw, rfl⟩
    refine ⟨?_, rfl⟩
    rw [remaps, allocates_of_regWrite env hn hw]
    rw [issued_regWrite env hn, Bool.and_eq_true] at hw
    exact hw.1
  · rintro ⟨hr, rfl⟩
    exact ⟨regWrite_of_remaps hc hn hr, rfl⟩

/-- **One slot**: the destination gets the result, and every other register keeps what
the handler left in it. -/
theorem value_four (hc : NoCop1 env) (h : Fresh (run env n) c) (hc32 : c < 32) (a : Reg) :
    (run env (n + 4)).regValue a =
      if WritesReg env n a then result env n
      else (run env (n + 1)).physReg.arr ((run env n).frat.arr a) := by
  rw [regValue, arr_four hn, frat_four env hn, frat_one env hn,
    if_congr (writesReg_iff hn hc a) rfl rfl]
  cases hst : Exe.broadcasts (issued env n) || writesBack (issued env n) with
  | false =>
    have hr : (run env n).remaps = false := by
      by_contra hr
      have hw := regWrite_of_remaps hc hn (by simpa using hr)
      rw [broadcasts_or_writesBack hw] at hst
      cases hb : writesBack (issued env n) <;> rw [hb] at hst <;> exact absurd hst (by decide)
    rw [hr]
    simp
  | true =>
    have hal := (writes_or_links hn hst).1
    rw [if_pos rfl, mapWr_of_allocates hal]
    cases hr : (run env n).remaps with
    | false =>
      rw [if_neg Bool.false_ne_true, if_neg fun h => Bool.false_ne_true h.1,
        Function.update_of_ne (h.ne_freeReg hc32 hal a)]
    | true =>
      by_cases ha : a = (run env n).renameQueueOut.rd
      · rw [if_pos rfl, if_pos ⟨rfl, ha⟩, ha, Function.update_self, Function.update_self]
      · rw [if_pos rfl, if_neg fun h => ha h.2, Function.update_of_ne ha,
          Function.update_of_ne (h.ne_freeReg hc32 hal a)]

/-- **What a slot leaves in a register.** -/
theorem regValue_four (hc : NoCop1 env) (h : Fresh (run env n) c) (hc32 : c < 32) (a : Reg) :
    (run env (n + 4)).regValue a =
      if WritesReg env n a then result env n
      else if (run env n).renameQueueOut.controls.syscall then
        sysWritten (machine.input env n).sysWrites (run env n).regValue a
      else (run env n).regValue a := by
  rw [value_four hn hc h hc32, value_handler hn hc h.injective]

end Slot

end Mips
end OooProcessor
