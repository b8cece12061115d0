/-
# SYS and the system-call handler

ID raises SYS from the Syscall bit of the instruction it issues, for the one cycle
in which its outputs carry that instruction, and `sim_main.cpp` runs its handler
for every cycle in which it sees `SYS == 1`.  The bit is meant for SYSCALL.  The
control words of LL and SC have it too, and a word that no table of Decoder
names is issued with the bit of the word before it.  `syscallOnce_iff` says that
these are the only ways for the handler to run without a SYSCALL, and that a
SYSCALL always runs it once.
-/

import OooProcessor.Core.Decoded
import OooProcessor.Core.Evaluate

namespace OooProcessor
namespace Mips

open Lib Decoder

/-- The illegal-opcode checks of `main`: MFC and MTC of a coprocessor, and the
loads and stores of coprocessors 1 to 3. -/
def accepted (w : Word) : Bool :=
  !(w &&& 0xF36003FF == 0x40000000) &&
    !(w &&& 0xD0000000 == 0xC0000000 && w &&& 0x0C000000 != 0)

section Tables

theorem table_of_isSyscall {w : Word} (h : isSyscall w = true) :
    table w = some 0b0000001101100001100 := by
  simp only [isSyscall, Bool.and_eq_true, beq_iff_eq] at h
  rw [table, if_pos h.1, h.2]
  decide

theorem table_of_isLL {w : Word} (h : isLL w = true) :
    table w = some 0b0000101101110100000 := by
  rw [isLL, beq_iff_eq] at h
  rw [table, h]
  rfl

theorem table_of_isSC {w : Word} (h : isSC w = true) :
    table w = some 0b0000011101111011000 := by
  rw [isSC, beq_iff_eq] at h
  rw [table, h]
  rfl

/-- The Syscall bit of a word: that of the tables, or the one held. -/
theorem syscall_decode (w : Word) (held : Controls) : (decode w held).syscall = true ↔
    isSyscall w = true ∨ isLL w = true ∨ isSC w = true ∨
      (table w = none ∧ held.syscall = true) := by
  cases ht : table w with
  | none =>
    rw [decode_of_none ht]
    constructor
    · exact fun h => .inr (.inr (.inr ⟨rfl, h⟩))
    · rintro (h | h | h | ⟨-, h⟩)
      · rw [table_of_isSyscall h] at ht
        simp at ht
      · rw [table_of_isLL h] at ht
        simp at ht
      · rw [table_of_isSC h] at ht
        simp at ht
      · exact h
  | some b =>
    rw [decode_of_table ht]
    constructor
    · intro h
      rcases isSyscall_or_of_syscall ht h with h | h | h
      · exact .inl h
      · exact .inr (.inl h)
      · exact .inr (.inr (.inl h))
    · rintro (h | h | h | ⟨h, -⟩)
      · rw [table_of_isSyscall h] at ht
        exact Option.some.inj ht ▸ by decide
      · rw [table_of_isLL h] at ht
        exact Option.some.inj ht ▸ by decide
      · rw [table_of_isSC h] at ht
        exact Option.some.inj ht ▸ by decide
      · simp at h

end Tables

/-- The entry's Syscall bit is that of its word: it is neither LL nor SC, nor a
word no table names that carries the bit of an earlier one. -/
structure SyscallBitOwn (e : RenameEntry) : Prop where
  not_LL : isLL e.instr = false
  not_SC : isSC e.instr = false
  not_held : table e.instr = none → e.controls.syscall = false

variable (env : ℕ → Mips → Input)

/-- SYS is 1 in a cycle if and only if the cycle is the issue slot of a SYSCALL,
from the rising edge to the next. -/
def SyscallOnce : Prop :=
  ∀ n, ((high env n).id.out.sys = true ↔
      (run env n).id.bubble = 0 ∧ isSyscall (high env n).id.out.instr1Out = true) ∧
    (run env (n + 1)).id.out.sys = (high env n).id.out.sys

section Entry

/-- The bit an entry carries. -/
theorem syscall_entry (n : ℕ) : (run env n).renameQueueOut.controls.syscall = true ↔
    isSyscall (run env n).renameQueueOut.instr = true ∨
      isLL (run env n).renameQueueOut.instr = true ∨
      isSC (run env n).renameQueueOut.instr = true ∨
      (table (run env n).renameQueueOut.instr = none ∧
        (run env n).renameQueueOut.controls.syscall = true) := by
  refine entry_of_decode env (S := fun _ => True) (P := fun e => e.controls.syscall = true ↔
    isSyscall e.instr = true ∨ isLL e.instr = true ∨ isSC e.instr = true ∨
      (table e.instr = none ∧ e.controls.syscall = true)) trivial (fun _ => trivial) ?_ ?_ n
  · constructor
    · intro h
      exact absurd h Bool.false_ne_true
    · rintro (h | h | h | ⟨-, h⟩)
      · exact absurd h (by decide)
      · exact absurd h (by decide)
      · exact absurd h (by decide)
      · exact h
  · intro pc w c _ _
    show (decode w c).syscall = true ↔ isSyscall w = true ∨ isLL w = true ∨ isSC w = true ∨
      (table w = none ∧ (decode w c).syscall = true)
    rw [syscall_decode]
    constructor
    · rintro (h | h | h | ⟨ht, h⟩)
      · exact .inl h
      · exact .inr (.inl h)
      · exact .inr (.inr (.inl h))
      · exact .inr (.inr (.inr ⟨ht, .inr (.inr (.inr ⟨ht, h⟩))⟩))
    · rintro (h | h | h | ⟨-, h⟩)
      · exact .inl h
      · exact .inr (.inl h)
      · exact .inr (.inr (.inl h))
      · exact h

/-- An entry's bit says SYSCALL exactly when it is the entry's own. -/
theorem syscall_iff_own (n : ℕ) :
    ((run env n).renameQueueOut.controls.syscall = true ↔
      isSyscall (run env n).renameQueueOut.instr = true) ↔
      SyscallBitOwn (run env n).renameQueueOut := by
  have hbit := syscall_entry env n
  constructor
  · intro h
    have hsys : ∀ {b}, table (run env n).renameQueueOut.instr = b →
        (run env n).renameQueueOut.controls.syscall = true →
        b = some 0b0000001101100001100 :=
      fun hb hs => hb.symm.trans (table_of_isSyscall (h.mp hs))
    refine ⟨?_, ?_, ?_⟩
    · by_contra hll
      rw [Bool.not_eq_false] at hll
      have := hsys (table_of_isLL hll) (hbit.mpr (.inr (.inl hll)))
      exact absurd this (by decide)
    · by_contra hsc
      rw [Bool.not_eq_false] at hsc
      have := hsys (table_of_isSC hsc) (hbit.mpr (.inr (.inr (.inl hsc))))
      exact absurd this (by decide)
    · intro ht
      by_contra hs
      rw [Bool.not_eq_false] at hs
      exact absurd (hsys ht hs) (by simp)
  · rintro ⟨hll, hsc, hheld⟩
    constructor
    · intro hs
      rcases hbit.mp hs with h | h | h | ⟨ht, -⟩
      · exact h
      · rw [hll] at h
        exact absurd h Bool.false_ne_true
      · rw [hsc] at h
        exact absurd h Bool.false_ne_true
      · rw [hheld ht] at hs
        exact absurd hs Bool.false_ne_true
    · exact fun h => hbit.mpr (.inl h)

end Entry

/-- **The handler runs once for every SYSCALL and for nothing else, if and only
if every issued instruction's Syscall bit is its own.** -/
theorem syscallOnce_iff : SyscallOnce env ↔
    ∀ n, (run env n).id.bubble = 0 → SyscallBitOwn (run env n).renameQueueOut := by
  constructor
  · intro h n hb
    have hn := (bubble_run_eq_zero env).mp hb
    rw [← syscall_iff_own env n, ← issued_sys env hn, ← issued_instr env hn]
    have hcycle := (h n).1
    constructor
    · exact fun hs => (hcycle.mp hs).2
    · exact fun hw => hcycle.mpr ⟨hb, hw⟩
  · intro h n
    refine ⟨?_, rfl⟩
    show (run env (n + 1)).id.out.sys = true ↔
      _ ∧ isSyscall (run env (n + 1)).id.out.instr1Out = true
    by_cases hn : n % 4 = 0
    · have hb := (bubble_run_eq_zero env).mpr hn
      have hown := (syscall_iff_own env n).mpr (h n hb)
      rw [← issued_sys env hn, ← issued_instr env hn] at hown
      constructor
      · exact fun hs => ⟨hb, hown.mp hs⟩
      · exact fun hw => hown.mpr hw.2
    · rw [out_of_ne env (n := n + 1) (by omega)]
      constructor
      · intro hs
        simp at hs
      · rintro ⟨hb, -⟩
        exact absurd ((bubble_run_eq_zero env).mp hb) hn

/-- `ll $8,0($0)` at every address. -/
def loadLinked : ℕ → Mips → Input := programEnv (fun _ => 0xC0080000) 0

/-- LL passes the checks of `main` and raises SYS. -/
theorem not_syscallOnce_loadLinked :
    (∀ n, accepted (fetched loadLinked n) = true) ∧ ¬SyscallOnce loadLinked := by
  constructor
  · exact fetched_programEnv (S := fun w => accepted w = true) (by decide) (fun _ => by decide) 0
  · intro h
    have hrun : machine.evalRun loadLinked 13
        (fun s => s.id.out.sys && !isSyscall s.id.out.instr1Out) = true := by decide +kernel
    rw [Clocked.evalRun_eq, Bool.and_eq_true, Bool.not_eq_true'] at hrun
    have hcycle := (h 12).1
    rw [out_high] at hcycle
    have hword := (hcycle.mp hrun.1).2
    rw [hrun.2] at hword
    exact absurd hword Bool.false_ne_true

end Mips
end OooProcessor
