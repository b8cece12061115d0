/-
# The datum of a store

rt is what a store stores, what a load writes, and for SC both.  Rename puts the
mapping of rt into `MAPC` unless the instruction takes a fresh register, and keeps
the old mapping of a load in `entry_load_special`; ID reads the one or the other by
`MemRead` alone.  For a load that is the old value of rt, which LWL and LWR merge
into.  SC takes a fresh register and is no load, so that ID reads the fresh register
instead of rt (`passesOld_iff`).
-/

import OooProcessor.Core.Evaluate
import OooProcessor.Core.Syscall

namespace OooProcessor
namespace Mips

open Lib Decoder

/-- SB, SH, SWL, SW, SWR and SC. -/
def storeOpcodes : List (BitVec 6) :=
  [0b101000, 0b101001, 0b101010, 0b101011, 0b101110, 0b111000]

/-- LWL and LWR. -/
def mergingOpcodes : List (BitVec 6) := [0b100010, 0b100110]

variable (env : ℕ → Mips → Input) (n : ℕ)

/-- The word at the front of the rename queue. -/
def slotWord : Word := (run env n).renameQueueOut.instr

/-- The mapping of its rt in FRAT. -/
def slotTag : Tag := (run env n).frat.arr (regField (slotWord env n) 16)

/-- What ID passes on as `MemWriteData1`, where the registers hold `regs`. -/
def slotDatum (regs : Tag → Word) : Word :=
  (Id.issue { (run env n).idInputs with regs := regs }).memWriteData1Out

/-- **The datum of a slot is the old value of rt**, for a store of a register other than
`$0` and for a load that merges. -/
def PassesOld (regs : Tag → Word) : Prop :=
  (opcode (slotWord env n) ∈ storeOpcodes → regField (slotWord env n) 16 ≠ 0 →
      slotDatum env n regs = regs (slotTag env n)) ∧
    (opcode (slotWord env n) ∈ mergingOpcodes → slotDatum env n regs = regs (slotTag env n))

section Rows

/-- A test that passes on the rows of some opcodes passes on the controls of their
words. -/
theorem decode_of_mem {ks : List (BitVec 6)} {Q : BitVec 6 → Controls → Bool}
    (h : ks.all (fun k => k != 0b000000 && k != 0b000001 && k != 0b010001 &&
      (opcodeTable.lookup k).any fun b => Q k (Controls.ofBits b)) = true)
    {w : Word} (hw : opcode w ∈ ks) (held : Controls) :
    Q (opcode w) (decode w held) = true := by
  have hrow := List.all_eq_true.mp h _ hw
  simp only [Bool.and_eq_true, bne_iff_ne, Option.any_eq_true] at hrow
  obtain ⟨⟨⟨h0, h1⟩, h2⟩, b, hb, hQ⟩ := hrow
  have ht : table w = some b := by
    rw [table, if_neg h0, if_neg h1, if_neg h2, hb]
    rfl
  rwa [decode_of_table ht]

/-- rt is the destination field of the row. -/
def namesRt (c : Controls) : Bool := !c.regDest && !c.link && !c.jump

theorem rd_of_namesRt {w : Word} {c : Controls} (h : namesRt c = true) :
    Id.rd w c = regField w 16 := by
  simp only [namesRt, Bool.and_eq_true, Bool.not_eq_true'] at h
  simp [Id.rd, h.1.1, h.1.2, h.2]

/-- A store names rt, is no load, and takes a register if it is SC. -/
theorem entry_of_store (h : opcode (slotWord env n) ∈ storeOpcodes) :
    (run env n).renameQueueOut.rd = regField (slotWord env n) 16 ∧
      (run env n).renameQueueOut.controls.memRead = false ∧
      Rename.allocates (run env n).renameQueueOut = isSC (slotWord env n) := by
  refine entry_of_decode env (S := fun _ => True) (P := fun e => opcode e.instr ∈ storeOpcodes →
    e.rd = regField e.instr 16 ∧ e.controls.memRead = false ∧
      Rename.allocates e = isSC e.instr) trivial (fun _ => trivial) ?_ ?_ n h
  · exact fun h => absurd h (by decide)
  · intro pc w c _ _ hmem
    have hw : opcode w ∈ storeOpcodes := hmem
    have hrow := decode_of_mem (Q := fun k c => namesRt c && !c.memRead &&
      (c.regWrite == (k == 0b111000))) (by decide) hw c
    simp only [Bool.and_eq_true, Bool.not_eq_true', beq_iff_eq] at hrow
    obtain ⟨⟨hrt, hm⟩, hr⟩ := hrow
    have hne : (w != 0) = true := by
      rw [bne_iff_ne]
      rintro rfl
      exact absurd hw (by decide)
    refine ⟨rd_of_namesRt hrt, hm, ?_⟩
    show ((decode w c).regWrite && w != 0 || (decode w c).memRead) = isSC w
    rw [hr, hm, hne, Bool.and_true, Bool.or_false]
    rfl

/-- A merging load names rt. -/
theorem entry_of_merging (h : opcode (slotWord env n) ∈ mergingOpcodes) :
    (run env n).renameQueueOut.rd = regField (slotWord env n) 16 ∧
      (run env n).renameQueueOut.controls.memRead = true := by
  refine entry_of_decode env (S := fun _ => True) (P := fun e => opcode e.instr ∈ mergingOpcodes →
    e.rd = regField e.instr 16 ∧ e.controls.memRead = true) trivial (fun _ => trivial) ?_ ?_ n h
  · exact fun h => absurd h (by decide)
  · intro pc w c _ _ hmem
    have hw : opcode w ∈ mergingOpcodes := hmem
    have hrow := decode_of_mem (Q := fun _ c => namesRt c && c.memRead) (by decide) hw c
    rw [Bool.and_eq_true] at hrow
    exact ⟨rd_of_namesRt hrow.1, hrow.2⟩

end Rows

section Datum

variable {env n} (regs : Tag → Word)

/-- What ID reads for a store or a load. -/
theorem slotDatum_eq (hn : n % 4 = 0) : slotDatum env n regs =
    regs (if (run env n).renameQueueOut.controls.memRead then
      (run env n).frat.arr (run env n).renameQueueOut.rd else (run env n).mapWr) := by
  have hp := prepared env hn
  rw [slotDatum, idInputs_eq env hn]
  show (if (run env n).renameQueueOut.controls.memRead then
    regs (run env n).rename.entryLoadSpecial else regs (run env n).mapWr) = _
  split_ifs with hm
  · exact congrArg regs (hp.entryLoadSpecial hm)
  · rfl

theorem slotDatum_of_merging (hn : n % 4 = 0) (h : opcode (slotWord env n) ∈ mergingOpcodes) :
    slotDatum env n regs = regs (slotTag env n) := by
  obtain ⟨hrd, hm⟩ := entry_of_merging env n h
  rw [slotDatum_eq regs hn, hm, if_pos rfl, hrd]
  rfl

/-- A store reads rt, but SC its fresh register. -/
theorem slotDatum_of_store (hn : n % 4 = 0) (h : opcode (slotWord env n) ∈ storeOpcodes) :
    slotDatum env n regs =
      regs (if isSC (slotWord env n) then (run env n).freeReg else slotTag env n) := by
  obtain ⟨hrd, hm, hal⟩ := entry_of_store env n h
  rw [slotDatum_eq regs hn, hm, if_neg Bool.false_ne_true]
  cases hsc : isSC (slotWord env n) with
  | true =>
    rw [if_pos rfl, mapWr_of_allocates (hal.trans hsc)]
  | false =>
    rw [if_neg Bool.false_ne_true, mapWr_of_not_allocates (hal.trans hsc), hrd]
    rfl

end Datum

/-- **The datum is the old value of rt** at every issue slot of every run and for all
register contents, if and only if an SC there is given a register that holds the
value of its rt already. -/
theorem passesOld_iff (env : ℕ → Mips → Input) (n : ℕ) (hn : (run env n).id.bubble = 0)
    (regs : Tag → Word) : PassesOld env n regs ↔
      (isSC (slotWord env n) = true → regField (slotWord env n) 16 ≠ 0 →
        regs (run env n).freeReg = regs (slotTag env n)) := by
  rw [bubble_run_eq_zero] at hn
  constructor
  · rintro ⟨hstore, -⟩ hsc hrt
    have hmem : opcode (slotWord env n) ∈ storeOpcodes := by
      rw [isSC, beq_iff_eq] at hsc
      rw [hsc]
      decide
    have h := hstore hmem hrt
    rwa [slotDatum_of_store regs hn hmem, if_pos hsc] at h
  · intro h
    refine ⟨fun hmem hrt => ?_, slotDatum_of_merging regs hn⟩
    rw [slotDatum_of_store regs hn hmem]
    split_ifs with hsc
    · exact h hsc hrt
    · rfl

/-- `sw $8,0($0)` in the first slot that issues. -/
def storeEight : ℕ → Mips → Input := programEnv (fun _ => 0xAC080000) 0

/-- `sc $8,0($0)` there. -/
def storeEightConditional : ℕ → Mips → Input := programEnv (fun _ => 0xE0080000) 0

/-- SW passes on `$8`. -/
theorem passesOld_storeEight : PassesOld storeEight 12 fun p => BitVec.ofNat 32 p := by
  refine (passesOld_iff storeEight 12 ((bubble_run_eq_zero _).mpr rfl) _).mpr fun hsc => ?_
  have hword : machine.evalRun storeEight 12 (fun s => isSC s.renameQueueOut.instr) = false := by
    decide +kernel
  rw [Clocked.evalRun_eq] at hword
  exact absurd (hword.symm.trans hsc) Bool.false_ne_true

/-- SC passes on register 32, and `$8` is register 8. -/
theorem not_passesOld_storeEightConditional :
    ¬∀ env n, (run env n).id.bubble = 0 → ∀ regs, PassesOld env n regs := by
  intro h
  have hold := (h storeEightConditional 12 ((bubble_run_eq_zero _).mpr rfl)
    fun p => BitVec.ofNat 32 p).1
  have hslot : machine.evalRun storeEightConditional 12 (fun s =>
      decide (s.renameQueueOut.instr = 0xE0080000 ∧ s.freeReg = 32 ∧ s.frat.arr 8 = 8)) = true := by
    decide +kernel
  rw [Clocked.evalRun_eq, decide_eq_true_iff] at hslot
  obtain ⟨hinstr, hfree, hmap⟩ := hslot
  have hword : slotWord storeEightConditional 12 = 0xE0080000 := hinstr
  have hrt : regField (0xE0080000 : Word) 16 = 8 := by decide
  have hstore : opcode (slotWord storeEightConditional 12) ∈ storeOpcodes := by
    rw [hword]
    decide
  have hsc : isSC (0xE0080000 : Word) = true := by decide
  rw [slotDatum_of_store _ rfl hstore, slotTag, hword, hrt, hmap, hsc, if_pos rfl, hfree] at hold
  exact absurd (hold (by decide) (by decide)) (by decide)

end Mips
end OooProcessor
