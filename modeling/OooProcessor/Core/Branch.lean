/-
# The branch decision

Whether a conditional branch is taken is decided in four places: Decoder marks it,
`ID.v` chooses the registers it reads (`rs`, `rt`) and the operands EXE gets
(`OpA1`, `OpB1`), and `compare.v` looks at the opcode once more.  A `View` is what
they all decide on: FRAT and PHYS_REG with `$0` hardwired, any contents
otherwise.  Every issue slot of a run reads through one (`issued_eq_view`).

The four agree with MIPS on BEQ, BNE, BLEZ, BGTZ, BLTZ and BGEZ.  `compare.v` has no
case for the likely branches, which are never taken, and `rs` is `$0` for whatever
links without a register jump, so that BLTZAL and BGEZAL test `$0`
(`taken_iff`).
-/

import OooProcessor.Core.Decoded
import OooProcessor.Core.Zero

namespace OooProcessor
namespace Mips

open Decoder

/-- The architectural registers as ID reads them. -/
structure View where
  frat : Reg → Tag
  regs : Tag → Word
  zero : regs (frat 0) = 0

namespace View

variable (v : View)

/-- The value of an architectural register. -/
def read (r : Reg) : Word := v.regs (v.frat r)

/-- What ID reads at the issue slot of the entry `e`. -/
def inputs (e : RenameEntry) (mapWr special : Tag) : Id.Inputs where
  renameOut := Rename.pack e v.frat mapWr
  entryLoadSpecial := special
  oldA := e.rs
  oldB := e.rt
  oldC := e.rd
  regs := v.regs

/-- What ID hands to EXE for the word `w` at `pc`, where the outputs of Decoder
have been `held` so far. -/
def issue (pc w : Word) (held : Controls) (mapWr special : Tag) : Id.Out :=
  Id.issue (v.inputs (Id.renameEntry pc w (decode w held)) mapWr special)

end View

section Slot

variable {env : ℕ → Mips → Input}

/-- The registers of a run before cycle `n`. -/
def viewAt (hsys : SysWritesNonzero env) (n : ℕ) : View where
  frat := (run env n).frat.arr
  regs := (run env n).physReg.arr
  zero := by
    rw [frat_zero]
    exact physReg_zero hsys n

/-- **Every issue slot reads through a view.** -/
theorem issued_eq_view (hsys : SysWritesNonzero env) {n : ℕ} (hn : n % 4 = 0) :
    issued env n = Id.issue ((viewAt hsys n).inputs (run env n).renameQueueOut (run env n).mapWr
      (run env n).rename.entryLoadSpecial) := issued_eq env hn

end Slot

section Condition

/-- A word outside COP1 that Decoder marks as a branch and not as a jump. -/
def isCondBranch (w : Word) : Bool :=
  !isCOP1 w && (table w).any fun b => (Controls.ofBits b).branch && !(Controls.ofBits b).jump

/-- BEQL, BNEL and BLEZL. -/
def isLikely (w : Word) : Bool :=
  opcode w == 0b010100 || opcode w == 0b010101 || opcode w == 0b010110

/-- BLTZAL and BGEZAL. -/
def isCondLink (w : Word) : Bool := opcode w == 0b000001 && (rt w == 0b10000 || rt w == 0b10001)

/-- The condition under which MIPS takes the branch `w`, for the values `a` of rs and
`b` of rt. -/
def condition (w a b : Word) : Bool :=
  match opcode w with
  | 0b000001 =>
    match rt w with
    | 0b00000 | 0b10000 => decide (a.toInt < 0)   -- bltz, bltzal
    | _ => decide (0 ≤ a.toInt)                   -- bgez, bgezal
  | 0b000100 | 0b010100 => a == b                 -- beq, beql
  | 0b000101 | 0b010101 => a != b                 -- bne, bnel
  | 0b000110 | 0b010110 => decide (a.toInt ≤ 0)   -- blez, blezl
  | _ => decide (0 < a.toInt)                     -- bgtz

/-- A row of the tables is one of a conditional branch. -/
def branchRow {κ : Type*} (p : κ × BitVec 19) : Bool :=
  (Controls.ofBits p.2).branch && !(Controls.ofBits p.2).jump

/-- What `isCondBranch` accepts stands in a row of REGIMM or of the opcodes. -/
theorem isCondBranch_cases {w : Word} (h : isCondBranch w = true) : ∃ b, table w = some b ∧
    ((opcode w = 0b000001 ∧ (rt w, b) ∈ regimmTable) ∨
      (opcode w, b) ∈ opcodeTable.filter branchRow) := by
  simp only [isCondBranch, Bool.and_eq_true, Bool.not_eq_true', Option.any_eq_true] at h
  obtain ⟨hcop, b, ht, hb, hj⟩ := h
  refine ⟨b, ht, ?_⟩
  have hno : ∀ {b}, implies (fun c => c.branch && !c.jump) (fun _ => false) b = true →
      ¬((Controls.ofBits b).branch = true ∧ (Controls.ofBits b).jump = false) := by
    rintro b hb ⟨hbr, hj⟩
    simpa [hbr, hj] using of_implies (p := fun c => c.branch && !c.jump) hb (by simp [hbr, hj])
  have hcop' : opcode w ≠ 0b010001 := by simpa [isCOP1] using hcop
  unfold table at ht
  split_ifs at ht with h0 h1
  · refine absurd ⟨hb, hj⟩ (hno ?_)
    exact of_mem (Q := fun _ => implies (fun c => c.branch && !c.jump) fun _ => false) (by decide)
      (mem_of_lookup ht)
  · exact .inl ⟨h1, mem_of_lookup ht⟩
  · refine .inr (List.mem_filter.mpr ⟨?_, by simp [branchRow, hb, hj]⟩)
    cases hl : opcodeTable.lookup (opcode w) with
    | none =>
      obtain rfl : 0 = b := by simpa [hl] using ht
      exact absurd hb (by decide)
    | some c =>
      obtain rfl : c = b := by simpa [hl] using ht
      exact mem_of_lookup hl

end Condition

section Decision

variable (v : View) {pc w : Word} {held : Controls} {mapWr special : Tag} {b : BitVec 19}

/-- What `compare.v` is given for a conditional branch: rs, or `$0` where it links, and
rt where its row has RegDest. -/
theorem requestAltPc1_of_table (ht : table w = some b)
    (hbr : (Controls.ofBits b).branch = true) (hj : (Controls.ofBits b).jump = false) :
    Exe.requestAltPc1 (v.issue pc w held mapWr special) =
      Compare.brTaken w
        (if (Controls.ofBits b).link && !(Controls.ofBits b).jumpRegister then 0
          else v.read (regField w 21))
        (if (Controls.ofBits b).link then Id.ip4 pc + 4
          else if (Controls.ofBits b).regDest then v.read (regField w 16) else 0) := by
  have hc : decode w held = Controls.ofBits b := decode_of_table ht held
  have hopA : (v.issue pc w held mapWr special).operandA1Out =
      if (Controls.ofBits b).link && !(Controls.ofBits b).jumpRegister then 0
        else v.read (regField w 21) := by
    show v.regs (v.frat (Id.rs w (decode w held))) = _
    rw [hc, Id.rs, hj, Bool.false_and, Bool.or_false]
    split_ifs
    · exact v.zero
    · rfl
  have hopB : (v.issue pc w held mapWr special).operandB1Out =
      if (Controls.ofBits b).link then Id.ip4 pc + 4
        else if (Controls.ofBits b).regDest then v.read (regField w 16) else 0 := by
    show (if (decode w held).branch && (decode w held).link then Id.opB pc w (decode w held)
      else if (decode w held).regDest then v.regs (v.frat (Id.rt w (decode w held)))
      else Id.opB pc w (decode w held)) = _
    rw [hc, Id.opB, Id.rt, hbr]
    cases (Controls.ofBits b).link <;> cases (Controls.ofBits b).regDest <;> rfl
  have hjump : (v.issue pc w held mapWr special).allInfoIF.controls.jump = false := by
    show (decode w held).jump = false
    rw [hc, hj]
  rw [Exe.requestAltPc1, Compare.taken, hopA, hopB, hjump, Bool.or_false]
  rfl

theorem msb_eq_toInt (x : Word) : x.msb = decide (x.toInt < 0) := BitVec.msb_eq_toInt

theorem eq_zero_iff_toInt (x : Word) : x = 0 ↔ x.toInt = 0 := by
  rw [← BitVec.toInt_inj]
  rfl

/-- BLEZ as `compare.v` has it. -/
theorem msb_or_zero (x : Word) : (x.msb || x == 0) = decide (x.toInt ≤ 0) := by
  rw [Bool.eq_iff_iff, msb_eq_toInt, Bool.or_eq_true, decide_eq_true_iff, decide_eq_true_iff,
    beq_iff_eq, eq_zero_iff_toInt]
  omega

/-- BGTZ as `compare.v` has it. -/
theorem not_msb_and_ne_zero (x : Word) : (!x.msb && x != 0) = decide (0 < x.toInt) := by
  rw [Bool.eq_iff_iff, msb_eq_toInt, Bool.and_eq_true, Bool.not_eq_true', decide_eq_false_iff_not,
    decide_eq_true_iff, bne_iff_ne, Ne, eq_zero_iff_toInt]
  omega

/-- Branches of REGIMM compare rs, or `$0` where they link, with zero. -/
theorem brTaken_regimm (hop : opcode w = 0b000001) (hb : (rt w, b) ∈ regimmTable) (x y z : Word) :
    (Compare.brTaken w (if (Controls.ofBits b).link && !(Controls.ofBits b).jumpRegister then 0
        else x) y = condition w x z) ↔ (isCondLink w = true → 0 ≤ x.toInt) := by
  have hop' : w.extractLsb' 26 6 = 0b000001 := hop
  have hrt : w.extractLsb' 16 5 = rt w := rfl
  simp only [Compare.brTaken, condition, isCondLink, hop, hop', hrt]
  simp only [regimmTable, List.mem_cons, Prod.mk.injEq, List.not_mem_nil, or_false] at hb
  rcases hb with ⟨hrt, rfl⟩ | ⟨hrt, rfl⟩ | ⟨hrt, rfl⟩ | ⟨hrt, rfl⟩
  · simp [hrt, Controls.ofBits, msb_eq_toInt]
  · have hge : (!x.msb) = decide (0 ≤ x.toInt) := by
      rw [msb_eq_toInt, ← decide_not, decide_eq_decide]
      exact not_lt
    simpa [hrt, Controls.ofBits] using hge
  · simp [hrt, Controls.ofBits]
  · simp [hrt, Controls.ofBits]

/-- The other rows compare what they should, but for the likely branches, which
`compare.v` does not know. -/
theorem brTaken_opcode (hb : (opcode w, b) ∈ opcodeTable.filter branchRow) (x y : Word) :
    (Compare.brTaken w x (if (Controls.ofBits b).regDest then y else 0) = condition w x y) ↔
      (isLikely w = true → condition w x y = false) := by
  have hrows : opcodeTable.filter branchRow =
      [(0b000100, 0b0101000001010001000), (0b000101, 0b0101000001010100100),
        (0b000110, 0b0001000001010011000), (0b000111, 0b0001000001010010100),
        (0b010100, 0b0001000001011101000), (0b010110, 0b0001000001011101100),
        (0b010101, 0b0001000001011110000)] := by decide
  have hop' : w.extractLsb' 26 6 = opcode w := rfl
  rw [hrows] at hb
  simp only [Compare.brTaken, condition, isLikely, hop']
  simp only [List.mem_cons, Prod.mk.injEq, List.not_mem_nil, or_false] at hb
  rcases hb with ⟨hop, rfl⟩ | ⟨hop, rfl⟩ | ⟨hop, rfl⟩ | ⟨hop, rfl⟩ | ⟨hop, rfl⟩ | ⟨hop, rfl⟩ |
    ⟨hop, rfl⟩
  · simp [hop, Controls.ofBits]
  · simp [hop, Controls.ofBits]
  · simpa [hop] using msb_or_zero x
  · simpa [hop] using not_msb_and_ne_zero x
  · simp [hop]
  · simp [hop]
  · simp [hop]

/-- No row of the opcodes both branches and links without a jump. -/
theorem link_of_branchRow {κ : Type*} {k : κ} {l : List (κ × BitVec 19)}
    (h : (l.filter branchRow).all (fun p => !(Controls.ofBits p.2).link) = true)
    (hb : (k, b) ∈ l.filter branchRow) : (Controls.ofBits b).link = false := by
  have := of_mem (Q := fun _ b => !(Controls.ofBits b).link) h hb
  simpa using this

/-- **When the branch decision is that of MIPS**: a likely branch is not to be taken,
and what BLTZAL and BGEZAL test is not negative. -/
def Decides (w a b : Word) : Prop :=
  (isLikely w = true → condition w a b = false) ∧ (isCondLink w = true → 0 ≤ a.toInt)

/-- **The branch decision of every conditional branch** is that of MIPS on the values
of rs and rt if and only if `Decides` holds of them. -/
theorem taken_iff (v : View) (pc w : Word) (held : Controls) (mapWr special : Tag)
    (h : isCondBranch w = true) :
    Exe.requestAltPc1 (v.issue pc w held mapWr special) =
        condition w (v.read (regField w 21)) (v.read (regField w 16)) ↔
      Decides w (v.read (regField w 21)) (v.read (regField w 16)) := by
  obtain ⟨b, ht, ⟨hop, hb⟩ | hb⟩ := isCondBranch_cases h
  · have hrow := of_mem (Q := fun _ b => branchRow ((), b)) (by decide) hb
    simp only [branchRow, Bool.and_eq_true, Bool.not_eq_true'] at hrow
    rw [requestAltPc1_of_table v ht hrow.1 hrow.2, brTaken_regimm hop hb]
    have hlikely : isLikely w = false := by simp [isLikely, hop]
    simp [Decides, hlikely]
  · have hrow := (List.mem_filter.mp hb).2
    simp only [branchRow, Bool.and_eq_true, Bool.not_eq_true'] at hrow
    have hlink := link_of_branchRow (by decide) hb
    rw [requestAltPc1_of_table v ht hrow.1 hrow.2, hlink, Bool.false_and,
      if_neg Bool.false_ne_true, if_neg Bool.false_ne_true, brTaken_opcode hb]
    have hop : (opcode w == 0b000001) = false := by
      have hne := of_mem (Q := fun k _ => k != 0b000001) (by decide) hb
      rwa [bne, Bool.not_eq_true'] at hne
    have hcond : isCondLink w = false := by rw [isCondLink, hop, Bool.false_and]
    simp [Decides, hcond]

/-- `$1` holds -1 and every other register 0. -/
def minusOne : View where
  frat := TableObj.reset.arr
  regs t := if t = 1 then -1 else 0
  zero := rfl

/-- BLTZ of `$1` is decided as it should be. -/
theorem taken_iff_bltz : Exe.requestAltPc1 (minusOne.issue 0xBFC00000 0x04200004 0 0 0) =
    condition 0x04200004 (minusOne.read 1) (minusOne.read 0) :=
  (taken_iff minusOne 0xBFC00000 0x04200004 0 0 0 (by decide)).mpr
    ⟨fun h => absurd h (by decide), fun h => absurd h (by decide)⟩

/-- BLTZAL of `$1` is not taken. -/
theorem not_taken_bltzal : ¬∀ (v : View) (pc w : Word) (held : Controls) (mapWr special : Tag),
    isCondBranch w = true → Exe.requestAltPc1 (v.issue pc w held mapWr special) =
      condition w (v.read (regField w 21)) (v.read (regField w 16)) := by
  intro h
  exact absurd (h minusOne 0xBFC00000 0x04300004 0 0 0 (by decide)) (by decide)

end Decision

end Mips
end OooProcessor
