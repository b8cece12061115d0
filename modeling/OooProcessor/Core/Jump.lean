/-
# Jump targets and links

Where a jump or branch goes is computed in decode (`jm_dest_imm`, `br_dest_imm`), or
in EXE for a register jump; `NextInstructionCalculator.v` is a second calculator for
the same address.  They agree on every word that a table of Decoder names
(`addr_posedge`).

What JAL, JALR, BLTZAL and BGEZAL write is the address after the delay slot.  JALR's
control word has the ALU pass `OpB1` on, the others add it to `OpA1`, which is `$0`
for them; EXE broadcasts the sum whether it takes the branch or not (`link_of_not_isJALR`).
-/

import OooProcessor.Core.Branch

namespace OooProcessor
namespace Mips

open Decoder NextInstructionCalculator

/-- JALR -/
def isJALR (w : Word) : Bool := opcode w == 0b000000 && funct w == 0b001001

/-- J, JAL, JR, JALR, and the conditional branches of the opcodes `0x01` and `0x04` to
`0x07`. -/
def transfers (w : Word) : Bool :=
  (opcode w == 0b000000 && (funct w == 0b001000 || funct w == 0b001001)) ||
    (opcode w == 0b000001 && (regimmTable.lookup (rt w)).isSome) ||
    (0b000010 ≤ opcode w && opcode w ≤ 0b000111)

/-- JAL, JALR, BLTZAL and BGEZAL. -/
def links (w : Word) : Bool := isJALR w || opcode w == 0b000011 || isCondLink w

/-- The register a link is written to. -/
def linkRegister (w : Word) : Reg := if isJALR w then regField w 11 else 31

section Tables

variable {w : Word} {b : BitVec 19}

/-- Every word that transfers control stands in a table. -/
theorem table_of_transfers (h : transfers w = true) : ∃ b, table w = some b := by
  simp only [transfers, Bool.or_eq_true, Bool.and_eq_true, beq_iff_eq, decide_eq_true_eq] at h
  rcases h with (⟨hop, hf | hf⟩ | ⟨hop, hrt⟩) | ⟨h2, h7⟩
  · rw [table, if_pos hop, hf]
    exact ⟨_, rfl⟩
  · rw [table, if_pos hop, hf]
    exact ⟨_, rfl⟩
  · obtain ⟨b, hb⟩ := Option.isSome_iff_exists.mp hrt
    rw [table, if_neg (by rw [hop]; decide), if_pos hop]
    exact ⟨b, hb⟩
  · have hne : ∀ k : BitVec 6, (k < 0b000010 ∨ 0b000111 < k) → opcode w ≠ k := by
      rintro k hk rfl
      rcases hk with hk | hk
      · exact absurd h2 (by bv_omega)
      · exact absurd h7 (by bv_omega)
    rw [table, if_neg (hne _ (.inl (by decide))), if_neg (hne _ (.inl (by decide))),
      if_neg (hne _ (.inr (by decide)))]
    exact ⟨_, rfl⟩

/-- A register jump is a jump. -/
theorem jump_of_jumpRegister (h : table w = some b)
    (hj : (Controls.ofBits b).jumpRegister = true) : (Controls.ofBits b).jump = true := by
  refine of_implies (p := Controls.jumpRegister) (q := Controls.jump) ?_ hj
  rcases table_cases h with ⟨-, h⟩ | h | h | h | rfl
  · exact of_mem (Q := fun _ => implies Controls.jumpRegister Controls.jump) (by decide) h
  · exact of_mem (Q := fun _ => implies Controls.jumpRegister Controls.jump) (by decide) h
  · exact of_mem_cop1Words (by decide) h
  · exact of_mem (Q := fun _ => implies Controls.jumpRegister Controls.jump) (by decide) h
  · decide

theorem table_of_isJALR (h : isJALR w = true) : table w = some 0b1111001110011100000 := by
  simp only [isJALR, Bool.and_eq_true, beq_iff_eq] at h
  rw [table, if_pos h.1, h.2]
  rfl

/-- The other links add, and differ in whether they jump. -/
theorem table_of_links (h : links w = true) (hj : isJALR w = false) :
    table w = some 0b1011001101000000100 ∨ table w = some 0b1001001101000000100 := by
  rw [links, hj, Bool.false_or, Bool.or_eq_true, beq_iff_eq] at h
  rcases h with hop | hcond
  · rw [table, hop]
    exact .inl rfl
  · simp only [isCondLink, Bool.and_eq_true, Bool.or_eq_true, beq_iff_eq] at hcond
    obtain ⟨hop, hrt | hrt⟩ := hcond
    · rw [table, hop, hrt]
      exact .inr rfl
    · rw [table, hop, hrt]
      exact .inr rfl

end Tables

section Transfer

variable (v : View) (pc w : Word) (held : Controls) (mapWr special : Tag) (e : Exe.State)

/-- EXE after the cycle in which it is handed the word `w` at `pc`. -/
def executedState : Exe.State :=
  Exe.posedge (v.issue pc w held mapWr special)
    (Exe.negedge (v.issue pc w held mapWr special) e)

variable {w} {b : BitVec 19}

/-- **The alternate address** EXE computes is that of NextInstructionCalculator. -/
theorem target_issue (ht : table w = some b) : Exe.target (v.issue pc w held mapWr special) =
    nextInstructionAddress (pc + 4) w (decode w held).jump (decode w held).jumpRegister
      (v.read (regField w 21)) := by
  have hc : decode w held = Controls.ofBits b := decode_of_table ht held
  show (if (decode w held).jumpRegister then v.regs (v.frat (Id.rs w (decode w held)))
    else Id.nextAddr pc w (decode w held)) = _
  rw [hc, nextInstructionAddress, Id.nextAddr, Id.rs]
  cases hj : (Controls.ofBits b).jumpRegister with
  | true =>
    have hjump := jump_of_jumpRegister ht hj
    simp only [hjump, Bool.not_true, Bool.and_false, Bool.or_self, Bool.false_eq_true, if_false,
      if_true]
    rfl
  | false => rfl

/-- It is recorded for every instruction but one at address 0. -/
theorem addr_posedge (ht : table w = some b) : (executedState v pc w held mapWr special e).addr =
    if pc ≠ 0 then
      nextInstructionAddress (pc + 4) w (decode w held).jump (decode w held).jumpRegister
        (v.read (regField w 21))
    else e.addr := by
  rw [← target_issue v pc held mapWr special ht]
  rfl

theorem add_four_add_four (pc : Word) : pc + 4 + 4 = pc + 8 := by
  rw [BitVec.add_assoc]
  rfl

/-- What the ALU is to make of the operands of the word `w`. -/
theorem broadcastVal_executedState (op : BitVec 6) (f : Word → Word → Word)
    (hop : (decode w held).aluControl = op)
    (hf : ∀ i s, i.aluControl = op → (Alu.step i s).aluResult = f i.a i.b) :
    (executedState v pc w held mapWr special e).broadcastVal =
      f (v.issue pc w held mapWr special).operandA1Out
        (v.issue pc w held mapWr special).operandB1Out := by
  show (Alu.step _ e.alu).aluResult = _
  rw [hf _ _ hop]

/-- JALR passes the address after its delay slot on to rd. -/
theorem link_of_isJALR (h : isJALR w = true) :
    (executedState v pc w held mapWr special e).broadcastFlag = true ∧
      (executedState v pc w held mapWr special e).broadcastReg = regField w 11 ∧
      (executedState v pc w held mapWr special e).broadcastVal = pc + 8 := by
  have hc : decode w held = Controls.ofBits 0b1111001110011100000 :=
    decode_of_table (table_of_isJALR h) held
  refine ⟨?_, ?_, ?_⟩
  · show Exe.broadcasts (v.issue pc w held mapWr special) = true
    have hjump : (v.issue pc w held mapWr special).allInfoIF.controls.jump = true := by
      show (decode w held).jump = true
      rw [hc]
      rfl
    have hlink : (v.issue pc w held mapWr special).allInfoIF.controls.link = true := by
      show (decode w held).link = true
      rw [hc]
      rfl
    rw [Exe.broadcasts, Exe.requestAltPc1, Compare.taken, hjump, hlink, Bool.or_true]
    rfl
  · show Id.rd w (decode w held) = _
    rw [hc]
    rfl
  · rw [broadcastVal_executedState v pc held mapWr special e 0b111000 (fun _ b => b)
      (by rw [hc]; rfl) fun i s hi => by rw [Alu.step, hi]; rfl]
    show (if (decode w held).branch && (decode w held).link then Id.opB pc w (decode w held)
      else _) = _
    rw [hc, ← add_four_add_four]
    rfl

/-- JAL, BLTZAL and BGEZAL add it to `$0`, taken or not. -/
theorem link_of_not_isJALR (h : links w = true) (hj : isJALR w = false) :
    (executedState v pc w held mapWr special e).broadcastFlag = true ∧
      (executedState v pc w held mapWr special e).broadcastReg = 31 ∧
      (executedState v pc w held mapWr special e).broadcastVal = pc + 8 := by
  have hc : ∃ j : Bool, decode w held =
      { Controls.ofBits 0b1001001101000000100 with jump := j } := by
    rcases table_of_links h hj with ht | ht
    · exact ⟨true, decode_of_table ht held⟩
    · exact ⟨false, decode_of_table ht held⟩
  obtain ⟨j, hc⟩ := hc
  refine ⟨?_, ?_, ?_⟩
  · show Exe.broadcasts (v.issue pc w held mapWr special) = true
    have hflag : (v.issue pc w held mapWr special).issueRegWrFlag = true := by
      show (Id.rd w (decode w held) != 0 && (decode w held).regWrite) = true
      rw [hc]
      rfl
    have hload : (v.issue pc w held mapWr special).memRead1Out = false := by
      show (decode w held).memRead = false
      rw [hc]
      rfl
    rw [Exe.broadcasts, hflag, hload, Bool.not_false, Bool.and_true, Bool.or_true]
  · show Id.rd w (decode w held) = _
    rw [hc]
    rfl
  · rw [broadcastVal_executedState v pc held mapWr special e 0b000001 (fun a b => a + b)
      (by rw [hc]; rfl) fun i s hi => by rw [Alu.step, hi]; rfl]
    have ha : (v.issue pc w held mapWr special).operandA1Out = 0 := by
      show v.regs (v.frat (Id.rs w (decode w held))) = 0
      rw [hc]
      exact v.zero
    have hb : (v.issue pc w held mapWr special).operandB1Out = pc + 8 := by
      show (if (decode w held).branch && (decode w held).link then Id.opB pc w (decode w held)
        else _) = _
      rw [hc, ← add_four_add_four]
      rfl
    rw [ha, hb]
    exact BitVec.zero_add _

/-- **Jumps and branches go where NextInstructionCalculator says, and links write the
address after the delay slot** to `$31`, or to rd for JALR. -/
theorem jumps_and_links (v : View) (pc w : Word) (held : Controls) (mapWr special : Tag)
    (e : Exe.State) (h : transfers w = true) :
    (executedState v pc w held mapWr special e).addr =
        (if pc ≠ 0 then
          nextInstructionAddress (pc + 4) w (decode w held).jump (decode w held).jumpRegister
            (v.read (regField w 21))
        else e.addr) ∧
      (links w = true →
        (executedState v pc w held mapWr special e).broadcastFlag = true ∧
          (executedState v pc w held mapWr special e).broadcastReg = linkRegister w ∧
          (executedState v pc w held mapWr special e).broadcastVal = pc + 8) := by
  obtain ⟨b, ht⟩ := table_of_transfers h
  refine ⟨addr_posedge v pc held mapWr special e ht, fun hl => ?_⟩
  cases hj : isJALR w with
  | true =>
    rw [linkRegister, if_pos hj]
    exact link_of_isJALR v pc held mapWr special e hj
  | false =>
    rw [linkRegister, hj, if_neg Bool.false_ne_true]
    exact link_of_not_isJALR v pc held mapWr special e hl hj

/-- BGEZAL of `$1`, which holds -1: the branch of `$0` is taken, and links. -/
theorem jumps_and_links_bgezal :
    (executedState minusOne 0xBFC00000 0x04310004 0 0 0 Exe.reset).addr = 0xBFC00014 ∧
      (executedState minusOne 0xBFC00000 0x04310004 0 0 0 Exe.reset).broadcastVal = 0xBFC00008 := by
  obtain ⟨haddr, hlink⟩ :=
    jumps_and_links minusOne 0xBFC00000 0x04310004 0 0 0 Exe.reset (by decide)
  exact ⟨haddr.trans (by decide), (hlink (by decide)).2.2⟩

/-- A jump at address 0 leaves what is recorded. -/
theorem not_recorded_of_pc_zero : ¬∀ (v : View) (pc w : Word) (held : Controls)
    (mapWr special : Tag) (e : Exe.State), transfers w = true →
      (executedState v pc w held mapWr special e).addr =
        nextInstructionAddress (pc + 4) w (decode w held).jump (decode w held).jumpRegister
          (v.read (regField w 21)) := by
  intro h
  exact absurd (h minusOne 0 0x08000001 0 0 0 Exe.reset (by decide)) (by decide)

end Transfer

end Mips
end OooProcessor
