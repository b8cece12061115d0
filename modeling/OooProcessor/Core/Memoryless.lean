/-
# What Decoder remembers

The outputs of `Decoder.v` after a sequence of words are those of the last word, or,
where the case statement assigns nothing for it, what they were before.  An opcode
without an entry is assigned zero; an undefined funct of SPECIAL, an undefined rt of
REGIMM and an undefined form of COP1 only print "Not an Instruction!", so that such a
word inherits the controls of the word before it (`forgets_iff`).
-/

import OooProcessor.Rtl.Decoder

namespace OooProcessor
namespace Decoder

/-- The outputs after the words `ws`, where they were `held` at power-up. -/
def outputs (held : Controls) (ws : List Word) : Controls :=
  ws.foldl (fun c w => decode w c) held

/-- The case of the opcode looks further into the word: SPECIAL, REGIMM and COP1. -/
def nested (w : Word) : Bool :=
  opcode w == 0b000000 || opcode w == 0b000001 || opcode w == 0b010001

/-- One of the tables has an entry for the word. -/
def listed (w : Word) : Bool :=
  if opcode w = 0b000000 then (specialTable.lookup (funct w)).isSome
  else if opcode w = 0b000001 then (regimmTable.lookup (rt w)).isSome
  else if opcode w = 0b010001 then (cop1 w).isSome
  else (opcodeTable.lookup (opcode w)).isSome

/-- **The outputs after the word `w` do not depend on the words before it**, and are
zero where no table has an entry for it. -/
structure Forgets (held : Controls) (w : Word) : Prop where
  agree : ∀ h h' : List Word, outputs held (h ++ [w]) = outputs held (h' ++ [w])
  default : listed w = false → ∀ h : List Word, outputs held (h ++ [w]) = 0

variable {w : Word}

theorem outputs_concat (held : Controls) (h : List Word) (w : Word) :
    outputs held (h ++ [w]) = decode w (outputs held h) := by
  rw [outputs, List.foldl_append]
  rfl

/-- Nothing is assigned in the inner defaults, and in these only. -/
theorem table_eq_none_iff : table w = none ↔ nested w = true ∧ listed w = false := by
  unfold table listed nested
  split_ifs with h0 h1 h2
  · simp [h0]
  · simp [h1]
  · simp [h2]
  · have hno : (opcode w == 0b000000 || opcode w == 0b000001 || opcode w == 0b010001) = false := by
      simp only [Bool.or_eq_false_iff, beq_eq_false_iff_ne]
      exact ⟨⟨h0, h1⟩, h2⟩
    rw [hno]
    simp

/-- An opcode without an entry is assigned zero. -/
theorem table_of_not_listed (hn : nested w = false) (hl : listed w = false) :
    table w = some 0 := by
  simp only [nested, Bool.or_eq_false_iff, beq_eq_false_iff_ne] at hn
  obtain ⟨⟨h0, h1⟩, h2⟩ := hn
  rw [listed, if_neg h0, if_neg h1, if_neg h2] at hl
  obtain hnone : opcodeTable.lookup (opcode w) = none := by simpa using hl
  rw [table, if_neg h0, if_neg h1, if_neg h2, hnone]
  rfl

/-- Two words leave different outputs. -/
theorem outputs_ne (held : Controls) : outputs held [0] ≠ outputs held [0xAC000000] := by
  have hsll : outputs held [0] = Controls.ofBits 0b0100000100001001100 :=
    decode_of_table table_zero held
  have hsw : outputs held [0xAC000000] = Controls.ofBits 0b0000011001011000100 :=
    decode_of_table (w := 0xAC000000) (by decide) held
  rw [hsll, hsw]
  decide

/-- **Decoder forgets what came before a word** if and only if the word has an entry or
an opcode whose case looks no further. -/
theorem forgets_iff (held : Controls) (w : Word) :
    Forgets held w ↔ (nested w = true → listed w = true) := by
  constructor
  · intro hf hn
    by_contra hl
    have hnone := table_eq_none_iff.mpr ⟨hn, by simpa using hl⟩
    have hagree := hf.agree [0] [0xAC000000]
    rw [outputs_concat, outputs_concat, decode_of_none hnone, decode_of_none hnone] at hagree
    exact outputs_ne held hagree
  · intro hl
    have hsome : table w ≠ none := by
      intro hnone
      obtain ⟨hn, hno⟩ := table_eq_none_iff.mp hnone
      rw [hl hn] at hno
      exact Bool.noConfusion hno
    obtain ⟨b, ht⟩ := Option.ne_none_iff_exists'.mp hsome
    have hout (h : List Word) : outputs held (h ++ [w]) = Controls.ofBits b := by
      rw [outputs_concat, decode_of_table ht]
    refine ⟨fun h h' => by rw [hout h, hout h'], fun hno h => ?_⟩
    have hn : nested w = false := by
      by_contra hn
      rw [hl (by simpa using hn)] at hno
      exact Bool.noConfusion hno
    obtain rfl := Option.some.inj (ht.symm.trans (table_of_not_listed hn hno))
    exact hout h

/-- SPECIAL with the funct `0x3f` stores after a store. -/
theorem not_forgets_special : ¬∀ w, Forgets 0 w := by
  intro h
  exact absurd ((h 0x0000003F).agree [0] [0xAC000000]) (by decide)

end Decoder
end OooProcessor
