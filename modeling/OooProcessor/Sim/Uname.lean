/-
# The strings of `uname`

`sm_uname` loads words, not strings.  Every field of a `utsname` begins 65 bytes behind the
last one, so that its bytes are spread over words, and the 0 at its end is in one of them or
taken to be there already.  Behind the release and the machine it is not in one
(`holdsString_smUname_iff`).
-/

import OooProcessor.Sim.Calls

namespace OooProcessor
namespace Sim

open Lib

section Loads

variable (m : MainMemory) (sp : Word)

/-- Byte `i` of a text of hexadecimal digits. -/
def textByte (s : List Char) (i : ℕ) : BitVec 8 :=
  BitVec.ofNat 8 (hexCharValue (charAt s (2 * i + 1)) + hexCharValue (charAt s (2 * i)) <<< 4)

/-- Any text is loaded as a block of four bytes. -/
theorem loadSingleHEXString_eq_put (s : List Char) (location : Word) :
    loadSingleHEXString m s location 0 = put m location 4 (textByte s) := by
  have hput (k : ℕ) (hk : k < 2 ^ 32) := update_put m location hk (textByte s)
  rw [← hput 3 (by decide), ← hput 2 (by decide), ← hput 1 (by decide), put_one]
  show Function.update (Function.update (Function.update (Function.update m (location + 0) _)
    (location + 1) _) (location + 2) _) (location + 3) _ = _
  rw [show location + 0 = location from BitVec.add_zero location]
  rfl

/-- The blocks that texts are loaded to. -/
def textPatch (e : String × Word) : Patch 32 := ⟨sp + e.2, 4, textByte e.1.toList⟩

theorem loadAll_eq (entries : List (String × Word)) :
    loadAll entries sp m = patchAll m (entries.map (textPatch sp)) := by
  rw [patchAll, List.foldl_map, loadAll]
  exact congrArg (fun f => List.foldl f m entries)
    (funext fun m => funext fun e => loadSingleHEXString_eq_put m e.1.toList (sp + e.2))

/-- The byte that texts have for an offset, from the last text back. -/
def byteAt (entries : List (String × Word)) (k : ℕ) : Option (BitVec 8) :=
  (entries.reverse.find? fun e => (BitVec.ofNat 32 k - e.2).toNat < 4).map fun e =>
    textByte e.1.toList (BitVec.ofNat 32 k - e.2).toNat

/-- **What is at an offset** after texts have been loaded. -/
theorem loadAll_apply (entries : List (String × Word)) (k : ℕ) :
    loadAll entries sp m (sp + BitVec.ofNat 32 k) =
      (byteAt entries k).getD (m (sp + BitVec.ofNat 32 k)) := by
  have hdist (e : String × Word) : sp + BitVec.ofNat 32 k - (sp + e.2) = BitVec.ofNat 32 k - e.2 :=
    add_sub_add_left_eq_sub _ _ _
  have hcovers : ((fun p : Patch 32 => decide (p.Covers (sp + BitVec.ofNat 32 k))) ∘
      textPatch sp) = fun e => decide ((BitVec.ofNat 32 k - e.2).toNat < 4) := by
    funext e
    show decide ((sp + BitVec.ofNat 32 k - (sp + e.2)).toNat < 4) = _
    rw [hdist]
  rw [loadAll_eq, patchAll_apply, patched, ← List.map_reverse, List.find?_map, hcovers, byteAt]
  cases entries.reverse.find? fun e => (BitVec.ofNat 32 k - e.2).toNat < 4 with
  | none => rfl
  | some e =>
    show textByte e.1.toList (sp + BitVec.ofNat 32 k - (sp + e.2)).toNat = _
    rw [hdist]
    rfl

end Loads

section Strings

variable (m : MainMemory) (sp : Word)

/-- A string and the 0 behind it. -/
def HoldsString (a : Word) (s : String) : Prop :=
  ∀ i ≤ s.length, m (a + BitVec.ofNat 32 i) = BitVec.ofNat 8 (charAt s.toList i).toNat

/-- The fields of `utsname`, and where they are. -/
def utsname : List (ℕ × String) :=
  [(88, "SescLinux"), (153, "sesc"), (218, "2.4.18"),
    (283, "#1 SMP Tue Jun 4 16:05:29 CDT 2002"), (348, "mips")]

/-- The bytes of the fields, but for two zeros. -/
theorem byteAt_utsname : ∀ f ∈ utsname, ∀ i ≤ f.2.length, f.1 + i ≠ 224 → f.1 + i ≠ 352 →
    byteAt unameWords (f.1 + i) = some (BitVec.ofNat 8 (charAt f.2.toList i).toNat) := by
  decide +kernel

theorem byteAt_outside {k : ℕ} (hk : k < 88 ∨ 352 ≤ k) (hk32 : k < 2 ^ 32) :
    byteAt unameWords k = none := by
  have hoff : ∀ e ∈ unameWords, 88 ≤ e.2.toNat ∧ e.2.toNat + 4 ≤ 352 := by decide
  rw [byteAt, List.find?_eq_none.mpr fun e he => ?_, Option.map_none]
  obtain ⟨hlow, hhigh⟩ := hoff e (List.mem_reverse.mp he)
  have hdist : (BitVec.ofNat 32 k - e.2).toNat = (2 ^ 32 - e.2.toNat + k) % 2 ^ 32 := by
    rw [BitVec.toNat_sub, BitVec.toNat_ofNat, Nat.mod_eq_of_lt hk32]
  rw [decide_eq_true_eq, hdist]
  omega

/-- What `sm_uname` leaves at an offset. -/
theorem smUname_apply (k : ℕ) : smUname sp m (sp + BitVec.ofNat 32 k) =
    (byteAt unameWords k).getD (m (sp + BitVec.ofNat 32 k)) :=
  loadAll_apply m sp unameWords k

/-- **Which memories get the strings**: those with a 0 behind the release and the machine. -/
theorem holdsString_smUname_iff :
    (∀ f ∈ utsname, HoldsString (smUname sp m) (sp + BitVec.ofNat 32 f.1) f.2) ↔
      m (sp + 224) = 0 ∧ m (sp + 352) = 0 := by
  have hoff (o i : ℕ) :
      sp + BitVec.ofNat 32 o + BitVec.ofNat 32 i = sp + BitVec.ofNat 32 (o + i) := by
    rw [BitVec.add_assoc, ← BitVec.ofNat_add]
  have hopen : byteAt unameWords 224 = none ∧ byteAt unameWords 352 = none := by decide +kernel
  have hrelease : smUname sp m (sp + BitVec.ofNat 32 224) = m (sp + 224) := by
    rw [smUname_apply, hopen.1]
    rfl
  have hmachine : smUname sp m (sp + BitVec.ofNat 32 352) = m (sp + 352) := by
    rw [smUname_apply, hopen.2]
    rfl
  constructor
  · intro h
    have h₁ := h (218, "2.4.18") (by decide) 6 (by decide)
    have h₂ := h (348, "mips") (by decide) 4 (by decide)
    rw [hoff] at h₁ h₂
    exact ⟨hrelease.symm.trans h₁, hmachine.symm.trans h₂⟩
  · rintro ⟨h₁, h₂⟩ f hf i hi
    have hzero : ∀ f ∈ utsname, ∀ i ≤ f.2.length, f.1 + i = 224 ∨ f.1 + i = 352 →
        BitVec.ofNat 8 (charAt f.2.toList i).toNat = 0 := by decide +kernel
    rw [hoff]
    by_cases hr : f.1 + i = 224
    · rw [hzero f hf i hi (.inl hr), hr, hrelease, h₁]
    · by_cases hm : f.1 + i = 352
      · rw [hzero f hf i hi (.inr hm), hm, hmachine, h₂]
      · rw [smUname_apply, byteAt_utsname f hf i hi hr hm]
        rfl

variable {m} {exec : ExecInfo} {host : HostCalls} {regs : Reg → Word} {os : Os}

/-- **System call 4122** returns 0, leaves the strings at the stack pointer if a 0 is behind
the release and the machine already, and changes nothing else. -/
theorem uname_returns (hended : os.ended = none) (hcall : regs 2 = 4122) :
    ∃ m', switch exec host regs m os = ([(2, 0)], m', os) ∧
      ((∀ f ∈ utsname, HoldsString m' (regs 29 + BitVec.ofNat 32 f.1) f.2) ↔
        m (regs 29 + 224) = 0 ∧ m (regs 29 + 352) = 0) ∧
      ∀ k < 2 ^ 32, k < 88 ∨ 352 ≤ k →
        m' (regs 29 + BitVec.ofNat 32 k) = m (regs 29 + BitVec.ofNat 32 k) := by
  have hlookup : syscalls.lookup (regs 2) = some .uname := by
    rw [hcall]
    rfl
  refine ⟨smUname (regs 29) m, switch_of_reply hended hlookup rfl,
    holdsString_smUname_iff m (regs 29), fun k hk32 hk => ?_⟩
  rw [smUname_apply, byteAt_outside hk hk32]
  rfl

/-- A memory of zeros gets the strings. -/
theorem uname_returns_zeros : ∃ m', switch ⟨0, 0, 0, 0, 0, none⟩ .silent
    (fun r => if r = 2 then 4122 else 0) (fun _ => 0) (Os.init [] fun _ => []) =
      ([(2, 0)], m', Os.init [] fun _ => []) ∧ HoldsString m' 348 "mips" := by
  obtain ⟨m', hswitch, hstrings, -⟩ := @uname_returns (fun _ => 0) ⟨0, 0, 0, 0, 0, none⟩ .silent
    (fun r => if r = 2 then 4122 else 0) (Os.init [] fun _ => []) rfl rfl
  exact ⟨m', hswitch, hstrings.mpr ⟨rfl, rfl⟩ (348, "mips") (by decide)⟩

end Strings

end Sim
end OooProcessor
