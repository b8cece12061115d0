/-
# Every entry of the rename queue comes from Decoder

A word that IF was given passes the decode queue and Decoder2 before Rename sees
it, and a bubble is a word of zeros.  The controls beside it are the ones the
tables of `Rtl/Decoder.lean` hold for it or, for a word that no table names, those
of an earlier word.  A property of `Id.renameEntry` on such words and controls is
therefore one of every entry Rename is handed in a run (`entry_of_decode`); the
facts about control words that the register files rely on are read off it.
-/

import OooProcessor.Core.Slot

namespace OooProcessor
namespace Mips

open Decoder

/-- The controls of a word that a table names, among the words in `S`. -/
def Held (S : Word → Prop) (c : Controls) : Prop :=
  ∃ w b, S w ∧ table w = some b ∧ c = Controls.ofBits b

/-- A bubble, or an entry ID packs for a word in `S`. -/
def Entry (S : Word → Prop) (e : RenameEntry) : Prop :=
  e = 0 ∨ ∃ pc w c, S w ∧ Held S c ∧ e = Id.renameEntry pc w (decode w c)

/-- All that lies between IF and Rename comes from words in `S`. -/
structure FromDecoder (S : Word → Prop) (s : Mips) : Prop where
  fetched : S s.fetch.instr1Out
  queued : ∀ k, S (s.decodeQueue.queue k).2
  held : Held S s.decoder2
  entries : ∀ k, Entry S (s.renameQueue.queue k)

variable {S : Word → Prop}

/-- Decoder hands on controls from its tables, whatever the word. -/
theorem Held.decode {c : Controls} (hc : Held S c) {w : Word} (hw : S w) :
    Held S (decode w c) := by
  cases ht : table w with
  | none => rwa [decode_of_none ht]
  | some b => exact ⟨w, b, hw, ht, decode_of_table ht c⟩

theorem fromDecoder_reset (h0 : S 0) : FromDecoder S Mips.reset where
  fetched := h0
  queued _ := h0
  held := ⟨0, _, h0, table_zero, decode_of_table table_zero 0⟩
  entries _ := .inl rfl

theorem FromDecoder.dequeData {s : Mips} (h : FromDecoder S s) (h0 : S 0) : S s.dequeData.2 :=
  QueueObj.dequeData_forall (P := decodeQueueParams) (Q := fun p => S p.2) h0 h.queued

theorem fromDecoder_cycle (h0 : S 0) (i : Input) (s : Mips) (h : FromDecoder S s)
    (hi : S i.instr1FIM) : FromDecoder S (machine.cycle i s) := by
  have hword := h.dequeData h0
  refine ⟨?_, ?_, h.held.decode hword, ?_⟩
  · show S (Fetch.posedge (s.fetchInputs i) s.fetch).instr1Out
    unfold Fetch.posedge
    split_ifs
    · exact h.fetched
    · exact hi
  · exact QueueObj.queue_posedge_forall (P := decodeQueueParams) rfl (Q := fun p => S p.2) h0
      h.fetched h.queued
  · exact QueueObj.queue_posedge_forall (P := renameQueueParams) rfl (Q := Entry S) (.inl rfl)
      (.inr ⟨_, _, _, hword, h.held, rfl⟩) h.entries

variable (env : ℕ → Mips → Input)

theorem fromDecoder (h0 : S 0) (hf : ∀ n, S (fetched env n)) (n : ℕ) :
    FromDecoder S (run env n) :=
  Lib.Clocked.run_invariant_of (fromDecoder_reset h0) (fromDecoder_cycle h0) env n fun k _ => hf k

theorem entry_renameQueueOut (h0 : S 0) (hf : ∀ n, S (fetched env n)) (n : ℕ) :
    Entry S (run env n).renameQueueOut :=
  QueueObj.dequeData_forall (P := renameQueueParams) (.inl rfl) (fromDecoder env h0 hf n).entries

/-- **The rule for entries**: a property of the zero entry and of every entry ID
packs for the words that were fetched is one of every entry Rename is handed. -/
theorem entry_of_decode {P : RenameEntry → Prop} (h0 : S 0) (hf : ∀ n, S (fetched env n))
    (hzero : P 0) (hP : ∀ pc w c, S w → Held S c → P (Id.renameEntry pc w (decode w c))) (n : ℕ) :
    P (run env n).renameQueueOut := by
  obtain h | ⟨pc, w, c, hw, hc, h⟩ := entry_renameQueueOut env h0 hf n
  · rwa [h]
  · rw [h]
    exact hP pc w c hw hc

section Facts

/-- A word of zeros has no destination. -/
theorem rd_of_instr_eq_zero (n : ℕ) (h : (run env n).renameQueueOut.instr = 0) :
    (run env n).renameQueueOut.rd = 0 := by
  refine entry_of_decode env (S := fun _ => True) (P := fun e => e.instr = 0 → e.rd = 0) trivial
    (fun _ => trivial) (fun _ => rfl) ?_ n h
  intro pc w c _ _ hw
  obtain rfl : w = 0 := hw
  show Id.rd 0 (decode 0 c) = 0
  rw [decode_of_table table_zero]
  decide

theorem regWrite_of_link (n : ℕ) (h : (run env n).renameQueueOut.controls.link = true) :
    (run env n).renameQueueOut.controls.regWrite = true := by
  refine entry_of_decode env (S := fun _ => True)
    (P := fun e => e.controls.link = true → e.controls.regWrite = true) trivial
    (fun _ => trivial) (fun h => by simp at h) ?_ n h
  intro pc w c _ hc hl
  obtain ⟨v, b, -, ht, hb⟩ := hc.decode (w := w) trivial
  have hl' : (Controls.ofBits b).link = true := hb ▸ hl
  exact hb ▸ Decoder.regWrite_of_link ht hl'

theorem not_memRead_of_link (n : ℕ) (h : (run env n).renameQueueOut.controls.link = true) :
    (run env n).renameQueueOut.controls.memRead = false := by
  refine entry_of_decode env (S := fun _ => True)
    (P := fun e => e.controls.link = true → e.controls.memRead = false) trivial
    (fun _ => trivial) (fun h => by simp at h) ?_ n h
  intro pc w c _ hc hl
  obtain ⟨v, b, -, ht, hb⟩ := hc.decode (w := w) trivial
  have hl' : (Controls.ofBits b).link = true := hb ▸ hl
  exact hb ▸ Decoder.not_memRead_of_link ht hl'

/-- A linking instruction is not a word of zeros. -/
theorem instr_ne_zero_of_link (n : ℕ) (h : (run env n).renameQueueOut.controls.link = true) :
    (run env n).renameQueueOut.instr ≠ 0 := by
  refine entry_of_decode env (S := fun _ => True)
    (P := fun e => e.controls.link = true → e.instr ≠ 0) trivial
    (fun _ => trivial) (fun h => by simp at h) ?_ n h
  rintro pc w c - - hl rfl
  have hctl : (Id.renameEntry pc 0 (decode 0 c)).controls = decode 0 c := rfl
  rw [hctl, decode_of_table table_zero] at hl
  exact absurd hl (by decide)

variable {n : ℕ}

/-- An instruction that writes a register takes one from the free list. -/
theorem allocates_of_regWrite (hn : n % 4 = 0) (h : (issued env n).regWrite1Out = true) :
    Rename.allocates (run env n).renameQueueOut = true := by
  rw [issued_regWrite env hn, Bool.and_eq_true, bne_iff_ne] at h
  have hinstr : (run env n).renameQueueOut.instr ≠ 0 := fun h0 => h.1 (rd_of_instr_eq_zero env n h0)
  rw [Rename.allocates, Rename.idRegWrFlag, h.2, bne_iff_ne.mpr hinstr]
  rfl

/-- So does one that links, whether its destination is `$0` or not. -/
theorem allocates_of_link (h : (run env n).renameQueueOut.controls.link = true) :
    Rename.allocates (run env n).renameQueueOut = true := by
  rw [Rename.allocates, Rename.idRegWrFlag, regWrite_of_link env n h,
    bne_iff_ne.mpr (instr_ne_zero_of_link env n h)]
  rfl

theorem allocates_of_broadcasts (hn : n % 4 = 0) (h : Exe.broadcasts (issued env n) = true) :
    Rename.allocates (run env n).renameQueueOut = true := by
  rw [issued_broadcasts env hn, Bool.or_eq_true, Bool.and_eq_true, Bool.and_eq_true] at h
  rcases h with h | h
  · exact allocates_of_link env h.2
  · exact allocates_of_regWrite env hn h.1

theorem allocates_of_writesBack (hn : n % 4 = 0) (h : writesBack (issued env n) = true) :
    Rename.allocates (run env n).renameQueueOut = true := by
  rw [writesBack, Bool.and_eq_true] at h
  exact allocates_of_regWrite env hn h.2

/-- MEM writes back what loads write. -/
theorem writesBack_iff (hn : n % 4 = 0) : writesBack (issued env n) = true ↔
    (run env n).renameQueueOut.controls.memRead = true ∧ (issued env n).regWrite1Out = true := by
  rw [writesBack, Bool.and_eq_true, Bool.not_eq_true', issued_broadcasts env hn]
  constructor
  · rintro ⟨hb, hw⟩
    simp only [Bool.or_eq_false_iff, hw, Bool.true_and, Bool.not_eq_false'] at hb
    exact ⟨hb.2, hw⟩
  · rintro ⟨hm, hw⟩
    have hl : (run env n).renameQueueOut.controls.link = false := by
      by_contra hl
      rw [not_memRead_of_link env n (by simpa using hl)] at hm
      exact absurd hm Bool.false_ne_true
    simp [hl, hm, hw]

theorem remaps_of_commitsExe (hn : n % 4 = 0) (h : commitsExe (issued env n) = true) :
    (run env n).remaps = true := by
  rw [commitsExe, Bool.and_eq_true, issued_writeRegister env hn] at h
  rw [remaps, allocates_of_broadcasts env hn h.1, h.2]
  rfl

theorem remaps_of_writesBack (hn : n % 4 = 0) (h : writesBack (issued env n) = true) :
    (run env n).remaps = true := by
  rw [remaps, allocates_of_writesBack env hn h]
  rw [writesBack, Bool.and_eq_true, issued_regWrite env hn, Bool.and_eq_true] at h
  rw [h.2.1]
  rfl

/-- A result leaves from EXE or from MEM, not from both. -/
theorem not_commitsExe_of_writesBack {o : Id.Out} (h : writesBack o = true) :
    commitsExe o = false := by
  simp [writesBack] at h
  simp [commitsExe, h.1]

theorem rd_ne_zero_of_remaps {s : Mips} (h : s.remaps = true) : s.renameQueueOut.rd ≠ 0 := by
  simp [remaps] at h
  exact h.2

theorem mapWr_of_remaps {s : Mips} (h : s.remaps = true) : s.mapWr = s.freeReg := by
  simp [remaps] at h
  exact mapWr_of_allocates h.1

end Facts

end Mips
end OooProcessor
