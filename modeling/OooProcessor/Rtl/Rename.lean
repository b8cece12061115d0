/-
# Rename

`verilog/Rename.v`.  On the falling edge of a cycle in which nothing holds it
back, Rename takes the entry at the front of the rename queue, reads the mapping
of its sources from FRAT, takes the register at the head of the free list for a
destination, and asks FRAT to install it on the next falling edge.  The free
list itself is an instance of `QueueObj` inside Rename; it belongs to the state of
the whole core (`OooProcessor.Rtl.Mips`) and is an input here.
-/

import OooProcessor.Rtl.Types
import Mathlib.Logic.Function.Basic

namespace OooProcessor
namespace Rename

/-- The output registers. -/
structure State where
  regToMapFRAT : Reg
  newMapping : Tag
  remapFRAT : Bool
  entryAllocateIssue : Bool
  entryIssue : RobEntry
  busy : Tag → Bool
  entryLoadSpecial : Tag
  entryLdLsq : Bool
  entryStLsq : Bool
  entryLsq : RobEntry
  entryAllocateROB : Bool
  entryROB : RobEntry
  oldA : Reg
  oldB : Reg
  oldC : Reg
  instrNum : ℤ

/-- `entry` carries `id_control`, `id_instr`, `id_instrpc` and the three register
names; `freeReg` and `freeHalt` come from the free list. -/
structure Inputs where
  stall : Bool
  flush : Bool
  entry : RenameEntry
  fratMyMap : Reg → Tag
  issueHalt : Bool
  lsqHalt : Bool
  robHalt : Bool
  exeBusyclearFlag : Bool
  exeBusyclearReg : Tag
  freeReg : Tag
  freeHalt : Bool

/-- `id_RegWr_flag`; the comparison keeps a NOP from taking a register. -/
def idRegWrFlag (e : RenameEntry) : Bool := e.controls.regWrite && e.instr != 0

/-- `id_RegWr_flag | id_ld_flag`: the entry takes a register from the free
list. -/
def allocates (e : RenameEntry) : Bool := idRegWrFlag e || e.controls.memRead

/-- `halt_rename_queue` -/
def haltRenameQueue (i : Inputs) : Bool :=
  i.issueHalt || i.stall || i.robHalt || i.lsqHalt || i.freeHalt

/-- The packing of `entry_ROB` and its two copies. -/
def pack (e : RenameEntry) (frat : Reg → Tag) (mapWr : Tag) : RobEntry where
  opB := e.opB
  shamt := e.shamt
  nextAddr := e.nextAddr
  controls := e.controls
  instr := e.instr
  pc := e.pc
  mapWr := mapWr
  mapB := frat e.rt
  mapA := frat e.rs

/-- The register an entry names in `MAPC`: a fresh one, or the mapping of its
destination field. -/
def mapWr (i : Inputs) : Tag := if allocates i.entry then i.freeReg else i.fratMyMap i.entry.rd

/-- Reset leaves the packed entries, the port of FRAT and `entry_load_special`
as they are; unreset registers start at zero. -/
def reset : State where
  regToMapFRAT := 0
  newMapping := 0
  remapFRAT := false
  entryAllocateIssue := false
  entryIssue := 0
  busy := fun _ => false
  entryLoadSpecial := 0
  entryLdLsq := false
  entryStLsq := false
  entryLsq := 0
  entryAllocateROB := false
  entryROB := 0
  oldA := 0
  oldB := 0
  oldC := 0
  instrNum := 1

/-- `busy[exe_busyclear_reg] <= exe_busyclear_flag ? 0 : busy[exe_busyclear_reg]`,
written over `busy'` and read from the old bits. -/
def busyClear (i : Inputs) (old busy' : Tag → Bool) : Tag → Bool :=
  Function.update busy' i.exeBusyclearReg
    (if i.exeBusyclearFlag then false else old i.exeBusyclearReg)

def negedge (i : Inputs) (s : State) : State :=
  if !(haltRenameQueue i || i.flush) then
    { regToMapFRAT := i.entry.rd
      newMapping := i.freeReg
      remapFRAT := allocates i.entry
      entryAllocateIssue := !(i.entry.controls.memRead || i.entry.controls.memWrite)
      entryIssue := pack i.entry i.fratMyMap (mapWr i)
      busy := busyClear i s.busy
        (Function.update s.busy (i.fratMyMap i.entry.rd)
          (if allocates i.entry then true else s.busy (i.fratMyMap i.entry.rd)))
      entryLoadSpecial := i.fratMyMap i.entry.rd
      entryLdLsq := i.entry.controls.memRead
      entryStLsq := i.entry.controls.memWrite
      entryLsq := pack i.entry i.fratMyMap
        (if i.entry.controls.memRead then i.freeReg else i.fratMyMap i.entry.rd)
      entryAllocateROB := true
      entryROB := pack i.entry i.fratMyMap (mapWr i)
      oldA := i.entry.rs
      oldB := i.entry.rt
      oldC := i.entry.rd
      instrNum := s.instrNum + 1 }
  else
    { s with
      entryAllocateROB := false
      entryAllocateIssue := false
      entryLdLsq := false
      entryStLsq := false
      entryROB := 0
      remapFRAT := false
      oldA := 0
      oldB := 0
      oldC := 0
      busy := if i.flush then fun _ => false else busyClear i s.busy s.busy }

/-- What ID and FRAT take from Rename, as a function of the entry at the front
of the rename queue, of FRAT and of the free register. -/
structure Prepared (i : Inputs) (s : State) : Prop where
  entryROB : s.entryROB = pack i.entry i.fratMyMap (mapWr i)
  oldA : s.oldA = i.entry.rs
  oldB : s.oldB = i.entry.rt
  oldC : s.oldC = i.entry.rd
  remapFRAT : s.remapFRAT = allocates i.entry
  regToMapFRAT : allocates i.entry = true → s.regToMapFRAT = i.entry.rd
  newMapping : allocates i.entry = true → s.newMapping = i.freeReg
  entryLoadSpecial : i.entry.controls.memRead = true →
    s.entryLoadSpecial = i.fratMyMap i.entry.rd

@[simp] theorem allocates_zero : allocates 0 = false := rfl

/-- The entry of a bubble packs to zeros. -/
theorem pack_zero {i : Inputs} (he : i.entry = 0) (h0 : i.fratMyMap 0 = 0) :
    pack i.entry i.fratMyMap (mapWr i) = 0 := by
  have hrd : (0 : RenameEntry).rd = 0 := rfl
  have hmap : mapWr i = 0 := by simp [mapWr, he, h0]
  rw [he, hmap]
  show RobEntry.mk 0 0 0 0 0 0 0 (i.fratMyMap 0) (i.fratMyMap 0) = 0
  rw [h0]
  rfl

/-- **A falling edge prepares the entry at the front of the queue**, and a bubble
when it is held back. -/
theorem prepared_negedge {i : Inputs} (hflush : i.flush = false)
    (hhalt : haltRenameQueue i = true → i.entry = 0) (h0 : i.fratMyMap 0 = 0) (s : State) :
    Prepared i (negedge i s) := by
  unfold negedge
  cases hh : haltRenameQueue i with
  | false =>
    simp only [hflush, Bool.or_self, Bool.not_false, if_true]
    exact ⟨rfl, rfl, rfl, rfl, rfl, fun _ => rfl, fun _ => rfl, fun _ => rfl⟩
  | true =>
    have he := hhalt hh
    have hal : ¬allocates i.entry = true := by simp [he]
    simp only [Bool.true_or, Bool.not_true, Bool.false_eq_true, if_false]
    refine ⟨(pack_zero he h0).symm, ?_, ?_, ?_, ?_, fun h => absurd h hal, fun h => absurd h hal,
      fun h => ?_⟩
    · rw [he]; rfl
    · rw [he]; rfl
    · rw [he]; rfl
    · simp [he]
    · simp [he] at h

/-- Rename reads no more of its inputs than the entry, FRAT and the free
register. -/
theorem Prepared.congr {i j : Inputs} {s : State} (h : Prepared i s) (he : i.entry = j.entry)
    (hf : i.fratMyMap = j.fratMyMap) (hr : i.freeReg = j.freeReg) : Prepared j s := by
  obtain ⟨h1, h2, h3, h4, h5, h6, h7, h8⟩ := h
  rw [mapWr, he, hf, hr] at h1
  rw [he] at h2 h3 h4 h5 h6 h7 h8
  rw [hr] at h7
  rw [hf] at h8
  exact ⟨h1, h2, h3, h4, h5, h6, h7, h8⟩

end Rename
end OooProcessor
