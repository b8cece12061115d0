/-
# The layout of an entry

`rename_entry` and `entry_ROB` as the vectors they are in `ID.v` and `Rename.v`, and the
bits that `ID.v`, `Rename.v`, `EXE.v`, `Issue.v` and `ROB.v` take of them, with the
indices of the source.  `RenameEntry` and `RobEntry` are the records of these bits:
every select is the field of its name (`layout_agrees`).

(The port `rename_issueinfo` of the Issue in `ID.v`, none of whose outputs is used, is
connected to `rename_entry`; what Issue expects there is `entry_issue`.)
-/

import OooProcessor.Lib.Concat
import OooProcessor.Rtl.Issue
import OooProcessor.Rtl.Mips
import OooProcessor.Rtl.Rob

namespace OooProcessor
namespace Layout

open Lib

section Packing

variable (e : RenameEntry)

/-- `controls` -/
def controls (c : Controls) : List Part :=
  [.bit c.link, .bit c.regDest, .bit c.jump, .bit c.branch, .bit c.memRead, .bit c.memWrite,
    .bit c.aluSrc, .bit c.regWrite, .bit c.jumpRegister, .bit c.signOrZero, .bit c.syscall,
    ⟨6, c.aluControl⟩, ⟨2, c.multRegAccess⟩]

def regs : List Part := [⟨5, .ofFin e.rs⟩, ⟨5, .ofFin e.rt⟩, ⟨5, .ofFin e.rd⟩]

def instrInfo : List Part := [⟨32, e.pc⟩, ⟨32, e.instr⟩]

def constants : List Part := [⟨32, e.opB⟩, ⟨5, e.shamt⟩, ⟨32, e.nextAddr⟩]

/-- `rename_entry` -/
def renameEntry : BitVec 167 :=
  assigned 167 ([constants e, controls e.controls, instrInfo e, regs e].map .of)

end Packing

section Queue

variable (q : BitVec 167)

/-! The selects of `rename_queue_out`. -/

def keyS : Reg := (q.extractLsb' 10 5).toFin

def keyT : Reg := (q.extractLsb' 5 5).toFin

def keyD : Reg := (q.extractLsb' 0 5).toFin

def rqInstrR : Word := q.extractLsb' 15 32

def rqIpcR : Word := q.extractLsb' 47 32

def idControl : BitVec 88 := q.extractLsb' 79 88

def idLdFlag : Bool := (idControl q)[14]

def idStFlag : Bool := (idControl q)[13]

def idRegWrFlag : Bool := (idControl q)[11] && rqInstrR q != 0

/-- `entry_ROB[17:12]` -/
def mapWr (fratMyMap : Reg → Tag) (freeReg : Tag) : Tag :=
  if idRegWrFlag q || idLdFlag q then freeReg else fratMyMap (keyD q)

/-- `entry_ROB`, and `entry_issue`: the parts `[169:18]`, `[17:12]` and `[11:0]`. -/
def entryROB (fratMyMap : Reg → Tag) (freeReg : Tag) : BitVec 170 :=
  assigned 170 ([[⟨88, idControl q⟩, ⟨32, rqInstrR q⟩, ⟨32, rqIpcR q⟩],
    [⟨6, .ofFin (mapWr q fratMyMap freeReg)⟩],
    [⟨6, .ofFin (fratMyMap (keyT q))⟩, ⟨6, .ofFin (fratMyMap (keyS q))⟩]].map .of)

end Queue

section Reads

/-- The selects of `rename_queue_out` in ID and Rename. -/
structure QueueReads (q : BitVec 167) (e : RenameEntry) : Prop where
  keyS : keyS q = e.rs
  keyT : keyT q = e.rt
  keyD : keyD q = e.rd
  instr : rqInstrR q = e.instr
  pc : rqIpcR q = e.pc
  ldFlag : idLdFlag q = e.controls.memRead
  stFlag : idStFlag q = e.controls.memWrite
  regWrFlag : idRegWrFlag q = Rename.idRegWrFlag e

/-- The selects of `rename_out` in ID. -/
structure IdReads (renameOut : BitVec 170) (r : RobEntry) : Prop where
  mappedS : (renameOut.extractLsb' 0 6).toFin = r.mapA
  mappedT : (renameOut.extractLsb' 6 6).toFin = r.mapB
  mappedD : (renameOut.extractLsb' 12 6).toFin = r.mapWr
  instrPcIn : renameOut.extractLsb' 18 32 = r.pc
  instr1In : renameOut.extractLsb' 50 32 = r.instr
  aluControl1 : renameOut.extractLsb' 84 6 = r.controls.aluControl
  sys : renameOut.getLsbD 90 = r.controls.syscall
  regWrite1 : renameOut.getLsbD 93 = r.controls.regWrite
  memWrite1 : renameOut.getLsbD 95 = r.controls.memWrite
  memRead1 : renameOut.getLsbD 96 = r.controls.memRead
  branch : renameOut.getLsbD 97 = r.controls.branch
  regDest : renameOut.getLsbD 99 = r.controls.regDest
  link : renameOut.getLsbD 100 = r.controls.link
  shiftAmount1 : renameOut.extractLsb' 133 5 = r.shamt
  opB : renameOut.extractLsb' 138 32 = r.opB

/-- The selects of `IF_all_info` in EXE. -/
structure ExeReads (info : BitVec 170) (r : RobEntry) : Prop where
  jumpRegister : info.getLsbD 92 = r.controls.jumpRegister
  jump : info.getLsbD 98 = r.controls.jump
  link : info.getLsbD 100 = r.controls.link
  target : info.extractLsb' 101 32 = r.nextAddr

/-- The selects of `rename_issueinfo` in Issue, and of `issue_q`, which keeps its 138 low
bits. -/
structure IssueReads {n : ℕ} (info : BitVec n) (r : RobEntry) : Prop where
  mapA : Issue.mapA info = .ofFin r.mapA
  mapB : Issue.mapB info = .ofFin r.mapB
  mapWr : Issue.mapWr info = .ofFin r.mapWr
  instrPc : Issue.instrPc info = r.pc
  instr : Issue.instr info = r.instr
  hilo : Issue.hilo info = r.controls.multRegAccess
  aluCon : Issue.aluCon info = r.controls.aluControl
  sysFlag : Issue.sysFlag info = r.controls.syscall
  jrFlag : Issue.jrFlag info = r.controls.jumpRegister
  regWrFlag : Issue.regWrFlag info = r.controls.regWrite
  aluSrcFlag : Issue.aluSrcFlag info = r.controls.aluSrc
  memWrFlag : Issue.memWrFlag info = r.controls.memWrite
  memRdFlag : Issue.memRdFlag info = r.controls.memRead
  branchFlag : Issue.branchFlag info = r.controls.branch
  jumpFlag : Issue.jumpFlag info = r.controls.jump
  regDestFlag : Issue.regDestFlag info = r.controls.regDest
  linkFlag : Issue.linkFlag info = r.controls.link
  altPc : Issue.altPc info = r.nextAddr
  shamt : Issue.shamt info = r.shamt

/-- What ROB makes of the selects of `rename_enque_data`. -/
structure RobReads (i : Rob.Inputs) (r : RobEntry) : Prop where
  regWrFlag : (Rob.entry i).regWrFlag = r.controls.regWrite
  mapWr : (Rob.entry i).mapWr = .ofFin r.mapWr
  sys : (Rob.entry i).sys = r.controls.syscall
  jumpOrBranch : (Rob.entry i).jumpOrBranch = (r.controls.branch || r.controls.jump)
  reqAlt : (Rob.slot i).mispred = (r.controls.syscall || r.controls.jump)
  pc : Rob.renamePc i = r.pc

/-- ROB selects the bits that Issue does. -/
structure SelectsAsIssue (i : Rob.Inputs) : Prop where
  regWrFlag : (Rob.entry i).regWrFlag = Issue.regWrFlag i.renameEnqueData
  mapWr : (Rob.entry i).mapWr = Issue.mapWr i.renameEnqueData
  sys : (Rob.entry i).sys = Issue.sysFlag i.renameEnqueData
  jumpOrBranch : (Rob.entry i).jumpOrBranch =
    (Issue.branchFlag i.renameEnqueData || Issue.jumpFlag i.renameEnqueData)
  reqAlt : (Rob.slot i).mispred =
    (Issue.sysFlag i.renameEnqueData || Issue.jumpFlag i.renameEnqueData)
  pc : Rob.renamePc i = Issue.instrPc i.renameEnqueData

end Reads

section Parts

/-- The fields of an entry of the rename queue, in their order. -/
def entryParts (e : RenameEntry) : List Part :=
  [constants e, controls e.controls, instrInfo e, regs e].flatten

/-- Those of what Rename makes of it. -/
def robParts (r : RobEntry) : List Part :=
  [⟨32, r.opB⟩, ⟨5, r.shamt⟩, ⟨32, r.nextAddr⟩] ++ (controls r.controls ++
    [⟨32, r.instr⟩, ⟨32, r.pc⟩, ⟨6, .ofFin r.mapWr⟩, ⟨6, .ofFin r.mapB⟩, ⟨6, .ofFin r.mapA⟩])

/-- The widths of the fields of an entry of the rename queue. -/
def entryWidths : List ℕ := [32, 5, 32, 1, 1, 1, 1, 1, 1, 1, 1, 1, 1, 1, 6, 2, 32, 32, 5, 5, 5]

/-- Those of what Rename makes of it. -/
def robWidths : List ℕ := [32, 5, 32, 1, 1, 1, 1, 1, 1, 1, 1, 1, 1, 1, 6, 2, 32, 32, 6, 6, 6]

theorem entryParts_width (e : RenameEntry) : (entryParts e).map Part.width = entryWidths := rfl

theorem robParts_width (r : RobEntry) : (robParts r).map Part.width = robWidths := rfl

theorem renameEntry_eq (e : RenameEntry) : renameEntry e = assigned 167 (entryParts e) :=
  assigned_map_of 167 _

variable {e : RenameEntry} {r : RobEntry} {n k lo w : ℕ} {x : BitVec w} {b : Bool}

theorem select_entry (h : (entryParts e)[k]? = some ⟨w, x⟩) (hlo : low entryWidths k = lo)
    (hn : lo + w ≤ 167) : (renameEntry e).extractLsb' lo w = x := by
  rw [renameEntry_eq]
  exact extractLsb'_assigned (entryParts_width e) h hlo hn

theorem select_entry_reg {x : Reg} (h : (entryParts e)[k]? = some ⟨5, .ofFin x⟩)
    (hlo : low entryWidths k = lo) (hn : lo + 5 ≤ 167) :
    ((renameEntry e).extractLsb' lo 5).toFin = x :=
  congrArg BitVec.toFin (select_entry h hlo hn)

theorem select_rob (h : (robParts r)[k]? = some ⟨w, x⟩) (hlo : low robWidths k = lo)
    (hn : lo + w ≤ n) : (assigned n (robParts r)).extractLsb' lo w = x :=
  extractLsb'_assigned (robParts_width r) h hlo hn

theorem select_rob_tag {x : Tag} (h : (robParts r)[k]? = some ⟨6, .ofFin x⟩)
    (hlo : low robWidths k = lo) (hn : lo + 6 ≤ n) :
    ((assigned n (robParts r)).extractLsb' lo 6).toFin = x :=
  congrArg BitVec.toFin (select_rob h hlo hn)

theorem select_rob_bit (h : (robParts r)[k]? = some (.bit b)) (hlo : low robWidths k = lo)
    (hn : lo < n) : (assigned n (robParts r)).getLsbD lo = b :=
  getLsbD_assigned (robParts_width r) h hlo hn

theorem total_controls (e : RenameEntry) : total (constants e ++ controls e.controls) = 88 :=
  (total_eq_sum _).trans
    (show [32, 5, 32, 1, 1, 1, 1, 1, 1, 1, 1, 1, 1, 1, 6, 2].sum = 88 by decide)

/-- `id_control` are the constants and the controls. -/
theorem idControl_eq (e : RenameEntry) :
    idControl (renameEntry e) = assigned 88 (constants e ++ controls e.controls) := by
  have hlow : total (instrInfo e ++ regs e) = 79 :=
    (total_eq_sum _).trans (show [32, 32, 5, 5, 5].sum = 79 by decide)
  rw [renameEntry_eq]
  exact extractLsb'_assigned_append [] (constants e ++ controls e.controls) (instrInfo e ++ regs e)
    hlow (total_controls e) (by decide)

theorem select_control (h : (constants e ++ controls e.controls)[k]? = some (.bit b))
    (hlo : low [32, 5, 32, 1, 1, 1, 1, 1, 1, 1, 1, 1, 1, 1, 6, 2] k = lo) (hn : lo < 88) :
    (idControl (renameEntry e)).getLsbD lo = b := by
  rw [idControl_eq]
  exact getLsbD_assigned rfl h hlo hn

/-- **The queue is read as it is written.** -/
theorem queueReads (e : RenameEntry) : QueueReads (renameEntry e) e := by
  have hinstr : rqInstrR (renameEntry e) = e.instr := select_entry (k := 17) rfl rfl (by decide)
  refine ⟨?_, ?_, ?_, hinstr, select_entry (k := 16) rfl rfl (by decide), ?_, ?_, ?_⟩
  · exact select_entry_reg (k := 18) rfl rfl (by decide)
  · exact select_entry_reg (k := 19) rfl rfl (by decide)
  · exact select_entry_reg (k := 20) rfl rfl (by decide)
  · exact select_control (k := 7) rfl rfl (by decide)
  · exact select_control (k := 8) rfl rfl (by decide)
  · rw [idRegWrFlag, hinstr, Rename.idRegWrFlag]
    exact congrArg (· && _) (select_control (k := 10) rfl rfl (by decide))

/-- **Rename packs its record.** -/
theorem entryROB_eq (i : Rename.Inputs) :
    entryROB (renameEntry i.entry) i.fratMyMap i.freeReg =
      assigned 170 (robParts (Rename.pack i.entry i.fratMyMap (Rename.mapWr i))) := by
  have hq := queueReads i.entry
  have hmap : mapWr (renameEntry i.entry) i.fratMyMap i.freeReg = Rename.mapWr i := by
    rw [mapWr, hq.regWrFlag, hq.ldFlag, hq.keyD]
    rfl
  have hcontrol : (⟨88, idControl (renameEntry i.entry)⟩ : Part) =
      .of (constants i.entry ++ controls i.entry.controls) := by
    rw [idControl_eq]
    exact mk_assigned (total_controls i.entry)
  rw [entryROB, assigned_map_of, hmap, hq.instr, hq.pc, hq.keyT, hq.keyS, hcontrol]
  exact assigned_of_cons 170 _ _

variable (r)

theorem idReads : IdReads (assigned 170 (robParts r)) r where
  mappedS := select_rob_tag (k := 20) rfl rfl (by decide)
  mappedT := select_rob_tag (k := 19) rfl rfl (by decide)
  mappedD := select_rob_tag (k := 18) rfl rfl (by decide)
  instrPcIn := select_rob (k := 17) rfl rfl (by decide)
  instr1In := select_rob (k := 16) rfl rfl (by decide)
  aluControl1 := select_rob (k := 14) rfl rfl (by decide)
  sys := select_rob_bit (k := 13) rfl rfl (by decide)
  regWrite1 := select_rob_bit (k := 10) rfl rfl (by decide)
  memWrite1 := select_rob_bit (k := 8) rfl rfl (by decide)
  memRead1 := select_rob_bit (k := 7) rfl rfl (by decide)
  branch := select_rob_bit (k := 6) rfl rfl (by decide)
  regDest := select_rob_bit (k := 4) rfl rfl (by decide)
  link := select_rob_bit (k := 3) rfl rfl (by decide)
  shiftAmount1 := select_rob (k := 1) rfl rfl (by decide)
  opB := select_rob (k := 0) rfl rfl (by decide)

theorem exeReads : ExeReads (assigned 170 (robParts r)) r where
  jumpRegister := select_rob_bit (k := 11) rfl rfl (by decide)
  jump := select_rob_bit (k := 5) rfl rfl (by decide)
  link := select_rob_bit (k := 3) rfl rfl (by decide)
  target := select_rob (k := 2) rfl rfl (by decide)

theorem issueReads (hn : 138 ≤ n) : IssueReads (assigned n (robParts r)) r where
  mapA := select_rob (k := 20) rfl rfl (by omega)
  mapB := select_rob (k := 19) rfl rfl (by omega)
  mapWr := select_rob (k := 18) rfl rfl (by omega)
  instrPc := select_rob (k := 17) rfl rfl (by omega)
  instr := select_rob (k := 16) rfl rfl (by omega)
  hilo := select_rob (k := 15) rfl rfl (by omega)
  aluCon := select_rob (k := 14) rfl rfl (by omega)
  sysFlag := select_rob_bit (k := 13) rfl rfl (by omega)
  jrFlag := select_rob_bit (k := 11) rfl rfl (by omega)
  regWrFlag := select_rob_bit (k := 10) rfl rfl (by omega)
  aluSrcFlag := select_rob_bit (k := 9) rfl rfl (by omega)
  memWrFlag := select_rob_bit (k := 8) rfl rfl (by omega)
  memRdFlag := select_rob_bit (k := 7) rfl rfl (by omega)
  branchFlag := select_rob_bit (k := 6) rfl rfl (by omega)
  jumpFlag := select_rob_bit (k := 5) rfl rfl (by omega)
  regDestFlag := select_rob_bit (k := 4) rfl rfl (by omega)
  linkFlag := select_rob_bit (k := 3) rfl rfl (by omega)
  altPc := select_rob (k := 2) rfl rfl (by omega)
  shamt := select_rob (k := 1) rfl rfl (by omega)

end Parts

section Rob

variable (i : Rob.Inputs)

/-- ROB and Issue agree on whatever they are given. -/
theorem selectsAsIssue : SelectsAsIssue i := ⟨rfl, rfl, rfl, rfl, rfl, rfl⟩

theorem robReads {r : RobEntry} (h : i.renameEnqueData = assigned 170 (robParts r)) :
    RobReads i r := by
  have hrob := selectsAsIssue i
  have hissue := issueReads r (show 138 ≤ 170 by decide)
  rw [← h] at hissue
  constructor
  · exact hrob.regWrFlag.trans hissue.regWrFlag
  · exact hrob.mapWr.trans hissue.mapWr
  · exact hrob.sys.trans hissue.sysFlag
  · rw [hrob.jumpOrBranch, hissue.branchFlag, hissue.jumpFlag]
  · rw [hrob.reqAlt, hissue.sysFlag, hissue.jumpFlag]
  · exact hrob.pc.trans hissue.instrPc

end Rob

/-- The entry that Rename is given and what it makes of it are read as they are packed,
field by field, and ROB selects the bits that Issue does. -/
structure LayoutAgrees (i : Rename.Inputs) (r : RobEntry) (info : BitVec 170) : Prop where
  queue : QueueReads (renameEntry i.entry) i.entry
  id : IdReads info r
  exe : ExeReads info r
  issue : IssueReads info r ∧ Issue.opB1 info = r.opB
  issueQueue : IssueReads (info.extractLsb' 0 138) r
  rob : ∀ j : Rob.Inputs, j.renameEnqueData = info → RobReads j r
  robIssue : ∀ j : Rob.Inputs, SelectsAsIssue j
  entrySeparate : (entryParts i.entry).map Part.width = entryWidths ∧
    entryWidths.sum = 167 ∧ Separate entryWidths
  robSeparate : (robParts r).map Part.width = robWidths ∧ robWidths.sum = 170 ∧ Separate robWidths

/-- **The layout agrees** from ID through Rename to ID, EXE, Issue and ROB, for all values
of the fields, mappings and free registers. -/
theorem layout_agrees (i : Rename.Inputs) :
    LayoutAgrees i (Rename.pack i.entry i.fratMyMap (Rename.mapWr i))
      (entryROB (renameEntry i.entry) i.fratMyMap i.freeReg) := by
  rw [entryROB_eq]
  refine ⟨queueReads i.entry, idReads _, exeReads _,
    ⟨issueReads _ (by decide), select_rob (k := 0) rfl rfl (by decide)⟩, ?_,
    fun j => robReads j, selectsAsIssue, ⟨entryParts_width _, by decide, separate _⟩,
    ⟨robParts_width _, by decide, separate _⟩⟩
  rw [extractLsb'_zero_assigned (by decide)]
  exact issueReads _ le_rfl

end Layout
end OooProcessor
