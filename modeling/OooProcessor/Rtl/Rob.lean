/-
# ROB

`verilog/ROB.v`, which no other module instantiates.  What does not compile in it
is read as it is evidently meant: `CLK` and `RESET` are the ports `clk` and
`reset`, `mispred_q` and `ALT_PC_dly` are `mispre_q` and `Alt_PC_dly`, the `or`
between the two completion flags is `||`.  Everything else is taken as it stands:
the order of the assignments, `&` binding closer than `|`, and the `=` of the
recovery loop, which clears the arrays before the `<=` of the same edge are
written to them.

The four arrays are one here, a `Slot` in each of its 64 cells.  `stall`,
`rrat_map` and the two broadcast flags are inputs nothing reads.
-/

import Mathlib.Algebra.Group.Fin.Basic
import OooProcessor.Lib.Clocked
import OooProcessor.Rtl.Types

namespace OooProcessor
namespace Rob

/-- What an entry keeps from its enqueue on. -/
structure Entry where
  jumpOrBranch : Bool   -- ready2commit_q[0]
  sys : Bool            -- ready2commit_q[1]
  regWrFlag : Bool      -- remap_info_q[11]
  mapWr : BitVec 6      -- remap_info_q[10:5]
  regWr : BitVec 5      -- remap_info_q[4:0]
  instrNum : ℤ          -- instr_num_q
  deriving DecidableEq, Repr

/-- One cell of the four arrays. -/
structure Slot extends Entry where
  complete : Bool       -- ready2commit_q[2]
  mispred : Bool        -- mispre_q[32]
  altPc : Word          -- mispre_q[31:0]
  deriving DecidableEq, Repr

instance : Zero Slot := ⟨⟨⟨false, false, false, 0, 0, 0⟩, false, false, 0⟩⟩

structure Inputs where
  renameEnque : Bool
  renameInstrNum : ℤ
  renameRegWr : BitVec 5
  renameEnqueData : BitVec 170
  exeCompleteFlag : Bool
  exeRequestAltPc : Bool
  exeAltPc : Word
  exeInstrNum : ℤ
  memCompleteFlag : Bool
  memInstrNum : ℤ

structure State where
  commitPointer : Fin 64
  enquePointer : Fin 64
  queueSize : ℤ
  queue : Fin 64 → Slot
  altPcDly : Word
  reqAltPcDly : Bool
  flushDly : Bool
  requestAltPcIF : Bool
  altPcIF : Word
  newMapFlagRrat : Bool
  newMapRrat : BitVec 6
  reg2mapRrat : BitVec 5
  sys : Bool
  flush : Bool

def reset : State where
  commitPointer := 0
  enquePointer := 0
  queueSize := 0
  queue _ := 0
  altPcDly := 0
  reqAltPcDly := false
  flushDly := false
  requestAltPcIF := false
  altPcIF := 0
  newMapFlagRrat := false
  newMapRrat := 0
  reg2mapRrat := 0
  sys := false
  flush := false

/-- `rename_remap_info`, the lower bits of `rename_ready2commit` and the number. -/
def entry (i : Inputs) : Entry where
  jumpOrBranch := i.renameEnqueData[97] || i.renameEnqueData[98]
  sys := i.renameEnqueData[90]
  regWrFlag := i.renameEnqueData[93]
  mapWr := i.renameEnqueData.extractLsb' 12 6
  regWr := i.renameRegWr
  instrNum := i.renameInstrNum

/-- The program counter of what Rename enqueues. -/
def renamePc (i : Inputs) : Word := i.renameEnqueData.extractLsb' 18 32

/-- The cell an enqueue writes, with `rename_Req_alt` and `rename_ini_alt_pc`. -/
def slot (i : Inputs) : Slot where
  toEntry := entry i
  complete := false
  mispred := i.renameEnqueData[90] || i.renameEnqueData[98]
  altPc := renamePc i + 4

/-- `(rename_enque && (queue_size < 64))` -/
def accepts (i : Inputs) (s : State) : Bool := i.renameEnque && decide (s.queueSize < 64)

/-- The cell at `commit_pointer`. -/
def head (s : State) : Slot := s.queue s.commitPointer

/-- `ready2commit_q[commit_pointer][2]` -/
def commits (s : State) : Bool := (head s).complete

/-- The condition of the recovery block, which is also what `flush` is first
assigned. -/
def redirects (s : State) : Bool :=
  if s.flushDly then s.flushDly else if (head s).jumpOrBranch then false else (head s).mispred

/-- The nonblocking writes of a rising edge, to the arrays as they stand when it
ends: the commit's come last. -/
def writes (i : Inputs) (s : State) (queue : Fin 64 → Slot) : Fin 64 → Slot :=
  let entered := if accepts i s then Function.update queue s.enquePointer (slot i) else queue
  if commits s then Function.update entered s.commitPointer 0 else entered

/-- A rising edge up to the recovery block. -/
def advance (i : Inputs) (s : State) : State where
  commitPointer := if commits s then s.commitPointer + 1 else s.commitPointer
  enquePointer := if accepts i s then s.enquePointer + 1 else s.enquePointer
  queueSize :=
    if accepts i s then if commits s then s.queueSize else s.queueSize + 1
    else if commits s then s.queueSize - 1 else s.queueSize
  queue := writes i s s.queue
  altPcDly := if commits s then (head s).altPc else s.altPcDly
  reqAltPcDly :=
    if commits s then if (head s).jumpOrBranch then (head s).mispred else false
    else s.reqAltPcDly
  flushDly :=
    if commits s then if (head s).jumpOrBranch then (head s).mispred else false
    else s.flushDly
  requestAltPcIF :=
    if commits s then
      if s.reqAltPcDly then s.reqAltPcDly
      else if (head s).jumpOrBranch then false else (head s).mispred
    else s.requestAltPcIF
  altPcIF :=
    if commits s then
      if s.reqAltPcDly then s.altPcDly else if (head s).jumpOrBranch then 0 else (head s).altPc
    else s.altPcIF
  newMapFlagRrat := if commits s then (head s).regWrFlag else s.newMapFlagRrat
  newMapRrat := if commits s then (head s).mapWr else s.newMapRrat
  reg2mapRrat := if commits s then (head s).regWr else s.reg2mapRrat
  sys := if commits s then (head s).sys else s.sys
  flush := if commits s then redirects s else s.flush

/-- The recovery block, whose assignments are the last ones of the edge. -/
def recover (i : Inputs) (s : State) : State :=
  { advance i s with
    enquePointer := 0
    commitPointer := 0
    queueSize := 0
    altPcDly := 0
    reqAltPcDly := false
    flushDly := false
    flush := false
    altPcIF := 0
    requestAltPcIF := false
    queue := writes i s fun _ => 0 }

/-- A commit that runs the recovery block. -/
def flushes (s : State) : Bool := commits s && redirects s

def posedge (i : Inputs) (s : State) : State :=
  if flushes s then recover i s else advance i s

/-- The condition on which a falling edge sets the completion bit of a cell, with
the precedence Verilog gives it. -/
def marks (i : Inputs) (c : Slot) : Bool :=
  (i.exeCompleteFlag && i.exeInstrNum == c.instrNum) ||
    (i.memCompleteFlag && i.memInstrNum == c.instrNum && c.instrNum != 0)

/-- The condition on which a falling edge records EXE's outcome. -/
def records (i : Inputs) (c : Slot) : Bool :=
  i.exeCompleteFlag && i.exeInstrNum == c.instrNum && c.instrNum != 0

/-- One turn of the completion loop. -/
def complete (i : Inputs) (c : Slot) : Slot :=
  let outcome := records i c && (c.jumpOrBranch && !c.sys)
  { c with
    complete := if marks i c then true else c.complete
    altPc := if outcome then i.exeAltPc else c.altPc
    mispred := if outcome then i.exeRequestAltPc else c.mispred }

def negedge (i : Inputs) (s : State) : State :=
  if !s.flush && (i.exeCompleteFlag || i.memCompleteFlag) then
    { s with queue := fun j => complete i (s.queue j) }
  else s

def machine : Lib.Clocked State Inputs := ⟨reset, posedge, negedge⟩

/-- `ROB_halt` -/
def halt (s : State) : Bool := s.queueSize == 64

/-- `head_instr_num` -/
def headInstrNum (s : State) : ℤ := (head s).instrNum

/-- The state before the rising edge of cycle `n`. -/
abbrev run (env : ℕ → State → Inputs) (n : ℕ) : State := machine.run env n

/-- The state of cycle `n` between its edges. -/
abbrev high (env : ℕ → State → Inputs) (n : ℕ) : State := machine.high env n

end Rob
end OooProcessor
