/-
# Issue

`verilog/Issue.v`, the issue queue: 16 slots with three operands each, filled from
Rename on the rising edge, emptied towards EXE on the same edge, and woken by the
broadcasts of EXE and MEM on the falling edge.  The procedural assignment to the
wire `instr_ready` is read as the combinational logic it is meant to be.  That to
the wire `ALUSrc_flag` leaves `ALUSrc_exe` as it is, and `halt_rename` is never
driven.

The arrays are one here, with a `Slot` for each index; `ready_q[k]`, which the
wakeup compares as a whole, is the vector of the slots' `k`-th ready bits
(`readyQ`).  What Issue reads on the falling edge is an input of its own, since
`STALL`, `FLUSH` and `rob_instr_num` can change with the rising edge.
-/

import OooProcessor.Lib.Clocked
import OooProcessor.Lib.Sweep
import OooProcessor.Rtl.Arbiter
import OooProcessor.Rtl.Types

namespace OooProcessor
namespace Issue

section Fields

variable {w : ℕ} (info : BitVec w)

def mapA : BitVec 6 := info.extractLsb' 0 6
def mapB : BitVec 6 := info.extractLsb' 6 6
def mapWr : BitVec 6 := info.extractLsb' 12 6
def instrPc : Word := info.extractLsb' 18 32
def instr : Word := info.extractLsb' 50 32
def hilo : BitVec 2 := info.extractLsb' 82 2
def aluCon : BitVec 6 := info.extractLsb' 84 6
def sysFlag : Bool := info.getLsbD 90
def jrFlag : Bool := info.getLsbD 92
def regWrFlag : Bool := info.getLsbD 93
def aluSrcFlag : Bool := info.getLsbD 94
def memWrFlag : Bool := info.getLsbD 95
def memRdFlag : Bool := info.getLsbD 96
def branchFlag : Bool := info.getLsbD 97
def jumpFlag : Bool := info.getLsbD 98
def regDestFlag : Bool := info.getLsbD 99
def linkFlag : Bool := info.getLsbD 100
def altPc : Word := info.extractLsb' 101 32
def shamt : BitVec 5 := info.extractLsb' 133 5
def opB1 : Word := info.extractLsb' 138 32

/-- The physical register operand `k` waits for: `MapA`, `MapB` or `MapWr`. -/
def tag : Fin 3 → BitVec 6
  | 0 => mapA info
  | 1 => mapB info
  | 2 => mapWr info

/-- `(RegDest_flag || link_flag || (MapWr == 0))`: there is no store data. -/
def noStoreData : Bool := regDestFlag info || linkFlag info || mapWr info == 0

end Fields

/-- One index of the arrays. -/
structure Slot where
  info : BitVec 138         -- issue_q
  operand : Fin 3 → Word    -- Operand_q
  ready : Fin 3 → Bool      -- ready_q
  empty : Bool              -- empty_in_issue
  oldRegs : Fin 3 → Reg     -- old_regs
  instrNum : ℤ              -- instr_num
  multReady : Bool          -- mult_ready

/-- The registers towards EXE. -/
structure Out where
  regWr : BitVec 6
  instr : Word
  instrPc : Word
  shamt : BitVec 5
  aluCon : BitVec 6
  regWrFlag : Bool
  memWr : Bool
  memRd : Bool
  branch : Bool
  jump : Bool
  jumpReg : Bool
  regDest : Bool
  link : Bool
  hilo : BitVec 2
  sys : Bool
  aluSrc : Bool
  altPc : Word
  operandA1 : Word
  operandB1 : Word
  memWriteData : Word
  a : Reg
  b : Reg
  c : Reg
  instrNum : ℤ

/-- What Issue reads on a falling edge. -/
structure Wakeup where
  stall : Bool
  flush : Bool
  exeBroadcast : Bool
  exeBroadcastMap : BitVec 6
  exeBroadcastVal : Word
  memBroadcast : Bool
  memBroadcastMap : BitVec 6
  memBroadcastVal : Word
  robInstrNum : ℤ

/-- What Issue reads on a rising edge, and what on the falling edge after it. -/
structure Inputs where
  stall : Bool
  flush : Bool
  renameEnque : Bool
  renameInstrNum : ℤ
  renameIssueinfo : BitVec 170
  busy : BitVec 6 → Bool
  renameA : Reg
  renameB : Reg
  renameC : Reg
  physReg : BitVec 6 → Word
  robInstrNum : ℤ
  wakeup : Wakeup

structure State where
  queue : Fin 16 → Slot
  out : Out

/-- `ready_q[k]` -/
def readyQ (queue : Fin 16 → Slot) (k : Fin 3) (j : Fin 16) : Bool := (queue j).ready k

/-- A vector of 16 bits is the number 1. -/
def isOne (v : Fin 16 → Bool) : Bool := decide (∀ j, v j = decide (j = 0))

/-- `instr_ready` -/
def instrReady (s : State) (i : Fin 16) : Bool :=
  (s.queue i).ready 0 && (s.queue i).ready 1 && (s.queue i).ready 2 && (s.queue i).multReady

/-- `instr_out_index`, with `none` for 16. -/
def instrOutIndex (s : State) : Option (Fin 16) := ArbiterMain.granted (instrReady s)

/-- `empty_spot`, with `none` for 16. -/
def emptySpot (s : State) : Option (Fin 16) := ArbiterMain.granted fun i => (s.queue i).empty

/-- `issue_halt` -/
def issueHalt (s : State) : Bool :=
  emptySpot s == none || decide (∀ i, (s.queue i).empty = false)

/-- The registers a power-up and a flush clear; `mult_ready` is not among them. -/
def clearedSlot (multReady : Bool) : Slot where
  info := 0
  operand _ := 0
  ready _ := false
  empty := true
  oldRegs _ := 0
  instrNum := 0
  multReady := multReady

/-- After power-up `mult_ready` holds some `multReady`. -/
def reset (multReady : Fin 16 → Bool) : State where
  queue i := clearedSlot (multReady i)
  out := ⟨0, 0, 0, 0, 0, false, false, false, false, false, false, false, false, 0, false, false,
    0, 0, 0, 0, 0, 0, 0, 0⟩

section Enqueue

variable (i : Inputs)

/-- The bits `ready_q` takes. -/
def marked : Fin 3 → Bool
  | 0 => if mapA i.renameIssueinfo = 0 then true else i.busy (mapA i.renameIssueinfo)
  | 1 => if mapB i.renameIssueinfo = 0 then true else i.busy (mapB i.renameIssueinfo)
  | 2 => if noStoreData i.renameIssueinfo then true else i.busy (mapWr i.renameIssueinfo)

/-- The words `Operand_q` takes. -/
def sampled : Fin 3 → Word
  | 0 => i.physReg (mapA i.renameIssueinfo)
  | 1 => if mapB i.renameIssueinfo = 0 then opB1 i.renameIssueinfo
      else i.physReg (mapB i.renameIssueinfo)
  | 2 => if noStoreData i.renameIssueinfo then 0 else i.physReg (mapWr i.renameIssueinfo)

/-- What an enqueue makes of the slot it is given. -/
def enqueued (c : Slot) : Slot where
  info := i.renameIssueinfo.extractLsb' 0 138
  operand := sampled i
  ready := marked i
  empty := false
  oldRegs
    | 0 => i.renameA
    | 1 => i.renameB
    | 2 => i.renameC
  instrNum := i.renameInstrNum
  multReady :=
    if hilo i.renameIssueinfo ≠ 0 then i.robInstrNum == i.renameInstrNum else c.multReady

/-- The slot an enqueue is given, if there is one. -/
def enqueSlot (s : State) : Option (Fin 16) := if i.renameEnque then emptySpot s else none

/-- The array after the enqueue. -/
def enque (s : State) : Fin 16 → Slot :=
  match enqueSlot i s with
  | some e => Function.update s.queue e (enqueued i (s.queue e))
  | none => s.queue

end Enqueue

/-- What sending an instruction to EXE leaves of its slot. -/
def issued (c : Slot) : Slot :=
  { c with
    info := 0
    operand := fun _ => 0
    ready := fun _ => false
    empty := true
    oldRegs := fun _ => 0 }

/-- The registers towards EXE when slot `c` is sent; `old_regs` is read after the
enqueue, which assigns it at once. -/
def sent (c : Slot) (oldRegs : Fin 3 → Reg) (out : Out) : Out where
  regWr := mapWr c.info
  instr := instr c.info
  instrPc := instrPc c.info
  shamt := shamt c.info
  aluCon := aluCon c.info
  regWrFlag := regWrFlag c.info
  memWr := memWrFlag c.info
  memRd := memRdFlag c.info
  branch := branchFlag c.info
  jump := jumpFlag c.info
  jumpReg := jrFlag c.info
  regDest := regDestFlag c.info
  link := linkFlag c.info
  hilo := hilo c.info
  sys := sysFlag c.info
  aluSrc := out.aluSrc
  altPc := altPc c.info
  operandA1 := c.operand 0
  operandB1 := c.operand 1
  memWriteData := c.operand 2
  a := oldRegs 0
  b := oldRegs 1
  c := oldRegs 2
  instrNum := c.instrNum

/-- The registers towards EXE when nothing is sent. -/
def bubble (out : Out) : Out :=
  { out with
    regWr := 0
    instr := 0
    instrPc := 0
    shamt := 0
    aluCon := 0
    memWr := false
    memRd := false
    branch := false
    jump := false
    jumpReg := false
    regDest := false
    link := false
    hilo := 0
    sys := false
    altPc := 0
    operandA1 := 0
    operandB1 := 0
    memWriteData := 0 }

def posedge (i : Inputs) (s : State) : State :=
  if i.flush then { s with queue := fun j => clearedSlot (s.queue j).multReady }
  else if i.stall then s
  else
    match instrOutIndex s with
    | some x =>
      { queue := Function.update (enque i s) x (issued (enque i s x))
        out := sent (s.queue x) (enque i s x).oldRegs s.out }
    | none => { queue := enque i s, out := bubble s.out }

/-- The slot sent to EXE on a rising edge, if there is one. -/
def sends (i : Inputs) (s : State) : Option (Fin 16) :=
  if i.flush || i.stall then none else instrOutIndex s

section Wakeup

variable (u : Wakeup)

/-- The permission of a HI/LO instruction at the head of the ROB. -/
def permit (c : Slot) : Slot :=
  { c with
    multReady :=
      if !c.empty && hilo c.info != 0 then u.robInstrNum == c.instrNum || c.multReady
      else c.multReady }

/-- Slot `x` meets a broadcast of `map`. -/
def hear (map : BitVec 6) (val : Word) (queue : Fin 16 → Slot) (x : Fin 16) : Fin 16 → Slot :=
  Function.update queue x
    { queue x with
      operand := fun k =>
        if tag (queue x).info k == map && tag (queue x).info k != 0 && !isOne (readyQ queue k) then
          val
        else (queue x).operand k
      ready := fun k => if tag (queue x).info k == map then true else (queue x).ready k }

/-- Slot `x` meets EXE's broadcast. -/
def hearExe (queue : Fin 16 → Slot) (x : Fin 16) : Fin 16 → Slot :=
  if !(queue x).empty && u.exeBroadcast then hear u.exeBroadcastMap u.exeBroadcastVal queue x
  else queue

/-- Slot `x` meets MEM's broadcast. -/
def hearMem (queue : Fin 16 → Slot) (x : Fin 16) : Fin 16 → Slot :=
  if !(queue x).empty && u.memBroadcast then hear u.memBroadcastMap u.memBroadcastVal queue x
  else queue

/-- One turn of the wakeup loop. -/
def listen (queue : Fin 16 → Slot) (x : Fin 16) : Fin 16 → Slot := hearMem u (hearExe u queue x) x

/-- The array before the wakeup loop. -/
def permitted (s : State) (j : Fin 16) : Slot := permit u (s.queue j)

end Wakeup

def negedge (i : Inputs) (s : State) : State :=
  let u := i.wakeup
  if u.flush || u.stall then s
  else if u.exeBroadcast || u.memBroadcast then
    { s with queue := Lib.sweep (listen u) (permitted u s) }
  else { s with queue := permitted u s }

def machine (multReady : Fin 16 → Bool) : Lib.Clocked State Inputs :=
  ⟨reset multReady, posedge, negedge⟩

end Issue
end OooProcessor
