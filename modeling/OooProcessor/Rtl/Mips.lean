/-
# The core and its simulator

`verilog/MIPS.v` and the wiring inside `verilog/ID.v`: every register of the
design in one record, the wires between the modules as functions of it, and one
transition for each edge of CLK.  (Issue is instantiated in ID, but none of its
outputs is used; Decoder1 only prints.)

What `sim_main/sim_main.cpp` supplies in a cycle is an `Input`: the word on
`Instr1_fIM`, the word on `data_read_fDM`, and the registers its system-call
handler writes.  The handler runs while CLK is low, before the falling edge is
evaluated, in every cycle in which it sees `SYS == 1`; `write_register` writes
through RRAT into PHYS_REG (`sim_main/sm_regfile.cpp`).
-/

import OooProcessor.Lib.Clocked
import OooProcessor.Rtl.Fetch
import OooProcessor.Rtl.Mem
import OooProcessor.Rtl.QueueObj
import OooProcessor.Rtl.RegisterFiles
import OooProcessor.Rtl.Rename

namespace OooProcessor

structure Input where
  instr1FIM : Word
  dataReadFDM : Word
  sysWrites : List (Reg × Word)

structure Mips where
  fetch : Fetch.State
  decodeQueue : QueueObj.State (Word × Word)
  /-- The outputs of Decoder2 before the word it sees now. -/
  decoder2 : Controls
  renameQueue : QueueObj.State RenameEntry
  rename : Rename.State
  freelist : QueueObj.State Tag
  frat : TableObj.State
  rrat : TableObj.State
  physReg : PhysRegs.State
  id : Id.State
  exe : Exe.State
  mem : Mem.State

namespace Mips

/-- `#(.LENGTH(8), .WIDTH(64))`; an entry is `{instr_pc_in, instr1_in}`. -/
def decodeQueueParams : QueueObj.Params (Word × Word) where
  init := false
  length := 8
  ofInt _ := (0, 0)

/-- `#(.SPECIAL(0), .LENGTH(8), .WIDTH(167))` -/
def renameQueueParams : QueueObj.Params RenameEntry where
  init := false
  length := 8
  ofInt _ := 0

/-- `#(.INIT(1), .LENGTH(32), .WIDTH(6))` -/
def freelistParams : QueueObj.Params Tag where
  init := true
  length := 32
  ofInt i := Fin.ofNat 64 i

def reset : Mips where
  fetch := Fetch.reset
  decodeQueue := QueueObj.reset decodeQueueParams
  decoder2 := Decoder.decode 0 0
  renameQueue := QueueObj.reset renameQueueParams
  rename := Rename.reset
  freelist := QueueObj.reset freelistParams
  frat := TableObj.reset
  rrat := TableObj.reset
  physReg := PhysRegs.reset
  id := Id.reset
  exe := Exe.reset
  mem := Mem.reset

variable (s : Mips)

/-- `halt` of the decode queue, which stalls IF. -/
def halt : Bool := QueueObj.halt decodeQueueParams s.decodeQueue

/-- `rename_halt` -/
def renameHalt : Bool := QueueObj.halt renameQueueParams s.renameQueue

/-- `free_halt` -/
def freeHalt : Bool := QueueObj.halt freelistParams s.freelist

/-- `Instr_address_2IM` -/
def instrAddress2IM : Word := Fetch.instrAddress2IM s.exe.requestAltPc s.exe.altAddr s.fetch

def decodeQueueInputs : QueueObj.Inputs (Word × Word) where
  stall := s.renameHalt
  flush := s.exe.flush
  enque := true
  enqueData := (s.fetch.instrPcOut, s.fetch.instr1Out)
  deque := true
  rMapping _ := 0

/-- `deque_data`: the program counter and the word at the front of the decode
queue. -/
def dequeData : Word × Word :=
  QueueObj.dequeData decodeQueueParams s.decodeQueueInputs s.decodeQueue

/-- The outputs of Decoder2. -/
def controls : Controls := Decoder.decode s.dequeData.2 s.decoder2

/-- `rename_entry` -/
def renameEntry : RenameEntry := Id.renameEntry s.dequeData.1 s.dequeData.2 s.controls

/-- The halt signals Rename sees; `issue_halt`, `lsq_halt` and `rob_halt` are tied
to 0. -/
def haltRenameQueue : Bool := decide (s.id.bubble ≠ 0) || s.freeHalt

def renameQueueInputs : QueueObj.Inputs RenameEntry where
  stall := s.haltRenameQueue
  flush := s.exe.flush
  enque := true
  enqueData := s.renameEntry
  deque := true
  rMapping _ := 0

/-- `rename_queue_out` -/
def renameQueueOut : RenameEntry :=
  QueueObj.dequeData renameQueueParams s.renameQueueInputs s.renameQueue

def freelistInputs : QueueObj.Inputs Tag where
  stall := false
  flush := s.exe.flush
  enque := s.rrat.returnMap
  enqueData := s.rrat.returnedMapping
  deque := Rename.allocates s.renameQueueOut
  rMapping := s.rrat.arr

/-- `free_reg` -/
def freeReg : Tag := QueueObj.dequeData freelistParams s.freelistInputs s.freelist

def renameInputs : Rename.Inputs where
  stall := decide (s.id.bubble ≠ 0)
  flush := s.exe.flush
  entry := s.renameQueueOut
  fratMyMap := s.frat.arr
  issueHalt := false
  lsqHalt := false
  robHalt := false
  exeBusyclearFlag := s.rrat.returnMap
  exeBusyclearReg := s.rrat.returnedMapping
  freeReg := s.freeReg
  freeHalt := s.freeHalt

def fratInputs : TableObj.Inputs where
  stall := false
  regToMap := s.rename.regToMapFRAT
  newMapping := s.rename.newMapping
  remap := s.rename.remapFRAT
  newMap := s.rrat.arr
  overwrite := false

/-- RRAT has one write port, shared by EXE and MEM (`temp_to_remap`, `temp_map`,
`temp_do`). -/
def rratInputs : TableObj.Inputs where
  stall := false
  regToMap := if s.exe.broadcastFlag then s.exe.broadcastReg else s.mem.writeRegister1Out
  newMapping := if s.exe.broadcastFlag then s.exe.broadcastMap else s.mem.broadcastMap
  remap := s.exe.broadcastFlag || s.mem.regWrite1Out
  newMap := s.frat.arr
  overwrite := false

def physRegInputs : PhysRegs.Inputs where
  stall := false
  regToUpdate1 := s.exe.broadcastMap
  newValue1 := s.exe.broadcastVal
  update1 := s.exe.broadcastFlag
  regToUpdate2 := s.mem.broadcastMap
  newValue2 := s.mem.writeData1Out
  update2 := s.mem.regWrite1Out

def idInputs : Id.Inputs where
  renameOut := s.rename.entryROB
  entryLoadSpecial := s.rename.entryLoadSpecial
  oldA := s.rename.oldA
  oldB := s.rename.oldB
  oldC := s.rename.oldC
  regs := s.physReg.arr

def fetchInputs (i : Input) : Fetch.Inputs where
  stall := s.halt
  requestAltPc := s.exe.requestAltPc
  altPc := s.exe.altAddr
  instr1FIM := i.instr1FIM

/-- Every register clocked on the rising edge, from the state before it. -/
def posedge (i : Input) (s : Mips) : Mips where
  fetch := Fetch.posedge (s.fetchInputs i) s.fetch
  decodeQueue := QueueObj.posedge decodeQueueParams s.decodeQueueInputs s.decodeQueue
  decoder2 := s.controls
  renameQueue := QueueObj.posedge renameQueueParams s.renameQueueInputs s.renameQueue
  rename := s.rename
  freelist := QueueObj.posedge freelistParams s.freelistInputs s.freelist
  frat := s.frat
  rrat := s.rrat
  physReg := s.physReg
  id := Id.posedge s.idInputs s.id
  exe := Exe.posedge s.id.out s.exe
  mem := Mem.posedge s.exe i.dataReadFDM s.mem

/-- `write_register`: through RRAT into PHYS_REG. -/
def writeRegister (rrat : Reg → Tag) (regs : PhysRegs.State) (regno : Reg) (value : Word) :
    PhysRegs.State :=
  ⟨Function.update regs.arr (rrat regno) value⟩

/-- The system-call handler, which sees `SYS == 1` or does nothing. -/
def syscallHandler (i : Input) (s : Mips) : PhysRegs.State :=
  if s.id.out.sys then
    i.sysWrites.foldl (fun regs w => writeRegister s.rrat.arr regs w.1 w.2) s.physReg
  else s.physReg

/-- Every register clocked on the falling edge, from the state the handler
leaves. -/
def negedge (i : Input) (s : Mips) : Mips where
  fetch := s.fetch
  decodeQueue := s.decodeQueue
  decoder2 := s.decoder2
  renameQueue := s.renameQueue
  rename := Rename.negedge s.renameInputs s.rename
  freelist := s.freelist
  frat := TableObj.negedge s.fratInputs s.frat
  rrat := TableObj.negedge s.rratInputs s.rrat
  physReg := PhysRegs.negedge s.physRegInputs (syscallHandler i s)
  id := s.id
  exe := Exe.negedge s.id.out s.exe
  mem := s.mem

/-- The core as a clocked machine; its environment is the simulator. -/
def machine : Lib.Clocked Mips Input := ⟨reset, posedge, negedge⟩

/-- The states before each rising edge of a run from reset. -/
abbrev run (env : ℕ → Mips → Input) : ℕ → Mips := machine.run env

/-- The states between a rising edge and the falling edge after it. -/
abbrev high (env : ℕ → Mips → Input) : ℕ → Mips := machine.high env

/-- The word IF is given in cycle `n`. -/
def fetched (env : ℕ → Mips → Input) (n : ℕ) : Word := (machine.input env n).instr1FIM

end Mips
end OooProcessor
