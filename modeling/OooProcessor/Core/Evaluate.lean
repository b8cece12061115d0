/-
# Evaluating a run of the core

`Lib.Strict` for the registers of the core.  `Lib.Clocked.evalRun` then follows a
fixed program with every register brought to normal form in every cycle.
-/

import OooProcessor.Lib.Strict
import OooProcessor.Rtl.Mips

namespace OooProcessor

open Lib Strict

instance : Strict Controls where
  force c k :=
    force c.link fun link => force c.regDest fun regDest =>
    force c.jump fun jump => force c.branch fun branch =>
    force c.memRead fun memRead => force c.memWrite fun memWrite =>
    force c.aluSrc fun aluSrc => force c.regWrite fun regWrite =>
    force c.jumpRegister fun jumpRegister => force c.signOrZero fun signOrZero =>
    force c.syscall fun syscall => force c.aluControl fun aluControl =>
    force c.multRegAccess fun multRegAccess =>
    k ⟨link, regDest, jump, branch, memRead, memWrite, aluSrc, regWrite, jumpRegister,
      signOrZero, syscall, aluControl, multRegAccess⟩
  force_eq c _ := by simp

instance : Strict RenameEntry where
  force e k :=
    force e.opB fun opB => force e.shamt fun shamt => force e.nextAddr fun nextAddr =>
    force e.controls fun controls => force e.pc fun pc => force e.instr fun instr =>
    force e.rs fun rs => force e.rt fun rt => force e.rd fun rd =>
    k ⟨opB, shamt, nextAddr, controls, pc, instr, rs, rt, rd⟩
  force_eq e _ := by simp

instance : Strict RobEntry where
  force e k :=
    force e.opB fun opB => force e.shamt fun shamt => force e.nextAddr fun nextAddr =>
    force e.controls fun controls => force e.instr fun instr => force e.pc fun pc =>
    force e.mapWr fun mapWr => force e.mapB fun mapB => force e.mapA fun mapA =>
    k ⟨opB, shamt, nextAddr, controls, instr, pc, mapWr, mapB, mapA⟩
  force_eq e _ := by simp

namespace QueueObj

variable {α : Type*} [Strict α] {β : Type}

/-- A queue with the `length` cells of its array forced. -/
def forceState (length : ℕ) (s : State α) (k : State α → β) : β :=
  force s.head fun head => force s.tail fun tail => force s.size fun size =>
    forceCells length s.queue fun queue => k ⟨head, tail, size, queue⟩

@[simp] theorem forceState_eq (length : ℕ) (s : State α) (k : State α → β) :
    forceState length s k = k s := by
  simp [forceState]

end QueueObj

instance : Strict Fetch.State where
  force s k :=
    force s.instr1Out fun instr1Out => force s.instrPcOut fun instrPcOut =>
    force s.instrPcPlus4 fun instrPcPlus4 => k ⟨instr1Out, instrPcOut, instrPcPlus4⟩
  force_eq s _ := by simp

instance : Strict TableObj.State where
  force s k :=
    force s.arr fun arr => force s.returnedMapping fun returnedMapping =>
    force s.returnMap fun returnMap => k ⟨arr, returnedMapping, returnMap⟩
  force_eq s _ := by simp

instance : Strict PhysRegs.State where
  force s k := force s.arr fun arr => k ⟨arr⟩
  force_eq s _ := by simp

/-- The registers that ID and FRAT read; the rest stay as they are. -/
instance : Strict Rename.State where
  force s k :=
    force s.regToMapFRAT fun regToMapFRAT => force s.newMapping fun newMapping =>
    force s.remapFRAT fun remapFRAT => force s.entryROB fun entryROB =>
    force s.entryLoadSpecial fun entryLoadSpecial => force s.oldA fun oldA =>
    force s.oldB fun oldB => force s.oldC fun oldC =>
    k { s with regToMapFRAT, newMapping, remapFRAT, entryROB, entryLoadSpecial, oldA, oldB, oldC }
  force_eq s _ := by simp

instance : Strict Id.Out where
  force o k :=
    force o.instr1Out fun instr1Out => force o.instr1PcOut fun instr1PcOut =>
    force o.operandA1Out fun operandA1Out => force o.operandB1Out fun operandB1Out =>
    force o.readRegisterA1Out fun readRegisterA1Out =>
    force o.readRegisterB1Out fun readRegisterB1Out =>
    force o.writeRegister1Out fun writeRegister1Out =>
    force o.memWriteData1Out fun memWriteData1Out => force o.regWrite1Out fun regWrite1Out =>
    force o.aluControl1Out fun aluControl1Out => force o.memRead1Out fun memRead1Out =>
    force o.memWrite1Out fun memWrite1Out => force o.shiftAmount1Out fun shiftAmount1Out =>
    force o.sys fun sys => force o.allInfoIF fun allInfoIF =>
    force o.issueRegWrMap fun issueRegWrMap => force o.issueRegWrFlag fun issueRegWrFlag =>
    k ⟨instr1Out, instr1PcOut, operandA1Out, operandB1Out, readRegisterA1Out, readRegisterB1Out,
      writeRegister1Out, memWriteData1Out, regWrite1Out, aluControl1Out, memRead1Out,
      memWrite1Out, shiftAmount1Out, sys, allInfoIF, issueRegWrMap, issueRegWrFlag⟩
  force_eq o _ := by simp

instance : Strict Id.State where
  force s k := force s.bubble fun bubble => force s.out fun out => k ⟨bubble, out⟩
  force_eq s _ := by simp

instance : Strict Alu.State where
  force s k :=
    force s.aluResult fun aluResult => force s.hiOut fun hiOut => force s.loOut fun loOut =>
    k ⟨aluResult, hiOut, loOut⟩
  force_eq s _ := by simp

instance : Strict Exe.State where
  force s k :=
    force s.instr1Out fun instr1Out => force s.instr1PcOut fun instr1PcOut =>
    force s.aluResult1Out fun aluResult1Out => force s.writeRegister1Out fun writeRegister1Out =>
    force s.memWriteData1Out fun memWriteData1Out => force s.regWrite1Out fun regWrite1Out =>
    force s.aluControl1Out fun aluControl1Out => force s.memRead1Out fun memRead1Out =>
    force s.memWrite1Out fun memWrite1Out => force s.requestAltPc fun requestAltPc =>
    force s.altAddr fun altAddr => force s.flush fun flush =>
    force s.allInfoMEM fun allInfoMEM => force s.broadcastFlag fun broadcastFlag =>
    force s.broadcastMap fun broadcastMap => force s.broadcastReg fun broadcastReg =>
    force s.broadcastVal fun broadcastVal => force s.exeRegWrMap fun exeRegWrMap =>
    force s.hi fun hi => force s.lo fun lo => force s.take fun take =>
    force s.addr fun addr => force s.alu fun alu =>
    k ⟨instr1Out, instr1PcOut, aluResult1Out, writeRegister1Out, memWriteData1Out, regWrite1Out,
      aluControl1Out, memRead1Out, memWrite1Out, requestAltPc, altAddr, flush, allInfoMEM,
      broadcastFlag, broadcastMap, broadcastReg, broadcastVal, exeRegWrMap, hi, lo, take, addr,
      alu⟩
  force_eq s _ := by simp

instance : Strict Mem.State where
  force s k :=
    force s.instr1Out fun instr1Out => force s.instr1PcOut fun instr1PcOut =>
    force s.writeRegister1Out fun writeRegister1Out => force s.regWrite1Out fun regWrite1Out =>
    force s.writeData1Out fun writeData1Out => force s.broadcastMap fun broadcastMap =>
    force s.dataWrite2DM fun dataWrite2DM =>
    k ⟨instr1Out, instr1PcOut, writeRegister1Out, regWrite1Out, writeData1Out, broadcastMap,
      dataWrite2DM⟩
  force_eq s _ := by simp

instance : Strict Mips where
  force s k :=
    force s.fetch fun fetch => QueueObj.forceState 8 s.decodeQueue fun decodeQueue =>
    force s.decoder2 fun decoder2 => QueueObj.forceState 8 s.renameQueue fun renameQueue =>
    force s.rename fun rename => QueueObj.forceState 32 s.freelist fun freelist =>
    force s.frat fun frat => force s.rrat fun rrat => force s.physReg fun physReg =>
    force s.id fun id => force s.exe fun exe => force s.mem fun mem =>
    k ⟨fetch, decodeQueue, decoder2, renameQueue, rename, freelist, frat, rrat, physReg, id, exe,
      mem⟩
  force_eq s _ := by simp

/-- The simulator with the program `imem` in its memory: it fetches from the
address IF puts out, but never from address 0, and every load reads `data`. -/
def Mips.programEnv (imem : Word → Word) (data : Word) (_ : ℕ) (s : Mips) : Input :=
  ⟨if s.instrAddress2IM = 0 then 0 else imem s.instrAddress2IM, data, []⟩

/-- What every word of a program has, and 0, every fetched word has. -/
theorem Mips.fetched_programEnv {S : Word → Prop} {imem : Word → Word} (h0 : S 0)
    (h : ∀ a, S (imem a)) (data : Word) (n : ℕ) : S (fetched (programEnv imem data) n) := by
  unfold fetched Clocked.input programEnv
  dsimp only
  split_ifs
  · exact h0
  · exact h _

end OooProcessor
