/-
# Instructions that EXE cannot tell apart

What ID hands to EXE at an issue slot names physical registers, and carries a datum for
memory that only loads and stores have.  Two instructions are alike if they agree in all
the rest (`OutAlike`).  EXE then leaves alike registers behind, whatever passed in between
without HI and LO (`ExeAlike`), and hands on the same result, the same redirect and the
same request for memory (`executes_alike`).
-/

import OooProcessor.Core.FrontEnd
import OooProcessor.Core.HiLo
import OooProcessor.Core.Values
import OooProcessor.Sim.Accesses

namespace OooProcessor
namespace Mips

open Decoder

/-- EXE cannot tell the instructions apart. -/
structure OutAlike (o o' : Id.Out) : Prop where
  instr : o.instr1Out = o'.instr1Out
  pc : o.instr1PcOut = o'.instr1PcOut
  operandA : o.operandA1Out = o'.operandA1Out
  operandB : o.operandB1Out = o'.operandB1Out
  writeRegister : o.writeRegister1Out = o'.writeRegister1Out
  regWrite : o.regWrite1Out = o'.regWrite1Out
  regWrFlag : o.issueRegWrFlag = o'.issueRegWrFlag
  aluControl : o.aluControl1Out = o'.aluControl1Out
  memRead : o.memRead1Out = o'.memRead1Out
  memWrite : o.memWrite1Out = o'.memWrite1Out
  shiftAmount : o.shiftAmount1Out = o'.shiftAmount1Out
  controls : o.allInfoIF.controls = o'.allInfoIF.controls
  nextAddr : o.allInfoIF.nextAddr = o'.allInfoIF.nextAddr
  datum : o.memRead1Out = true ∨ o.memWrite1Out = true → o.memWriteData1Out = o'.memWriteData1Out

/-- What EXE keeps from one instruction to the next is the same, with HI and LO those of
the ALU on either side. -/
structure ExeAlike (e e' : Exe.State) : Prop where
  take : e.take = e'.take
  addr : e.addr = e'.addr
  outs : outs e.alu = outs e'.alu
  hiLo : (e.hi, e.lo) = Mips.outs e.alu
  hiLo' : (e'.hi, e'.lo) = Mips.outs e'.alu

/-- The results EXE has in its registers are the same, as far as anything looks at them. -/
structure ResultAlike (e e' : Exe.State) : Prop where
  requestAltPc : e.requestAltPc = e'.requestAltPc
  altAddr : e.altAddr = e'.altAddr
  broadcastVal : e.broadcastFlag = true → e.broadcastVal = e'.broadcastVal
  access : Sim.Asks e e' ∨ (Sim.Idle e ∧ Sim.Idle e' ∧ e.regWrite1Out = false)

section Table

/-- What the tables say together: an operation on HI or LO does nothing else, MEM drives
data for stores only, and no store loads. -/
def kinds (c : Controls) : Bool :=
  (!touches c.aluControl || (!c.memRead && !c.memWrite && !c.regWrite && !c.link)) &&
    (!decide (c.aluControl ∈ Mem.storeControls) || c.memWrite) && (!c.memWrite || !c.memRead)

theorem kinds_of_table {w : Word} {b : BitVec 19} (h : table w = some b) :
    kinds (Controls.ofBits b) = true := by
  rcases table_cases h with ⟨-, h⟩ | h | h | h | rfl
  · exact of_mem (Q := fun _ b => kinds (Controls.ofBits b)) (by decide) h
  · exact of_mem (Q := fun _ b => kinds (Controls.ofBits b)) (by decide) h
  · exact of_mem_cop1Words (Q := fun b => kinds (Controls.ofBits b)) (by decide) h
  · exact of_mem (Q := fun _ b => kinds (Controls.ofBits b)) (by decide) h
  · decide

variable {c : Controls} (h : kinds c = true)

include h

theorem not_memRead_of_touches (ht : touches c.aluControl = true) :
    c.memRead = false ∧ c.memWrite = false ∧ c.regWrite = false ∧ c.link = false := by
  simp only [kinds, ht, Bool.not_true, Bool.false_or, Bool.and_eq_true, Bool.not_eq_true'] at h
  obtain ⟨⟨⟨⟨⟨hr, hm⟩, hw⟩, hl⟩, -⟩, -⟩ := h
  exact ⟨hr, hm, hw, hl⟩

theorem not_mem_storeControls (hm : c.memWrite = false) :
    c.aluControl ∉ Mem.storeControls := by
  intro hmem
  simp [kinds, hm, hmem] at h

end Table

section Alu

/-- HI and LO depend on what they were. -/
theorem outs_step {s s' : Alu.State} (h : outs s = outs s') (i : Alu.Inputs) :
    outs (Alu.step i s) = outs (Alu.step i s') := by
  obtain ⟨r, hi, lo⟩ := s
  obtain ⟨r', hi', lo'⟩ := s'
  obtain ⟨rfl, rfl⟩ : hi = hi' ∧ lo = lo' := ⟨congrArg Prod.fst h, congrArg Prod.snd h⟩
  unfold Alu.step
  split <;> first
    | rfl
    | split_ifs <;> rfl

/-- The result of an operation that does not write them does not depend on them. -/
theorem aluResult_step {i : Alu.Inputs} (h : touches i.aluControl = false) (s s' : Alu.State) :
    (Alu.step i s).aluResult = (Alu.step i s').aluResult := by
  unfold Alu.step
  split <;> first
    | rfl
    | rename_i hk
      rw [hk] at h
      exact absurd h (by decide)

end Alu

section Execute

/-- EXE after an instruction. -/
def execute (o : Id.Out) (e : Exe.State) : Exe.State := Exe.posedge o (Exe.negedge o e)

variable {i i' : Id.Inputs} {e e' : Exe.State}

/-- A bubble or an empty slot leaves what EXE keeps. -/
theorem ExeAlike.idle (h : ExeAlike e e') {o : Id.Out} (hpc : o.instr1PcOut = 0)
    (ho : touches o.aluControl1Out = false) : ExeAlike (execute o e) e' := by
  have hpc' : ¬o.instr1PcOut ≠ 0 := not_not_intro hpc
  have houts : Mips.outs (execute o e).alu = Mips.outs e.alu :=
    outs_step_of_not_touches (i := ⟨_, _, _, _, o.aluControl1Out, _⟩) ho e.alu
  exact ⟨(if_neg hpc').trans h.take, (if_neg hpc').trans h.addr, houts.trans h.outs, rfl, h.hiLo'⟩

/-- The ALU is given the same. -/
theorem alu_alike (ho : OutAlike (Id.issue i) (Id.issue i')) (he : ExeAlike e e') :
    Mips.outs (execute (Id.issue i) e).alu = Mips.outs (execute (Id.issue i') e').alu ∧
      (touches i.renameOut.controls.aluControl = false →
        (execute (Id.issue i) e).alu.aluResult = (execute (Id.issue i') e').alu.aluResult) := by
  obtain ⟨hhi, hlo⟩ := Prod.mk.inj (he.hiLo.trans (he.outs.trans he.hiLo'.symm))
  have hin : (⟨e.hi, e.lo, Id.opA1 i, Id.opB1 i, i.renameOut.controls.aluControl,
        i.renameOut.shamt⟩ : Alu.Inputs) =
      ⟨e'.hi, e'.lo, Id.opA1 i', Id.opB1 i', i'.renameOut.controls.aluControl,
        i'.renameOut.shamt⟩ := by
    have ha : Id.opA1 i = Id.opA1 i' := ho.operandA
    have hb : Id.opB1 i = Id.opB1 i' := ho.operandB
    have hc : i.renameOut.controls.aluControl = i'.renameOut.controls.aluControl := ho.aluControl
    have hs : i.renameOut.shamt = i'.renameOut.shamt := ho.shiftAmount
    rw [hhi, hlo, ha, hb, hc, hs]
  have houts := outs_step he.outs ⟨e.hi, e.lo, Id.opA1 i, Id.opB1 i,
    i.renameOut.controls.aluControl, i.renameOut.shamt⟩
  have hresult (ht : touches i.renameOut.controls.aluControl = false) := aluResult_step
    (i := ⟨e.hi, e.lo, Id.opA1 i, Id.opB1 i, i.renameOut.controls.aluControl,
      i.renameOut.shamt⟩) ht e.alu e'.alu
  constructor
  · refine houts.trans ?_
    rw [hin]
    rfl
  · intro ht
    refine (hresult ht).trans ?_
    rw [hin]
    rfl

/-- What the decision and the target of a transfer depend on is the same. -/
theorem requestAltPc1_alike (ho : OutAlike (Id.issue i) (Id.issue i')) :
    Exe.requestAltPc1 (Id.issue i) = Exe.requestAltPc1 (Id.issue i') ∧
      Exe.target (Id.issue i) = Exe.target (Id.issue i') ∧
      Exe.broadcasts (Id.issue i) = Exe.broadcasts (Id.issue i') := by
  have htake : Exe.requestAltPc1 (Id.issue i) = Exe.requestAltPc1 (Id.issue i') := by
    rw [Exe.requestAltPc1, Exe.requestAltPc1, ho.controls, ho.operandA, ho.operandB, ho.instr]
  refine ⟨htake, ?_, ?_⟩
  · rw [Exe.target, Exe.target, ho.controls, ho.operandA, ho.nextAddr]
  · rw [Exe.broadcasts, Exe.broadcasts, htake, ho.controls, ho.regWrFlag, ho.memRead]

/-- **Alike instructions leave alike registers behind.** -/
theorem ExeAlike.execute (he : ExeAlike e e') (ho : OutAlike (Id.issue i) (Id.issue i')) :
    ExeAlike (execute (Id.issue i) e) (execute (Id.issue i') e') := by
  obtain ⟨htake, htarget, -⟩ := requestAltPc1_alike ho
  refine ⟨?_, ?_, (alu_alike ho he).1, rfl, rfl⟩
  · show (if (Id.issue i).instr1PcOut ≠ 0 then Exe.requestAltPc1 (Id.issue i) else e.take) =
      if (Id.issue i').instr1PcOut ≠ 0 then Exe.requestAltPc1 (Id.issue i') else e'.take
    rw [ho.pc, htake, he.take]
  · show (if (Id.issue i).instr1PcOut ≠ 0 then Exe.target (Id.issue i) else e.addr) =
      if (Id.issue i').instr1PcOut ≠ 0 then Exe.target (Id.issue i') else e'.addr
    rw [ho.pc, htarget, he.addr]

/-- An instruction for HI or LO hands nothing on. -/
theorem not_broadcasts_of_touches (hk : kinds i.renameOut.controls = true)
    (ht : touches i.renameOut.controls.aluControl = true) :
    Exe.broadcasts (Id.issue i) = false ∧ (Id.issue i).regWrite1Out = false := by
  obtain ⟨-, -, hw, hl⟩ := not_memRead_of_touches hk ht
  have hwrite : Id.regWrite1 i = false := by rw [Id.regWrite1, hw, Bool.and_false]
  refine ⟨?_, hwrite⟩
  show (Exe.requestAltPc1 (Id.issue i) && i.renameOut.controls.link ||
    Id.regWrite1 i && !i.renameOut.controls.memRead) = false
  rw [hl, hwrite, Bool.and_false, Bool.false_and, Bool.or_false]

/-- **Alike instructions have the same result**, redirect and access. -/
theorem executes_alike (he : ExeAlike e e') (ho : OutAlike (Id.issue i) (Id.issue i'))
    (hk : kinds i.renameOut.controls = true) :
    ResultAlike (execute (Id.issue i) e) (execute (Id.issue i') e') := by
  obtain ⟨-, hresult⟩ := alu_alike ho he
  have hcontrols : i.renameOut.controls = i'.renameOut.controls := ho.controls
  have hidle (i : Id.Inputs) (e : Exe.State) (hr : i.renameOut.controls.memRead = false)
      (hw : i.renameOut.controls.memWrite = false) (hk : kinds i.renameOut.controls = true) :
      Sim.Idle (Mips.execute (Id.issue i) e) := ⟨hr, hw, not_mem_storeControls hk hw⟩
  refine ⟨?_, ?_, fun hflag => ?_, ?_⟩
  · show (if (Id.issue i).instr1PcOut ≠ 0 then e.take else false) =
      if (Id.issue i').instr1PcOut ≠ 0 then e'.take else false
    rw [ho.pc, he.take]
  · show (if (Id.issue i).instr1PcOut ≠ 0 then e.addr else 0) =
      if (Id.issue i').instr1PcOut ≠ 0 then e'.addr else 0
    rw [ho.pc, he.addr]
  · cases ht : touches i.renameOut.controls.aluControl with
    | false => exact hresult ht
    | true =>
      have hno := (not_broadcasts_of_touches hk ht).1
      exact absurd (hflag.symm.trans hno) (by decide)
  · by_cases haccess : i.renameOut.controls.memRead = true ∨ i.renameOut.controls.memWrite = true
    · have ht : touches i.renameOut.controls.aluControl = false := by
        by_contra ht
        obtain ⟨hr, hw, -⟩ := not_memRead_of_touches hk (by simpa using ht)
        rcases haccess with h | h
        · exact absurd (hr.symm.trans h) (by decide)
        · exact absurd (hw.symm.trans h) (by decide)
      exact .inl ⟨ho.memRead, ho.memWrite, ho.aluControl, hresult ht, ho.datum haccess⟩
    · rw [not_or, Bool.not_eq_true, Bool.not_eq_true] at haccess
      obtain ⟨hr, hw⟩ := haccess
      refine .inr ⟨hidle i e hr hw hk, hidle i' e' (hcontrols ▸ hr) (hcontrols ▸ hw)
        (hcontrols ▸ hk), ?_⟩
      show (if Exe.broadcasts (Id.issue i) then false else Id.regWrite1 i) = false
      split_ifs with hb
      · rfl
      · rw [Exe.broadcasts, Bool.or_eq_true, not_or] at hb
        by_contra hwrite
        refine hb.2 ?_
        show (Id.regWrite1 i && !i.renameOut.controls.memRead) = true
        rw [hr, (by simpa using hwrite : Id.regWrite1 i = true)]
        rfl

end Execute

section Issue

variable {env : ℕ → Mips → Input} {n : ℕ}

/-- **What a slot issues is what one would issue that reads the same values** through other
tables, if no store takes a register. -/
theorem issued_alike (v : View) {pc w : Word} {c held : Controls} {t : Tag}
    (hn : n % 4 = 0) (hread : ∀ a, (run env n).regValue a = v.read a)
    (hentry : (run env n).renameQueueOut = Id.renameEntry pc w c) (hc : decode w held = c)
    (hstore : c.memWrite = true → c.regWrite = false) (hmap : t = v.frat (Id.rd w c)) :
    OutAlike (Id.issue (run env n).issueInputs) (v.issue pc w held t t) := by
  have hcontrols : (run env n).issueInputs.renameOut.controls = c :=
    congrArg RenameEntry.controls hentry
  have hrs : (run env n).renameQueueOut.rs = Id.rs w c := congrArg RenameEntry.rs hentry
  have hrt : (run env n).renameQueueOut.rt = Id.rt w c := congrArg RenameEntry.rt hentry
  have hrd : (run env n).renameQueueOut.rd = Id.rd w c := congrArg RenameEntry.rd hentry
  have hopB : (run env n).issueInputs.renameOut.opB = Id.opB pc w c :=
    congrArg RenameEntry.opB hentry
  have hA : Id.opA1 (run env n).issueInputs = v.read (Id.rs w c) := by
    rw [← hread, ← hrs]
    rfl
  have hB : Id.rtRawVal1 (run env n).issueInputs = v.read (Id.rt w c) := by
    rw [← hread, ← hrt]
    rfl
  have hC : c.memRead = true ∨ c.memWrite = true →
      Id.writeRegisterRawVal1 (run env n).issueInputs = v.read (Id.rd w c) := by
    intro haccess
    rw [← hread, ← hrd, Id.writeRegisterRawVal1, hcontrols]
    split_ifs with hload
    · refine congrArg (run env n).physReg.arr ((prepared env hn).entryLoadSpecial ?_)
      exact (congrArg Controls.memRead hcontrols).trans hload
    · -- a store takes no register, and finds its datum under the mapping of rt
      have hmem : c.memWrite = true := haccess.resolve_left hload
      have hbits : (run env n).renameQueueOut.controls = c := hcontrols
      have hal : Rename.allocates (run env n).renameQueueOut = false := by
        rw [Rename.allocates, Rename.idRegWrFlag, hbits, hstore hmem,
          Bool.eq_false_iff.mpr hload]
        rfl
      exact congrArg (run env n).physReg.arr (mapWr_of_not_allocates hal)
  have hwrite : Id.regWrite1 (run env n).issueInputs = (Id.rd w c != 0 && c.regWrite) := by
    rw [Id.regWrite1, hcontrols, ← hrd]
    rfl
  unfold View.issue
  rw [hc, hmap]
  exact {
    instr := congrArg RenameEntry.instr hentry
    pc := congrArg RenameEntry.pc hentry
    operandA := hA
    operandB := by
      show Id.opB1 _ = Id.opB1 _
      rw [Id.opB1, Id.opB1, hcontrols, hB, hopB]
      rfl
    writeRegister := hrd
    regWrite := hwrite
    regWrFlag := hwrite
    aluControl := congrArg Controls.aluControl hcontrols
    memRead := congrArg Controls.memRead hcontrols
    memWrite := congrArg Controls.memWrite hcontrols
    shiftAmount := congrArg RenameEntry.shamt hentry
    controls := hcontrols
    nextAddr := congrArg RenameEntry.nextAddr hentry
    datum := fun h => by
      have haccess : (run env n).issueInputs.renameOut.controls.memRead = true ∨
        (run env n).issueInputs.renameOut.controls.memWrite = true := h
      rw [hcontrols] at haccess
      refine (hC haccess).trans ?_
      show _ = if c.memRead then _ else _
      split_ifs <;> rfl }

end Issue

section Slot

variable {env : ℕ → Mips → Input} {n : ℕ} {e' : Exe.State}

/-- What the falling edge adds is not kept. -/
theorem exeAlike_run (hn : n % 4 = 0) :
    ExeAlike (run env n).exe e' ↔ ExeAlike (exeRun (fun k => (run env k).id.out) n) e' := by
  have hout : (run env n).id.out = 0 := out_of_ne env (by omega)
  have houts : outs (run env n).exe.alu = outs (exeRun (fun k => (run env k).id.out) n).alu := by
    rw [exe_eq_exeRun, hout]
    exact outs_of_control rfl _
  have hhilo := hiLo_exeRun (fun k => (run env k).id.out) n
  rw [exe_eq_exeRun] at houts ⊢
  constructor
  · exact fun h => ⟨h.take, h.addr, houts.symm.trans h.outs, hhilo, h.hiLo'⟩
  · exact fun h => ⟨h.take, h.addr, houts.trans h.outs, hhilo.trans houts.symm, h.hiLo'⟩

/-- EXE over the four cycles of a slot. -/
theorem exeRun_four (hn : n % 4 = 0) : exeRun (fun k => (run env k).id.out) (n + 4) =
    execute 0 (execute 0 (execute (issued env n)
      (execute 0 (exeRun (fun k => (run env k).id.out) n)))) := by
  have h0 : (run env n).id.out = 0 := out_of_ne env (by omega)
  have h2 : (run env (n + 2)).id.out = 0 := out_of_ne env (by omega)
  have h3 : (run env (n + 3)).id.out = 0 := out_of_ne env (by omega)
  show execute (run env (n + 3)).id.out (execute (run env (n + 2)).id.out
    (execute (run env (n + 1)).id.out (execute (run env n).id.out _))) = _
  rw [h0, h2, h3]
  rfl

/-- **A slot that issues nothing** leaves what EXE keeps. -/
theorem ExeAlike.bubble (h : ExeAlike (run env n).exe e') (hn : n % 4 = 0)
    (hpc : (issued env n).instr1PcOut = 0)
    (ho : touches (issued env n).aluControl1Out = false) : ExeAlike (run env (n + 4)).exe e' := by
  rw [exeAlike_run (by omega), exeRun_four hn]
  rw [exeAlike_run hn] at h
  exact (((h.idle rfl rfl).idle hpc ho).idle rfl rfl).idle rfl rfl

/-- The falling edge leaves the registers between EXE and MEM. -/
theorem ResultAlike.negedge {e : Exe.State} (h : ResultAlike e e') (o : Id.Out) :
    ResultAlike (Exe.negedge o e) e' := by
  refine ⟨h.requestAltPc, h.altAddr, h.broadcastVal, ?_⟩
  rcases h.access with ha | ⟨hi, hi', hw⟩
  · exact .inl ⟨ha.memRead, ha.memWrite, ha.aluControl, ha.aluResult, ha.memWriteData⟩
  · exact .inr ⟨⟨hi.memRead, hi.memWrite, hi.aluControl⟩, hi', hw⟩

/-- **A slot that issues an instruction** leaves what an alike one leaves elsewhere, and
its result. -/
theorem ExeAlike.slot (h : ExeAlike (run env n).exe e') (hn : n % 4 = 0) {i' : Id.Inputs}
    (ho : OutAlike (Id.issue (run env n).issueInputs) (Id.issue i'))
    (hk : kinds (run env n).renameQueueOut.controls = true) :
    ExeAlike (run env (n + 4)).exe (Mips.execute (Id.issue i') e') ∧
      ResultAlike (run env (n + 2)).exe (Mips.execute (Id.issue i') e') := by
  rw [exeAlike_run hn] at h
  have hbefore := h.idle (o := 0) rfl rfl
  constructor
  · rw [exeAlike_run (by omega), exeRun_four hn, issued_eq env hn]
    exact ((hbefore.execute ho).idle rfl rfl).idle rfl rfl
  · have hout : (run env n).id.out = 0 := out_of_ne env (by omega)
    have hstep : exeRun (fun k => (run env k).id.out) (n + 2) =
        Mips.execute (issued env n) (Mips.execute (run env n).id.out
          (exeRun (fun k => (run env k).id.out) n)) := rfl
    rw [exe_eq_exeRun, hstep, hout, issued_eq env hn]
    exact (executes_alike hbefore ho hk).negedge _

/-- What ID makes of a word of zeros at address 0 does nothing. -/
structure Nothing (e : RenameEntry) : Prop where
  pc : e.pc = 0
  allocates : Rename.allocates e = false
  syscall : e.controls.syscall = false
  memRead : e.controls.memRead = false
  memWrite : e.controls.memWrite = false
  touches : Mips.touches e.controls.aluControl = false
  control : e.controls.aluControl ∉ Mem.storeControls

theorem nothing_of_item (h : item (run env n).renameQueueOut = 0) :
    Nothing (run env n).renameQueueOut := by
  refine entry_of_decode env (S := fun _ => True) (P := fun e => item e = 0 → Nothing e) trivial
    (fun _ => trivial) (fun _ => ?_) (fun pc w c _ _ hitem => ?_) n h
  · exact ⟨rfl, rfl, rfl, rfl, rfl, by decide, by decide⟩
  · obtain ⟨rfl, rfl⟩ : pc = 0 ∧ w = 0 := ⟨congrArg Prod.fst hitem, congrArg Prod.snd hitem⟩
    rw [decode_of_table table_zero]
    exact ⟨rfl, by decide, by decide, by decide, by decide, by decide, by decide⟩

end Slot

end Mips
end OooProcessor
