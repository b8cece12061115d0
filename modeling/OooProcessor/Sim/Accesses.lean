/-
# What an instruction asks of the memory

`main` carries the instruction in EXE's registers out twice, once before each edge, and MEM
drives `data_write_2DM` again in between.  That makes no difference (`cycle_eq`), so that the
cycle of an instruction is a function of what it asks for (`Asks`), of the memory, of
`data_read_fDM` and of the bits left on `data_write_2DM` (`Same`).
-/

import OooProcessor.Sim.Memory

namespace OooProcessor

namespace Mem

/-- The controls of the stores. -/
def storeControls : List (BitVec 6) :=
  [0b101111, 0b110000, 0b110001, 0b110110, 0b110010, 0b110011]

/-- Nothing else drives `data_write_2DM`. -/
theorem dataWrite2DM_of_not_mem {k : BitVec 6} (hk : k ∉ storeControls) (a m d held : Word) :
    (access k a m d held).dataWrite2DM = held := by
  unfold access
  split <;> first
    | rfl
    | exact absurd (by decide) hk

/-- What is driven does not depend on the bits it replaces. -/
theorem access_latched (k : BitVec 6) (a m d held : Word) :
    access k a m d (access k a m d held).dataWrite2DM = access k a m d held := by
  have hoffset : ∀ x : BitVec 2, x = 0 ∨ x = 1 ∨ x = 2 ∨ x = 3 := by decide
  have hleft {i j : ℕ} (x : BitVec i) (y : BitVec j) : (x ++ y).extractLsb' j i = x :=
    BitVec.extractLsb'_append_eq_left
  by_cases hk : k ∈ storeControls
  · simp only [storeControls, List.mem_cons, List.not_mem_nil, or_false] at hk
    rcases hk with rfl | rfl | rfl | rfl | rfl | rfl
    · exact congrArg (fun x => Access.mk m a (x ++ m.extractLsb' 0 8) 1) (hleft ..)
    · exact congrArg (fun x => Access.mk m a (x ++ m.extractLsb' 0 16) 2) (hleft ..)
    · rfl
    · rfl
    · rcases hoffset (a.extractLsb' 0 2) with h | h | h | h
      · unfold access; rw [h]; rfl
      · unfold access; rw [h]
        exact congrArg (fun x => Access.mk m a (x ++ m.extractLsb' 8 24) 3) (hleft ..)
      · unfold access; rw [h]
        exact congrArg (fun x => Access.mk m a (x ++ m.extractLsb' 16 16) 2) (hleft ..)
      · unfold access; rw [h]
        exact congrArg (fun x => Access.mk m a (x ++ m.extractLsb' 24 8) 1) (hleft ..)
    · rcases hoffset (a.extractLsb' 0 2) with h | h | h | h
      · unfold access; rw [h]
        exact congrArg (fun x => Access.mk m (memReadAddress a) (x ++ m.extractLsb' 0 8) 1)
          (hleft ..)
      · unfold access; rw [h]
        exact congrArg (fun x => Access.mk m (memReadAddress a) (x ++ m.extractLsb' 0 16) 2)
          (hleft ..)
      · unfold access; rw [h]
        exact congrArg (fun x => Access.mk m (memReadAddress a) (x ++ m.extractLsb' 0 24) 3)
          (hleft ..)
      · unfold access; rw [h]; rfl
  · rw [dataWrite2DM_of_not_mem hk]

end Mem

namespace Sim

open Mem

/-- Memory, `data_read_fDM` and the bits on `data_write_2DM` are the same. -/
structure Same (s s' : State) : Prop where
  mainMemory : s.mainMemory = s'.mainMemory
  dataReadFDM : s.dataReadFDM = s'.dataReadFDM
  dataWrite2DM : s.mem.dataWrite2DM = s'.mem.dataWrite2DM

/-- Two instructions ask for the same access. -/
structure Asks (e e' : Exe.State) : Prop where
  memRead : e.memRead1Out = e'.memRead1Out
  memWrite : e.memWrite1Out = e'.memWrite1Out
  aluControl : e.aluControl1Out = e'.aluControl1Out
  aluResult : e.aluResult1Out = e'.aluResult1Out
  memWriteData : e.memWriteData1Out = e'.memWriteData1Out

/-- An instruction asks for no access. -/
structure Idle (e : Exe.State) : Prop where
  memRead : e.memRead1Out = false
  memWrite : e.memWrite1Out = false
  aluControl : e.aluControl1Out ∉ storeControls

variable {e e' : Exe.State} {s s' : State}

theorem Same.symm (h : Same s s') : Same s' s :=
  ⟨h.mainMemory.symm, h.dataReadFDM.symm, h.dataWrite2DM.symm⟩

theorem Same.trans {t : State} (h : Same s s') (h' : Same s' t) : Same s t :=
  ⟨h.mainMemory.trans h'.mainMemory, h.dataReadFDM.trans h'.dataReadFDM,
    h.dataWrite2DM.trans h'.dataWrite2DM⟩

/-- The evaluation on the falling edge changes nothing that the accesses read. -/
theorem accessOf_evalFalling (e : Exe.State) (d : Word) (s : State) :
    accessOf e d { s.mem with dataWrite2DM := (accessOf e s.dataReadFDM s.mem).dataWrite2DM } =
      accessOf e d s.mem := by
  have hdrive (d : Word) : (accessOf e s.dataReadFDM s.mem).dataWrite2DM =
      (accessOf e d s.mem).dataWrite2DM := by
    unfold accessOf access
    split <;> rfl
  show access _ _ _ d (accessOf e s.dataReadFDM s.mem).dataWrite2DM = _
  rw [hdrive d]
  exact access_latched ..

/-- **A cycle is two passes and the rising edge.** -/
theorem cycle_eq (e : Exe.State) (s : State) :
    cycle e s = evalRising e (memoryAccesses e (memoryAccesses e s)) := by
  generalize hu : memoryAccesses e s = u
  have hpass : memoryAccesses e (evalFalling e u) =
      { memoryAccesses e u with mem := (evalFalling e u).mem } := by
    have hacc := accessOf_evalFalling e u.dataReadFDM u
    unfold memoryAccesses dataAddress2DM
    rw [show accessOf e (evalFalling e u).dataReadFDM (evalFalling e u).mem = _ from hacc]
    rfl
  have hedge : Mem.posedge e (memoryAccesses e u).dataReadFDM (evalFalling e u).mem =
      Mem.posedge e (memoryAccesses e u).dataReadFDM u.mem := by
    have hacc := accessOf_evalFalling e (memoryAccesses e u).dataReadFDM u
    unfold Mem.posedge writeData1
    rw [show accessOf e _ (evalFalling e u).mem = _ from hacc]
  show evalRising e (memoryAccesses e (evalFalling e (memoryAccesses e s))) = _
  rw [hu, hpass]
  exact congrArg (State.mk _ _) hedge

/-- **The second pass repeats the store of the first.** -/
theorem mainMemory_memoryAccesses (e : Exe.State) (s : State) :
    (memoryAccesses e (memoryAccesses e s)).mainMemory = (memoryAccesses e s).mainMemory := by
  have hdrive (k : BitVec 6) (a m d held : Word) :
      (access k a m d held).dataWrite2DM = (access k a m 0 held).dataWrite2DM ∧
        (access k a m d held).memWriteAddress = (access k a m 0 held).memWriteAddress ∧
        (access k a m d held).dataWriteSize2DM = (access k a m 0 held).dataWriteSize2DM := by
    unfold access
    split <;> exact ⟨rfl, rfl, rfl⟩
  have hpass (s : State) : (memoryAccesses e s).mainMemory =
      if e.memWrite1Out = true then
        writeAccess s.mainMemory (accessOf e 0 s.mem).memWriteAddress
          (accessOf e 0 s.mem).dataWriteSize2DM (accessOf e 0 s.mem).dataWrite2DM
      else s.mainMemory := by
    obtain ⟨hdata, haddress, hsize⟩ := hdrive e.aluControl1Out e.aluResult1Out
      e.memWriteData1Out s.dataReadFDM s.mem.dataWrite2DM
    show (if e.memWrite1Out = true then writeAccess s.mainMemory
      (if e.memWrite1Out = true then (accessOf e s.dataReadFDM s.mem).memWriteAddress else _)
      (accessOf e s.dataReadFDM s.mem).dataWriteSize2DM
      (accessOf e s.dataReadFDM s.mem).dataWrite2DM else s.mainMemory) = _
    unfold accessOf
    rw [hdata, haddress, hsize]
    split_ifs <;> rfl
  rw [hpass (memoryAccesses e s), hpass s]
  split_ifs
  · show writeAccess (writeAccess _ _ _ _) (accessOf e 0 s.mem).memWriteAddress
      (accessOf e 0 s.mem).dataWriteSize2DM (accessOf e 0 s.mem).dataWrite2DM = _
    rw [writeAccess_eq, writeAccess_eq]
    exact Lib.put_put_self
  · rfl

/-- What a pass does to the memory. -/
theorem Same.memoryAccesses (h : Same s s') (he : Asks e e') :
    Same (memoryAccesses e s) (memoryAccesses e' s') := by
  have hacc : accessOf e s.dataReadFDM s.mem = accessOf e' s'.dataReadFDM s'.mem := by
    rw [accessOf, accessOf, he.aluControl, he.aluResult, he.memWriteData, h.dataReadFDM,
      h.dataWrite2DM]
  have haddr : dataAddress2DM e s.dataReadFDM s.mem = dataAddress2DM e' s'.dataReadFDM s'.mem := by
    rw [dataAddress2DM, dataAddress2DM, hacc, he.memWrite, he.aluResult]
  refine ⟨?_, ?_, h.dataWrite2DM⟩
  · show (if e.memWrite1Out = true then writeAccess s.mainMemory _ _ _ else s.mainMemory) =
      if e'.memWrite1Out = true then writeAccess s'.mainMemory _ _ _ else s'.mainMemory
    rw [haddr, hacc, he.memWrite, h.mainMemory]
  · show (if e.memRead1Out = true then readWord s.mainMemory _ else s.dataReadFDM) =
      if e'.memRead1Out = true then readWord s'.mainMemory _ else s'.dataReadFDM
    rw [haddr, he.memRead, h.mainMemory, h.dataReadFDM]

/-- **Cycles that ask for the same do the same**, and hand the same on to the registers. -/
theorem Same.cycle (h : Same s s') (he : Asks e e') : Same (cycle e s) (cycle e' s') ∧
    (Sim.cycle e s).mem.writeData1Out = (Sim.cycle e' s').mem.writeData1Out := by
  have h2 := (h.memoryAccesses he).memoryAccesses he
  have hacc : accessOf e (Sim.memoryAccesses e (Sim.memoryAccesses e s)).dataReadFDM
        (Sim.memoryAccesses e (Sim.memoryAccesses e s)).mem =
      accessOf e' (Sim.memoryAccesses e' (Sim.memoryAccesses e' s')).dataReadFDM
        (Sim.memoryAccesses e' (Sim.memoryAccesses e' s')).mem := by
    rw [accessOf, accessOf, he.aluControl, he.aluResult, he.memWriteData, h2.dataReadFDM,
      h2.dataWrite2DM]
  rw [cycle_eq, cycle_eq]
  refine ⟨⟨h2.mainMemory, h2.dataReadFDM, congrArg Access.dataWrite2DM hacc⟩, ?_⟩
  show (if e.memRead1Out = true then _ else e.aluResult1Out) =
    if e'.memRead1Out = true then _ else e'.aluResult1Out
  rw [hacc, he.memRead, he.aluResult]

/-- **A cycle that asks for nothing leaves all that accesses read.** -/
theorem Idle.cycle (h : Idle e) (s : State) : Same (Sim.cycle e s) s := by
  have hpass (s : State) : Sim.memoryAccesses e s = s := by
    unfold Sim.memoryAccesses
    rw [h.memRead, h.memWrite]
    rfl
  rw [cycle_eq, hpass, hpass]
  exact ⟨rfl, rfl, dataWrite2DM_of_not_mem h.aluControl ..⟩

end Sim
end OooProcessor
