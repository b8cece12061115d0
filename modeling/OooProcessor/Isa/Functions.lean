/-
# The functions that `main` writes

`fill_syscall_redirects` writes over functions of the C library: a system call over those of
the operating system, and a load and a store over the two that update a word atomically,
since LL and SC are not emulated.  In MIPS they do what they stand for and return
(`stub_returns`, `adding_returns`); so an image that `LoadOSMemoryELF` has loaded finds its
system calls there (`function_returns`), and its atomic functions (`atomics_return`).
-/

import OooProcessor.Isa.Runs
import OooProcessor.Sim.Patching

namespace OooProcessor
namespace Isa

open Decoder Lib Mips Sim

variable {ω : Type*} {handler : Handler ω} {s t : State ω} {w : Word}

section Step

theorem State.step_eq {i : Instr} (hw : s.word = w) (hi : instrOf w = some i) :
    s.step handler = i.exec handler s := by
  rw [State.step, hw, hi]

theorem step_arith {op : ArithOp} (hw : s.word = w) (hi : instrOf w = some (.arith op)) :
    s.step handler = s.next.write (op.form.destination w) (op.result w
      (s.registers.val (regField w 21)) (s.registers.val (regField w 16))) := by
  rw [State.step_eq hw hi, Instr.exec, State.rs, State.rt, hw]

/-- An address without an offset. -/
theorem address_of_offset (hw : s.word = w) (hoff : w.extractLsb' 0 16 = 0) :
    s.address = s.registers.val (regField w 21) := by
  rw [State.address, State.rs, hw, hoff]
  exact BitVec.add_zero _

theorem step_lw (hw : s.word = w) (hi : instrOf w = some (.memory .lw))
    (hoff : w.extractLsb' 0 16 = 0) : s.step handler =
    s.next.write (regField w 16) (readWord s.memory (s.registers.val (regField w 21))) := by
  rw [State.step_eq hw hi, Instr.exec, if_neg (by decide), address_of_offset hw hoff, hw,
    readWord_eq]
  rfl

theorem step_sw (hw : s.word = w) (hi : instrOf w = some (.memory .sw))
    (hoff : w.extractLsb' 0 16 = 0) : s.step handler =
    { s.next with
      memory := writeWord s.memory (s.registers.val (regField w 21))
        (s.registers.val (regField w 16)) } := by
  rw [State.step_eq hw hi, Instr.exec, if_pos (by decide), address_of_offset hw hoff, State.rt, hw,
    writeWord_eq]
  rfl

/-- A word of zeros. -/
theorem step_nop (hw : s.word = 0) : s.step handler = s.next := by
  rw [State.step_eq hw (i := .shift .sll) rfl, Instr.exec, hw]
  rfl

/-- `jr $31` -/
theorem step_jr (hw : s.word = 0x03e00008) :
    s.step handler = { s.next with npc := s.registers.val 31, inSlot := true } := by
  rw [State.step_eq hw (i := .transfer .jr) rfl, Instr.exec, State.rs, hw]
  rfl

theorem step_syscall (hw : s.word = 0xc) : s.step handler =
    { s.next with
      registers := s.registers.writeAll (handler s.registers.val s.memory s.os).1
      memory := (handler s.registers.val s.memory s.os).2.1
      os := (handler s.registers.val s.memory s.os).2.2 } := by
  rw [State.step_eq hw (i := .syscall) rfl, Instr.exec]

end Step

/-- The state in which a function has returned. -/
def State.returned (s : State ω) (registers : Registers) (m : MainMemory) (os : ω) : State ω where
  pc := s.registers.val 31
  npc := s.registers.val 31 + 4
  inSlot := false
  registers := registers
  hiLo := s.hiLo
  memory := m
  os := os

/-- Control is at word `k` of a function at an address, and behind no transfer. -/
structure Inside (ws : List Word) (a : Word) (k : ℕ) (s : State ω) : Prop where
  pc : s.pc = a + BitVec.ofNat 32 (4 * k)
  npc : s.npc = a + BitVec.ofNat 32 (4 * (k + 1))
  inSlot : s.inSlot = false
  stands : Stands s.memory a ws

namespace Inside

variable {ws : List Word} {a : Word} {k : ℕ} (h : Inside ws a k s)

include h

theorem word (hk : k < ws.length) : s.word = ws.getD k 0 := by
  rw [State.word, h.pc]
  exact h.stands k hk

/-- **The next word.** -/
theorem next (hstep : s.step handler = t) (hpc : t.pc = s.npc) (hnpc : t.npc = s.npc + 4)
    (hslot : t.inSlot = false) (hs : Stands t.memory a ws) :
    Leads handler 1 1 s t ∧ Inside ws a (k + 1) t := by
  refine ⟨.one hstep ?_, hpc.trans h.npc, ?_, hslot, hs⟩
  · rw [h.inSlot]
    rfl
  · rw [hnpc, h.npc, Nat.mul_succ 4 (k + 1), BitVec.ofNat_add, ← BitVec.add_assoc]
    rfl

/-- **`jr $31`**, with a delay slot that writes a register. -/
theorem returns (hk : k + 1 < ws.length) (hjr : ws.getD k 0 = 0x03e00008) {r : Reg} {v : Word}
    (hslot : ∀ t : State ω, t.word = ws.getD (k + 1) 0 → t.registers = s.registers →
      t.step handler = t.next.write r v) :
    Leads handler 2 3 s (s.returned (s.registers.write r v) s.memory s.os) := by
  have hword : readWord s.memory s.npc = ws.getD (k + 1) 0 := by
    rw [h.npc]
    exact h.stands (k + 1) hk
  let t : State ω := { s.next with npc := s.registers.val 31, inSlot := true }
  have hstep : s.step handler = t := step_jr ((h.word (Nat.lt_of_succ_lt hk)).trans hjr)
  have hjump : Leads handler 1 1 s t := .one hstep (by rw [h.inSlot]; rfl)
  exact hjump.trans (.one (hslot t hword rfl) rfl)

end Inside

section Adding

/-- What `fill_ex_and_add` and `fill_atomic_add` write, with a register for the sum. -/
def adding (r : Reg) : List Word :=
  [0x8c820000, 0x00000000, 0x00a20021 ||| BitVec.ofNat 32 (2 ^ 11 * r),
    0xac800000 ||| BitVec.ofNat 32 (2 ^ 16 * r), 0x03e00008,
    0x24000001 ||| BitVec.ofNat 32 (2 ^ 16 * r)]

theorem adding_three : adding 3 = exAndAdd := rfl

theorem adding_two : adding 2 = atomicAdd := rfl

theorem adding_sum (r : Reg) :
    instrOf ((adding r).getD 2 0) = some (.arith .addu) ∧
      (ArithOp.form .addu).destination ((adding r).getD 2 0) = r ∧
      regField ((adding r).getD 2 0) 21 = 5 ∧ regField ((adding r).getD 2 0) 16 = 2 := by
  decide +revert

theorem adding_store (r : Reg) :
    instrOf ((adding r).getD 3 0) = some (.memory .sw) ∧
      ((adding r).getD 3 0).extractLsb' 0 16 = 0 ∧
      regField ((adding r).getD 3 0) 21 = 4 ∧ regField ((adding r).getD 3 0) 16 = r := by
  decide +revert

theorem adding_one (r : Reg) :
    instrOf ((adding r).getD 5 0) = some (.arith .addiu) ∧
      (ArithOp.form .addiu).destination ((adding r).getD 5 0) = r ∧
      ((adding r).getD 5 0).extractLsb' 0 16 = 1 ∧ regField ((adding r).getD 5 0) 21 = 0 := by
  decide +revert

/-- The word that a function adds to. -/
def State.counter (s : State ω) : Word := readWord s.memory (s.registers.val 4)

/-- The memory with `$5` added to the word at `$4`. -/
def State.added (s : State ω) : MainMemory :=
  writeWord s.memory (s.registers.val 4) (s.registers.val 5 + s.counter)

variable {r : Reg} {a : Word}

/-- **A word is added to**: `$2` gets the word at `$4`, which gets `$5` more, and the register
of the sum is left with 1. -/
theorem adding_returns (h : Inside (adding r) a 0 s) (hr : r ≠ 0) (hr4 : r ≠ 4) (hr31 : r ≠ 31)
    (hkept : Stands s.added a (adding r)) :
    Leads handler 6 7 s
      (s.returned ((s.registers.write 2 s.counter).write r 1) s.added s.os) := by
  have hlen : (adding r).length = 6 := rfl
  obtain ⟨hsum, hdst, hsum21, hsum16⟩ := adding_sum r
  obtain ⟨hsw, hoff, hsw21, hsw16⟩ := adding_store r
  obtain ⟨hli, hone, himm, hli21⟩ := adding_one r
  let t₁ := s.next.write 2 s.counter
  let t₂ := t₁.next
  let t₃ := t₂.next.write r (s.registers.val 5 + s.counter)
  let t₄ := { t₃.next with memory := s.added }
  have hval {j : Reg} (hj : j ≠ 2) : t₁.registers.val j = s.registers.val j := by
    show (s.registers.write 2 s.counter).val j = _
    rw [Registers.val_write_of_ne _ _ (by decide), if_neg hj]
  have hval' (j : Reg) : t₃.registers.val j =
      if j = r then s.registers.val 5 + s.counter else t₁.registers.val j :=
    Registers.val_write_of_ne _ _ hr
  have hlw : s.word = 0x8c820000 := h.word (by omega)
  have hstep : s.step handler = t₁ := step_lw hlw rfl rfl
  obtain ⟨e₁, h₁⟩ := h.next hstep rfl rfl rfl h.stands
  have hstep : t₁.step handler = t₂ := step_nop (h₁.word (by omega))
  obtain ⟨e₂, h₂⟩ := h₁.next hstep rfl rfl rfl h.stands
  have hstep : t₂.step handler = t₃ := by
    rw [step_arith (h₂.word (by omega)) hsum, hdst, hsum21, hsum16]
    rfl
  obtain ⟨e₃, h₃⟩ := h₂.next hstep rfl rfl rfl h.stands
  have hstep : t₃.step handler = t₄ := by
    rw [step_sw (h₃.word (by omega)) hsw hoff, hsw21, hsw16, hval', hval', if_pos rfl,
      if_neg hr4.symm, hval (by decide)]
    rfl
  obtain ⟨e₄, h₄⟩ := h₃.next hstep rfl rfl rfl hkept
  have hslot (t : State ω) (hw : t.word = (adding r).getD 5 0) :
      t.step handler = t.next.write r 1 := by
    rw [step_arith hw hli, hone, hli21, t.registers.zero]
    show t.next.write r (0 + (((adding r).getD 5 0).extractLsb' 0 16).signExtend 32) = _
    rw [himm]
    rfl
  have hreturns := h₄.returns (by omega) rfl fun t hw _ => hslot t hw
  have hregs : t₄.registers.write r 1 = (s.registers.write 2 s.counter).write r 1 :=
    Registers.write_write ..
  have h31 : t₄.registers.val 31 = s.registers.val 31 := by
    rw [show t₄.registers.val 31 = t₃.registers.val 31 from rfl, hval', if_neg hr31.symm,
      hval (by decide)]
  rw [hregs, State.returned, h31] at hreturns
  exact (((e₁.trans e₂).trans e₃).trans e₄).trans hreturns

end Adding

section Stub

variable {a : Word}

theorem instrOf_addiu (h : opcode w = 0b001001) : instrOf w = some (.arith .addiu) := by
  simp [instrOf, instructions, Instr.encodes, ArithOp.form, Form.encodes, h]

theorem stub_li (call : BitVec 16) :
    instrOf ((stub call).getD 0 0) = some (.arith .addiu) ∧
      (ArithOp.form .addiu).destination ((stub call).getD 0 0) = 2 ∧
      ((stub call).getD 0 0).extractLsb' 0 16 = call ∧ regField ((stub call).getD 0 0) 21 = 0 := by
  exact ⟨instrOf_addiu (opcode_or _ _), regField_or _ _ le_rfl, extractLsb'_or_low rfl _,
    regField_or _ _ (by decide)⟩

/-- Registers that are not written. -/
theorem val_writeAll_of_ne {ws : List (Reg × Word)} {r : Reg} (h : ∀ w ∈ ws, w.1 ≠ r)
    (regs : Registers) : (regs.writeAll ws).val r = regs.val r := by
  induction ws generalizing regs with
  | nil => rfl
  | cons w ws ih =>
    have hne := h w (List.mem_cons_self ..)
    have htail := ih (fun w' hw' => h w' (List.mem_cons_of_mem _ hw')) (regs.write w.1 w.2)
    refine htail.trans ?_
    by_cases hzero : w.1 = 0
    · rw [hzero, Registers.write_zero]
    · rw [Registers.val_write_of_ne _ _ hzero, if_neg hne.symm]

/-- The registers with the number of a call in `$2`. -/
def State.calling (s : State ω) (call : BitVec 16) : Registers :=
  s.registers.write 2 (call.signExtend 32)

/-- **A system call is made** with its number in `$2`, and control returns with what it
answers. -/
theorem stub_returns {call : BitVec 16} (h : Inside (stub call) a 0 s)
    {r : List (Reg × Word) × MainMemory × ω}
    (hr : handler (s.calling call).val s.memory s.os = r) (h31 : ∀ w ∈ r.1, w.1 ≠ 31)
    (hkept : Stands r.2.1 a (stub call)) :
    Leads handler 4 5 s (s.returned ((s.calling call).writeAll r.1) r.2.1 r.2.2) := by
  have hlen : (stub call).length = 4 := rfl
  obtain ⟨hli, hdst, himm, hli21⟩ := stub_li call
  let t₁ := s.next.write 2 (call.signExtend 32)
  let t₂ := { t₁.next with registers := t₁.registers.writeAll r.1, memory := r.2.1, os := r.2.2 }
  have hstep : s.step handler = t₁ := by
    rw [step_arith (h.word (by omega)) hli, hdst, hli21, s.registers.zero]
    show s.next.write 2 (0 + (((stub call).getD 0 0).extractLsb' 0 16).signExtend 32) = t₁
    rw [himm]
    exact congrArg (s.next.write 2) (BitVec.zero_add _)
  obtain ⟨e₁, h₁⟩ := h.next hstep rfl rfl rfl h.stands
  have hstep : t₁.step handler = t₂ := by
    rw [step_syscall (h₁.word (by omega)),
      show handler t₁.registers.val t₁.memory t₁.os = r from hr]
  obtain ⟨e₂, h₂⟩ := h₁.next hstep rfl rfl rfl hkept
  have hslot (t : State ω) (hw : t.word = 0) : t.step handler = t.next.write 0 0 := step_nop hw
  have hreturns := h₂.returns (by omega) rfl fun t hw _ => hslot t hw
  have h31' : t₂.registers.val 31 = s.registers.val 31 := by
    rw [show t₂.registers = (s.calling call).writeAll r.1 from rfl, val_writeAll_of_ne h31,
      State.calling, Registers.val_write_of_ne _ _ (by decide), if_neg (by decide)]
  rw [State.returned, h31'] at hreturns
  exact (e₁.trans e₂).trans hreturns

end Stub

section Loaded

/-- Control comes to an address, behind no transfer. -/
structure Enters (s : State ω) (a : Word) : Prop where
  pc : s.pc = a
  npc : s.npc = a + 4
  inSlot : s.inSlot = false

/-- Two memories have the same bytes from an address on. -/
def SameBytes (m m' : MainMemory) (a : Word) (n : ℕ) : Prop :=
  ∀ k < n, m' (a + BitVec.ofNat 32 k) = m (a + BitVec.ofNat 32 k)

variable {ws : List Word} {a : Word} {m m' : MainMemory}

theorem stands_of_sameBytes (h : Stands m a ws) (hm : SameBytes m m' a (4 * ws.length)) :
    Stands m' a ws := by
  rw [stands_iff] at h ⊢
  exact fun i hi => (hm i hi).trans (h i hi)

theorem Enters.inside (h : Enters s a) (hs : Stands m a ws)
    (hm : SameBytes m s.memory a (4 * ws.length)) : Inside ws a 0 s :=
  ⟨h.pc.trans (BitVec.add_zero a).symm, h.npc, h.inSlot, stands_of_sameBytes hs hm⟩

/-- A block of words. -/
theorem stands_put (h : 4 * ws.length ≤ 2 ^ 32) :
    Stands (put m a (4 * ws.length) (wordsByte ws)) a ws := by
  rw [stands_iff]
  exact fun i hi => put_add hi h

/-- A block elsewhere. -/
theorem stands_put_of_far {b : Word} {n : ℕ} {byte : ℕ → BitVec 8} (h : Stands m a ws)
    (hfar : ∀ k < 4 * ws.length, n ≤ (a + BitVec.ofNat 32 k - b).toNat) :
    Stands (put m b n byte) a ws := by
  rw [stands_iff] at h ⊢
  exact fun i hi => (put_of_le (hfar i hi)).trans (h i hi)

section Functions

/-- The case of the switch that a function asks for. -/
def syscallOf : OsFunction → Syscall
  | .uname => .uname
  | .libcMalloc => .malloc
  | .cfree => .munmap
  | .fxstat64 => .fStat
  | .mmap => .mMap
  | .munmap => .munmap
  | .libcWrite => .writeToFile
  | .libcRead => .readFile
  | .libcOpen => .openFile

theorem lookup_call (f : OsFunction) :
    syscalls.lookup (f.call.signExtend 32) = some (syscallOf f) := by
  cases f <;> rfl

variable {emulateLLSC : Bool} {d : ElfData} {l : Loaded} {f : OsFunction} {i : ℕ}
  {exec : ExecInfo} {host : HostCalls} {s : State Os} {r : Reply}

/-- **A function of the operating system** whose address is kept calls `main`, and returns
what the switch answers, in five slots. -/
theorem function_returns (hap : Apart emulateLLSC d)
    (hload : loadOSMemoryELF emulateLLSC d m = .ok l) (hwrap : NoWrap emulateLLSC d)
    (hdef : Defines d i f.name a) (hlast : f.Shared → f = .libcWrite ∧ LastShared d i)
    (hs : Enters s a) (hm : SameBytes l.mainMemory s.memory a 16) (hended : s.os.ended = none)
    (hr : (syscallOf f).reply exec host (s.calling f.call).val s.memory s.os = .ok r)
    (hkept : SameBytes l.mainMemory r.2.1 a 16) :
    Leads (switch exec host) 4 5 s
      (s.returned ((s.calling f.call).writeAll r.1) r.2.1 r.2.2) := by
  have haddr := address_eq hap hload hdef fun h => (hlast h).2
  have hstands := stands_of_address hap hload hwrap hdef haddr
    (mem_redirects emulateLLSC f fun h => (hlast h).1)
  have htwo : (s.calling f.call).val 2 = f.call.signExtend 32 := by
    rw [State.calling, Registers.val_write_of_ne _ _ (by decide), if_pos rfl]
  have hswitch : switch exec host (s.calling f.call).val s.memory s.os = r :=
    switch_of_reply hended (htwo ▸ lookup_call f) hr
  refine stub_returns (hs.inside hstands hm) hswitch (fun w hw => ?_)
    (stands_of_sameBytes hstands hkept)
  rw [← hswitch] at hw
  rcases switch_writes w hw with h | h | h <;> rw [h] <;> decide

end Functions

section Atomics

variable {d : ElfData} {l : Loaded} {i i' : ℕ} {c c' : Word}

/-- The atomic functions in memory. -/
theorem stands_atomics (hload : loadOSMemoryELF true d m = .ok l)
    (hdef : LastDefines d i "_ZN9__gnu_cxx18__exchange_and_addEPVii" c)
    (hdef' : LastDefines d i' "_ZN9__gnu_cxx12__atomic_addEPVii" c')
    (hfar : ∀ k < 24, 24 ≤ (c + BitVec.ofNat 32 k - c').toNat) :
    Stands l.mainMemory c (adding 3) ∧ Stands l.mainMemory c' (adding 2) := by
  have haddr : l.syscalls .cxxExAndAdd = c := atomic_address hload (e := (_, _)) (by decide) hdef
  have haddr' : l.syscalls .cxxAtomicAdd = c' :=
    atomic_address hload (e := (_, _)) (by decide) hdef'
  obtain ⟨-, hmem⟩ := loadOSMemoryELF_ok hload
  rw [redirects, if_pos rfl, List.map_append, patchAll_append] at hmem
  subst haddr haddr'
  rw [hmem, adding_three, adding_two]
  exact ⟨stands_put_of_far (stands_put (by decide)) hfar, stands_put (by decide)⟩

/-- **The atomic functions of an image** exchange and add, and add, and return in seven slots,
if the one is not written over the other. -/
theorem atomics_return (hload : loadOSMemoryELF true d m = .ok l)
    (hdef : LastDefines d i "_ZN9__gnu_cxx18__exchange_and_addEPVii" c)
    (hdef' : LastDefines d i' "_ZN9__gnu_cxx12__atomic_addEPVii" c')
    (hfar : ∀ k < 24, 24 ≤ (c + BitVec.ofNat 32 k - c').toNat) :
    (Enters s c → SameBytes l.mainMemory s.memory c 24 → SameBytes l.mainMemory s.added c 24 →
      Leads handler 6 7 s
        (s.returned ((s.registers.write 2 s.counter).write 3 1) s.added s.os)) ∧
    (Enters s c' → SameBytes l.mainMemory s.memory c' 24 → SameBytes l.mainMemory s.added c' 24 →
      Leads handler 6 7 s (s.returned (s.registers.write 2 1) s.added s.os)) := by
  obtain ⟨hstands, hstands'⟩ := stands_atomics hload hdef hdef' hfar
  refine ⟨fun hs hm hkept => ?_, fun hs hm hkept => ?_⟩
  · exact adding_returns (hs.inside hstands hm) (by decide) (by decide) (by decide)
      (stands_of_sameBytes hstands hkept)
  · rw [← s.registers.write_write s.counter]
    exact adding_returns (hs.inside hstands' hm) (by decide) (by decide) (by decide)
      (stands_of_sameBytes hstands' hkept)

end Atomics

end Loaded

section ThreeFunctions

/-- A file with `__libc_malloc` at `0x00400000` and the atomic functions behind it: the ELF
header, a program header, the segment, the symbols, the strings and the section headers. -/
def threeFunctions : List (BitVec 8) :=
  [0x7F, 0x45, 0x4C, 0x46, 1, 2, 1, 0] ++ words [0, 0] ++ halves [2, 8] ++
    words [1, 0x00400000, 52, 323, 0] ++ halves [52, 32, 1, 40, 3, 2] ++
  words [1, 84, 0x00400000, 0x00400000, 72, 72, 5, 4] ++
  List.replicate 72 0 ++
  words [0, 0, 0, 0] ++ words [17, 0x00400000, 24, 0x1200FFF1] ++
    words [31, 0x00400018, 24, 0x1200FFF1] ++ words [70, 0x00400030, 24, 0x1200FFF1] ++
  [0] ++ chars ".symtab" ++ [0] ++ chars ".strtab" ++ [0] ++ chars "__libc_malloc" ++ [0] ++
    chars "_ZN9__gnu_cxx18__exchange_and_addEPVii" ++ [0] ++
    chars "_ZN9__gnu_cxx12__atomic_addEPVii" ++ [0] ++
  words [0, 0, 0, 0, 0, 0, 0, 0, 0, 0] ++ words [1, 2, 0, 0, 156, 64, 2, 1, 4, 16] ++
    words [9, 3, 0, 0, 220, 103, 0, 0, 1, 0]

def threeFunctionsData : ElfData := fun p => threeFunctions.getD p 0

set_option maxRecDepth 4000 in
theorem symbols_threeFunctions : symbols threeFunctionsData = .ok (some ⟨156, 4, 220⟩) := rfl

theorem load_threeFunctions :
    ∃ l, loadOSMemoryELF true threeFunctionsData (fun _ => 0) = .ok l := by
  have hheader : checkHeader threeFunctionsData = 0 := by decide +kernel
  unfold loadOSMemoryELF
  rw [parseElf_of_symbols hheader symbols_threeFunctions]
  exact ⟨_, rfl⟩

/-- A symbol of the file. -/
theorem defines_threeFunctions_iff {i : ℕ} {name : String} {a : Word} :
    Defines threeFunctionsData i name a ↔ i < 4 ∧
      Symbols.isFunc threeFunctionsData ⟨156, 4, 220⟩ i = true ∧
        isString threeFunctionsData (Symbols.name threeFunctionsData ⟨156, 4, 220⟩ i) name =
          true ∧ Symbols.value threeFunctionsData ⟨156, 4, 220⟩ i = a := by
  unfold Defines
  rw [symbols_threeFunctions]
  constructor
  · rintro ⟨t, ht, h⟩
    obtain rfl := Option.some.inj (Except.ok.inj ht)
    exact h
  · exact fun h => ⟨_, rfl, h⟩

theorem defines_threeFunctions {f : OsFunction} {i : ℕ} {a : Word}
    (h : Defines threeFunctionsData i f.name a) : f = .libcMalloc ∧ i = 1 ∧ a = 0x00400000 := by
  obtain ⟨hi, hf, hname, rfl⟩ := defines_threeFunctions_iff.mp h
  clear h
  revert i
  cases f <;> decide +kernel

/-- The atomic functions of the file. -/
theorem atomics_threeFunctions {e : String × SyscallAddress} (he : e ∈ atomics) {i : ℕ} {a : Word}
    (h : Defines threeFunctionsData i e.1 a) :
    (e.2 = .cxxExAndAdd ∧ i = 2 ∧ a = 0x00400018) ∨
      (e.2 = .cxxAtomicAdd ∧ i = 3 ∧ a = 0x00400030) := by
  obtain ⟨hi, hf, hname, rfl⟩ := defines_threeFunctions_iff.mp h
  clear h
  revert e i
  decide +kernel

theorem apart_threeFunctions : Apart true threeFunctionsData where
  once := by
    intro f i j a b h h'
    rw [(defines_threeFunctions h).2.1, (defines_threeFunctions h').2.1]
  below := by
    intro f i a h
    obtain ⟨-, -, rfl⟩ := defines_threeFunctions h
    decide
  functions := by
    intro f g i j a b h h' hne
    exact absurd ((defines_threeFunctions h).1.trans (defines_threeFunctions h').1.symm) hne
  atomics := by
    intro _ f e he i j a b h h'
    obtain ⟨-, -, rfl⟩ := defines_threeFunctions h
    rcases atomics_threeFunctions he h'.1 with ⟨-, -, rfl⟩ | ⟨-, -, rfl⟩ <;>
      exact .inl (by decide)

theorem noWrap_threeFunctions : NoWrap true threeFunctionsData := by
  intro _ f e he i j a c h h'
  obtain ⟨-, -, rfl⟩ := defines_threeFunctions h
  rcases atomics_threeFunctions he h'.1 with ⟨-, -, rfl⟩ | ⟨-, -, rfl⟩ <;> decide

/-- A state that has come to an address, with `$4`, `$5` and `$31` set. -/
def entering {ω : Type*} (a r4 : Word) (m : MainMemory) (os : ω) : State ω :=
  { State.start m os with
    pc := a
    npc := a + 4
    registers := (((State.start m os).registers.write 4 r4).write 5 7).write 31 0x00400100 }

/-- `__libc_malloc(64)` returns the start of the heap. -/
theorem function_returns_malloc : ∃ l,
    loadOSMemoryELF true threeFunctionsData (fun _ => 0) = .ok l ∧ ∃ heap,
      let s := entering 0x00400000 64 l.mainMemory (Os.init [] fun _ => [])
      Leads (switch ⟨0, 0, 0, 0xC0000000, 0, none⟩ .silent) 4 5 s
        (s.returned ((s.calling 4555).writeAll [(2, 0xC0000000)]) l.mainMemory
          { s.os with heap }) := by
  obtain ⟨l, hl⟩ := load_threeFunctions
  have hdef : Defines threeFunctionsData 1 OsFunction.libcMalloc.name 0x00400000 :=
    defines_threeFunctions_iff.mpr (by decide +kernel)
  have hmalloc : (Heap.mmMalloc 0xC0000000 64 Heap.init).map Prod.fst = some 0xC0000000 := by
    decide +kernel
  obtain ⟨⟨ans, heap⟩, hsome, hans⟩ := Option.map_eq_some_iff.mp hmalloc
  have hsize : mallocSize ((entering 0x00400000 64 l.mainMemory
      (Os.init [] fun _ => [])).calling 4555).val = 64 := rfl
  have hr : Syscall.malloc.reply ⟨0, 0, 0, 0xC0000000, 0, none⟩ .silent
      ((entering 0x00400000 64 l.mainMemory (Os.init [] fun _ => [])).calling 4555).val
      l.mainMemory (Os.init [] fun _ => []) =
        .ok ([(2, 0xC0000000)], l.mainMemory, { Os.init [] fun _ => [] with heap }) := by
    rw [Syscall.reply, hsize, allocate, show Heap.mmMalloc 0xC0000000 64 (Os.init [] _).heap = _
      from hsome]
    exact congrArg (fun a => Except.ok ([(2, a)], _)) hans
  have hs : Enters (entering 0x00400000 64 l.mainMemory (Os.init [] fun _ => [])) 0x00400000 :=
    ⟨rfl, rfl, rfl⟩
  have hreturns := function_returns apart_threeFunctions hl noWrap_threeFunctions hdef
    (fun h => absurd h (by decide)) hs (fun _ _ => rfl) rfl hr fun _ _ => rfl
  exact ⟨l, hl, heap, hreturns⟩

/-- The two functions on the word at `0x1000`. -/
theorem atomics_return_loaded : ∃ l,
    loadOSMemoryELF true threeFunctionsData (fun _ => 0) = .ok l ∧
      let s := entering 0x00400018 0x1000 l.mainMemory 0
      let s' := entering 0x00400030 0x1000 l.mainMemory 0
      Leads successor 6 7 s
        (s.returned ((s.registers.write 2 s.counter).write 3 1) s.added s.os) ∧
      Leads successor 6 7 s' (s'.returned (s'.registers.write 2 1) s'.added s'.os) := by
  obtain ⟨l, hl⟩ := load_threeFunctions
  have hlast {e : String × SyscallAddress} (he : e ∈ atomics) {i : ℕ} {a : Word}
      (h : Defines threeFunctionsData i e.1 a) : LastDefines threeFunctionsData i e.1 a := by
    refine ⟨h, fun j b h' => ?_⟩
    rcases atomics_threeFunctions he h with ⟨h2, rfl, -⟩ | ⟨h2, rfl, -⟩ <;>
      rcases atomics_threeFunctions he h' with ⟨h2', rfl, -⟩ | ⟨h2', rfl, -⟩ <;>
        first | exact le_rfl | exact absurd (h2.symm.trans h2') (by decide)
  have hkept {a : Word} (ha : ∀ k < 24, 4 ≤ (a + BitVec.ofNat 32 k - 0x1000).toNat) :
      SameBytes l.mainMemory (entering a 0x1000 l.mainMemory 0).added a 24 := by
    intro k hk
    show writeWord l.mainMemory 0x1000 _ _ = _
    rw [writeWord_eq, put_of_le (ha k hk)]
  have hdef := hlast (e := (_, .cxxExAndAdd)) (i := 2) (a := 0x00400018) (.head _)
    (defines_threeFunctions_iff.mpr (by decide +kernel))
  have hdef' := hlast (e := (_, .cxxAtomicAdd)) (i := 3) (a := 0x00400030) (.tail _ (.head _))
    (defines_threeFunctions_iff.mpr (by decide +kernel))
  exact ⟨l, hl, (atomics_return hl hdef hdef' (by decide)).1 ⟨rfl, rfl, rfl⟩ (fun _ _ => rfl)
    (hkept (by decide)), (atomics_return hl hdef hdef' (by decide)).2 ⟨rfl, rfl, rfl⟩
    (fun _ _ => rfl) (hkept (by decide))⟩

end ThreeFunctions

end Isa
end OooProcessor
