/-
# What the simulator keeps over a run

Whatever a program makes of its system calls, its file tables stay in order (`InOrder`),
and nothing is taken back: a file descriptor keeps its name and stays closed, the console
is only written to, a file that is there stays, and what a call ends has ended (`Extends`).
The heap is what the calls so far make of it, and so its blocks are apart as long as these
stay clear of the limits of `mm_malloc` and `mm_free` (`main_heap`).

`Leaves` lists what one call can do, and `System.requests` the calls of a run of `main`.
-/

import OooProcessor.Sim.Blocks
import OooProcessor.Sim.Calls

namespace OooProcessor
namespace Sim

open Lib Heap

/-- A system call, with the registers and the memory it finds. -/
abbrev Request := (Reg → Word) × MainMemory

namespace System

variable {ω : Type*} (v : Services ω) (s : System ω)

/-- The system calls of a run, the first one first. -/
def requests : ℕ → List Request
  | 0 => []
  | n + 1 => requests n ++
      if (s.high v n).core.id.out.sys then
        [(readRegister (s.high v n).core, (s.high v n).accessed.mainMemory)]
      else []

/-- **What the operating system keeps** comes from the calls. -/
theorem os_run (n : ℕ) : (s.run v n).os =
    (s.requests v n).foldl (fun os r => (v.handler r.1 r.2 os).2.2) s.os := by
  induction n with
  | zero => rfl
  | succ n ih =>
    have hos : (s.high v n).os = (s.run v n).os := rfl
    show ((s.high v n).called v).2.2 = _
    rw [requests, List.foldl_append, ← ih, called, hos]
    split_ifs <;> rfl

/-- The system with a list of the calls that it has made. -/
def withLog (rs : List Request) : System (ω × List Request) :=
  ⟨s.core, s.mainMemory, s.dataReadFDM, s.os, rs⟩

/-- A handler that keeps such a list. -/
def logged (handler : Handler ω) : Handler (ω × List Request) := fun regs m os =>
  ((handler regs m os.1).1, (handler regs m os.1).2.1, (handler regs m os.1).2.2,
    os.2 ++ [(regs, m)])

/-- The calls of a pass. -/
def passRequests : List Request :=
  if s.core.id.out.sys then [(readRegister s.core, s.accessed.mainMemory)] else []

variable (handler : Handler ω) (rs : List Request)

/-- The list changes nothing else. -/
theorem called_withLog : (s.withLog rs).called (services (logged handler)) =
    ((s.called (services handler)).1, (s.called (services handler)).2.1,
      (s.called (services handler)).2.2, rs ++ s.passRequests) := by
  have hcore : (s.withLog rs).core = s.core := rfl
  have hmem : (s.withLog rs).accessed = s.accessed := rfl
  unfold called passRequests
  rw [hcore, hmem]
  split_ifs
  · rfl
  · rw [List.append_nil]
    rfl

theorem input_withLog :
    (s.withLog rs).input (services (logged handler)) = s.input (services handler) := by
  unfold input
  rw [called_withLog]
  rfl

theorem rising_withLog : (s.withLog rs).rising (services (logged handler)) =
    (s.rising (services handler)).withLog rs := by
  unfold rising
  rw [input_withLog]
  rfl

theorem falling_withLog : (s.withLog rs).falling (services (logged handler)) =
    (s.falling (services handler)).withLog (rs ++ s.passRequests) := by
  unfold falling
  rw [input_withLog, called_withLog]
  rfl

/-- **A run with a list of its calls** has the calls of the run in it. -/
theorem run_withLog (n : ℕ) : (s.withLog []).run (services (logged handler)) n =
    (s.run (services handler) n).withLog (s.requests (services handler) n) := by
  induction n with
  | zero => rfl
  | succ n ih =>
    show (((s.withLog []).run (services (logged handler)) n).rising _).falling _ = _
    rw [ih, rising_withLog, falling_withLog]
    rfl

/-- The calls of a longer run begin with those of a shorter one. -/
theorem exists_requests (n k : ℕ) : ∃ rs, s.requests v (n + k) = s.requests v n ++ rs := by
  induction k with
  | zero => exact ⟨[], (List.append_nil _).symm⟩
  | succ k ih =>
    obtain ⟨rs, hrs⟩ := ih
    rw [← Nat.add_assoc, requests, hrs, List.append_assoc]
    exact ⟨_, rfl⟩

/-- **The calls of `main`** up to the slot of an instruction are those that the program has
made before it. -/
theorem requests_slot {P : Program} {handler : Handler ω} (hz : SparesZero handler)
    {m : MainMemory} {d : Word} {os : ω} {j : ℕ}
    (hobeys : ∀ k ≤ j, ((Counted.step (logged handler))^[k]
      (Counted.start m d (os, []))).Obeys P) :
    (System.boot m d os).requests (services handler)
        (4 * issueSlot (logged handler) (Counted.start m d (os, [])) j) =
      ((Counted.step (logged handler))^[j] (Counted.start m d (os, []))).os.2 := by
  have hlogged : SparesZero (logged handler) := fun regs m os => hz regs m os.1
  have hos := (issues_slot hlogged hobeys).1.os
  have hrun := run_withLog (System.boot m d os) handler
    (4 * issueSlot (logged handler) (Counted.start m d (os, [])) j)
  have hos' := congrArg (fun t => (System.os t).2) hrun
  exact hos'.symm.trans (congrArg Prod.snd hos)

end System

/-- What one call can leave. -/
inductive Leaves (os : Os) : Os → Prop
  | ended (e : Ended) : Leaves os { os with ended := some e }
  | heap (heap : Heap) (currentBreak : Word) : Leaves os { os with heap, currentBreak }
  | opened (disk : Disk) (filename : String) : Leaves os (os.opened disk filename)
  | closed (fd : ℕ) (stdin : List (BitVec 8)) (h : stdin <:+ os.stdin) :
      Leaves os { os with fdtState := os.fdtState.set fd 0, stdin }
  | consumed (stdin : List (BitVec 8)) (h : stdin <:+ os.stdin) : Leaves os { os with stdin }
  | wrote (streams : List Stream) (bytes : List (BitVec 8)) : Leaves os
      { os with
        output := fun s => if s ∈ streams then os.output s ++ bytes else os.output s
        created := fun name => os.created name || decide (.file name ∈ streams) }

section One

variable {exec : ExecInfo} {host : HostCalls} {regs : Reg → Word} {m : MainMemory} {os : Os}
  {r : Reply} {h h' : Host}

/-- **What a read leaves of the tables**: it closes its file descriptor, and takes from
standard input for that alone. -/
theorem read_leaves (hr : read h = some h') : h'.fdtFilename = h.fdtFilename ∧
    h'.output = h.output ∧ h'.created = h.created ∧ h'.stdin <:+ h.stdin ∧
    (readRegister h 4 ≠ 0 → h'.stdin = h.stdin) ∧
    ∃ state, h.fdtState[(readRegister h 4).toNat]? = some state ∧
      h'.fdtState =
        if state = 0 then h.fdtState else h.fdtState.set (readRegister h 4).toNat 0 := by
  have hsuffix : afterWord h.stdin <:+ h.stdin :=
    (List.dropWhile_suffix _).trans (List.dropWhile_suffix _)
  unfold read at hr
  obtain ⟨text, -, hr⟩ := Option.bind_eq_some_iff.mp hr
  obtain ⟨⟨i, m⟩, -, hr⟩ := Option.bind_eq_some_iff.mp hr
  obtain ⟨state, hstate, hr⟩ := Option.bind_eq_some_iff.mp hr
  split_ifs at hr hstate with hfd hopen hopen
  · obtain rfl := Option.some.inj hr
    exact ⟨rfl, rfl, rfl, hsuffix, fun h0 => absurd hfd h0, state, hstate,
      (if_neg hopen).symm⟩
  · obtain rfl := Option.some.inj hr
    exact ⟨rfl, rfl, rfl, hsuffix, fun h0 => absurd hfd h0, state, hstate,
      (if_pos (not_not.mp hopen)).symm⟩
  · obtain rfl := Option.some.inj hr
    exact ⟨rfl, rfl, rfl, List.suffix_rfl, fun _ => rfl, state, hstate, (if_neg hopen).symm⟩
  · obtain rfl := Option.some.inj hr
    exact ⟨rfl, rfl, rfl, List.suffix_rfl, fun _ => rfl, state, hstate,
      (if_pos (not_not.mp hopen)).symm⟩

/-- What a write leaves. -/
theorem write_leaves (hw : write h = some h') : ∃ streams j,
    destination h (readRegister h 4) = some streams ∧
      h' = wrote h (streams.filter h.disk.opens) j ∧
      (readRegister h 4 ≠ 1 ∧ readRegister h 4 ≠ 2 → j = (readRegister h 6).toNat) := by
  have hbind := hw
  unfold write at hbind
  obtain ⟨streams, hdest, -⟩ := Option.bind_eq_some_iff.mp hbind
  obtain ⟨j, heq, hfile, -⟩ := write_eq hdest
  exact ⟨streams, j, hdest, (Option.some.inj (heq.symm.trans hw)).symm, hfile⟩

/-- The calls that work on the file tables. -/
def Syscall.isFile : Syscall → Bool
  | .readFile | .writeToFile | .openFile | .closeFile => true
  | _ => false

/-- The others leave them alone. -/
theorem reply_of_not_file {call : Syscall} (hr : call.reply exec host regs m os = .ok r)
    (hfile : call.isFile = false) :
    ∃ heap currentBreak, r.2.2 = { os with heap, currentBreak } := by
  have hsame : ∃ heap currentBreak, os = { os with heap, currentBreak } := ⟨_, _, rfl⟩
  have hallocate {size : Word} (hr : allocate exec size m os = .ok r) :
      ∃ heap currentBreak, r.2.2 = { os with heap, currentBreak } := by
    obtain ⟨ans, heap, -, rfl⟩ := allocate_ok hr
    exact ⟨heap, os.currentBreak, rfl⟩
  cases call with
  | exit => cases hr
  | readFile | writeToFile | openFile | closeFile => cases hfile
  | stat =>
    obtain ⟨name, -, rfl⟩ := stat_ok hr
    exact hsame
  | brk =>
    cases hr
    exact ⟨os.heap, _, rfl⟩
  | mMap => exact hallocate hr
  | munmap =>
    obtain ⟨heap, -, rfl⟩ := freeCall_ok hr
    exact ⟨heap, os.currentBreak, rfl⟩
  | malloc => exact hallocate hr
  | fStat | kill | uname =>
    cases hr
    exact hsame
  | hostCall call =>
    cases hr
    exact hsame

/-- **One call**, if it returns. -/
theorem leaves_reply (call : Syscall) (hr : call.reply exec host regs m os = .ok r) :
    Leaves os r.2.2 := by
  cases hfile : call.isFile with
  | false =>
    obtain ⟨heap, currentBreak, heq⟩ := reply_of_not_file hr hfile
    rw [heq]
    exact .heap heap currentBreak
  | true =>
    cases call with
    | readFile =>
      obtain ⟨h', hread, rfl⟩ := fileCall_ok hr
      obtain ⟨hnames, houtput, hcreated, hstdin, -, state, -, hstate⟩ := read_leaves hread
      rw [Os.withFiles, hnames, houtput, hcreated, hstate]
      split_ifs
      · exact .consumed _ hstdin
      · exact .closed _ _ hstdin
    | writeToFile =>
      obtain ⟨h', hwrite, rfl⟩ := fileCall_ok hr
      obtain ⟨streams, j, -, rfl, -⟩ := write_leaves hwrite
      exact .wrote (streams.filter host.disk.opens) _
    | openFile =>
      obtain ⟨bytes, -, rfl⟩ := openCall_ok hr
      exact .opened host.disk _
    | closeFile =>
      obtain rfl := closeCall_ok hr
      exact .closed _ os.stdin List.suffix_rfl
    | exit | stat | fStat | kill | brk | mMap | munmap | uname | malloc | hostCall call =>
      cases hfile

variable (exec host regs m os) in
/-- **One turn of the switch**, where the run goes on. -/
theorem leaves_switch (hended : os.ended = none) : Leaves os (switch exec host regs m os).2.2 := by
  rcases switch_cases exec host regs m os with ⟨hsome, -⟩ | ⟨-, e, heq⟩ | ⟨-, call, -, hr⟩
  · rw [hended] at hsome
    cases hsome
  · rw [heq]
    exact .ended e
  · exact leaves_reply call hr

end One

/-- What a run of calls leaves. -/
def Os.after (exec : ExecInfo) (host : HostCalls) (os : Os) (rs : List Request) : Os :=
  rs.foldl (fun os r => (switch exec host r.1 r.2 os).2.2) os

section Runs

variable {exec : ExecInfo} {host : HostCalls} {os os' os'' : Os} {rs : List Request}

/-- **What has ended stays as it is.** -/
theorem after_of_ended (h : os.ended.isSome = true) : os.after exec host rs = os := by
  induction rs with
  | nil => rfl
  | cons r rs ih =>
    show Os.after exec host (switch exec host r.1 r.2 os).2.2 rs = os
    rw [switch_of_ended h, ih]

/-- What every call keeps, runs keep. -/
theorem after_induction {Q : Os → Prop} (hQ : ∀ {os os'}, Q os → Leaves os os' → Q os')
    (h : Q os) (rs : List Request) : Q (os.after exec host rs) := by
  induction rs generalizing os with
  | nil => exact h
  | cons r rs ih =>
    cases hended : os.ended with
    | some e =>
      rw [after_of_ended (Option.isSome_iff_exists.mpr ⟨e, hended⟩)]
      exact h
    | none => exact ih (hQ h (leaves_switch exec host r.1 r.2 os hended))

/-- **The file tables are in order.** -/
structure InOrder (os : Os) : Prop where
  standard : ["stdin", "stdout", "stderr"] <+: os.fdtFilename
  length : os.fdtState.length = os.fdtFilename.length
  index : os.fileDescriptorIndex = BitVec.ofNat 32 os.fdtFilename.length
  state : ∀ state ∈ os.fdtState, state = 0 ∨ state = 1

theorem inOrder_init (stdin : List (BitVec 8)) (output : Stream → List (BitVec 8)) :
    InOrder (Os.init stdin output) where
  standard := List.prefix_rfl
  length := rfl
  index := rfl
  state state h := by
    simp only [Os.init, List.mem_cons, List.not_mem_nil, or_false, or_self] at h
    exact .inl h

/-- One call keeps them so. -/
theorem InOrder.leaves (h : InOrder os) (hl : Leaves os os') : InOrder os' := by
  cases hl with
  | ended e => exact ⟨h.standard, h.length, h.index, h.state⟩
  | heap heap currentBreak => exact ⟨h.standard, h.length, h.index, h.state⟩
  | opened disk filename =>
    refine ⟨h.standard.trans (List.prefix_append ..), ?_, ?_, fun state hs => ?_⟩
    · rw [Os.opened, List.length_append, List.length_append, h.length]
      rfl
    · show os.fileDescriptorIndex + 1 = BitVec.ofNat 32 (os.fdtFilename ++ [filename]).length
      rw [List.length_append, h.index, BitVec.ofNat_add]
      rfl
    · rcases List.mem_append.mp hs with hs | hs
      · exact h.state state hs
      · exact .inr (List.mem_singleton.mp hs)
  | closed fd stdin _ =>
    refine ⟨h.standard, (List.length_set ..).trans h.length, h.index, fun state hs => ?_⟩
    rcases List.mem_or_eq_of_mem_set hs with hs | hs
    · exact h.state state hs
    · exact .inl hs
  | consumed stdin _ => exact ⟨h.standard, h.length, h.index, h.state⟩
  | wrote streams bytes => exact ⟨h.standard, h.length, h.index, h.state⟩

/-- **Nothing is taken back**: names are added only, what is closed stays closed, input is
only consumed, the console only written to, and a file that is there stays. -/
structure Extends (os os' : Os) : Prop where
  fdtFilename : os.fdtFilename <+: os'.fdtFilename
  closed : ∀ fd : ℕ, os.fdtState[fd]? = some 0 → os'.fdtState[fd]? = some 0
  stdin : os'.stdin <:+ os.stdin
  console : ∀ s, (∀ name, s ≠ .file name) → os.output s <+: os'.output s
  created : ∀ name, os.created name = true → os'.created name = true

theorem Extends.refl (os : Os) : Extends os os :=
  ⟨List.prefix_rfl, fun _ h => h, List.suffix_rfl, fun _ _ => List.prefix_rfl, fun _ h => h⟩

theorem Extends.trans (h : Extends os os') (h' : Extends os' os'') : Extends os os'' where
  fdtFilename := h.fdtFilename.trans h'.fdtFilename
  closed fd hfd := h'.closed fd (h.closed fd hfd)
  stdin := h'.stdin.trans h.stdin
  console s hs := (h.console s hs).trans (h'.console s hs)
  created name hname := h'.created name (h.created name hname)

/-- One call takes nothing back. -/
theorem Leaves.extends (hl : Leaves os os') : Extends os os' := by
  cases hl with
  | ended e =>
    exact ⟨List.prefix_rfl, fun _ h => h, List.suffix_rfl, fun _ _ => List.prefix_rfl,
      fun _ h => h⟩
  | heap heap currentBreak =>
    exact ⟨List.prefix_rfl, fun _ h => h, List.suffix_rfl, fun _ _ => List.prefix_rfl,
      fun _ h => h⟩
  | opened disk filename =>
    refine ⟨List.prefix_append .., fun fd h => ?_, List.suffix_rfl, fun s hs => ?_,
      fun name h => Bool.or_eq_true_iff.mpr (.inl h)⟩
    · obtain ⟨hlt, -⟩ := List.getElem?_eq_some_iff.mp h
      rw [Os.opened, List.getElem?_append_left hlt]
      exact h
    · show _ <+: if disk.Truncates filename s then [] else os.output s
      rw [if_neg fun h => hs _ h.1]
  | closed fd stdin hstdin =>
    refine ⟨List.prefix_rfl, fun fd' h => ?_, hstdin, fun _ _ => List.prefix_rfl, fun _ h => h⟩
    obtain ⟨hlt, -⟩ := List.getElem?_eq_some_iff.mp h
    rw [List.getElem?_set]
    split_ifs with heq
    · rfl
    · exact absurd (heq ▸ hlt) ‹_›
    · exact h
  | consumed stdin hstdin =>
    exact ⟨List.prefix_rfl, fun _ h => h, hstdin, fun _ _ => List.prefix_rfl, fun _ h => h⟩
  | wrote streams bytes =>
    refine ⟨List.prefix_rfl, fun _ h => h, List.suffix_rfl, fun s _ => ?_,
      fun name h => Bool.or_eq_true_iff.mpr (.inl h)⟩
    dsimp only
    split_ifs
    · exact List.prefix_append ..
    · exact List.prefix_rfl

theorem extends_after (exec : ExecInfo) (host : HostCalls) (os : Os) (rs : List Request) :
    Extends os (os.after exec host rs) :=
  after_induction (Q := Extends os) (fun h hl => h.trans hl.extends) (Extends.refl os) rs

end Runs

section Collected

/-- The call that a request makes, if it returns. -/
def returned (exec : ExecInfo) (host : HostCalls) (os : Os) (r : Request) : Option Syscall :=
  if os.ended.isSome then none
  else (syscalls.lookup (r.1 2)).filter fun call =>
    (call.reply exec host r.1 r.2 os).toBool

/-- What the calls of a run that return amount to. -/
def collect {α : Type*} (exec : ExecInfo) (host : HostCalls)
    (f : (Reg → Word) → Syscall → Option α) : Os → List Request → List α
  | _, [] => []
  | os, r :: rs => ((returned exec host os r).bind (f r.1)).toList ++
      collect exec host f (switch exec host r.1 r.2 os).2.2 rs

/-- What a call asks of the heap. -/
def heapCall (regs : Reg → Word) : Syscall → Option Call
  | .mMap => some (.malloc (mMapSize regs))
  | .malloc => some (.malloc (mallocSize regs))
  | .munmap => some (.free (regs 4))
  | _ => none

variable {exec : ExecInfo} {host : HostCalls} {os : Os} {r : Request}

variable (exec host os r) in
/-- A request makes a call that returns, or leaves the heap as it is. -/
theorem returned_cases :
    (returned exec host os r = none ∧ (switch exec host r.1 r.2 os).2.2.heap = os.heap) ∨
      ∃ call, returned exec host os r = some call ∧
        call.reply exec host r.1 r.2 os = .ok (switch exec host r.1 r.2 os) := by
  unfold returned
  cases hended : os.ended with
  | some e =>
    rw [switch_of_ended (Option.isSome_iff_exists.mpr ⟨e, hended⟩)]
    exact .inl ⟨rfl, rfl⟩
  | none =>
    rw [switch, hended]
    unfold reply
    cases hcall : syscalls.lookup (r.1 2) with
    | none => exact .inl ⟨rfl, rfl⟩
    | some call =>
      cases hreply : call.reply exec host r.1 r.2 os with
      | error e =>
        refine .inl ⟨?_, by simp only [hreply]⟩
        simp [hreply, Except.toBool]
      | ok reply =>
        refine .inr ⟨call, ?_, by simp only [hreply]⟩
        simp [hreply, Except.toBool]

/-- What a call does to the heap. -/
theorem heap_reply {call : Syscall} {reply : Reply}
    (hr : call.reply exec host r.1 r.2 os = .ok reply) (live : List Block) :
    ∃ w, runCalls exec.heapStart (heapCall r.1 call).toList ⟨os.heap, live⟩ = some w ∧
      w.heap = reply.2.2.heap := by
  have hallocate {size : Word} (hr : allocate exec size r.2 os = .ok reply) :
      ∃ w, runCalls exec.heapStart [.malloc size] ⟨os.heap, live⟩ = some w ∧
        w.heap = reply.2.2.heap := by
    obtain ⟨ans, heap, hmalloc, rfl⟩ := allocate_ok hr
    have hnext : next exec.heapStart (.malloc size) ⟨os.heap, live⟩ =
        some ⟨heap, if ans = 0 then live else ⟨ans, size⟩ :: live⟩ := by
      rw [next, hmalloc]
      rfl
    exact ⟨_, congrArg (Option.bind · (runCalls exec.heapStart [])) hnext, rfl⟩
  have hsame (h : reply.2.2.heap = os.heap) :
      ∃ w, runCalls exec.heapStart [] ⟨os.heap, live⟩ = some w ∧ w.heap = reply.2.2.heap :=
    ⟨_, rfl, h.symm⟩
  cases call with
  | mMap => exact hallocate hr
  | malloc => exact hallocate hr
  | munmap =>
    obtain ⟨heap, hfree, rfl⟩ := freeCall_ok hr
    have hnext : next exec.heapStart (.free (r.1 4)) ⟨os.heap, live⟩ =
        some ⟨heap, live.filter fun b => b.addr != r.1 4⟩ := by rw [next, hfree]
    exact ⟨_, congrArg (Option.bind · (runCalls exec.heapStart [])) hnext, rfl⟩
  | exit => cases hr
  | readFile | writeToFile =>
    obtain ⟨h', -, rfl⟩ := fileCall_ok hr
    exact hsame rfl
  | openFile =>
    obtain ⟨bytes, -, rfl⟩ := openCall_ok hr
    exact hsame rfl
  | closeFile =>
    obtain rfl := closeCall_ok hr
    exact hsame rfl
  | stat =>
    obtain ⟨name, -, rfl⟩ := stat_ok hr
    exact hsame rfl
  | fStat | kill | brk | uname =>
    cases hr
    exact hsame rfl
  | hostCall call =>
    cases hr
    exact hsame rfl

theorem runCalls_append {heapStart : Word} (cs cs' : List Call) (w : World) :
    runCalls heapStart (cs ++ cs') w = (runCalls heapStart cs w).bind (runCalls heapStart cs') := by
  induction cs generalizing w with
  | nil => rfl
  | cons c cs ih =>
    show (next heapStart c w).bind _ = ((next heapStart c w).bind _).bind _
    rw [Option.bind_assoc]
    exact congrArg _ (funext ih)

/-- **The heap of a run** is that of the calls that return. -/
theorem heap_after (exec : ExecInfo) (host : HostCalls) (os : Os) (rs : List Request)
    (live : List Block) :
    ∃ w, runCalls exec.heapStart (collect exec host heapCall os rs) ⟨os.heap, live⟩ = some w ∧
      w.heap = (os.after exec host rs).heap := by
  induction rs generalizing os live with
  | nil => exact ⟨_, rfl, rfl⟩
  | cons r rs ih =>
    have hstep : ∃ w, runCalls exec.heapStart
        ((returned exec host os r).bind (heapCall r.1)).toList ⟨os.heap, live⟩ = some w ∧
          w.heap = (switch exec host r.1 r.2 os).2.2.heap := by
      rcases returned_cases exec host os r with ⟨hnone, hheap⟩ | ⟨call, hsome, hr⟩
      · rw [hnone]
        exact ⟨_, rfl, hheap.symm⟩
      · rw [hsome]
        exact heap_reply hr live
    obtain ⟨⟨heap, live'⟩, hrun, hheap⟩ := hstep
    obtain ⟨w, hrest, hw⟩ := ih (switch exec host r.1 r.2 os).2.2 live'
    refine ⟨w, ?_, hw⟩
    obtain rfl : heap = _ := hheap
    rw [collect, runCalls_append, hrun, Option.bind_some, hrest]

end Collected

section Main

variable (exec : ExecInfo) (host : HostCalls) (m : MainMemory) (d : Word)
  (stdin : List (BitVec 8)) (output : Stream → List (BitVec 8)) (n : ℕ)

/-- What `main` keeps after `n` cycles. -/
def osAt : Os :=
  ((System.boot m d (Os.init stdin output)).run (services (switch exec host)) n).os

/-- It comes from the calls of the program. -/
theorem osAt_eq : osAt exec host m d stdin output n = (Os.init stdin output).after exec host
    ((System.boot m d (Os.init stdin output)).requests (services (switch exec host)) n) :=
  System.os_run _ _ n

theorem osAt_add (k : ℕ) : ∃ rs, osAt exec host m d stdin output (n + k) =
    (osAt exec host m d stdin output n).after exec host rs := by
  obtain ⟨rs, hrs⟩ := (System.boot m d (Os.init stdin output)).exists_requests
    (services (switch exec host)) n k
  refine ⟨rs, ?_⟩
  rw [osAt_eq, osAt_eq, hrs, Os.after, List.foldl_append]
  rfl

/-- What a later cycle finds. -/
theorem extends_osAt (k : ℕ) : Extends (osAt exec host m d stdin output n)
    (osAt exec host m d stdin output (n + k)) := by
  obtain ⟨rs, hrs⟩ := osAt_add exec host m d stdin output n k
  rw [hrs]
  exact extends_after exec host _ rs

/-- **In every run of `main`** the heap is that of the calls of the program that have
returned.  If these stay clear of the limits, its live blocks are aligned and apart,
`HEAP_STATUS` marks their bytes and no other, and the next call does what it is held to. -/
theorem main_heap : ∃ w,
    runCalls exec.heapStart (collect exec host heapCall (Os.init stdin output)
        ((System.boot m d (Os.init stdin output)).requests (services (switch exec host)) n))
        World.init = some w ∧
      w.heap = (osAt exec host m d stdin output n).heap ∧
      (exec.heapStart ≠ 0 → exec.heapStart.toNat % 4 = 0 →
        AllClear exec.heapStart (collect exec host heapCall (Os.init stdin output)
          ((System.boot m d (Os.init stdin output)).requests (services (switch exec host)) n))
          World.init →
        Represents exec.heapStart w ∧
          ∀ c, Legal w c → Clear exec.heapStart w c → Behaves exec.heapStart w c) := by
  obtain ⟨w, hrun, hheap⟩ := heap_after exec host (Os.init stdin output)
    ((System.boot m d (Os.init stdin output)).requests (services (switch exec host)) n) []
  rw [← osAt_eq] at hheap
  refine ⟨w, hrun, hheap, fun h0 h4 hclear => ?_⟩
  obtain ⟨w', hrun', hvalid⟩ := runCalls_valid h0 h4 _ (init_valid exec.heapStart) hclear
  obtain rfl := Option.some.inj (hrun.symm.trans hrun')
  exact ⟨hvalid.toRepresents, fun c hl hc => (call_step h0 h4 hvalid hl hc).1⟩

/-- `addiu $2,$0,4555; addiu $4,$0,64; syscall` -/
def mallocing : MainMemory := atVector [0x240211CB, 0x24040040, 0x0000000C]

def mallocingProgram : Program := .ofList callingCode mallocing
  above_callingCode (by decide +kernel)

instance (m : MainMemory) : Decidable (mallocingProgram.In m) :=
  inferInstanceAs (Decidable ((Program.ofList callingCode mallocing _ _).In m))

/-- The first 64 bytes have been given out. -/
def World.sixtyFour : World :=
  ⟨⟨0xC000003F, mark (fun _ => 0) 0xC0000000 64 2, 2⟩, [⟨0xC0000000, 64⟩]⟩

theorem next_sixtyFour : next 0xC0000000 (.malloc 64) World.init = some World.sixtyFour :=
  next_found (i := 0xC000003F) (by decide) rfl (fill_eq (by decide) (by decide)) (by decide)

/-- The program has a block, can free it, and can have another one. -/
theorem main_heap_mallocing : ∃ w, w.live = [⟨0xC0000000, 64⟩] ∧
    w.heap = (osAt ⟨0, 0, 0, 0xC0000000, 0, none⟩ .silent mallocing 0 [] (fun _ => []) 24).heap ∧
    Represents 0xC0000000 w ∧ Behaves 0xC0000000 w (.free 0xC0000000) ∧
      Behaves 0xC0000000 w (.malloc 64) := by
  obtain ⟨w, hrun, hheap, hkept⟩ :=
    main_heap ⟨0, 0, 0, 0xC0000000, 0, none⟩ .silent mallocing 0 [] (fun _ => []) 24
  have hobeys : ∀ k ≤ 3, ((Counted.step (System.logged
      (switch ⟨0, 0, 0, 0xC0000000, 0, none⟩ .silent)))^[k]
        (Counted.start mallocing 0 (Os.init [] fun _ => [], []))).Obeys mallocingProgram := by
    decide +kernel
  have hslot : issueSlot (System.logged (switch ⟨0, 0, 0, 0xC0000000, 0, none⟩ .silent))
      (Counted.start mallocing 0 (Os.init [] fun _ => [], [])) 3 = 6 := by decide +kernel
  have hrequests := System.requests_slot sparesZero_switch hobeys
  have hcalls : collect ⟨0, 0, 0, 0xC0000000, 0, none⟩ .silent heapCall (Os.init [] fun _ => [])
      ((Counted.step (System.logged (switch ⟨0, 0, 0, 0xC0000000, 0, none⟩ .silent)))^[3]
        (Counted.start mallocing 0 (Os.init [] fun _ => [], []))).os.2 = [.malloc 64] := by
    decide +kernel
  rw [hslot] at hrequests
  rw [← hrequests] at hcalls
  rw [show 24 = 4 * 6 from rfl, hcalls] at hrun hkept
  rw [runCalls, next_sixtyFour, Option.bind_some, runCalls] at hrun
  obtain rfl := Option.some.inj hrun
  have hclear : AllClear 0xC0000000 [.malloc 64] World.init :=
    ⟨trivial, fun _ _ => ⟨fun h => absurd h (by decide), fun _ => by decide⟩,
      fun _ _ => trivial⟩
  obtain ⟨hrep, hnext⟩ := hkept (by decide) (by decide) hclear
  refine ⟨_, rfl, hheap, hrep, hnext _ ⟨_, List.mem_singleton_self _, rfl⟩ ?_,
    hnext _ trivial ?_⟩
  · intro b hb _
    obtain rfl := List.mem_singleton.mp hb
    exact .inl (by decide)
  · exact fun _ _ => ⟨fun h => absurd h (by decide), fun _ => by decide⟩

end Main

end Sim
end OooProcessor
