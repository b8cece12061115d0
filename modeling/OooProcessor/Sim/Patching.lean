/-
# The functions of the operating system

`LoadOSMemoryELF` is to write a system call over each of nine functions of the C
library.  Three of them share one address: `function_pointers` has
`LIBC_WRITE_ADDRESS` for `__libc_write`, `__munmap` and `__libc_read`, so that the last
of these in the symbol table gets system call 4004 and the others stay as they were
loaded.  `patched_iff` says exactly when all nine are as they should be.
-/

import OooProcessor.Sim.Loader

namespace OooProcessor
namespace Sim

open Lib

/-- The functions that get a system call. -/
inductive OsFunction
  | uname | libcMalloc | cfree | fxstat64 | mmap | munmap | libcWrite | libcRead | libcOpen
  deriving DecidableEq

namespace OsFunction

def name : OsFunction → String
  | uname => "__uname"
  | libcMalloc => "__libc_malloc"
  | cfree => "__cfree"
  | fxstat64 => "__fxstat64"
  | mmap => "__mmap"
  | munmap => "__munmap"
  | libcWrite => "__libc_write"
  | libcRead => "__libc_read"
  | libcOpen => "__libc_open"

/-- Its own system call. -/
def call : OsFunction → BitVec 16
  | uname => 4122
  | libcMalloc => 4555
  | cfree => 4091
  | fxstat64 => 4028
  | mmap => 4090
  | munmap => 4091
  | libcWrite => 4004
  | libcRead => 4003
  | libcOpen => 4005

/-- Where `function_pointers` has its address go. -/
def pointer : OsFunction → SyscallAddress
  | uname => .uname
  | libcMalloc => .libcMalloc
  | cfree => .cfree
  | fxstat64 => .fxstat64
  | mmap => .mmap
  | munmap => .libcWrite
  | libcWrite => .libcWrite
  | libcRead => .libcWrite
  | libcOpen => .libcOpen

/-- Its address goes to `LIBC_WRITE_ADDRESS`. -/
def Shared (f : OsFunction) : Prop := f.pointer = .libcWrite

instance (f : OsFunction) : Decidable f.Shared := inferInstanceAs (Decidable (_ = _))

end OsFunction

/-- The functions that are patched where load-linked is emulated. -/
def atomics : List (String × SyscallAddress) :=
  [("_ZN9__gnu_cxx18__exchange_and_addEPVii", .cxxExAndAdd),
    ("_ZN9__gnu_cxx12__atomic_addEPVii", .cxxAtomicAdd)]

/-- The last symbol of that name. -/
def LastDefines (d : ElfData) (i : ℕ) (name : String) (a : Word) : Prop :=
  Defines d i name a ∧ ∀ j b, Defines d j name b → j ≤ i

/-- At least 24 bytes apart. -/
def Far (a b : Word) : Prop := a.toNat + 24 ≤ b.toNat ∨ b.toNat + 24 ≤ a.toNat

/-- The symbols of the functions are unique, below the default addresses and apart from
each other and from the other functions that are patched. -/
structure Apart (emulateLLSC : Bool) (d : ElfData) : Prop where
  once : ∀ (f : OsFunction) i j a b, Defines d i f.name a → Defines d j f.name b → i = j
  below : ∀ (f : OsFunction) i a, Defines d i f.name a → a.toNat < 0xFFFFFFC0
  functions : ∀ (f g : OsFunction) i j a b, Defines d i f.name a → Defines d j g.name b → f ≠ g →
    Far a b
  atomics : emulateLLSC = true → ∀ (f : OsFunction), ∀ e ∈ atomics, ∀ i j a b,
    Defines d i f.name a → LastDefines d j e.1 b → Far a b

/-- Symbol `i` is the last of those that share an address. -/
def LastShared (d : ElfData) (i : ℕ) : Prop :=
  ∀ (g : OsFunction) j b, g.Shared → Defines d j g.name b → j ≤ i

/-- The memory with the segments of the file in it. -/
def imageOf (d : ElfData) (m : MainMemory) : MainMemory :=
  patched m ((exeFormat d).segmentList.map (ExeSegment.patch d))

/-- The functions that share an address: the last is `__libc_write`, and the file has
their system calls at the others already. -/
def Wired (d : ElfData) (m : MainMemory) : Prop :=
  ∀ (f : OsFunction) i a, f.Shared → Defines d i f.name a →
    (LastShared d i → f = .libcWrite) ∧
      (¬LastShared d i → Stands (imageOf d m) a (stub f.call))

/-- No other function that is patched reaches past the last address into one of them. -/
def NoWrap (emulateLLSC : Bool) (d : ElfData) : Prop :=
  emulateLLSC = true → ∀ (f : OsFunction), ∀ e ∈ atomics, ∀ i j a c, Defines d i f.name a →
    LastDefines d j e.1 c → c.toNat + 24 ≤ 2 ^ 32 + a.toNat

section Tables

theorem keyed_functionPointers : Keyed functionPointers where
  string := by decide +kernel
  inj := by decide +kernel

theorem mem_functionPointers (f : OsFunction) : (f.name, f.pointer) ∈ functionPointers := by
  cases f <;> decide

/-- What `function_pointers` holds. -/
theorem functionPointers_cases {e : String × SyscallAddress} (he : e ∈ functionPointers) :
    (∃ f : OsFunction, e = (f.name, f.pointer)) ∨ e ∈ atomics := by
  simp only [functionPointers, List.mem_cons, List.not_mem_nil, or_false] at he
  rcases he with rfl | rfl | rfl | rfl | rfl | rfl | rfl | rfl | rfl | rfl | rfl
  · exact .inl ⟨.uname, rfl⟩
  · exact .inl ⟨.libcMalloc, rfl⟩
  · exact .inl ⟨.cfree, rfl⟩
  · exact .inl ⟨.fxstat64, rfl⟩
  · exact .inl ⟨.mmap, rfl⟩
  · exact .inl ⟨.libcWrite, rfl⟩
  · exact .inl ⟨.munmap, rfl⟩
  · exact .inl ⟨.libcRead, rfl⟩
  · exact .inl ⟨.libcOpen, rfl⟩
  · exact .inr (by decide)
  · exact .inr (by decide)

/-- Where a system call is written to the address of a function it is that of the
function. -/
theorem mem_redirects (emulateLLSC : Bool) (f : OsFunction) (hf : f.Shared → f = .libcWrite) :
    (f.pointer, stub f.call) ∈ redirects emulateLLSC := by
  refine List.mem_append_left _ ?_
  cases f with
  | munmap => exact absurd (hf rfl) (by decide)
  | libcRead => exact absurd (hf rfl) (by decide)
  | _ => decide

end Tables

section Addresses

variable {emulateLLSC : Bool} {d : ElfData} {m : MainMemory} {l : Loaded} {f : OsFunction}
  {i : ℕ} {a b : Word}

/-- A symbol has one value. -/
theorem Defines.value_eq {name name' : String} (h : Defines d i name a)
    (h' : Defines d i name' b) : a = b := by
  obtain ⟨t, ht, -, -, -, rfl⟩ := h
  obtain ⟨t', ht', -, -, -, rfl⟩ := h'
  obtain rfl := Option.some.inj (Except.ok.inj (ht.symm.trans ht'))
  rfl

/-- **What `LoadOSMemoryELF` leaves**: the segments of the file, and the system calls
over them. -/
theorem loadOSMemoryELF_ok (h : loadOSMemoryELF emulateLLSC d m = .ok l) :
    parseElf functionPointers d initSyscalls = .ok (exeFormat d, l.syscalls) ∧
      l.mainMemory = patchAll (imageOf d m)
        ((redirects emulateLLSC).map fun r => wordsAt (l.syscalls r.1) r.2) := by
  unfold loadOSMemoryELF at h
  split at h
  next => nomatch h
  next f s hparse =>
    obtain rfl := Except.ok.inj h
    obtain ⟨rfl, -⟩ := parseElf_cases keyed_functionPointers hparse .uname
    refine ⟨hparse, ?_⟩
    rw [fillSyscallRedirects_eq, loadSegments_eq]
    exact congrArg (patchAll · _) (funext (patchAll_apply m _))

/-- Where an address comes from. -/
theorem address_cases (hload : loadOSMemoryELF emulateLLSC d m = .ok l) (p : SyscallAddress) :
    (l.syscalls p = initSyscalls p ∧ ∀ (g : OsFunction) j b, g.pointer = p →
        ¬Defines d j g.name b) ∨
      (∃ g : OsFunction, g.pointer = p ∧ ∃ j, Defines d j g.name (l.syscalls p) ∧
        ∀ (g' : OsFunction) j' b, g'.pointer = p → Defines d j' g'.name b → j' ≤ j) ∨
      ∃ e ∈ atomics, e.2 = p ∧ ∃ j, LastDefines d j e.1 (l.syscalls p) := by
  obtain ⟨hparse, -⟩ := loadOSMemoryELF_ok hload
  obtain ⟨-, ⟨hinit, hnone⟩ | ⟨j, name, hmem, hdef, hlast⟩⟩ :=
    parseElf_cases keyed_functionPointers hparse p
  · refine .inl ⟨hinit, fun g j b hg => ?_⟩
    exact hnone j g.name b (hg ▸ mem_functionPointers g)
  · rcases functionPointers_cases hmem with ⟨g, hg⟩ | hatomic
    · obtain ⟨rfl, rfl⟩ := Prod.mk.inj hg
      refine .inr (.inl ⟨g, rfl, j, hdef, fun g' j' b hg' hdef' => ?_⟩)
      exact hlast j' g'.name b (hg' ▸ mem_functionPointers g') hdef'
    · exact .inr (.inr ⟨_, hatomic, rfl, j, hdef, fun j' b => hlast j' name b hmem⟩)

theorem pointer_ne_of_atomic {e : String × SyscallAddress} (he : e ∈ atomics) (f : OsFunction) :
    e.2 ≠ f.pointer := by
  revert e
  cases f <;> decide

theorem eq_or_shared {g : OsFunction} (h : g.pointer = f.pointer) : g = f ∨ f.Shared := by
  revert h
  cases f <;> cases g <;> decide

/-- **Which symbol gives a function its address.** -/
theorem function_address (hload : loadOSMemoryELF emulateLLSC d m = .ok l)
    (hdef : Defines d i f.name a) : ∃ g : OsFunction, g.pointer = f.pointer ∧ ∃ j, i ≤ j ∧
      Defines d j g.name (l.syscalls f.pointer) ∧
        ∀ (g' : OsFunction) j' b, g'.pointer = f.pointer → Defines d j' g'.name b → j' ≤ j := by
  rcases address_cases hload f.pointer with ⟨-, hnone⟩ | ⟨g, hg, j, hdef', hlast⟩ | ⟨e, he, hp, -⟩
  · exact absurd hdef (hnone f i a rfl)
  · exact ⟨g, hg, j, hlast f i a rfl hdef, hdef', hlast⟩
  · exact absurd hp (pointer_ne_of_atomic he f)

/-- The address of a function that shares it with no later one. -/
theorem address_eq (hap : Apart emulateLLSC d) (hload : loadOSMemoryELF emulateLLSC d m = .ok l)
    (hdef : Defines d i f.name a) (hf : f.Shared → LastShared d i) :
    l.syscalls f.pointer = a := by
  obtain ⟨g, hg, j, hij, hdef', -⟩ := function_address hload hdef
  have hji : j = i := by
    rcases eq_or_shared hg with rfl | hshared
    · exact hap.once _ _ _ _ _ hdef' hdef
    · exact Nat.le_antisymm (hf hshared g j _ (hg.trans hshared) hdef') hij
  subst hji
  exact hdef'.value_eq hdef

/-- The address of a function that shares it with a later one. -/
theorem address_ne (hap : Apart emulateLLSC d) (hload : loadOSMemoryELF emulateLLSC d m = .ok l)
    (hdef : Defines d i f.name a) (hshared : f.Shared) (hf : ¬LastShared d i) :
    l.syscalls f.pointer ≠ a := by
  obtain ⟨g, hg, j, hij, hdef', hlast⟩ := function_address hload hdef
  intro heq
  rw [heq] at hdef'
  by_cases hgf : g = f
  · subst hgf
    obtain rfl := hap.once _ _ _ _ _ hdef' hdef
    exact hf fun g' j' b hg' => hlast g' j' b (hg'.trans hshared.symm)
  · have hfar := hap.functions f g i j a a hdef hdef' (Ne.symm hgf)
    unfold Far at hfar
    omega

end Addresses

section Covers

variable {emulateLLSC : Bool} {d : ElfData} {m : MainMemory} {l : Loaded} {f : OsFunction}
  {i k : ℕ} {a b : Word}

/-- Words that are far away share no byte with a function. -/
theorem not_covers_of_far {ws : List Word} (ha : a.toNat < 0xFFFFFFC0) (hk : k < 16)
    (hfar : Far a b) (hlen : 4 * ws.length ≤ 24)
    (hwrap : b.toNat + 4 * ws.length ≤ 2 ^ 32 + a.toNat) :
    ¬(wordsAt b ws).Covers (a + BitVec.ofNat 32 k) := by
  have hb := b.isLt
  show ¬(a + BitVec.ofNat 32 k - b).toNat < 4 * ws.length
  rw [BitVec.toNat_sub, BitVec.toNat_add, BitVec.toNat_ofNat, Nat.mod_eq_of_lt (a := k) (by omega),
    Nat.mod_eq_of_lt (a := a.toNat + k) (by omega)]
  unfold Far at hfar
  omega

theorem redirects_default {r : SyscallAddress × List Word} (hr : r ∈ redirects emulateLLSC) :
    0xFFFFFFE0 ≤ (initSyscalls r.1).toNat ∧
      (initSyscalls r.1).toNat + 4 * r.2.length ≤ 2 ^ 32 := by
  revert r
  cases emulateLLSC <;> decide

theorem redirects_length {r : SyscallAddress × List Word} (hr : r ∈ redirects emulateLLSC) :
    4 * r.2.length ≤ 24 := by
  revert r
  cases emulateLLSC <;> decide

theorem redirects_inj {r r' : SyscallAddress × List Word} (hr : r ∈ redirects emulateLLSC)
    (hr' : r' ∈ redirects emulateLLSC) (h : r.1 = r'.1) : r = r' := by
  have hall : ∀ r ∈ redirects emulateLLSC, ∀ r' ∈ redirects emulateLLSC, r.1 = r'.1 → r = r' := by
    cases emulateLLSC <;> decide
  exact hall r hr r' hr' h

theorem emulated_of_mem {r : SyscallAddress × List Word} (hr : r ∈ redirects emulateLLSC)
    {e : String × SyscallAddress} (he : e ∈ atomics) (h : e.2 = r.1) : emulateLLSC = true := by
  revert r e
  cases emulateLLSC <;> decide

/-- **The blocks of the other addresses** share no byte with a function. -/
theorem not_covers (hap : Apart emulateLLSC d) (hload : loadOSMemoryELF emulateLLSC d m = .ok l)
    (hwrap : NoWrap emulateLLSC d) (hdef : Defines d i f.name a) {r : SyscallAddress × List Word}
    (hr : r ∈ redirects emulateLLSC) (hne : r.1 = f.pointer → l.syscalls r.1 ≠ a) (hk : k < 16) :
    ¬(wordsAt (l.syscalls r.1) r.2).Covers (a + BitVec.ofNat 32 k) := by
  have ha := hap.below f i a hdef
  have hlen := redirects_length hr
  rcases address_cases hload r.1 with ⟨hinit, -⟩ | ⟨g, hg, j, hdef', -⟩ | ⟨e, he, hp, j, hdef'⟩
  · obtain ⟨hlow, hend⟩ := redirects_default hr
    rw [hinit]
    exact not_covers_of_far ha hk (.inl (by omega)) hlen (by omega)
  · have hfar : Far a (l.syscalls r.1) := by
      by_cases hgf : g = f
      · subst hgf
        obtain rfl := hap.once _ _ _ _ _ hdef' hdef
        exact absurd (hdef'.value_eq hdef) (hne hg.symm)
      · exact hap.functions f g i j a _ hdef hdef' (Ne.symm hgf)
    have hb := hap.below g j _ hdef'
    exact not_covers_of_far ha hk hfar hlen (by omega)
  · have hem := emulated_of_mem hr he hp
    have hroom := hwrap hem f e he i j a _ hdef hdef'
    exact not_covers_of_far ha hk (hap.atomics hem f e he i j a _ hdef hdef') hlen (by omega)

/-- A function whose address is kept has there what is written for it. -/
theorem stands_of_address (hap : Apart emulateLLSC d)
    (hload : loadOSMemoryELF emulateLLSC d m = .ok l) (hwrap : NoWrap emulateLLSC d)
    (hdef : Defines d i f.name a) (haddr : l.syscalls f.pointer = a) {call : BitVec 16}
    (hr : (f.pointer, stub call) ∈ redirects emulateLLSC) :
    Stands l.mainMemory a (stub call) := by
  obtain ⟨-, hmem⟩ := loadOSMemoryELF_ok hload
  rw [stands_iff]
  intro k hk
  have hk16 : k < 16 := hk
  have hdist : (a + BitVec.ofNat 32 k - a).toNat = k := toNat_add_sub (by omega)
  have hcovers : (wordsAt (l.syscalls f.pointer) (stub call)).Covers (a + BitVec.ofNat 32 k) := by
    rw [haddr]
    show (a + BitVec.ofNat 32 k - a).toNat < _
    rw [hdist]
    exact hk
  have hblock : wordsAt (l.syscalls f.pointer) (stub call) ∈
      (redirects emulateLLSC).map fun r => wordsAt (l.syscalls r.1) r.2 :=
    List.mem_map.mpr ⟨_, hr, rfl⟩
  rw [hmem, patchAll_of_mem hblock hcovers ?_]
  · show wordsByte (stub call) (a + BitVec.ofNat 32 k - l.syscalls f.pointer).toNat = _
    rw [haddr, hdist]
  · intro q hq hqx
    obtain ⟨r, hr', rfl⟩ := List.mem_map.mp hq
    by_cases hp : r.1 = f.pointer
    · rw [redirects_inj hr' hr hp]
    · exact absurd hqx (not_covers hap hload hwrap hdef hr' (fun h => absurd h hp) hk16)

/-- A function whose address is lost stays as it was loaded. -/
theorem stands_iff_of_lost (hap : Apart emulateLLSC d)
    (hload : loadOSMemoryELF emulateLLSC d m = .ok l) (hwrap : NoWrap emulateLLSC d)
    (hdef : Defines d i f.name a) (haddr : l.syscalls f.pointer ≠ a) (call : BitVec 16) :
    Stands l.mainMemory a (stub call) ↔ Stands (imageOf d m) a (stub call) := by
  obtain ⟨-, hmem⟩ := loadOSMemoryELF_ok hload
  rw [stands_iff, stands_iff]
  refine forall₂_congr fun k hk => ?_
  rw [hmem, patchAll_of_not_covers ?_]
  intro q hq
  obtain ⟨r, hr, rfl⟩ := List.mem_map.mp hq
  exact not_covers hap hload hwrap hdef hr (fun h => h ▸ haddr) hk

end Covers

section Wrap

variable {emulateLLSC : Bool} {d : ElfData} {m : MainMemory} {l : Loaded} {f : OsFunction}
  {i : ℕ} {a c : Word}

/-- The address of an atomic function is that of its last symbol. -/
theorem atomic_address (hload : loadOSMemoryELF emulateLLSC d m = .ok l)
    {e : String × SyscallAddress} (he : e ∈ atomics) (hdef : LastDefines d i e.1 c) :
    l.syscalls e.2 = c := by
  have hsub : ∀ e ∈ atomics, e ∈ functionPointers := by decide
  have hinj : ∀ e ∈ atomics, ∀ e' ∈ atomics, e.2 = e'.2 → e = e' := by decide
  obtain ⟨hparse, -⟩ := loadOSMemoryELF_ok hload
  obtain ⟨-, ⟨-, hnone⟩ | ⟨j, name, hmem', hdef', hlast⟩⟩ :=
    parseElf_cases keyed_functionPointers hparse e.2
  · exact absurd hdef.1 (hnone i e.1 c (hsub e he))
  · rcases functionPointers_cases hmem' with ⟨g, hg⟩ | hatomic
    · exact absurd (Prod.mk.inj hg).2 (pointer_ne_of_atomic he g)
    · have hname : name = e.1 := congrArg Prod.fst (hinj _ hatomic _ he rfl)
      subst hname
      obtain rfl : i = j := Nat.le_antisymm (hlast i e.1 c hmem' hdef.1) (hdef.2 j _ hdef')
      exact hdef'.value_eq hdef.1

/-- The place of a later byte in a block. -/
theorem toNat_add_sub_eq {k : ℕ} (hk : k < 2 ^ 32) :
    (a + BitVec.ofNat 32 k - c).toNat = ((a - c).toNat + k) % 2 ^ 32 := by
  rw [BitVec.toNat_sub, BitVec.toNat_add, BitVec.toNat_sub, BitVec.toNat_ofNat,
    Nat.mod_eq_of_lt hk]
  omega

/-- The first byte of a system call stands in a block of an atomic function at one place
only. -/
theorem atomicByte_eq {ws : List Word} (hws : ws = exAndAdd ∨ ws = atomicAdd) :
    ∀ k < 24, wordsByte ws k = 0x24 → k = 20 := by
  rcases hws with rfl | rfl <;> decide

/-- **The blocks of the atomic functions leave no system call** where they reach into
one. -/
theorem not_stands_of_covers (m : MainMemory) (c₁ c₂ : Word) (call : OsFunction)
    (hcovers : (wordsAt c₁ exAndAdd).Covers a ∨ (wordsAt c₂ atomicAdd).Covers a) :
    ¬Stands (put (put m c₁ 24 (wordsByte exAndAdd)) c₂ 24 (wordsByte atomicAdd)) a
      (stub call.call) := by
  intro h
  rw [stands_iff] at h
  have hstub : wordsByte (stub call.call) 0 = 0x24 ∧ wordsByte (stub call.call) 1 = 0x02 ∧
      wordsByte (stub call.call) 2 ≠ 0x00 := by
    cases call <;> decide
  have h0 := h 0 (show 0 < 16 by decide)
  have h1 := h 1 (show 1 < 16 by decide)
  have h2 := h 2 (show 2 < 16 by decide)
  rw [BitVec.add_zero] at h0
  rcases Nat.lt_or_ge (a - c₂).toNat 24 with hin | hout
  · rw [put_of_lt hin, hstub.1] at h0
    have hplace := atomicByte_eq (.inr rfl) _ hin h0
    have htwo : (a + BitVec.ofNat 32 2 - c₂).toNat = 22 := by
      have hstep := toNat_add_sub_eq (a := a) (c := c₂) (k := 2) (by decide)
      omega
    rw [put_of_lt (by omega), htwo] at h2
    exact hstub.2.2 (h2.symm.trans (by decide))
  · have hin : (a - c₁).toNat < 24 := hcovers.resolve_right (Nat.not_lt_of_le hout)
    rw [put_of_le hout, put_of_lt hin, hstub.1] at h0
    have hplace := atomicByte_eq (.inl rfl) _ hin h0
    have hone : (a + BitVec.ofNat 32 1 - c₁).toNat = 21 := by
      have hstep := toNat_add_sub_eq (a := a) (c := c₁) (k := 1) (by decide)
      omega
    rcases Nat.lt_or_ge (a + BitVec.ofNat 32 1 - c₂).toNat 24 with hin₁ | hout₁
    · -- the second block begins right after the byte
      have hfirst : (a + BitVec.ofNat 32 1 - c₂).toNat = 0 := by
        have hstep := toNat_add_sub_eq (a := a) (c := c₂) (k := 1) (by decide)
        omega
      rw [put_of_lt hin₁, hfirst, hstub.2.1] at h1
      exact absurd h1 (by decide)
    · rw [put_of_le hout₁, put_of_lt (by omega), hone, hstub.2.1] at h1
      exact absurd h1 (by decide)

/-- Functions that have their system calls are not reached into. -/
theorem noWrap_of_stands (hap : Apart emulateLLSC d)
    (hload : loadOSMemoryELF emulateLLSC d m = .ok l)
    (hall : ∀ (f : OsFunction) i a, Defines d i f.name a → Stands l.mainMemory a (stub f.call)) :
    NoWrap emulateLLSC d := by
  intro hem f e he i j a c hdef hatomic
  subst hem
  by_contra hlt
  have ha := a.isLt
  have hc := c.isLt
  have hfar := hap.atomics rfl f e he i j a c hdef hatomic
  have hcovers : (a - c).toNat < 24 := by
    rw [BitVec.toNat_sub]
    unfold Far at hfar
    omega
  have haddr := atomic_address hload he hatomic
  obtain ⟨-, hmem⟩ := loadOSMemoryELF_ok hload
  have hstands := hall f i a hdef
  rw [hmem, redirects, if_pos rfl, List.map_append, patchAll_append] at hstands
  refine not_stands_of_covers _ _ _ f ?_ hstands
  rcases List.mem_cons.mp he with rfl | he
  · left
    show (a - l.syscalls .cxxExAndAdd).toNat < 24
    rw [show l.syscalls .cxxExAndAdd = c from haddr]
    exact hcovers
  · obtain rfl := List.mem_singleton.mp he
    right
    show (a - l.syscalls .cxxAtomicAdd).toNat < 24
    rw [show l.syscalls .cxxAtomicAdd = c from haddr]
    exact hcovers

end Wrap

/-- **Which images get their system calls.**  After an image has been loaded, every
function has its own system call if and only if none is reached into by a block that
wraps, and of the three functions that share an address the last is `__libc_write` and
the others have theirs in the file. -/
theorem patched_iff (emulateLLSC : Bool) (d : ElfData) (m : MainMemory) (l : Loaded)
    (hload : loadOSMemoryELF emulateLLSC d m = .ok l) (hap : Apart emulateLLSC d) :
    (∀ (f : OsFunction) i a, Defines d i f.name a → Stands l.mainMemory a (stub f.call)) ↔
      Wired d m ∧ NoWrap emulateLLSC d := by
  constructor
  · intro hall
    have hwrap := noWrap_of_stands hap hload hall
    refine ⟨fun f i a hshared hdef => ⟨fun hlast => ?_, fun hlast => ?_⟩, hwrap⟩
    · have haddr := address_eq hap hload hdef fun _ => hlast
      have hwrite : (f.pointer, stub 4004) ∈ redirects emulateLLSC := by
        rw [show f.pointer = OsFunction.libcWrite.pointer from hshared]
        exact mem_redirects emulateLLSC .libcWrite fun _ => rfl
      have hstub := stands_of_address hap hload hwrap hdef haddr hwrite 0 (show 0 < 4 by decide)
      rw [hall f i a hdef 0 (show 0 < 4 by decide)] at hstub
      revert hstub
      cases f <;> decide
    · exact (stands_iff_of_lost hap hload hwrap hdef
        (address_ne hap hload hdef hshared hlast) _).mp (hall f i a hdef)
  · rintro ⟨hwired, hwrap⟩ f i a hdef
    by_cases hlast : f.Shared → LastShared d i
    · have haddr := address_eq hap hload hdef hlast
      have hmem := mem_redirects emulateLLSC f fun hs => (hwired f i a hs hdef).1 (hlast hs)
      exact stands_of_address hap hload hwrap hdef haddr hmem
    · obtain ⟨hshared, hnot⟩ := Classical.not_imp.mp hlast
      exact (stands_iff_of_lost hap hload hwrap hdef
        (address_ne hap hload hdef hshared hnot) _).mpr ((hwired f i a hshared hdef).2 hnot)

section TwoFunctions

/-- The bytes of words. -/
def words (ws : List Word) : List (BitVec 8) := ws.flatMap fun v => (List.range 4).map (byteOf 4 v)

/-- The bytes of half words. -/
def halves (hs : List (BitVec 16)) : List (BitVec 8) :=
  hs.flatMap fun v => (List.range 2).map (byteOf 2 v)

/-- A file with `__libc_write` at `0x00400000` and `__libc_read` after it: the ELF header,
a program header, the segment, the symbols, the strings and the section headers. -/
def twoFunctions : List (BitVec 8) :=
  [0x7F, 0x45, 0x4C, 0x46, 1, 2, 1, 0] ++ words [0, 0] ++ halves [2, 8] ++
    words [1, 0x00400000, 52, 222, 0] ++ halves [52, 32, 1, 40, 3, 2] ++
  words [1, 84, 0x00400000, 0x00400000, 48, 48, 5, 4] ++
  List.replicate 48 0 ++
  words [0, 0, 0, 0] ++ words [17, 0x00400000, 24, 0x1200FFF1] ++
    words [30, 0x00400018, 24, 0x1200FFF1] ++
  [0] ++ chars ".symtab" ++ [0] ++ chars ".strtab" ++ [0] ++ chars "__libc_write" ++ [0] ++
    chars "__libc_read" ++ [0] ++
  words [0, 0, 0, 0, 0, 0, 0, 0, 0, 0] ++ words [1, 2, 0, 0, 132, 48, 2, 1, 4, 16] ++
    words [9, 3, 0, 0, 180, 42, 0, 0, 1, 0]

def twoFunctionsData : ElfData := fun p => twoFunctions.getD p 0

theorem symbols_twoFunctions : symbols twoFunctionsData = .ok (some ⟨132, 3, 180⟩) := rfl

theorem load_twoFunctions :
    ∃ l, loadOSMemoryELF true twoFunctionsData (fun _ => 0) = .ok l := by
  have hheader : checkHeader twoFunctionsData = 0 := by decide +kernel
  unfold loadOSMemoryELF
  rw [parseElf_of_symbols hheader symbols_twoFunctions]
  exact ⟨_, rfl⟩

/-- A symbol of the file. -/
theorem defines_twoFunctions_iff {i : ℕ} {name : String} {a : Word} :
    Defines twoFunctionsData i name a ↔ i < 3 ∧
      Symbols.isFunc twoFunctionsData ⟨132, 3, 180⟩ i = true ∧
        isString twoFunctionsData (Symbols.name twoFunctionsData ⟨132, 3, 180⟩ i) name = true ∧
          Symbols.value twoFunctionsData ⟨132, 3, 180⟩ i = a := by
  unfold Defines
  rw [symbols_twoFunctions]
  constructor
  · rintro ⟨t, ht, h⟩
    obtain rfl := Option.some.inj (Except.ok.inj ht)
    exact h
  · exact fun h => ⟨_, rfl, h⟩

theorem defines_twoFunctions {f : OsFunction} {i : ℕ} {a : Word}
    (h : Defines twoFunctionsData i f.name a) :
    (f = .libcWrite ∧ i = 1 ∧ a = 0x00400000) ∨ (f = .libcRead ∧ i = 2 ∧ a = 0x00400018) := by
  obtain ⟨hi, hf, hname, rfl⟩ := defines_twoFunctions_iff.mp h
  clear h
  revert i
  cases f <;> decide +kernel

theorem not_defines_twoFunctions {e : String × SyscallAddress} (he : e ∈ atomics) {i : ℕ}
    {a : Word} : ¬Defines twoFunctionsData i e.1 a := by
  intro h
  obtain ⟨hi, hf, hname, -⟩ := defines_twoFunctions_iff.mp h
  clear h
  revert e i
  decide +kernel

theorem apart_twoFunctions : Apart true twoFunctionsData where
  once := by
    intro f i j a b h h'
    rcases defines_twoFunctions h with ⟨rfl, rfl, rfl⟩ | ⟨rfl, rfl, rfl⟩ <;>
      rcases defines_twoFunctions h' with ⟨hf, rfl, rfl⟩ | ⟨hf, rfl, rfl⟩ <;>
        first | rfl | exact absurd hf (by decide)
  below := by
    intro f i a h
    rcases defines_twoFunctions h with ⟨rfl, rfl, rfl⟩ | ⟨rfl, rfl, rfl⟩ <;> decide
  functions := by
    intro f g i j a b h h' hne
    rcases defines_twoFunctions h with ⟨rfl, rfl, rfl⟩ | ⟨rfl, rfl, rfl⟩ <;>
      rcases defines_twoFunctions h' with ⟨rfl, rfl, rfl⟩ | ⟨rfl, rfl, rfl⟩ <;>
        first | exact absurd rfl hne | exact .inl (by decide) | exact .inr (by decide)
  atomics := fun _ _ e he _ _ _ _ _ h => absurd h.1 (not_defines_twoFunctions he)

end TwoFunctions

theorem patched_iff_twoFunctions : ∃ l,
    loadOSMemoryELF true twoFunctionsData (fun _ => 0) = .ok l ∧
      ((∀ (f : OsFunction) i a, Defines twoFunctionsData i f.name a →
          Stands l.mainMemory a (stub f.call)) ↔
        Wired twoFunctionsData (fun _ => 0) ∧ NoWrap true twoFunctionsData) := by
  obtain ⟨l, hl⟩ := load_twoFunctions
  exact ⟨l, hl, patched_iff true twoFunctionsData (fun _ => 0) l hl apart_twoFunctions⟩

/-- `__libc_read` gets the system call of `__libc_write`. -/
theorem not_patched_twoFunctions : ¬∀ (emulateLLSC : Bool) (d : ElfData) (m : MainMemory)
    (l : Loaded), loadOSMemoryELF emulateLLSC d m = .ok l → Apart emulateLLSC d →
      ∀ (f : OsFunction) i a, Defines d i f.name a → Stands l.mainMemory a (stub f.call) := by
  intro hall
  obtain ⟨l, hl⟩ := load_twoFunctions
  have hread : Defines twoFunctionsData 2 OsFunction.libcRead.name 0x00400018 :=
    defines_twoFunctions_iff.mpr (by decide +kernel)
  have hlast : LastShared twoFunctionsData 2 := by
    intro g j b _ h
    rcases defines_twoFunctions h with ⟨-, rfl, -⟩ | ⟨-, rfl, -⟩ <;> decide
  have hwrap : NoWrap true twoFunctionsData := fun _ _ e he _ _ _ _ _ h =>
    absurd h.1 (not_defines_twoFunctions he)
  have haddr := address_eq apart_twoFunctions hl hread fun _ => hlast
  have hwrite : Stands l.mainMemory 0x00400018 (stub 4004) :=
    stands_of_address apart_twoFunctions hl hwrap hread haddr (by decide)
  have hown := hall true twoFunctionsData _ l hl apart_twoFunctions .libcRead 2 _ hread
  exact absurd ((hown 0 (by decide)).symm.trans (hwrite 0 (by decide))) (by decide)

end Sim
end OooProcessor
