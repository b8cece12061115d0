/-
# The break of the simulator

`mm_sbrk` of `sim_main/sm_heap.cpp`.  `current_break` is a `uint32_t` and so is compared
unsigned with `exec.BREAKSTART`, an `int`; the sum is an `int64_t`, which holds it
exactly, and both ends of the window are widened to it with their sign.

`LoadOSMemoryELF` sets the ends to `0x80000000` and `0xC0000000`, which are negative as
`int`s, and the sum of a `uint32_t` of at least `2^31` and an `int32_t` is not: the
break stays where it is (`mmSbrk_loaded`).
-/

import OooProcessor.Sim.Patching

namespace OooProcessor
namespace Sim

/-- `mm_sbrk`: the value of `current_break` it leaves and returns. -/
def mmSbrk (exec : ExecInfo) (currentBreak value : Word) : Word :=
  let currentBreak := if currentBreak < exec.breakStart then exec.breakStart else currentBreak
  let tempBreak : ℤ := (currentBreak.toNat : ℤ) + value.toInt
  if exec.breakStart.toInt ≤ tempBreak ∧ tempBreak < exec.heapStart.toInt then
    BitVec.ofInt 32 tempBreak
  else currentBreak

/-- `current_break` after these calls. -/
def breakAfter (exec : ExecInfo) (values : List Word) : Word :=
  values.foldl (mmSbrk exec) 0

/-- The address is in the window of the break. -/
def InWindow (exec : ExecInfo) (a : ℤ) : Prop :=
  (exec.breakStart.toNat : ℤ) ≤ a ∧ a < exec.heapStart.toNat

/-- The break from which a call moves: before the first call it is at its start. -/
def breakBefore (exec : ExecInfo) (values : List Word) : Word :=
  if values = [] then exec.breakStart else breakAfter exec values

/-- The call with `value` after `values` leaves the break in its window, and moves it by
`value` if it stays in the window. -/
structure Moves (exec : ExecInfo) (values : List Word) (value : Word) : Prop where
  window : InWindow exec (breakAfter exec (values ++ [value])).toNat
  moved : InWindow exec ((breakBefore exec values).toNat + value.toInt) →
    ((breakAfter exec (values ++ [value])).toNat : ℤ) =
      (breakBefore exec values).toNat + value.toInt
  unmoved : ¬InWindow exec ((breakBefore exec values).toNat + value.toInt) →
    breakAfter exec (values ++ [value]) = breakBefore exec values

/-- Every call of the sequence moves the break so. -/
def MovesBreak (exec : ExecInfo) (values : List Word) : Prop :=
  ∀ before value after, values = before ++ value :: after → Moves exec before value

section Loaded

variable {exec : ExecInfo}

/-- **The break never moves** from where `LoadOSMemoryELF` starts it. -/
theorem mmSbrk_loaded (hbreak : exec.breakStart = 0x80000000) (hheap : exec.heapStart = 0xC0000000)
    {currentBreak : Word} (h : currentBreak = 0 ∨ currentBreak = 0x80000000) (value : Word) :
    mmSbrk exec currentBreak value = 0x80000000 := by
  have hstart : (if currentBreak < exec.breakStart then exec.breakStart else currentBreak) =
      0x80000000 := by
    rw [hbreak]
    rcases h with rfl | rfl
    · rfl
    · rfl
  have hvalue : -2 ^ 31 ≤ value.toInt := BitVec.le_toInt value
  have hnat : (0x80000000 : Word).toNat = 2 ^ 31 := rfl
  have hint : exec.heapStart.toInt = -2 ^ 30 := by
    rw [hheap]
    rfl
  have hout : ¬(((0x80000000 : Word).toNat : ℤ) + value.toInt < exec.heapStart.toInt) := by omega
  simp only [mmSbrk, hstart]
  exact if_neg fun h => hout h.2

theorem breakAfter_loaded (hbreak : exec.breakStart = 0x80000000)
    (hheap : exec.heapStart = 0xC0000000) (values : List Word) (value : Word) :
    breakAfter exec (values ++ [value]) = 0x80000000 := by
  have hreach (values : List Word) :
      breakAfter exec values = 0 ∨ breakAfter exec values = 0x80000000 := by
    induction values using List.reverseRecOn with
    | nil => exact .inl rfl
    | append_singleton values value ih =>
      rw [breakAfter, List.foldl_append]
      exact .inr (mmSbrk_loaded hbreak hheap ih value)
  rw [breakAfter, List.foldl_append]
  exact mmSbrk_loaded hbreak hheap (hreach values) value

theorem breakBefore_loaded (hbreak : exec.breakStart = 0x80000000)
    (hheap : exec.heapStart = 0xC0000000) (values : List Word) :
    breakBefore exec values = 0x80000000 := by
  unfold breakBefore
  split_ifs with h
  · exact hbreak
  · obtain ⟨before, value, rfl⟩ := (List.eq_nil_or_concat' values).resolve_left h
    exact breakAfter_loaded hbreak hheap before value

/-- One call. -/
theorem moves_loaded_iff (hbreak : exec.breakStart = 0x80000000)
    (hheap : exec.heapStart = 0xC0000000) (values : List Word) (value : Word) :
    Moves exec values value ↔ ¬(0 < value.toInt ∧ value.toInt < 2 ^ 30) := by
  have hafter := breakAfter_loaded hbreak hheap values value
  have hbefore := breakBefore_loaded hbreak hheap values
  have hlo : exec.breakStart.toNat = 2 ^ 31 := by rw [hbreak]; rfl
  have hhi : exec.heapStart.toNat = 3 * 2 ^ 30 := by rw [hheap]; rfl
  have hnat : (0x80000000 : Word).toNat = 2 ^ 31 := rfl
  constructor
  · rintro ⟨-, hmoved, -⟩ ⟨hpos, hlt⟩
    rw [hafter, hbefore] at hmoved
    have := hmoved ⟨by omega, by omega⟩
    omega
  · intro h
    constructor
    · rw [hafter]
      constructor
      · omega
      · omega
    · rw [hafter, hbefore]
      rintro ⟨hge, hlt⟩
      omega
    · intro _
      rw [hafter, hbefore]

end Loaded

theorem exec_of_load {emulateLLSC : Bool} {d : ElfData} {m : MainMemory} {l : Loaded}
    (h : loadOSMemoryELF emulateLLSC d m = .ok l) :
    l.exec.breakStart = 0x80000000 ∧ l.exec.heapStart = 0xC0000000 := by
  unfold loadOSMemoryELF at h
  split at h
  next => cases h
  next =>
    obtain rfl := Except.ok.inj h
    exact ⟨rfl, rfl⟩

/-- **When the break moves as it is asked to:** for a sequence of calls of which none
asks for `1` to `2^30 - 1` bytes. -/
theorem movesBreak_iff {emulateLLSC : Bool} {d : ElfData} {m : MainMemory} {l : Loaded}
    (h : loadOSMemoryELF emulateLLSC d m = .ok l) (values : List Word) :
    MovesBreak l.exec values ↔
      ∀ value ∈ values, ¬(0 < value.toInt ∧ value.toInt < 2 ^ 30) := by
  obtain ⟨hbreak, hheap⟩ := exec_of_load h
  constructor
  · intro hall value hmem
    obtain ⟨before, after, heq⟩ := List.append_of_mem hmem
    exact (moves_loaded_iff hbreak hheap before value).mp (hall before value after heq)
  · rintro hall before value after rfl
    exact (moves_loaded_iff hbreak hheap before value).mpr (hall value (by simp))

theorem movesBreak_iff_twoFunctions : ∃ l,
    loadOSMemoryELF true twoFunctionsData (fun _ => 0) = .ok l ∧
      (MovesBreak l.exec [0, -4] ↔
        ∀ value ∈ [(0 : Word), -4], ¬(0 < value.toInt ∧ value.toInt < 2 ^ 30)) := by
  obtain ⟨l, hl⟩ := load_twoFunctions
  exact ⟨l, hl, movesBreak_iff hl [0, -4]⟩

/-- A call for one byte. -/
theorem not_movesBreak_one : ∃ l, loadOSMemoryELF true twoFunctionsData (fun _ => 0) = .ok l ∧
    ¬MovesBreak l.exec [1] := by
  obtain ⟨l, hl⟩ := load_twoFunctions
  obtain ⟨hbreak, hheap⟩ := exec_of_load hl
  refine ⟨l, hl, fun hall => ?_⟩
  exact (moves_loaded_iff hbreak hheap [] 1).mp (hall [] 1 [] rfl) (by decide)

end Sim
end OooProcessor
