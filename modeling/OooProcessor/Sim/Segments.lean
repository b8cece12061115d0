/-
# The segments of an executable

What `parse_elf` of `sim_main/elf/elf_reader.cpp` makes of the program headers and the
section headers: `segmentList` (`segmentList_eq`) and `maxUsedAddr`
(`maxUsedAddr_eq_zero`).

`p_flags` has 32 bits and is passed through `bswap_16`, which keeps the upper half of the
big-endian number.  The largest address in use starts at 0 and is replaced by a smaller
one only, so that it stays 0.
-/

import OooProcessor.Sim.Patching
import Mathlib.Order.Bounds.Defs

namespace OooProcessor
namespace Sim

open Lib

/-- The big-endian number of the `k` bytes from `p` on. -/
def bigEndianAt (d : ElfData) (p k : ℕ) : ℕ := number (fun i => d (p + i)) k

/-- The offset of program header `i`. -/
def phdrAt (d : ElfData) (i : ℕ) : ℕ := bigEndianAt d 28 4 + 32 * i

/-- The offset of section header `i`. -/
def shdrAt (d : ElfData) (i : ℕ) : ℕ := bigEndianAt d 32 4 + 40 * i

/-- A program header of type `PT_LOAD`, `PT_NOTE` or `PT_MIPS_REGINFO`. -/
def Listed (d : ElfData) (phdr : ℕ) : Prop :=
  bigEndianAt d phdr 4 = 1 ∨ bigEndianAt d phdr 4 = 4 ∨ bigEndianAt d phdr 4 = 0x70000000

instance (d : ElfData) (phdr : ℕ) : Decidable (Listed d phdr) :=
  inferInstanceAs (Decidable (_ ∨ _ ∨ _))

/-- A section header with `SHF_ALLOC`, which is bit 1. -/
def Allocated (d : ElfData) (shdr : ℕ) : Prop := (bigEndianAt d (shdr + 8) 4).testBit 1 = true

/-- The segment that a program header describes, every field of it a 32-bit number. -/
def describedSegment (d : ElfData) (phdr : ℕ) : ExeSegment where
  offsetInFile := BitVec.ofNat 32 (bigEndianAt d (phdr + 4) 4)
  lengthInFile := BitVec.ofNat 32 (bigEndianAt d (phdr + 16) 4)
  startAddress := BitVec.ofNat 32 (bigEndianAt d (phdr + 8) 4)
  sizeInMemory := BitVec.ofNat 32 (bigEndianAt d (phdr + 20) 4)
  protFlags := BitVec.ofNat 32 (bigEndianAt d (phdr + 24) 4)
  type := BitVec.ofNat 32 (bigEndianAt d phdr 4)

/-- The program headers to list, in file order. -/
def listedPhdrs (d : ElfData) : List ℕ :=
  ((List.range (bigEndianAt d 44 2)).map (phdrAt d)).filter (Listed d ·)

/-- Where the segments of a list and the allocated sections of an image end. -/
def usedEnds (d : ElfData) (segmentList : List ExeSegment) : Set ℕ :=
  {a | (∃ seg ∈ segmentList, a = seg.startAddress.toNat + seg.sizeInMemory.toNat) ∨
    ∃ i < bigEndianAt d 48 2, Allocated d (shdrAt d i) ∧
      a = bigEndianAt d (shdrAt d i + 12) 4 + bigEndianAt d (shdrAt d i + 20) 4}

section BigEndian

variable (d : ElfData) (p : ℕ)

theorem bigEndianAt_four : bigEndianAt d p 4 =
    2 ^ 24 * (d p).toNat + 2 ^ 16 * (d (p + 1)).toNat + 2 ^ 8 * (d (p + 2)).toNat +
      (d (p + 3)).toNat := by
  simp only [bigEndianAt, number, Nat.add_zero]
  omega

theorem bigEndianAt_two : bigEndianAt d p 2 = 2 ^ 8 * (d p).toNat + (d (p + 1)).toNat := by
  simp only [bigEndianAt, number, Nat.add_zero]
  omega

/-- A concatenation is a number in base `2^8`. -/
theorem toNat_append_byte {w : ℕ} (x : BitVec w) (b : BitVec 8) :
    (x ++ b).toNat = 2 ^ 8 * x.toNat + b.toNat := by
  rw [BitVec.toNat_append, ← Nat.shiftLeft_add_eq_or_of_lt b.isLt, Nat.shiftLeft_eq, Nat.mul_comm]

theorem toNat_bswap32 : (bswap32 d p).toNat = bigEndianAt d p 4 := by
  rw [bigEndianAt_four, bswap32, toNat_append_byte, toNat_append_byte, toNat_append_byte]
  omega

theorem toNat_bswap16 : (bswap16 d p).toNat = bigEndianAt d p 2 := by
  rw [bigEndianAt_two, bswap16, toNat_append_byte]

theorem bswap32_eq : bswap32 d p = BitVec.ofNat 32 (bigEndianAt d p 4) := by
  rw [← toNat_bswap32, BitVec.ofNat_toNat, BitVec.setWidth_eq]

/-- **The flags are right when they are 0**: what is kept of them is the upper half. -/
theorem setWidth_bswap16_eq_iff :
    (bswap16 d p).setWidth 32 = BitVec.ofNat 32 (bigEndianAt d p 4) ↔ bigEndianAt d p 4 = 0 := by
  have h0 := (d p).isLt
  have h1 := (d (p + 1)).isLt
  have h2 := (d (p + 2)).isLt
  have h3 := (d (p + 3)).isLt
  have h16 : ((bswap16 d p).setWidth 32).toNat = bigEndianAt d p 2 := by
    rw [BitVec.toNat_setWidth, toNat_bswap16, bigEndianAt_two]
    exact Nat.mod_eq_of_lt (by omega)
  rw [← bswap32_eq, ← BitVec.toNat_inj, h16, toNat_bswap32, bigEndianAt_two, bigEndianAt_four]
  omega

end BigEndian

section Headers

variable {d : ElfData}

/-- The segment that `parse_elf` makes of a program header. -/
def segmentOf (d : ElfData) (phdr : ℕ) : ExeSegment :=
  { describedSegment d phdr with protFlags := (bswap16 d (phdr + 24)).setWidth 32 }

theorem listed_iff (phdr : ℕ) : (bswap32 d phdr = ptMipsReginfo ∨ bswap32 d phdr = ptNote ∨
    bswap32 d phdr = ptLoad) ↔ Listed d phdr := by
  have htype (v : Word) : bswap32 d phdr = v ↔ bigEndianAt d phdr 4 = v.toNat := by
    rw [← BitVec.toNat_inj, toNat_bswap32]
  have hreg : ptMipsReginfo.toNat = 0x70000000 := rfl
  have hnote : ptNote.toNat = 4 := rfl
  have hload : ptLoad.toNat = 1 := rfl
  rw [htype, htype, htype, hreg, hnote, hload, Listed]
  omega

theorem readPhdr_segmentList (f : ExeFormat) (phdr : ℕ) : (readPhdr d f phdr).segmentList =
    f.segmentList ++ if Listed d phdr then [segmentOf d phdr] else [] := by
  have hseg : segmentOf d phdr =
      { offsetInFile := bswap32 d (phdr + 4)
        lengthInFile := bswap32 d (phdr + 16)
        startAddress := bswap32 d (phdr + 8)
        sizeInMemory := bswap32 d (phdr + 20)
        protFlags := (bswap16 d (phdr + 24)).setWidth 32
        type := bswap32 d phdr } := by
    simp only [segmentOf, describedSegment, bswap32_eq]
  simp only [readPhdr, listed_iff]
  by_cases hl : Listed d phdr
  · rw [if_pos hl, if_pos hl, hseg]
    split_ifs
    · rfl
    · rfl
  · have htype : ¬bswap32 d phdr = ptMipsReginfo := fun h => hl ((listed_iff phdr).mp (.inl h))
    rw [if_neg hl, if_neg hl, if_neg htype, List.append_nil]

theorem readShdr_segmentList (f : ExeFormat) (shdr : ℕ) :
    (readShdr d f shdr).segmentList = f.segmentList := by
  unfold readShdr
  split_ifs
  · rfl
  · rfl

/-- **The list of segments**, all but the flags as the headers describe them. -/
theorem segmentList_eq : (exeFormat d).segmentList = (listedPhdrs d).map (segmentOf d) := by
  have hphdrs (p n : ℕ) (f : ExeFormat) :
      ((List.range n).foldl (fun f i => readPhdr d f (p + 32 * i)) f).segmentList =
        f.segmentList ++
          (((List.range n).map (p + 32 * ·)).filter (Listed d ·)).map (segmentOf d) := by
    induction n with
    | zero => simp
    | succ n ih =>
      rw [List.range_succ, List.foldl_append, List.foldl_cons, List.foldl_nil,
        readPhdr_segmentList, ih, List.map_append, List.filter_append, List.map_append,
        List.append_assoc]
      by_cases hl : Listed d (p + 32 * n)
      · simp [hl]
      · simp [hl]
  have hshdrs (p n : ℕ) (f : ExeFormat) :
      ((List.range n).foldl (fun f i => readShdr d f (p + 40 * i)) f).segmentList =
        f.segmentList := by
    induction n with
    | zero => rfl
    | succ n ih =>
      rw [List.range_succ, List.foldl_append, List.foldl_cons, List.foldl_nil,
        readShdr_segmentList, ih]
  simp only [exeFormat]
  rw [hshdrs, hphdrs, List.nil_append, toNat_bswap16, toNat_bswap32]
  rfl

/-- **No address in use is ever recorded.** -/
theorem maxUsedAddr_eq_zero : (exeFormat d).maxUsedAddr = 0 := by
  have huse (f : ExeFormat) (segEnd : Word) (h : f.maxUsedAddr = 0) :
      (f.useUpTo segEnd).maxUsedAddr = 0 := by
    show (if segEnd < f.maxUsedAddr then segEnd else f.maxUsedAddr) = 0
    rw [h]
    exact if_neg BitVec.not_lt_zero
  have hphdr (f : ExeFormat) (phdr : ℕ) (h : f.maxUsedAddr = 0) :
      (readPhdr d f phdr).maxUsedAddr = 0 := by
    simp only [readPhdr]
    split_ifs
    all_goals first | exact h | exact huse _ _ h
  have hshdr (f : ExeFormat) (shdr : ℕ) (h : f.maxUsedAddr = 0) :
      (readShdr d f shdr).maxUsedAddr = 0 := by
    unfold readShdr
    split_ifs
    · exact huse f _ h
    · exact h
  unfold exeFormat
  refine List.foldlRecOn (motive := fun f => f.maxUsedAddr = 0) _ _ ?_ fun f h i _ => hshdr f _ h
  refine List.foldlRecOn (motive := fun f => f.maxUsedAddr = 0) _ _ ?_ fun f h i _ => hphdr f _ h
  rfl

end Headers

section Parsed

variable {π : Type} [DecidableEq π] {functionPointers : List (String × π)} {d : ElfData}
  {s s' : π → Word} {f : ExeFormat}

theorem format_of_parseElf (h : parseElf functionPointers d s = .ok (f, s')) :
    f = exeFormat d := by
  unfold parseElf at h
  split_ifs at h
  split at h
  next => cases h
  next => exact (Prod.mk.inj (Except.ok.inj h)).1.symm
  next => exact (Prod.mk.inj (Except.ok.inj h)).1.symm

/-- **When the program headers are decoded exactly:** when the flags of all of those that
are listed are 0. -/
theorem decodedExactly_iff (h : parseElf functionPointers d s = .ok (f, s')) :
    f.segmentList = (listedPhdrs d).map (describedSegment d) ↔
      ∀ i < bigEndianAt d 44 2, Listed d (phdrAt d i) → bigEndianAt d (phdrAt d i + 24) 4 = 0 := by
  have hseg (phdr : ℕ) : segmentOf d phdr = describedSegment d phdr ↔
      bigEndianAt d (phdr + 24) 4 = 0 := by
    rw [← setWidth_bswap16_eq_iff]
    constructor
    · exact fun h => congrArg ExeSegment.protFlags h
    · intro h
      rw [segmentOf, h]
      rfl
  rw [format_of_parseElf h, segmentList_eq, List.map_inj_left]
  constructor
  · intro hall i hi hl
    refine (hseg _).mp (hall _ ?_)
    exact List.mem_filter.mpr ⟨List.mem_map_of_mem (List.mem_range.mpr hi), decide_eq_true hl⟩
  · intro hall phdr hmem
    obtain ⟨hphdr, hl⟩ := List.mem_filter.mp hmem
    obtain ⟨i, hi, rfl⟩ := List.mem_map.mp hphdr
    exact (hseg _).mpr (hall i (List.mem_range.mp hi) (of_decide_eq_true hl))

/-- Where the described segments end. -/
theorem end_segmentOf (phdr : ℕ) : (segmentOf d phdr).startAddress.toNat +
    (segmentOf d phdr).sizeInMemory.toNat =
      bigEndianAt d (phdr + 8) 4 + bigEndianAt d (phdr + 20) 4 := by
  rw [← toNat_bswap32, ← toNat_bswap32, bswap32_eq, bswap32_eq]
  rfl

/-- What is in use, header by header. -/
theorem mem_usedEnds (a : ℕ) : a ∈ usedEnds d (exeFormat d).segmentList ↔
    (∃ i < bigEndianAt d 44 2, Listed d (phdrAt d i) ∧
      a = bigEndianAt d (phdrAt d i + 8) 4 + bigEndianAt d (phdrAt d i + 20) 4) ∨
    ∃ i < bigEndianAt d 48 2, Allocated d (shdrAt d i) ∧
      a = bigEndianAt d (shdrAt d i + 12) 4 + bigEndianAt d (shdrAt d i + 20) 4 := by
  simp only [usedEnds, segmentList_eq, listedPhdrs, Set.mem_ofPred_eq, List.mem_map,
    List.mem_filter, List.mem_range, decide_eq_true_eq]
  refine or_congr ⟨?_, ?_⟩ Iff.rfl
  · rintro ⟨seg, ⟨phdr, ⟨⟨i, hi, rfl⟩, hl⟩, rfl⟩, rfl⟩
    exact ⟨i, hi, hl, end_segmentOf _⟩
  · rintro ⟨i, hi, hl, rfl⟩
    exact ⟨_, ⟨_, ⟨⟨i, hi, rfl⟩, hl⟩, rfl⟩, (end_segmentOf _).symm⟩

/-- **When the largest address in use is recorded:** when something is in use, and nothing
is used above address 0. -/
theorem highestUsed_iff (h : parseElf functionPointers d s = .ok (f, s')) :
    IsGreatest (usedEnds d f.segmentList) f.maxUsedAddr.toNat ↔
      ((∃ i < bigEndianAt d 44 2, Listed d (phdrAt d i)) ∨
        ∃ i < bigEndianAt d 48 2, Allocated d (shdrAt d i)) ∧
      (∀ i < bigEndianAt d 44 2, Listed d (phdrAt d i) →
        bigEndianAt d (phdrAt d i + 8) 4 + bigEndianAt d (phdrAt d i + 20) 4 = 0) ∧
      ∀ i < bigEndianAt d 48 2, Allocated d (shdrAt d i) →
        bigEndianAt d (shdrAt d i + 12) 4 + bigEndianAt d (shdrAt d i + 20) 4 = 0 := by
  rw [format_of_parseElf h, maxUsedAddr_eq_zero]
  constructor
  · rintro ⟨hin, hle⟩
    have hzero {a : ℕ} (ha : a ∈ usedEnds d (exeFormat d).segmentList) : a = 0 :=
      Nat.le_zero.mp (hle ha)
    refine ⟨?_, fun i hi hl => hzero ((mem_usedEnds _).mpr (.inl ⟨i, hi, hl, rfl⟩)),
      fun i hi hl => hzero ((mem_usedEnds _).mpr (.inr ⟨i, hi, hl, rfl⟩))⟩
    rcases (mem_usedEnds _).mp hin with ⟨i, hi, hl, -⟩ | ⟨i, hi, hl, -⟩
    · exact .inl ⟨i, hi, hl⟩
    · exact .inr ⟨i, hi, hl⟩
  · rintro ⟨hsome, hphdrs, hshdrs⟩
    constructor
    · rcases hsome with ⟨i, hi, hl⟩ | ⟨i, hi, hl⟩
      · exact (mem_usedEnds _).mpr (.inl ⟨i, hi, hl, (hphdrs i hi hl).symm⟩)
      · exact (mem_usedEnds _).mpr (.inr ⟨i, hi, hl, (hshdrs i hi hl).symm⟩)
    · intro a ha
      rcases (mem_usedEnds _).mp ha with ⟨i, hi, hl, rfl⟩ | ⟨i, hi, hl, rfl⟩
      · exact (hphdrs i hi hl).le
      · exact (hshdrs i hi hl).le

end Parsed

section TwoFunctions

theorem parse_twoFunctions : ∃ r,
    parseElf functionPointers twoFunctionsData initSyscalls = .ok r ∧
      r.1 = exeFormat twoFunctionsData := by
  have hheader : checkHeader twoFunctionsData = 0 := by decide +kernel
  exact ⟨_, parseElf_of_symbols hheader symbols_twoFunctions initSyscalls, rfl⟩

theorem decodedExactly_iff_twoFunctions : ∃ f s',
    parseElf functionPointers twoFunctionsData initSyscalls = .ok (f, s') ∧
      (f.segmentList = (listedPhdrs twoFunctionsData).map (describedSegment twoFunctionsData) ↔
        ∀ i < bigEndianAt twoFunctionsData 44 2,
          Listed twoFunctionsData (phdrAt twoFunctionsData i) →
            bigEndianAt twoFunctionsData (phdrAt twoFunctionsData i + 24) 4 = 0) := by
  obtain ⟨⟨f, s'⟩, h, -⟩ := parse_twoFunctions
  exact ⟨f, s', h, decodedExactly_iff h⟩

/-- The segment of the file has the flags 5. -/
theorem not_decodedExactly_twoFunctions : ∃ f s',
    parseElf functionPointers twoFunctionsData initSyscalls = .ok (f, s') ∧
      f.segmentList ≠ (listedPhdrs twoFunctionsData).map (describedSegment twoFunctionsData) := by
  obtain ⟨⟨f, s'⟩, h, rfl⟩ := parse_twoFunctions
  refine ⟨_, s', h, ?_⟩
  rw [segmentList_eq]
  decide +kernel

theorem highestUsed_iff_twoFunctions : ∃ f s',
    parseElf functionPointers twoFunctionsData initSyscalls = .ok (f, s') ∧
      (IsGreatest (usedEnds twoFunctionsData f.segmentList) f.maxUsedAddr.toNat ↔
        ((∃ i < bigEndianAt twoFunctionsData 44 2,
            Listed twoFunctionsData (phdrAt twoFunctionsData i)) ∨
          ∃ i < bigEndianAt twoFunctionsData 48 2,
            Allocated twoFunctionsData (shdrAt twoFunctionsData i)) ∧
        (∀ i < bigEndianAt twoFunctionsData 44 2,
          Listed twoFunctionsData (phdrAt twoFunctionsData i) →
            bigEndianAt twoFunctionsData (phdrAt twoFunctionsData i + 8) 4 +
              bigEndianAt twoFunctionsData (phdrAt twoFunctionsData i + 20) 4 = 0) ∧
        ∀ i < bigEndianAt twoFunctionsData 48 2,
          Allocated twoFunctionsData (shdrAt twoFunctionsData i) →
            bigEndianAt twoFunctionsData (shdrAt twoFunctionsData i + 12) 4 +
              bigEndianAt twoFunctionsData (shdrAt twoFunctionsData i + 20) 4 = 0) := by
  obtain ⟨⟨f, s'⟩, h, -⟩ := parse_twoFunctions
  exact ⟨f, s', h, highestUsed_iff h⟩

/-- The segment of the file ends at `0x00400030`. -/
theorem not_highestUsed_twoFunctions : ∃ f s',
    parseElf functionPointers twoFunctionsData initSyscalls = .ok (f, s') ∧
      ¬IsGreatest (usedEnds twoFunctionsData f.segmentList) f.maxUsedAddr.toNat := by
  obtain ⟨⟨f, s'⟩, h, rfl⟩ := parse_twoFunctions
  refine ⟨_, s', h, fun hgreatest => ?_⟩
  have hend : 0x00400030 ∈
      usedEnds twoFunctionsData (exeFormat twoFunctionsData).segmentList := by
    refine .inl ⟨segmentOf twoFunctionsData 52, ?_, by decide +kernel⟩
    rw [segmentList_eq]
    decide +kernel
  have hle := hgreatest.2 hend
  rw [maxUsedAddr_eq_zero] at hle
  exact absurd hle (by decide)

end TwoFunctions

end Sim
end OooProcessor
