/-
# Reading an executable

`parse_elf` of `sim_main/elf/elf_reader.cpp`.  `d p` is the byte at `elf_data + p`: no
read is checked against the length of the file, so `p` is any number.  `bswap_16` and
`bswap_32` turn what a little-endian host reads into the big-endian number; the offsets
and sizes are those of the structures of `sim_main/elf/elf.h`.

`function_pointers` is a list of names and pointers, and what they point to a function
of the pointer.  `numSegments`, which is never assigned, is left out.

`parseElf_cases` says what a pointer points to in the end: the value of the last
function symbol with a name of that pointer.
-/

import OooProcessor.Lib.Patches
import OooProcessor.Rtl.Types

namespace OooProcessor
namespace Sim

/-- `elf_data` -/
abbrev ElfData := ℕ → BitVec 8

def bswap16 (d : ElfData) (p : ℕ) : BitVec 16 := d p ++ d (p + 1)

def bswap32 (d : ElfData) (p : ℕ) : Word := d p ++ d (p + 1) ++ d (p + 2) ++ d (p + 3)

/-- The characters of a string. -/
def chars (s : String) : List (BitVec 8) := s.toList.map fun c => BitVec.ofNat 8 c.toNat

/-- The characters from `p` on up to a 0 are these. -/
def hasChars (d : ElfData) : ℕ → List (BitVec 8) → Bool
  | p, [] => d p == 0
  | p, c :: cs => d p == c && hasChars d (p + 1) cs

/-- The string at `p` is `s`. -/
def isString (d : ElfData) (p : ℕ) (s : String) : Bool := hasChars d p (chars s)

/-- `Exe_Segment` -/
structure ExeSegment where
  offsetInFile : Word
  lengthInFile : Word
  startAddress : Word
  sizeInMemory : Word
  protFlags : Word
  type : Word
  deriving DecidableEq

/-- `Exe_Format`; `globalPointer` is only assigned for a `PT_MIPS_REGINFO` segment. -/
structure ExeFormat where
  segmentList : List ExeSegment
  entryAddr : Word
  globalPointer : Option Word
  maxUsedAddr : Word

/-- How `parse_elf` ends without a format: with an error code, or in a division by 0. -/
inductive Stop
  | returned (rv : Int)
  | trapped
  deriving DecidableEq

/-- The checks of the ELF header. -/
def checkHeader (d : ElfData) : Int :=
  if d 0 ≠ 0x7F ∨ d 1 ≠ 0x45 ∨ d 2 ≠ 0x4C ∨ d 3 ≠ 0x46 then -2
  else if d 4 ≠ 1 then -3
  else if d 5 ≠ 2 then -4
  else if d 6 ≠ 1 then -5
  else if d 7 ≠ 0 then -6
  else if bswap16 d 18 ≠ 8 then -7
  else if bswap16 d 44 < 1 then -8
  else if bswap16 d 40 ≠ 52 then -9
  else if bswap16 d 42 ≠ 32 then -10
  else 0

def ptLoad : Word := 1
def ptNote : Word := 4
def ptMipsReginfo : Word := 0x70000000
def shfAlloc : Word := 2
def shtSymtab : Word := 2
def shtStrtab : Word := 3
def sttFunc : BitVec 8 := 2

/-- The comparison of both loops that are to find the largest address in use. -/
def ExeFormat.useUpTo (f : ExeFormat) (segEnd : Word) : ExeFormat :=
  { f with maxUsedAddr := if segEnd < f.maxUsedAddr then segEnd else f.maxUsedAddr }

/-- The program header at `phdr`. -/
def readPhdr (d : ElfData) (f : ExeFormat) (phdr : ℕ) : ExeFormat :=
  let offset := bswap32 d (phdr + 4)
  let segType := bswap32 d phdr
  let seg : ExeSegment :=
    { offsetInFile := offset
      lengthInFile := bswap32 d (phdr + 16)
      startAddress := bswap32 d (phdr + 8)
      sizeInMemory := bswap32 d (phdr + 20)
      -- `bswap_16` of the low half of what a little-endian host reads
      protFlags := (bswap16 d (phdr + 24)).setWidth 32
      type := segType }
  -- the case of `PT_MIPS_REGINFO` falls through
  let f :=
    if segType = ptMipsReginfo then
      { f with globalPointer := some (bswap32 d (offset.toNat + 20)) }
    else f
  if segType = ptMipsReginfo ∨ segType = ptNote ∨ segType = ptLoad then
    { f with segmentList := f.segmentList ++ [seg] }.useUpTo (seg.startAddress + seg.sizeInMemory)
  else f

/-- The section header at `shdr`, for `maxUsedAddr`. -/
def readShdr (d : ElfData) (f : ExeFormat) (shdr : ℕ) : ExeFormat :=
  if bswap32 d (shdr + 8) &&& shfAlloc ≠ 0 then
    f.useUpTo (bswap32 d (shdr + 12) + bswap32 d (shdr + 36))
  else f

/-- `exeFormat`, all but its pointers. -/
def exeFormat (d : ElfData) : ExeFormat :=
  let f : ExeFormat :=
    { segmentList := []
      entryAddr := bswap32 d 24
      globalPointer := none
      maxUsedAddr := 0 }
  let phdr := (bswap32 d 28).toNat
  let f := (List.range (bswap16 d 44).toNat).foldl (fun f i => readPhdr d f (phdr + 32 * i)) f
  let baseShdr := (bswap32 d 32).toNat
  (List.range (bswap16 d 48).toNat).foldl (fun f i => readShdr d f (baseShdr + 40 * i)) f

/-- `symtabhdr` and `strtabhdr` -/
structure Tables where
  symtabhdr : Option ℕ
  strtabhdr : Option ℕ

/-- The section header at `shdr`, for its name. -/
def nameTable (d : ElfData) (shstrtbl : ℕ) (t : Tables) (shdr : ℕ) : Tables :=
  let shName := bswap32 d shdr
  if shName ≠ 0 then
    let shname := shstrtbl + shName.toNat
    let shType := bswap32 d (shdr + 4)
    if shType = shtSymtab then
      if isString d shname ".symtab" then { t with symtabhdr := some shdr } else t
    else if shType = shtStrtab then
      if isString d shname ".strtab" then { t with strtabhdr := some shdr } else t
    else t
  else t

/-- `sym_base`, `sym_count` and `str_base` -/
structure Symbols where
  symBase : ℕ
  symCount : ℕ
  strBase : ℕ

/-- The symbol table, if there is one. -/
def symbols (d : ElfData) : Except Stop (Option Symbols) :=
  let shnum := (bswap16 d 48).toNat
  let baseShdr := (bswap32 d 32).toNat
  let shstrndx := (bswap16 d 50).toNat
  if shstrndx ≠ 0 ∧ shnum ≠ 0 then
    let shstrtbl := (bswap32 d (baseShdr + 40 * shstrndx + 16)).toNat
    let t := (List.range shnum).foldl (fun t i => nameTable d shstrtbl t (baseShdr + 40 * i))
      ⟨none, none⟩
    match t.symtabhdr, t.strtabhdr with
    | some symtabhdr, some strtabhdr =>
      if bswap32 d (symtabhdr + 36) = 0 then .error .trapped
      else
        .ok (some
          { symBase := (bswap32 d (symtabhdr + 16)).toNat
            symCount := (bswap32 d (symtabhdr + 20) / bswap32 d (symtabhdr + 36)).toNat
            strBase := (bswap32 d (strtabhdr + 16)).toNat })
    | _, _ => .ok none
  else .ok none

namespace Symbols

/-- `ELF_ST_TYPE(sym_base[i].st_info) == STT_FUNC` -/
def isFunc (d : ElfData) (t : Symbols) (i : ℕ) : Bool :=
  d (t.symBase + 16 * i + 12) &&& 0xF == sttFunc

/-- `str_base + bswap_32(sym_base[i].st_name)` -/
def name (d : ElfData) (t : Symbols) (i : ℕ) : ℕ :=
  t.strBase + (bswap32 d (t.symBase + 16 * i)).toNat

/-- `bswap_32(sym_base[i].st_value)` -/
def value (d : ElfData) (t : Symbols) (i : ℕ) : Word := bswap32 d (t.symBase + 16 * i + 4)

end Symbols

section Pointers

variable {π : Type} [DecidableEq π]

/-- The symbol `i`. -/
def readSym (functionPointers : List (String × π)) (d : ElfData) (t : Symbols) (s : π → Word)
    (i : ℕ) : π → Word :=
  if t.isFunc d i then
    match functionPointers.find? fun e => isString d (t.name d i) e.1 with
    | some e => Function.update s e.2 (t.value d i)
    | none => s
  else s

/-- `parse_elf`, where the pointers point to `s`. -/
def parseElf (functionPointers : List (String × π)) (d : ElfData) (s : π → Word) :
    Except Stop (ExeFormat × (π → Word)) :=
  if checkHeader d ≠ 0 then .error (.returned (checkHeader d))
  else
    match symbols d with
    | .error e => .error e
    | .ok none => .ok (exeFormat d, s)
    | .ok (some t) =>
      .ok (exeFormat d, (List.range t.symCount).foldl (readSym functionPointers d t) s)

end Pointers

/-- The symbol `i` is a function of that name and value. -/
def Defines (d : ElfData) (i : ℕ) (name : String) (a : Word) : Prop :=
  ∃ t, symbols d = .ok (some t) ∧ i < t.symCount ∧ t.isFunc d i = true ∧
    isString d (t.name d i) name = true ∧ t.value d i = a

section Strings

variable {d : ElfData} {p : ℕ} {cs cs' : List (BitVec 8)}

/-- Characters up to a 0 are one string. -/
theorem hasChars_unique (h : hasChars d p cs = true) (h' : hasChars d p cs' = true) (h0 : 0 ∉ cs)
    (h0' : 0 ∉ cs') : cs = cs' := by
  induction cs generalizing p cs' with
  | nil =>
    cases cs' with
    | nil => rfl
    | cons c' cs' =>
      rw [hasChars, beq_iff_eq] at h
      rw [hasChars, Bool.and_eq_true, beq_iff_eq, h] at h'
      exact absurd (h'.1 ▸ List.mem_cons_self) h0'
  | cons c cs ih =>
    rw [hasChars, Bool.and_eq_true, beq_iff_eq] at h
    cases cs' with
    | nil =>
      rw [hasChars, beq_iff_eq, h.1] at h'
      exact absurd (h' ▸ List.mem_cons_self) h0
    | cons c' cs' =>
      rw [hasChars, Bool.and_eq_true, beq_iff_eq] at h'
      rw [ih h.2 h'.2 (fun h => h0 (List.mem_cons_of_mem _ h))
        (fun h => h0' (List.mem_cons_of_mem _ h)), ← h.1, ← h'.1]

end Strings

/-- The names are strings, and no two of them the same. -/
structure Keyed {π : Type} (functionPointers : List (String × π)) : Prop where
  string : ∀ e ∈ functionPointers, 0 ∉ chars e.1
  inj : ∀ e ∈ functionPointers, ∀ e' ∈ functionPointers, chars e.1 = chars e'.1 → e = e'

section Pointers

open Lib

variable {π : Type} {functionPointers : List (String × π)} {d : ElfData}

/-- The pointer that the symbol `i` is assigned to. -/
def pointerAt (functionPointers : List (String × π)) (d : ElfData) (t : Symbols) (i : ℕ) :
    Option π :=
  if t.isFunc d i then
    (functionPointers.find? fun e => isString d (t.name d i) e.1).map Prod.snd
  else none

/-- Which symbols are assigned to a pointer. -/
theorem pointerAt_eq_some_iff (hk : Keyed functionPointers) {t : Symbols} {i : ℕ} {a : π} :
    pointerAt functionPointers d t i = some a ↔ t.isFunc d i = true ∧
      ∃ name, (name, a) ∈ functionPointers ∧ isString d (t.name d i) name = true := by
  unfold pointerAt
  split_ifs with hf
  · rw [Option.map_eq_some_iff]
    constructor
    · rintro ⟨⟨name, b⟩, hfind, rfl⟩
      have hmem := List.mem_of_find?_eq_some hfind
      have hname : isString d (t.name d i) name = true := by simpa using List.find?_some hfind
      exact ⟨hf, name, hmem, hname⟩
    · rintro ⟨-, name, hmem, hname⟩
      cases hfind : functionPointers.find? fun e => isString d (t.name d i) e.1 with
      | none => exact absurd hname (List.find?_eq_none.mp hfind _ hmem)
      | some e =>
        have hmem' := List.mem_of_find?_eq_some hfind
        have hname' : isString d (t.name d i) e.1 = true := by simpa using List.find?_some hfind
        have hchars := hasChars_unique hname' hname (hk.string e hmem') (hk.string _ hmem)
        exact ⟨e, rfl, by rw [hk.inj e hmem' _ hmem hchars]⟩
  · exact ⟨fun h => absurd h (by simp), fun h => absurd h.1 hf⟩

variable [DecidableEq π]

theorem readSym_eq (t : Symbols) :
    readSym functionPointers d t = assign (pointerAt functionPointers d t) (t.value d) := by
  funext s i
  unfold readSym assign pointerAt
  split_ifs with hf
  · cases functionPointers.find? fun e => isString d (t.name d i) e.1 with
    | none => rfl
    | some e => rfl
  · rfl

/-- An image with a symbol table. -/
theorem parseElf_of_symbols (hheader : checkHeader d = 0) {t : Symbols}
    (hsym : symbols d = .ok (some t)) (s : π → Word) : parseElf functionPointers d s =
      .ok (exeFormat d, (List.range t.symCount).foldl (readSym functionPointers d t) s) := by
  rw [parseElf, if_neg (not_not_intro hheader), hsym]

/-- **What a pointer points to in the end.** -/
theorem parseElf_cases (hk : Keyed functionPointers) {s s' : π → Word} {f : ExeFormat}
    (h : parseElf functionPointers d s = .ok (f, s')) (a : π) : f = exeFormat d ∧
      ((s' a = s a ∧ ∀ i name v, (name, a) ∈ functionPointers → ¬Defines d i name v) ∨
        ∃ i name, (name, a) ∈ functionPointers ∧ Defines d i name (s' a) ∧
          ∀ j name' v, (name', a) ∈ functionPointers → Defines d j name' v → j ≤ i) := by
  unfold parseElf at h
  split_ifs at h with hcheck
  split at h
  next => nomatch h
  next hsym =>
    obtain ⟨rfl, rfl⟩ := Prod.mk.inj (Except.ok.inj h)
    refine ⟨rfl, .inl ⟨rfl, fun i name v _ hdef => ?_⟩⟩
    obtain ⟨t, ht, -⟩ := hdef
    rw [hsym] at ht
    nomatch ht
  next t hsym =>
    obtain ⟨rfl, rfl⟩ := Prod.mk.inj (Except.ok.inj h)
    have hdefines {i : ℕ} {name : String} {v : Word} (hd : Defines d i name v) :
        i < t.symCount ∧ t.isFunc d i = true ∧ isString d (t.name d i) name = true := by
      obtain ⟨t', ht, hi, hf, hn, -⟩ := hd
      obtain rfl := Option.some.inj (Except.ok.inj (hsym.symm.trans ht))
      exact ⟨hi, hf, hn⟩
    refine ⟨rfl, ?_⟩
    rw [readSym_eq]
    rcases foldl_assign_cases (pointerAt functionPointers d t) (t.value d) s a t.symCount with
      ⟨hsame, hnone⟩ | ⟨i, hi, hti, hval, hlast⟩
    · refine .inl ⟨hsame, fun i name v hmem hdef => ?_⟩
      obtain ⟨hi, hf, hn⟩ := hdefines hdef
      exact hnone i hi ((pointerAt_eq_some_iff hk).mpr ⟨hf, name, hmem, hn⟩)
    · obtain ⟨hf, name, hmem, hn⟩ := (pointerAt_eq_some_iff hk).mp hti
      refine .inr ⟨i, name, hmem, ⟨t, hsym, hi, hf, hn, hval.symm⟩, fun j name' v hmem' hdef => ?_⟩
      obtain ⟨hj, hf', hn'⟩ := hdefines hdef
      by_contra hlt
      exact hlast j (by omega) hj ((pointerAt_eq_some_iff hk).mpr ⟨hf', name', hmem', hn'⟩)

end Pointers

end Sim
end OooProcessor
