/-
# The accesses of the ELF reader

`parse_elf` of `sim_main/elf/elf_reader.cpp` once more, with its accesses: the file has
`length` bytes, and an access outside of it, like a division by 0, is a `Fault`.
`parse_elf` itself takes the length and looks at it nowhere.  `strcmp` reads up to the
first character that differs, and a `std::string` is read up to its 0.  The index of a
symbol is an `int`, so that symbol `2^31` would be looked for in front of the file.

`succeeds_parseElfIn` says exactly when there is no fault: each access has its own
condition, in the order of the headers that lead to it.  `parseElfIn_eq` connects it with
`parseElf`, which has no length.
-/

import OooProcessor.Lib.Guarded
import OooProcessor.Sim.Segments

namespace OooProcessor
namespace Sim

open Lib

/-- What `parse_elf` does not guard against. -/
inductive Fault
  | outside
  | zeroDivisor
  deriving DecidableEq

/-- What is read from the `size` bytes at `p`, if the file has them. -/
def fetch {α : Type} (length p size : ℕ) (v : α) : Except Fault α :=
  if p + size ≤ length then .ok v else .error .outside

/-- A check of the ELF header: a field, and what is returned if it is not accepted. -/
structure HeaderCheck where
  offset : ℕ
  size : ℕ
  accepts : ℕ → Bool
  rv : ℤ

/-- The checks in the order they are made. -/
def headerChecks : List HeaderCheck :=
  [⟨0, 1, (· == 0x7F), -2⟩,
    ⟨1, 1, (· == 0x45), -2⟩,
    ⟨2, 1, (· == 0x4C), -2⟩,
    ⟨3, 1, (· == 0x46), -2⟩,
    ⟨4, 1, (· == 1), -3⟩,
    ⟨5, 1, (· == 2), -4⟩,
    ⟨6, 1, (· == 1), -5⟩,
    ⟨7, 1, (· == 0), -6⟩,
    ⟨18, 2, (· == 8), -7⟩,
    ⟨44, 2, (1 ≤ ·), -8⟩,
    ⟨40, 2, (· == 52), -9⟩,
    ⟨42, 2, (· == 32), -10⟩]

/-- The header passes the check. -/
def HeaderCheck.passes (c : HeaderCheck) (d : ElfData) : Bool :=
  c.accepts (bigEndianAt d c.offset c.size)

/-- What is returned for the first check that fails, or 0. -/
def rejected (d : ElfData) : List HeaderCheck → ℤ
  | [] => 0
  | c :: cs => if c.passes d then rejected d cs else c.rv

section Accesses

variable (d : ElfData) (length : ℕ)

def byteIn (p : ℕ) : Except Fault (BitVec 8) := fetch length p 1 (d p)

def halfIn (p : ℕ) : Except Fault (BitVec 16) := fetch length p 2 (bswap16 d p)

def wordIn (p : ℕ) : Except Fault Word := fetch length p 4 (bswap32 d p)

/-- The header checks: what `parse_elf` returns, or 0. -/
def headerIn : List HeaderCheck → Except Fault ℤ
  | [] => pure 0
  | c :: cs => do
    let passes ← fetch length c.offset c.size (c.passes d)
    if passes then headerIn cs else pure c.rv

/-- `!strcmp(p, s)` -/
def strcmpIn : ℕ → List (BitVec 8) → Except Fault Bool
  | p, [] => do
    let c ← byteIn d length p
    pure (c == 0)
  | p, c :: cs => do
    let c' ← byteIn d length p
    if c' = c then strcmpIn (p + 1) cs else pure false

/-- The way of a `std::string` at `p` to its 0, at most `n` bytes on. -/
def strlenIn : ℕ → ℕ → Except Fault Unit
  | 0, _ => .error .outside
  | n + 1, p => do
    let c ← byteIn d length p
    if c = 0 then pure () else strlenIn n (p + 1)

/-- The case of `PT_MIPS_REGINFO`. -/
def regInfoIn (f : ExeFormat) (offset segType : Word) : Except Fault ExeFormat :=
  if segType = ptMipsReginfo then do
    let gp ← wordIn d length (offset.toNat + 20)
    pure { f with globalPointer := some gp }
  else pure f

/-- The program header at `phdr`. -/
def readPhdrIn (f : ExeFormat) (phdr : ℕ) : Except Fault ExeFormat := do
  let offset ← wordIn d length (phdr + 4)
  let segType ← wordIn d length phdr
  let f ← regInfoIn d length f offset segType
  if segType = ptMipsReginfo ∨ segType = ptNote ∨ segType = ptLoad then do
    let lengthInFile ← wordIn d length (phdr + 16)
    let startAddress ← wordIn d length (phdr + 8)
    let sizeInMemory ← wordIn d length (phdr + 20)
    let protFlags ← fetch length (phdr + 24) 4 ((bswap16 d (phdr + 24)).setWidth 32)
    let seg : ExeSegment :=
      { offsetInFile := offset
        lengthInFile
        startAddress
        sizeInMemory
        protFlags
        type := segType }
    pure ({ f with segmentList := f.segmentList ++ [seg] }.useUpTo (startAddress + sizeInMemory))
  else pure f

/-- The section header at `shdr`, for `maxUsedAddr`. -/
def readShdrIn (f : ExeFormat) (shdr : ℕ) : Except Fault ExeFormat := do
  let shFlags ← wordIn d length (shdr + 8)
  if shFlags &&& shfAlloc ≠ 0 then do
    let shAddr ← wordIn d length (shdr + 12)
    let shEntsize ← wordIn d length (shdr + 36)
    pure (f.useUpTo (shAddr + shEntsize))
  else pure f

/-- `exeFormat`, all but its pointers. -/
def exeFormatIn : Except Fault ExeFormat := do
  let entryAddr ← wordIn d length 24
  let phnum ← halfIn d length 44
  let phoff ← wordIn d length 28
  let f : ExeFormat :=
    { segmentList := []
      entryAddr
      globalPointer := none
      maxUsedAddr := 0 }
  let f ← (List.range phnum.toNat).foldlM
    (fun f i => readPhdrIn d length f (phoff.toNat + 32 * i)) f
  let shnum ← halfIn d length 48
  let shoff ← wordIn d length 32
  (List.range shnum.toNat).foldlM (fun f i => readShdrIn d length f (shoff.toNat + 40 * i)) f

/-- The section header at `shdr`, for its name. -/
def nameTableIn (shstrtbl : ℕ) (t : Tables) (shdr : ℕ) : Except Fault Tables := do
  let shName ← wordIn d length shdr
  if shName ≠ 0 then do
    let shname := shstrtbl + shName.toNat
    let shType ← wordIn d length (shdr + 4)
    if shType = shtSymtab then do
      let named ← strcmpIn d length shname (chars ".symtab")
      pure (if named then { t with symtabhdr := some shdr } else t)
    else if shType = shtStrtab then do
      let named ← strcmpIn d length shname (chars ".strtab")
      pure (if named then { t with strtabhdr := some shdr } else t)
    else pure t
  else pure t

/-- The symbol table whose section headers these are. -/
def symbolsAtIn (symtabhdr strtabhdr : ℕ) : Except Fault Symbols := do
  let symOffset ← wordIn d length (symtabhdr + 16)
  let shSize ← wordIn d length (symtabhdr + 20)
  let shEntsize ← wordIn d length (symtabhdr + 36)
  if shEntsize = 0 then .error .zeroDivisor
  else do
    let strOffset ← wordIn d length (strtabhdr + 16)
    pure
      { symBase := symOffset.toNat
        symCount := (shSize / shEntsize).toNat
        strBase := strOffset.toNat }

/-- The symbol table, if both of its sections were found. -/
def symbolsOfIn (t : Tables) : Except Fault (Option Symbols) :=
  match t.symtabhdr, t.strtabhdr with
  | some symtabhdr, some strtabhdr => do
    let t ← symbolsAtIn d length symtabhdr strtabhdr
    pure (some t)
  | _, _ => pure none

/-- The symbol table, if there is one. -/
def symbolsIn : Except Fault (Option Symbols) := do
  let shstrndx ← halfIn d length 50
  let shnum ← halfIn d length 48
  let shoff ← wordIn d length 32
  if shstrndx.toNat ≠ 0 ∧ shnum.toNat ≠ 0 then do
    let shstrtbl ← wordIn d length (shoff.toNat + 40 * shstrndx.toNat + 16)
    let t ← (List.range shnum.toNat).foldlM
      (fun t i => nameTableIn d length shstrtbl.toNat t (shoff.toNat + 40 * i)) ⟨none, none⟩
    symbolsOfIn d length t
  else pure none

variable {π : Type} [DecidableEq π]

/-- The assignment of a function symbol to the pointer of its name. -/
def assignSymIn (functionPointers : List (String × π)) (name sym : ℕ) (s : π → Word) :
    Except Fault (π → Word) :=
  match functionPointers.find? fun e => isString d name e.1 with
  | some e => do
    let stValue ← wordIn d length (sym + 4)
    pure (Function.update s e.2 stValue)
  | none => pure s

/-- The symbol `i`. -/
def readSymIn (functionPointers : List (String × π)) (t : Symbols) (s : π → Word) (i : ℕ) :
    Except Fault (π → Word) :=
  if i < 2 ^ 31 then do
    let stInfo ← byteIn d length (t.symBase + 16 * i + 12)
    if stInfo &&& 0xF = sttFunc then do
      let stName ← wordIn d length (t.symBase + 16 * i)
      let name := t.strBase + stName.toNat
      strlenIn d length (length - name) name
      assignSymIn d length functionPointers name (t.symBase + 16 * i) s
    else pure s
  else .error .outside

/-- The symbols, if there are any. -/
def readSymsIn (functionPointers : List (String × π)) (s : π → Word) :
    Option Symbols → Except Fault (π → Word)
  | none => pure s
  | some t => (List.range t.symCount).foldlM (readSymIn d length functionPointers t) s

/-- `parse_elf` with its accesses: a code, or the format and what the pointers point to. -/
def parseElfIn (functionPointers : List (String × π)) (s : π → Word) :
    Except Fault (Except ℤ (ExeFormat × (π → Word))) := do
  let rv ← headerIn d length headerChecks
  if rv ≠ 0 then pure (.error rv)
  else do
    let f ← exeFormatIn d length
    let t ← symbolsIn d length
    let s ← readSymsIn d length functionPointers s t
    pure (.ok (f, s))

end Accesses

section Conditions

variable (d : ElfData) (length : ℕ)

/-- `e_phnum` -/
def phnumOf : ℕ := bigEndianAt d 44 2

/-- `e_shnum` -/
def shnumOf : ℕ := bigEndianAt d 48 2

/-- `e_shstrndx` -/
def shstrndxOf : ℕ := bigEndianAt d 50 2

/-- Where the name of section `i` is. -/
def shnameAt (i : ℕ) : ℕ :=
  bigEndianAt d (shdrAt d (shstrndxOf d) + 16) 4 + bigEndianAt d (shdrAt d i) 4

/-- Section `i` has a name, and it is of that type. -/
def NamedOfType (shType i : ℕ) : Prop :=
  bigEndianAt d (shdrAt d i) 4 ≠ 0 ∧ bigEndianAt d (shdrAt d i + 4) 4 = shType

/-- Section `i` is the last of that type and name. -/
def LastNamed (shType : ℕ) (name : String) (i : ℕ) : Prop :=
  i < shnumOf d ∧ (NamedOfType d shType i ∧ isString d (shnameAt d i) name = true) ∧
    ∀ j < shnumOf d, NamedOfType d shType j ∧ isString d (shnameAt d j) name = true → j ≤ i

/-- The characters at `p` can be compared with a string: the file has them all, with the 0
at the end, or one that differs. -/
def ComparesInside (p : ℕ) (cs : List (BitVec 8)) : Prop :=
  p + cs.length + 1 ≤ length ∨
    ∃ (k : ℕ) (hk : k < cs.length), p + k < length ∧ d (p + k) ≠ cs[k]

/-- The string at `p` ends in the file. -/
def EndsInside (p : ℕ) : Prop := ∃ q, p ≤ q ∧ q < length ∧ d q = 0

/-- The program headers and section headers are in the file, as far as they are read. -/
structure HeadersInside : Prop where
  ehdr : 52 ≤ length
  phdr : ∀ i < phnumOf d, phdrAt d i + 8 ≤ length
  reginfo : ∀ i < phnumOf d, bigEndianAt d (phdrAt d i) 4 = 0x70000000 →
    bigEndianAt d (phdrAt d i + 4) 4 + 24 ≤ length
  listed : ∀ i < phnumOf d, Listed d (phdrAt d i) → phdrAt d i + 28 ≤ length
  shdr : ∀ i < shnumOf d, shdrAt d i + 12 ≤ length
  allocated : ∀ i < shnumOf d, Allocated d (shdrAt d i) → shdrAt d i + 40 ≤ length

/-- The names that are looked at are in the file. -/
structure NamesInside : Prop where
  shstrhdr : shdrAt d (shstrndxOf d) + 20 ≤ length
  symtab : ∀ i < shnumOf d, NamedOfType d 2 i →
    ComparesInside d length (shnameAt d i) (chars ".symtab")
  strtab : ∀ i < shnumOf d, NamedOfType d 3 i →
    ComparesInside d length (shnameAt d i) (chars ".strtab")

/-- The symbols and their names are in the file, and can be counted. -/
structure SymbolsInside (symtabhdr strtabhdr : ℕ) : Prop where
  symtab : symtabhdr + 40 ≤ length
  strtab : strtabhdr + 20 ≤ length
  entsize : bigEndianAt d (symtabhdr + 36) 4 ≠ 0
  index : bigEndianAt d (symtabhdr + 20) 4 / bigEndianAt d (symtabhdr + 36) 4 ≤ 2 ^ 31
  sym : ∀ i < bigEndianAt d (symtabhdr + 20) 4 / bigEndianAt d (symtabhdr + 36) 4,
    bigEndianAt d (symtabhdr + 16) 4 + 16 * i + 13 ≤ length
  name : ∀ i < bigEndianAt d (symtabhdr + 20) 4 / bigEndianAt d (symtabhdr + 36) 4,
    d (bigEndianAt d (symtabhdr + 16) 4 + 16 * i + 12) &&& 0xF = sttFunc →
      EndsInside d length (bigEndianAt d (strtabhdr + 16) 4 +
        bigEndianAt d (bigEndianAt d (symtabhdr + 16) 4 + 16 * i) 4)

/-- All that is read is in the file, and no divisor is 0. -/
structure Inside : Prop where
  checks : ∀ before c after, headerChecks = before ++ c :: after →
    (∀ c' ∈ before, c'.passes d = true) → c.offset + c.size ≤ length
  headers : (∀ c ∈ headerChecks, c.passes d = true) → HeadersInside d length
  names : (∀ c ∈ headerChecks, c.passes d = true) → shstrndxOf d ≠ 0 → shnumOf d ≠ 0 →
    NamesInside d length
  symbols : (∀ c ∈ headerChecks, c.passes d = true) → shstrndxOf d ≠ 0 → shnumOf d ≠ 0 →
    ∀ i j, LastNamed d 2 ".symtab" i → LastNamed d 3 ".strtab" j →
      SymbolsInside d length (shdrAt d i) (shdrAt d j)

end Conditions

section Succeeds

variable {d : ElfData} {length : ℕ}

theorem succeeds_fetch {α : Type} (p size : ℕ) (v : α) :
    Succeeds (fetch length p size v) (p + size ≤ length) v := Succeeds.guard v _

theorem succeeds_byteIn (p : ℕ) : Succeeds (byteIn d length p) (p + 1 ≤ length) (d p) :=
  succeeds_fetch p 1 _

theorem succeeds_halfIn (p : ℕ) : Succeeds (halfIn d length p) (p + 2 ≤ length) (bswap16 d p) :=
  succeeds_fetch p 2 _

theorem succeeds_wordIn (p : ℕ) : Succeeds (wordIn d length p) (p + 4 ≤ length) (bswap32 d p) :=
  succeeds_fetch p 4 _

/-- A comparison reads up to the first difference. -/
theorem succeeds_strcmpIn (p : ℕ) (cs : List (BitVec 8)) :
    Succeeds (strcmpIn d length p cs) (ComparesInside d length p cs) (hasChars d p cs) := by
  induction cs generalizing p with
  | nil =>
    refine Succeeds.congr ((succeeds_byteIn p).bind fun _ => Succeeds.pure (d p == 0)) ?_
      fun _ => rfl
    simp [ComparesInside]
  | cons c cs ih =>
    refine Succeeds.congr ((succeeds_byteIn p).bind fun _ =>
      Succeeds.ite (fun _ => ih (p + 1)) fun _ => Succeeds.pure _) ?_ fun _ => ?_
    · unfold ComparesInside
      constructor
      · rintro ⟨hp, hcs, -⟩
        by_cases hc : d p = c
        · rcases hcs hc with hend | ⟨k, hk, hlt, hne⟩
          · refine .inl ?_
            rw [List.length_cons]
            omega
          · refine .inr ⟨k + 1, Nat.succ_lt_succ hk, by omega, ?_⟩
            rwa [List.getElem_cons_succ, Nat.add_comm k 1, ← Nat.add_assoc]
        · exact .inr ⟨0, Nat.zero_lt_succ _, hp, hc⟩
      · rintro (hend | ⟨k, hk, hlt, hne⟩)
        · rw [List.length_cons] at hend
          exact ⟨by omega, fun _ => .inl (by omega), fun _ => trivial⟩
        · refine ⟨by omega, fun hc => ?_, fun _ => trivial⟩
          cases k with
          | zero => exact absurd hc hne
          | succ k =>
            rw [List.getElem_cons_succ, Nat.add_comm k 1, ← Nat.add_assoc] at hne
            exact .inr ⟨k, Nat.lt_of_succ_lt_succ hk, by omega, hne⟩
    · rw [hasChars]
      split_ifs with hc
      · rw [hc, beq_self_eq_true, Bool.true_and]
      · rw [beq_eq_false_iff_ne.mpr hc, Bool.false_and]

/-- The way to the end of a string leads through the file. -/
theorem succeeds_strlenIn (n p : ℕ) (hn : n = length - p) :
    Succeeds (strlenIn d length n p) (EndsInside d length p) () := by
  induction n generalizing p with
  | zero =>
    constructor
    · rintro ⟨q, hpq, hlt, -⟩
      omega
    · exact fun _ => ⟨_, rfl⟩
  | succ n ih =>
    refine Succeeds.congr ((succeeds_byteIn p).bind fun _ =>
      Succeeds.ite (fun _ => Succeeds.pure _) fun _ => ih (p + 1) (by omega)) ?_ fun _ => rfl
    constructor
    · rintro ⟨hp, -, hrest⟩
      by_cases h0 : d p = 0
      · exact ⟨p, le_rfl, hp, h0⟩
      · obtain ⟨q, hpq, hlt, hq⟩ := hrest h0
        exact ⟨q, by omega, hlt, hq⟩
    · rintro ⟨q, hpq, hlt, hq⟩
      refine ⟨by omega, fun _ => trivial, fun h0 => ⟨q, ?_, hlt, hq⟩⟩
      rcases Nat.eq_or_lt_of_le hpq with rfl | h
      · exact absurd hq h0
      · exact h

/-- The checks are made up to the first that fails. -/
theorem succeeds_headerIn (cs : List HeaderCheck) : Succeeds (headerIn d length cs)
    (∀ before c after, cs = before ++ c :: after → (∀ c' ∈ before, c'.passes d = true) →
      c.offset + c.size ≤ length)
    (rejected d cs) := by
  induction cs with
  | nil =>
    refine (Succeeds.pure 0).congr ⟨fun _ before c after h => ?_, fun _ => trivial⟩ fun _ => rfl
    exact absurd h.symm (by simp)
  | cons c cs ih =>
    refine Succeeds.congr ((succeeds_fetch c.offset c.size (c.passes d)).bind fun _ =>
      Succeeds.ite (fun _ => ih) fun _ => Succeeds.pure _) ?_ fun _ => rfl
    constructor
    · rintro ⟨hc, hcs, -⟩ before c₁ after h hpass
      cases before with
      | nil =>
        obtain ⟨rfl, -⟩ := List.cons.inj h
        exact hc
      | cons c₂ before =>
        obtain ⟨rfl, rfl⟩ := List.cons.inj h
        exact hcs (hpass _ List.mem_cons_self) before c₁ after rfl
          fun c' hc' => hpass c' (List.mem_cons_of_mem _ hc')
    · intro h
      refine ⟨h [] c cs rfl (by simp), fun hpass before c₁ after heq hbefore => ?_,
        fun _ => trivial⟩
      refine h (c :: before) c₁ after (by rw [heq]; rfl) fun c' hc' => ?_
      rcases List.mem_cons.mp hc' with rfl | hc'
      · exact hpass
      · exact hbefore c' hc'

theorem allocated_iff (shdr : ℕ) : bswap32 d (shdr + 8) &&& shfAlloc ≠ 0 ↔ Allocated d shdr := by
  have htwo : shfAlloc = BitVec.twoPow 32 1 := rfl
  have hbit : (bswap32 d (shdr + 8)).getLsbD 1 = (bigEndianAt d (shdr + 8) 4).testBit 1 := by
    rw [← toNat_bswap32]
    rfl
  rw [htwo, BitVec.and_twoPow, hbit, Allocated]
  split_ifs with h
  · exact ⟨fun _ => h, fun _ => by decide⟩
  · exact ⟨fun h0 => absurd rfl h0, fun h' => absurd h' h⟩

theorem succeeds_regInfoIn (f : ExeFormat) (offset segType : Word) :
    Succeeds (regInfoIn d length f offset segType)
      (segType = ptMipsReginfo → offset.toNat + 24 ≤ length)
      (if segType = ptMipsReginfo then
        { f with globalPointer := some (bswap32 d (offset.toNat + 20)) } else f) := by
  refine Succeeds.congr (Succeeds.ite (fun _ => (succeeds_wordIn _).bind fun _ => Succeeds.pure _)
    fun _ => Succeeds.pure f) ?_ fun _ => rfl
  exact ⟨fun h hreg => (h.1 hreg).1, fun h => ⟨fun hreg => ⟨h hreg, trivial⟩, fun _ => trivial⟩⟩

theorem succeeds_readPhdrIn (f : ExeFormat) (phdr : ℕ) : Succeeds (readPhdrIn d length f phdr)
    (phdr + 8 ≤ length ∧
      (bigEndianAt d phdr 4 = 0x70000000 → bigEndianAt d (phdr + 4) 4 + 24 ≤ length) ∧
      (Listed d phdr → phdr + 28 ≤ length))
    (readPhdr d f phdr) := by
  have hreg : bswap32 d phdr = ptMipsReginfo ↔ bigEndianAt d phdr 4 = 0x70000000 := by
    rw [← BitVec.toNat_inj, toNat_bswap32]
    rfl
  refine Succeeds.congr ((succeeds_wordIn (phdr + 4)).bind fun _ =>
    (succeeds_wordIn phdr).bind fun _ => (succeeds_regInfoIn f _ _).bind fun _ =>
    Succeeds.ite (fun _ => (succeeds_wordIn (phdr + 16)).bind fun _ =>
      (succeeds_wordIn (phdr + 8)).bind fun _ => (succeeds_wordIn (phdr + 20)).bind fun _ =>
      (succeeds_fetch (phdr + 24) 4 _).bind fun _ => Succeeds.pure _)
    fun _ => Succeeds.pure _) ?_ fun _ => rfl
  rw [listed_iff, hreg, toNat_bswap32]
  constructor
  · rintro ⟨hoff, htype, hgp, hlisted, -⟩
    exact ⟨by omega, hgp, fun h => (hlisted h).2.2.2.1⟩
  · rintro ⟨hp, hgp, hlisted⟩
    refine ⟨by omega, by omega, hgp, fun h => ?_, fun _ => trivial⟩
    have := hlisted h
    exact ⟨by omega, by omega, by omega, by omega, trivial⟩

theorem succeeds_readShdrIn (f : ExeFormat) (shdr : ℕ) : Succeeds (readShdrIn d length f shdr)
    (shdr + 12 ≤ length ∧ (Allocated d shdr → shdr + 40 ≤ length)) (readShdr d f shdr) := by
  refine Succeeds.congr ((succeeds_wordIn (shdr + 8)).bind fun _ =>
    Succeeds.ite (fun _ => (succeeds_wordIn (shdr + 12)).bind fun _ =>
      (succeeds_wordIn (shdr + 36)).bind fun _ => Succeeds.pure _)
    fun _ => Succeeds.pure f) ?_ fun _ => rfl
  rw [allocated_iff]
  constructor
  · rintro ⟨hp, halloc, -⟩
    exact ⟨by omega, fun h => (halloc h).2.1⟩
  · rintro ⟨hp, halloc⟩
    refine ⟨by omega, fun h => ?_, fun _ => trivial⟩
    have := halloc h
    exact ⟨by omega, by omega, trivial⟩

theorem succeeds_exeFormatIn :
    Succeeds (exeFormatIn d length) (48 ≤ length ∧
      (∀ i < phnumOf d, phdrAt d i + 8 ≤ length ∧
        (bigEndianAt d (phdrAt d i) 4 = 0x70000000 →
          bigEndianAt d (phdrAt d i + 4) 4 + 24 ≤ length) ∧
        (Listed d (phdrAt d i) → phdrAt d i + 28 ≤ length)) ∧
      50 ≤ length ∧
      ∀ i < shnumOf d, shdrAt d i + 12 ≤ length ∧
        (Allocated d (shdrAt d i) → shdrAt d i + 40 ≤ length)) (exeFormat d) := by
  refine Succeeds.congr ((succeeds_wordIn 24).bind fun _ => (succeeds_halfIn 44).bind fun _ =>
    (succeeds_wordIn 28).bind fun _ =>
    Succeeds.bind (Succeeds.foldlM (fun f i _ => succeeds_readPhdrIn f (_ + 32 * i)) _) fun _ =>
    (succeeds_halfIn 48).bind fun _ => (succeeds_wordIn 32).bind fun _ =>
    Succeeds.foldlM (fun f i _ => succeeds_readShdrIn f (_ + 40 * i)) _) ?_ fun _ => rfl
  rw [toNat_bswap16, toNat_bswap16, toNat_bswap32, toNat_bswap32]
  constructor
  · rintro ⟨-, -, -, hphdrs, hnum, -, hshdrs⟩
    exact ⟨by omega, hphdrs, hnum, hshdrs⟩
  · rintro ⟨hlen, hphdrs, hnum, hshdrs⟩
    exact ⟨by omega, by omega, by omega, hphdrs, hnum, by omega, hshdrs⟩

theorem succeeds_nameTableIn (shstrtbl : ℕ) (t : Tables) (shdr : ℕ) :
    Succeeds (nameTableIn d length shstrtbl t shdr)
      (shdr + 4 ≤ length ∧ (bigEndianAt d shdr 4 ≠ 0 → shdr + 8 ≤ length ∧
        (bigEndianAt d (shdr + 4) 4 = 2 →
          ComparesInside d length (shstrtbl + bigEndianAt d shdr 4) (chars ".symtab")) ∧
        (bigEndianAt d (shdr + 4) 4 = 3 →
          ComparesInside d length (shstrtbl + bigEndianAt d shdr 4) (chars ".strtab"))))
      (nameTable d shstrtbl t shdr) := by
  have htype (v : Word) (p : ℕ) : bswap32 d p = v ↔ bigEndianAt d p 4 = v.toNat := by
    rw [← BitVec.toNat_inj, toNat_bswap32]
  have hzero : (0 : Word).toNat = 0 := rfl
  have hsym : shtSymtab.toNat = 2 := rfl
  have hstr : shtStrtab.toNat = 3 := rfl
  refine Succeeds.congr ((succeeds_wordIn shdr).bind fun _ =>
    Succeeds.ite (fun _ => (succeeds_wordIn (shdr + 4)).bind fun _ =>
      Succeeds.ite (fun _ => (succeeds_strcmpIn _ (chars ".symtab")).bind fun _ => Succeeds.pure _)
        fun _ => Succeeds.ite
          (fun _ => (succeeds_strcmpIn _ (chars ".strtab")).bind fun _ => Succeeds.pure _)
          fun _ => Succeeds.pure t)
    fun _ => Succeeds.pure t) ?_ fun _ => rfl
  rw [ne_eq, htype, htype, htype, hzero, hsym, hstr, toNat_bswap32]
  constructor
  · rintro ⟨hp, hname, -⟩
    refine ⟨hp, fun h => ?_⟩
    obtain ⟨hp', hsymtab, hother⟩ := hname h
    exact ⟨hp', fun h => (hsymtab h).1, fun h => ((hother (by omega)).1 h).1⟩
  · rintro ⟨hp, hname⟩
    refine ⟨hp, fun h => ?_, fun _ => trivial⟩
    obtain ⟨hp', hsymtab, hstrtab⟩ := hname h
    exact ⟨hp', fun h => ⟨hsymtab h, trivial⟩,
      fun _ => ⟨fun h => ⟨hstrtab h, trivial⟩, fun _ => trivial⟩⟩

/-- The symbol table whose section headers these are. -/
def symbolsAt (d : ElfData) (symtabhdr strtabhdr : ℕ) : Symbols where
  symBase := bigEndianAt d (symtabhdr + 16) 4
  symCount := bigEndianAt d (symtabhdr + 20) 4 / bigEndianAt d (symtabhdr + 36) 4
  strBase := bigEndianAt d (strtabhdr + 16) 4

/-- The sections that the loop over the names finds. -/
def tablesOf (d : ElfData) : Tables :=
  (List.range (shnumOf d)).foldl (fun t i =>
    nameTable d (bigEndianAt d (shdrAt d (shstrndxOf d) + 16) 4) t (shdrAt d i)) ⟨none, none⟩

/-- The symbol table, where it can be counted. -/
def symbolsOf (d : ElfData) : Option Symbols :=
  if shstrndxOf d ≠ 0 ∧ shnumOf d ≠ 0 then
    Option.map₂ (symbolsAt d) (tablesOf d).symtabhdr (tablesOf d).strtabhdr
  else none

theorem succeeds_symbolsAtIn (symtabhdr strtabhdr : ℕ) :
    Succeeds (symbolsAtIn d length symtabhdr strtabhdr)
      (symtabhdr + 40 ≤ length ∧ strtabhdr + 20 ≤ length ∧ bigEndianAt d (symtabhdr + 36) 4 ≠ 0)
      (symbolsAt d symtabhdr strtabhdr) := by
  have hzero : bswap32 d (symtabhdr + 36) = 0 ↔ bigEndianAt d (symtabhdr + 36) 4 = 0 := by
    rw [← BitVec.toNat_inj, toNat_bswap32]
    rfl
  have htrap : Succeeds (.error .zeroDivisor : Except Fault Symbols) False
      (symbolsAt d symtabhdr strtabhdr) := ⟨False.elim, fun _ => ⟨_, rfl⟩⟩
  refine Succeeds.congr ((succeeds_wordIn (symtabhdr + 16)).bind fun _ =>
    (succeeds_wordIn (symtabhdr + 20)).bind fun _ =>
    (succeeds_wordIn (symtabhdr + 36)).bind fun _ =>
    Succeeds.ite (fun _ => htrap) fun _ =>
      (succeeds_wordIn (strtabhdr + 16)).bind fun _ => Succeeds.pure _) ?_ fun h => ?_
  · rw [hzero]
    constructor
    · rintro ⟨-, -, hsym, hnonzero, hstr⟩
      have hne : bigEndianAt d (symtabhdr + 36) 4 ≠ 0 := fun h => hnonzero h
      exact ⟨hsym, (hstr hne).1, hne⟩
    · rintro ⟨hsym, hstr, hne⟩
      exact ⟨by omega, by omega, hsym, fun h => hne h, fun _ => ⟨hstr, trivial⟩⟩
  · rw [if_neg (mt hzero.mp h.2.2), BitVec.toNat_udiv]
    simp only [toNat_bswap32]
    rfl

theorem succeeds_symbolsOfIn (t : Tables) : Succeeds (symbolsOfIn d length t)
    (∀ symtabhdr strtabhdr, t.symtabhdr = some symtabhdr → t.strtabhdr = some strtabhdr →
      symtabhdr + 40 ≤ length ∧ strtabhdr + 20 ≤ length ∧ bigEndianAt d (symtabhdr + 36) 4 ≠ 0)
    (Option.map₂ (symbolsAt d) t.symtabhdr t.strtabhdr) := by
  obtain ⟨symtabhdr, strtabhdr⟩ := t
  cases symtabhdr with
  | none => exact (Succeeds.pure none).congr (by simp) fun _ => rfl
  | some symtabhdr =>
    cases strtabhdr with
    | none => exact (Succeeds.pure none).congr (by simp) fun _ => rfl
    | some strtabhdr =>
      refine Succeeds.congr ((succeeds_symbolsAtIn symtabhdr strtabhdr).bind fun _ =>
        Succeeds.pure _) ?_ fun _ => rfl
      simp

theorem succeeds_symbolsIn : Succeeds (symbolsIn d length)
    (52 ≤ length ∧ (shstrndxOf d ≠ 0 ∧ shnumOf d ≠ 0 →
      shdrAt d (shstrndxOf d) + 20 ≤ length ∧
      (∀ i < shnumOf d, shdrAt d i + 4 ≤ length ∧
        (bigEndianAt d (shdrAt d i) 4 ≠ 0 → shdrAt d i + 8 ≤ length ∧
          (bigEndianAt d (shdrAt d i + 4) 4 = 2 →
            ComparesInside d length (shnameAt d i) (chars ".symtab")) ∧
          (bigEndianAt d (shdrAt d i + 4) 4 = 3 →
            ComparesInside d length (shnameAt d i) (chars ".strtab")))) ∧
      ∀ symtabhdr strtabhdr, (tablesOf d).symtabhdr = some symtabhdr →
        (tablesOf d).strtabhdr = some strtabhdr →
          symtabhdr + 40 ≤ length ∧ strtabhdr + 20 ≤ length ∧
            bigEndianAt d (symtabhdr + 36) 4 ≠ 0))
    (symbolsOf d) := by
  refine Succeeds.congr ((succeeds_halfIn 50).bind fun _ => (succeeds_halfIn 48).bind fun _ =>
    (succeeds_wordIn 32).bind fun _ => Succeeds.ite (fun _ => (succeeds_wordIn _).bind fun _ =>
      Succeeds.bind (Succeeds.foldlM (fun t i _ => succeeds_nameTableIn _ t (_ + 40 * i)) _)
        fun _ => succeeds_symbolsOfIn _) fun _ => Succeeds.pure none) ?_ fun _ => ?_
  · simp only [toNat_bswap16, toNat_bswap32]
    constructor
    · rintro ⟨hlen, -, -, hnames, -⟩
      exact ⟨hlen, hnames⟩
    · rintro ⟨hlen, hnames⟩
      exact ⟨hlen, by omega, by omega, hnames, fun _ => trivial⟩
  · simp only [toNat_bswap16, toNat_bswap32]
    rfl

section Symbols

variable {π : Type} [DecidableEq π] {functionPointers : List (String × π)}

theorem succeeds_assignSymIn {t : Symbols} {i : ℕ} (hf : t.isFunc d i = true) (s : π → Word) :
    Succeeds (assignSymIn d length functionPointers (t.name d i) (t.symBase + 16 * i) s)
      ((functionPointers.find? fun e => isString d (t.name d i) e.1).isSome = true →
        t.symBase + 16 * i + 8 ≤ length)
      (readSym functionPointers d t s i) := by
  unfold assignSymIn readSym
  rw [if_pos hf]
  cases functionPointers.find? fun e => isString d (t.name d i) e.1 with
  | none => exact (Succeeds.pure s).congr (by simp) fun _ => rfl
  | some e =>
    refine Succeeds.congr ((succeeds_wordIn _).bind fun _ => Succeeds.pure _) ?_ fun _ => rfl
    simp

theorem succeeds_readSymIn (t : Symbols) (s : π → Word) (i : ℕ) :
    Succeeds (readSymIn d length functionPointers t s i)
      (i < 2 ^ 31 ∧ t.symBase + 16 * i + 13 ≤ length ∧
        (t.isFunc d i = true → EndsInside d length (t.name d i)))
      (readSym functionPointers d t s i) := by
  have hfunc : d (t.symBase + 16 * i + 12) &&& 0xF = sttFunc ↔ t.isFunc d i = true :=
    beq_iff_eq.symm
  have hindex : Succeeds (.error .outside : Except Fault (π → Word)) False s :=
    ⟨False.elim, fun _ => ⟨_, rfl⟩⟩
  refine Succeeds.congr (Succeeds.ite (fun _ => (succeeds_byteIn _).bind fun _ =>
    Succeeds.ite (fun hf => (succeeds_wordIn _).bind fun _ =>
      (succeeds_strlenIn _ _ rfl).bind fun _ => succeeds_assignSymIn (hfunc.mp hf) s)
    fun _ => Succeeds.pure s) fun _ => hindex) ?_ fun h => ?_
  · rw [hfunc]
    constructor
    · rintro ⟨hlt, hge⟩
      have hi : i < 2 ^ 31 := by
        by_contra h
        exact hge h
      obtain ⟨hp, hname, -⟩ := hlt hi
      exact ⟨hi, hp, fun h => (hname h).2.1⟩
    · rintro ⟨hi, hp, hname⟩
      exact ⟨fun _ => ⟨hp, fun h => ⟨by omega, hname h, fun _ => by omega⟩, fun _ => trivial⟩,
        fun h => h hi⟩
  · rw [if_pos h.1]
    split_ifs with hf
    · rfl
    · exact (if_neg (mt hfunc.mpr hf)).symm

theorem succeeds_readSymsIn (t : Option Symbols) (s : π → Word) :
    Succeeds (readSymsIn d length functionPointers s t)
      (∀ u, t = some u → ∀ i < u.symCount, i < 2 ^ 31 ∧ u.symBase + 16 * i + 13 ≤ length ∧
        (u.isFunc d i = true → EndsInside d length (u.name d i)))
      (t.elim s fun u => (List.range u.symCount).foldl (readSym functionPointers d u) s) := by
  cases t with
  | none => exact (Succeeds.pure s).congr (by simp) fun _ => rfl
  | some u =>
    refine Succeeds.congr (Succeeds.foldlM (fun s i _ => succeeds_readSymIn u s i) s) ?_
      fun _ => rfl
    simp

end Symbols

instance (d : ElfData) (shType i : ℕ) : Decidable (NamedOfType d shType i) :=
  inferInstanceAs (Decidable (_ ∧ _))

theorem LastNamed.unique {shType : ℕ} {name : String} {i j : ℕ} (hi : LastNamed d shType name i)
    (hj : LastNamed d shType name j) : i = j :=
  Nat.le_antisymm (hj.2.2 i hi.1 hi.2.1) (hi.2.2 j hj.1 hj.2.1)

/-- The loop over the names finds the last section of a type and name. -/
theorem tablesOf_eq_some_iff {get : Tables → Option ℕ} {shType : ℕ} {name : String}
    (hnone : get ⟨none, none⟩ = none)
    (hget : ∀ t i,
      get (nameTable d (bigEndianAt d (shdrAt d (shstrndxOf d) + 16) 4) t (shdrAt d i)) =
        if NamedOfType d shType i ∧ isString d (shnameAt d i) name = true then some (shdrAt d i)
        else get t) (p : ℕ) :
    get (tablesOf d) = some p ↔ ∃ i, LastNamed d shType name i ∧ p = shdrAt d i := by
  rcases foldl_field_cases (fun i => some (shdrAt d i)) hget ⟨none, none⟩ (shnumOf d) with
    ⟨hsame, hno⟩ | ⟨i, hi, hP, hlast, hval⟩
  · have hget : get (tablesOf d) = none := hsame.trans hnone
    rw [hget]
    constructor
    · exact fun h => by cases h
    · rintro ⟨i, ⟨hi, hP, -⟩, -⟩
      exact absurd hP (hno i hi)
  · have hget : get (tablesOf d) = some (shdrAt d i) := hval
    rw [hget, Option.some.injEq]
    constructor
    · rintro rfl
      exact ⟨i, ⟨hi, hP, hlast⟩, rfl⟩
    · rintro ⟨j, hj, rfl⟩
      rw [hj.unique ⟨hi, hP, hlast⟩]

theorem nameTable_eq (t : Tables) (i : ℕ) :
    nameTable d (bigEndianAt d (shdrAt d (shstrndxOf d) + 16) 4) t (shdrAt d i) =
      ⟨if NamedOfType d 2 i ∧ isString d (shnameAt d i) ".symtab" = true then some (shdrAt d i)
        else t.symtabhdr,
      if NamedOfType d 3 i ∧ isString d (shnameAt d i) ".strtab" = true then some (shdrAt d i)
        else t.strtabhdr⟩ := by
  have htype (v : Word) (p : ℕ) : bswap32 d p = v ↔ bigEndianAt d p 4 = v.toNat := by
    rw [← BitVec.toNat_inj, toNat_bswap32]
  have hzero : (0 : Word).toNat = 0 := rfl
  have hsym : shtSymtab.toNat = 2 := rfl
  have hstr : shtStrtab.toNat = 3 := rfl
  have hname : bigEndianAt d (shdrAt d (shstrndxOf d) + 16) 4 + bigEndianAt d (shdrAt d i) 4 =
      shnameAt d i := rfl
  simp only [nameTable, ne_eq, htype, hzero, hsym, hstr, toNat_bswap32, NamedOfType, hname]
  by_cases h0 : bigEndianAt d (shdrAt d i) 4 = 0
  · simp [h0]
  · by_cases h2 : bigEndianAt d (shdrAt d i + 4) 4 = 2
    · split_ifs
      all_goals simp_all
    · by_cases h3 : bigEndianAt d (shdrAt d i + 4) 4 = 3
      · split_ifs
        all_goals simp_all
      · simp [h0, h2, h3]

theorem symtabhdr_eq_some_iff (p : ℕ) : (tablesOf d).symtabhdr = some p ↔
    ∃ i, LastNamed d 2 ".symtab" i ∧ p = shdrAt d i :=
  tablesOf_eq_some_iff rfl (fun t i => congrArg Tables.symtabhdr (nameTable_eq t i)) p

theorem strtabhdr_eq_some_iff (p : ℕ) : (tablesOf d).strtabhdr = some p ↔
    ∃ i, LastNamed d 3 ".strtab" i ∧ p = shdrAt d i :=
  tablesOf_eq_some_iff rfl (fun t i => congrArg Tables.strtabhdr (nameTable_eq t i)) p

theorem bigEndianAt_one (p : ℕ) : bigEndianAt d p 1 = (d p).toNat := by
  simp [bigEndianAt, number]

/-- The checks are those of `parse_elf`. -/
theorem rejected_headerChecks : rejected d headerChecks = checkHeader d := by
  have hbyte (p : ℕ) (v : BitVec 8) : d p = v ↔ bigEndianAt d p 1 = v.toNat := by
    rw [← BitVec.toNat_inj, bigEndianAt_one]
  have hhalf (p : ℕ) (v : BitVec 16) : bswap16 d p = v ↔ bigEndianAt d p 2 = v.toNat := by
    rw [← BitVec.toNat_inj, toNat_bswap16]
  have hlt : bswap16 d 44 < 1 ↔ ¬1 ≤ bigEndianAt d 44 2 := by
    rw [BitVec.lt_def, toNat_bswap16]
    exact Nat.not_le.symm
  simp only [rejected, headerChecks, HeaderCheck.passes, beq_iff_eq, decide_eq_true_eq]
  simp only [checkHeader, ne_eq, hbyte, hhalf, hlt, ← not_and_or, ite_not, ite_and,
    BitVec.reduceToNat]

theorem rejected_eq_zero_iff {cs : List HeaderCheck} (hrv : ∀ c ∈ cs, c.rv ≠ 0) :
    rejected d cs = 0 ↔ ∀ c ∈ cs, c.passes d = true := by
  induction cs with
  | nil => simp [rejected]
  | cons c cs ih =>
    have hc := hrv c List.mem_cons_self
    have ih := ih fun c' hc' => hrv c' (List.mem_cons_of_mem _ hc')
    rw [rejected, List.forall_mem_cons]
    split_ifs with hpass
    · rw [ih]
      exact ⟨fun h => ⟨hpass, h⟩, fun h => h.2⟩
    · exact ⟨fun h => absurd h hc, fun h => absurd h.1 hpass⟩

section Parse

variable {π : Type} [DecidableEq π]

/-- What `parse_elf` does without a fault. -/
def parsed (functionPointers : List (String × π)) (d : ElfData) (s : π → Word) :
    Except ℤ (ExeFormat × (π → Word)) :=
  if checkHeader d ≠ 0 then .error (checkHeader d)
  else .ok (exeFormat d, (symbolsOf d).elim s fun t =>
    (List.range t.symCount).foldl (readSym functionPointers d t) s)

theorem headers_rv_ne {c : HeaderCheck} (hc : c ∈ headerChecks) : c.rv ≠ 0 := by
  revert c
  decide

theorem symbolsInside_iff (symtabhdr strtabhdr : ℕ) :
    SymbolsInside d length symtabhdr strtabhdr ↔
      (symtabhdr + 40 ≤ length ∧ strtabhdr + 20 ≤ length ∧
        bigEndianAt d (symtabhdr + 36) 4 ≠ 0) ∧
      ∀ i < (symbolsAt d symtabhdr strtabhdr).symCount, i < 2 ^ 31 ∧
        (symbolsAt d symtabhdr strtabhdr).symBase + 16 * i + 13 ≤ length ∧
        ((symbolsAt d symtabhdr strtabhdr).isFunc d i = true →
          EndsInside d length ((symbolsAt d symtabhdr strtabhdr).name d i)) := by
  have hfunc (i : ℕ) : (symbolsAt d symtabhdr strtabhdr).isFunc d i = true ↔
      d (bigEndianAt d (symtabhdr + 16) 4 + 16 * i + 12) &&& 0xF = sttFunc := beq_iff_eq
  have hname (i : ℕ) : (symbolsAt d symtabhdr strtabhdr).name d i =
      bigEndianAt d (strtabhdr + 16) 4 +
        bigEndianAt d (bigEndianAt d (symtabhdr + 16) 4 + 16 * i) 4 := by
    rw [Symbols.name, toNat_bswap32]
    rfl
  simp only [hfunc, hname]
  constructor
  · rintro ⟨hsym, hstr, hent, hindex, hsyms, hnames⟩
    exact ⟨⟨hsym, hstr, hent⟩, fun i hi => ⟨hi.trans_le hindex, hsyms i hi, hnames i hi⟩⟩
  · rintro ⟨⟨hsym, hstr, hent⟩, hall⟩
    refine ⟨hsym, hstr, hent, ?_, fun i hi => (hall i hi).2.1, fun i hi => (hall i hi).2.2⟩
    by_contra hlt
    exact absurd (hall (2 ^ 31) (Nat.lt_of_not_le hlt)).1 (lt_irrefl _)

/-- The accesses of the loops over the headers. -/
theorem headersInside_iff : HeadersInside d length ↔ 52 ≤ length ∧
    (∀ i < phnumOf d, phdrAt d i + 8 ≤ length ∧
      (bigEndianAt d (phdrAt d i) 4 = 0x70000000 →
        bigEndianAt d (phdrAt d i + 4) 4 + 24 ≤ length) ∧
      (Listed d (phdrAt d i) → phdrAt d i + 28 ≤ length)) ∧
    ∀ i < shnumOf d, shdrAt d i + 12 ≤ length ∧
      (Allocated d (shdrAt d i) → shdrAt d i + 40 ≤ length) := by
  constructor
  · intro h
    exact ⟨h.ehdr, fun i hi => ⟨h.phdr i hi, h.reginfo i hi, h.listed i hi⟩,
      fun i hi => ⟨h.shdr i hi, h.allocated i hi⟩⟩
  · rintro ⟨hlen, hphdrs, hshdrs⟩
    exact
      { ehdr := hlen
        phdr := fun i hi => (hphdrs i hi).1
        reginfo := fun i hi => (hphdrs i hi).2.1
        listed := fun i hi => (hphdrs i hi).2.2
        shdr := fun i hi => (hshdrs i hi).1
        allocated := fun i hi => (hshdrs i hi).2 }

/-- The accesses of the loop over the names. -/
theorem namesInside_iff (hshdr : ∀ i < shnumOf d, shdrAt d i + 12 ≤ length) :
    NamesInside d length ↔ shdrAt d (shstrndxOf d) + 20 ≤ length ∧
      ∀ i < shnumOf d, shdrAt d i + 4 ≤ length ∧
        (bigEndianAt d (shdrAt d i) 4 ≠ 0 → shdrAt d i + 8 ≤ length ∧
          (bigEndianAt d (shdrAt d i + 4) 4 = 2 →
            ComparesInside d length (shnameAt d i) (chars ".symtab")) ∧
          (bigEndianAt d (shdrAt d i + 4) 4 = 3 →
            ComparesInside d length (shnameAt d i) (chars ".strtab"))) := by
  constructor
  · intro h
    refine ⟨h.shstrhdr, fun i hi => ?_⟩
    have := hshdr i hi
    exact ⟨by omega, fun h0 => ⟨by omega, fun h2 => h.symtab i hi ⟨h0, h2⟩,
      fun h3 => h.strtab i hi ⟨h0, h3⟩⟩⟩
  · rintro ⟨hstr, hnames⟩
    exact
      { shstrhdr := hstr
        symtab := fun i hi h => ((hnames i hi).2 h.1).2.1 h.2
        strtab := fun i hi h => ((hnames i hi).2 h.1).2.2 h.2 }

/-- The symbol table is that of the last sections with the two names. -/
theorem symbolsOf_eq_some_iff (t : Symbols) : symbolsOf d = some t ↔
    (shstrndxOf d ≠ 0 ∧ shnumOf d ≠ 0) ∧ ∃ i j, LastNamed d 2 ".symtab" i ∧
      LastNamed d 3 ".strtab" j ∧ t = symbolsAt d (shdrAt d i) (shdrAt d j) := by
  unfold symbolsOf
  split_ifs with hsome
  · rw [and_iff_right hsome]
    constructor
    · intro ht
      obtain ⟨p, q, hp, hq, rfl⟩ := Option.map₂_eq_some_iff.mp ht
      obtain ⟨i, hi, rfl⟩ := (symtabhdr_eq_some_iff p).mp hp
      obtain ⟨j, hj, rfl⟩ := (strtabhdr_eq_some_iff q).mp hq
      exact ⟨i, j, hi, hj, rfl⟩
    · rintro ⟨i, j, hi, hj, rfl⟩
      exact Option.map₂_eq_some_iff.mpr ⟨_, _, (symtabhdr_eq_some_iff _).mpr ⟨i, hi, rfl⟩,
        (strtabhdr_eq_some_iff _).mpr ⟨j, hj, rfl⟩, rfl⟩
  · exact iff_of_false (by simp) fun h => hsome h.1

/-- **The accesses of `parse_elf`** are all in the file, and it divides by 0 nowhere, exactly
under `Inside`. -/
theorem succeeds_parseElfIn (functionPointers : List (String × π)) (s : π → Word) :
    Succeeds (parseElfIn d length functionPointers s) (Inside d length)
      (parsed functionPointers d s) := by
  have hpass : rejected d headerChecks = 0 ↔ ∀ c ∈ headerChecks, c.passes d = true :=
    rejected_eq_zero_iff fun _ => headers_rv_ne
  refine Succeeds.congr ((succeeds_headerIn headerChecks).bind fun _ =>
    Succeeds.ite (fun _ => Succeeds.pure _) fun _ => succeeds_exeFormatIn.bind fun _ =>
      succeeds_symbolsIn.bind fun _ => (succeeds_readSymsIn _ s).bind fun _ => Succeeds.pure _)
    ?_ fun _ => ?_
  · rw [ne_eq, not_not, hpass]
    constructor
    · rintro ⟨hchecks, -, hbody⟩
      have hheaders (hp : ∀ c ∈ headerChecks, c.passes d = true) : HeadersInside d length := by
        obtain ⟨⟨-, hphdrs, -, hshdrs⟩, ⟨hlen, -⟩, -⟩ := hbody hp
        exact headersInside_iff.mpr ⟨hlen, hphdrs, hshdrs⟩
      refine ⟨hchecks, hheaders, fun hp hndx hnum => ?_, fun hp hndx hnum i j hi hj => ?_⟩
      · obtain ⟨-, ⟨-, hsome⟩, -⟩ := hbody hp
        obtain ⟨hstr, hnames, -⟩ := hsome ⟨hndx, hnum⟩
        exact (namesInside_iff (hheaders hp).shdr).mpr ⟨hstr, hnames⟩
      · obtain ⟨-, ⟨-, hsome⟩, hsyms, -⟩ := hbody hp
        refine (symbolsInside_iff _ _).mpr ⟨(hsome ⟨hndx, hnum⟩).2.2 _ _
          ((symtabhdr_eq_some_iff _).mpr ⟨i, hi, rfl⟩)
            ((strtabhdr_eq_some_iff _).mpr ⟨j, hj, rfl⟩), hsyms _ ?_⟩
        exact (symbolsOf_eq_some_iff _).mpr ⟨⟨hndx, hnum⟩, i, j, hi, hj, rfl⟩
    · rintro ⟨hchecks, hheaders, hnames, hsymbols⟩
      refine ⟨hchecks, fun _ => trivial, fun hp => ?_⟩
      obtain ⟨hlen, hphdrs, hshdrs⟩ := headersInside_iff.mp (hheaders hp)
      refine ⟨⟨by omega, hphdrs, by omega, hshdrs⟩, ⟨hlen, fun hsome => ?_⟩, fun t ht => ?_,
        trivial⟩
      · obtain ⟨hstr, hname⟩ := (namesInside_iff (hheaders hp).shdr).mp
          (hnames hp hsome.1 hsome.2)
        refine ⟨hstr, hname, fun p q hp' hq => ?_⟩
        obtain ⟨i, hi, rfl⟩ := (symtabhdr_eq_some_iff p).mp hp'
        obtain ⟨j, hj, rfl⟩ := (strtabhdr_eq_some_iff q).mp hq
        exact ((symbolsInside_iff _ _).mp (hsymbols hp hsome.1 hsome.2 i j hi hj)).1
      · obtain ⟨hsome, i, j, hi, hj, rfl⟩ := (symbolsOf_eq_some_iff t).mp ht
        exact ((symbolsInside_iff _ _).mp (hsymbols hp hsome.1 hsome.2 i j hi hj)).2
  · rw [rejected_headerChecks]
    rfl

/-- **Where the accesses of `parse_elf` stay in the file** and it does not divide by 0. -/
theorem staysInside_iff (d : ElfData) (length : ℕ) (functionPointers : List (String × π))
    (s : π → Word) : (∃ r, parseElfIn d length functionPointers s = .ok r) ↔ Inside d length :=
  (succeeds_parseElfIn functionPointers s).isOk_iff

/-- The symbols, where they can be counted. -/
theorem symbols_eq (hent : shstrndxOf d ≠ 0 → shnumOf d ≠ 0 → ∀ symtabhdr strtabhdr,
    (tablesOf d).symtabhdr = some symtabhdr → (tablesOf d).strtabhdr = some strtabhdr →
      bigEndianAt d (symtabhdr + 36) 4 ≠ 0) : symbols d = .ok (symbolsOf d) := by
  have htables : (List.range (bswap16 d 48).toNat).foldl (fun t i =>
      nameTable d (bswap32 d ((bswap32 d 32).toNat + 40 * (bswap16 d 50).toNat + 16)).toNat t
        ((bswap32 d 32).toNat + 40 * i)) ⟨none, none⟩ = tablesOf d := by
    simp only [toNat_bswap16, toNat_bswap32]
    rfl
  have hndx : (bswap16 d 50).toNat = shstrndxOf d := toNat_bswap16 d 50
  have hnum : (bswap16 d 48).toNat = shnumOf d := toNat_bswap16 d 48
  simp only [symbols, htables]
  rw [hndx, hnum, symbolsOf]
  split_ifs with hsome
  · cases hsym : (tablesOf d).symtabhdr with
    | none => rfl
    | some p =>
      cases hstr : (tablesOf d).strtabhdr with
      | none => rfl
      | some q =>
        have hne : ¬bswap32 d (p + 36) = 0 := by
          rw [← BitVec.toNat_inj, toNat_bswap32]
          exact hent hsome.1 hsome.2 p q hsym hstr
        simp only [if_neg hne, BitVec.toNat_udiv, toNat_bswap32]
        rfl
  · rfl

/-- **The accesses do not change the result:** without a fault, it is that of `parseElf`. -/
theorem parseElfIn_eq {functionPointers : List (String × π)} {s : π → Word}
    {r : Except ℤ (ExeFormat × (π → Word))}
    (h : parseElfIn d length functionPointers s = .ok r) :
    parseElf functionPointers d s = r.mapError .returned := by
  have hin := (succeeds_parseElfIn functionPointers s).isOk_iff.mp ⟨r, h⟩
  have hr := (succeeds_parseElfIn functionPointers s).eq_of_ok h
  unfold parseElf
  rw [hr, parsed]
  split_ifs with hcheck
  · rfl
  · have hp : ∀ c ∈ headerChecks, c.passes d = true := by
      rw [← rejected_eq_zero_iff fun _ => headers_rv_ne, rejected_headerChecks]
      exact not_not.mp hcheck
    have hsymbols : symbols d = .ok (symbolsOf d) := by
      refine symbols_eq fun hndx hnum p q hsym hstr => ?_
      obtain ⟨i, hi, rfl⟩ := (symtabhdr_eq_some_iff p).mp hsym
      obtain ⟨j, hj, rfl⟩ := (strtabhdr_eq_some_iff q).mp hstr
      exact (hin.symbols hp hndx hnum i j hi hj).entsize
    rw [hsymbols]
    cases symbolsOf d with
    | none => rfl
    | some t => rfl

example : (parseElfIn twoFunctionsData 342 functionPointers initSyscalls).isOk = true := by
  decide +kernel

/-- The magic number, and no more. -/
def magicData : ElfData := fun p => [0x7F, 0x45, 0x4C, 0x46].getD p 0

theorem not_staysInside_magic :
    ¬∃ r, parseElfIn magicData 4 functionPointers initSyscalls = .ok r := by
  rintro ⟨r, hr⟩
  have hfault : parseElfIn magicData 4 functionPointers initSyscalls = .error .outside := rfl
  cases hfault.symm.trans hr

end Parse

end Succeeds

end Sim
end OooProcessor
