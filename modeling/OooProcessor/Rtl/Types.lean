/-
# Words, register names and queue entries

The types the modules under `verilog/` share.  A Verilog vector that is read as
a whole is a `BitVec` of its width; an index into one of the two register files
is a `Fin`, so that every value of the type names a register.

The 167-bit entry of `rename_queue` and the 170-bit entry Rename packs from it
are records here, one field for each slice `ID.v`, `Rename.v` and `EXE.v` take
of them; the comment on a field gives the bits it stands for.
-/

import Mathlib.Data.BitVec
import Mathlib.Data.Fintype.Basic

namespace OooProcessor

/-- A 32-bit word: an instruction, an address or a register value. -/
abbrev Word := BitVec 32

/-- An architectural register, `[4:0]`. -/
abbrev Reg := Fin 32

/-- A physical register, `[5:0]`. -/
abbrev Tag := Fin 64

-- What the numerals of the index types rest on, once for every module.
instance neZeroFour : NeZero 4 := ⟨by decide⟩

instance neZeroReg : NeZero 32 := ⟨by decide⟩

instance neZeroTag : NeZero 64 := ⟨by decide⟩

/-- The field of `len ≤ 5` bits at `lo` that names a register. -/
def regField (w : Word) (lo : ℕ) : Reg := (w.extractLsb' lo 5).toFin

/-- The 13 outputs of Decoder, in the order of its concatenation; the comments
give their bits in the 19-bit control word. -/
structure Controls where
  link : Bool               -- [18]
  regDest : Bool            -- [17]
  jump : Bool               -- [16]
  branch : Bool             -- [15]
  memRead : Bool            -- [14]
  memWrite : Bool           -- [13]
  aluSrc : Bool             -- [12]
  regWrite : Bool           -- [11]
  jumpRegister : Bool       -- [10]
  signOrZero : Bool         -- [9]
  syscall : Bool            -- [8]
  aluControl : BitVec 6     -- [7:2]
  multRegAccess : BitVec 2  -- [1:0]
  deriving DecidableEq, Repr

/-- `{Link,RegDest,…,MultRegAccess} = b`. -/
def Controls.ofBits (b : BitVec 19) : Controls where
  link := b[18]
  regDest := b[17]
  jump := b[16]
  branch := b[15]
  memRead := b[14]
  memWrite := b[13]
  aluSrc := b[12]
  regWrite := b[11]
  jumpRegister := b[10]
  signOrZero := b[9]
  syscall := b[8]
  aluControl := b.extractLsb' 2 6
  multRegAccess := b.extractLsb' 0 2

instance : Zero Controls := ⟨Controls.ofBits 0⟩

/-- An entry of `rename_queue`, `{constants, controls, instr_info, regs}`. -/
structure RenameEntry where
  opB : Word            -- [166:135]
  shamt : BitVec 5      -- [134:130]
  nextAddr : Word       -- [129:98]
  controls : Controls   -- [97:79]
  pc : Word             -- [78:47]
  instr : Word          -- [46:15]
  rs : Reg              -- [14:10]
  rt : Reg              -- [9:5]
  rd : Reg              -- [4:0]
  deriving DecidableEq, Repr

instance : Zero RenameEntry := ⟨⟨0, 0, 0, 0, 0, 0, 0, 0, 0⟩⟩

/-- An entry as Rename passes it on, `{id_control, id_instr, id_instrpc}` above
the physical registers of the destination, of rt and of rs. -/
structure RobEntry where
  opB : Word            -- [169:138]
  shamt : BitVec 5      -- [137:133]
  nextAddr : Word       -- [132:101]
  controls : Controls   -- [100:82]
  instr : Word          -- [81:50]
  pc : Word             -- [49:18]
  mapWr : Tag           -- [17:12]
  mapB : Tag            -- [11:6]
  mapA : Tag            -- [5:0]
  deriving DecidableEq, Repr

instance : Zero RobEntry := ⟨⟨0, 0, 0, 0, 0, 0, 0, 0, 0⟩⟩

@[simp] theorem RenameEntry.zero_controls : (0 : RenameEntry).controls = 0 := rfl
@[simp] theorem RenameEntry.zero_pc : (0 : RenameEntry).pc = 0 := rfl
@[simp] theorem RenameEntry.zero_instr : (0 : RenameEntry).instr = 0 := rfl
@[simp] theorem RenameEntry.zero_rd : (0 : RenameEntry).rd = 0 := rfl

@[simp] theorem RobEntry.zero_controls : (0 : RobEntry).controls = 0 := rfl
@[simp] theorem RobEntry.zero_pc : (0 : RobEntry).pc = 0 := rfl
@[simp] theorem RobEntry.zero_instr : (0 : RobEntry).instr = 0 := rfl

@[simp] theorem Controls.zero_link : (0 : Controls).link = false := rfl
@[simp] theorem Controls.zero_memRead : (0 : Controls).memRead = false := rfl

end OooProcessor
