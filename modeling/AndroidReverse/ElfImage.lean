import AndroidReverse.ByteMemory

/-!
# ELF images in memory

The structures of `elf.h` that `elf_module.cpp` reads, as they lie in memory. The sources
are built for both classes, and the macro `ElfW` picks the structures of the class at hand;
here a class is a parameter (`ElfClass`), and what differs between the classes – the size
of an address, the offsets of the fields, the machine's relocation types – are functions
of it.

A structure is read as a whole, into a record of the fields the module uses. Numbers are
little-endian and without sign; `Elf64_Sxword` is only compared with small constants.
-/

open ByteMemory

/-- The class of an image, which fixes the machine as well: ARM or AArch64. -/
inductive ElfClass where
  | elf32
  | elf64
deriving DecidableEq, Repr

namespace ElfClass

/-- `sizeof(ElfW(Addr))`. -/
def addrBytes : ElfClass → ℕ
  | elf32 => 4
  | elf64 => 8

/-- A number that depends on the class: the one for `elf32`, or the one for `elf64`. -/
def pick (n32 n64 : ℕ) : ElfClass → ℕ
  | elf32 => n32
  | elf64 => n64

/-- The bits of an address. -/
def bits (c : ElfClass) : ℕ := 8 * c.addrBytes

/-- `ElfW(Addr)`, the addresses of the process. -/
abbrev Addr (c : ElfClass) : Type := BitVec c.bits

/-- The memory of the process. -/
abbrev Mem (c : ElfClass) : Type := ByteMemory c.bits

end ElfClass

namespace Elf

variable {c : ElfClass}

/-- An `Elf32_Half` at an address. -/
def readHalf (mem : c.Mem) (a : c.Addr) : ℕ := mem.read a 2

/-- A `uint32_t`, or `ElfW(Word)`, at an address. -/
def readWord (mem : c.Mem) (a : c.Addr) : ℕ := mem.read a 4

/-- An integer of the size of an address, at an address. -/
def readAddr (mem : c.Mem) (a : c.Addr) : ℕ := mem.read a c.addrBytes

/-- A pointer at an address. -/
def readPtr (mem : c.Mem) (a : c.Addr) : c.Addr := BitVec.ofNat c.bits (readAddr mem a)

/-- A pointer stored at an address. -/
def writePtr (mem : c.Mem) (a v : c.Addr) : c.Mem := mem.write a c.addrBytes v.toNat

/-- The address `n` bytes behind another. -/
def plus (a : c.Addr) (n : ℕ) : c.Addr := a + BitVec.ofNat c.bits n

/-! ## The constants -/

/-- `PT_LOAD`. -/
def PT_LOAD : ℕ := 1

/-- `PT_DYNAMIC`. -/
def PT_DYNAMIC : ℕ := 2

/-- `ET_EXEC`. -/
def ET_EXEC : ℕ := 2

/-- `ET_DYN`. -/
def ET_DYN : ℕ := 3

/-- `R_GENERIC_JUMP_SLOT`. -/
def R_GENERIC_JUMP_SLOT : ElfClass → ℕ
  | .elf32 => 22
  | .elf64 => 1026

/-- `R_GENERIC_GLOB_DAT`. -/
def R_GENERIC_GLOB_DAT : ElfClass → ℕ
  | .elf32 => 21
  | .elf64 => 1025

/-- `R_GENERIC_ABS`. -/
def R_GENERIC_ABS : ElfClass → ℕ
  | .elf32 => 2
  | .elf64 => 257

/-- The tags of dynamic entries that are told apart. -/
inductive DynTag where
  | pltrelsz
  | hash
  | strtab
  | symtab
  | rela
  | relasz
  | rel
  | relsz
  | pltrel
  | jmprel
  | androidRel
  | androidRelsz
  | gnuHash
  | other
deriving DecidableEq, Repr

/-- The tag with a value: `DT_PLTRELSZ` and so on. -/
def DynTag.ofValue (v : ℕ) : DynTag :=
  if v = 2 then .pltrelsz
  else if v = 4 then .hash
  else if v = 5 then .strtab
  else if v = 6 then .symtab
  else if v = 7 then .rela
  else if v = 8 then .relasz
  else if v = 17 then .rel
  else if v = 18 then .relsz
  else if v = 20 then .pltrel
  else if v = 23 then .jmprel
  else if v = 0x6000000f then .androidRel
  else if v = 0x60000010 then .androidRelsz
  else if v = 0x6ffffef5 then .gnuHash
  else .other

/-- The value of `DT_RELA`. -/
def DT_RELA : ℕ := 7

/-! ## The structures -/

/-- The fields of `ElfW(Ehdr)` that are used. -/
structure Ehdr where
  eType : ℕ
  ePhoff : ℕ
  ePhnum : ℕ

/-- `sizeof(ElfW(Ehdr))`. -/
def sizeofEhdr : ElfClass → ℕ
  | .elf32 => 52
  | .elf64 => 64

/-- `ElfW(Ehdr)` at an address. -/
def readEhdr (mem : c.Mem) (a : c.Addr) : Ehdr where
  eType := readHalf mem (plus a 16)
  ePhoff := readAddr mem (plus a (c.pick 28 32))
  ePhnum := readHalf mem (plus a (c.pick 44 56))

/-- The fields of `ElfW(Phdr)` that are used. -/
structure Phdr where
  pType : ℕ
  pFlags : ℕ
  pOffset : ℕ
  pVaddr : ℕ
  pMemsz : ℕ

/-- `sizeof(ElfW(Phdr))`. -/
def sizeofPhdr : ElfClass → ℕ
  | .elf32 => 32
  | .elf64 => 56

/-- `ElfW(Phdr)` at an address. -/
def readPhdr (mem : c.Mem) (a : c.Addr) : Phdr where
  pType := readWord mem a
  pFlags := readWord mem (plus a (c.pick 24 4))
  pOffset := readAddr mem (plus a (c.pick 4 8))
  pVaddr := readAddr mem (plus a (c.pick 8 16))
  pMemsz := readAddr mem (plus a (c.pick 20 40))

/-- `ElfW(Dyn)`; its two members are of the size of an address. -/
structure Dyn where
  dTag : ℕ
  dUn : ℕ

/-- `sizeof(ElfW(Dyn))`. -/
def sizeofDyn (c : ElfClass) : ℕ := 2 * c.addrBytes

/-- `ElfW(Dyn)` at an address. -/
def readDyn (mem : c.Mem) (a : c.Addr) : Dyn where
  dTag := readAddr mem a
  dUn := readAddr mem (plus a c.addrBytes)

/-- `sizeof(ElfW(Sym))`. -/
def sizeofSym : ElfClass → ℕ
  | .elf32 => 16
  | .elf64 => 24

/-- The member `st_name` of `ElfW(Sym)` at an address, the only one that is used. -/
def readStName (mem : c.Mem) (a : c.Addr) : ℕ := readWord mem a

/-- `sizeof(ElfW(Rel))`. -/
def sizeofRel (c : ElfClass) : ℕ := 2 * c.addrBytes

/-- `sizeof(ElfW(Rela))`. -/
def sizeofRela (c : ElfClass) : ℕ := 3 * c.addrBytes

/-- The fields of `ElfW(Rel)` and of `ElfW(Rela)` that are used. -/
structure Reloc where
  rOffset : ℕ
  rInfo : ℕ

/-- `ElfW(Rel)` at an address. -/
def readRel (mem : c.Mem) (a : c.Addr) : Reloc where
  rOffset := readAddr mem a
  rInfo := readAddr mem (plus a c.addrBytes)

/-- `ElfW(Rela)` at an address, which begins like `ElfW(Rel)`. -/
def readRela (mem : c.Mem) (a : c.Addr) : Reloc where
  rOffset := readAddr mem a
  rInfo := readAddr mem (plus a c.addrBytes)

/-- `elf_r_sym`. -/
def elfRSym (c : ElfClass) (rInfo : ℕ) : ℕ :=
  match c with
  | .elf32 => rInfo / 2 ^ 8
  | .elf64 => rInfo / 2 ^ 32

/-- `elf_r_type`. -/
def elfRType (c : ElfClass) (rInfo : ℕ) : ℕ :=
  match c with
  | .elf32 => rInfo % 2 ^ 8
  | .elf64 => rInfo % 2 ^ 32

end Elf
