import AndroidReverse.CheckedRead
import Mathlib.Algebra.Group.Nat.Defs
import Mathlib.Logic.Function.Basic
import Mathlib.Tactic.Common

/-!
# Loading the symbols of an ELF file

`do_load` of the export hook library reads an ELF file: the header, the section headers,
the names of the sections, and of the sections it finds there the symbol tables with
their strings. `lookup_sym` then searches the symbol tables for a name. Every table is
an array on the heap with the size the file says, and sections, names and symbols are
found in the arrays by numbers that the file says too.

A file is its bytes and the position of the next read. A section header array and a
symbol array are lists of records, as long as the array; a string table is its bytes.
What is read behind the end of one of them is `Stop.outOfBounds`, and `Stop.exit` is the
`exit(1)` of `xmalloc`.
-/

namespace ExportUtil

open Checked

abbrev Byte := BitVec 8

/-- Where the program does not return. -/
inductive Stop
  | exit
  | outOfBounds
  deriving DecidableEq, Repr

/-! ## The file -/

/-- An open file. -/
structure Fd where
  data : List Byte
  pos : ℕ
  deriving DecidableEq

namespace Fd

/-- `lseek(fd, offset, SEEK_SET)`, where an offset from `2 ^ 31` on is a negative
`off_t`: the call fails and the position stays. -/
def lseek (fd : Fd) (offset : ℕ) : Fd := if offset < 2 ^ 31 then { fd with pos := offset } else fd

/-- The most bytes that one `read` transfers. -/
def maxCount : ℕ := 0x7FFFF000

/-- `read(fd, buf, count)`: what it returns and the bytes it writes to the buffer. A
count from `2 ^ 31` on is refused. -/
def read (fd : Fd) (count : ℕ) : ℤ × List Byte × Fd :=
  if count < 2 ^ 31 then
    let buf := (fd.data.drop fd.pos).take (min count maxCount)
    (buf.length, buf, { fd with pos := fd.pos + buf.length })
  else (-1, [], fd)

/-- `my_pread`. -/
def myPread (fd : Fd) (count offset : ℕ) : ℤ × List Byte × Fd := (fd.lseek offset).read count

end Fd

/-- `rv` is what a complete read of `size` bytes returns: the two checks after each
read. -/
def Complete (rv : ℤ) (size : ℕ) : Prop := ¬ (0 > rv) ∧ rv = size

instance (rv : ℤ) (size : ℕ) : Decidable (Complete rv size) :=
  inferInstanceAs (Decidable (_ ∧ _))

/-- `xmalloc`, where `malloc` says which sizes are granted. -/
def xmalloc (malloc : ℕ → Bool) (size : ℕ) : Except Stop Unit :=
  if malloc size then .ok () else .error .exit

/-! ## The records of the file -/

/-- The number in `n` bytes at an offset, lowest byte first. -/
def number (buf : List Byte) (off n : ℕ) : ℕ :=
  ((buf.drop off).take n).foldr (fun b v => b.toNat + 256 * v) 0

/-- What `do_load` uses of `Elf32_Ehdr`. -/
structure Ehdr where
  ident : List Byte
  shoff : ℕ
  shentsize : ℕ
  shnum : ℕ
  shstrndx : ℕ

/-- `sizeof(Elf32_Ehdr)`. -/
def Ehdr.size : ℕ := 52

def Ehdr.ofBytes (b : List Byte) : Ehdr :=
  ⟨b.take 16, number b 32 4, number b 46 2, number b 48 2, number b 50 2⟩

/-- What `do_load` and `get_syms` use of `Elf32_Shdr`. -/
structure Shdr where
  name : ℕ
  type : ℕ
  offset : ℕ
  size : ℕ
  deriving DecidableEq

/-- `sizeof(Elf32_Shdr)`. -/
def Shdr.sizeof : ℕ := 40

def Shdr.ofBytes (b : List Byte) : Shdr :=
  ⟨number b 0 4, number b 4 4, number b 16 4, number b 20 4⟩

/-- What `lookup2` uses of `Elf32_Sym`. -/
structure Sym where
  name : ℕ
  value : ℕ
  info : Byte
  deriving DecidableEq

/-- `sizeof(Elf32_Sym)`. -/
def Sym.sizeof : ℕ := 16

def Sym.ofBytes (b : List Byte) : Sym := ⟨number b 0 4, number b 4 4, b.getD 12 0#8⟩

/-- The array of `n` records of `size` bytes that a buffer holds. -/
def records {α : Type} (ofBytes : List Byte → α) (size n : ℕ) (buf : List Byte) : List α :=
  (List.range n).map (fun i => ofBytes ((buf.drop (size * i)).take size))

/-! ## `get_syms` -/

/-- `struct symlist`; `num` is the length of `sym`. -/
structure Symlist where
  sym : List Sym
  str : List Byte
  deriving DecidableEq

/-- `get_syms`; `none` is the `NULL` of its `goto out`. -/
def getSyms (malloc : ℕ → Bool) (fd : Fd) (symh strh : Shdr) :
    Except Stop (Option Symlist × Fd) := do
  xmalloc malloc 12
  if symh.size % Sym.sizeof ≠ 0 then return (none, fd)
  else
    xmalloc malloc symh.size
    let (rv, sym, fd) := fd.myPread symh.size symh.offset
    if ¬ Complete rv symh.size then return (none, fd)
    else
      xmalloc malloc strh.size
      let (rv, str, fd) := fd.myPread strh.size strh.offset
      if ¬ Complete rv strh.size then return (none, fd)
      else
        return (some ⟨records Sym.ofBytes Sym.sizeof (symh.size / Sym.sizeof) sym, str⟩, fd)

/-! ## `do_load` -/

/-- The sections that the loop of `do_load` looks for. -/
inductive Kind
  | symtab
  | dynsym
  | strtab
  | dynstr
  deriving DecidableEq, Repr

/-- `".strtab"` -/
def strtabName : List Byte := [0x2E#8, 0x73#8, 0x74#8, 0x72#8, 0x74#8, 0x61#8, 0x62#8]

/-- `".dynstr"` -/
def dynstrName : List Byte := [0x2E#8, 0x64#8, 0x79#8, 0x6E#8, 0x73#8, 0x74#8, 0x72#8]

/-- `ELFMAG` -/
def elfMag : List Byte := [0x7F#8, 0x45#8, 0x4C#8, 0x46#8]

/-- The conditions of the loop: which of its sections a section is. Both names have
seven characters, and `strncmp` compares seven. -/
def sectionKind (shstrtab : List Byte) (p : Shdr) : Except Stop (Option Kind) :=
  if p.type = 2 then .ok (some .symtab)
  else if p.type = 11 then .ok (some .dynsym)
  else if p.type = 3 then do
    if ← startsWith .outOfBounds shstrtab p.name strtabName then return some .strtab
    else if ← startsWith .outOfBounds shstrtab p.name dynstrName then return some .dynstr
    else return none
  else .ok none

/-- The sections that are found: `symh`, `dynsymh`, `strh` and `dynstrh`. -/
abbrev Headers := Kind → Option Shdr

/-- The loop of `do_load`; `none` is its `goto out`, at the second section of a kind. -/
def scanSections (shstrtab : List Byte) : List Shdr → Headers → Except Stop (Option Headers)
  | [], found => .ok (some found)
  | p :: ps, found => do
    match ← sectionKind shstrtab p with
    | none => scanSections shstrtab ps found
    | some k =>
      if (found k).isSome then return none
      else scanSections shstrtab ps (Function.update found k (some p))

/-- The sanity checks behind the loop. -/
def sane (found : Headers) : Bool :=
  ((found .dynsym).isSome == (found .dynstr).isSome)
    && ((found .symtab).isSome == (found .strtab).isSome)
    && ((found .dynsym).isSome || (found .symtab).isSome)

/-- `struct symtab`. -/
structure Symtab where
  st : Option Symlist
  dyn : Option Symlist
  deriving DecidableEq

/-- The symbol table as `load_symtab` hands it to `do_load`. -/
def Symtab.zero : Symtab := ⟨none, none⟩

/-- One table of symbols, if both of its sections are there. -/
def loadTable (malloc : ℕ → Bool) (fd : Fd) (symh strh : Option Shdr) :
    Except Stop (Option Symlist × Fd) :=
  match symh, strh with
  | some symh, some strh => getSyms malloc fd symh strh
  | _, _ => .ok (none, fd)

/-- The end of `do_load`: the two tables. -/
def loadTables (malloc : ℕ → Bool) (fd : Fd) (found : Headers) : Except Stop (ℤ × Symtab) := do
  let (dyn, fd) ← loadTable malloc fd (found .dynsym) (found .dynstr)
  let (st, _) ← loadTable malloc fd (found .symtab) (found .strtab)
  return (0, ⟨st, dyn⟩)

/-- `do_load` from the section header string table on. -/
def loadNames (malloc : ℕ → Bool) (fd : Fd) (ehdr : Ehdr) (shdr : List Shdr) :
    Except Stop (ℤ × Symtab) := do
  let strndx ← readAt .outOfBounds shdr ehdr.shstrndx
  xmalloc malloc strndx.size
  let (rv, shstrtab, fd) := fd.myPread strndx.size strndx.offset
  if ¬ Complete rv strndx.size then return (-1, .zero)
  else
    match ← scanSections shstrtab shdr (fun _ => none) with
    | none => return (-1, .zero)
    | some found => if sane found then loadTables malloc fd found else return (-1, .zero)

/-- `do_load` from the section header table on. -/
def loadSections (malloc : ℕ → Bool) (fd : Fd) (ehdr : Ehdr) : Except Stop (ℤ × Symtab) := do
  let size := ehdr.shentsize * ehdr.shnum
  xmalloc malloc size
  let (rv, shdr, fd) := fd.myPread size ehdr.shoff
  if ¬ Complete rv size then return (-1, .zero)
  else loadNames malloc fd ehdr (records Shdr.ofBytes Shdr.sizeof ehdr.shnum shdr)

/-- `do_load`: what it returns and the symbol tables. -/
def doLoad (malloc : ℕ → Bool) (fd : Fd) : Except Stop (ℤ × Symtab) :=
  let (rv, buf, fd) := fd.read Ehdr.size
  if ¬ Complete rv Ehdr.size then .ok (-1, .zero)
  else
    let ehdr := Ehdr.ofBytes buf
    if ¬ elfMag <+: ehdr.ident then .ok (-1, .zero)
    else if Shdr.sizeof ≠ ehdr.shentsize then .ok (-1, .zero)
    else loadSections malloc fd ehdr

/-! ## `lookup_sym` -/

/-- The loop of `lookup2` over the symbols from `p` on; `none` is -1. -/
def lookupFrom (str : List Byte) (type : Byte) (name : List Byte) :
    List Sym → Except Stop (Option ℕ)
  | [] => .ok none
  | p :: ps => do
    if ← startsWith .outOfBounds str p.name name then
      if (← readAt .outOfBounds str (p.name + name.length)) = 0#8 ∧ p.info &&& 0xF#8 = type then
        return some p.value
      else lookupFrom str type name ps
    else lookupFrom str type name ps

/-- `lookup2`. -/
def lookup2 (sl : Symlist) (type : Byte) (name : List Byte) : Except Stop (Option ℕ) :=
  lookupFrom sl.str type name sl.sym

/-- `lookup2` on a table that may be `NULL`, and then is not asked. -/
def lookupIn (sl : Option Symlist) (type : Byte) (name : List Byte) : Except Stop (Option ℕ) :=
  match sl with
  | none => .ok none
  | some sl => lookup2 sl type name

/-- `lookup_sym`: the value of the symbol, or `none` for -1. -/
def lookupSym (s : Symtab) (type : Byte) (name : List Byte) : Except Stop (Option ℕ) := do
  match ← lookupIn s.dyn type name with
  | some v => return some v
  | none => lookupIn s.st type name

end ExportUtil
