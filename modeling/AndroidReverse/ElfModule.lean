import AndroidReverse.ElfImage
import Mathlib.Data.Option.Basic

/-!
# The class `elf_module`

What `elf_module.cpp` does to hook a symbol of a loaded module: it reads the dynamic
section (`getSegmentView`), looks the symbol up in one of two hash tables
(`findSymbolByName`) and replaces the addresses in the slots that the module's
relocations of the symbol point at (`hook`).

The chain walks of the two lookups have no bound in the source, so they take fuel, and a
result of `none` means that the fuel ran out. A symbol name is the list of its characters
before the terminator. `hook` changes the memory and `*old_func` and calls `mprotect`; these
make up a `Process`, and which calls of `mprotect` succeed is a parameter. The two page
sizes of the source, `getpagesize()` and `PAGE_SIZE`, are 4096. The assertions, the log and
the flushing of the instruction cache are left out.
-/

open ByteMemory

namespace Elf

variable {c : ElfClass}

/-- The characters of a C string. -/
abbrev Chars : Type := List (BitVec 8)

/-- `PAGE_SIZE`, and the result of `getpagesize()`. -/
def PAGE_SIZE : ℕ := 4096

/-- The macro `PAGE_START`. -/
def pageStart (addr : c.Addr) : c.Addr := ~~~(BitVec.ofNat c.bits (PAGE_SIZE - 1)) &&& addr

/-- The macro `PAGE_END`. -/
def pageEnd (addr : c.Addr) : c.Addr := pageStart (plus addr (PAGE_SIZE - 1))

/-- The macro `powerof2`, at a `uint32_t`. -/
def powerof2 (x : ℕ) : Prop := ((x + (2 ^ 32 - 1)) % 2 ^ 32) &&& x = 0

instance (x : ℕ) : Decidable (powerof2 x) := inferInstanceAs (Decidable (_ = _))

/-- The macro `MAYBE_MAP_FLAG`. -/
def maybeMapFlag (x flag prot : ℕ) : ℕ := if x &&& flag ≠ 0 then prot else 0

/-- `PROT_READ`. -/
def PROT_READ : ℕ := 1

/-- `PROT_WRITE`. -/
def PROT_WRITE : ℕ := 2

/-- `PROT_EXEC`. -/
def PROT_EXEC : ℕ := 4

/-- The macro `PFLAGS_TO_PROT`; `PF_X`, `PF_R` and `PF_W` are 1, 4 and 2. -/
def pflagsToProt (x : ℕ) : ℕ :=
  maybeMapFlag x 1 PROT_EXEC ||| maybeMapFlag x 4 PROT_READ ||| maybeMapFlag x 2 PROT_WRITE

/-- **The members of `elf_module`.** Of the pointers, `m_shdr` and `m_shstr_ptr` are left
out with the functions that read sections, and so is the module's name. -/
structure Module (c : ElfClass) where
  baseAddr : c.Addr
  biasAddr : c.Addr
  isLoaded : Bool
  ehdr : c.Addr
  phdr : c.Addr
  dynPtr : c.Addr
  dynSize : ℕ
  symPtr : c.Addr
  symSize : ℕ
  relpltAddr : c.Addr
  reldynAddr : c.Addr
  relpltBytes : ℕ
  reldynBytes : ℕ
  nbucket : ℕ
  nchain : ℕ
  bucket : c.Addr
  chain : c.Addr
  gnuNbucket : ℕ
  gnuSymndx : ℕ
  gnuMaskwords : ℕ
  gnuShift2 : ℕ
  gnuBucket : c.Addr
  gnuChain : c.Addr
  gnuBloomFilter : c.Addr
  isGnuHash : Bool
  isUseRela : Bool
  symstrPtr : c.Addr
deriving Inhabited

namespace Module

/-- **The constructor.** It leaves the members of the hash tables as they are, so they
are what `junk` has there. -/
def construct (baseAddr : c.Addr) (junk : Module c) : Module c :=
  { junk with
    baseAddr := baseAddr, biasAddr := 0, isLoaded := false, ehdr := 0, phdr := 0
    dynPtr := 0, dynSize := 0, symPtr := 0, symSize := 0
    relpltAddr := 0, relpltBytes := 0, reldynAddr := 0, reldynBytes := 0
    symstrPtr := 0, isGnuHash := false, isUseRela := false }

/-! ## The segments -/

/-- The entries of a program header table. -/
def phdrs (mem : c.Mem) (table : c.Addr) (phnum : ℕ) : List Phdr :=
  (List.range phnum).map (fun i => readPhdr mem (elem table (sizeofPhdr c) i))

/-- `caculate_bias_addr`. -/
def caculateBiasAddr (mem : c.Mem) (elf : c.Addr) : c.Addr :=
  let ehdr := readEhdr mem elf
  match (phdrs mem (plus elf ehdr.ePhoff) ehdr.ePhnum).find? (fun phdr => phdr.pType = PT_LOAD) with
  | some phdr => plus elf phdr.pOffset - BitVec.ofNat c.bits phdr.pVaddr
  | none => 0

/-- `find_segment_by_type`. -/
def findSegmentByType (mem : c.Mem) (m : Module c) (type : ℕ) : Option Phdr :=
  (phdrs mem m.phdr (readEhdr mem m.ehdr).ePhnum).find? (fun phdr => phdr.pType = type)

/-! ## The dynamic section -/

/-- The case `DT_HASH`, with `rawdata` the address of the table. -/
def parseHash (mem : c.Mem) (rawdata : c.Addr) (m : Module c) : Module c :=
  let nbucket := readWord mem rawdata
  let nchain := readWord mem (plus rawdata 4)
  let bucket := plus rawdata 8
  { m with nbucket, nchain, bucket, chain := elem bucket 4 nbucket, symSize := nchain }

/-- The case `DT_GNU_HASH`, with `rawdata` the address of the table; `false` where
`get_segment_view` returns. -/
def parseGnuHash (mem : c.Mem) (rawdata : c.Addr) (m : Module c) : Bool × Module c :=
  let nbucket := readWord mem rawdata
  let symndx := readWord mem (plus rawdata 4)
  let maskwords := readWord mem (plus rawdata 8)
  let shift2 := readWord mem (plus rawdata 12)
  let bloomFilter := plus rawdata 16
  let bucket := elem bloomFilter c.addrBytes maskwords
  let m := { m with
    gnuNbucket := nbucket, gnuSymndx := symndx, gnuMaskwords := maskwords, gnuShift2 := shift2
    gnuBloomFilter := bloomFilter, gnuBucket := bucket
    gnuChain := elem bucket 4 nbucket - BitVec.ofNat c.bits (4 * symndx) }
  if ¬ powerof2 maskwords then (false, m)
  else (true, { m with gnuMaskwords := (maskwords + (2 ^ 32 - 1)) % 2 ^ 32, isGnuHash := true })

/-- The body of the loop over the dynamic entries; `false` where the function returns. -/
def dynEntry (mem : c.Mem) (dyn : Dyn) (m : Module c) : Bool × Module c :=
  match DynTag.ofValue dyn.dTag with
  | .symtab => (true, { m with symPtr := plus m.biasAddr dyn.dUn })
  | .strtab => (true, { m with symstrPtr := plus m.biasAddr dyn.dUn })
  | .pltrel => (true, if dyn.dUn = DT_RELA then { m with isUseRela := true } else m)
  | .rel | .androidRel => (true, { m with reldynAddr := plus m.biasAddr dyn.dUn })
  | .relsz | .androidRelsz => (true, { m with reldynBytes := dyn.dUn % 2 ^ 32 })
  | .jmprel => (true, { m with relpltAddr := plus m.biasAddr dyn.dUn })
  | .pltrelsz => (true, { m with relpltBytes := dyn.dUn % 2 ^ 32 })
  | .hash => (true, parseHash mem (plus m.biasAddr dyn.dUn) m)
  | .gnuHash => parseGnuHash mem (plus m.biasAddr dyn.dUn) m
  | .rela | .relasz | .other => (true, m)

/-- `n` rounds of the loop over the dynamic entries, from the entry at `dyn` on. -/
def dynLoop (mem : c.Mem) : ℕ → c.Addr → Module c → Bool × Module c
  | 0, _, m => (true, m)
  | n + 1, dyn, m =>
    match dynEntry mem (readDyn mem dyn) m with
    | (true, m) => dynLoop mem n (plus dyn (sizeofDyn c)) m
    | (false, m) => (false, m)

/-- `get_segment_view`. The number of entries is the size of the segment, an `ElfW(Word)`,
divided by the size of an `Elf32_Dyn` in both classes. -/
def getSegmentView (mem : c.Mem) (m : Module c) : Bool × Module c :=
  let ehdr := readEhdr mem m.baseAddr
  let m := { m with ehdr := m.baseAddr, phdr := plus m.baseAddr ehdr.ePhoff }
  let m := if m.biasAddr = 0 then { m with biasAddr := caculateBiasAddr mem m.ehdr } else m
  if ehdr.eType = ET_EXEC ∨ ehdr.eType = ET_DYN then
    match findSegmentByType mem m PT_DYNAMIC with
    | none => (false, m)
    | some dynamic =>
      let dynPtr := plus m.biasAddr dynamic.pVaddr
      let dynSize := dynamic.pMemsz % 2 ^ 32 / 8
      dynLoop mem dynSize dynPtr { m with dynPtr, dynSize, isGnuHash := false }
  else (false, m)

/-! ## Symbols -/

/-- One round of the loop of `elf_hash`. -/
def elfHashStep (h : BitVec 32) (ch : BitVec 8) : BitVec 32 :=
  let h := (h <<< 4) + ch.setWidth 32
  let g := h &&& 0xf0000000#32
  let h := h ^^^ g
  h ^^^ (g >>> 24)

/-- `elf_hash`. -/
def elfHash (name : Chars) : ℕ := (name.foldl elfHashStep 0#32).toNat

/-- `gnu_hash`. -/
def gnuHash (s : Chars) : ℕ := (s.foldl (fun h ch => h * 33#32 + ch.setWidth 32) 5381#32).toNat

/-- **What a lookup leaves**: its result, `*sym`, and `*symidx` as an unsigned number. -/
structure Lookup (c : ElfClass) where
  found : Bool
  sym : c.Addr
  symidx : ℕ
deriving DecidableEq

variable (m : Module c) (mem : c.Mem)

/-- The address of `m_sym_ptr[index]`. -/
def symAt (index : ℕ) : c.Addr := elem m.symPtr (sizeofSym c) index

/-- `!strcmp(m_symstr_ptr + m_sym_ptr[index].st_name, symbol)`. -/
def nameIs (index : ℕ) (symbol : Chars) : Bool :=
  mem.strEq (plus m.symstrPtr (readStName mem (m.symAt index))) symbol

/-- The loop of `elf_lookup`, with the index it ends at if that is the symbol's. -/
def elfWalk (symbol : Chars) : ℕ → ℕ → Option (Option ℕ)
  | 0, _ => none
  | fuel + 1, index =>
    let index := readWord mem (elem m.chain 4 index)
    if m.nameIs mem index symbol then some (some index)
    else if index ≠ 0 then elfWalk symbol fuel index
    else some none

/-- `elf_lookup`. -/
def elfLookup (fuel : ℕ) (symbol : Chars) (sym : c.Addr) (symidx : ℕ) : Option (Lookup c) :=
  if m.bucket = 0 ∨ m.chain = 0 then some ⟨false, sym, symidx⟩
  else
    let hash := elfHash symbol
    let index := readWord mem (elem m.bucket 4 (hash % m.nbucket))
    if m.nameIs mem index symbol then some ⟨true, m.symAt index, index⟩
    else do
      match ← m.elfWalk mem symbol fuel index with
      | some index => return ⟨true, m.symAt index, index⟩
      | none => return ⟨false, sym, symidx⟩

/-- The loop of `gnu_lookup`, with the index it ends at if that is the symbol's. -/
def gnuWalk (symbol : Chars) (hash : ℕ) : ℕ → ℕ → Option (Option ℕ)
  | 0, _ => none
  | fuel + 1, n =>
    let word := readWord mem (elem m.gnuChain 4 n)
    if (word ^^^ hash) >>> 1 = 0 ∧ m.nameIs mem n symbol then some (some n)
    else if word &&& 1 = 0 then gnuWalk symbol hash fuel ((n + 1) % 2 ^ 32)
    else some none

/-- `gnu_lookup`. -/
def gnuLookup (fuel : ℕ) (symbol : Chars) (sym : c.Addr) (symidx : ℕ) : Option (Lookup c) :=
  let hash := gnuHash symbol
  let h2 := hash >>> m.gnuShift2
  if m.gnuBloomFilter = 0 ∨ m.gnuBucket = 0 ∨ m.gnuChain = 0 then some ⟨false, sym, symidx⟩
  else
    let bloomMaskBits := c.addrBytes * 8
    let wordNum := (hash / bloomMaskBits) &&& m.gnuMaskwords
    let bloomWord := readAddr mem (elem m.gnuBloomFilter c.addrBytes wordNum)
    if 1 &&& (bloomWord >>> (hash % bloomMaskBits)) &&& (bloomWord >>> (h2 % bloomMaskBits)) = 0 then
      some ⟨false, 0, 0⟩
    else
      let n := readWord mem (elem m.gnuBucket 4 (hash % m.gnuNbucket))
      if n = 0 then some ⟨false, 0, 0⟩
      else do
        match ← m.gnuWalk mem symbol hash fuel n with
        | some n => return ⟨true, m.symAt n, n⟩
        | none => return ⟨false, 0, 0⟩

/-- The loop over the symbols that are not hashed, which the caller bounds by
`(int)m_gnu_symndx`. It does not stop at a match. -/
def prefixLoop (symbol : Chars) (r : Lookup c) : Lookup c :=
  (List.range (if m.gnuSymndx < 2 ^ 31 then m.gnuSymndx else 0)).foldl
    (fun r i => if m.nameIs mem i symbol then ⟨true, m.symAt i, i⟩ else r) r

/-- `find_symbol_by_name`. -/
def findSymbolByName (fuel : ℕ) (symbol : Chars) (sym : c.Addr) (symidx : ℕ) :
    Option (Lookup c) :=
  if m.symstrPtr = 0 ∨ m.symPtr = 0 then some ⟨false, sym, symidx⟩
  else if m.isGnuHash then do
    let r ← m.gnuLookup mem fuel symbol sym symidx
    if r.found then return r else return m.prefixLoop mem symbol r
  else m.elfLookup mem fuel symbol sym symidx

end Module

/-! ## Replacing a function -/

/-- **What `hook` changes** besides the module: the memory, the variable `*old_func`, and
the calls of `mprotect` that were made, each with its page and its protection. -/
structure Process (c : ElfClass) where
  mem : c.Mem
  oldFunc : c.Addr
  mprotects : List (c.Addr × ℕ)

namespace Module

/-- The protection of a page in a segment; the last segment counts. -/
def getMemAccess (m : Module c) (mem : c.Mem) (addr : c.Addr) : Option ℕ :=
  (phdrs mem m.phdr (readEhdr mem m.ehdr).ePhnum).foldl
    (fun result phdr =>
      let segStart := plus m.biasAddr phdr.pVaddr
      let segEnd := plus segStart phdr.pMemsz
      if phdr.pType = PT_LOAD ∧ pageStart segStart ≤ addr ∧ addr < pageEnd segEnd then
        some (pflagsToProt phdr.pFlags)
      else result)
    none

/-- `set_mem_access`, with `true` where `mprotect` fails; `mprotect n` says whether the
call after `n` others succeeds. -/
def setMemAccess (mprotect : ℕ → Bool) (addr : c.Addr) (prots : ℕ) (s : Process c) :
    Bool × Process c :=
  (!mprotect s.mprotects.length, { s with mprotects := s.mprotects ++ [(pageStart addr, prots)] })

/-- `replace_function`. The result says that it *failed*, as in the source. -/
def replaceFunction (m : Module c) (mprotect : ℕ → Bool) (addr replaceFunc : c.Addr)
    (s : Process c) : Bool × Process c :=
  if readPtr s.mem addr = replaceFunc then (false, s)
  else
    let s := if s.oldFunc = 0 then { s with oldFunc := readPtr s.mem addr } else s
    match m.getMemAccess s.mem addr with
    | none => (true, s)
    | some oldProts =>
      let prots := oldProts ||| PROT_WRITE
      let prots := if prots &&& PROT_WRITE ≠ 0 then prots ^^^ (prots &&& PROT_EXEC) else prots
      match setMemAccess mprotect addr prots s with
      | (true, s) => (true, s)
      | (false, s) => (false, { s with mem := writePtr s.mem addr replaceFunc })

/-! ## Hooking -/

/-- `sizeof(ElfW(Rela))` or `sizeof(ElfW(Rel))`, as the module uses the one or the other. -/
def sizeofReloc (m : Module c) : ℕ := if m.isUseRela then sizeofRela c else sizeofRel c

/-- Entry `i` of a relocation table, in the format of the module. -/
def relocAt (m : Module c) (mem : c.Mem) (table : c.Addr) (i : ℕ) : Reloc :=
  if m.isUseRela then readRela mem (elem table (sizeofRela c) i)
  else readRel mem (elem table (sizeofRel c) i)

/-- `relplt_counts`. -/
def relpltCounts (m : Module c) : ℕ := m.relpltBytes / m.sizeofReloc

/-- `reldyn_counts`. -/
def reldynCounts (m : Module c) : ℕ := m.reldynBytes / m.sizeofReloc

/-- The slot a relocation points at. -/
def slotOf (m : Module c) (r : Reloc) : c.Addr := plus m.biasAddr r.rOffset

/-- The test of the loop over the PLT relocations. -/
def isJumpSlot (c : ElfClass) (symidx : ℕ) (r : Reloc) : Bool :=
  elfRSym c r.rInfo = symidx ∧ elfRType c r.rInfo = R_GENERIC_JUMP_SLOT c

/-- The test of the loop over the dynamic relocations. -/
def isDynSlot (c : ElfClass) (symidx : ℕ) (r : Reloc) : Bool :=
  elfRSym c r.rInfo = symidx ∧
    (elfRType c r.rInfo = R_GENERIC_ABS c ∨ elfRType c r.rInfo = R_GENERIC_GLOB_DAT c)

/-- `n` rounds of the loop over the PLT relocations, from entry `i` on; `false` where
`hook` returns. -/
def relpltLoop (m : Module c) (mprotect : ℕ → Bool) (symidx : ℕ) (replaceFunc : c.Addr) :
    ℕ → ℕ → Process c → Bool × Process c
  | 0, _, s => (true, s)
  | n + 1, i, s =>
    let r := m.relocAt s.mem m.relpltAddr i
    if isJumpSlot c symidx r then
      match m.replaceFunction mprotect (m.slotOf r) replaceFunc s with
      | (true, s) => (false, s)
      | (false, s) => (true, s)
    else relpltLoop m mprotect symidx replaceFunc n (i + 1) s

/-- `n` rounds of the loop over the dynamic relocations, from entry `i` on; `false` where
`hook` returns. -/
def reldynLoop (m : Module c) (mprotect : ℕ → Bool) (symidx : ℕ) (replaceFunc : c.Addr) :
    ℕ → ℕ → Process c → Bool × Process c
  | 0, _, s => (true, s)
  | n + 1, i, s =>
    let r := m.relocAt s.mem m.reldynAddr i
    if isDynSlot c symidx r then
      match m.replaceFunction mprotect (m.slotOf r) replaceFunc s with
      | (true, s) => (false, s)
      | (false, s) => reldynLoop m mprotect symidx replaceFunc n (i + 1) s
    else reldynLoop m mprotect symidx replaceFunc n (i + 1) s

/-- `hook`. -/
def hook (m : Module c) (mprotect : ℕ → Bool) (fuel : ℕ) (symbol : Chars) (replaceFunc : c.Addr)
    (s : Process c) : Option (Bool × Module c × Process c) :=
  let (isLoaded, m) :=
    if m.isLoaded then (true, m)
    else
      let (isLoaded, m) := getSegmentView s.mem m
      (isLoaded, { m with isLoaded })
  if ¬ isLoaded then some (false, m, s)
  else do
    let r ← m.findSymbolByName s.mem fuel symbol 0 0
    if r.sym = 0 then return (false, m, s)
    else
      match m.relpltLoop mprotect r.symidx replaceFunc m.relpltCounts 0 s with
      | (false, s) => return (false, m, s)
      | (true, s) =>
        let (result, s) := m.reldynLoop mprotect r.symidx replaceFunc m.reldynCounts 0 s
        return (result, m, s)

end Module

end Elf
