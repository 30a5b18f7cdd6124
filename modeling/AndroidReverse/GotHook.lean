import AndroidReverse.RemoteTransfer
import AndroidReverse.SectionTable
import Mathlib.Data.List.Find

/-!
# The GOT hook of another process

`PatchRemoteGot` of `gothook` looks for the section named `.got` in the file of a library and
replaces a function wherever it stands in that section of the traced process. The header of
the section is read into a variable of the caller, one section after the other, and what is
there in the end is taken for that of the GOT: where no section has the name, it is the last
header of the table. `patchRemoteGot_iff` says when that does no harm.
-/

namespace GotHook

open Arm RemoteTransfer SectionTable
open ExportUtil (Fd Ehdr)

/-! ## `elf_utils.c` -/

/-- `fread` of one item. -/
def fread (fp : Fd) (size : ℕ) : List (BitVec 8) × Fd :=
  let buf := (fp.data.drop fp.pos).take size
  (buf, { fp with pos := fp.pos + buf.length })

/-- `GetElfHeader`. -/
def getElfHeader (elf_header : List (BitVec 8)) (elf_file : Fd) : List (BitVec 8) × Fd :=
  let (bytes, elf_file) := fread (elf_file.lseek 0) Ehdr.size
  (fill elf_header bytes, elf_file)

/-- `GetShstrtabContent`, where `junk` is what `malloc` returns. -/
def getShstrtabContent (junk : List (BitVec 8)) (elf_file : Fd) : List (BitVec 8) × Fd :=
  let (elf_header, elf_file) := getElfHeader junk elf_file
  let ehdr := Ehdr.ofBytes elf_header
  let shstrtab_header_offset := ehdr.shoff + ehdr.shstrndx * Shdr.sizeof
  let (bytes, elf_file) := fread (elf_file.lseek shstrtab_header_offset) Shdr.sizeof
  let shstrtab_header := Shdr.ofBytes (fill junk bytes)
  fread (elf_file.lseek shstrtab_header.sh_offset) shstrtab_header.sh_size

/-- The loop of `GetSectionHeaderByName` over a number of sections, the header of the first of
them at an offset. -/
def sectionLoop (shstrtab_content target_section_name : List (BitVec 8)) :
    ℕ → ℕ → List (BitVec 8) → Fd → List (BitVec 8)
  | 0, _, section_header, _ => section_header
  | n + 1, base_section_header_offset, section_header, elf_file =>
    let (bytes, elf_file) := fread (elf_file.lseek base_section_header_offset) Shdr.sizeof
    let section_header := fill section_header bytes
    if strcmp shstrtab_content (Shdr.ofBytes section_header).sh_name target_section_name then
      section_header
    else sectionLoop shstrtab_content target_section_name n
      (base_section_header_offset + Shdr.sizeof) section_header elf_file

/-- `GetSectionHeaderByName`: the variable `section_header`. -/
def getSectionHeaderByName (section_header junk : List (BitVec 8)) (elf_file : Fd)
    (target_section_name : List (BitVec 8)) : List (BitVec 8) :=
  let (elf_header, elf_file) := getElfHeader junk elf_file
  let section_count := (Ehdr.ofBytes elf_header).shnum
  let base_section_header_offset := (Ehdr.ofBytes elf_header).shoff
  let (shstrtab_content, elf_file) := getShstrtabContent junk elf_file
  sectionLoop shstrtab_content target_section_name section_count base_section_header_offset
    section_header elf_file

/-- The loop of `PatchRemoteGot` over the words of the section. -/
def patchLoop (original target : Word) (got_section_address : Word) (got_section_size : ℕ)
    (t : Remote) (i : ℕ) : Remote :=
  if i < got_section_size then
    let got_entry := t.peek (got_section_address + BitVec.ofNat 32 i)
    let t :=
      if got_entry = original then
        ptraceWrite t (got_section_address + BitVec.ofNat 32 i) (Mem.byteOf target) 4
      else t
    patchLoop original target got_section_address got_section_size t (i + 4)
  else t
termination_by got_section_size - i

/-- `PatchRemoteGot`, where the file of the library can be opened and `module_base_addr` is what
`GetModuleBaseAddr` answers. `junk` is what `malloc` returns. -/
def patchRemoteGot (data junk : List (BitVec 8)) (module_base_addr original target : Word)
    (t : Remote) : Remote :=
  let got_section_header := Shdr.ofBytes (getSectionHeaderByName junk junk ⟨data, 0⟩ gotName)
  let got_section_size := got_section_header.sh_size
  let got_addr_offset := BitVec.ofNat 32 got_section_header.sh_addr
  let got_section_address := module_base_addr + got_addr_offset
  patchLoop original target got_section_address got_section_size t 0

/-! ## What it is for -/

/-- The word of a section that an address is in. -/
def wordAt (address x : Word) : Word := address + BitVec.ofNat 32 ((x - address).toNat / 4 * 4)

/-- A word that can be accessed and is some number. -/
def Holds (t : Remote) (a original : Word) : Prop :=
  t.accessible a = true ∧ t.mem.read32 a = original

instance (t : Remote) (a original : Word) : Decidable (Holds t a original) :=
  inferInstanceAs (Decidable (_ ∧ _))

/-- **The words of a section that are the original function replaced**, and nothing else. -/
def replaced (original target address : Word) (size : ℕ) (t : Remote) : Remote :=
  { t with mem := fun x =>
      if (x - address).toNat / 4 * 4 < size ∧ Holds t (wordAt address x) original then
        Mem.byteOf target ((x - address).toNat % 4)
      else t.mem x }

/-- The section named `.got`. -/
def gotSection (data : List (BitVec 8)) : Option ℕ :=
  (List.range (ehdr data).shnum).find? fun k => named data k gotName

/-- The address of a section in the process. -/
def address (data : List (BitVec 8)) (module_base_addr : Word) (k : ℕ) : Word :=
  module_base_addr + BitVec.ofNat 32 (header data k).sh_addr

/-- **The process as it should be**: in the section named `.got` the function is replaced, if
there is one. -/
def patched (data : List (BitVec 8)) (module_base_addr original target : Word) (t : Remote) :
    Remote :=
  match gotSection data with
  | some k => replaced original target (address data module_base_addr k) (header data k).sh_size t
  | none => t

/-! ## The header that is found -/

section Find

variable {data junk : List (BitVec 8)} (hv : Valid data)
include hv

theorem lseek_eq {offset : ℕ} (pos : ℕ) (h : offset ≤ data.length) :
    Fd.lseek ⟨data, pos⟩ offset = ⟨data, offset⟩ :=
  if_pos (h.trans_lt hv.length_lt)

theorem fread_header {k : ℕ} (pos : ℕ) (hk : k < (ehdr data).shnum) :
    fread (Fd.lseek ⟨data, pos⟩ (headerAt data k)) Shdr.sizeof
      = ((data.drop (headerAt data k)).take Shdr.sizeof, ⟨data, headerAt data (k + 1)⟩) := by
  have hle := headerAt_le hv hk
  rw [lseek_eq hv pos (by omega), fread, headerAt_succ]
  dsimp only
  rw [length_headerBytes hv hk]

theorem getElfHeader_eq (pos : ℕ) :
    getElfHeader junk ⟨data, pos⟩ = (fill junk (data.take Ehdr.size), ⟨data, Ehdr.size⟩) := by
  have hlen : (data.take Ehdr.size).length = Ehdr.size := by
    rw [List.length_take, min_eq_left hv.length_ge]
  rw [getElfHeader, lseek_eq hv pos (Nat.zero_le _), fread]
  dsimp only
  rw [List.drop_zero, hlen, Nat.zero_add]

theorem ehdr_fill : Ehdr.ofBytes (fill junk (data.take Ehdr.size)) = ehdr data :=
  ehdr_append (by rw [List.length_take, min_eq_left hv.length_ge])

theorem getShstrtabContent_eq (pos : ℕ) :
    ∃ pos', getShstrtabContent junk ⟨data, pos⟩ = (names data, ⟨data, pos'⟩) := by
  have hstrings := hv.strings
  have hat : (ehdr data).shoff + (ehdr data).shstrndx * Shdr.sizeof
      = headerAt data (ehdr data).shstrndx := by rw [headerAt, Nat.mul_comm]
  rw [getShstrtabContent, getElfHeader_eq hv]
  dsimp only
  rw [ehdr_fill hv, hat, fread_header hv _ hv.shstrndx]
  dsimp only
  rw [ofBytes_fill hv junk hv.shstrndx, lseek_eq hv _ (by omega)]
  exact ⟨_, rfl⟩

/-- **The loop over the sections** finds the first one with the name, or the last one. -/
theorem sectionLoop_eq (name : List (BitVec 8)) {n k : ℕ} (hn : k + (n + 1) = (ehdr data).shnum)
    (sh : List (BitVec 8)) (pos : ℕ) :
    Shdr.ofBytes (sectionLoop (names data) name (n + 1) (headerAt data k) sh ⟨data, pos⟩)
      = header data (((List.range' k (n + 1)).find? fun k => named data k name).getD
        ((ehdr data).shnum - 1)) := by
  have hk : k < (ehdr data).shnum := by omega
  induction n generalizing k sh pos with
  | zero =>
    rw [sectionLoop, fread_header hv pos hk]
    dsimp only
    rw [ofBytes_fill hv sh hk, sectionLoop, List.range'_succ, List.range'_zero, List.find?_cons,
      List.find?_nil, ite_self, ofBytes_fill hv sh hk]
    cases named data k name
    · rw [show (ehdr data).shnum - 1 = k by omega]
      rfl
    · rfl
  | succ n ih =>
    rw [sectionLoop, fread_header hv pos hk]
    dsimp only
    rw [ofBytes_fill hv sh hk, List.range'_succ, List.find?_cons, ← headerAt_succ]
    cases hnamed : named data k name with
    | false =>
      rw [if_neg (by rw [← named, hnamed]; exact Bool.false_ne_true)]
      exact ih (by omega) _ _ (by omega)
    | true =>
      rw [if_pos (show strcmp (names data) (header data k).sh_name name = true from hnamed)]
      exact ofBytes_fill hv sh hk

/-- **The header that is taken for that of the GOT.** -/
theorem getSectionHeaderByName_eq (junk : List (BitVec 8)) :
    Shdr.ofBytes (getSectionHeaderByName junk junk ⟨data, 0⟩ gotName)
      = header data ((gotSection data).getD ((ehdr data).shnum - 1)) := by
  obtain ⟨n, hn⟩ := Nat.exists_eq_add_of_lt (Nat.zero_lt_of_lt hv.shstrndx)
  rw [Nat.zero_add] at hn
  rw [getSectionHeaderByName, getElfHeader_eq hv]
  dsimp only
  rw [ehdr_fill hv]
  obtain ⟨pos, hpos⟩ := @getShstrtabContent_eq data junk hv Ehdr.size
  rw [hpos]
  dsimp only
  have hloop := sectionLoop_eq hv gotName (n := n) (k := 0) (by omega) junk pos
  rw [gotSection, List.range_eq_range']
  rw [← hn] at hloop
  exact hloop

end Find

/-! ## The words that are replaced -/

section Words

variable {original target a : Word} {t : Remote} {size j : ℕ}

/-- A word of its bytes. -/
theorem wordOf_byteOf (v : Word) : RemoteCall.wordOf (Mem.byteOf v) 0 = v := by
  refine BitVec.eq_of_getLsbD_eq fun i hi => ?_
  simp only [RemoteCall.wordOf, Mem.byteOf, BitVec.getLsbD_append, BitVec.getLsbD_extractLsb']
  interval_cases i <;> simp

/-- `PtraceWrite` of one word is one poke. -/
theorem ptraceWrite_word (t : Remote) (a v : Word) :
    ptraceWrite t a (Mem.byteOf v) 4 = t.poke a v := by
  have hword : t.poke a (RemoteCall.wordOf (Mem.byteOf v) 0) = t.poke a v := by
    rw [wordOf_byteOf]
  exact hword

theorem replaced_zero : replaced original target a 0 t = t := by
  have hmem : (replaced original target a 0 t).mem = t.mem := by
    funext x
    rw [replaced]
    dsimp only
    rw [if_neg]
    exact fun h => Nat.not_lt_zero _ h.1
  exact congrArg (Remote.mk · t.accessible) hmem

/-- Only the words that begin in the section count. -/
theorem replaced_congr {size' : ℕ} (h : ∀ q, 4 * q < size ↔ 4 * q < size') :
    replaced original target a size t = replaced original target a size' t := by
  refine congrArg (Remote.mk · t.accessible) (funext fun x => ?_)
  refine if_congr (and_congr_left' ?_) rfl rfl
  rw [Nat.mul_comm]
  exact h _

theorem sub_word (hj : 4 * j + 4 ≤ 2 ^ 32) {k : ℕ} (hk : k < 4) :
    (a + BitVec.ofNat 32 (4 * j) + BitVec.ofNat 32 k - a).toNat = 4 * j + k := by
  rw [BitVec.add_assoc, ← BitVec.ofNat_add, add_sub_self_toNat a (by omega)]

/-- A byte of a word of the section. -/
theorem replaced_apply (hj : 4 * j + 4 ≤ 2 ^ 32) {k : ℕ} (hk : k < 4) :
    (replaced original target a size t).mem (a + BitVec.ofNat 32 (4 * j) + BitVec.ofNat 32 k)
      = if 4 * j < size ∧ Holds t (a + BitVec.ofNat 32 (4 * j)) original then Mem.byteOf target k
        else t.mem (a + BitVec.ofNat 32 (4 * j) + BitVec.ofNat 32 k) := by
  have hdist := @sub_word a j hj k hk
  have hdiv : (4 * j + k) / 4 * 4 = 4 * j := by omega
  have hmod : (4 * j + k) % 4 = k := by omega
  show (if _ ∧ Holds t (wordAt a _) original then _ else _) = _
  rw [wordAt, hdist, hdiv, hmod]

/-- A word of the section that has not come up yet. -/
theorem read32_replaced (hj : 4 * j + 4 ≤ 2 ^ 32) :
    (replaced original target a (4 * j) t).mem.read32 (a + BitVec.ofNat 32 (4 * j))
      = t.mem.read32 (a + BitVec.ofNat 32 (4 * j)) := by
  rw [← wordOf_byteOf (Mem.read32 _ _), ← wordOf_byteOf (Mem.read32 t.mem _)]
  have hbyte (k : ℕ) (hk : k < 4) :
      Mem.byteOf ((replaced original target a (4 * j) t).mem.read32 (a + BitVec.ofNat 32 (4 * j))) k
        = Mem.byteOf (t.mem.read32 (a + BitVec.ofNat 32 (4 * j))) k := by
    rw [byteOf_read32 _ _ hk, byteOf_read32 _ _ hk, replaced_apply hj hk,
      if_neg fun h => lt_irrefl _ h.1]
  simp only [RemoteCall.wordOf, Nat.zero_add, hbyte 0 (by decide), hbyte 1 (by decide),
    hbyte 2 (by decide), hbyte 3 (by decide)]

/-- **One more word.** -/
theorem mem_replaced_succ (hj : 4 * j + 4 ≤ 2 ^ 32) :
    (replaced original target a (4 * (j + 1)) t).mem
      = if Holds t (a + BitVec.ofNat 32 (4 * j)) original then
          (replaced original target a (4 * j) t).mem.write 4 (a + BitVec.ofNat 32 (4 * j)) target
        else (replaced original target a (4 * j) t).mem := by
  funext x
  have hx := (x - a).isLt
  have hdist : (x - (a + BitVec.ofNat 32 (4 * j))).toNat
      = ((x - a).toNat + (2 ^ 32 - 4 * j)) % 2 ^ 32 := sub_add_ofNat x a (by omega)
  by_cases hq : (x - a).toNat / 4 = j
  · have hk : (x - a).toNat % 4 < 4 := Nat.mod_lt _ (by decide)
    have hself : x = a + BitVec.ofNat 32 (4 * j) + BitVec.ofNat 32 ((x - a).toNat % 4) := by
      rw [BitVec.add_assoc, ← BitVec.ofNat_add, ← hq, Nat.div_add_mod, BitVec.ofNat_toNat,
        BitVec.setWidth_eq, BitVec.add_comm, BitVec.sub_add_cancel]
    have hsucc := @replaced_apply original target a t (4 * (j + 1)) j hj _ hk
    have hnow := @replaced_apply original target a t (4 * j) j hj _ hk
    rw [← hself] at hsucc hnow
    rw [hsucc]
    by_cases hholds : Holds t (a + BitVec.ofNat 32 (4 * j)) original
    · have hin : (x - (a + BitVec.ofNat 32 (4 * j))).toNat = (x - a).toNat % 4 := by omega
      rw [if_pos ⟨by omega, hholds⟩, if_pos hholds, Mem.write, hin, if_pos hk]
    · rw [if_neg fun h => hholds h.2, if_neg hholds, hnow, if_neg fun h => hholds h.2]
  · have hsame : (replaced original target a (4 * (j + 1)) t).mem x
        = (replaced original target a (4 * j) t).mem x := by
      rw [replaced, replaced]
      exact if_congr (and_congr_left' (by omega)) rfl rfl
    rw [hsame]
    split
    · rw [Mem.write, if_neg (by omega)]
    · rfl

/-- **A round of the loop.** -/
theorem round_eq (hj : 4 * j + 4 ≤ 2 ^ 32) :
    (if (replaced original target a (4 * j) t).peek (a + BitVec.ofNat 32 (4 * j)) = original then
        ptraceWrite (replaced original target a (4 * j) t) (a + BitVec.ofNat 32 (4 * j))
          (Mem.byteOf target) 4
      else replaced original target a (4 * j) t)
      = replaced original target a (4 * (j + 1)) t := by
  have hsucc := @mem_replaced_succ original target a t j hj
  have hread := @read32_replaced original target a t j hj
  have hmk : replaced original target a (4 * (j + 1)) t
      = ⟨(replaced original target a (4 * (j + 1)) t).mem, t.accessible⟩ := rfl
  have hacc : (replaced original target a (4 * j) t).accessible = t.accessible := rfl
  rw [hmk, hsucc, ptraceWrite_word, Remote.peek, Remote.poke, hacc, hread]
  cases ha : t.accessible (a + BitVec.ofNat 32 (4 * j)) with
  | false =>
    rw [if_neg (show ¬ Holds t _ original from fun h => Bool.false_ne_true (ha.symm.trans h.1))]
    simp only [Bool.false_eq_true, if_false, ite_self]
    rfl
  | true =>
    simp only [if_true, Holds, ha, true_and]
    split <;> rfl

/-- **The loop over the words.** -/
theorem patchLoop_eq (hsize : size ≤ 2 ^ 32 - 4) {n : ℕ} (hn : j + n = (size + 3) / 4) :
    patchLoop original target a size (replaced original target a (4 * j) t) (4 * j)
      = replaced original target a size t := by
  induction n generalizing j with
  | zero =>
    rw [patchLoop, if_neg (by omega)]
    exact replaced_congr fun q => by omega
  | succ n ih =>
    rw [patchLoop, if_pos (by omega)]
    dsimp only
    rw [round_eq (by omega)]
    exact ih (j := j + 1) (by omega)

/-- **When nothing changes**: the function is replaced by itself, or no word is it. -/
theorem replaced_eq_self_iff (hsize : size ≤ 2 ^ 32 - 4) :
    replaced original target a size t = t
      ↔ original = target
        ∨ ∀ j, 4 * j < size → ¬ Holds t (a + BitVec.ofNat 32 (4 * j)) original := by
  constructor
  · intro heq
    refine or_iff_not_imp_right.mpr fun hsome => ?_
    push Not at hsome
    obtain ⟨j, hj, hholds⟩ := hsome
    have hbyte (k : ℕ) (hk : k < 4) : Mem.byteOf original k = Mem.byteOf target k := by
      have h := @replaced_apply original target a t size j (by omega) k hk
      rw [heq, if_pos ⟨hj, hholds⟩, ← byteOf_read32 t.mem _ hk, hholds.2] at h
      exact h
    rw [← wordOf_byteOf original, ← wordOf_byteOf target]
    simp only [RemoteCall.wordOf, Nat.zero_add, hbyte 0 (by decide), hbyte 1 (by decide),
      hbyte 2 (by decide), hbyte 3 (by decide)]
  · intro h
    have hmem : (replaced original target a size t).mem = t.mem := by
      funext x
      have hx := (x - a).isLt
      rw [replaced]
      dsimp only
      split
      · next hx' =>
        obtain ⟨hin, hholds⟩ := hx'
        rcases h with rfl | h
        · have hself : wordAt a x + BitVec.ofNat 32 ((x - a).toNat % 4) = x := by
            rw [wordAt, BitVec.add_assoc, ← BitVec.ofNat_add, Nat.div_add_mod', BitVec.ofNat_toNat,
              BitVec.setWidth_eq, BitVec.add_comm, BitVec.sub_add_cancel]
          rw [← hholds.2, byteOf_read32 _ _ (Nat.mod_lt _ (by decide)), hself]
        · rw [Nat.mul_comm] at hin
          rw [wordAt, Nat.mul_comm] at hholds
          exact absurd hholds (h _ hin)
      · rfl
    exact congrArg (Remote.mk · t.accessible) hmem

end Words

/-! ## The hook -/

section Hook

variable (f : ElfFile) (junk : List (BitVec 8)) (module_base_addr original target : Word)
  (t : Remote)

/-- **The words of the section that is found are replaced**, or those of the last section. -/
theorem patchRemoteGot_eq :
    patchRemoteGot f.data junk module_base_addr original target t
      = replaced original target
          (address f.data module_base_addr ((gotSection f.data).getD ((ehdr f.data).shnum - 1)))
          (header f.data ((gotSection f.data).getD ((ehdr f.data).shnum - 1))).sh_size t := by
  have hlast : (gotSection f.data).getD ((ehdr f.data).shnum - 1) < (ehdr f.data).shnum := by
    have hindex := f.valid.shstrndx
    cases hgot : gotSection f.data with
    | none => exact Nat.sub_lt (Nat.zero_lt_of_lt hindex) Nat.one_pos
    | some k => exact List.mem_range.mp (List.mem_of_find?_eq_some hgot)
  have hloop := @patchLoop_eq original target
    (address f.data module_base_addr ((gotSection f.data).getD ((ehdr f.data).shnum - 1))) t _ 0
    (f.valid.size_le _ hlast) _ (Nat.zero_add _)
  rw [Nat.mul_zero, replaced_zero] at hloop
  rw [patchRemoteGot, getSectionHeaderByName_eq f.valid]
  exact hloop

theorem gotSection_eq_none_iff :
    gotSection f.data = none ↔ ¬ ∃ k < (ehdr f.data).shnum, named f.data k gotName = true := by
  rw [gotSection, List.find?_eq_none]
  push Not
  exact forall_congr' fun k => by rw [List.mem_range]

/-- **The hook patches the GOT and nothing else exactly if** the file has a section named `.got`,
or the function is replaced by itself, or none of the words where the last section of the
table would stand in the process is the function. -/
theorem patchRemoteGot_iff :
    patchRemoteGot f.data junk module_base_addr original target t
        = patched f.data module_base_addr original target t
      ↔ (∃ k < (ehdr f.data).shnum, named f.data k gotName = true) ∨ original = target
        ∨ ∀ j, 4 * j < (header f.data ((ehdr f.data).shnum - 1)).sh_size →
          ¬ Holds t (address f.data module_base_addr ((ehdr f.data).shnum - 1)
            + BitVec.ofNat 32 (4 * j)) original := by
  have hindex := f.valid.shstrndx
  have hnone := gotSection_eq_none_iff f
  rw [patchRemoteGot_eq, patched]
  cases hgot : gotSection f.data with
  | none =>
    rw [or_iff_right (hnone.mp hgot)]
    exact replaced_eq_self_iff
      (f.valid.size_le _ (show (ehdr f.data).shnum - 1 < (ehdr f.data).shnum by omega))
  | some k =>
    refine iff_of_true rfl (Or.inl (not_not.mp fun h => ?_))
    rw [hnone.mpr h] at hgot
    cases hgot

end Hook

/-! ## A file without a GOT -/

/-- The names, and no other section. -/
def bareData : List (BitVec 8) :=
  sampleHeader 1 ++ Shdr.toBytes ⟨0, 3, 0, 92, 4⟩ ++ List.replicate 4 0#8

set_option maxRecDepth 8000 in
theorem ehdr_bareData : (ehdr bareData).shentsize = 40 ∧ (ehdr bareData).shnum = 1
    ∧ (ehdr bareData).shstrndx = 0 ∧ headerAt bareData 1 = 92
    ∧ header bareData 0 = ⟨0, 3, 0, 92, 4⟩ := by
  decide

set_option maxRecDepth 8000 in
/-- The file with them. -/
def bareFile : ElfFile where
  data := bareData
  valid := by
    obtain ⟨hsize, hnum, hindex, hat, hheader⟩ := ehdr_bareData
    have hzero {P : ℕ → Prop} (h : P 0) : ∀ k < (ehdr bareData).shnum, P k := by
      rw [hnum]
      intro k hk
      rwa [Nat.lt_one_iff.mp hk]
    refine ⟨by decide, by decide, hsize, ?_, ?_, ?_, hzero ?_, hzero ?_, hzero ?_, hzero ?_⟩
    · rw [hnum, hat]
      decide
    · rw [hnum, hindex]
      decide
    · rw [hindex, hheader]
      decide
    · rw [names, hindex, hheader]
      decide
    · rw [hheader]
      decide
    · rw [hheader]
      decide
    · unfold named names
      rw [hindex, hheader]
      decide

/-- A process with a word in front of zeros. -/
def sampleRemote (v : Word) : Remote := ⟨Mem.write (fun _ => 0#8) 4 0x1000#32 v, fun _ => true⟩

set_option maxRecDepth 8000 in
/-- **A word is replaced where there is no GOT**: the header that is left is that of the names,
which say nothing of an address. -/
theorem patchRemoteGot_ne_bare :
    patchRemoteGot bareFile.data [] 0x1000#32 0xA#32 0xB#32 (sampleRemote 0xA#32)
      ≠ patched bareFile.data 0x1000#32 0xA#32 0xB#32 (sampleRemote 0xA#32) := by
  obtain ⟨-, hnum, hindex, -, hheader⟩ := ehdr_bareData
  have hgot : gotSection bareFile.data = none := by
    have hnamed : named bareData 0 gotName = false := by
      unfold named names
      rw [hindex, hheader]
      decide
    show gotSection bareData = none
    rw [gotSection, hnum]
    exact List.find?_cons_of_neg (by rw [hnamed]; exact Bool.false_ne_true)
  rw [patchRemoteGot_eq, patched, hgot, Option.getD_none]
  show replaced _ _ (address bareData _ ((ehdr bareData).shnum - 1))
    (header bareData ((ehdr bareData).shnum - 1)).sh_size _ ≠ _
  rw [hnum, address, hheader]
  intro heq
  rcases (replaced_eq_self_iff (by decide)).mp heq with h | h
  · exact absurd h (by decide)
  · exact h 0 (by decide) (by decide)

end GotHook
