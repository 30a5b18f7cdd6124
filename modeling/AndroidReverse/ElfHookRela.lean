import AndroidReverse.ElfDynamic
import AndroidReverse.ElfHook

/-!
# Modules with addends

A module whose relocations have addends describes its dynamic relocations by `DT_RELA` and
`DT_RELASZ`. `hook` knows the format, and takes it from `DT_PLTREL`; but the loop over the
dynamic section has no case for these two tags, so the table and its size stay at 0 and
nothing of it is hooked.

What the parser leaves in such a module follows from what it does with the entries of the
dynamic section (`ViewedAs.members`). A successful call then has replaced one slot at most,
that of the first jump slot relocation (`hook_rela_mem`), and it has done what it is for
exactly if that was enough (`hook_rela_iff`).
-/

open ByteMemory

namespace Elf

variable {c : ElfClass}

namespace Module

variable {m view : Module c} {mprotect : ℕ → Bool} {mem mem₀ : c.Mem} {s s' : Process c}
  {f : c.Addr} {symidx : ℕ}

/-! ## What a successful call has replaced -/

/-- Storing the pointer that is there changes nothing. -/
theorem writePtr_readPtr (mem : c.Mem) (a : c.Addr) : writePtr mem a (readPtr mem a) = mem := by
  have hlt : readAddr mem a < 2 ^ c.bits := by
    have h := read_lt mem a c.addrBytes
    rwa [show (256 : ℕ) = 2 ^ 8 from rfl, ← Nat.pow_mul] at h
  rw [writePtr, readPtr, BitVec.toNat_ofNat, Nat.mod_eq_of_lt hlt]
  exact write_read mem a c.addrBytes

/-- The memory with the first of some slots replaced. -/
def replaceFirst (mem : c.Mem) (f : c.Addr) : List c.Addr → c.Mem
  | [] => mem
  | a :: _ => writePtr mem a f

/-- **A successful scan of the PLT table** has replaced the first slot. -/
theorem relpltLoop_mem {n i : ℕ} (h : m.relpltLoop mprotect symidx f n i s = (true, s')) :
    s'.mem = replaceFirst s.mem f (m.pltSlots s.mem symidx i n) := by
  induction n generalizing i with
  | zero =>
    obtain ⟨-, rfl⟩ := Prod.mk.inj h
    rfl
  | succ n ih =>
    rw [relpltLoop] at h
    rw [pltSlots_succ]
    split_ifs at h ⊢ with hj
    · show s'.mem = writePtr s.mem _ f
      rcases m.replaceFunction_cases mprotect (m.slotOf (m.relocAt s.mem m.relpltAddr i)) f s with
        ⟨heq, hr⟩ | ⟨hne, fails, t, hr, -, hmem⟩
      · rw [hr] at h
        obtain ⟨-, rfl⟩ := Prod.mk.inj h
        rw [← heq, writePtr_readPtr]
      · rw [hr] at h
        cases fails with
        | true => exact absurd (congrArg Prod.fst h) Bool.false_ne_true
        | false =>
          obtain ⟨-, rfl⟩ := Prod.mk.inj h
          exact hmem
    · exact ih h

/-- **A successful call on a loaded module without a dynamic table** has replaced the first
slot of the PLT table. -/
theorem hook_mem_of_reldyn_zero {fuel : ℕ} {symbol : Chars} {r : Lookup c} {m' : Module c}
    (hl : m.isLoaded = true) (hd : m.reldynBytes = 0)
    (hfind : m.findSymbolByName s.mem fuel symbol 0 0 = some r)
    (h : m.hook mprotect fuel symbol f s = some (true, m', s')) :
    s'.mem = replaceFirst s.mem f (m.pltSlots s.mem r.symidx 0 m.relpltCounts) := by
  have hcounts : m.reldynCounts = 0 := by rw [reldynCounts, hd, Nat.zero_div]
  rw [hook_of_loaded hl hfind, Option.some.injEq] at h
  split_ifs at h with hsym
  · exact absurd (congrArg Prod.fst h) Bool.false_ne_true
  · cases hplt : m.relpltLoop mprotect r.symidx f m.relpltCounts 0 s with
    | mk ok t =>
      rw [hplt] at h
      cases ok with
      | false => exact absurd (congrArg Prod.fst h) Bool.false_ne_true
      | true =>
        rw [hcounts] at h
        have ht : t = s' := congrArg (fun x => x.2.2) h
        rw [← ht]
        exact relpltLoop_mem hplt

/-- A call on a module that is not loaded yet is one on the module that the parser makes of
it. -/
theorem hook_of_view {fuel : ℕ} {symbol : Chars} (hl : m.isLoaded = false)
    (hv : getSegmentView s.mem m = (true, view)) :
    m.hook mprotect fuel symbol f s
      = ({ view with isLoaded := true } : Module c).hook mprotect fuel symbol f s := by
  simp only [hook, hl, hv, if_true, if_false, Bool.false_eq_true]

/-! ## Relocations with addends -/

/-- A table of relocations with addends, of `size` bytes. -/
def relaTable (mem : c.Mem) (table : c.Addr) (size : ℕ) : List Reloc :=
  (List.range (size / sizeofRela c)).map (fun i => readRela mem (elem table (sizeofRela c) i))

/-- **A dynamic section for relocations with addends**, with the values of its entries:
`DT_PLTREL` is `DT_RELA`, and no entry is for relocations without. -/
structure RelaSection (ds : List Dyn) (jmprel pltrelsz rela relasz : ℕ) : Prop where
  pltrel : ∃ d ∈ ds, d.tag = .pltrel ∧ d.dUn = DT_RELA
  no_rel : ∀ d ∈ ds, d.tag ≠ .rel ∧ d.tag ≠ .relsz ∧ d.tag ≠ .androidRel ∧ d.tag ≠ .androidRelsz
  jmprel_eq : lastValue .jmprel ds = some jmprel
  pltrelsz_eq : lastValue .pltrelsz ds = some pltrelsz
  rela_eq : lastValue .rela ds = some rela
  relasz_eq : lastValue .relasz ds = some relasz

/-- The slot of the first jump slot relocation of a table, if there is one. -/
def firstJumpSlot (mem : c.Mem) (bias : c.Addr) (symidx table size : ℕ) : List c.Addr :=
  (((relaTable mem (plus bias table) size).find? (isJumpSlot c symidx)).map
    (fun r => plus bias r.rOffset)).toList

/-- The slots of the other relocations of a table. -/
def relaSlots (mem : c.Mem) (bias : c.Addr) (symidx table size : ℕ) : List c.Addr :=
  ((relaTable mem (plus bias table) size).filter (isDynSlot c symidx)).map
    (fun r => plus bias r.rOffset)

/-- **A module at a call of `hook`**, by the module `view` that it is once loaded: it is newly
constructed, and its dynamic section is read in this call, or it was read in an earlier one,
from the memory `mem₀`. -/
inductive ViewedAs (view : Module c) (mem₀ mem : c.Mem) : Module c → Prop
  | constructed (base : c.Addr) (junk v : Module c) (hmem : mem = mem₀)
      (h : getSegmentView mem₀ (construct base junk) = (true, v))
      (hv : view = { v with isLoaded := true }) : ViewedAs view mem₀ mem (construct base junk)
  | loaded (base : c.Addr) (junk v : Module c)
      (h : getSegmentView mem₀ (construct base junk) = (true, v))
      (hv : view = { v with isLoaded := true }) : ViewedAs view mem₀ mem view

/-- A call is one on the module as it is once loaded. -/
theorem ViewedAs.hook_eq (hm : ViewedAs view mem₀ s.mem m) (mprotect : ℕ → Bool) (fuel : ℕ)
    (symbol : Chars) (f : c.Addr) :
    m.hook mprotect fuel symbol f s = view.hook mprotect fuel symbol f s := by
  cases hm with
  | constructed base junk v hmem h hv =>
    have hview : getSegmentView s.mem (construct base junk) = (true, v) := by rw [hmem]; exact h
    rw [hv]
    exact hook_of_view rfl hview
  | loaded base junk v h hv => rfl

theorem ViewedAs.exists_view (hm : ViewedAs view mem₀ mem m) :
    ∃ (base : c.Addr) (junk v : Module c),
      getSegmentView mem₀ (construct base junk) = (true, v)
          ∧ view = { v with isLoaded := true } := by
  cases hm with
  | constructed base junk v hmem h hv => exact ⟨base, junk, v, h, hv⟩
  | loaded base junk v h hv => exact ⟨base, junk, v, h, hv⟩

/-- **What a dynamic section for relocations with addends leaves in a module**: the PLT table
is in the format with addends, where `DT_JMPREL` says and of the size of `DT_PLTRELSZ` cut to
32 bits, and the dynamic table is empty. -/
theorem ViewedAs.members (hm : ViewedAs view mem₀ mem m)
    {jmprel pltrelsz rela relasz : ℕ}
    (hsec : RelaSection (dynEntries mem₀ view.dynSize view.dynPtr) jmprel pltrelsz rela relasz) :
    view.isLoaded = true ∧ view.isUseRela = true ∧ view.reldynBytes = 0 ∧
      view.relpltAddr = plus view.biasAddr jmprel ∧ view.relpltBytes = pltrelsz % 2 ^ 32 := by
  obtain ⟨base, junk, v, h, rfl⟩ := hm.exists_view
  obtain ⟨m₁, hbias, hzero, -, hp⟩ := parse_of_view h
  have haddr := parse_relpltAddr hp hsec.jmprel_eq
  rw [hbias] at haddr
  have huse : v.isUseRela = true := parse_isUseRela hp hsec.pltrel
  have hbytes : v.relpltBytes = pltrelsz % 2 ^ 32 := parse_relpltBytes hp hsec.pltrelsz_eq
  have hdyn := parse_reldynBytes hp
    (fun d hd => ⟨(hsec.no_rel d hd).2.1, (hsec.no_rel d hd).2.2.2⟩)
  exact ⟨rfl, huse, hdyn.trans hzero, haddr, hbytes⟩

/-- The slot that the scan of the PLT table finds. -/
theorem pltSlots_of_useRela (huse : view.isUseRela = true) (mem : c.Mem) (symidx : ℕ) {table : ℕ}
    (haddr : view.relpltAddr = plus view.biasAddr table) :
    view.pltSlots mem symidx 0 view.relpltCounts
      = firstJumpSlot mem view.biasAddr symidx table view.relpltBytes := by
  have hreloc : view.relocAt mem view.relpltAddr
      = fun i => readRela mem (elem view.relpltAddr (sizeofRela c) i) :=
    funext (fun i => by rw [relocAt, if_pos huse])
  rw [pltSlots, firstJumpSlot, relocs, relaTable, relpltCounts, sizeofReloc, if_pos huse, hreloc,
    haddr, List.range_eq_range']
  rfl

/-- **A successful call on a module with addends** has replaced the slot of the first jump
slot relocation it scans, and nothing else. -/
theorem hook_rela_mem {fuel : ℕ} {symbol : Chars} {r : Lookup c} {m' : Module c}
    {jmprel pltrelsz rela relasz : ℕ} (hm : ViewedAs view mem₀ s.mem m)
    (hsec : RelaSection (dynEntries mem₀ view.dynSize view.dynPtr) jmprel pltrelsz rela relasz)
    (hfind : view.findSymbolByName s.mem fuel symbol 0 0 = some r)
    (h : m.hook mprotect fuel symbol f s = some (true, m', s')) :
    s'.mem = replaceFirst s.mem f
      (firstJumpSlot s.mem view.biasAddr r.symidx jmprel (pltrelsz % 2 ^ 32)) := by
  obtain ⟨hl, huse, hdyn, haddr, hbytes⟩ := hm.members hsec
  rw [hm.hook_eq] at h
  rw [hook_mem_of_reldyn_zero hl hdyn hfind h, pltSlots_of_useRela huse _ _ haddr, hbytes]

/-- **The slots that hooking a symbol of a module with addends is for**: those of the
relocations in the table of `DT_RELA`, and that of the first jump slot relocation. -/
def relaRequired (mem : c.Mem) (bias : c.Addr) (symidx jmprel pltrelsz rela relasz : ℕ) :
    List c.Addr :=
  relaSlots mem bias symidx rela relasz ++ firstJumpSlot mem bias symidx jmprel pltrelsz

/-- **Hooking a symbol of a module with addends**: after a successful call all its slots hold
the new function if and only if they do once the slot of the first scanned jump slot
relocation is replaced. For aligned slots that is, if and only if every other one held the
function before the call. -/
theorem hook_rela_iff {fuel : ℕ} {symbol : Chars} {r : Lookup c} {m' : Module c}
    {jmprel pltrelsz rela relasz : ℕ} (hm : ViewedAs view mem₀ s.mem m)
    (hsec : RelaSection (dynEntries mem₀ view.dynSize view.dynPtr) jmprel pltrelsz rela relasz)
    (hfind : view.findSymbolByName s.mem fuel symbol 0 0 = some r)
    (h : m.hook mprotect fuel symbol f s = some (true, m', s')) :
    let required := relaRequired s.mem view.biasAddr r.symidx jmprel pltrelsz rela relasz
    let scanned := firstJumpSlot s.mem view.biasAddr r.symidx jmprel (pltrelsz % 2 ^ 32)
    ((∀ a ∈ required, readPtr s'.mem a = f) ↔
        ∀ a ∈ required, readPtr (replaceFirst s.mem f scanned) a = f) ∧
      ((∀ a ∈ required ++ scanned, Aligned a) →
        ((∀ a ∈ required, readPtr s'.mem a = f) ↔
          ∀ a ∈ required, a ∈ scanned ∨ readPtr s.mem a = f)) := by
  intro required scanned
  have hmem : s'.mem = replaceFirst s.mem f scanned := hook_rela_mem hm hsec hfind h
  rw [hmem]
  refine ⟨Iff.rfl, fun halign => forall₂_congr (fun a ha => ?_)⟩
  have hone : scanned.length ≤ 1 := Option.length_toList_le
  cases hscan : scanned with
  | nil => simp [replaceFirst]
  | cons p l =>
    have hl : l = [] := by
      rw [hscan, List.length_cons] at hone
      exact List.length_eq_zero_iff.mp (by omega)
    have hp : Aligned p := halign p (List.mem_append_right _ (hscan ▸ List.mem_cons_self))
    rw [hl, List.mem_singleton]
    by_cases hap : a = p
    · simp [hap, replaceFirst, readPtr_writePtr_self]
    · have hne := readPtr_writePtr_of_ne s.mem f hp (halign a (List.mem_append_left _ ha)) hap
      simp [hap, replaceFirst, hne]

/-! ### A module that stays unhooked -/

/-- The words of a 64-bit shared object: its header, two program headers at 64, the strings
at 176, the symbols at 184, a hash table at 232, a jump slot relocation at 256, a global
data relocation at 280, both of symbol 1, and the dynamic section at 304. -/
def sampleRelaWords : List ℕ :=
  [0x00010102464c457f, 0, 0x0000000100b70003, 0, 64, 0, 0x0038004000000000, 2,
   0x0000000600000001, 0, 0, 0, 0x1000, 0x1000, 0x1000,
   0x0000000600000002, 304, 304, 304, 144, 144, 8,
   0x6100, 0, 0, 0, 1, 0, 0,
   0x0000000200000001, 1, 0,
   0x800, 0x0000000100000402, 0,
   0x808, 0x0000000100000401, 0,
   5, 176, 6, 184, 4, 232, 7, 280, 8, 24, 23, 256, 2, 24, 20, 7, 0, 0]

/-- The image at its base address, with the same word in every slot behind it. -/
def sampleRelaMem : ElfClass.elf64.Mem := fun a =>
  byteOf (sampleRelaWords.getD ((a - 0x10000).toNat / 8) 0x1111111111111111)
    ((a - 0x10000).toNat % 8)

def sampleRelaModule : Module .elf64 := construct 0x10000 default

/-- The module as it is once loaded. -/
def sampleRelaView : Module .elf64 :=
  { (getSegmentView sampleRelaMem sampleRelaModule).2 with isLoaded := true }

theorem sampleRela_viewedAs (mem : ElfClass.elf64.Mem) (hmem : mem = sampleRelaMem) :
    ViewedAs sampleRelaView sampleRelaMem mem sampleRelaModule :=
  .constructed 0x10000 default (getSegmentView sampleRelaMem sampleRelaModule).2 hmem
    (Prod.ext (by decide) rfl) rfl

theorem sampleRela_section :
    RelaSection (dynEntries sampleRelaMem sampleRelaView.dynSize sampleRelaView.dynPtr)
      256 24 280 24 where
  pltrel := by decide
  no_rel := by decide
  jmprel_eq := by decide
  pltrelsz_eq := by decide
  rela_eq := by decide
  relasz_eq := by decide

/-- The slots of symbol 1 are the two of the image, and the global data slot is one that
hooking the symbol is for. -/
theorem sampleRela_required :
    relaRequired sampleRelaMem sampleRelaView.biasAddr 1 256 24 280 24 = [0x10808, 0x10800] := by
  decide

/-- What the call on the image answers and leaves in its two slots. -/
theorem sampleRela_hook :
    (sampleRelaModule.hook (fun _ => true) 1 [0x61] 0x1234 ⟨sampleRelaMem, 0, []⟩).map
        (fun r => (r.1, readPtr r.2.2.mem 0x10800, readPtr r.2.2.mem 0x10808))
      = some (true, 0x1234, 0x1111111111111111) := by
  decide

/-- **The global data slot is missed**, by a call that succeeds on a module with addends. -/
theorem hook_rela_misses :
    RelaSection (dynEntries sampleRelaMem sampleRelaView.dynSize sampleRelaView.dynPtr)
        256 24 280 24 ∧
      ViewedAs sampleRelaView sampleRelaMem sampleRelaMem sampleRelaModule ∧
      sampleRelaView.findSymbolByName sampleRelaMem 1 [0x61] 0 0
        = some ⟨true, sampleRelaView.symAt 1, 1⟩ ∧
      ∃ m' s', sampleRelaModule.hook (fun _ => true) 1 [0x61] 0x1234 ⟨sampleRelaMem, 0, []⟩
          = some (true, m', s') ∧
        ¬ ∀ a ∈ relaRequired sampleRelaMem sampleRelaView.biasAddr 1 256 24 280 24,
          readPtr s'.mem a = 0x1234 := by
  refine ⟨sampleRela_section, sampleRela_viewedAs _ rfl, by decide, ?_⟩
  obtain ⟨⟨ok, m', s'⟩, hr, hval⟩ := Option.map_eq_some_iff.mp sampleRela_hook
  have hok : ok = true := congrArg (fun x => x.1) hval
  have hslot : readPtr s'.mem 0x10808 = 0x1111111111111111 := congrArg (fun x => x.2.2) hval
  rw [hok] at hr
  refine ⟨m', s', hr, fun hall => ?_⟩
  rw [sampleRela_required] at hall
  have hmiss := hslot.symm.trans (hall 0x10808 List.mem_cons_self)
  exact absurd hmiss (by decide)

/-- The condition at the image, where it fails. -/
theorem hook_rela_iff_sample :
    ∃ m' s', sampleRelaModule.hook (fun _ => true) 1 [0x61] 0x1234 ⟨sampleRelaMem, 0, []⟩
        = some (true, m', s') ∧
      ((∀ a ∈ relaRequired sampleRelaMem sampleRelaView.biasAddr 1 256 24 280 24,
          readPtr s'.mem a = 0x1234) ↔
        ∀ a ∈ relaRequired sampleRelaMem sampleRelaView.biasAddr 1 256 24 280 24,
          a ∈ firstJumpSlot sampleRelaMem sampleRelaView.biasAddr 1 256 (24 % 2 ^ 32) ∨
            readPtr sampleRelaMem a = 0x1234) := by
  obtain ⟨⟨ok, m', s'⟩, hr, hval⟩ := Option.map_eq_some_iff.mp sampleRela_hook
  have hok : ok = true := congrArg (fun x => x.1) hval
  rw [hok] at hr
  have hfind : sampleRelaView.findSymbolByName sampleRelaMem 1 [0x61] 0 0
      = some ⟨true, sampleRelaView.symAt 1, 1⟩ := by decide
  have halign : ∀ a ∈ relaRequired sampleRelaMem sampleRelaView.biasAddr 1 256 24 280 24
      ++ firstJumpSlot sampleRelaMem sampleRelaView.biasAddr 1 256 (24 % 2 ^ 32), Aligned a := by
    have hjump : firstJumpSlot sampleRelaMem sampleRelaView.biasAddr 1 256 (24 % 2 ^ 32)
        = [0x10800] := by decide
    rw [sampleRela_required, hjump]
    have h₁ : Aligned (0x10808 : ElfClass.elf64.Addr) := by decide
    have h₂ : Aligned (0x10800 : ElfClass.elf64.Addr) := by decide
    exact List.forall_mem_cons.mpr ⟨h₁, List.forall_mem_cons.mpr ⟨h₂,
      List.forall_mem_cons.mpr ⟨h₂, fun _ h => absurd h List.not_mem_nil⟩⟩⟩
  have h := hook_rela_iff (s := ⟨sampleRelaMem, 0, []⟩) (sampleRela_viewedAs _ rfl)
    sampleRela_section hfind hr
  exact ⟨m', s', hr, h.2 halign⟩

end Module

end Elf
