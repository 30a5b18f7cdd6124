import AndroidReverse.ElfModule
import AndroidReverse.Interpose
import Mathlib.Tactic.IntervalCases

/-!
# Hooking a symbol

`hook` replaces the content of the slots that the module's relocations of a symbol point
at: the slot of the first jump slot relocation in the PLT table and the slots of all
relocations of the other two kinds in the dynamic table (`Module.slots`). The two scans
read their tables from the memory they write to, so they are scans of one table only as
long as the slots are apart from the tables.

With aligned slots a process is a state of `Interpose` (`Sim`), a successful
`replace_function` a visit of one slot, and the two loops a run (`After`).
What `hook` does to the memory and to `*old_func`, and that a second call does nothing, are
then the rules of that library.
-/

open ByteMemory

namespace Elf

variable {c : ElfClass}

/-! ## Pointers in memory -/

theorem addrBytes_le (c : ElfClass) : c.addrBytes ≤ 2 ^ c.bits := by
  cases c <;> decide

theorem addrBytes_dvd (c : ElfClass) : c.addrBytes ∣ 2 ^ c.bits := by
  cases c <;> decide

/-- The addresses of a pointer. -/
abbrev ptrBlock (a : c.Addr) : Set c.Addr := block a c.addrBytes

theorem readPtr_congr {mem mem' : c.Mem} {a : c.Addr} (h : Set.EqOn mem mem' (ptrBlock a)) :
    readPtr mem a = readPtr mem' a := by
  rw [readPtr, readAddr, read_congr h]
  rfl

/-- **Reading the pointer that was stored.** -/
theorem readPtr_writePtr_self (mem : c.Mem) (a v : c.Addr) : readPtr (writePtr mem a v) a = v := by
  have hlt : v.toNat < 256 ^ c.addrBytes := by
    have h : v.toNat < 2 ^ (8 * c.addrBytes) := v.isLt
    rwa [Nat.pow_mul] at h
  rw [readPtr, readAddr, writePtr, read_write_self mem a (addrBytes_le c), Nat.mod_eq_of_lt hlt,
    BitVec.ofNat_toNat, BitVec.setWidth_eq]

theorem eqOn_writePtr (mem : c.Mem) (a v : c.Addr) :
    Set.EqOn (writePtr mem a v) mem (ptrBlock a)ᶜ :=
  eqOn_write mem a _ _

/-- An aligned address. -/
def Aligned (a : c.Addr) : Prop := c.addrBytes ∣ a.toNat

instance (a : c.Addr) : Decidable (Aligned a) := inferInstanceAs (Decidable (_ ∣ _))

/-- **Storing a pointer leaves the other aligned pointers.** -/
theorem readPtr_writePtr_of_ne (mem : c.Mem) {a b : c.Addr} (v : c.Addr) (ha : Aligned a)
    (hb : Aligned b) (hab : b ≠ a) : readPtr (writePtr mem a v) b = readPtr mem b := by
  have hd : Disjoint (ptrBlock b) (ptrBlock a) := disjoint_block (addrBytes_dvd c) hb ha hab
  exact readPtr_congr ((eqOn_writePtr mem a v).mono (Set.subset_compl_iff_disjoint_right.mpr hd))

/-! ## Pages -/

/-- The start of a page is the address without its offset in the page. -/
theorem toNat_pageStart (x : c.Addr) : (pageStart x).toNat = x.toNat / 2 ^ 12 * 2 ^ 12 := by
  have hshift : pageStart x = (x >>> 12) <<< 12 := by
    apply BitVec.eq_of_getLsbD_eq
    intro i hi
    have hmask : (PAGE_SIZE - 1).testBit i = decide (i < 12) :=
      Nat.testBit_two_pow_sub_one 12 i
    rw [pageStart, BitVec.getLsbD_and, BitVec.getLsbD_not, BitVec.getLsbD_ofNat, hmask,
      BitVec.getLsbD_shiftLeft, BitVec.getLsbD_ushiftRight]
    by_cases h : i < 12
    · simp [h, hi]
    · simp [h, hi, Nat.add_sub_cancel' (Nat.le_of_not_lt h)]
  rw [hshift, BitVec.toNat_shiftLeft, BitVec.toNat_ushiftRight, Nat.shiftLeft_eq,
    Nat.shiftRight_eq_div_pow]
  exact Nat.mod_eq_of_lt (lt_of_le_of_lt (Nat.div_mul_le_self _ _) x.isLt)

theorem pageStart_le (x : c.Addr) : pageStart x ≤ x := by
  rw [BitVec.le_def, toNat_pageStart]
  exact Nat.div_mul_le_self _ _

/-- The end of the last page of a range lies behind every address of it. -/
theorem lt_pageEnd {a x : c.Addr} (ha : a.toNat < x.toNat)
    (hx : x.toNat + PAGE_SIZE ≤ 2 ^ c.bits) : a < pageEnd x := by
  have hlt : x.toNat + (PAGE_SIZE - 1) < 2 ^ c.bits := by
    rw [PAGE_SIZE] at hx ⊢
    omega
  have hsum : (plus x (PAGE_SIZE - 1)).toNat = x.toNat + (PAGE_SIZE - 1) := by
    have h : PAGE_SIZE - 1 < 2 ^ c.bits := lt_of_le_of_lt (Nat.le_add_left _ _) hlt
    rw [plus, BitVec.toNat_add, BitVec.toNat_ofNat, Nat.mod_eq_of_lt h, Nat.mod_eq_of_lt hlt]
  rw [BitVec.lt_def, pageEnd, toNat_pageStart, hsum, PAGE_SIZE]
  omega

namespace Module

variable {m : Module c} {mprotect : ℕ → Bool} {mem mem₀ : c.Mem} {s s' : Process c}
  {a f : c.Addr} {S : Set c.Addr} {l l' : List c.Addr} {symidx : ℕ}

/-! ## One slot -/

/-- **What `replace_function` can do**: find the slot replaced, or remember its content if
nothing is remembered, and then fail or store the new function. -/
theorem replaceFunction_cases (m : Module c) (mprotect : ℕ → Bool) (a f : c.Addr)
    (s : Process c) :
    (readPtr s.mem a = f ∧ m.replaceFunction mprotect a f s = (false, s)) ∨
      (readPtr s.mem a ≠ f ∧ ∃ fails t, m.replaceFunction mprotect a f s = (fails, t) ∧
        t.oldFunc = (if s.oldFunc = 0 then readPtr s.mem a else s.oldFunc) ∧
        t.mem = if fails then s.mem else writePtr s.mem a f) := by
  by_cases h : readPtr s.mem a = f
  · exact .inl ⟨h, if_pos h⟩
  refine .inr ⟨h, ?_⟩
  -- remembering the content leaves the memory
  obtain ⟨t, ht, hmem, hold⟩ : ∃ t : Process c,
      (if s.oldFunc = 0 then { s with oldFunc := readPtr s.mem a } else s) = t ∧ t.mem = s.mem ∧
        t.oldFunc = if s.oldFunc = 0 then readPtr s.mem a else s.oldFunc := by
    split_ifs <;> exact ⟨_, rfl, rfl, rfl⟩
  rw [replaceFunction, if_neg h]
  simp only [ht]
  cases m.getMemAccess t.mem a with
  | none => exact ⟨true, t, rfl, hold, hmem⟩
  | some oldProts =>
    simp only [setMemAccess]
    cases mprotect t.mprotects.length with
    | false => exact ⟨true, _, rfl, hold, hmem⟩
    | true => exact ⟨false, _, rfl, hold, by rw [hmem]; rfl⟩

/-- **The slot is in a segment** that ends at least a page below the top of the address
space. -/
def Covered (m : Module c) (mem : c.Mem) (a : c.Addr) : Prop :=
  ∃ phdr ∈ phdrs mem m.phdr (readEhdr mem m.ehdr).ePhnum, phdr.pType = PT_LOAD ∧
    (plus m.biasAddr phdr.pVaddr).toNat ≤ a.toNat ∧
    a.toNat < (plus m.biasAddr phdr.pVaddr).toNat + phdr.pMemsz ∧
    (plus m.biasAddr phdr.pVaddr).toNat + phdr.pMemsz + PAGE_SIZE ≤ 2 ^ c.bits

/-- A loop that keeps the last match has one if there is one. -/
theorem isSome_foldl_of_mem {α β : Type*} (p : α → Prop) [DecidablePred p] (g : α → β)
    {xs : List α} {r : Option β} (h : r.isSome = true ∨ ∃ x ∈ xs, p x) :
    (xs.foldl (fun r x => if p x then some (g x) else r) r).isSome = true := by
  induction xs generalizing r with
  | nil => exact h.resolve_right (fun ⟨x, hx, _⟩ => List.not_mem_nil hx)
  | cons x xs ih =>
    rw [List.foldl_cons]
    refine ih ?_
    by_cases hx : p x
    · exact .inl (by rw [if_pos hx]; rfl)
    · rw [if_neg hx]
      refine h.imp id (fun ⟨y, hy, hpy⟩ => ?_)
      rcases List.mem_cons.mp hy with rfl | hy
      · exact absurd hpy hx
      · exact ⟨y, hy, hpy⟩

/-- **A covered slot has a protection.** -/
theorem Covered.isSome (h : m.Covered mem a) : (m.getMemAccess mem a).isSome = true := by
  obtain ⟨phdr, hmem, htype, hstart, hend, htop⟩ := h
  refine isSome_foldl_of_mem _ _ (.inr ⟨phdr, hmem, htype, ?_, ?_⟩)
  · exact BitVec.le_trans (pageStart_le _) (BitVec.le_def.mpr hstart)
  · have hsum : (plus (plus m.biasAddr phdr.pVaddr) phdr.pMemsz).toNat
        = (plus m.biasAddr phdr.pVaddr).toNat + phdr.pMemsz := by
      have hlt := lt_of_lt_of_le (Nat.lt_add_of_pos_right (show 0 < PAGE_SIZE by decide)) htop
      have hle := lt_of_le_of_lt (Nat.le_add_left phdr.pMemsz _) hlt
      rw [plus, BitVec.toNat_add, BitVec.toNat_ofNat, Nat.mod_eq_of_lt hle, Nat.mod_eq_of_lt hlt]
    rw [← hsum] at hend htop
    exact lt_pageEnd hend htop

/-- **Replacing in a covered slot succeeds** as long as `mprotect` does. -/
theorem replaceFunction_succeeds (hc : m.Covered s.mem a) (hp : ∀ n, mprotect n = true) (f : c.Addr) :
    (m.replaceFunction mprotect a f s).1 = false := by
  obtain ⟨prots, hprots⟩ := Option.isSome_iff_exists.mp hc.isSome
  rw [replaceFunction]
  split_ifs with h h0
  · rfl
  all_goals
    simp only [hprots, setMemAccess, hp, Bool.not_true]

/-! ## Processes as states of slots -/

/-- **A process as a state of its aligned slots.** -/
structure Sim (s : Process c) (σ : Interpose.State c.Addr c.Addr) : Prop where
  saved : σ.saved = s.oldFunc
  slot : ∀ a, Aligned a → σ.slot a = readPtr s.mem a

/-- Every process is one. -/
theorem sim_self (s : Process c) : Sim s ⟨readPtr s.mem, s.oldFunc⟩ := ⟨rfl, fun _ _ => rfl⟩

/-- **The slots of a list have been visited**: to the slots this is a run, and to the rest
of the memory nothing. -/
structure After (f : c.Addr) (s : Process c) (l : List c.Addr) (s' : Process c) : Prop where
  sim : ∀ σ, Sim s σ → Sim s' (Interpose.run f σ l)
  frame : ∀ x, (∀ a ∈ l, x ∉ ptrBlock a) → s'.mem x = s.mem x

theorem After.nil (f : c.Addr) (s : Process c) : After f s [] s := ⟨fun _ h => h, fun _ _ => rfl⟩

theorem After.append {t : Process c} (h : After f s l t) (h' : After f t l' s') :
    After f s (l ++ l') s' where
  sim σ hσ := by
    rw [Interpose.run, List.foldl_append]
    exact h'.sim _ (h.sim σ hσ)
  frame x hx := by
    rw [h'.frame x (fun a ha => hx a (List.mem_append_right l ha)),
      h.frame x (fun a ha => hx a (List.mem_append_left l' ha))]

/-- What is apart from the slots is unchanged. -/
theorem After.eqOn (h : After f s l s') (hl : ∀ a ∈ l, Disjoint (ptrBlock a) S) :
    Set.EqOn s'.mem s.mem S :=
  fun x hx => h.frame x (fun a ha hxa => Set.disjoint_left.mp (hl a ha) hxa hx)

/-- **A successful `replace_function` visits one slot.** -/
theorem after_replaceFunction (ha : Aligned a)
    (h : m.replaceFunction mprotect a f s = (false, s')) : After f s [a] s' := by
  rcases m.replaceFunction_cases mprotect a f s with ⟨heq, hr⟩ | ⟨hne, fails, t, hr, hold, hmem⟩
  · rw [h, Prod.mk.injEq] at hr
    rw [hr.2]
    refine ⟨fun σ hσ => ?_, fun _ _ => rfl⟩
    rwa [Interpose.run_of_forall]
    intro b hb
    rw [List.mem_singleton.mp hb, hσ.slot a ha, heq]
  · rw [h, Prod.mk.injEq] at hr
    obtain ⟨hfails, rfl⟩ := hr
    rw [← hfails, if_neg Bool.false_ne_true] at hmem
    refine ⟨fun σ hσ => ⟨?_, fun b hb => ?_⟩, fun x hx => ?_⟩
    · show (Interpose.visit f σ a).saved = _
      rw [Interpose.visit, if_neg (by rwa [hσ.slot a ha]), hold, hσ.saved, hσ.slot a ha]
    · show (Interpose.visit f σ a).slot b = _
      rw [Interpose.slot_visit, hmem]
      split_ifs with hab
      · rw [hab, readPtr_writePtr_self]
      · rw [readPtr_writePtr_of_ne s.mem f ha hb hab, hσ.slot b hb]
    · rw [hmem]
      exact eqOn_writePtr s.mem a f (hx a (List.mem_singleton_self a))

/-! ## The slots of a symbol -/

/-- Entries `i`, …, `i + n - 1` of a relocation table. -/
def relocs (m : Module c) (mem : c.Mem) (table : c.Addr) (i n : ℕ) : List Reloc :=
  (List.range' i n).map (m.relocAt mem table)

/-- The slot of the first jump slot relocation among some entries of the PLT table, if
there is one. -/
def pltSlots (m : Module c) (mem : c.Mem) (symidx i n : ℕ) : List c.Addr :=
  (((m.relocs mem m.relpltAddr i n).find? (isJumpSlot c symidx)).map m.slotOf).toList

/-- The slots of the relocations of the other kinds among some entries of the dynamic
table. -/
def dynSlots (m : Module c) (mem : c.Mem) (symidx i n : ℕ) : List c.Addr :=
  ((m.relocs mem m.reldynAddr i n).filter (isDynSlot c symidx)).map m.slotOf

/-- **The slots that a symbol is hooked at**, in the order they are visited. -/
def slots (m : Module c) (mem : c.Mem) (symidx : ℕ) : List c.Addr :=
  m.pltSlots mem symidx 0 m.relpltCounts ++ m.dynSlots mem symidx 0 m.reldynCounts

/-- **A slot as a loader provides it**: aligned, in a segment, and apart from `S`. -/
structure IsSlot (m : Module c) (mem : c.Mem) (S : Set c.Addr) (a : c.Addr) : Prop where
  aligned : Aligned a
  covered : m.Covered mem a
  apart : Disjoint (ptrBlock a) S

/-- **`S` holds the module's metadata**: its program headers and relocation tables, and
what the lookup of the symbol reads. -/
structure Metadata (m : Module c) (mem : c.Mem) (fuel : ℕ) (symbol : Chars) (S : Set c.Addr) :
    Prop where
  phdrs : DependsOn S (fun mem => phdrs mem m.phdr (readEhdr mem m.ehdr).ePhnum) mem
  relplt : ∀ i < m.relpltCounts, DependsOn S (fun mem => m.relocAt mem m.relpltAddr i) mem
  reldyn : ∀ i < m.reldynCounts, DependsOn S (fun mem => m.relocAt mem m.reldynAddr i) mem
  symbol : DependsOn S (fun mem => m.findSymbolByName mem fuel symbol 0 0) mem

/-! ## Where the metadata is -/

theorem plus_subset {k n n' : ℕ} (a : c.Addr) (h : k + n ≤ n') : block (plus a k) n ⊆ block a n' :=
  block_subset_block h

theorem readPhdr_congr {mem mem' : c.Mem} {a : c.Addr}
    (h : Set.EqOn mem mem' (block a (sizeofPhdr c))) : readPhdr mem a = readPhdr mem' a := by
  have hread (k n : ℕ) (hk : k + n ≤ sizeofPhdr c) :
      mem.read (plus a k) n = mem'.read (plus a k) n :=
    read_congr (h.mono (plus_subset a hk))
  have hzero : plus a 0 = a := BitVec.add_zero a
  have htype := hread 0 4 (by cases c <;> decide)
  rw [hzero] at htype
  cases c <;>
    simp (disch := decide) only [readPhdr, readWord, readAddr, htype, ElfClass.addrBytes, hread]

theorem ePhnum_congr {mem mem' : c.Mem} {a : c.Addr}
    (h : Set.EqOn mem mem' (block a (sizeofEhdr c))) :
    (readEhdr mem a).ePhnum = (readEhdr mem' a).ePhnum := by
  cases c <;> exact read_congr (h.mono (plus_subset a (by decide)))

theorem relocAt_congr {mem mem' : c.Mem} {table : c.Addr} {i : ℕ}
    (h : Set.EqOn mem mem' (block (elem table m.sizeofReloc i) m.sizeofReloc)) :
    m.relocAt mem table i = m.relocAt mem' table i := by
  have hsize : c.addrBytes + c.addrBytes ≤ m.sizeofReloc := by
    rw [sizeofReloc]
    split_ifs <;> cases c <;> decide
  have hread (k : ℕ) (hk : k + c.addrBytes ≤ m.sizeofReloc) :
      mem.read (plus (elem table m.sizeofReloc i) k) c.addrBytes
        = mem'.read (plus (elem table m.sizeofReloc i) k) c.addrBytes :=
    read_congr (h.mono (plus_subset _ hk))
  have hoffset := hread 0 (by omega)
  have hinfo := hread c.addrBytes hsize
  have hzero : plus (elem table m.sizeofReloc i) 0 = elem table m.sizeofReloc i :=
    BitVec.add_zero _
  rw [hzero] at hoffset
  rw [sizeofReloc] at hoffset hinfo
  rw [relocAt, relocAt]
  split_ifs at hoffset hinfo ⊢ <;> simp only [readRela, readRel, readAddr, hoffset, hinfo]

/-- **The metadata by its blocks**: the header of the image, the program headers and the
entries of the relocation tables. -/
theorem metadata_of_blocks {fuel : ℕ} {symbol : Chars}
    (hehdr : block m.ehdr (sizeofEhdr c) ⊆ S)
    (hphdr : ∀ i < (readEhdr mem m.ehdr).ePhnum,
      block (elem m.phdr (sizeofPhdr c) i) (sizeofPhdr c) ⊆ S)
    (hplt : ∀ i < m.relpltCounts, block (elem m.relpltAddr m.sizeofReloc i) m.sizeofReloc ⊆ S)
    (hdyn : ∀ i < m.reldynCounts, block (elem m.reldynAddr m.sizeofReloc i) m.sizeofReloc ⊆ S)
    (hsym : DependsOn S (fun mem => m.findSymbolByName mem fuel symbol 0 0) mem) :
    m.Metadata mem fuel symbol S where
  phdrs mem' h := by
    have hnum : (readEhdr mem' m.ehdr).ePhnum = (readEhdr mem m.ehdr).ePhnum :=
      ePhnum_congr (h.mono hehdr)
    dsimp only
    rw [hnum, Module.phdrs, Module.phdrs]
    exact List.map_congr_left
      (fun i hi => readPhdr_congr (h.mono (hphdr i (List.mem_range.mp hi))))
  relplt i hi mem' h := relocAt_congr (h.mono (hplt i hi))
  reldyn i hi mem' h := relocAt_congr (h.mono (hdyn i hi))
  symbol := hsym

/-! ## The two loops -/

theorem relocs_succ (m : Module c) (mem : c.Mem) (table : c.Addr) (i n : ℕ) :
    m.relocs mem table i (n + 1) = m.relocAt mem table i :: m.relocs mem table (i + 1) n := by
  rw [relocs, List.range'_succ, List.map_cons]
  rfl

theorem pltSlots_succ (m : Module c) (mem : c.Mem) (symidx i n : ℕ) :
    m.pltSlots mem symidx i (n + 1)
      = if isJumpSlot c symidx (m.relocAt mem m.relpltAddr i) then
          [m.slotOf (m.relocAt mem m.relpltAddr i)]
        else m.pltSlots mem symidx (i + 1) n := by
  rw [pltSlots, relocs_succ, List.find?_cons]
  cases isJumpSlot c symidx (m.relocAt mem m.relpltAddr i) <;> rfl

theorem dynSlots_succ (m : Module c) (mem : c.Mem) (symidx i n : ℕ) :
    m.dynSlots mem symidx i (n + 1)
      = (if isDynSlot c symidx (m.relocAt mem m.reldynAddr i) then
          [m.slotOf (m.relocAt mem m.reldynAddr i)]
        else []) ++ m.dynSlots mem symidx (i + 1) n := by
  rw [dynSlots, relocs_succ, List.filter_cons]
  cases isDynSlot c symidx (m.relocAt mem m.reldynAddr i) <;> rfl

section Loops

/-! Both loops read their table from the memory as it is by then; `mem₀` is the memory at
the call, and the metadata in `S` is still what it was there. -/

variable (hp : ∀ n, mprotect n = true)
  (hph : DependsOn S (fun mem => phdrs mem m.phdr (readEhdr mem m.ehdr).ePhnum) mem₀)

include hp hph in
/-- A slot is visited, and the metadata stays. -/
theorem exists_replaceFunction (hs : Set.EqOn s.mem mem₀ S) (ha : m.IsSlot mem₀ S a) :
    ∃ t, m.replaceFunction mprotect a f s = (false, t) ∧ After f s [a] t ∧
      Set.EqOn t.mem mem₀ S := by
  have hc : m.Covered s.mem a := by
    have h : phdrs s.mem m.phdr (readEhdr s.mem m.ehdr).ePhnum
        = phdrs mem₀ m.phdr (readEhdr mem₀ m.ehdr).ePhnum := hph hs
    rw [Covered, h]
    exact ha.covered
  have hr : m.replaceFunction mprotect a f s = (false, (m.replaceFunction mprotect a f s).2) :=
    Prod.ext (replaceFunction_succeeds hc hp f) rfl
  have hafter := after_replaceFunction ha.aligned hr
  refine ⟨_, hr, hafter, (hafter.eqOn (fun b hb => ?_)).trans hs⟩
  rw [List.mem_singleton.mp hb]
  exact ha.apart

include hp hph in
/-- **The loop over the PLT relocations visits the first slot.** -/
theorem relpltLoop_after {n i : ℕ} (hs : Set.EqOn s.mem mem₀ S)
    (hr : ∀ j, i ≤ j → j < i + n →
      DependsOn S (fun mem => m.relocAt mem m.relpltAddr j) mem₀)
    (ha : ∀ a ∈ m.pltSlots mem₀ symidx i n, m.IsSlot mem₀ S a) :
    ∃ t, m.relpltLoop mprotect symidx f n i s = (true, t) ∧
      After f s (m.pltSlots mem₀ symidx i n) t ∧ Set.EqOn t.mem mem₀ S := by
  induction n generalizing i with
  | zero => exact ⟨s, rfl, After.nil f s, hs⟩
  | succ n ih =>
    have hreloc : m.relocAt s.mem m.relpltAddr i = m.relocAt mem₀ m.relpltAddr i :=
      hr i le_rfl (by omega) hs
    rw [pltSlots_succ] at ha ⊢
    rw [relpltLoop]
    simp only [hreloc]
    split_ifs at ha ⊢ with hj
    · obtain ⟨t, ht, hafter, hS⟩ :=
        exists_replaceFunction (f := f) hp hph hs (ha _ (List.mem_singleton_self _))
      exact ⟨t, by rw [ht], hafter, hS⟩
    · exact ih (fun j hij hjn => hr j (by omega) (by omega)) ha

include hp hph in
/-- **The loop over the dynamic relocations visits every slot.** -/
theorem reldynLoop_after {n i : ℕ} (hs : Set.EqOn s.mem mem₀ S)
    (hr : ∀ j, i ≤ j → j < i + n →
      DependsOn S (fun mem => m.relocAt mem m.reldynAddr j) mem₀)
    (ha : ∀ a ∈ m.dynSlots mem₀ symidx i n, m.IsSlot mem₀ S a) :
    ∃ t, m.reldynLoop mprotect symidx f n i s = (true, t) ∧
      After f s (m.dynSlots mem₀ symidx i n) t ∧ Set.EqOn t.mem mem₀ S := by
  induction n generalizing i s with
  | zero => exact ⟨s, rfl, After.nil f s, hs⟩
  | succ n ih =>
    have hreloc : m.relocAt s.mem m.reldynAddr i = m.relocAt mem₀ m.reldynAddr i :=
      hr i le_rfl (by omega) hs
    rw [dynSlots_succ] at ha ⊢
    rw [reldynLoop]
    simp only [hreloc]
    have hrest := fun (s : Process c) (hs : Set.EqOn s.mem mem₀ S) =>
      ih hs (fun j hij hjn => hr j (by omega) (by omega))
        (fun a h => ha a (List.mem_append_right _ h))
    split_ifs at ha ⊢ with hj
    · obtain ⟨t, ht, hafter, hS⟩ :=
        exists_replaceFunction (f := f) hp hph hs (ha _ List.mem_cons_self)
      obtain ⟨u, hu, hafter', hS'⟩ := hrest t hS
      exact ⟨u, by rw [ht]; exact hu, hafter.append hafter', hS'⟩
    · exact hrest s hs

end Loops

/-- The loop over the PLT relocations leaves slots alone that are replaced. -/
theorem relpltLoop_idle {n i : ℕ} (hs : Set.EqOn s.mem mem₀ S)
    (hr : ∀ j, i ≤ j → j < i + n →
      DependsOn S (fun mem => m.relocAt mem m.relpltAddr j) mem₀)
    (ha : ∀ a ∈ m.pltSlots mem₀ symidx i n, readPtr s.mem a = f) :
    m.relpltLoop mprotect symidx f n i s = (true, s) := by
  induction n generalizing i with
  | zero => rfl
  | succ n ih =>
    have hreloc : m.relocAt s.mem m.relpltAddr i = m.relocAt mem₀ m.relpltAddr i :=
      hr i le_rfl (by omega) hs
    rw [pltSlots_succ] at ha
    rw [relpltLoop]
    simp only [hreloc]
    split_ifs at ha ⊢ with hj
    · rw [replaceFunction, if_pos (ha _ (List.mem_singleton_self _))]
    · exact ih (fun j hij hjn => hr j (by omega) (by omega)) ha

/-- The loop over the dynamic relocations leaves slots alone that are replaced. -/
theorem reldynLoop_idle {n i : ℕ} (hs : Set.EqOn s.mem mem₀ S)
    (hr : ∀ j, i ≤ j → j < i + n →
      DependsOn S (fun mem => m.relocAt mem m.reldynAddr j) mem₀)
    (ha : ∀ a ∈ m.dynSlots mem₀ symidx i n, readPtr s.mem a = f) :
    m.reldynLoop mprotect symidx f n i s = (true, s) := by
  induction n generalizing i with
  | zero => rfl
  | succ n ih =>
    have hreloc : m.relocAt s.mem m.reldynAddr i = m.relocAt mem₀ m.reldynAddr i :=
      hr i le_rfl (by omega) hs
    rw [dynSlots_succ] at ha
    have hrest := ih (fun j hij hjn => hr j (by omega) (by omega))
      (fun a h => ha a (List.mem_append_right _ h))
    rw [reldynLoop]
    simp only [hreloc]
    split_ifs at ha ⊢ with hj
    · rw [replaceFunction, if_pos (ha _ List.mem_cons_self)]
      exact hrest
    · exact hrest

/-! ## The call -/

/-- What `hook` does with a module that is loaded, once the symbol was looked up. -/
theorem hook_of_loaded {fuel : ℕ} {symbol : Chars} {r : Lookup c} (hl : m.isLoaded = true)
    (hfind : m.findSymbolByName s.mem fuel symbol 0 0 = some r) :
    m.hook mprotect fuel symbol f s = some
      (if r.sym = 0 then (false, m, s)
      else match m.relpltLoop mprotect r.symidx f m.relpltCounts 0 s with
        | (false, s) => (false, m, s)
        | (true, s) =>
          let (result, s) := m.reldynLoop mprotect r.symidx f m.reldynCounts 0 s
          (result, m, s)) := by
  simp only [hook, hl, if_true, hfind, not_true, if_false, Option.bind_eq_bind, Option.bind_some]
  split_ifs with h0
  · rfl
  · cases m.relpltLoop mprotect r.symidx f m.relpltCounts 0 s with
    | mk ok t => cases ok <;> rfl

/-- **Hooking a symbol whose slots are replaced** does nothing. -/
theorem hook_idle {fuel : ℕ} {symbol : Chars} {r : Lookup c} (hl : m.isLoaded = true)
    (hmeta : m.Metadata mem₀ fuel symbol S) (hs : Set.EqOn s.mem mem₀ S)
    (hfind : m.findSymbolByName mem₀ fuel symbol 0 0 = some r) (hsym : r.sym ≠ 0)
    (ha : ∀ a ∈ m.slots mem₀ r.symidx, readPtr s.mem a = f) :
    m.hook mprotect fuel symbol f s = some (true, m, s) := by
  have hplt : m.relpltLoop mprotect r.symidx f m.relpltCounts 0 s = (true, s) :=
    relpltLoop_idle hs (fun j _ hj => hmeta.relplt j (by omega))
      (fun a h => ha a (List.mem_append_left _ h))
  have hdyn : m.reldynLoop mprotect r.symidx f m.reldynCounts 0 s = (true, s) :=
    reldynLoop_idle hs (fun j _ hj => hmeta.reldyn j (by omega))
      (fun a h => ha a (List.mem_append_right _ h))
  rw [hook_of_loaded hl ((hmeta.symbol hs).trans hfind), if_neg hsym, hplt]
  dsimp only
  rw [hdyn]

/-- **Hooking a symbol is a run over its slots**, after which the metadata is unchanged. -/
theorem hook_after {fuel : ℕ} {symbol : Chars} {r : Lookup c} (hl : m.isLoaded = true)
    (hmeta : m.Metadata s.mem fuel symbol S)
    (hfind : m.findSymbolByName s.mem fuel symbol 0 0 = some r) (hsym : r.sym ≠ 0)
    (ha : ∀ a ∈ m.slots s.mem r.symidx, m.IsSlot s.mem S a) (hp : ∀ n, mprotect n = true) :
    ∃ t, m.hook mprotect fuel symbol f s = some (true, m, t) ∧
      After f s (m.slots s.mem r.symidx) t ∧ Set.EqOn t.mem s.mem S := by
  obtain ⟨t, ht, hplt, hS⟩ : ∃ t, m.relpltLoop mprotect r.symidx f m.relpltCounts 0 s = (true, t) ∧
      After f s (m.pltSlots s.mem r.symidx 0 m.relpltCounts) t ∧ Set.EqOn t.mem s.mem S :=
    relpltLoop_after hp hmeta.phdrs (Set.eqOn_refl _ _)
      (fun j _ hj => hmeta.relplt j (by omega)) (fun a h => ha a (List.mem_append_left _ h))
  obtain ⟨u, hu, hdyn, hS'⟩ : ∃ u, m.reldynLoop mprotect r.symidx f m.reldynCounts 0 t = (true, u) ∧
      After f t (m.dynSlots s.mem r.symidx 0 m.reldynCounts) u ∧ Set.EqOn u.mem s.mem S :=
    reldynLoop_after hp hmeta.phdrs hS
      (fun j _ hj => hmeta.reldyn j (by omega)) (fun a h => ha a (List.mem_append_right _ h))
  refine ⟨u, ?_, hplt.append hdyn, hS'⟩
  rw [hook_of_loaded hl hfind, if_neg hsym, ht]
  dsimp only
  rw [hu]

/-- **What hooking a symbol does.** If the symbol is not found, the call fails and changes
nothing. If it is found and its slots are as a loader provides them, the call succeeds:
every slot holds the new function, no other byte of memory has changed, `*old_func` keeps
what it held or else is the first content there was to replace, and another call succeeds
and changes nothing. -/
theorem hook_spec {fuel : ℕ} {symbol : Chars} {r : Lookup c} (hl : m.isLoaded = true)
    (hfind : m.findSymbolByName s.mem fuel symbol 0 0 = some r) (hp : ∀ n, mprotect n = true) :
    (r.sym = 0 → m.hook mprotect fuel symbol f s = some (false, m, s)) ∧
      (r.sym ≠ 0 → m.Metadata s.mem fuel symbol S →
        (∀ a ∈ m.slots s.mem r.symidx, m.IsSlot s.mem S a) →
        ∃ t, m.hook mprotect fuel symbol f s = some (true, m, t) ∧
          (∀ a ∈ m.slots s.mem r.symidx, readPtr t.mem a = f) ∧
          (∀ x, (∀ a ∈ m.slots s.mem r.symidx, x ∉ ptrBlock a) → t.mem x = s.mem x) ∧
          t.oldFunc = (if s.oldFunc = 0 then
              Interpose.firstOriginal f (readPtr s.mem) (m.slots s.mem r.symidx)
            else s.oldFunc) ∧
          m.hook mprotect fuel symbol f t = some (true, m, t)) := by
  refine ⟨fun hsym => ?_, fun hsym hmeta ha => ?_⟩
  · rw [hook_of_loaded hl hfind, if_pos hsym]
  · obtain ⟨t, ht, hafter, hS⟩ := hook_after (f := f) hl hmeta hfind hsym ha hp
    have hsim := hafter.sim _ (sim_self s)
    have hslots : ∀ a ∈ m.slots s.mem r.symidx, readPtr t.mem a = f := by
      intro a h
      rw [← hsim.slot a (ha a h).aligned, Interpose.slot_run, if_pos h]
    refine ⟨t, ht, hslots, hafter.frame, ?_, hook_idle hl hmeta hS hfind hsym hslots⟩
    rw [← hsim.saved, Interpose.saved_run]

/-! ### A module with three slots -/

/-- The words of an image with one symbol, at the address 128 of which the metadata ends:
the strings at 4, the symbols at 8, a hash table at 40, a program header at 60, a jump slot
relocation at 92, two others at 100, the second of which repeats the slot, and the header
at 72, of which only the number of program headers is set. -/
def sampleHookWords : List ℕ :=
  [0, 0x00006100, 0, 0, 0, 0, 1, 0, 0, 0,
   1, 2, 1, 0, 0,
   1, 0, 0, 0, 0x2000, 0x2000, 6, 0x1000,
   0x1000, 256 + 22, 0x1004, 256 + 21, 0x1000, 256 + 2, 1, 0, 0]

def sampleHookMem : ElfClass.elf32.Mem := fun a =>
  byteOf (sampleHookWords.getD (a.toNat / 4) 0x55555555) (a.toNat % 4)

def sampleHookModule : Module .elf32 :=
  parseHash sampleHookMem 40 { (default : Module .elf32) with
    isLoaded := true, ehdr := 72, phdr := 60, symPtr := 8, symstrPtr := 4
    relpltAddr := 92, relpltBytes := 8, reldynAddr := 100, reldynBytes := 16 }

/-- The lookup of the symbol reads below 128. -/
theorem sampleHook_symbol : DependsOn {x | x.toNat < 128}
    (fun mem => sampleHookModule.findSymbolByName mem 0 [0x61] 0 0) sampleHookMem := by
  intro mem h
  have hword (a : ElfClass.elf32.Addr) (ha : a.toNat + 4 ≤ 128) :
      readWord mem a = readWord sampleHookMem a := read_congr (h.mono (block_subset_lt ha))
  have hname : sampleHookModule.nameIs mem 1 [0x61] = true := by
    have hst : readStName mem (sampleHookModule.symAt 1) = 1 :=
      (hword _ (by decide)).trans (by decide)
    have heq : mem.strEq (plus sampleHookModule.symstrPtr 1) [0x61]
        = sampleHookMem.strEq (plus sampleHookModule.symstrPtr 1) [0x61] :=
      strEq_congr (h.mono (block_subset_lt (by decide)))
    rw [nameIs, hst, heq]
    decide
  have hbucket : readWord mem (elem sampleHookModule.bucket 4
      (elfHash [0x61] % sampleHookModule.nbucket)) = 1 :=
    (hword _ (by decide)).trans (by decide)
  have hfind : sampleHookModule.findSymbolByName mem 0 [0x61] 0 0
      = some ⟨true, sampleHookModule.symAt 1, 1⟩ := by
    rw [findSymbolByName, if_neg (by decide), if_neg (by decide), elfLookup,
      if_neg (by decide)]
    simp only [hbucket, hname, if_true]
  exact hfind.trans (by decide)

theorem sampleHook_slots :
    sampleHookModule.slots sampleHookMem 1 = [0x1000, 0x1004, 0x1000] := by
  decide

theorem sampleHook_isSlot {a : ElfClass.elf32.Addr}
    (ha : a ∈ sampleHookModule.slots sampleHookMem 1) :
    sampleHookModule.IsSlot sampleHookMem {x | x.toNat < 128} a := by
  have ha : a = 0x1000 ∨ a = 0x1004 := by simpa [sampleHook_slots, or_comm] using ha
  refine ⟨?_, ⟨readPhdr sampleHookMem 60, List.mem_map.mpr ⟨0, by decide, rfl⟩, ?_⟩, ?_⟩
  · rcases ha with rfl | rfl <;> decide
  · rcases ha with rfl | rfl <;> decide
  · refine Set.disjoint_left.mpr (fun x hx hlt => ?_)
    obtain ⟨k, hk, rfl⟩ := mem_block.mp hx
    replace hk : k < 4 := hk
    rcases ha with rfl | rfl <;> interval_cases k <;> revert hlt <;> decide

theorem sampleHook_metadata :
    sampleHookModule.Metadata sampleHookMem 0 [0x61] {x | x.toNat < 128} := by
  have hnum : (readEhdr sampleHookMem sampleHookModule.ehdr).ePhnum = 1 := by decide
  have hplt : sampleHookModule.relpltCounts = 1 := by decide
  have hdyn : sampleHookModule.reldynCounts = 2 := by decide
  refine metadata_of_blocks (block_subset_lt (by decide)) ?_ ?_ ?_ sampleHook_symbol
  · rw [hnum]
    exact fun i hi => block_subset_lt (by interval_cases i; decide)
  · rw [hplt]
    exact fun i hi => block_subset_lt (by interval_cases i; decide)
  · rw [hdyn]
    exact fun i hi => block_subset_lt (by interval_cases i <;> decide)

/-- The call on the image, with nothing remembered before it. -/
theorem hook_spec_sample :
    ∃ t : Process .elf32, sampleHookModule.hook (fun _ => true) 0 [0x61] 0x1234
        ⟨sampleHookMem, 0, []⟩ = some (true, sampleHookModule, t) ∧
      (∀ a ∈ sampleHookModule.slots sampleHookMem 1, readPtr t.mem a = 0x1234) ∧
      (∀ x, (∀ a ∈ sampleHookModule.slots sampleHookMem 1, x ∉ ptrBlock a) →
        t.mem x = sampleHookMem x) ∧
      t.oldFunc = 0x55555555 ∧
      sampleHookModule.hook (fun _ => true) 0 [0x61] 0x1234 t
          = some (true, sampleHookModule, t) := by
  have hfind : sampleHookModule.findSymbolByName sampleHookMem 0 [0x61] 0 0
      = some ⟨true, 24, 1⟩ := by decide
  obtain ⟨t, ht, hf, hframe, hold, hagain⟩ :=
    (hook_spec (s := ⟨sampleHookMem, 0, []⟩) (f := 0x1234) rfl hfind (fun _ => rfl)).2
      (by decide) sampleHook_metadata (fun _ h => sampleHook_isSlot h)
  refine ⟨t, ht, hf, hframe, ?_, hagain⟩
  rw [hold]
  decide

end Module

end Elf
