import AndroidReverse.ElfDynamic
import Mathlib.Data.List.Nodup

/-!
# How far the dynamic section is read

The loop of `get_segment_view` counts the entries of the dynamic segment in units of an
`Elf32_Dyn` and goes on from one to the next in units of an `ElfW(Dyn)`, and it knows no
case for `DT_NULL`. Which entries it reads is recorded here beside the loop (`dynReads`);
they are the ones up to that count, or up to an entry for an invalid GNU hash table, at
which the function returns (`dynReads_eq`).
-/

open ByteMemory

namespace Elf

variable {c : ElfClass}

/-- `DT_NULL`. -/
def DT_NULL : ℕ := 0

/-- **The `switch` has a case for the tag** of an entry. -/
def Dyn.Interpreted (d : Dyn) : Prop := d.tag ∉ [DynTag.rela, .relasz, .other]

instance (d : Dyn) : Decidable d.Interpreted := inferInstanceAs (Decidable (¬ _))

namespace Module

variable {m : Module c} {mem : c.Mem}

/-! ## The parts of `get_segment_view` -/

/-- The module once its headers are located. -/
def located (mem : c.Mem) (m : Module c) : Module c :=
  let m := { m with ehdr := m.baseAddr, phdr := plus m.baseAddr (readEhdr mem m.baseAddr).ePhoff }
  if m.biasAddr = 0 then { m with biasAddr := caculateBiasAddr mem m.ehdr } else m

/-- The segment that `get_segment_view` reads, if it gets there. -/
def dynamicSegment (mem : c.Mem) (m : Module c) : Option Phdr :=
  let type := (readEhdr mem m.baseAddr).eType
  if type = ET_EXEC ∨ type = ET_DYN then findSegmentByType mem (located mem m) PT_DYNAMIC else none

/-- The address of that segment. -/
def dynamicStart (mem : c.Mem) (m : Module c) (dynamic : Phdr) : c.Addr :=
  plus (located mem m).biasAddr dynamic.pVaddr

/-- The number of entries that `get_segment_view` takes it to have. -/
def dynamicCount (dynamic : Phdr) : ℕ := dynamic.pMemsz % 2 ^ 32 / 8

/-- The module as the loop over the dynamic entries finds it. -/
def atDynamic (mem : c.Mem) (m : Module c) (dynamic : Phdr) : Module c :=
  { located mem m with
    dynPtr := dynamicStart mem m dynamic, dynSize := dynamicCount dynamic, isGnuHash := false }

theorem getSegmentView_eq (mem : c.Mem) (m : Module c) :
    getSegmentView mem m
      = match dynamicSegment mem m with
        | none => (false, located mem m)
        | some dynamic =>
          dynLoop mem (dynamicCount dynamic) (dynamicStart mem m dynamic)
            (atDynamic mem m dynamic) := by
  rw [getSegmentView, dynamicSegment]
  by_cases htype : (readEhdr mem m.baseAddr).eType = ET_EXEC
    ∨ (readEhdr mem m.baseAddr).eType = ET_DYN
  · rw [if_pos htype]
    dsimp only
    rw [if_pos htype]
    change (match findSegmentByType mem (located mem m) PT_DYNAMIC with
      | none => _ | some dynamic => _) = _
    cases findSegmentByType mem (located mem m) PT_DYNAMIC <;> rfl
  · rw [if_neg htype]
    dsimp only
    rw [if_neg htype]
    rfl

/-! ## The entries that are read -/

/-- **The entries that the loop reads**, as `dynLoop` goes on, by their addresses. -/
def dynReads (mem : c.Mem) : ℕ → c.Addr → Module c → List c.Addr
  | 0, _, _ => []
  | n + 1, dyn, m =>
    dyn ::
      match dynEntry mem (readDyn mem dyn) m with
      | (true, m) => dynReads mem n (plus dyn (sizeofDyn c)) m
      | (false, _) => []

/-- The loop is the parser at these entries and at no others. -/
theorem dynLoop_eq_parse_reads (n : ℕ) (dyn : c.Addr) (m : Module c) :
    dynLoop mem n dyn m = parse mem ((dynReads mem n dyn m).map (readDyn mem)) m := by
  induction n generalizing dyn m with
  | zero => rfl
  | succ n ih =>
    rw [dynLoop, dynReads, List.map_cons, parse]
    cases dynEntry mem (readDyn mem dyn) m with
    | mk ok m' =>
      cases ok with
      | false => rfl
      | true => exact ih _ m'

/-- The entries that `get_segment_view` reads. -/
def viewReads (mem : c.Mem) (m : Module c) : List c.Addr :=
  match dynamicSegment mem m with
  | none => []
  | some dynamic =>
    dynReads mem (dynamicCount dynamic) (dynamicStart mem m dynamic) (atDynamic mem m dynamic)

/-- **What `get_segment_view` leaves comes from these entries**: it is what the parser makes of
them. -/
theorem getSegmentView_eq_parse {dynamic : Phdr} (hseg : dynamicSegment mem m = some dynamic) :
    getSegmentView mem m
      = parse mem ((viewReads mem m).map (readDyn mem)) (atDynamic mem m dynamic) := by
  rw [getSegmentView_eq, viewReads, hseg]
  exact dynLoop_eq_parse_reads _ _ _

/-- **The parse stays in the segment and stops at its end**: every entry that is read lies in
the segment, and behind an entry `DT_NULL` none is interpreted. -/
structure StaysInside (mem : c.Mem) (m : Module c) : Prop where
  inside : ∀ dynamic, dynamicSegment mem m = some dynamic → ∀ a ∈ viewReads mem m,
    block a (sizeofDyn c) ⊆ block (dynamicStart mem m dynamic) dynamic.pMemsz
  stops : (viewReads mem m).Pairwise fun a b =>
    (readDyn mem a).dTag = DT_NULL → ¬ (readDyn mem b).Interpreted

/-! ## Where the loop stops -/

/-- An entry for a GNU hash table that `get_segment_view` returns at. -/
def Rejected (mem : c.Mem) (bias : c.Addr) (d : Dyn) : Prop :=
  d.tag = .gnuHash ∧ ¬ powerof2 (readWord mem (plus (plus bias d.dUn) 8))

instance (mem : c.Mem) (bias : c.Addr) (d : Dyn) : Decidable (Rejected mem bias d) :=
  inferInstanceAs (Decidable (_ ∧ _))

/-- **The loop goes on behind an entry that is not rejected**, and only there. -/
theorem dynEntry_fst (mem : c.Mem) (d : Dyn) (m : Module c) :
    (dynEntry mem d m).1 = decide (¬ Rejected mem m.biasAddr d) := by
  by_cases hd : d.tag = .gnuHash
  · rw [dynEntry_of_gnuHash hd, parseGnuHash]
    dsimp only
    by_cases hp : powerof2 (readWord mem (plus (plus m.biasAddr d.dUn) 8))
    · simp [Rejected, hp]
    · simp [Rejected, hp, hd]
  · have hr : ¬ Rejected mem m.biasAddr d := fun h => hd h.1
    rw [decide_eq_true hr, dynEntry]
    rw [Dyn.tag] at hd
    cases htag : DynTag.ofValue d.dTag with
    | gnuHash => exact absurd htag hd
    | _ => rfl

/-- The next entry of an array. -/
theorem elem_succ (a : c.Addr) (n i : ℕ) : elem (plus a n) n i = elem a n (i + 1) := by
  rw [elem, elem, plus, BitVec.add_assoc, ← BitVec.ofNat_add, Nat.mul_succ, Nat.add_comm]

/-- **The entries that are read** are the first `k` of the section, where entry `i` is among
them if it is within the count and none before it is rejected. -/
theorem dynReads_eq (mem : c.Mem) (n : ℕ) (dyn : c.Addr) (m : Module c) :
    ∃ k, dynReads mem n dyn m = (List.range k).map (elem dyn (sizeofDyn c)) ∧
      ∀ i, i < k ↔ i < n ∧ ∀ j < i,
        ¬ Rejected mem m.biasAddr (readDyn mem (elem dyn (sizeofDyn c) j)) := by
  induction n generalizing dyn m with
  | zero => exact ⟨0, rfl, by simp⟩
  | succ n ih =>
    have hzero : elem dyn (sizeofDyn c) 0 = dyn := BitVec.add_zero dyn
    have hfst := dynEntry_fst mem (readDyn mem dyn) m
    have hbias := (dynEntry_frame mem (readDyn mem dyn) m).1
    rw [dynReads]
    by_cases hr : Rejected mem m.biasAddr (readDyn mem dyn)
    · refine ⟨1, ?_, fun i => ?_⟩
      · rw [decide_eq_false (not_not_intro hr)] at hfst
        generalize dynEntry mem (readDyn mem dyn) m = r at hfst
        obtain ⟨ok, m'⟩ := r
        obtain rfl : ok = false := hfst
        simp [hzero]
      · rw [Nat.lt_one_iff]
        constructor
        · rintro rfl
          exact ⟨Nat.succ_pos n, fun j hj => absurd hj (Nat.not_lt_zero j)⟩
        · rintro ⟨-, h⟩
          by_contra hi
          exact h 0 (Nat.pos_of_ne_zero hi) (by rwa [hzero])
    · rw [decide_eq_true hr] at hfst
      generalize dynEntry mem (readDyn mem dyn) m = r at hfst hbias
      obtain ⟨ok, m'⟩ := r
      obtain rfl : ok = true := hfst
      replace hbias : m'.biasAddr = m.biasAddr := hbias
      obtain ⟨k, hk, hlt⟩ := ih (plus dyn (sizeofDyn c)) m'
      refine ⟨k + 1, ?_, fun i => ?_⟩
      · rw [List.range_succ_eq_map, List.map_cons, hzero, List.map_map]
        exact congrArg (dyn :: ·) (hk.trans (List.map_congr_left fun i _ => elem_succ dyn _ i))
      · simp only [elem_succ, hbias] at hlt
        cases i with
        | zero => simp
        | succ i =>
          rw [Nat.succ_lt_succ_iff, Nat.succ_lt_succ_iff, hlt, Nat.forall_lt_succ_left, hzero]
          simp [hr]

/-! ## When the parse stays inside -/

/-- Entry `i` of the dynamic segment. -/
def dynamicEntry (mem : c.Mem) (m : Module c) (dynamic : Phdr) (i : ℕ) : Dyn :=
  readDyn mem (elem (dynamicStart mem m dynamic) (sizeofDyn c) i)

/-- An entry within the count lies in the segment if it does by the size of an entry. -/
theorem block_dynamic_subset_iff {dynamic : Phdr} {i : ℕ} (hi : i < dynamicCount dynamic) :
    block (elem (dynamicStart mem m dynamic) (sizeofDyn c) i) (sizeofDyn c)
        ⊆ block (dynamicStart mem m dynamic) dynamic.pMemsz
      ↔ sizeofDyn c * (i + 1) ≤ dynamic.pMemsz := by
  have hcount : dynamicCount dynamic < 2 ^ 29 := by
    rw [dynamicCount]
    omega
  rw [elem, block_subset_block_iff, Nat.mul_succ]
  · cases c <;> decide
  · cases c with
    | elf32 => show 8 * i + 8 ≤ 2 ^ 32; omega
    | elf64 => show 16 * i + 16 ≤ 2 ^ 64; omega

/-- **When the loop over a segment stays inside it**, by its entries. -/
theorem staysInside_of_segment {dynamic : Phdr} (hseg : dynamicSegment mem m = some dynamic) :
    StaysInside mem m ↔
      ∀ i < dynamicCount dynamic,
        (∀ j < i, ¬ Rejected mem (located mem m).biasAddr (dynamicEntry mem m dynamic j)) →
          (c = .elf64 → 16 * (i + 1) ≤ dynamic.pMemsz) ∧
            ((∃ j < i, (dynamicEntry mem m dynamic j).dTag = DT_NULL) →
              ¬ (dynamicEntry mem m dynamic i).Interpreted) := by
  obtain ⟨k, hk, hlt⟩ := dynReads_eq mem (dynamicCount dynamic) (dynamicStart mem m dynamic)
    (atDynamic mem m dynamic)
  have hreads : viewReads mem m
      = (List.range k).map (elem (dynamicStart mem m dynamic) (sizeofDyn c)) := by
    rw [viewReads, hseg]
    exact hk
  have hsize {i : ℕ} (hi : i < dynamicCount dynamic) :
      sizeofDyn c * (i + 1) ≤ dynamic.pMemsz ↔ (c = .elf64 → 16 * (i + 1) ≤ dynamic.pMemsz) := by
    cases c with
    | elf32 =>
      refine iff_of_true ?_ nofun
      show 8 * (i + 1) ≤ _
      rw [dynamicCount] at hi
      omega
    | elf64 => exact (imp_iff_right rfl).symm
  have hpair : (viewReads mem m).Pairwise (fun a b =>
        (readDyn mem a).dTag = DT_NULL → ¬ (readDyn mem b).Interpreted)
      ↔ ∀ i < k, (∃ j < i, (dynamicEntry mem m dynamic j).dTag = DT_NULL) →
        ¬ (dynamicEntry mem m dynamic i).Interpreted := by
    rw [hreads, List.pairwise_map, List.pairwise_iff_getElem]
    simp only [List.length_range, List.getElem_range]
    exact ⟨fun h i hi ⟨j, hj, hnull⟩ => h j i (hj.trans hi) hi hj hnull,
      fun h j i _ hi hj hnull => h i hi ⟨j, hj, hnull⟩⟩
  constructor
  · rintro ⟨hinside, hstops⟩ i hi hrej
    have hik : i < k := (hlt i).mpr ⟨hi, hrej⟩
    refine ⟨(hsize hi).mp ((block_dynamic_subset_iff hi).mp (hinside _ hseg _ ?_)),
      hpair.mp hstops i hik⟩
    rw [hreads]
    exact List.mem_map_of_mem (List.mem_range.mpr hik)
  · refine fun h => ⟨fun d hd a ha => ?_, hpair.mpr fun i hi => ?_⟩
    · obtain rfl : dynamic = d := Option.some.inj (hseg.symm.trans hd)
      rw [hreads] at ha
      obtain ⟨i, hi, rfl⟩ := List.mem_map.mp ha
      obtain ⟨hcount, hrej⟩ := (hlt i).mp (List.mem_range.mp hi)
      exact (block_dynamic_subset_iff hcount).mpr ((hsize hcount).mpr (h i hcount hrej).1)
    · obtain ⟨hcount, hrej⟩ := (hlt i).mp hi
      exact (h i hcount hrej).2

/-- **When the parse of the dynamic section stays inside its segment and stops at its end.**
For every entry the loop comes to, within the count and with no rejected entry before it: on
a 64-bit image the entry must end within the segment, which on a 32-bit image it does; and
if an entry `DT_NULL` came before it, the `switch` must have no case for it. -/
theorem staysInside_iff (mem : c.Mem) (m : Module c) :
    StaysInside mem m ↔
      ∀ dynamic, dynamicSegment mem m = some dynamic → ∀ i < dynamicCount dynamic,
        (∀ j < i, ¬ Rejected mem (located mem m).biasAddr (dynamicEntry mem m dynamic j)) →
          (c = .elf64 → 16 * (i + 1) ≤ dynamic.pMemsz) ∧
            ((∃ j < i, (dynamicEntry mem m dynamic j).dTag = DT_NULL) →
              ¬ (dynamicEntry mem m dynamic i).Interpreted) := by
  cases hseg : dynamicSegment mem m with
  | none =>
    have hreads : viewReads mem m = [] := by rw [viewReads, hseg]
    refine iff_of_true ⟨fun d hd => ?_, by rw [hreads]; exact .nil⟩ nofun
    rw [hseg] at hd
    exact absurd hd nofun
  | some dynamic =>
    rw [staysInside_of_segment hseg]
    exact ⟨fun h d hd => Option.some.inj hd ▸ h, fun h => h dynamic rfl⟩

/-! ### Two images -/

/-- The words of a 64-bit shared object: its header, two program headers at 64, and at 176
a dynamic section of one entry, `DT_NULL`. -/
def sampleEndWords : List ℕ :=
  [0x00010102464c457f, 0, 0x0000000100b70003, 0, 64, 0, 0x0038004000000000, 2,
   0x0000000600000001, 0, 0, 0, 0x1000, 0x1000, 0x1000,
   0x0000000600000002, 176, 176, 176, 16, 16, 8,
   0, 0]

def sampleEndMem : ElfClass.elf64.Mem := fun a =>
  byteOf (sampleEndWords.getD ((a - 0x10000).toNat / 8) 0) ((a - 0x10000).toNat % 8)

/-- The words of a 32-bit shared object: its header, two program headers at 52, and at 116
a dynamic section of two entries, `DT_NULL` and behind it a `DT_SYMTAB`. -/
def sampleGarbageWords : List ℕ :=
  [0x464c457f, 0x00010101, 0, 0, 0x00280003, 1, 0, 52, 0, 0, 0x00200034, 2, 0,
   1, 0, 0, 0, 0x1000, 0x1000, 6, 0x1000,
   2, 116, 116, 116, 16, 16, 6, 4,
   0, 0, 6, 8]

def sampleGarbageMem : ElfClass.elf32.Mem := fun a =>
  byteOf (sampleGarbageWords.getD ((a - 0x10000).toNat / 4) 0) ((a - 0x10000).toNat % 4)

/-- **Both fail**: of the 64-bit image an entry behind the segment is read, and of the 32-bit
image the entry behind `DT_NULL` is interpreted. -/
theorem not_staysInside_samples :
    ¬ StaysInside sampleEndMem (construct 0x10000 default) ∧
      ¬ StaysInside sampleGarbageMem (construct 0x10000 default) := by
  constructor
  · intro h
    have hseg : dynamicSegment sampleEndMem (construct 0x10000 default)
        = some (readPhdr sampleEndMem 0x10078) := rfl
    have hbound := ((staysInside_of_segment hseg).mp h 1 (by decide) (by decide)).1 rfl
    exact absurd hbound (by decide)
  · intro h
    have hseg : dynamicSegment sampleGarbageMem (construct 0x10000 default)
        = some (readPhdr sampleGarbageMem 0x10054) := rfl
    have hnull := ((staysInside_of_segment hseg).mp h 1 (by decide) (by decide)).2
    exact absurd (hnull ⟨0, Nat.one_pos, by decide⟩) (by decide)

end Module

end Elf
