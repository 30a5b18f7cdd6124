import Mathlib.Order.Interval.Set.Basic
import AndroidReverse.Carving
import AndroidReverse.ArmMachine

/-!
# The allocator of code slices

Trampolines stand in slices of executable pages, `allocator.c`. A page has a
position up to which it is used and `ZzNewCodeSlice` takes the first one with
enough room, or a new one. `ZzNewNearCodeSlice` wants the slice in reach of an
address, for which it may split a page, and looks for a code cave if there is
no such page. Pages are objects on the heap and the allocator has pointers to
them; as no pointer is there twice, the pages themselves stand in its list.

What the system answers is left to whoever runs the allocator: where a new page
is, and where there is a cave. `Session` is a run of the allocator with the
memory it has been granted and the slices it has returned.
-/

namespace HookZz

open Arm Carving

/-! ## Data -/

/-- `ZzMemoryPage`. -/
structure MemoryPage where
  /-- Where the page is. -/
  base : Word
  /-- Where the next slice is going to be. -/
  currPos : Word
  /-- How long it is. -/
  size : Word
  /-- How much of it is used. -/
  usedSize : Word
  /-- Whether it is not a page of its own. -/
  isCodeCave : Bool
deriving DecidableEq, Repr

/-- `ZzCodeSlice`. -/
structure CodeSlice where
  /-- Where the slice is. -/
  data : Word
  /-- How long it is. -/
  size : Word
  /-- Whether it is in a cave. -/
  isCodeCave : Bool
deriving DecidableEq, Repr

/-- `ZzAllocator`. -/
structure Allocator where
  /-- The pages, of which there are `size`. -/
  memoryPages : List MemoryPage
  /-- How many pages there is room for. -/
  capacity : ℕ
deriving DecidableEq, Repr

/-! ## Pages -/

/-- `DEFAULT_ALLOCATOR_CAPACITY`. -/
def defaultAllocatorCapacity : ℕ := 4

/-- `ZzNewAllocator`. -/
def newAllocator : Allocator := ⟨[], defaultAllocatorCapacity⟩

/-- `ZzNewMemoryPage`, at the address the system answers. -/
def newMemoryPage (pageSize pagePtr : Word) : MemoryPage :=
  ⟨pagePtr, pagePtr, pageSize, 0#32, false⟩

/-- `ZzNewNearCodeCave`, at the address the search answers. -/
def newNearCodeCave (cavePtr codeSliceSize : Word) : MemoryPage :=
  ⟨cavePtr, cavePtr, codeSliceSize, 0#32, true⟩

/-- `ZzAddMemoryPage`. -/
def Allocator.addMemoryPage (self : Allocator) (page : MemoryPage) : Allocator where
  memoryPages := self.memoryPages ++ [page]
  capacity := if self.memoryPages.length ≥ self.capacity then self.capacity * 2 else self.capacity

namespace MemoryPage

/-- The padding in front of a slice. -/
def align (page : MemoryPage) : MemoryPage :=
  if page.currPos % 4#32 ≠ 0#32 then
    let t := 4#32 - page.currPos % 4#32
    { page with usedSize := page.usedSize + t, currPos := page.currPos + t }
  else page

/-- A page from which a slice has been cut off. -/
def advance (page : MemoryPage) (codeSliceSize : Word) : MemoryPage :=
  { page with
    currPos := page.currPos + codeSliceSize
    usedSize := page.usedSize + codeSliceSize }

end MemoryPage

/-! ## Slices anywhere -/

/-- The loop of `ZzNewCodeSlice` over the history pages. -/
def newCodeSliceLoop (codeSliceSize : Word) : List MemoryPage → Option CodeSlice × List MemoryPage
  | [] => (none, [])
  | page :: pages =>
    let page := page.align
    if page.base ≠ 0#32 ∧ page.isCodeCave = false ∧ page.size - page.usedSize > codeSliceSize then
      (some ⟨page.currPos, codeSliceSize, false⟩, page.advance codeSliceSize :: pages)
    else
      let r := newCodeSliceLoop codeSliceSize pages
      (r.1, page :: r.2)

/-- `ZzNewCodeSlice`, with the address of the page the system answers if it is
asked for one. -/
def Allocator.newCodeSlice (self : Allocator) (pageSize pagePtr codeSliceSize : Word) :
    CodeSlice × Allocator :=
  match newCodeSliceLoop codeSliceSize self.memoryPages with
  | (some slice, pages) => (slice, { self with memoryPages := pages })
  | (none, pages) =>
    -- the page that has been added is changed through its pointer
    let page := (newMemoryPage pageSize pagePtr).align
    (⟨page.currPos, codeSliceSize, false⟩,
      { self with memoryPages := pages }.addMemoryPage (page.advance codeSliceSize))

/-! ## Slices in reach of an address -/

/-- What `ZzNewNearCodeSlice` does with a page: the values of `flag`. -/
inductive NearChoice where
  | skip
  | take
  | split (splitAddr : Word)
deriving DecidableEq, Repr

/-- The choice of `flag` and `split_addr`. -/
def MemoryPage.nearChoice (page : MemoryPage) (address redirectRangeSize codeSliceSize : Word) :
    NearChoice :=
  if page.base ≠ 0#32 ∧ page.isCodeCave = false then
    if page.currPos < address then
      if address - redirectRangeSize < page.currPos then
        -- enough for code_slice_size
        if page.size - page.usedSize < codeSliceSize then .skip else .take
      else if address - redirectRangeSize > page.currPos
          ∧ address - redirectRangeSize < page.base + page.size then
        -- enough for code_slice_size
        if page.base + page.size - (address - redirectRangeSize) < codeSliceSize then .skip
        else .split (address - redirectRangeSize)
      else .skip
    else if address + redirectRangeSize > page.base + page.size then
      -- enough for code_slice_size
      if page.size - page.usedSize < codeSliceSize then .skip else .take
    else if address + redirectRangeSize > page.currPos
        ∧ address + redirectRangeSize < page.base + page.size then
      if address + redirectRangeSize - page.currPos > codeSliceSize then .skip else .take
    else .skip
  else .skip

/-- The page behind the address a page is split at. -/
def MemoryPage.behind (page : MemoryPage) (splitAddr : Word) : MemoryPage :=
  ⟨splitAddr, splitAddr, page.base + page.size - splitAddr, 0#32, false⟩

/-- The page in front of it. -/
def MemoryPage.before (page : MemoryPage) (splitAddr : Word) : MemoryPage :=
  { page with size := splitAddr - page.base }

/-- The loop of `ZzNewNearCodeSlice`: the slice, the pages and a new page. -/
def newNearCodeSliceLoop (address redirectRangeSize codeSliceSize : Word) :
    List MemoryPage → Option (CodeSlice × List MemoryPage × Option MemoryPage)
  | [] => none
  | page :: pages =>
    match page.nearChoice address redirectRangeSize codeSliceSize with
    | .skip => (newNearCodeSliceLoop address redirectRangeSize codeSliceSize pages).map fun r =>
        (r.1, page :: r.2.1, r.2.2)
    | .take =>
      some (⟨page.currPos, codeSliceSize, page.isCodeCave⟩,
          page.advance codeSliceSize :: pages, none)
    | .split splitAddr =>
      let newPage := page.behind splitAddr
      some (⟨newPage.currPos, codeSliceSize, false⟩, page.before splitAddr :: pages,
        some (newPage.advance codeSliceSize))

/-- `ZzNewNearCodeSlice`, with what the search for a cave answers if there is
one. -/
def Allocator.newNearCodeSlice (self : Allocator) (address redirectRangeSize codeSliceSize : Word)
    (cavePtr : Option Word) : Option CodeSlice × Allocator :=
  match newNearCodeSliceLoop address redirectRangeSize codeSliceSize self.memoryPages with
  | some (slice, pages, none) => (some slice, { self with memoryPages := pages })
  | some (slice, pages, some newPage) =>
    (some slice, { self with memoryPages := pages }.addMemoryPage newPage)
  | none =>
    (cavePtr.map fun cavePtr =>
      let page := newNearCodeCave cavePtr codeSliceSize
      ⟨page.currPos, codeSliceSize, page.isCodeCave⟩, self)

/-! ## Sessions -/

/-- The bytes of a slice. -/
def CodeSlice.bytes (slice : CodeSlice) : Set ℕ :=
  Set.Ico slice.data.toNat (slice.data.toNat + slice.size.toNat)

/-- The bytes of a page. -/
def MemoryPage.extent (page : MemoryPage) : Set ℕ :=
  Set.Ico page.base.toNat (page.base.toNat + page.size.toNat)

/-- The bytes of a page that are not used. -/
def MemoryPage.free (page : MemoryPage) : Set ℕ :=
  Set.Ico (page.base.toNat + page.usedSize.toNat) (page.base.toNat + page.size.toNat)

/-- A request to the allocator, with what the system or the search answers if
it is asked. -/
inductive Request where
  | code (codeSliceSize pagePtr : Word)
  | near (address redirectRangeSize codeSliceSize : Word) (cavePtr : Option Word)
deriving DecidableEq, Repr

/-- The allocator with its history. -/
structure Session where
  /-- The allocator. -/
  allocator : Allocator
  /-- The memory that pages and caves have been granted. -/
  granted : List (Set ℕ)
  /-- The slices that have been returned, the last one first. -/
  slices : List CodeSlice

namespace Session

/-- Whether none of the pages has room. -/
def asksForPage (s : Session) (codeSliceSize : Word) : Prop :=
  (newCodeSliceLoop codeSliceSize s.allocator.memoryPages).1 = none

/-- Whether none of the pages is near enough. -/
def asksForCave (s : Session) (address redirectRangeSize codeSliceSize : Word) : Prop :=
  newNearCodeSliceLoop address redirectRangeSize codeSliceSize s.allocator.memoryPages = none

instance (s : Session) (n : Word) : Decidable (s.asksForPage n) :=
  inferInstanceAs (Decidable (_ = _))

instance (s : Session) (address range n : Word) : Decidable (s.asksForCave address range n) :=
  inferInstanceAs (Decidable (_ = _))

/-- The slice a request is answered with. -/
def answer (pageSize : Word) (s : Session) : Request → Option CodeSlice
  | .code codeSliceSize pagePtr => some (s.allocator.newCodeSlice pageSize pagePtr codeSliceSize).1
  | .near address redirectRangeSize codeSliceSize cavePtr =>
    (s.allocator.newNearCodeSlice address redirectRangeSize codeSliceSize cavePtr).1

/-- The memory that is granted to a request. -/
def grant (pageSize : Word) (s : Session) : Request → List (Set ℕ)
  | .code codeSliceSize pagePtr =>
    if s.asksForPage codeSliceSize then [(newMemoryPage pageSize pagePtr).extent] else []
  | .near address redirectRangeSize codeSliceSize cavePtr =>
    if s.asksForCave address redirectRangeSize codeSliceSize then
      cavePtr.toList.map fun cavePtr => (newNearCodeCave cavePtr codeSliceSize).extent
    else []

/-- The allocator behind a request. -/
def next (pageSize : Word) (s : Session) : Request → Allocator
  | .code codeSliceSize pagePtr => (s.allocator.newCodeSlice pageSize pagePtr codeSliceSize).2
  | .near address redirectRangeSize codeSliceSize cavePtr =>
    (s.allocator.newNearCodeSlice address redirectRangeSize codeSliceSize cavePtr).2

/-- **A request is served.** -/
def serve (pageSize : Word) (s : Session) (request : Request) : Session where
  allocator := s.next pageSize request
  granted := s.grant pageSize request ++ s.granted
  slices := (s.answer pageSize request).toList ++ s.slices

/-- Nothing has been requested. -/
def initial : Session := ⟨newAllocator, [], []⟩

/-- **Requests one after the other**, from a new allocator on. -/
def run (pageSize : Word) (requests : List Request) : Session :=
  requests.foldl (serve pageSize) initial

/-- **What the system promises**: slices anywhere fit into a page, and where the
system or the search is asked, a page is aligned and a cave within the range,
and both are memory that has not been granted before. -/
def Promised (pageSize : Word) (s : Session) : Request → Prop
  | .code codeSliceSize pagePtr => codeSliceSize ≤ pageSize
    ∧ (s.asksForPage codeSliceSize → pagePtr ≠ 0#32 ∧ pagePtr.toNat % pageSize.toNat = 0
      ∧ pagePtr.toNat + pageSize.toNat ≤ 2 ^ 32
      ∧ ∀ g ∈ s.granted, Disjoint (newMemoryPage pageSize pagePtr).extent g)
  | .near address redirectRangeSize codeSliceSize cavePtr =>
    s.asksForCave address redirectRangeSize codeSliceSize → ∀ c, cavePtr = some c →
      address.toNat ≤ c.toNat + redirectRangeSize.toNat
      ∧ c.toNat + codeSliceSize.toNat ≤ address.toNat + redirectRangeSize.toNat
      ∧ ∀ g ∈ s.granted, Disjoint (newNearCodeCave c codeSliceSize).extent g

/-- Every request of a run meets a condition, in the session it is made in. -/
def Along (pageSize : Word) (Q : Session → Request → Prop) (requests : List Request) : Prop :=
  ∀ before request, before ++ [request] <+: requests → Q (run pageSize before) request

/-- Every request of a run finds the system as it promises to be. -/
def Granted (pageSize : Word) (requests : List Request) : Prop :=
  Along pageSize (Promised pageSize) requests

end Session

/-! ## Sound pages -/

/-- **A page that is as its fields say**: it is used up to its position, and
begins and ends at word boundaries. -/
structure MemoryPage.Sound (page : MemoryPage) : Prop where
  base_ne : page.base ≠ 0#32
  not_cave : page.isCodeCave = false
  currPos_eq : page.currPos = page.base + page.usedSize
  used_le : page.usedSize.toNat ≤ page.size.toNat
  base_aligned : page.base.toNat % 4 = 0
  size_aligned : page.size.toNat % 4 = 0
  fits : page.base.toNat + page.size.toNat ≤ 2 ^ 32

section Pages

variable {page : MemoryPage} {n pageSize pagePtr : Word}

/-- Where the next slice is going to be, if there is room for a byte. -/
theorem MemoryPage.Sound.currPos_toNat (h : page.Sound)
    (hlt : page.usedSize.toNat < page.size.toNat) :
    page.currPos.toNat = page.base.toNat + page.usedSize.toNat := by
  have hfits := h.fits
  rw [h.currPos_eq, BitVec.toNat_add]
  exact Nat.mod_eq_of_lt (by omega)

theorem MemoryPage.align_base (page : MemoryPage) : page.align.base = page.base := by
  unfold align
  split <;> rfl

theorem MemoryPage.align_size (page : MemoryPage) : page.align.size = page.size := by
  unfold align
  split <;> rfl

theorem MemoryPage.align_extent (page : MemoryPage) : page.align.extent = page.extent := by
  rw [extent, align_base, align_size, extent]

theorem MemoryPage.align_isCodeCave (page : MemoryPage) :
    page.align.isCodeCave = page.isCodeCave := by
  unfold align
  split <;> rfl

/-- **Padding** stays within a page, as the page ends at a word boundary. -/
theorem MemoryPage.Sound.align_used (h : page.Sound) :
    page.usedSize.toNat ≤ page.align.usedSize.toNat ∧ page.align.usedSize.toNat ≤ page.size.toNat
      ∧ page.align.currPos = page.base + page.align.usedSize
          ∧ page.align.currPos.toNat % 4 = 0 := by
  have hused := h.used_le
  have hbase := h.base_aligned
  have hsize := h.size_aligned
  have hfits := h.fits
  have hpos : page.currPos.toNat = (page.base.toNat + page.usedSize.toNat) % 2 ^ 32 := by
    rw [h.currPos_eq, BitVec.toNat_add]
  have hmod : (page.currPos % 4#32).toNat = page.currPos.toNat % 4 := BitVec.toNat_umod
  unfold align
  by_cases ht : page.currPos % 4#32 = 0#32
  · have hzero : page.currPos.toNat % 4 = 0 := by
      rw [← hmod, ht]
      rfl
    rw [if_neg (not_not.mpr ht)]
    exact ⟨Nat.le_refl _, hused, h.currPos_eq, hzero⟩
  · have hne : page.currPos.toNat % 4 ≠ 0 := fun hz =>
      ht (BitVec.eq_of_toNat_eq (hmod.trans hz))
    have hpad : (4#32 - page.currPos % 4#32).toNat = 4 - page.currPos.toNat % 4 := by
      rw [BitVec.toNat_sub, hmod, show (4#32).toNat = 4 from rfl]
      omega
    rw [if_pos ht]
    dsimp only
    refine ⟨?_, ?_, ?_, ?_⟩
    · rw [BitVec.toNat_add, hpad]
      omega
    · rw [BitVec.toNat_add, hpad]
      omega
    · rw [h.currPos_eq, BitVec.add_assoc]
    · rw [BitVec.toNat_add, hpad]
      omega

theorem MemoryPage.align_of_aligned (h : page.currPos.toNat % 4 = 0) : page.align = page := by
  have hmod : page.currPos % 4#32 = 0#32 := BitVec.eq_of_toNat_eq (BitVec.toNat_umod.trans h)
  exact if_neg (not_not.mpr hmod)

/-- What is left of a page. -/
theorem MemoryPage.Sound.toNat_room (h : page.Sound) :
    (page.size - page.usedSize).toNat = page.size.toNat - page.usedSize.toNat :=
  BitVec.toNat_sub_of_le h.used_le

theorem MemoryPage.Sound.align (h : page.Sound) : page.align.Sound := by
  obtain ⟨-, hle, hpos, -⟩ := h.align_used
  refine ⟨?_, ?_, ?_, ?_, ?_, ?_, ?_⟩
  · rw [page.align_base]
    exact h.base_ne
  · rw [page.align_isCodeCave]
    exact h.not_cave
  · rw [page.align_base, hpos]
  · rwa [page.align_size]
  · rw [page.align_base]
    exact h.base_aligned
  · rw [page.align_size]
    exact h.size_aligned
  · rw [page.align_base, page.align_size]
    exact h.fits

theorem MemoryPage.Sound.free_align (h : page.Sound) : page.align.free ⊆ page.free := by
  unfold free
  rw [page.align_base, page.align_size]
  exact Set.Ico_subset_Ico_left (Nat.add_le_add_left h.align_used.1 _)

/-- A new page. -/
theorem newMemoryPage_sound (hsize : pageSize.toNat % 4 = 0) (hne : pagePtr ≠ 0#32)
    (hpage : pagePtr.toNat % pageSize.toNat = 0)
    (hfits : pagePtr.toNat + pageSize.toNat ≤ 2 ^ 32) : (newMemoryPage pageSize pagePtr).Sound where
  base_ne := hne
  not_cave := rfl
  currPos_eq := (BitVec.add_zero pagePtr).symm
  used_le := Nat.zero_le _
  base_aligned := Nat.mod_eq_zero_of_dvd
    ((Nat.dvd_of_mod_eq_zero hsize).trans (Nat.dvd_of_mod_eq_zero hpage))
  size_aligned := hsize
  fits := hfits

theorem MemoryPage.used_advance
    (hn : page.usedSize.toNat + n.toNat ≤ page.size.toNat) :
    (page.advance n).usedSize.toNat = page.usedSize.toNat + n.toNat := by
  have hlt := page.size.isLt
  show (page.usedSize + n).toNat = _
  rw [BitVec.toNat_add]
  exact Nat.mod_eq_of_lt (by omega)

/-- **Cutting off** no more than there is. -/
theorem MemoryPage.Sound.advance (h : page.Sound)
    (hn : page.usedSize.toNat + n.toNat ≤ page.size.toNat) : (page.advance n).Sound where
  base_ne := h.base_ne
  not_cave := h.not_cave
  currPos_eq := by
    show page.currPos + n = page.base + (page.usedSize + n)
    rw [h.currPos_eq, BitVec.add_assoc]
  used_le := by
    rw [MemoryPage.used_advance hn]
    exact hn
  base_aligned := h.base_aligned
  size_aligned := h.size_aligned
  fits := h.fits

/-- **The slice is cut out of what was free**, and the rest stays free. -/
theorem MemoryPage.Sound.cut (h : page.Sound)
    (hn : page.usedSize.toNat + n.toNat ≤ page.size.toNat) (isCodeCave : Bool) :
    (CodeSlice.mk page.currPos n isCodeCave).bytes ⊆ page.free
      ∧ (page.advance n).free ⊆ page.free
      ∧ Disjoint (page.advance n).free (CodeSlice.mk page.currPos n isCodeCave).bytes := by
  have hrest : (page.advance n).free
      = Set.Ico (page.base.toNat + (page.usedSize.toNat + n.toNat))
        (page.base.toNat + page.size.toNat) := by
    rw [← MemoryPage.used_advance hn]
    rfl
  rw [hrest]
  unfold CodeSlice.bytes free
  by_cases hzero : n.toNat = 0
  · -- an empty slice, which may be behind the end of the address space
    dsimp only
    rw [hzero, Nat.add_zero, Nat.add_zero, Set.Ico_self]
    exact ⟨Set.empty_subset _, subset_rfl, Set.disjoint_empty _⟩
  · dsimp only
    rw [h.currPos_toNat (by omega)]
    refine ⟨Set.Ico_subset_Ico_right (by omega), Set.Ico_subset_Ico_left (by omega), ?_⟩
    rw [Set.disjoint_left]
    intro a ha ha'
    have := ha.1
    have := ha'.2
    omega

theorem MemoryPage.free_subset_extent (page : MemoryPage) : page.free ⊆ page.extent :=
  Set.Ico_subset_Ico_left (Nat.le_add_right _ _)

end Pages

/-! ## What a session keeps -/

/-- **The loop** pads pages up to the first one with room, and cuts the slice
off there. -/
theorem newCodeSliceLoop_spec (n : Word) (pages : List MemoryPage) :
    (∃ pre page post, pages = pre ++ page :: post ∧ page.align.size - page.align.usedSize > n
        ∧ newCodeSliceLoop n pages = (some ⟨page.align.currPos, n, false⟩,
          pre.map MemoryPage.align ++ page.align.advance n :: post))
      ∨ newCodeSliceLoop n pages = (none, pages.map MemoryPage.align) := by
  induction pages with
  | nil => exact Or.inr rfl
  | cons page pages ih =>
    rw [newCodeSliceLoop]
    dsimp only
    split
    · rename_i hroom
      exact Or.inl ⟨[], page, pages, rfl, hroom.2.2, rfl⟩
    · rcases ih with ⟨pre, page', post, rfl, hroom, hloop⟩ | hloop
      · refine Or.inl ⟨page :: pre, page', post, rfl, hroom, ?_⟩
        rw [hloop]
        rfl
      · right
        rw [hloop]
        rfl

namespace Session

/-- **The invariant of a session**: sound pages within what has been granted, of
which the free parts overlap neither each other nor the slices. -/
structure Valid (s : Session) : Prop where
  sound : ∀ page ∈ s.allocator.memoryPages, page.Sound
  carved : Carved (s.allocator.memoryPages.map MemoryPage.free) (s.slices.map CodeSlice.bytes)
  pages_granted : ∀ page ∈ s.allocator.memoryPages, ∃ g ∈ s.granted, page.extent ⊆ g
  slices_granted : ∀ slice ∈ s.slices, ∃ g ∈ s.granted, slice.bytes ⊆ g

/-- Where every slice ends up that has been cut out of a page. -/
def Paged (s : Session) : Prop :=
  ∀ slice ∈ s.slices, slice.data.toNat % 4 = 0
    ∧ ∃ page ∈ s.allocator.memoryPages, slice.bytes ⊆ page.extent

section Valid

variable {s : Session} {pageSize n pagePtr : Word} {pages pre post : List MemoryPage}
  {page : MemoryPage}

theorem valid_initial : initial.Valid where
  sound := nofun
  carved := List.Pairwise.nil
  pages_granted := nofun
  slices_granted := nofun

/-- What has not been granted before overlaps nothing. -/
theorem Valid.fresh (h : s.Valid) {t : Set ℕ} (ht : ∀ g ∈ s.granted, Disjoint t g) :
    ∀ x ∈ s.allocator.memoryPages.map MemoryPage.free ++ s.slices.map CodeSlice.bytes,
      Disjoint t x := by
  intro x hx
  rcases List.mem_append.mp hx with hx | hx
  · obtain ⟨page, hpage, rfl⟩ := List.mem_map.mp hx
    obtain ⟨g, hg, hsub⟩ := h.pages_granted page hpage
    exact (ht g hg).mono_right (page.free_subset_extent.trans hsub)
  · obtain ⟨slice, hslice, rfl⟩ := List.mem_map.mp hx
    obtain ⟨g, hg, hsub⟩ := h.slices_granted slice hslice
    exact (ht g hg).mono_right hsub

/-- Padding loses free memory. -/
theorem forall₂_free_align (h : ∀ page ∈ pages, page.Sound) :
    List.Forall₂ (· ⊆ ·) ((pages.map MemoryPage.align).map MemoryPage.free)
      (pages.map MemoryPage.free) := by
  induction pages with
  | nil => exact .nil
  | cons page pages ih =>
    exact .cons (h page List.mem_cons_self).free_align
      (ih fun page hpage => h page (List.mem_cons_of_mem _ hpage))

theorem forall₂_free_refl (pages : List MemoryPage) :
    List.Forall₂ (· ⊆ ·) (pages.map MemoryPage.free) (pages.map MemoryPage.free) :=
  List.forall₂_refl _

/-- **Padding** all pages. -/
theorem Valid.align (h : s.Valid) : Session.Valid
    { s with allocator := { s.allocator with
        memoryPages := s.allocator.memoryPages.map MemoryPage.align } } where
  sound := by
    intro p hp
    obtain ⟨page, hpage, rfl⟩ := List.mem_map.mp hp
    exact (h.sound page hpage).align
  carved := h.carved.shrink (forall₂_free_align h.sound)
  pages_granted := by
    intro p hp
    obtain ⟨page, hpage, rfl⟩ := List.mem_map.mp hp
    obtain ⟨g, hg, hsub⟩ := h.pages_granted page hpage
    exact ⟨g, hg, by rwa [page.align_extent]⟩
  slices_granted := h.slices_granted

/-- **Padding** the pages up to one that is going to be used. -/
theorem Valid.align_until (h : s.Valid) (hpages : s.allocator.memoryPages = pre ++ page :: post) :
    Session.Valid { s with allocator := { s.allocator with
      memoryPages := pre.map MemoryPage.align ++ page.align :: post } } := by
  obtain ⟨hsound, hcarved, hgranted, hslices⟩ := h
  rw [hpages] at hsound hcarved hgranted
  have hpre : ∀ p ∈ pre, p.Sound := fun p hp => hsound p (List.mem_append_left _ hp)
  have hmem : ∀ p ∈ pre.map MemoryPage.align ++ page.align :: post,
      ∃ p' ∈ pre ++ page :: post, p.extent = p'.extent ∧ (p'.Sound → p.Sound) := by
    intro p hp
    rcases List.mem_append.mp hp with hp | hp
    · obtain ⟨p', hp', rfl⟩ := List.mem_map.mp hp
      exact ⟨p', List.mem_append_left _ hp', p'.align_extent, fun h => h.align⟩
    · rcases List.mem_cons.mp hp with rfl | hp
      · exact ⟨page, List.mem_append_right _ List.mem_cons_self, page.align_extent,
          fun h => h.align⟩
      · exact ⟨p, List.mem_append_right _ (List.mem_cons_of_mem _ hp), rfl, id⟩
  refine ⟨fun p hp => ?_, hcarved.shrink ?_, fun p hp => ?_, hslices⟩
  · obtain ⟨p', hp', -, hs⟩ := hmem p hp
    exact hs (hsound p' hp')
  · rw [List.map_append, List.map_append, List.map_cons, List.map_cons]
    refine List.rel_append (forall₂_free_align hpre) (.cons ?_ (forall₂_free_refl post))
    exact (hsound page (List.mem_append_right _ List.mem_cons_self)).free_align
  · obtain ⟨p', hp', hext, -⟩ := hmem p hp
    rw [hext]
    exact hgranted p' hp'

/-- **A slice is cut off** a page with enough room. -/
theorem Valid.cut (h : s.Valid) (hpages : s.allocator.memoryPages = pre ++ page :: post)
    (hn : page.usedSize.toNat + n.toNat ≤ page.size.toNat) (isCodeCave : Bool) :
    Session.Valid ⟨{ s.allocator with memoryPages := pre ++ page.advance n :: post }, s.granted,
      ⟨page.currPos, n, isCodeCave⟩ :: s.slices⟩ := by
  obtain ⟨hsound, hcarved, hgranted, hslices⟩ := h
  rw [hpages] at hsound hcarved hgranted
  have hin : page ∈ pre ++ page :: post := List.mem_append_right _ List.mem_cons_self
  have hpage := hsound page hin
  obtain ⟨hbytes, hfree, hd⟩ := hpage.cut hn isCodeCave
  have hmem : ∀ p ∈ pre ++ page.advance n :: post, p = page.advance n
    ∨ p ∈ pre ++ page :: post := by
    intro p hp
    rcases List.mem_append.mp hp with hp | hp
    · exact Or.inr (List.mem_append_left _ hp)
    · exact (List.mem_cons.mp hp).imp id fun hp =>
        List.mem_append_right _ (List.mem_cons_of_mem _ hp)
  refine ⟨fun p hp => ?_, ?_, fun p hp => ?_, fun slice hslice => ?_⟩
  · exact (hmem p hp).elim (fun he => he ▸ hpage.advance hn) (hsound p)
  · rw [List.map_append, List.map_cons] at hcarved
    show Carved ((pre ++ page.advance n :: post).map _) _
    rw [List.map_append, List.map_cons, List.map_cons]
    exact hcarved.take hbytes hfree hd
  · rcases hmem p hp with rfl | hp
    · exact hgranted page hin
    · exact hgranted p hp
  · rcases List.mem_cons.mp hslice with rfl | hslice
    · obtain ⟨g, hg, hsub⟩ := hgranted page hin
      exact ⟨g, hg, (hbytes.trans page.free_subset_extent).trans hsub⟩
    · exact hslices slice hslice

/-- **A new page.** -/
theorem Valid.addPage (h : s.Valid) (hsound : page.Sound)
    (hd : ∀ g ∈ s.granted, Disjoint page.extent g) :
    Session.Valid ⟨s.allocator.addMemoryPage page, page.extent :: s.granted, s.slices⟩ where
  sound := fun p hp => (List.mem_append.mp hp).elim (h.sound p)
    (fun hp => List.mem_singleton.mp hp ▸ hsound)
  carved := by
    show Carved ((s.allocator.memoryPages ++ [page]).map MemoryPage.free) _
    rw [List.map_append, List.map_singleton]
    exact h.carved.grow fun x hx => (h.fresh hd x hx).mono_left page.free_subset_extent
  pages_granted := fun p hp => (List.mem_append.mp hp).elim
    (fun hp => (h.pages_granted p hp).imp fun _ hg => ⟨List.mem_cons_of_mem _ hg.1, hg.2⟩)
    (fun hp => ⟨_, List.mem_cons_self, List.mem_singleton.mp hp ▸ subset_rfl⟩)
  slices_granted := fun slice hslice =>
    (h.slices_granted slice hslice).imp fun _ hg => ⟨List.mem_cons_of_mem _ hg.1, hg.2⟩

/-- **What `ZzNewCodeSlice` does**: it cuts the slice off the first page with
room, or off a new one. -/
theorem newCodeSlice_spec (h : s.Valid) (hsize : pageSize.toNat % 4 = 0)
    (hp : s.Promised pageSize (.code n pagePtr)) :
    (∃ pre page post, s.allocator.memoryPages = pre ++ page :: post ∧ ¬ s.asksForPage n
        ∧ page.align.usedSize.toNat + n.toNat ≤ page.align.size.toNat
        ∧ s.allocator.newCodeSlice pageSize pagePtr n = (⟨page.align.currPos, n, false⟩,
          { s.allocator with
            memoryPages := pre.map MemoryPage.align ++ page.align.advance n :: post }))
      ∨ (s.asksForPage n ∧ (newMemoryPage pageSize pagePtr).Sound
        ∧ n.toNat ≤ pageSize.toNat
        ∧ s.allocator.newCodeSlice pageSize pagePtr n = (⟨pagePtr, n, false⟩,
          { s.allocator with memoryPages :=
              s.allocator.memoryPages.map MemoryPage.align }.addMemoryPage
            ((newMemoryPage pageSize pagePtr).advance n))) := by
  unfold asksForPage Allocator.newCodeSlice
  rcases newCodeSliceLoop_spec n s.allocator.memoryPages with
    ⟨pre, page, post, hpages, hroom, hloop⟩ | hloop
  · have hin : page ∈ s.allocator.memoryPages := by
      rw [hpages]
      exact List.mem_append_right _ List.mem_cons_self
    have hlt : n.toNat < (page.align.size - page.align.usedSize).toNat := hroom
    rw [(h.sound page hin).align.toNat_room] at hlt
    rw [hloop]
    exact Or.inl ⟨pre, page, post, hpages, Option.some_ne_none _, by omega, rfl⟩
  · obtain ⟨hne, haligned, hfits, -⟩ := hp.2 (congrArg Prod.fst hloop)
    have hsound := newMemoryPage_sound hsize hne haligned hfits
    have halign : (newMemoryPage pageSize pagePtr).align = newMemoryPage pageSize pagePtr :=
      MemoryPage.align_of_aligned hsound.base_aligned
    rw [hloop]
    dsimp only
    rw [halign]
    exact Or.inr ⟨rfl, hsound, hp.1, rfl⟩

/-- **Serving `ZzNewCodeSlice`** keeps the invariant. -/
theorem Valid.serve_code (h : s.Valid) (hsize : pageSize.toNat % 4 = 0)
    (hp : s.Promised pageSize (.code n pagePtr)) :
    (s.serve pageSize (.code n pagePtr)).Valid := by
  show Session.Valid ⟨(s.allocator.newCodeSlice pageSize pagePtr n).2,
    (if s.asksForPage n then [(newMemoryPage pageSize pagePtr).extent] else []) ++ s.granted,
    (s.allocator.newCodeSlice pageSize pagePtr n).1 :: s.slices⟩
  rcases newCodeSlice_spec h hsize hp with ⟨pre, page, post, hpages, hasks, hn, heq⟩
    | ⟨hasks, hsound, hn, heq⟩
  · rw [heq, if_neg hasks]
    exact (h.align_until hpages).cut rfl hn false
  · have hn' : (newMemoryPage pageSize pagePtr).usedSize.toNat + n.toNat
        ≤ (newMemoryPage pageSize pagePtr).size.toNat := by
      show 0 + n.toNat ≤ pageSize.toNat
      rwa [Nat.zero_add]
    have hpage := h.align.addPage hsound (hp.2 hasks).2.2.2
    have hlast : ({ s.allocator with memoryPages := s.allocator.memoryPages.map MemoryPage.align
        }.addMemoryPage (newMemoryPage pageSize pagePtr)).memoryPages
      = s.allocator.memoryPages.map MemoryPage.align ++ [newMemoryPage pageSize pagePtr] := rfl
    have hcut := hpage.cut hlast hn' false
    rw [heq, if_pos hasks]
    exact ⟨hcut.sound, hcut.carved, hcut.pages_granted, hcut.slices_granted⟩

/-- **The slice is aligned and lies in a page**, and the pages are still where
they were. -/
theorem Paged.serve_code (h : s.Valid) (hpaged : s.Paged) (hsize : pageSize.toNat % 4 = 0)
    (hp : s.Promised pageSize (.code n pagePtr)) :
    (s.serve pageSize (.code n pagePtr)).Paged := by
  have hslice : (s.allocator.newCodeSlice pageSize pagePtr n).1.data.toNat % 4 = 0
      ∧ ∃ page ∈ (s.allocator.newCodeSlice pageSize pagePtr n).2.memoryPages,
        (s.allocator.newCodeSlice pageSize pagePtr n).1.bytes ⊆ page.extent := by
    rcases newCodeSlice_spec h hsize hp with ⟨pre, page, post, hpages, -, hn, heq⟩
      | ⟨-, hsound, hn, heq⟩
    · have hin : page ∈ s.allocator.memoryPages := by
        rw [hpages]
        exact List.mem_append_right _ List.mem_cons_self
      rw [heq]
      refine ⟨(h.sound page hin).align_used.2.2.2, page.align.advance n,
        List.mem_append_right _ List.mem_cons_self, ?_⟩
      exact ((h.sound page hin).align.cut hn false).1.trans page.align.free_subset_extent
    · have hn' : (newMemoryPage pageSize pagePtr).usedSize.toNat + n.toNat
          ≤ (newMemoryPage pageSize pagePtr).size.toNat := by
        show 0 + n.toNat ≤ pageSize.toNat
        rwa [Nat.zero_add]
      rw [heq]
      refine ⟨hsound.base_aligned, (newMemoryPage pageSize pagePtr).advance n,
        List.mem_append_right _ List.mem_cons_self, ?_⟩
      exact (hsound.cut hn' false).1.trans (newMemoryPage pageSize pagePtr).free_subset_extent
  have hkept : ∀ page ∈ s.allocator.memoryPages,
      ∃ page' ∈ (s.allocator.newCodeSlice pageSize pagePtr n).2.memoryPages,
        page'.extent = page.extent := by
    intro p hp'
    rcases newCodeSlice_spec h hsize hp with ⟨pre, page, post, hpages, -, -, heq⟩ | ⟨-, -, -, heq⟩
    · rw [heq]
      rw [hpages] at hp'
      rcases List.mem_append.mp hp' with hp' | hp'
      · exact ⟨p.align, List.mem_append_left _ (List.mem_map_of_mem hp'), p.align_extent⟩
      · rcases List.mem_cons.mp hp' with rfl | hp'
        · exact ⟨_, List.mem_append_right _ List.mem_cons_self, p.align_extent⟩
        · exact ⟨p, List.mem_append_right _ (List.mem_cons_of_mem _ hp'), rfl⟩
    · rw [heq]
      exact ⟨p.align, List.mem_append_left _ (List.mem_map_of_mem hp'), p.align_extent⟩
  intro slice hmem
  rcases List.mem_cons.mp hmem with rfl | hmem
  · exact hslice
  · obtain ⟨haligned, page, hpage, hsub⟩ := hpaged slice hmem
    obtain ⟨page', hpage', hext⟩ := hkept page hpage
    exact ⟨haligned, page', hpage', hext ▸ hsub⟩

end Valid

/-! ## Slices anywhere, over a run -/

section Runs

variable {pageSize : Word} {requests : List Request}

theorem run_concat (pageSize : Word) (requests : List Request) (request : Request) :
    run pageSize (requests ++ [request]) = (run pageSize requests).serve pageSize request := by
  unfold run
  rw [List.foldl_append]
  rfl

theorem along_nil (pageSize : Word) (Q : Session → Request → Prop) : Along pageSize Q [] := by
  intro before request h
  exact absurd (List.prefix_nil.mp h) (List.append_ne_nil_of_right_ne_nil _ (List.cons_ne_nil _ _))

/-- One request more. -/
theorem along_concat {Q : Session → Request → Prop} {request : Request} :
    Along pageSize Q (requests ++ [request])
      ↔ Along pageSize Q requests ∧ Q (run pageSize requests) request := by
  constructor
  · intro h
    exact ⟨fun before r hr => h before r (hr.trans (List.prefix_append _ _)),
      h requests request List.prefix_rfl⟩
  · rintro ⟨h, hlast⟩ before r hr
    rcases List.prefix_concat_iff.mp hr with heq | hr
    · obtain ⟨rfl, hcons⟩ := List.append_inj' heq rfl
      obtain rfl := List.head_eq_of_cons_eq hcons
      exact hlast
    · exact h before r hr

/-- **A run of `ZzNewCodeSlice`.** -/
theorem run_code (hsize : pageSize.toNat % 4 = 0)
    (hcode : ∀ request ∈ requests, ∃ n pagePtr, request = .code n pagePtr)
    (hgranted : Granted pageSize requests) :
    (run pageSize requests).Valid ∧ (run pageSize requests).Paged := by
  induction requests using List.reverseRecOn with
  | nil => exact ⟨valid_initial, nofun⟩
  | append_singleton requests request ih =>
    obtain ⟨hbefore, hlast⟩ := along_concat.mp hgranted
    obtain ⟨n, pagePtr, rfl⟩ := hcode request (List.mem_append_right _ List.mem_cons_self)
    obtain ⟨hvalid, hpaged⟩ := ih (fun r hr => hcode r (List.mem_append_left _ hr)) hbefore
    rw [run_concat]
    exact ⟨hvalid.serve_code hsize hlast, hpaged.serve_code hvalid hsize hlast⟩

/-- **Code slices are aligned, in pages and apart from each other.** For every
sequence of calls of `ZzNewCodeSlice`, with sizes up to the page size and a
system that answers with aligned pages apart from those before: every slice
begins at a multiple of four and lies in a page of the allocator, no two slices
overlap, and every page is used exactly up to its position and no further than
its size. -/
theorem codeSlices_disjoint (hsize : pageSize.toNat % 4 = 0)
    (hcode : ∀ request ∈ requests, ∃ n pagePtr, request = .code n pagePtr)
    (hgranted : Granted pageSize requests) :
    (∀ slice ∈ (run pageSize requests).slices, slice.data.toNat % 4 = 0
        ∧ ∃ page ∈ (run pageSize requests).allocator.memoryPages, slice.bytes ⊆ page.extent)
      ∧ (run pageSize requests).slices.Pairwise (fun slice slice' =>
        Disjoint slice.bytes slice'.bytes)
      ∧ ∀ page ∈ (run pageSize requests).allocator.memoryPages,
        page.usedSize = page.currPos - page.base ∧ page.usedSize ≤ page.size := by
  obtain ⟨hvalid, hpaged⟩ := run_code hsize hcode hgranted
  refine ⟨hpaged, List.pairwise_map.mp hvalid.carved.given_pairwise, fun page hpage => ?_⟩
  have hsound := hvalid.sound page hpage
  refine ⟨?_, BitVec.le_def.mpr hsound.used_le⟩
  rw [hsound.currPos_eq, BitVec.add_comm, BitVec.add_sub_cancel]

/-- Two slices of which the second does not fit behind the first. -/
theorem codeSlices_disjoint_pages :
    (run 4096#32 [.code 4090#32 0x10000#32, .code 8#32 0x20000#32]).slices
        = [⟨0x20000#32, 8#32, false⟩, ⟨0x10000#32, 4090#32, false⟩]
      ∧ (run 4096#32 [.code 4090#32 0x10000#32, .code 8#32 0x20000#32]).slices.Pairwise
        (fun slice slice' => Disjoint slice.bytes slice'.bytes) := by
  refine ⟨by decide, (codeSlices_disjoint (by decide) ?_ ?_).2.1⟩
  · intro request h
    rcases List.mem_cons.mp h with rfl | h
    · exact ⟨_, _, rfl⟩
    · exact ⟨_, _, List.mem_singleton.mp h⟩
  · refine (@along_concat _ [.code 4090#32 0x10000#32] _ _).mpr
      ⟨(@along_concat _ [] _ _).mpr ⟨along_nil _ _, by decide, fun _ =>
        ⟨by decide, by decide, by decide, nofun⟩⟩, by decide, fun _ =>
        ⟨by decide, by decide, by decide, fun g hg => ?_⟩⟩
    obtain rfl := List.mem_singleton.mp hg
    rw [Set.disjoint_left]
    intro a ha ha'
    exact absurd (Nat.lt_of_lt_of_le ha'.2 (by decide : 0x10000 + 4096 ≤ 0x20000))
      (Nat.not_lt.mpr ha.1)

end Runs

end Session

end HookZz
