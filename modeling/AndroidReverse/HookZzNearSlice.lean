import AndroidReverse.HookZzAllocator

/-!
# Slices in reach of an address

`ZzNewNearCodeSlice`, together with `ZzNewCodeSlice`. The search goes by where
a page is: in front of the range, where it may be split, in front of the
address, or behind it. What it looks at is mostly enough for a slice within the
page. It is not enough for a slice within the range: in front of the address
nothing is compared with the end of the range, behind it the comparison is the
wrong way round, and nowhere is there any padding.

`NearSafe` says when a slice comes out right all the same. It is a condition on
the page the search stops at, and a run returns nothing but right slices if and
only if it holds whenever one is asked for (`nearSlices_correct_iff`).
-/

namespace HookZz

open Arm Carving

/-! ## Where a page is -/

namespace MemoryPage

/-- **A page to cut the slice out of**: the place of the slice is a multiple of
four, and it ends within the range. -/
def NearSafe (page : MemoryPage) (address redirectRangeSize codeSliceSize : Word) : Prop :=
  match page.nearChoice address redirectRangeSize codeSliceSize with
  | .skip => True
  | .take => page.currPos.toNat % 4 = 0
    ∧ page.currPos.toNat + codeSliceSize.toNat ≤ address.toNat + redirectRangeSize.toNat
  | .split splitAddr => splitAddr.toNat % 4 = 0
    ∧ splitAddr.toNat + codeSliceSize.toNat ≤ address.toNat + redirectRangeSize.toNat

section Choice

variable {page : MemoryPage} {address range n splitAddr : Word}

/-- The differences and sums of addresses, which may wrap around. -/
theorem toNat_sub_range (address range : Word) :
    (address - range).toNat = if range.toNat ≤ address.toNat then address.toNat - range.toNat
      else address.toNat + 2 ^ 32 - range.toNat := by
  have ha := address.isLt
  have hr := range.isLt
  rw [BitVec.toNat_sub]
  split <;> omega

/-- The end of a page behind which there are addresses. -/
theorem Sound.end_toNat (h : page.Sound) {a : Word} (ha : a < page.base + page.size) :
    (page.base + page.size).toNat = page.base.toNat + page.size.toNat
      ∧ page.base.toNat + page.size.toNat < 2 ^ 32 := by
  have hfits := h.fits
  rw [BitVec.lt_def, BitVec.toNat_add] at ha
  rw [BitVec.toNat_add]
  omega

theorem Sound.currPos_of_end (h : page.Sound)
    (hend : (page.base + page.size).toNat = page.base.toNat + page.size.toNat
      ∧ page.base.toNat + page.size.toNat < 2 ^ 32) :
    page.currPos.toNat = page.base.toNat + page.usedSize.toNat := by
  have hused := h.used_le
  rw [h.currPos_eq, BitVec.toNat_add]
  exact Nat.mod_eq_of_lt (by omega)

/-- **A page that is taken as it is** has enough room if the slice ends within
the range, and is not too far in front of the address. -/
theorem Sound.take (h : page.Sound) (hc : page.nearChoice address range n = .take)
    (hreach : page.currPos.toNat + n.toNat ≤ address.toNat + range.toNat) :
    page.usedSize.toNat + n.toNat ≤ page.size.toNat := by
  have hroom := h.toNat_room
  have hfits := h.fits
  have hused := h.used_le
  have hcut : ¬ page.size - page.usedSize < n
    → page.usedSize.toNat + n.toNat ≤ page.size.toNat := by
    intro hge
    rw [BitVec.lt_def, hroom] at hge
    omega
  unfold nearChoice at hc
  split_ifs at hc with hbase hbelow hnear hsize hmiddle hroom' hover hsize hinside hlimit
  · exact hcut hsize
  · exact hcut hsize
  · -- the comparison with the end of the range is the wrong way round, but the
    -- slice is known to end there
    have ha := address.isLt
    have hr := range.isLt
    have hend := h.end_toNat hinside.2
    have hpos := h.currPos_of_end hend
    rw [BitVec.lt_def] at hbelow
    have hlow : page.currPos.toNat < (address + range).toNat := hinside.1
    have hhigh : (address + range).toNat < (page.base + page.size).toNat := hinside.2
    rw [BitVec.toNat_add] at hlow hhigh
    omega

theorem take_reach (hc : page.nearChoice address range n = .take) :
    address.toNat ≤ page.currPos.toNat + range.toNat := by
  have ha := address.isLt
  have hsub := toNat_sub_range address range
  unfold nearChoice at hc
  split_ifs at hc with hbase hbelow hnear hsize hmiddle hroom' hover hsize hinside hlimit
  · rw [BitVec.lt_def] at hbelow hnear
    split_ifs at hsub <;> omega
  · rw [BitVec.lt_def] at hbelow
    omega
  · rw [BitVec.lt_def] at hbelow
    omega

/-- **A page that is split** is split behind its position, at the beginning of
the range, and there is enough room behind that. -/
theorem Sound.split (h : page.Sound) (hc : page.nearChoice address range n = .split splitAddr) :
    splitAddr = address - range ∧ page.base.toNat + page.usedSize.toNat < splitAddr.toNat
      ∧ splitAddr.toNat + n.toNat ≤ page.base.toNat + page.size.toNat
      ∧ splitAddr.toNat < page.base.toNat + page.size.toNat
      ∧ page.base.toNat + page.size.toNat < 2 ^ 32 := by
  unfold nearChoice at hc
  split_ifs at hc with hbase hbelow hnear hsize hmiddle hroom
  obtain rfl := NearChoice.split.inj hc
  have hend := h.end_toNat hmiddle.2
  have hpos := h.currPos_of_end hend
  have hlow : page.currPos.toNat < (address - range).toNat := hmiddle.1
  have hhigh : (address - range).toNat < (page.base + page.size).toNat := hmiddle.2
  have hleft : (page.base + page.size - (address - range)).toNat
      = (page.base + page.size).toNat - (address - range).toNat :=
    BitVec.toNat_sub_of_le (BitVec.le_def.mpr (Nat.le_of_lt hhigh))
  rw [BitVec.lt_def, hleft] at hroom
  exact ⟨rfl, by omega, by omega, by omega, hend.2⟩

theorem split_reach (hc : page.nearChoice address range n = .split splitAddr) :
    address.toNat ≤ splitAddr.toNat + range.toNat := by
  have hsub := toNat_sub_range address range
  unfold nearChoice at hc
  split_ifs at hc
  obtain rfl := NearChoice.split.inj hc
  split_ifs at hsub <;> omega

end Choice

/-! ## Splitting -/

section Split

variable {page : MemoryPage} {splitAddr : Word}

theorem Sound.toNat_before (h : page.Sound) (hlow : page.base.toNat + page.usedSize.toNat < splitAddr.toNat) :
    (page.before splitAddr).size.toNat = splitAddr.toNat - page.base.toNat := by
  have := h.base_aligned
  exact BitVec.toNat_sub_of_le (BitVec.le_def.mpr (by omega))

theorem Sound.toNat_behind (h : page.Sound)
    (hhigh : splitAddr.toNat < page.base.toNat + page.size.toNat)
    (hend : page.base.toNat + page.size.toNat < 2 ^ 32) :
    (page.behind splitAddr).size.toNat = page.base.toNat + page.size.toNat - splitAddr.toNat := by
  have := h.base_aligned
  have hsum : (page.base + page.size).toNat = page.base.toNat + page.size.toNat := by
    rw [BitVec.toNat_add]
    exact Nat.mod_eq_of_lt hend
  show (page.base + page.size - splitAddr).toNat = _
  rw [BitVec.toNat_sub_of_le (BitVec.le_def.mpr (by omega)), hsum]

/-- **Both parts of a split page are sound**, if it is split at a word boundary
behind its position. -/
theorem Sound.split_sound (h : page.Sound)
    (hlow : page.base.toNat + page.usedSize.toNat < splitAddr.toNat)
    (hhigh : splitAddr.toNat < page.base.toNat + page.size.toNat)
    (hend : page.base.toNat + page.size.toNat < 2 ^ 32) (haligned : splitAddr.toNat % 4 = 0) :
    (page.before splitAddr).Sound ∧ (page.behind splitAddr).Sound := by
  have hbase := h.base_aligned
  have hsize := h.size_aligned
  have hbefore := h.toNat_before hlow
  have hbehind := h.toNat_behind hhigh hend
  refine ⟨⟨h.base_ne, h.not_cave, h.currPos_eq, ?_, hbase, ?_, ?_⟩,
    ⟨?_, rfl, ?_, ?_, haligned, ?_, ?_⟩⟩
  · rw [hbefore]
    show page.usedSize.toNat ≤ _
    omega
  · rw [hbefore]
    omega
  · rw [hbefore]
    show page.base.toNat + _ ≤ _
    omega
  · intro hzero
    have hz : splitAddr.toNat = 0 := congrArg BitVec.toNat hzero
    omega
  · exact (BitVec.add_zero splitAddr).symm
  · exact Nat.zero_le _
  · rw [hbehind]
    omega
  · rw [hbehind]
    show splitAddr.toNat + _ ≤ _
    omega

/-- **Splitting** a page loses nothing and doubles nothing. -/
theorem Sound.split_free (h : page.Sound)
    (hlow : page.base.toNat + page.usedSize.toNat < splitAddr.toNat)
    (hhigh : splitAddr.toNat < page.base.toNat + page.size.toNat)
    (hend : page.base.toNat + page.size.toNat < 2 ^ 32) :
    (page.before splitAddr).free ⊆ page.free ∧ (page.behind splitAddr).free ⊆ page.free
      ∧ Disjoint (page.before splitAddr).free (page.behind splitAddr).free
      ∧ (page.before splitAddr).extent ⊆ page.extent
      ∧ (page.behind splitAddr).extent ⊆ page.extent := by
  have hbefore : (page.before splitAddr).free
      = Set.Ico (page.base.toNat + page.usedSize.toNat) splitAddr.toNat := by
    unfold free
    rw [h.toNat_before hlow]
    show Set.Ico (page.base.toNat + page.usedSize.toNat) (page.base.toNat + _) = _
    rw [Nat.add_sub_cancel' (by omega)]
  have hbehind : (page.behind splitAddr).free
      = Set.Ico splitAddr.toNat (page.base.toNat + page.size.toNat) := by
    unfold free
    rw [h.toNat_behind hhigh hend]
    show Set.Ico (splitAddr.toNat + 0) (splitAddr.toNat + _) = _
    rw [Nat.add_zero, Nat.add_sub_cancel' (Nat.le_of_lt hhigh)]
  have hextent : (page.behind splitAddr).extent = (page.behind splitAddr).free := by
    unfold extent free
    rfl
  have hsub : (page.behind splitAddr).free ⊆ page.free := by
    rw [hbehind]
    exact Set.Ico_subset_Ico_left (Nat.le_of_lt hlow)
  refine ⟨?_, hsub, ?_, ?_, ?_⟩
  · rw [hbefore]
    exact Set.Ico_subset_Ico_right (Nat.le_of_lt hhigh)
  · rw [hbefore, hbehind, Set.disjoint_left]
    exact fun a ha ha' => absurd ha.2 (Nat.not_lt.mpr ha'.1)
  · unfold extent
    rw [h.toNat_before hlow]
    refine Set.Ico_subset_Ico_right ?_
    show page.base.toNat + _ ≤ _
    omega
  · rw [hextent]
    exact hsub.trans page.free_subset_extent

end Split

end MemoryPage

/-! ## The search -/

/-- Where the search stops. -/
def nearPage (address redirectRangeSize codeSliceSize : Word) (pages : List MemoryPage) :
    Option MemoryPage :=
  pages.find? fun page => page.nearChoice address redirectRangeSize codeSliceSize != .skip

section Search

variable {address range n splitAddr : Word} {pages : List MemoryPage} {page : MemoryPage}

theorem newNearCodeSliceLoop_none (h : nearPage address range n pages = none) :
    newNearCodeSliceLoop address range n pages = none := by
  induction pages with
  | nil => rfl
  | cons page pages ih =>
    unfold nearPage at h ih
    rw [List.find?_cons] at h
    rw [newNearCodeSliceLoop]
    cases hc : page.nearChoice address range n with
    | skip =>
      rw [hc] at h
      rw [ih h]
      rfl
    | take =>
      rw [hc] at h
      cases h
    | split a =>
      rw [hc] at h
      cases h

/-- **The loop** cuts the slice off the page it stops at. -/
theorem newNearCodeSliceLoop_some (h : nearPage address range n pages = some page) :
    ∃ pre post, pages = pre ++ page :: post
      ∧ ((page.nearChoice address range n = .take
          ∧ newNearCodeSliceLoop address range n pages
            = some (⟨page.currPos, n, page.isCodeCave⟩, pre ++ page.advance n :: post, none))
        ∨ ∃ splitAddr, page.nearChoice address range n = .split splitAddr
          ∧ newNearCodeSliceLoop address range n pages
            = some (⟨splitAddr, n, false⟩, pre ++ page.before splitAddr :: post,
              some ((page.behind splitAddr).advance n))) := by
  induction pages with
  | nil => cases h
  | cons p pages ih =>
    unfold nearPage at h ih
    rw [List.find?_cons] at h
    rw [newNearCodeSliceLoop]
    cases hc : p.nearChoice address range n with
    | skip =>
      rw [hc] at h
      obtain ⟨pre, post, rfl, hloop⟩ := ih h
      refine ⟨p :: pre, post, rfl, hloop.imp (And.imp_right fun hl => ?_) ?_⟩
      · rw [hl]
        rfl
      · rintro ⟨splitAddr, hs, hl⟩
        refine ⟨splitAddr, hs, ?_⟩
        rw [hl]
        rfl
    | take =>
      rw [hc] at h
      obtain rfl := Option.some_inj.mp h
      exact ⟨[], pages, rfl, Or.inl ⟨hc, rfl⟩⟩
    | split a =>
      rw [hc] at h
      obtain rfl := Option.some_inj.mp h
      exact ⟨[], pages, rfl, Or.inr ⟨a, hc, rfl⟩⟩

end Search

/-! ## Sessions -/

namespace Session

/-- **A request for a slice in reach of an address that comes out right**: the
page the search stops at is one to cut the slice out of, and if there is none,
the cave is at a multiple of four. -/
def NearSafe (s : Session) : Request → Prop
  | .code _ _ => True
  | .near address redirectRangeSize codeSliceSize cavePtr =>
    match nearPage address redirectRangeSize codeSliceSize s.allocator.memoryPages with
    | some page => page.NearSafe address redirectRangeSize codeSliceSize
    | none => ∀ c, cavePtr = some c → c.toNat % 4 = 0

/-- **A right slice in reach of an address**: within the range, aligned, inside
its page, and apart from every slice before. -/
structure NearCorrect (pageSize : Word) (s : Session)
    (address redirectRangeSize codeSliceSize : Word) (cavePtr : Option Word) (slice : CodeSlice) :
    Prop where
  from_start : address.toNat ≤ slice.data.toNat + redirectRangeSize.toNat
  to_end : slice.data.toNat + slice.size.toNat ≤ address.toNat + redirectRangeSize.toNat
  aligned : slice.data.toNat % 4 = 0
  in_page : ∃ page, (page ∈ (s.next pageSize
        (.near address redirectRangeSize codeSliceSize cavePtr)).memoryPages
      ∨ ∃ c, cavePtr = some c ∧ page = newNearCodeCave c codeSliceSize)
    ∧ slice.bytes ⊆ page.extent
  apart : ∀ slice' ∈ s.slices, Disjoint slice.bytes slice'.bytes

/-- Whether the slice a request is answered with is right, if the request is for
one in reach of an address. -/
def AnsweredRight (pageSize : Word) (s : Session) : Request → Prop
  | .code _ _ => True
  | .near address redirectRangeSize codeSliceSize cavePtr => ∀ slice,
    s.answer pageSize (.near address redirectRangeSize codeSliceSize cavePtr) = some slice →
      NearCorrect pageSize s address redirectRangeSize codeSliceSize cavePtr slice

section Near

variable {s : Session} {pageSize address range n : Word} {cavePtr : Option Word}
  {page : MemoryPage} {pre post : List MemoryPage}

/-- What the three outcomes of the search are. -/
theorem newNearCodeSlice_take (cavePtr : Option Word)
    (hloop : newNearCodeSliceLoop address range n s.allocator.memoryPages
      = some (⟨page.currPos, n, page.isCodeCave⟩, pre ++ page.advance n :: post, none)) :
    s.allocator.newNearCodeSlice address range n cavePtr
      = (some ⟨page.currPos, n, page.isCodeCave⟩,
        { s.allocator with memoryPages := pre ++ page.advance n :: post }) := by
  unfold Allocator.newNearCodeSlice
  rw [hloop]

theorem newNearCodeSlice_split {splitAddr : Word} (cavePtr : Option Word)
    (hloop : newNearCodeSliceLoop address range n s.allocator.memoryPages
      = some (⟨splitAddr, n, false⟩, pre ++ page.before splitAddr :: post,
        some ((page.behind splitAddr).advance n))) :
    s.allocator.newNearCodeSlice address range n cavePtr
      = (some ⟨splitAddr, n, false⟩,
        { s.allocator with memoryPages := pre ++ page.before splitAddr :: post }.addMemoryPage
          ((page.behind splitAddr).advance n)) := by
  unfold Allocator.newNearCodeSlice
  rw [hloop]

theorem newNearCodeSlice_cave (cavePtr : Option Word)
    (hloop : newNearCodeSliceLoop address range n s.allocator.memoryPages = none) :
    s.allocator.newNearCodeSlice address range n cavePtr
      = (cavePtr.map fun cavePtr => ⟨cavePtr, n, true⟩, s.allocator) := by
  unfold Allocator.newNearCodeSlice
  rw [hloop]
  rfl

/-- A slice out of a free part is apart from all others. -/
theorem Valid.apart (h : s.Valid) (hpage : page ∈ s.allocator.memoryPages) {slice : CodeSlice}
    (hsub : slice.bytes ⊆ page.free) : ∀ slice' ∈ s.slices, Disjoint slice.bytes slice'.bytes :=
  fun _ hslice' => (h.carved.disjoint (List.mem_map_of_mem hpage)
    (List.mem_map_of_mem hslice')).mono_left hsub

/-- **Splitting a page** keeps the invariant. -/
theorem Valid.split (h : s.Valid) (hpages : s.allocator.memoryPages = pre ++ page :: post)
    {splitAddr : Word} (hlow : page.base.toNat + page.usedSize.toNat < splitAddr.toNat)
    (hhigh : splitAddr.toNat < page.base.toNat + page.size.toNat)
    (hend : page.base.toNat + page.size.toNat < 2 ^ 32) (haligned : splitAddr.toNat % 4 = 0) :
    Session.Valid ⟨{ s.allocator with memoryPages := pre ++ page.before splitAddr :: post
        }.addMemoryPage (page.behind splitAddr), s.granted, s.slices⟩ := by
  obtain ⟨hsound, hcarved, hgranted, hslices⟩ := h
  rw [hpages] at hsound hcarved hgranted
  have hin : page ∈ pre ++ page :: post := List.mem_append_right _ List.mem_cons_self
  obtain ⟨hbefore, hbehind⟩ := (hsound page hin).split_sound hlow hhigh hend haligned
  obtain ⟨hfree, hfree', hd, hext, hext'⟩ := (hsound page hin).split_free hlow hhigh hend
  have hmem : ∀ p ∈ pre ++ page.before splitAddr :: post ++ [page.behind splitAddr],
      p = page.before splitAddr ∨ p = page.behind splitAddr ∨ p ∈ pre ++ page :: post := by
    intro p hp
    rcases List.mem_append.mp hp with hp | hp
    · rcases List.mem_append.mp hp with hp | hp
      · exact Or.inr (Or.inr (List.mem_append_left _ hp))
      · exact (List.mem_cons.mp hp).imp id fun hp =>
          Or.inr (List.mem_append_right _ (List.mem_cons_of_mem _ hp))
    · exact Or.inr (Or.inl (List.mem_singleton.mp hp))
  refine ⟨fun p hp => ?_, ?_, fun p hp => ?_, hslices⟩
  · rcases hmem p hp with rfl | rfl | hp
    · exact hbefore
    · exact hbehind
    · exact hsound p hp
  · rw [List.map_append, List.map_cons] at hcarved
    show Carved ((pre ++ page.before splitAddr :: post ++ [page.behind splitAddr]).map _) _
    rw [List.map_append, List.map_append, List.map_cons, List.map_singleton]
    exact hcarved.split hfree hfree' hd
  · obtain ⟨g, hg, hsub⟩ := hgranted page hin
    rcases hmem p hp with rfl | rfl | hp
    · exact ⟨g, hg, hext.trans hsub⟩
    · exact ⟨g, hg, hext'.trans hsub⟩
    · exact hgranted p hp

/-- The answer is right if the slice that is found is. -/
theorem answeredRight_iff_of_found {slice : CodeSlice} {allocator : Allocator}
    (hslice : s.allocator.newNearCodeSlice address range n cavePtr = (some slice, allocator)) :
    s.AnsweredRight pageSize (.near address range n cavePtr)
      ↔ s.NearCorrect pageSize address range n cavePtr slice := by
  have hanswer : s.answer pageSize (.near address range n cavePtr) = some slice :=
    congrArg Prod.fst hslice
  constructor
  · intro hright
    exact hright slice hanswer
  · intro hcorrect slice' ha
    obtain rfl := Option.some.inj (hanswer.symm.trans ha)
    exact hcorrect

/-- **A request for which a page is found** is not granted anything. -/
theorem serve_near_of_found {slice : CodeSlice} {allocator : Allocator}
    (hslice : s.allocator.newNearCodeSlice address range n cavePtr = (some slice, allocator))
    (hasks : ¬ s.asksForCave address range n) :
    s.serve pageSize (.near address range n cavePtr)
      = ⟨allocator, s.granted, slice :: s.slices⟩ := by
  show (⟨(s.allocator.newNearCodeSlice address range n cavePtr).2,
    (if s.asksForCave address range n then _ else []) ++ s.granted,
    (s.allocator.newNearCodeSlice address range n cavePtr).1.toList ++ s.slices⟩ : Session) = _
  rw [hslice, if_neg hasks]
  rfl

/-- A page that is taken as it is. -/
theorem Valid.near_take (h : s.Valid) (hpages : s.allocator.memoryPages = pre ++ page :: post)
    (hc : page.nearChoice address range n = .take)
    (hloop : newNearCodeSliceLoop address range n s.allocator.memoryPages
      = some (⟨page.currPos, n, page.isCodeCave⟩, pre ++ page.advance n :: post, none)) :
    (s.AnsweredRight pageSize (.near address range n cavePtr) ↔ page.NearSafe address range n)
      ∧ (page.NearSafe address range n →
        (s.serve pageSize (.near address range n cavePtr)).Valid) := by
  have hin : page ∈ s.allocator.memoryPages := by
    rw [hpages]
    exact List.mem_append_right _ List.mem_cons_self
  have hasks : ¬ s.asksForCave address range n := by
    unfold asksForCave
    rw [hloop]
    exact Option.some_ne_none _
  have hslice := newNearCodeSlice_take cavePtr hloop
  unfold MemoryPage.NearSafe
  rw [hc, answeredRight_iff_of_found hslice, serve_near_of_found hslice hasks]
  refine ⟨⟨fun hcorrect => ⟨hcorrect.aligned, hcorrect.to_end⟩, fun hsafe => ?_⟩, fun hsafe => ?_⟩
  · have hroom := (h.sound page hin).take hc hsafe.2
    have hcut := (h.sound page hin).cut hroom page.isCodeCave
    refine ⟨MemoryPage.take_reach hc, hsafe.2, hsafe.1, ⟨page.advance n, Or.inl ?_, ?_⟩, ?_⟩
    · show page.advance n ∈ (s.allocator.newNearCodeSlice address range n cavePtr).2.memoryPages
      rw [hslice]
      exact List.mem_append_right _ List.mem_cons_self
    · exact hcut.1.trans page.free_subset_extent
    · exact h.apart hin hcut.1
  · exact h.cut hpages ((h.sound page hin).take hc hsafe.2) page.isCodeCave

/-- A page that is split. -/
theorem Valid.near_split (h : s.Valid) (hpages : s.allocator.memoryPages = pre ++ page :: post)
    {splitAddr : Word} (hc : page.nearChoice address range n = .split splitAddr)
    (hloop : newNearCodeSliceLoop address range n s.allocator.memoryPages
      = some (⟨splitAddr, n, false⟩, pre ++ page.before splitAddr :: post,
        some ((page.behind splitAddr).advance n))) :
    (s.AnsweredRight pageSize (.near address range n cavePtr) ↔ page.NearSafe address range n)
      ∧ (page.NearSafe address range n →
        (s.serve pageSize (.near address range n cavePtr)).Valid) := by
  have hin : page ∈ s.allocator.memoryPages := by
    rw [hpages]
    exact List.mem_append_right _ List.mem_cons_self
  have hasks : ¬ s.asksForCave address range n := by
    unfold asksForCave
    rw [hloop]
    exact Option.some_ne_none _
  have hslice := newNearCodeSlice_split cavePtr hloop
  obtain ⟨-, hlow, hroom, hhigh, hend⟩ := (h.sound page hin).split hc
  have hn : (page.behind splitAddr).usedSize.toNat + n.toNat
      ≤ (page.behind splitAddr).size.toNat := by
    rw [(h.sound page hin).toNat_behind hhigh hend]
    show 0 + n.toNat ≤ _
    omega
  unfold MemoryPage.NearSafe
  rw [hc, answeredRight_iff_of_found hslice, serve_near_of_found hslice hasks]
  refine ⟨⟨fun hcorrect => ⟨hcorrect.aligned, hcorrect.to_end⟩, fun hsafe => ?_⟩, fun hsafe => ?_⟩
  · have hsound := ((h.sound page hin).split_sound hlow hhigh hend hsafe.1).2
    have hcut := hsound.cut hn false
    refine ⟨MemoryPage.split_reach hc, hsafe.2, hsafe.1,
      ⟨(page.behind splitAddr).advance n, Or.inl ?_, ?_⟩, ?_⟩
    · show _ ∈ (s.allocator.newNearCodeSlice address range n cavePtr).2.memoryPages
      rw [hslice]
      exact List.mem_append_right _ List.mem_cons_self
    · exact hcut.1.trans (page.behind splitAddr).free_subset_extent
    · exact h.apart hin (hcut.1.trans ((h.sound page hin).split_free hlow hhigh hend).2.1)
  · have hlast : ({ s.allocator with memoryPages := pre ++ page.before splitAddr :: post
          }.addMemoryPage (page.behind splitAddr)).memoryPages
        = (pre ++ page.before splitAddr :: post) ++ [page.behind splitAddr] := rfl
    have hcut := (h.split hpages hlow hhigh hend hsafe.1).cut hlast hn false
    exact ⟨hcut.sound, hcut.carved, hcut.pages_granted, hcut.slices_granted⟩

/-- No page at all. -/
theorem Valid.near_cave (h : s.Valid)
    (hp : s.Promised pageSize (.near address range n cavePtr))
    (hloop : newNearCodeSliceLoop address range n s.allocator.memoryPages = none) :
    (s.AnsweredRight pageSize (.near address range n cavePtr)
        ↔ ∀ c, cavePtr = some c → c.toNat % 4 = 0)
      ∧ (s.serve pageSize (.near address range n cavePtr)).Valid := by
  have hslice := newNearCodeSlice_cave cavePtr hloop
  have hasks : s.asksForCave address range n := hloop
  have hpromise := hp hasks
  refine ⟨⟨fun hright c hcave => ?_, fun hsafe slice ha => ?_⟩, ?_⟩
  · have ha : (s.allocator.newNearCodeSlice address range n cavePtr).1 = some ⟨c, n, true⟩ := by
      rw [hslice, hcave]
      rfl
    exact (hright _ ha).aligned
  · obtain ⟨c, hcave, rfl⟩ := Option.map_eq_some_iff.mp
      ((congrArg Prod.fst hslice).symm.trans ha)
    obtain ⟨hstart, hend, hd⟩ := hpromise c hcave
    refine ⟨hstart, hend, hsafe c hcave, ⟨_, Or.inr ⟨c, hcave, rfl⟩, subset_rfl⟩,
      fun slice' hmem => ?_⟩
    exact h.fresh hd _ (List.mem_append_right _ (List.mem_map_of_mem hmem))
  · show Session.Valid ⟨(s.allocator.newNearCodeSlice address range n cavePtr).2,
      (if s.asksForCave address range n then _ else []) ++ s.granted,
      (s.allocator.newNearCodeSlice address range n cavePtr).1.toList ++ s.slices⟩
    rw [hslice, if_pos hasks]
    cases cavePtr with
    | none => exact h
    | some c =>
      obtain ⟨-, -, hd⟩ := hpromise c rfl
      refine ⟨h.sound, h.carved.give (h.fresh hd), fun page hpage => ?_, fun slice hmem => ?_⟩
      · exact (h.pages_granted page hpage).imp fun _ hg => ⟨List.mem_cons_of_mem _ hg.1, hg.2⟩
      · rcases List.mem_cons.mp hmem with rfl | hmem
        · exact ⟨_, List.mem_cons_self, subset_rfl⟩
        · exact (h.slices_granted slice hmem).imp fun _ hg => ⟨List.mem_cons_of_mem _ hg.1, hg.2⟩

/-- **A request comes out right if and only if it is safe**, and if it is, the
invariant is kept. -/
theorem Valid.near (h : s.Valid)
    (hp : s.Promised pageSize (.near address range n cavePtr)) :
    (s.AnsweredRight pageSize (.near address range n cavePtr)
        ↔ s.NearSafe (.near address range n cavePtr))
      ∧ (s.NearSafe (.near address range n cavePtr) →
        (s.serve pageSize (.near address range n cavePtr)).Valid) := by
  cases hpage : nearPage address range n s.allocator.memoryPages with
  | none =>
    have hsafe : s.NearSafe (.near address range n cavePtr)
        = ∀ c, cavePtr = some c → c.toNat % 4 = 0 := by
      unfold NearSafe
      dsimp only
      rw [hpage]
    obtain ⟨hiff, hvalid⟩ := h.near_cave hp (newNearCodeSliceLoop_none hpage)
    rw [hsafe]
    exact ⟨hiff, fun _ => hvalid⟩
  | some page =>
    have hsafe : s.NearSafe (.near address range n cavePtr) = page.NearSafe address range n := by
      unfold NearSafe
      dsimp only
      rw [hpage]
    rw [hsafe]
    obtain ⟨pre, post, hpages, ⟨hc, hloop⟩ | ⟨splitAddr, hc, hloop⟩⟩ :=
      newNearCodeSliceLoop_some hpage
    · exact h.near_take hpages hc hloop
    · exact h.near_split hpages hc hloop

/-- **One request.** -/
theorem Valid.request (h : s.Valid) (hsize : pageSize.toNat % 4 = 0) {request : Request}
    (hp : s.Promised pageSize request) :
    (s.AnsweredRight pageSize request ↔ s.NearSafe request)
      ∧ (s.NearSafe request → (s.serve pageSize request).Valid) := by
  cases request with
  | code n pagePtr => exact ⟨Iff.rfl, fun _ => h.serve_code hsize hp⟩
  | near address range n cavePtr => exact h.near hp

/-- **A run** in which all requests are safe, or all come out right. -/
theorem run_near (hsize : pageSize.toNat % 4 = 0) {requests : List Request}
    (hgranted : Granted pageSize requests) :
    (Along pageSize (AnsweredRight pageSize) requests ↔ Along pageSize NearSafe requests)
      ∧ (Along pageSize NearSafe requests → (run pageSize requests).Valid) := by
  induction requests using List.reverseRecOn with
  | nil => exact ⟨iff_of_true (along_nil _ _) (along_nil _ _), fun _ => valid_initial⟩
  | append_singleton requests request ih =>
    obtain ⟨hbefore, hlast⟩ := along_concat.mp hgranted
    obtain ⟨hiff, hvalid⟩ := ih hbefore
    rw [along_concat, along_concat, run_concat, hiff]
    refine ⟨and_congr_right fun hsafe => ((hvalid hsafe).request hsize hlast).1, fun hsafe => ?_⟩
    exact ((hvalid hsafe.1).request hsize hlast).2 hsafe.2

/-- **Slices in reach of an address come out right if and only if every request
for one is safe.** For all sequences of calls of `ZzNewCodeSlice` and
`ZzNewNearCodeSlice` from a new allocator on, with the system and the search as
they promise to be: every slice `ZzNewNearCodeSlice` returns lies within the
range, at a multiple of four, inside its page and apart from every slice
before, if and only if each of its calls finds a page to cut the slice out of –
a position that is a multiple of four, with the whole slice in front of the end
of the range – or no page and an aligned cave. -/
theorem nearSlices_correct_iff (hsize : pageSize.toNat % 4 = 0) {requests : List Request}
    (hgranted : Granted pageSize requests) :
    (∀ before address range n cavePtr, before ++ [Request.near address range n cavePtr] <+: requests →
        ∀ slice, (run pageSize before).answer pageSize (.near address range n cavePtr) = some slice →
          NearCorrect pageSize (run pageSize before) address range n cavePtr slice)
      ↔ ∀ before address range n cavePtr,
        before ++ [Request.near address range n cavePtr] <+: requests →
          (run pageSize before).NearSafe (.near address range n cavePtr) := by
  have hiff := (run_near hsize hgranted).1
  constructor
  · intro h before address range n cavePtr hb
    refine hiff.mp ?_ before (.near address range n cavePtr) hb
    intro before request hb
    cases request with
    | code => trivial
    | near address range n cavePtr => exact h before address range n cavePtr hb
  · intro h before address range n cavePtr hb
    refine hiff.mpr ?_ before (.near address range n cavePtr) hb
    intro before request hb
    cases request with
    | code => trivial
    | near address range n cavePtr => exact h before address range n cavePtr hb

end Near

/-- A page is granted to the first of two requests. -/
theorem granted_two {pageSize n pagePtr address range k : Word} (hn : n ≤ pageSize)
    (hpage : pagePtr ≠ 0#32 ∧ pagePtr.toNat % pageSize.toNat = 0
      ∧ pagePtr.toNat + pageSize.toNat ≤ 2 ^ 32) :
    Granted pageSize [.code n pagePtr, .near address range k none] := by
  refine (@along_concat _ [.code n pagePtr] _ _).mpr ⟨(@along_concat _ [] _ _).mpr
    ⟨along_nil _ _, hn, fun _ => ⟨hpage.1, hpage.2.1, hpage.2.2, nofun⟩⟩, fun _ c hc => ?_⟩
  cases hc

/-- A slice of eight bytes, and one of sixteen behind it in reach of an address
2 KiB ahead. -/
theorem nearSlices_correct_iff_below :
    (∀ before address range n cavePtr, before ++ [Request.near address range n cavePtr]
          <+: [.code 8#32 0x10000#32, .near 0x10800#32 0x1000#32 16#32 none] →
        ∀ slice, (run 4096#32 before).answer 4096#32 (.near address range n cavePtr) = some slice →
          NearCorrect 4096#32 (run 4096#32 before) address range n cavePtr slice)
      ↔ ∀ before address range n cavePtr, before ++ [Request.near address range n cavePtr]
          <+: [.code 8#32 0x10000#32, .near 0x10800#32 0x1000#32 16#32 none] →
        (run 4096#32 before).NearSafe (.near address range n cavePtr) :=
  nearSlices_correct_iff (by decide)
    (granted_two (by decide) ⟨by decide, by decide, by decide⟩)

/-- The range of 16 MiB ends sixteen bytes into the page, of which eight are in
use. The slice that is returned ends eight bytes behind the range. -/
theorem nearSlice_outOfRange :
    ¬ ∀ (pageSize : Word) (requests : List Request), pageSize.toNat % 4 = 0 →
      Granted pageSize requests → ∀ before address range n cavePtr,
        before ++ [Request.near address range n cavePtr] <+: requests →
        ∀ slice, (run pageSize before).answer pageSize (.near address range n cavePtr) = some slice →
          NearCorrect pageSize (run pageSize before) address range n cavePtr slice := by
  intro h
  have hcorrect := h 4096#32 [.code 8#32 0x40000000#32, .near 0x3F000010#32 0x1000000#32 16#32 none]
    (by decide) (granted_two (by decide) ⟨by decide, by decide, by decide⟩)
    [.code 8#32 0x40000000#32] _ _ _ _ List.prefix_rfl ⟨0x40000008#32, 16#32, false⟩ (by decide)
  exact absurd hcorrect.to_end (by decide)

end Session

end HookZz
