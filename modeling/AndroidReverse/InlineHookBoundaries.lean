import AndroidReverse.InlineHookRuns

/-!
# The boundary tables of the items

An item carries two tables of boundaries, by which a thread that was stopped
inside a prologue or its trampoline is moved to the same instruction in the
other. They are right if they hold the boundaries of the prologue the item
saved, no fewer and no more.

The relocator appends to the tables, and nothing empties them. A slot of the
registry keeps what its last occupant left, so the boundaries of the next one
come to stand behind it; and the first table has four entries only, the fifth
one being the first of the second table. Where neither happens the tables are
right over every run.
-/

namespace InlineHook

open Arm Relocate

/-- Entry `k` of `orig_boundaries`, as the source reads it. -/
def InlineHookItem.origBoundary (item : InlineHookItem) (k : ℕ) : Word := item.word (4 + k)

/-- Entry `k` of `trampoline_boundaries`. -/
def InlineHookItem.trampolineBoundary (item : InlineHookItem) (k : ℕ) : Word := item.word (8 + k)

/-- The boundaries the relocator visits on the prologue an item saved. -/
def savedBoundaries (mem heap : Mem) (x : InlineHookItem) : List (ℕ × ℕ) :=
  boundaries mem x.targetAddr (fun k => heap (x.origInstructions + BitVec.ofNat 32 k))
    x.length.toNat

/-- **The tables of an item are right**: they hold the boundaries of its saved
prologue. The memory its literals were read from makes no difference. -/
structure BoundariesExact (heap : Mem) (x : InlineHookItem) : Prop where
  count : ∀ mem, x.count = BitVec.ofNat 32 (savedBoundaries mem heap x).length
  entries : ∀ mem k b, (savedBoundaries mem heap x)[k]? = some b →
    x.origBoundary k = BitVec.ofNat 32 b.1 ∧ x.trampolineBoundary k = BitVec.ofNat 32 b.2

/-- **A registration finds its tables empty**, and its prologue has no more
instructions than the first table has entries. -/
def Clean (target_addr : Word) (p : Process) : Prop :=
  leftoverCount p.info = 0 ∧ (targetBoundaries p.code target_addr).length ≤ 4

theorem Clean.fits {t : Word} {p : Process} (h : Clean t p) : Fits t p := by
  obtain ⟨h0, h4⟩ := h
  unfold Fits
  omega

section Changes

variable {p p' : Process} {os : Os} {t n a : Word} {x : InlineHookItem} {mem mem' heap heap' : Mem}

/-- The boundaries depend on an item's own block of the heap. -/
theorem savedBoundaries_congr (hl : x.length = BitVec.ofNat 32 (windowLength x.targetAddr))
    (hh : Set.EqOn heap heap' (block x)) :
    savedBoundaries mem heap x = savedBoundaries mem' heap' x := by
  have hle := windowLength_le x.targetAddr
  unfold savedBoundaries
  rw [hl, windowLength_toNat]
  exact boundaries_congr mem mem' x.targetAddr (four_le_windowLength x.targetAddr)
    (fun k hk => hh (inBlock_offset hk (by omega)))

theorem BoundariesExact.congr (h : BoundariesExact heap x)
    (hl : x.length = BitVec.ofNat 32 (windowLength x.targetAddr))
    (hh : Set.EqOn heap' heap (block x)) : BoundariesExact heap' x where
  count := fun mem => (h.count mem).trans
    (congrArg (fun bs => BitVec.ofNat 32 bs.length) (savedBoundaries_congr hl hh).symm)
  entries := fun mem k b hb => h.entries mem k b (savedBoundaries_congr hl hh ▸ hb)

/-- Hooking an item leaves its tables as they are. -/
theorem BoundariesExact.hook (h : BoundariesExact heap x)
    (hl : x.length = BitVec.ofNat 32 (windowLength x.targetAddr)) :
    BoundariesExact heap { x with status := HOOKED } where
  count := h.count
  entries := fun mem k b hb => by
    have hlen : (savedBoundaries mem heap x).length ≤ windowLength x.targetAddr / 2 := by
      unfold savedBoundaries
      rw [hl, windowLength_toNat]
      exact boundaries_length_le mem x.targetAddr _ (four_le_windowLength x.targetAddr)
    have hle := windowLength_le x.targetAddr
    have hk : k < (savedBoundaries mem heap x).length := (List.getElem?_eq_some_iff.mp hb).1
    unfold InlineHookItem.origBoundary InlineHookItem.trampolineBoundary
    rw [InlineHookItem.word_status HOOKED (by omega), InlineHookItem.word_status HOOKED (by omega)]
    exact h.entries mem k b hb

/-- **A registered item saves the prologue of its target.** -/
theorem Registered.savedBoundaries_eq (hx : Registered os t n a p x) :
    savedBoundaries mem
        (memcpy p.heap os.malloc p.code (clearBit0 t) (windowLength t)) x
      = targetBoundaries p.code t := by
  have hle := windowLength_le t
  unfold savedBoundaries
  rw [hx.length, windowLength_toNat, hx.targetAddr, hx.origInstructions, ← boundaries_memcpy]
  exact boundaries_congr mem p.code t (four_le_windowLength t) (fun _ _ => rfl)

/-- **Its tables are right exactly if it was registered in a clean slot.** A
count that was left over is still there, and a fifth boundary has overwritten
the trampoline's first, which was 0. -/
theorem Registered.boundariesExact_iff (hx : Registered os t n a p x) (hfit : Fits t p) :
    BoundariesExact (memcpy p.heap os.malloc p.code (clearBit0 t) (windowLength t)) x
      ↔ Clean t p := by
  have hcount := hx.count
  unfold Fits at hfit
  constructor
  · intro h
    have h0 : leftoverCount p.info = 0 := by
      have hc := congrArg BitVec.toNat (h.count p.code)
      rw [hx.savedBoundaries_eq, BitVec.toNat_ofNat] at hc
      omega
    refine ⟨h0, Nat.le_of_not_lt (fun h5 => ?_)⟩
    obtain ⟨l, hl, -, hpos⟩ := boundaries_eq_cons p.code t
      (fun k => p.code (clearBit0 t + BitVec.ofNat 32 k)) (four_le_windowLength t)
    have hl : targetBoundaries p.code t = (0, 0) :: l := hl
    rw [hl, List.length_cons] at h5
    -- word 8 of the item is entry 4 of the first table and entry 0 of the second
    have hfourth : (targetBoundaries p.code t)[4]? = some l[3] := by
      rw [hl, List.getElem?_cons_succ, List.getElem?_eq_getElem (by omega)]
    have hover := hx.origBoundaries 4 _ hfourth
    have hfirst := (h.entries p.code 0 (0, 0) (by rw [hx.savedBoundaries_eq, hl]; rfl)).2
    rw [h0] at hover
    have heq : BitVec.ofNat 32 l[3].1 = BitVec.ofNat 32 0 := hover.symm.trans hfirst
    have hb := hpos l[3] (List.getElem_mem _)
    have hle := windowLength_le t
    have hnat := congrArg BitVec.toNat heq
    rw [BitVec.toNat_ofNat, BitVec.toNat_ofNat] at hnat
    omega
  · rintro ⟨h0, h4⟩
    rw [h0, Nat.zero_add] at hcount
    refine ⟨fun mem => ?_, fun mem k b hb => ?_⟩
    · rw [hx.savedBoundaries_eq, ← hcount, BitVec.ofNat_toNat, BitVec.setWidth_eq]
    · rw [hx.savedBoundaries_eq] at hb
      have ho := hx.origBoundaries k b hb
      have ht := hx.trampolineBoundaries k b hb (by omega)
      rw [h0, Nat.zero_add] at ho ht
      exact ⟨ho, ht⟩

/-- What a run in clean slots keeps. -/
structure BoundariesInv (p : Process) : Prop where
  wellFormed : WellFormed p
  exact : ∀ x ∈ p.info.live, BoundariesExact p.heap x

theorem BoundariesInv.change {ok : Os → Word → Process → Prop}
    (hok : ∀ os t p, ok os t p → Fresh os t p ∧ Clean t p) (h : BoundariesInv p)
    (hc : Change ok p p') : BoundariesInv p' := by
  refine ⟨h.wellFormed.change (fun os t p ho => (hok os t p ho).1) hc, ?_⟩
  cases hc with
  | register os t n a x hokp hnew hx hlive hcode hheap =>
    obtain ⟨hf, hcl⟩ := hok os t p hokp
    rw [hlive, hheap]
    refine Multiset.forall_mem_cons.mpr ⟨(hx.boundariesExact_iff hcl.fits).mpr hcl, fun y hy => ?_⟩
    exact (h.exact y hy).congr (h.wellFormed.length y hy) (fun b hb => heap_kept hf hy hb)
  | hook x rest hx hlive hlive' hcode hheap =>
    have hl := h.wellFormed.length x (hlive ▸ Multiset.mem_cons_self x rest)
    obtain ⟨hx, hrest⟩ := Multiset.forall_mem_cons.mp (hlive ▸ h.exact)
    rw [hlive', hheap]
    exact Multiset.forall_mem_cons.mpr ⟨hx.hook hl, hrest⟩
  | unHook x rest hx hlive hlive' hcode hheap =>
    rw [hlive', hheap]
    exact (Multiset.forall_mem_cons.mp (hlive ▸ h.exact)).2

end Changes

/-- **The tables are right** over every run in which every registration finds a
clean slot. -/
theorem boundariesExact_of_clean {p₀ p : Process} (h₀ : p₀.info = .zero)
    (h : Reachable (fun os t p => Fresh os t p ∧ Clean t p) p₀ p) :
    ∀ x ∈ p.info.live, BoundariesExact p.heap x := by
  have hinit : BoundariesInv p₀ := by
    refine ⟨wellFormed_initial h₀, fun x hx => ?_⟩
    rw [live_of_size (congrArg InlineHookInfo.size h₀)] at hx
    exact absurd hx (Multiset.notMem_zero x)
  exact (h.induction (fun _ _ _ ho => ho.2.fits)
    (fun _ _ hi hc => hi.change (fun _ _ _ ho => ho) hc)
    hinit).exact

theorem boundariesExact_of_clean_arm :
    BoundariesExact (hookTarget 0x9000#32 startProcess).heap
      ((hookTarget 0x9000#32 startProcess).info.item 0) :=
  boundariesExact_of_clean rfl
    (reachable_hookTarget .refl rfl
      ⟨fresh_of_size _ _ rfl, by
        unfold Clean
        decide⟩)
    _ (SlotArray.mem_live.mpr ⟨0, by decide, rfl⟩)

/-- **A slot that is used again** keeps the boundaries of its last occupant:
the ARM target at `0x9000`, registered a second time, has four boundaries for
its two instructions. -/
theorem boundariesExact_reused :
    startProcess.info = .zero ∧
      Reachable (fun os t p => Fresh os t p) startProcess
        (hookTarget 0x9000#32 (hookCycle 0x9000#32 startProcess)) ∧
      ¬ ∀ x ∈ (hookTarget 0x9000#32 (hookCycle 0x9000#32 startProcess)).info.live,
        BoundariesExact (hookTarget 0x9000#32 (hookCycle 0x9000#32 startProcess)).heap x := by
  have hsize : (hookCycle 0x9000#32 startProcess).info.size = 0 := by decide
  refine ⟨rfl, ?_, fun h => ?_⟩
  · exact reachable_hookTarget (reachable_hookCycle .refl rfl (fresh_of_size _ _ rfl)) hsize
      (fresh_of_size _ _ hsize)
  · let p := hookTarget 0x9000#32 (hookCycle 0x9000#32 startProcess)
    have hlive : p.info.item 0 ∈ p.info.live :=
      SlotArray.mem_live.mpr ⟨0, by decide, rfl⟩
    have hcount : (p.info.item 0).count
        ≠ BitVec.ofNat 32 (savedBoundaries p.code p.heap (p.info.item 0)).length := by
      decide
    exact hcount ((h _ hlive).count p.code)

end InlineHook
