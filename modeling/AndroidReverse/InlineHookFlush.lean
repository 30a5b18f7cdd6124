import AndroidReverse.InlineHookRuns

/-!
# What the calls flush from the instruction cache

A call that writes to code ends with `cacheflush` on the range it has written,
which it computes from the item in the registry. Hooking an item flushes its
own range. Unhooking an item deletes it first, and the deletion moves the last
item of the registry into its slot; the range is then read from the slot, so
what is flushed is the range of the item that was moved.

A call is therefore coherent exactly when it unhooks no item but the last one,
as long as the windows of the items are apart (`coherent_iff`). That an item
carries the length of its window is what the condition of
`AndroidReverse.InlineHookRuns` on registrations is needed for.
-/

namespace InlineHook

open Arm Relocate

/-! ## Coherence -/

/-- The addresses of a range that is handed to `cacheflush`. -/
def inRange (r : Word × Word) : Set Word := {a | (a - r.1).toNat < (r.2 - r.1).toNat}

instance (a : Word) (r : Word × Word) : Decidable (a ∈ inRange r) :=
  inferInstanceAs (Decidable ((a - r.1).toNat < (r.2 - r.1).toNat))

/-- The addresses an item says its target has. -/
def extent (item : InlineHookItem) : Set Word :=
  {a | InBlock (clearBit0 item.targetAddr) item.length.toNat a}

/-- **A call is coherent** if every byte of code it writes lies in a range it
hands to `cacheflush`. The bytes written are those that change for some content
`m` of the code. -/
def Coherent (p : Process) (c : Call) : Prop :=
  ∀ (m : Mem) (p' : Process), c.exec { p with code := m } = some p' →
    ∀ a, p'.code a ≠ m a → ∃ r ∈ p'.flushed.drop p.flushed.length, a ∈ inRange r

/-- **The changes of the code between two processes are covered** by what was
flushed between them. -/
def Covered (p q : Process) : Prop :=
  ∃ l, q.flushed = p.flushed ++ l ∧ ∀ a, q.code a ≠ p.code a → ∃ r ∈ l, a ∈ inRange r

/-- The items carry the lengths of their windows. -/
def Lengths (p : Process) : Prop :=
  ∀ i, i < p.info.size →
    (p.info.item i).length = BitVec.ofNat 32 (windowLength (p.info.item i).targetAddr)

/-- **Nothing but the last item is unhooked** by the call. -/
def UnHooksLast (p : Process) : Call → Prop
  | .inlineUnHook t => ∀ i, i < p.info.size → (p.info.item i).targetAddr = t →
      (p.info.item i).status = HOOKED → i + 1 = p.info.size
  | .inlineUnHookAll =>
    ∀ i, i < p.info.size → (p.info.item i).status = HOOKED → i + 1 = p.info.size
  | _ => True

section Covered

variable {p q r : Process} {pos : ℕ}

theorem Covered.refl (p : Process) : Covered p p :=
  ⟨[], (List.append_nil _).symm, fun _ h => absurd rfl h⟩

theorem Covered.trans (h : Covered p q) (h' : Covered q r) : Covered p r := by
  obtain ⟨l, hl, hc⟩ := h
  obtain ⟨l', hl', hc'⟩ := h'
  refine ⟨l ++ l', by rw [hl', hl, List.append_assoc], fun a ha => ?_⟩
  by_cases hq : q.code a = p.code a
  · obtain ⟨x, hx, hax⟩ := hc' a (by rwa [hq])
    exact ⟨x, List.mem_append_right l hx, hax⟩
  · obtain ⟨x, hx, hax⟩ := hc a hq
    exact ⟨x, List.mem_append_left l' hx, hax⟩

theorem coherent_of_covered {c : Call}
    (h : ∀ (m : Mem) (p' : Process), c.exec { p with code := m } = some p' →
      Covered { p with code := m } p') : Coherent p c := by
  intro m p' hp' a ha
  obtain ⟨l, hl, hc⟩ := h m p' hp'
  rw [hl, List.drop_left]
  exact hc a ha

/-- The range of an item is its extent. -/
theorem inRange_item (item : InlineHookItem) :
    inRange (clearBit0 item.targetAddr, clearBit0 item.targetAddr + item.length) = extent item := by
  unfold inRange extent InBlock
  rw [BitVec.add_comm, BitVec.add_sub_cancel]

theorem extent_eq_window {item : InlineHookItem}
    (h : item.length = BitVec.ofNat 32 (windowLength item.targetAddr)) :
    extent item = window item.targetAddr := by
  unfold extent window
  rw [h, windowLength_toNat]

/-- **Hooking flushes what it patches.** -/
theorem doInlineHook_covered (h : Lengths p) (hpos : pos < p.info.size) :
    Covered p (doInlineHook pos p) := by
  refine ⟨_, rfl, fun a ha => ⟨_, List.mem_singleton_self _, ?_⟩⟩
  rw [inRange_item, extent_eq_window (h pos hpos)]
  by_contra hout
  exact ha (doInlineHook_code pos p hout)

/-- Hooking changes the status of items and nothing else about them. -/
theorem Lengths.doInlineHook (h : Lengths p) : Lengths (doInlineHook pos p) := by
  intro i hi
  by_cases hp : i = pos
  · subst hp
    have hitem : (InlineHook.doInlineHook i p).info.item i
        = { p.info.item i with status := HOOKED } := setItem_item_self _
    rw [hitem]
    exact h i hi
  · have hitem : (InlineHook.doInlineHook pos p).info.item i = p.info.item i :=
      Function.update_of_ne hp _ _
    rw [hitem]
    exact h i hi

theorem inlineHookAll_covered (l : List ℕ) (h : Lengths p) (hl : ∀ i ∈ l, i < p.info.size) :
    Covered p (l.foldl
      (fun p i => if (p.info.item i).status = REGISTERED then doInlineHook i p else p) p) := by
  induction l generalizing p with
  | nil => exact .refl p
  | cons i l ih =>
    obtain ⟨hi, hl⟩ := List.forall_mem_cons.mp hl
    rw [List.foldl_cons]
    split_ifs with hs
    · exact (doInlineHook_covered h hi).trans (ih h.doInlineHook hl)
    · exact ih h hl

/-- **Unhooking the last item flushes what it restores.** -/
theorem doInlineUnHook_covered (hlast : pos + 1 = p.info.size) :
    Covered p (doInlineUnHook pos p) := by
  have hitem : (deleteInlineHookItem p.info pos).item pos = p.info.item pos := by
    show Function.update p.info.item pos (p.info.item (p.info.size - 1)) pos = _
    rw [Function.update_self, ← hlast, Nat.add_sub_cancel]
  refine ⟨_, rfl, fun a ha => ⟨_, List.mem_singleton_self _, ?_⟩⟩
  rw [inRange_item, hitem]
  by_contra hout
  exact ha (memcpy_of_out hout)

theorem unHookAllLoop_covered (fuel i : ℕ)
    (h : ∀ j, j < p.info.size → (p.info.item j).status = HOOKED → j + 1 = p.info.size) :
    Covered p (unHookAllLoop fuel i p) := by
  induction fuel generalizing i p with
  | zero => exact .refl p
  | succ fuel ih =>
    unfold unHookAllLoop
    split_ifs with hi hs
    · have hlast := h i hi hs
      refine (doInlineUnHook_covered hlast).trans (ih i (fun j hj hjs => ?_))
      -- the items that are left stand before the one that was hooked
      have hj' : j < p.info.size - 1 := hj
      have hjitem : (doInlineUnHook i p).info.item j = p.info.item j :=
        Function.update_of_ne (by omega) _ _
      rw [hjitem] at hjs
      have := h j (by omega) hjs
      omega
    · exact ih (i + 1) h
    · exact .refl p

end Covered

/-! ## What is not flushed -/

/-- The windows of the items are apart. -/
def LiveApart (p : Process) : Prop :=
  SlotArray.Apart (fun x y => Disjoint (window x.targetAddr) (window y.targetAddr)) p.info.live

/-- A byte that none of the items has is neither written nor flushed between
two processes. -/
def LeavesAlone (a : Word) (p q : Process) : Prop :=
  q.code a = p.code a ∧ ∃ l, q.flushed = p.flushed ++ l ∧ ∀ r ∈ l, a ∉ inRange r

section LeavesAlone

variable {p q r : Process} {pos : ℕ} {a : Word}

theorem LeavesAlone.refl (a : Word) (p : Process) : LeavesAlone a p p :=
  ⟨rfl, [], (List.append_nil _).symm, List.forall_mem_nil _⟩

theorem LeavesAlone.trans (h : LeavesAlone a p q) (h' : LeavesAlone a q r) :
    LeavesAlone a p r := by
  obtain ⟨hc, l, hl, ha⟩ := h
  obtain ⟨hc', l', hl', ha'⟩ := h'
  refine ⟨hc'.trans hc, l ++ l', by rw [hl', hl, List.append_assoc], fun x hx => ?_⟩
  rcases List.mem_append.mp hx with hx | hx
  · exact ha x hx
  · exact ha' x hx

/-- What unhooking an item flushes: the range of the item in the last slot. -/
theorem doInlineUnHook_flushed (pos : ℕ) (p : Process) :
    ∃ r, (doInlineUnHook pos p).flushed = p.flushed ++ [r]
      ∧ inRange r = extent (p.info.item (p.info.size - 1)) := by
  refine ⟨_, rfl, ?_⟩
  have hitem : (deleteInlineHookItem p.info pos).item pos = p.info.item (p.info.size - 1) := by
    show Function.update p.info.item pos (p.info.item (p.info.size - 1)) pos = _
    exact Function.update_self _ _ _
  rw [inRange_item, hitem]

theorem live_doInlineUnHook (hpos : pos < p.info.size) :
    (doInlineUnHook pos p).info.live = p.info.others pos := live_deleteInlineHookItem hpos

theorem doInlineUnHook_leavesAlone (hpos : pos < p.info.size)
    (ha : ∀ x ∈ p.info.live, a ∉ extent x) : LeavesAlone a p (doInlineUnHook pos p) := by
  obtain ⟨r, hr, hext⟩ := doInlineUnHook_flushed pos p
  refine ⟨memcpy_of_out (ha _ (SlotArray.mem_live.mpr ⟨pos, hpos, rfl⟩)), [r], hr, fun x hx => ?_⟩
  rw [List.mem_singleton.mp hx, hext]
  exact ha _ (SlotArray.mem_live.mpr ⟨p.info.size - 1, by omega, rfl⟩)

theorem unHookAllLoop_leavesAlone (fuel i : ℕ) (ha : ∀ x ∈ p.info.live, a ∉ extent x) :
    LeavesAlone a p (unHookAllLoop fuel i p) := by
  induction fuel generalizing i p with
  | zero => exact .refl a p
  | succ fuel ih =>
    unfold unHookAllLoop
    split_ifs with hi hs
    · refine (doInlineUnHook_leavesAlone hi ha).trans (ih i (fun x hx => ?_))
      rw [live_doInlineUnHook hi] at hx
      exact ha x (SlotArray.mem_live_of_mem_others hx)
    · exact ih (i + 1) ha
    · exact .refl a p

/-- The loop passes over items that are not hooked. -/
theorem unHookAllLoop_skip (fuel i k : ℕ) (hk : i + k ≤ p.info.size)
    (h : ∀ j, j < i + k → (p.info.item j).status ≠ HOOKED) :
    unHookAllLoop (fuel + k) i p = unHookAllLoop fuel (i + k) p := by
  induction k generalizing i with
  | zero => rfl
  | succ k ih =>
    rw [← Nat.add_assoc, unHookAllLoop, if_pos (by omega), if_neg (h i (by omega)),
      ih (i + 1) (by omega) (fun j hj => h j (by omega)), Nat.add_right_comm i 1 k, ← Nat.add_assoc]

end LeavesAlone

section Lost

variable {p : Process} {pos : ℕ}

/-- The first byte of the target of an item. -/
theorem clearBit0_mem_window (t : Word) : clearBit0 t ∈ window t :=
  inBlock_base (by have := four_le_windowLength t; omega)

/-- **An item that is unhooked out of turn**: the first byte of its target is
written, and neither the flush nor the items that are left cover it. -/
theorem doInlineUnHook_lost (hl : Lengths p) (hw : LiveApart p) (hpos : pos + 1 < p.info.size)
    (hcode : p.code (clearBit0 (p.info.item pos).targetAddr)
      ≠ p.heap (p.info.item pos).origInstructions) :
    (doInlineUnHook pos p).code (clearBit0 (p.info.item pos).targetAddr)
        ≠ p.code (clearBit0 (p.info.item pos).targetAddr)
      ∧ (∃ r, (doInlineUnHook pos p).flushed = p.flushed ++ [r]
        ∧ clearBit0 (p.info.item pos).targetAddr ∉ inRange r)
      ∧ ∀ x ∈ (doInlineUnHook pos p).info.live,
        clearBit0 (p.info.item pos).targetAddr ∉ extent x := by
  have hpos' : pos < p.info.size := by omega
  have hothers : ∀ x ∈ p.info.others pos, clearBit0 (p.info.item pos).targetAddr ∉ extent x := by
    intro x hx hin
    obtain ⟨j, hj, rfl⟩ := SlotArray.mem_live.mp (SlotArray.mem_live_of_mem_others hx)
    have hj' : j < p.info.size := hj
    rw [extent_eq_window (hl j hj')] at hin
    have hd := hw _ _ (live_eq_cons hpos') _ hx
    exact Set.disjoint_left.mp hd (clearBit0_mem_window _) hin
  refine ⟨?_, ?_, ?_⟩
  · have hin : InBlock (clearBit0 (p.info.item pos).targetAddr)
        (p.info.item pos).length.toNat (clearBit0 (p.info.item pos).targetAddr) := by
      rw [hl pos hpos', windowLength_toNat]
      exact clearBit0_mem_window _
    have hval : (doInlineUnHook pos p).code (clearBit0 (p.info.item pos).targetAddr)
        = p.heap (p.info.item pos).origInstructions := by
      refine (memcpy_of_in hin).trans ?_
      rw [BitVec.sub_self, BitVec.add_zero]
    rw [hval]
    exact hcode.symm
  · obtain ⟨r, hr, hext⟩ := doInlineUnHook_flushed pos p
    refine ⟨r, hr, ?_⟩
    rw [hext]
    exact hothers _ (SlotArray.mem_others (by omega) (by omega))
  · rw [live_doInlineUnHook hpos']
    exact hothers

/-- **A call that unhooks an item out of turn is not coherent**, if it begins
with that. -/
theorem not_coherent_of_lost {c : Call} (hl : Lengths p) (hw : LiveApart p)
    (hpos : pos + 1 < p.info.size)
    (hc : ∀ m : Mem, ∃ q, c.exec { p with code := m } = some q
      ∧ ∀ a, (∀ x ∈ (doInlineUnHook pos { p with code := m }).info.live, a ∉ extent x) →
        LeavesAlone a (doInlineUnHook pos { p with code := m }) q) : ¬ Coherent p c := by
  intro h
  set a := clearBit0 (p.info.item pos).targetAddr with ha
  -- a code whose bytes all differ from the one that is restored
  let m : Mem := fun _ => p.heap (p.info.item pos).origInstructions + 1#8
  have hm : m a ≠ p.heap (p.info.item pos).origInstructions := by
    show p.heap (p.info.item pos).origInstructions + 1#8 ≠ _
    bv_omega
  obtain ⟨hcode, ⟨r, hr, hout⟩, hlive⟩ :=
    doInlineUnHook_lost (p := { p with code := m }) hl hw hpos hm
  obtain ⟨q, hq, halone⟩ := hc m
  obtain ⟨hqcode, l, hql, hqout⟩ := halone a hlive
  have hchanged : q.code a ≠ m a := by
    rw [hqcode]
    exact hcode
  obtain ⟨x, hx, hax⟩ := h m q hq a hchanged
  rw [hql, hr, List.append_assoc, List.drop_left] at hx
  rcases List.mem_cons.mp hx with rfl | hx
  · exact hout hax
  · exact hqout x hx hax

end Lost

/-! ## The calls of a run -/

section Runs

variable {p₀ p : Process}

/-- **The items of a run carry the lengths of their windows.** -/
theorem lengths_of_reachable (h₀ : p₀.info = .zero)
    (h : Reachable (fun _ t p => Fits t p) p₀ p) : Lengths p := by
  have hlive : ∀ x ∈ p.info.live, x.length = BitVec.ofNat 32 (windowLength x.targetAddr) := by
    have hstep : ∀ q q' : Process,
        (∀ x ∈ q.info.live, x.length = BitVec.ofNat 32 (windowLength x.targetAddr)) →
        Change (fun _ t p => Fits t p) q q' →
        ∀ x ∈ q'.info.live, x.length = BitVec.ofNat 32 (windowLength x.targetAddr) := by
      intro q q' hq hc
      cases hc with
      | register os t n a x hok hnew hx hlive hcode hheap =>
        rw [hlive]
        exact Multiset.forall_mem_cons.mpr ⟨by rw [hx.length, hx.targetAddr], hq⟩
      | hook x rest hx hlive hlive' hcode hheap =>
        rw [hlive] at hq
        rw [hlive']
        exact Multiset.forall_mem_cons.mpr (Multiset.forall_mem_cons.mp hq)
      | unHook x rest hx hlive hlive' hcode hheap =>
        rw [hlive] at hq
        rw [hlive']
        exact (Multiset.forall_mem_cons.mp hq).2
    exact Reachable.induction (fun _ _ _ ho => ho) hstep h (wellFormed_initial h₀).length
  exact fun i hi => hlive _ (SlotArray.mem_live.mpr ⟨i, hi, rfl⟩)

/-- **A call that unhooks nothing but the last item is coherent.** -/
theorem coherent_of_unHooksLast (hl : Lengths p) {c : Call} (hc : UnHooksLast p c) :
    Coherent p c := by
  refine coherent_of_covered (fun m p' hp' => ?_)
  cases c with
  | registerInlineHook os t n a =>
    obtain ⟨r, hr, rfl⟩ := Option.map_eq_some_iff.mp hp'
    obtain hq | ⟨-, -, -, -, hq⟩ := registerInlineHook_cases hr
    · rw [hq]
      exact .refl _
    · rw [hq]
      exact ⟨[], (List.append_nil _).symm, fun _ h => absurd rfl h⟩
  | inlineHook t =>
    obtain rfl := Option.some.inj hp'
    rcases inlineHook_cases t { p with code := m } with ⟨i, hi, -, hq⟩ | hq
    · rw [hq]
      exact doInlineHook_covered (p := { p with code := m }) hl hi
    · rw [hq]
      exact .refl _
  | inlineHookAll =>
    obtain rfl := Option.some.inj hp'
    exact inlineHookAll_covered (p := { p with code := m }) _ hl (fun i hi => List.mem_range.mp hi)
  | inlineUnHook t =>
    obtain rfl := Option.some.inj hp'
    rcases inlineUnHook_cases t { p with code := m } with ⟨i, hi, ht, hs, hq⟩ | hq
    · rw [hq]
      exact doInlineUnHook_covered (p := { p with code := m }) (hc i hi ht hs)
    · rw [hq]
      exact .refl _
  | inlineUnHookAll =>
    obtain rfl := Option.some.inj hp'
    exact unHookAllLoop_covered (p := { p with code := m }) p.info.size 0 hc

/-- **And where the windows are apart, no other call is.** -/
theorem unHooksLast_of_coherent (hl : Lengths p) (hw : LiveApart p) {c : Call}
    (h : Coherent p c) : UnHooksLast p c := by
  cases c with
  | registerInlineHook os t n a => trivial
  | inlineHook t => trivial
  | inlineHookAll => trivial
  | inlineUnHook t =>
    intro i hi ht hs
    by_contra hlast
    -- the call unhooks the first hooked item of the target
    have hsome : ((List.range p.info.size).find? (fun i => (p.info.item i).targetAddr == t
        && (p.info.item i).status == HOOKED)).isSome = true :=
      List.find?_isSome.mpr ⟨i, List.mem_range.mpr hi, by rw [ht, hs, beq_self_eq_true]; rfl⟩
    obtain ⟨j, hj⟩ := Option.isSome_iff_exists.mp hsome
    have hji : j ≤ i := by
      by_contra hlt
      have hmin := (List.find?_range_eq_some.mp hj).2.2 i (by omega)
      rw [ht, hs, beq_self_eq_true, beq_self_eq_true] at hmin
      cases hmin
    refine not_coherent_of_lost hl hw (show j + 1 < p.info.size by omega) (fun m => ?_) h
    refine ⟨doInlineUnHook j { p with code := m }, ?_, fun a _ => .refl a _⟩
    show some (InlineHook.inlineUnHook t { p with code := m }).2 = _
    unfold InlineHook.inlineUnHook
    rw [show (List.range (Process.info { p with code := m }).size).find? _ = some j from hj]
  | inlineUnHookAll =>
    intro i hi hs
    by_contra hlast
    -- the loop begins with the first hooked item
    have hex : ∃ j, (p.info.item j).status = HOOKED := ⟨i, hs⟩
    set j := Nat.find hex with hjdef
    have hji : j ≤ i := Nat.find_min' hex hs
    refine not_coherent_of_lost hl hw (show j + 1 < p.info.size by omega) (fun m => ?_) h
    obtain ⟨fuel, hfuel⟩ : ∃ fuel, p.info.size = fuel + 1 + j := ⟨p.info.size - 1 - j, by omega⟩
    have hskip : InlineHook.inlineUnHookAll { p with code := m }
        = unHookAllLoop fuel j (doInlineUnHook j { p with code := m }) := by
      have h := unHookAllLoop_skip (p := { p with code := m }) (fuel + 1) 0 j
        (by show 0 + j ≤ p.info.size; omega)
        (fun k hk => Nat.find_min hex (by omega))
      rw [← hfuel, Nat.zero_add, unHookAllLoop, if_pos (by show j < p.info.size; omega),
        if_pos (Nat.find_spec hex)] at h
      exact h
    exact ⟨_, congrArg some hskip, fun a ha => unHookAllLoop_leavesAlone fuel j ha⟩

/-- **A call in a run is coherent if it unhooks nothing but the last item, and
where the windows of the items are apart only then.** -/
theorem coherent_iff (h₀ : p₀.info = .zero) (h : Reachable (fun _ t p => Fits t p) p₀ p)
    (c : Call) :
    (UnHooksLast p c → Coherent p c) ∧ (LiveApart p → (Coherent p c ↔ UnHooksLast p c)) := by
  have hl := lengths_of_reachable h₀ h
  exact ⟨coherent_of_unHooksLast hl, fun hw =>
    ⟨unHooksLast_of_coherent hl hw, coherent_of_unHooksLast hl⟩⟩

end Runs

/-- Unhooking the only item of a run. -/
theorem coherent_iff_single :
    (UnHooksLast (hookTarget 0x8001#32 startProcess) (.inlineUnHook 0x8001#32) →
        Coherent (hookTarget 0x8001#32 startProcess) (.inlineUnHook 0x8001#32))
      ∧ (LiveApart (hookTarget 0x8001#32 startProcess) →
        (Coherent (hookTarget 0x8001#32 startProcess) (.inlineUnHook 0x8001#32)
          ↔ UnHooksLast (hookTarget 0x8001#32 startProcess) (.inlineUnHook 0x8001#32))) :=
  coherent_iff (show startProcess.info = .zero from rfl)
    (reachable_hookTarget .refl rfl (by
      unfold Fits
      decide)) _

/-- The system at a second registration. -/
def secondOs : Os where
  isExecutableAddr := fun _ => true
  malloc := 0x300#32
  mmap := 0x400#32

theorem exec_registerInlineHook {os : Os} {t n a : Word} {p : Process} {r : Ele7enStatus × Process}
    (h : registerInlineHook os t n a p = some r) :
    Call.exec p (.registerInlineHook os t n a) = some r.2 := congrArg (Option.map Prod.snd) h

theorem exec_inlineUnHook (p : Process) (t : Word) :
    Call.exec p (.inlineUnHook t) = some (InlineHook.inlineUnHook t p).2 := rfl

/-- One target hooked and another registered. -/
def twoRegistered : Process :=
  fillItem secondOs 0x9000#32 0xB000#32 0#32 1
    { (hookTarget 0x8001#32 startProcess).info with size := 2 } (hookTarget 0x8001#32 startProcess)

/-- Both hooked. -/
def twoHooked : Process := (inlineHook 0x9000#32 twoRegistered).2

/-- **Unhooking the first of two targets** flushes the range of the second. -/
theorem coherent_lost :
    startProcess.info = .zero
      ∧ Reachable (fun os t p => Fresh os t p ∧ Fits t p) startProcess twoHooked
      ∧ ¬ Coherent twoHooked (.inlineUnHook 0x8001#32) := by
  refine ⟨rfl, ?_, fun h => ?_⟩
  · have hfirst : Reachable (fun os t p => Fresh os t p ∧ Fits t p) startProcess
        (hookTarget 0x8001#32 startProcess) :=
      reachable_hookTarget .refl rfl ⟨fresh_of_size _ _ rfl, by
        unfold Fits
        decide⟩
    have hsize : (hookTarget 0x8001#32 startProcess).info.size = 1 := by decide
    have hitem : ((hookTarget 0x8001#32 startProcess).info.item 0).origInstructions = 0x100#32
        ∧ ((hookTarget 0x8001#32 startProcess).info.item 0).targetAddr = 0x8001#32 := by
      decide
    have hfind : findInlineHookItem (hookTarget 0x8001#32 startProcess).info 0x9000#32 = none := by
      decide
    refine (hfirst.tail ⟨.registerInlineHook secondOs 0x9000#32 0xB000#32 0#32, ?_, ?_⟩).tail
      ⟨.inlineHook 0x9000#32, trivial, rfl⟩
    · refine fun _ _ _ => ⟨fun x hx => ?_, by
        unfold Fits
        decide⟩
      obtain ⟨i, hi, rfl⟩ := SlotArray.mem_live.mp hx
      obtain rfl : i = 0 := by omega
      -- the blocks are `0x100` to `0x10B` and `0x300` to `0x307`
      refine Set.disjoint_left.mpr (fun a ha hb => ?_)
      have ha' : (a - 0x100#32).toNat < 12 := by
        have h : (a - ((hookTarget 0x8001#32 startProcess).info.item 0).origInstructions).toNat
          < windowLength ((hookTarget 0x8001#32 startProcess).info.item 0).targetAddr := ha
        rwa [hitem.1, hitem.2] at h
      have hb' : (a - 0x300#32).toNat < 8 := hb
      bv_omega
    · have hreg : registerInlineHook secondOs 0x9000#32 0xB000#32 0#32
            (hookTarget 0x8001#32 startProcess)
          = some (.ok, twoRegistered) := by
        unfold registerInlineHook addInlineHookItem
        rw [hfind, hsize]
        rfl
      exact exec_registerInlineHook hreg
  · have hcovered := h (fun _ => 0#8) _ (exec_inlineUnHook _ _) 0x8000#32 (by decide)
    exact absurd hcovered (by decide)

end InlineHook
