import AndroidReverse.InlineHookTables

/-!
# What a registration does to the registry

A registration either fails and leaves the registry alone, or it adds one
item. There are two ways in which it does neither. A full registry has no room
for the item, and the `NULL` that says so is written through. And the
relocator, which appends to the boundary tables at an index that earlier
occupants of the slot have left, may come to the word behind the last item,
which is the `size` of the registry.

`sizeStores` follows the index through a registration, and lists what is stored
to that word. It needs the index the slot was left with and the boundaries of
the target, nothing else: at index 20 of the second table and index 24 of the
first the stores fall on the index itself.

The system may fail as well, and the results of `malloc` and of `mmap` are
written through as they are.
-/

namespace InlineHook

open Arm Relocate

/-! ## Stores to the size -/

/-- **The stores to `size`** of a registration of item `pos` that finds the
count at `c`, in order. -/
def sizeStores (pos : ℕ) : ℕ → List (ℕ × ℕ) → List ℕ
  | _, [] => []
  | c, b :: bs =>
    -- the first store may change the count that the second goes by
    let c' := if 4 + c = 28 then b.1 else c
    let c'' := if 8 + c' = 28 then b.2 else c'
    (if 33 * pos + (4 + c) = 33 * 1024 then [b.1] else [])
      ++ (if 33 * pos + (8 + c') = 33 * 1024 then [b.2] else [])
      ++ sizeStores pos ((c'' + 1) % 2 ^ 32) bs

/-- **What a store to the tables leaves alone**: the items before its own, and
the target. -/
structure StoreEffect (pos : ℕ) (info info' : InlineHookInfo) : Prop where
  before : ∀ j < pos, info'.item j = info.item j
  targetAddr : (info'.item pos).targetAddr = (info.item pos).targetAddr

theorem StoreEffect.trans {pos : ℕ} {info info' info'' : InlineHookInfo}
    (h : StoreEffect pos info info') (h' : StoreEffect pos info' info'') :
    StoreEffect pos info info'' where
  before := fun j hj => (h'.before j hj).trans (h.before j hj)
  targetAddr := h'.targetAddr.trans h.targetAddr

section Store

variable {info : InlineHookInfo} {pos k : ℕ} {v : Word}

/-- A write to the tables or behind leaves the target of an item alone. -/
theorem setWord_targetAddr (item : InlineHookItem) (h4 : 4 ≤ k) (v : Word) :
    (item.setWord k v).targetAddr = item.targetAddr := by
  unfold InlineHookItem.setWord
  rw [if_neg (Nat.not_lt.mpr h4)]
  split_ifs
  · rfl
  · rfl
  · split <;> rfl

/-- It changes the count exactly if it is a write to word 28. -/
theorem setWord_count_eq (item : InlineHookItem) (h4 : 4 ≤ k) (v : Word) :
    (item.setWord k v).count = if k = 28 then v else item.count := by
  unfold InlineHookItem.setWord
  rw [if_neg (Nat.not_lt.mpr h4)]
  by_cases h8 : k < 8
  · rw [if_pos h8, if_neg (by omega)]
  · by_cases h28 : k < 28
    · rw [if_neg h8, if_pos h28, if_neg (by omega)]
    · rw [if_neg h8, if_neg h28]
      generalize hm : k - 28 = m
      cases m with
      | zero => exact (if_pos (show k = 28 by omega)).symm
      | succ m =>
        rw [if_neg (show ¬ k = 28 by omega)]
        split <;> first | rfl | omega

/-- **A store to the tables** of item `pos`, wherever it falls. -/
theorem info_setWord (info : InlineHookInfo) (hpos : pos < 1024) (h4 : 4 ≤ k) (v : Word) :
    StoreEffect pos info (info.setWord pos k v)
      ∧ ((info.setWord pos k v).item pos).count = (if k = 28 then v else (info.item pos).count)
      ∧ (info.setWord pos k v).size
        = if 33 * pos + k = 33 * 1024 then v.toNat else info.size := by
  by_cases hk : k < 33
  · -- in the item itself
    rw [setWord_item hpos hk, setItem_item_self]
    refine ⟨⟨fun j hj => Function.update_of_ne (Nat.ne_of_lt hj) _ _, ?_⟩, ?_, ?_⟩
    · rw [setItem_item_self]
      exact setWord_targetAddr _ h4 v
    · exact setWord_count_eq _ h4 v
    · rw [if_neg (by omega)]
      rfl
  · rw [if_neg (by omega : ¬ k = 28)]
    unfold InlineHookInfo.setWord
    dsimp only
    by_cases hj : pos + k / 33 < 1024
    · -- in an item behind it
      have hne : pos ≠ pos + k / 33 := by omega
      rw [if_pos hj, if_neg (by omega)]
      refine ⟨⟨fun i hi => Function.update_of_ne (by omega) _ _, ?_⟩, ?_, rfl⟩
      · exact congrArg InlineHookItem.targetAddr (Function.update_of_ne hne _ _)
      · exact congrArg InlineHookItem.count (Function.update_of_ne hne _ _)
    · rw [if_neg hj]
      have hiff : (pos + k / 33 = 1024 ∧ k % 33 = 0) ↔ 33 * pos + k = 33 * 1024 := by omega
      by_cases hs : 33 * pos + k = 33 * 1024
      · rw [if_pos (hiff.mpr hs), if_pos hs]
        exact ⟨⟨fun _ _ => rfl, rfl⟩, rfl, rfl⟩
      · rw [if_neg (fun h => hs (hiff.mp h)), if_neg hs]
        exact ⟨⟨fun _ _ => rfl, rfl⟩, rfl, rfl⟩

/-- A list of stores decides what is there after them. -/
theorem getLastD_append (xs ys : List ℕ) (d : ℕ) :
    (xs ++ ys).getLastD d = ys.getLastD (xs.getLastD d) := by
  rw [List.getLastD_eq_getLast?, List.getLastD_eq_getLast?, List.getLastD_eq_getLast?,
    List.getLast?_append]
  cases ys.getLast? <;> rfl

/-- **All boundaries of a prologue**: what they leave alone, and the size after
them. -/
theorem foldl_recordBoundary_size (hpos : pos < 1024) (bs : List (ℕ × ℕ))
    (hbs : ∀ b ∈ bs, b.1 < 2 ^ 32 ∧ b.2 < 2 ^ 32) (info : InlineHookInfo) :
    StoreEffect pos info (bs.foldl (fun info x => recordBoundary pos info x.1 x.2) info)
      ∧ (bs.foldl (fun info x => recordBoundary pos info x.1 x.2) info).size
        = (sizeStores pos (info.item pos).count.toNat bs).getLastD info.size := by
  induction bs generalizing info with
  | nil => exact ⟨⟨fun _ _ => rfl, rfl⟩, rfl⟩
  | cons b bs ih =>
    obtain ⟨⟨hb1, hb2⟩, hbs⟩ := List.forall_mem_cons.mp hbs
    set c := (info.item pos).count.toNat with hc
    set info₁ := info.setWord pos (4 + c) (BitVec.ofNat 32 b.1) with h₁
    set c' := (info₁.item pos).count.toNat with hc'
    set info₂ := info₁.setWord pos (8 + c') (BitVec.ofNat 32 b.2) with h₂
    obtain ⟨e₁, hcount₁, hsize₁⟩ := info_setWord info hpos (by omega : 4 ≤ 4 + c)
      (BitVec.ofNat 32 b.1)
    obtain ⟨e₂, hcount₂, hsize₂⟩ := info_setWord info₁ hpos (by omega : 4 ≤ 8 + c')
      (BitVec.ofNat 32 b.2)
    have hstep : recordBoundary pos info b.1 b.2
        = info₂.setItem pos { info₂.item pos with count := (info₂.item pos).count + 1#32 } := rfl
    have e₃ : StoreEffect pos info₂ (recordBoundary pos info b.1 b.2) := by
      rw [hstep]
      refine ⟨fun j hj => Function.update_of_ne (Nat.ne_of_lt hj) _ _, ?_⟩
      rw [setItem_item_self]
    have hval : ∀ {n : ℕ}, n < 2 ^ 32 → (BitVec.ofNat 32 n).toNat = n :=
      fun h => (BitVec.toNat_ofNat _ _).trans (Nat.mod_eq_of_lt h)
    have hc'eq : c' = if 4 + c = 28 then b.1 else c := by
      rw [hc', h₁, hcount₁]
      split_ifs
      · exact hval hb1
      · rfl
    have hc''eq : ((recordBoundary pos info b.1 b.2).item pos).count.toNat
        = ((if 8 + c' = 28 then b.2 else c') + 1) % 2 ^ 32 := by
      rw [hstep, setItem_item_self]
      show ((info₂.item pos).count + 1#32).toNat = _
      rw [BitVec.toNat_add, h₂, hcount₂]
      split_ifs
      · rw [hval hb2]
        rfl
      · rfl
    obtain ⟨e, hsize⟩ := ih hbs (recordBoundary pos info b.1 b.2)
    refine ⟨((e₁.trans e₂).trans e₃).trans e, ?_⟩
    rw [List.foldl_cons, hsize, hc''eq]
    have hsz : (recordBoundary pos info b.1 b.2).size
        = ((if 33 * pos + (4 + c) = 33 * 1024 then [b.1] else [])
            ++ (if 33 * pos + (8 + c') = 33 * 1024 then [b.2] else [])).getLastD info.size := by
      rw [hstep]
      show info₂.size = _
      rw [h₂, hsize₂, hsize₁, getLastD_append, hval hb1, hval hb2]
      split_ifs <;> rfl
    rw [hsz, ← getLastD_append, sizeStores, ← hc'eq]

end Store

/-! ## Registrations -/

section Registration

variable {os : Os} {t n a : Word} {p : Process}

/-- The boundaries of a target are small numbers. -/
theorem targetBoundaries_lt (code : Mem) (t : Word) :
    ∀ b ∈ targetBoundaries code t, b.1 < 2 ^ 32 ∧ b.2 < 2 ^ 32 := by
  rw [targetBoundaries_eq, List.forall_mem_map]
  intro j hj
  have hlt := insnOffset_lt (List.mem_range.mp hj)
  have hw := windowLength_le t
  have h6 := targetBoundaries_length_le code t
  rw [targetBoundaries_length] at h6
  have h28 := (blockOffset_aligned code t (codeAt code t) j).2
  have := List.mem_range.mp hj
  constructor <;> dsimp only <;> omega

/-- **What a registration leaves of the registry**, wherever its stores fall:
the items before its own, a registered item for the target, and the size that
was stored last. -/
theorem fillItem_registry (os : Os) (t n a : Word) (hsize : p.info.size < 1024) :
    (∀ j < p.info.size,
        (fillItem os t n a p.info.size { p.info with size := p.info.size + 1 } p).info.item j
          = p.info.item j)
      ∧ ((fillItem os t n a p.info.size { p.info with size := p.info.size + 1 } p).info.item
          p.info.size).targetAddr = t
      ∧ ((fillItem os t n a p.info.size { p.info with size := p.info.size + 1 } p).info.item
          p.info.size).status = REGISTERED
      ∧ (fillItem os t n a p.info.size { p.info with size := p.info.size + 1 } p).info.size
        = (sizeStores p.info.size (leftoverCount p.info) (targetBoundaries p.code t)).getLastD
            (p.info.size + 1) := by
  let info := InlineHookInfo.setItem { p.info with size := p.info.size + 1 } p.info.size
    (preparedItem os t n a p)
  have hitem : info.item p.info.size = preparedItem os t n a p := setItem_item_self _
  let r := (relocateInstruction (recordBoundary p.info.size) p.code t
    (fun k => memcpy p.heap os.malloc p.code (clearBit0 t) (windowLength t)
      (os.malloc + BitVec.ofNat 32 k)) (windowLength t) info).2
  have hr : r = (targetBoundaries p.code t).foldl
      (fun info x => recordBoundary p.info.size info x.1 x.2) info := by
    refine (relocateInstruction_recorded (recordBoundary p.info.size) p.code t _ _ info).trans ?_
    rw [boundaries_memcpy]
  obtain ⟨e, hs⟩ := foldl_recordBoundary_size hsize _ (targetBoundaries_lt p.code t) info
  rw [← hr] at e hs
  have hcount : (info.item p.info.size).count.toNat = leftoverCount p.info := by
    rw [hitem]
    rfl
  have hinfo : (fillItem os t n a p.info.size { p.info with size := p.info.size + 1 } p).info
      = r.setItem p.info.size { r.item p.info.size with status := REGISTERED } := rfl
  rw [hinfo, setItem_item_self]
  refine ⟨fun j hj => ?_, ?_, rfl, ?_⟩
  · refine (Function.update_of_ne (Nat.ne_of_lt hj) _ _).trans ((e.before j hj).trans ?_)
    exact Function.update_of_ne (Nat.ne_of_lt hj) _ _
  · refine e.targetAddr.trans ?_
    rw [hitem]
    rfl
  · refine hs.trans ?_
    rw [hcount]
    rfl

/-- The call goes on to add an item. -/
def Adds (os : Os) (t n : Word) (p : Process) : Prop :=
  os.isExecutableAddr t = true ∧ os.isExecutableAddr n = true ∧ findInlineHookItem p.info t = none

instance : Decidable (Adds os t n p) := inferInstanceAs (Decidable (_ ∧ _))

/-- The value `MAP_FAILED`. -/
def MAP_FAILED : Word := 0xFFFFFFFF#32

/-- `registerInlineHook` on a system that may run out of memory: the prologue
is copied to the `NULL` that `malloc` returns, and the trampoline written to
`MAP_FAILED`. -/
def registerOn (os : Os) (t n a : Word) (p : Process) : Option (Ele7enStatus × Process) :=
  if Adds os t n p ∧ (os.malloc = 0#32 ∨ os.mmap = MAP_FAILED) then none
  else registerInlineHook os t n a p

/-- **A registration is total and atomic**: it returns a status; if it is not
`ok` the registry is as before, and if it is the registry has exactly one more
item, registered, for a target that had none. -/
def Atomic (t : Word) (p : Process) (r : Option (Ele7enStatus × Process)) : Prop :=
  ∃ st p', r = some (st, p')
    ∧ (st ≠ .ok → p'.info = p.info)
    ∧ (st = .ok → ∃ x, x.targetAddr = t ∧ x.status = REGISTERED
      ∧ p'.info.live = x ::ₘ p.info.live ∧ ∀ y ∈ p.info.live, y.targetAddr ≠ t)

/-- A call that adds no item fails and changes nothing. -/
theorem registerInlineHook_fails (h : ¬ Adds os t n p) :
    ∃ st, st ≠ .ok ∧ registerInlineHook os t n a p = some (st, p) := by
  unfold registerInlineHook
  by_cases he : (!os.isExecutableAddr t || !os.isExecutableAddr n) = true
  · exact ⟨.errorNotExecutable, by decide, if_pos he⟩
  · rw [if_neg he]
    simp only [Bool.or_eq_true, Bool.not_eq_true', not_or, Bool.not_eq_false] at he
    cases hf : findInlineHookItem p.info t with
    | none => exact absurd ⟨he.1, he.2, hf⟩ h
    | some i =>
      dsimp only
      split_ifs
      · exact ⟨.errorAlreadyRegistered, by decide, rfl⟩
      · exact ⟨.errorAlreadyHooked, by decide, rfl⟩
      · exact ⟨.errorUnknown, by decide, rfl⟩

/-- A call that adds an item fills the next slot, or crashes if there is
none. -/
theorem registerInlineHook_adds (h : Adds os t n p) :
    registerInlineHook os t n a p
      = if p.info.size < 1024 then
          some (.ok, fillItem os t n a p.info.size { p.info with size := p.info.size + 1 } p)
        else none := by
  obtain ⟨ht, hn, hf⟩ := h
  unfold registerInlineHook addInlineHookItem
  rw [ht, hn, hf]
  by_cases hs : p.info.size < 1024
  · rw [if_pos hs, if_neg (Nat.not_le.mpr hs)]
    rfl
  · rw [if_neg hs, if_pos (Nat.le_of_not_lt hs)]
    rfl

/-- The live items after a registration. -/
theorem fillItem_live_iff (os : Os) (t n a : Word) (hsize : p.info.size < 1024) :
    (∃ x, x.targetAddr = t ∧ x.status = REGISTERED
      ∧ (fillItem os t n a p.info.size { p.info with size := p.info.size + 1 } p).info.live
        = x ::ₘ p.info.live)
      ↔ (sizeStores p.info.size (leftoverCount p.info) (targetBoundaries p.code t)).getLastD
          (p.info.size + 1) = p.info.size + 1 := by
  obtain ⟨hbefore, ht, hst, hs⟩ := fillItem_registry os t n a hsize
  rw [← hs]
  constructor
  · rintro ⟨x, -, -, hlive⟩
    have hcard := congrArg Multiset.card hlive
    rw [Multiset.card_cons] at hcard
    simpa [InlineHookInfo.live, SlotArray.live] using hcard
  · intro hs'
    refine ⟨_, ht, hst, ?_⟩
    have hsame : SlotArray.live
          (fillItem os t n a p.info.size { p.info with size := p.info.size + 1 } p).info.item
          p.info.size = p.info.live :=
      Multiset.map_congr rfl (fun j hj => hbefore j (Multiset.mem_range.mp hj))
    have happend := SlotArray.live_append (f := (fillItem os t n a p.info.size
      { p.info with size := p.info.size + 1 } p).info.item) (n := p.info.size)
      ((fillItem os t n a p.info.size { p.info with size := p.info.size + 1 } p).info.item
        p.info.size)
    rw [Function.update_eq_self, hsame] at happend
    unfold InlineHookInfo.live at happend ⊢
    rw [hs']
    exact happend

/-- Where the tables have room nothing is stored to the size. -/
theorem sizeStores_of_room {pos : ℕ} (_ : pos < 1024) {c : ℕ} {bs : List (ℕ × ℕ)}
    (h20 : c + bs.length ≤ 20) : sizeStores pos c bs = [] := by
  induction bs generalizing c with
  | nil => rfl
  | cons b bs ih =>
    rw [List.length_cons] at h20
    unfold sizeStores
    rw [if_neg (by omega : ¬ 4 + c = 28)]
    dsimp only
    rw [if_neg (by omega : ¬ 8 + c = 28), if_neg (by omega), if_neg (by omega),
      Nat.mod_eq_of_lt (by omega : c + 1 < 2 ^ 32), ih (by omega)]
    rfl

end Registration

/-! ### A full registry -/

/-- The system of the run: a block and a page of their own for each
registration. -/
def fillingOs (k : ℕ) : Os where
  isExecutableAddr := fun _ => true
  malloc := BitVec.ofNat 32 (0x100000 + 16 * k)
  mmap := BitVec.ofNat 32 (0x200000 + 4096 * k)

/-- The ARM targets of the run. -/
def fillingTarget (k : ℕ) : Word := BitVec.ofNat 32 (0x8000 + 16 * k)

/-- The process after `k` registrations. -/
def registerMany : ℕ → Process
  | 0 => startProcess
  | k + 1 =>
    fillItem (fillingOs k) (fillingTarget k) 0xA000#32 0#32 (registerMany k).info.size
      { (registerMany k).info with size := (registerMany k).info.size + 1 } (registerMany k)

/-- What the registry holds then. -/
structure Filled (k : ℕ) (p : Process) : Prop where
  size : p.info.size = k
  targetAddr : ∀ j < k, (p.info.item j).targetAddr = fillingTarget j
  unused : ∀ j ≥ k, (p.info.item j).count = 0#32

theorem Filled.fits {k : ℕ} {p : Process} (h : Filled k p) (t : Word) : Fits t p := by
  have h6 := targetBoundaries_length_le p.code t
  have h0 : leftoverCount p.info = 0 := congrArg BitVec.toNat (h.unused _ h.size.ge)
  unfold Fits
  omega

theorem filled_registerMany {k : ℕ} (hk : k ≤ 1024) : Filled k (registerMany k) := by
  induction k with
  | zero => exact ⟨rfl, fun j hj => absurd hj (Nat.not_lt_zero j), fun _ _ => rfl⟩
  | succ k ih =>
    have h := ih (by omega)
    have hsize : (registerMany k).info.size < 1024 := by
      rw [h.size]
      omega
    have hfit := h.fits (fillingTarget k)
    have hroom := sizeStores_of_room hsize hfit
    obtain ⟨hbefore, ht, -, hs⟩ := fillItem_registry (fillingOs k) (fillingTarget k) 0xA000#32
      0#32 hsize
    rw [hroom] at hs
    refine ⟨hs.trans (congrArg Nat.succ h.size), fun j hj => ?_, fun j hj => ?_⟩
    · rcases Nat.lt_succ_iff_lt_or_eq.mp hj with hlt | rfl
      · exact (congrArg InlineHookItem.targetAddr (hbefore j (by rw [h.size]; exact hlt))).trans
          (h.targetAddr j hlt)
      · rw [h.size] at ht
        show (InlineHookInfo.item _ j).targetAddr = _
        rw [registerMany, h.size]
        exact ht
    · rw [registerMany, fillItem_info hfit hsize, h.size]
      refine (congrArg InlineHookItem.count (Function.update_of_ne (by omega) _ _)).trans ?_
      exact h.unused j (by omega)

/-- The next target is new. -/
theorem Filled.adds {k : ℕ} {p : Process} (h : Filled k p) (hk : k ≤ 1024) :
    Adds (fillingOs k) (fillingTarget k) 0xA000#32 p := by
  refine ⟨rfl, rfl, findInlineHookItem_eq_none.mpr (fun x hx => ?_)⟩
  obtain ⟨j, hj, rfl⟩ := SlotArray.mem_live.mp hx
  rw [h.size] at hj
  rw [h.targetAddr j hj]
  intro heq
  have hnat := congrArg BitVec.toNat heq
  unfold fillingTarget at hnat
  rw [BitVec.toNat_ofNat, BitVec.toNat_ofNat] at hnat
  omega

theorem reachable_registerMany {k : ℕ} (hk : k ≤ 1024) :
    Reachable (fun _ _ _ => True) startProcess (registerMany k) := by
  induction k with
  | zero => exact .refl
  | succ k ih =>
    have h := filled_registerMany (show k ≤ 1024 by omega)
    refine (ih (by omega)).tail ⟨.registerInlineHook (fillingOs k) (fillingTarget k) 0xA000#32
      0#32, fun _ _ _ => trivial, ?_⟩
    show (registerInlineHook _ _ _ _ _).map Prod.snd = _
    rw [registerInlineHook_adds (h.adds (by omega)), if_pos (by rw [h.size]; omega)]
    rfl

end InlineHook
