import AndroidReverse.InlineHook
import AndroidReverse.SlotArray
import Mathlib.Logic.Relation

/-!
# What the calls of the registry do

Every call of the interface is a sequence of three changes: an item is
registered, an item is hooked, an item is unhooked. `Change` says what each of
them does to the code, to the heap and to the items that are live, which are
taken as a multiset here: the registry is an array in which the last item
fills the gap of a deleted one, and nothing depends on the order.

A registration is where the registry can go wrong. It appends the boundaries
of the prologue to the tables of its item from the `count` the slot was left
with. As long as the count stays within 20, the appends change nothing but the
tables and the count, and `Change` is all there is to a call. Past it they
overrun the item's other fields, and nothing is said.
-/

namespace InlineHook

open Arm Relocate

/-! ## Windows and blocks -/

/-- The length of the prologue that is saved and patched. -/
def windowLength (target_addr : Word) : ℕ := if testBit0 target_addr then 12 else 8

/-- The addresses of the prologue of a target. -/
def window (target_addr : Word) : Set Word :=
  {a | InBlock (clearBit0 target_addr) (windowLength target_addr) a}

/-- The addresses of the heap block that holds an item's saved prologue. -/
def block (item : InlineHookItem) : Set Word :=
  {a | InBlock item.origInstructions (windowLength item.targetAddr) a}

theorem windowLength_cases (t : Word) : windowLength t = 12 ∨ windowLength t = 8 := by
  unfold windowLength
  split_ifs
  · exact Or.inl rfl
  · exact Or.inr rfl

theorem four_le_windowLength (t : Word) : 4 ≤ windowLength t := by
  rcases windowLength_cases t with h | h <;> omega

theorem windowLength_le (t : Word) : windowLength t ≤ 12 := by
  rcases windowLength_cases t with h | h <;> omega

theorem windowLength_toNat (t : Word) : (BitVec.ofNat 32 (windowLength t)).toNat = windowLength t :=
  Nat.mod_eq_of_lt (by have := windowLength_le t; omega)

theorem memcpy_of_out {m m' : Mem} {dest src a : Word} {n : ℕ} (h : ¬ InBlock dest n a) :
    memcpy m dest m' src n a = m a := if_neg h

theorem memcpy_of_in {m m' : Mem} {dest src a : Word} {n : ℕ} (h : InBlock dest n a) :
    memcpy m dest m' src n a = m' (src + (a - dest)) := if_pos h

/-- Byte `k` of a copy. -/
theorem memcpy_at (m m' : Mem) (dest src : Word) {n k : ℕ} (hk : k < n) (hn : n ≤ 12) :
    memcpy m dest m' src n (dest + BitVec.ofNat 32 k) = m' (src + BitVec.ofNat 32 k) := by
  rw [memcpy_of_in (inBlock_offset hk (by omega)), BitVec.add_comm dest, BitVec.add_sub_cancel]

/-- An address inside one block, carried over to another. -/
theorem inBlock_shift {base base' a : Word} {n : ℕ} (h : InBlock base n a) :
    InBlock base' n (base' + (a - base)) := by
  rw [InBlock, BitVec.add_comm, BitVec.add_sub_cancel]
  exact h

/-- An ARM target is its own address. -/
theorem clearBit0_of_not_testBit0 {t : Word} (h : ¬ testBit0 t) : clearBit0 t = t := by
  have h0 : t[0] = false := by
    have h1 : t &&& 1#32 = 0#32 := by simpa [testBit0] using h
    have hb := congrArg (fun v => BitVec.getLsbD v 0) h1
    simpa using hb
  refine BitVec.eq_of_getLsbD_eq (fun i hi => ?_)
  rw [clearBit0, BitVec.getLsbD_and]
  interval_cases i <;> simp [h0]

/-- **The patch stays in the window.** -/
theorem doInlineHook_code (pos : ℕ) (p : Process) :
    Set.EqOn (doInlineHook pos p).code p.code (window (p.info.item pos).targetAddr)ᶜ := by
  intro a ha
  have hlen : windowLength (p.info.item pos).targetAddr
      ≤ (a - clearBit0 (p.info.item pos).targetAddr).toNat := Nat.le_of_not_lt ha
  unfold windowLength at hlen
  unfold doInlineHook
  by_cases ht : testBit0 (p.info.item pos).targetAddr
  · simp only [if_pos ht] at hlen ⊢
    refine Mem.place_of_out (by omega) (le_trans ?_ hlen)
    -- at most a `NOP` and the four halfwords of the jump
    unfold thumbPatch
    split_ifs <;> simp [ldrPc, literal]
  · simp only [if_neg ht] at hlen ⊢
    refine Mem.place_of_out (by omega) ?_
    rw [clearBit0_of_not_testBit0 ht] at hlen
    exact hlen

/-! ## Recording the boundaries -/

namespace InlineHookItem

/-- An item with other boundaries. -/
def withBoundaries (item : InlineHookItem) (orig_boundaries trampoline_boundaries : ℕ → Word)
    (count : Word) : InlineHookItem :=
  { item with
    origBoundaries := orig_boundaries
    trampolineBoundaries := trampoline_boundaries
    count := count }

/-- An item after one boundary more. -/
def record (item : InlineHookItem) (b : ℕ × ℕ) : InlineHookItem :=
  { (item.setWord (4 + item.count.toNat) (BitVec.ofNat 32 b.1)).setWord (8 + item.count.toNat)
      (BitVec.ofNat 32 b.2) with
    count := item.count + 1#32 }

/-- An item after all boundaries of a prologue. -/
def recordAll (item : InlineHookItem) (bs : List (ℕ × ℕ)) : InlineHookItem := bs.foldl record item

theorem recordAll_cons (item : InlineHookItem) (b : ℕ × ℕ) (bs : List (ℕ × ℕ)) :
    item.recordAll (b :: bs) = (item.record b).recordAll bs := rfl

section Words

variable {item : InlineHookItem} {k w : ℕ} {v : Word}

/-- A write to the tables leaves the other fields alone. -/
theorem setWord_eq_withBoundaries (item : InlineHookItem) (v : Word) (h4 : 4 ≤ k) (h28 : k < 28) :
    ∃ ob tb, item.setWord k v = item.withBoundaries ob tb item.count := by
  by_cases h8 : k < 8
  · refine ⟨Function.update item.origBoundaries (k - 4) v, item.trampolineBoundaries, ?_⟩
    unfold setWord
    rw [if_neg (by omega), if_pos h8]
    rfl
  · refine ⟨item.origBoundaries, Function.update item.trampolineBoundaries (k - 8) v, ?_⟩
    unfold setWord
    rw [if_neg (by omega), if_neg h8, if_pos h28]
    rfl

theorem word_setWord_self (h4 : 4 ≤ k) (h28 : k < 28) : (item.setWord k v).word k = v := by
  unfold setWord word
  by_cases h8 : k < 8
  · simp only [if_neg (Nat.not_lt.mpr h4), if_pos h8, Function.update_self]
  · simp only [if_neg (Nat.not_lt.mpr h4), if_neg h8, if_pos h28, Function.update_self]

/-- Reading another word of the tables. -/
theorem word_setWord_of_ne (h4 : 4 ≤ k) (h28 : k < 28) (hw4 : 4 ≤ w) (hw28 : w < 28)
    (h : w ≠ k) : (item.setWord k v).word w = item.word w := by
  unfold setWord word
  by_cases hk8 : k < 8 <;> by_cases hw8 : w < 8 <;>
    simp only [if_neg (Nat.not_lt.mpr h4), if_neg (Nat.not_lt.mpr hw4), hk8, hw8, if_true,
      if_false, if_pos h28, if_pos hw28]
  · rw [Function.update_of_ne (by omega)]
  · rw [Function.update_of_ne (by omega)]

/-- The words of the tables do not depend on the other fields. -/
theorem word_count (count : Word) (h28 : w < 28) :
    { item with count := count }.word w = item.word w := by
  unfold word
  rw [if_pos h28, if_pos h28]

theorem word_status (status : Word) (h28 : w < 28) :
    { item with status := status }.word w = item.word w := by
  unfold word
  rw [if_pos h28, if_pos h28]

end Words

section Record

variable {item : InlineHookItem} {b : ℕ × ℕ} {bs : List (ℕ × ℕ)} {c w : ℕ}

/-- **One boundary** changes the tables and the count. -/
theorem record_eq (hc : item.count.toNat = c) (h20 : c < 20) :
    ∃ ob tb, item.record b = item.withBoundaries ob tb (item.count + 1#32) := by
  obtain ⟨ob, tb, h⟩ := setWord_eq_withBoundaries item (BitVec.ofNat 32 b.1) (k := 4 + c)
    (by omega) (by omega)
  obtain ⟨ob', tb', h'⟩ := setWord_eq_withBoundaries (item.withBoundaries ob tb item.count)
    (BitVec.ofNat 32 b.2) (k := 8 + c) (by omega) (by omega)
  refine ⟨ob', tb', ?_⟩
  unfold record
  rw [hc, h, h']
  rfl

theorem record_count (hc : item.count.toNat = c) (h20 : c < 20) :
    (item.record b).count.toNat = c + 1 := by
  show (item.count + 1#32).toNat = c + 1
  rw [BitVec.toNat_add, hc]
  exact Nat.mod_eq_of_lt (show c + 1 < 2 ^ 32 by omega)

theorem word_record_orig (hc : item.count.toNat = c) (h20 : c < 20) :
    (item.record b).word (4 + c) = BitVec.ofNat 32 b.1 := by
  unfold record
  rw [hc, word_count _ (by omega), word_setWord_of_ne (by omega) (by omega) (by omega) (by omega)
    (by omega), word_setWord_self (by omega) (by omega)]

theorem word_record_trampoline (hc : item.count.toNat = c) (h20 : c < 20) :
    (item.record b).word (8 + c) = BitVec.ofNat 32 b.2 := by
  unfold record
  rw [hc, word_count _ (by omega), word_setWord_self (by omega) (by omega)]

theorem word_record_of_ne (hc : item.count.toNat = c) (h20 : c < 20) (hw4 : 4 ≤ w)
    (hw28 : w < 28) (ho : w ≠ 4 + c) (ht : w ≠ 8 + c) : (item.record b).word w = item.word w := by
  unfold record
  rw [hc, word_count _ hw28, word_setWord_of_ne (by omega) (by omega) hw4 hw28 ht,
    word_setWord_of_ne (by omega) (by omega) hw4 hw28 ho]

/-- **All boundaries of a prologue**, where the tables have room for them,
change the tables and the count. -/
theorem recordAll_eq (hc : item.count.toNat = c) (h20 : c + bs.length ≤ 20) :
    ∃ ob tb, item.recordAll bs
      = item.withBoundaries ob tb (item.count + BitVec.ofNat 32 bs.length) := by
  induction bs generalizing item c with
  | nil =>
    refine ⟨item.origBoundaries, item.trampolineBoundaries, ?_⟩
    rw [List.length_nil, BitVec.add_zero]
    rfl
  | cons b bs ih =>
    rw [List.length_cons] at h20
    obtain ⟨ob, tb, h⟩ := record_eq (b := b) hc (by omega)
    obtain ⟨ob', tb', h'⟩ := ih (record_count (b := b) hc (by omega)) (by omega)
    refine ⟨ob', tb', ?_⟩
    rw [h] at h'
    rw [recordAll_cons, h, h', List.length_cons,
      Nat.add_comm bs.length 1, BitVec.ofNat_add, ← BitVec.add_assoc]
    rfl

/-- What the boundaries do not touch. -/
theorem word_recordAll_of_ne (hc : item.count.toNat = c) (h20 : c + bs.length ≤ 20)
    (hw4 : 4 ≤ w) (hw28 : w < 28) (h : ∀ k, k < bs.length → w ≠ 4 + c + k ∧ w ≠ 8 + c + k) :
    (item.recordAll bs).word w = item.word w := by
  induction bs generalizing item c with
  | nil => rfl
  | cons b bs ih =>
    rw [List.length_cons] at h20 h
    obtain ⟨ho, ht⟩ := h 0 (by omega)
    rw [recordAll_cons,
      ih (record_count (b := b) hc (by omega)) (by omega) (fun k hk => ?_),
      word_record_of_ne hc (by omega) hw4 hw28 ho ht]
    obtain ⟨ho, ht⟩ := h (k + 1) (by omega)
    omega

/-- **The first table is written last.** Entry `c + k` of it is that of
boundary `k`, wherever it falls. -/
theorem word_recordAll_orig (hc : item.count.toNat = c) (h20 : c + bs.length ≤ 20) {k : ℕ}
    (hb : bs[k]? = some b) : (item.recordAll bs).word (4 + (c + k)) = BitVec.ofNat 32 b.1 := by
  induction bs generalizing item c k with
  | nil => simp at hb
  | cons x bs ih =>
    rw [List.length_cons] at h20
    have hc' := record_count (b := x) hc (by omega)
    rw [recordAll_cons]
    cases k with
    | zero =>
      obtain rfl : x = b := by simpa using hb
      rw [Nat.add_zero, word_recordAll_of_ne hc' (by omega) (by omega) (by omega)
        (fun k hk => by omega), word_record_orig hc (by omega)]
    | succ k =>
      rw [show 4 + (c + (k + 1)) = 4 + (c + 1 + k) by omega]
      exact ih hc' (by omega) hb

/-- An entry of the second table stays, if no fifth entry of the first follows
it. -/
theorem word_recordAll_trampoline (hc : item.count.toNat = c) (h20 : c + bs.length ≤ 20) {k : ℕ}
    (hb : bs[k]? = some b) (hk : bs.length ≤ 4 + k) :
    (item.recordAll bs).word (8 + (c + k)) = BitVec.ofNat 32 b.2 := by
  induction bs generalizing item c k with
  | nil => simp at hb
  | cons x bs ih =>
    rw [List.length_cons] at h20 hk
    have hc' := record_count (b := x) hc (by omega)
    rw [recordAll_cons]
    cases k with
    | zero =>
      obtain rfl : x = b := by simpa using hb
      -- the first table goes on to overwrite this entry from its fifth one on
      rw [Nat.add_zero, word_recordAll_of_ne hc' (by omega) (by omega) (by omega)
        (fun k hk => by omega), word_record_trampoline hc (by omega)]
    | succ k =>
      rw [show 8 + (c + (k + 1)) = 8 + (c + 1 + k) by omega]
      exact ih hc' (by omega) hb (by omega)

end Record

end InlineHookItem

section Registry

variable {info : InlineHookInfo} {pos : ℕ}

@[simp] theorem setItem_item_self (item : InlineHookItem) :
    (info.setItem pos item).item pos = item := by
  unfold InlineHookInfo.setItem
  exact Function.update_self pos item info.item

@[simp] theorem setItem_setItem (item item' : InlineHookItem) :
    (info.setItem pos item).setItem pos item' = info.setItem pos item' := by
  unfold InlineHookInfo.setItem
  rw [Function.update_idem]

theorem setItem_self : info.setItem pos (info.item pos) = info := by
  unfold InlineHookInfo.setItem
  rw [Function.update_eq_self]

/-- A write within item `pos`. -/
theorem setWord_item {k : ℕ} (hpos : pos < 1024) (hk : k < 33) (v : Word) :
    info.setWord pos k v = info.setItem pos ((info.item pos).setWord k v) := by
  unfold InlineHookInfo.setWord
  rw [Nat.div_eq_of_lt hk, Nat.mod_eq_of_lt hk, Nat.add_zero, if_pos hpos]

/-- What the relocator records of a boundary stays within the item. -/
theorem recordBoundary_eq (info : InlineHookInfo) (hpos : pos < 1024)
    (h20 : (info.item pos).count.toNat < 20)
    (b : ℕ × ℕ) :
    recordBoundary pos info b.1 b.2 = info.setItem pos ((info.item pos).record b) := by
  obtain ⟨ob, tb, h⟩ := InlineHookItem.setWord_eq_withBoundaries (info.item pos)
    (BitVec.ofNat 32 b.1) (k := 4 + (info.item pos).count.toNat) (by omega) (by omega)
  have hcount : ((info.item pos).setWord (4 + (info.item pos).count.toNat)
      (BitVec.ofNat 32 b.1)).count = (info.item pos).count := by
    rw [h]
    rfl
  obtain ⟨ob', tb', h'⟩ := InlineHookItem.setWord_eq_withBoundaries
    ((info.item pos).withBoundaries ob tb (info.item pos).count) (BitVec.ofNat 32 b.2)
    (k := 8 + (info.item pos).count.toNat) (by omega) (by omega)
  unfold recordBoundary InlineHookItem.record
  -- the first store leaves the count alone, so both go by the same index
  simp only [setWord_item hpos (show 4 + (info.item pos).count.toNat < 33 by omega),
    setItem_item_self, hcount,
    setWord_item hpos (show 8 + (info.item pos).count.toNat < 33 by omega), setItem_setItem]
  rw [h, h']
  rfl

theorem foldl_recordBoundary (hpos : pos < 1024) (bs : List (ℕ × ℕ)) {c : ℕ}
    (hc : (info.item pos).count.toNat = c) (h20 : c + bs.length ≤ 20) :
    bs.foldl (fun info x => recordBoundary pos info x.1 x.2) info
      = info.setItem pos ((info.item pos).recordAll bs) := by
  induction bs generalizing info c with
  | nil => exact setItem_self.symm
  | cons b bs ih =>
    rw [List.length_cons] at h20
    have h := recordBoundary_eq info hpos (by omega) b
    have hc' : ((recordBoundary pos info b.1 b.2).item pos).count.toNat = c + 1 := by
      rw [h, setItem_item_self]
      exact InlineHookItem.record_count hc (by omega)
    rw [List.foldl_cons, ih hc' (by omega), h, setItem_item_self, setItem_setItem]
    rfl

end Registry

/-! ## The live items -/

/-- The items of the registry. -/
def InlineHookInfo.live (info : InlineHookInfo) : Multiset InlineHookItem :=
  SlotArray.live info.item info.size

/-- The items but for the one at `pos`. -/
def InlineHookInfo.others (info : InlineHookInfo) (pos : ℕ) : Multiset InlineHookItem :=
  SlotArray.others info.item info.size pos

section Live

variable {info : InlineHookInfo} {pos : ℕ}

theorem live_eq_cons (hpos : pos < info.size) :
    info.live = info.item pos ::ₘ info.others pos := SlotArray.live_eq_cons hpos

theorem live_setItem (hpos : pos < info.size) (item : InlineHookItem) :
    (info.setItem pos item).live = item ::ₘ info.others pos := SlotArray.live_update hpos item

theorem live_addItem (item : InlineHookItem) :
    (InlineHookInfo.setItem { info with size := info.size + 1 } info.size item).live
      = item ::ₘ info.live := SlotArray.live_append item

/-- **Deletion removes the item**, and the order is all it disturbs. -/
theorem live_deleteInlineHookItem (hpos : pos < info.size) :
    (deleteInlineHookItem info pos).live = info.others pos := SlotArray.live_remove hpos

theorem findInlineHookItem_eq_none {t : Word} :
    findInlineHookItem info t = none ↔ ∀ x ∈ info.live, x.targetAddr ≠ t := by
  simp [findInlineHookItem, InlineHookInfo.live, SlotArray.mem_live]

theorem lt_of_findInlineHookItem {t : Word} (h : findInlineHookItem info t = some pos) :
    pos < info.size := List.mem_range.mp (List.mem_of_find?_eq_some h)

end Live

/-! ## The changes -/

/-- The boundaries of the prologue a target has in the code now. -/
def targetBoundaries (code : Mem) (target_addr : Word) : List (ℕ × ℕ) :=
  boundaries code target_addr (fun k => code (clearBit0 target_addr + BitVec.ofNat 32 k))
    (windowLength target_addr)

/-- The `count` that the next item to be registered finds in its slot. -/
def leftoverCount (info : InlineHookInfo) : ℕ := (info.item info.size).count.toNat

/-- **The tables have room** for the registration of a target. -/
def Fits (target_addr : Word) (p : Process) : Prop :=
  leftoverCount p.info + (targetBoundaries p.code target_addr).length ≤ 20

/-- **What a registration leaves in its item**, if it fits. -/
structure Registered (os : Os) (target_addr new_addr proto_addr : Word) (p : Process)
    (x : InlineHookItem) : Prop where
  targetAddr : x.targetAddr = target_addr
  newAddr : x.newAddr = new_addr
  protoAddr : x.protoAddr = proto_addr
  origInstructions : x.origInstructions = os.malloc
  trampolineInstructions : x.trampolineInstructions = os.mmap
  length : x.length = BitVec.ofNat 32 (windowLength target_addr)
  status : x.status = REGISTERED
  /-- The count goes on from where it was. -/
  count : x.count.toNat = leftoverCount p.info + (targetBoundaries p.code target_addr).length
  /-- The entries stand behind those that were there. -/
  origBoundaries : ∀ k b, (targetBoundaries p.code target_addr)[k]? = some b →
    x.word (4 + (leftoverCount p.info + k)) = BitVec.ofNat 32 b.1
  trampolineBoundaries : ∀ k b, (targetBoundaries p.code target_addr)[k]? = some b →
    (targetBoundaries p.code target_addr).length ≤ 4 + k →
    x.word (8 + (leftoverCount p.info + k)) = BitVec.ofNat 32 b.2

/-- **One change of the registry.** Registrations that add an item meet `ok`,
which depends on what the system answers, the target and the process
before. -/
inductive Change (ok : Os → Word → Process → Prop) (p p' : Process) : Prop
  | register (os : Os) (target_addr new_addr proto_addr : Word) (x : InlineHookItem)
      (hok : ok os target_addr p)
      (hnew : ∀ y ∈ p.info.live, y.targetAddr ≠ target_addr)
      (hx : Registered os target_addr new_addr proto_addr p x)
      (hlive : p'.info.live = x ::ₘ p.info.live)
      (hcode : p'.code = p.code)
      (hheap : p'.heap = memcpy p.heap os.malloc p.code (clearBit0 target_addr)
        (windowLength target_addr))
  | hook (x : InlineHookItem) (rest : Multiset InlineHookItem)
      (hx : x.status = REGISTERED)
      (hlive : p.info.live = x ::ₘ rest)
      (hlive' : p'.info.live = { x with status := HOOKED } ::ₘ rest)
      (hcode : Set.EqOn p'.code p.code (window x.targetAddr)ᶜ)
      (hheap : p'.heap = p.heap)
  | unHook (x : InlineHookItem) (rest : Multiset InlineHookItem)
      (hx : x.status = HOOKED)
      (hlive : p.info.live = x ::ₘ rest)
      (hlive' : p'.info.live = rest)
      (hcode : p'.code = memcpy p.code (clearBit0 x.targetAddr) p.heap x.origInstructions
        x.length.toNat)
      (hheap : p'.heap = p.heap)

/-- The saved prologue has the boundaries of the code. -/
theorem boundaries_memcpy (m code : Mem) (dest t : Word) :
    boundaries code t
        (fun k => memcpy m dest code (clearBit0 t) (windowLength t) (dest + BitVec.ofNat 32 k))
        (windowLength t)
      = targetBoundaries code t :=
  boundaries_congr code code t (four_le_windowLength t)
    (fun _ hk => memcpy_at m code dest (clearBit0 t) hk (windowLength_le t))

section Registration

variable (os : Os) (t n a : Word) (p : Process)

/-- What the relocator finds in the new item: the fields of the new target
over the tables of the slot's last occupant. -/
def preparedItem : InlineHookItem :=
  { p.info.item p.info.size with
    targetAddr := t
    newAddr := n
    protoAddr := a
    length := BitVec.ofNat 32 (windowLength t)
    origInstructions := os.malloc
    trampolineInstructions := os.mmap }

/-- What it leaves there, if the tables have room. -/
def registeredItem : InlineHookItem :=
  { (preparedItem os t n a p).recordAll (targetBoundaries p.code t) with status := REGISTERED }

variable {os t n a p}

theorem registered_registeredItem (hfit : Fits t p) :
    Registered os t n a p (registeredItem os t n a p) := by
  have hcount : (preparedItem os t n a p).count.toNat = leftoverCount p.info := rfl
  obtain ⟨ob, tb, h⟩ := InlineHookItem.recordAll_eq hcount hfit
  have hitem : registeredItem os t n a p
      = { (preparedItem os t n a p).withBoundaries ob tb ((preparedItem os t n a p).count
          + BitVec.ofNat 32 (targetBoundaries p.code t).length) with status := REGISTERED } := by
    rw [registeredItem, h]
  have hword : ∀ w, w < 28 → (registeredItem os t n a p).word w
      = ((preparedItem os t n a p).recordAll (targetBoundaries p.code t)).word w :=
    fun w hw => InlineHookItem.word_status REGISTERED hw
  unfold Fits at hfit
  refine ⟨?_, ?_, ?_, ?_, ?_, ?_, rfl, ?_, fun k b hb => ?_, fun k b hb hlen => ?_⟩
  · rw [hitem]
    rfl
  · rw [hitem]
    rfl
  · rw [hitem]
    rfl
  · rw [hitem]
    rfl
  · rw [hitem]
    rfl
  · rw [hitem]
    rfl
  · rw [hitem]
    show ((preparedItem os t n a p).count + BitVec.ofNat 32 _).toNat = _
    rw [BitVec.toNat_add, hcount, BitVec.toNat_ofNat]
    omega
  · have hk := (List.getElem?_eq_some_iff.mp hb).1
    rw [hword _ (by omega)]
    exact InlineHookItem.word_recordAll_orig hcount hfit hb
  · have hk := (List.getElem?_eq_some_iff.mp hb).1
    rw [hword _ (by omega)]
    exact InlineHookItem.word_recordAll_trampoline hcount hfit hb hlen

/-- **The registry after a registration.** -/
theorem fillItem_info (hfit : Fits t p) (hsize : p.info.size < 1024) :
    (fillItem os t n a p.info.size { p.info with size := p.info.size + 1 } p).info
      = InlineHookInfo.setItem { p.info with size := p.info.size + 1 } p.info.size
          (registeredItem os t n a p) := by
  let info := InlineHookInfo.setItem { p.info with size := p.info.size + 1 } p.info.size
    (preparedItem os t n a p)
  have hitem : info.item p.info.size = preparedItem os t n a p := setItem_item_self _
  have hcount : (info.item p.info.size).count.toNat = leftoverCount p.info := by
    rw [hitem]
    rfl
  let r := (relocateInstruction (recordBoundary p.info.size) p.code t
    (fun k => memcpy p.heap os.malloc p.code (clearBit0 t) (windowLength t)
      (os.malloc + BitVec.ofNat 32 k)) (windowLength t) info).2
  have hr : r = info.setItem p.info.size
      ((preparedItem os t n a p).recordAll (targetBoundaries p.code t)) := by
    refine (relocateInstruction_recorded (recordBoundary p.info.size) p.code t _ _ info).trans ?_
    rw [boundaries_memcpy, foldl_recordBoundary hsize _ hcount hfit, hitem]
  show r.setItem p.info.size { r.item p.info.size with status := REGISTERED } = _
  rw [hr, setItem_item_self, setItem_setItem, setItem_setItem]
  rfl

/-- **A registration is a change**, if it fits. -/
theorem fillItem_change {ok : Os → Word → Process → Prop} (hok : ok os t p) (hfit : Fits t p)
    (hnew : findInlineHookItem p.info t = none) (hsize : p.info.size < 1024) :
    Change ok p
      (fillItem os t n a p.info.size { p.info with size := p.info.size + 1 } p) := by
  have hlive : (fillItem os t n a p.info.size { p.info with size := p.info.size + 1 } p).info.live
      = registeredItem os t n a p ::ₘ p.info.live := by
    rw [fillItem_info hfit hsize, live_addItem]
  exact .register os t n a (registeredItem os t n a p) hok (findInlineHookItem_eq_none.mp hnew)
    (registered_registeredItem hfit) hlive rfl rfl

end Registration

theorem doInlineHook_change {ok : Os → Word → Process → Prop} {pos : ℕ} {p : Process}
    (hpos : pos < p.info.size) (hx : (p.info.item pos).status = REGISTERED) :
    Change ok p (doInlineHook pos p) :=
  .hook (p.info.item pos) (p.info.others pos) hx (live_eq_cons hpos) (live_setItem hpos _)
    (doInlineHook_code pos p) rfl

theorem doInlineUnHook_change {ok : Os → Word → Process → Prop} {pos : ℕ} {p : Process}
    (hpos : pos < p.info.size) (hx : (p.info.item pos).status = HOOKED) :
    Change ok p (doInlineUnHook pos p) :=
  .unHook (p.info.item pos) (p.info.others pos) hx (live_eq_cons hpos)
    (live_deleteInlineHookItem hpos) rfl rfl

end InlineHook
