import AndroidReverse.InlineHookBoundaries
import AndroidReverse.InlineHookTables
import AndroidReverse.TablePair
import Mathlib.Data.List.Find

/-!
# Moving the threads

While a target is hooked or unhooked the other threads are stopped, and one
that was stopped inside the prologue or inside the trampoline is moved to the
same instruction in the other code. `doProcessThreadPC` finds the instruction
through the boundary tables of the item.

The tables of an item that was registered in an unused slot, for a prologue
with at most four instructions, hold two strictly increasing sequences of
offsets, so the two moves are a partial bijection and its inverse
(`TablePair.pequiv`). Where the moved thread arrives is a block of the
trampoline, or its final jump.
-/

namespace InlineHook

open Arm Relocate

/-- The actions of `freeze`. -/
inductive Action where
  | enable
  | disable
deriving DecidableEq, Repr

/-- The word `k` words behind the start of item `pos`. Behind the last item is
`size`; what is behind that belongs to other objects, and reads as zero
here. -/
def InlineHookInfo.word (info : InlineHookInfo) (pos k : ℕ) : Word :=
  let j := pos + k / 33
  if j < 1024 then (info.item j).word (k % 33)
  else if j = 1024 ∧ k % 33 = 0 then BitVec.ofNat 32 info.size
  else 0#32

/-- `doProcessThreadPC` on the item at `pos`: whether it moves a thread that is
at `pc`, and where the thread is then. The loop bound is an `int`. -/
def doProcessThreadPC (info : InlineHookInfo) (pos : ℕ) (pc : Word) (action : Action) :
    Bool × Word :=
  let item := info.item pos
  let count := item.count.toInt.toNat
  match action with
  | .enable =>
    let offset := pc - clearBit0 item.targetAddr
    match (List.range count).find? (fun i => offset == info.word pos (4 + i)) with
    | some i => (true, item.trampolineInstructions + info.word pos (8 + i))
    | none => (false, pc)
  | .disable =>
    let offset := pc - item.trampolineInstructions
    match (List.range count).find? (fun i => offset == info.word pos (8 + i)) with
    | some i => (true, clearBit0 item.targetAddr + info.word pos (4 + i))
    | none => (false, pc)

/-- A word within an item. -/
theorem info_word {info : InlineHookInfo} {pos k : ℕ} (hpos : pos < 1024) (hk : k < 33) :
    info.word pos k = (info.item pos).word k := by
  unfold InlineHookInfo.word
  rw [Nat.div_eq_of_lt hk, Nat.mod_eq_of_lt hk, Nat.add_zero, if_pos hpos]

section Tables

variable {info : InlineHookInfo} {pos c : ℕ}

/-- The address in the prologue that entry `i` of the tables stands for. -/
def InlineHookItem.origAddr (item : InlineHookItem) (i : ℕ) : Word :=
  clearBit0 item.targetAddr + item.origBoundary i

/-- The address in the trampoline. -/
def InlineHookItem.trampolineAddr (item : InlineHookItem) (i : ℕ) : Word :=
  item.trampolineInstructions + item.trampolineBoundary i

/-- The test of the source, on addresses. -/
theorem sub_beq (pc base v : Word) : (pc - base == v) = (base + v == pc) := by
  rw [Bool.eq_iff_iff, beq_iff_eq, beq_iff_eq, BitVec.sub_eq_iff_eq_add, BitVec.add_comm v]
  exact eq_comm

/-- **The two moves translate between the tables**, if the tables stay within
the item. -/
theorem doProcessThreadPC_enable (hpos : pos < 1024) (hc : (info.item pos).count.toNat = c)
    (h20 : c ≤ 20) (pc : Word) :
    doProcessThreadPC info pos pc .enable
      = match TablePair.translate c (info.item pos).origAddr (info.item pos).trampolineAddr pc with
        | some a => (true, a)
        | none => (false, pc) := by
  have hint : (info.item pos).count.toInt.toNat = c := by
    rw [BitVec.toInt_eq_toNat_of_lt (by omega), Int.toNat_natCast, hc]
  have hfind : (List.range c).find? (fun i =>
        pc - clearBit0 (info.item pos).targetAddr == info.word pos (4 + i))
      = (List.range c).find? (fun i => (info.item pos).origAddr i == pc) :=
    List.find?_congr (fun i hi => by
      have hi' : i < c := List.mem_range.mp hi
      rw [info_word hpos (by omega), sub_beq]
      rfl)
  unfold doProcessThreadPC TablePair.translate
  dsimp only
  rw [hint, hfind]
  cases hf : (List.range c).find? (fun i => (info.item pos).origAddr i == pc) with
  | none => rfl
  | some i =>
    have hi : i < c := List.mem_range.mp (List.mem_of_find?_eq_some hf)
    rw [Option.map_some]
    dsimp only
    rw [info_word hpos (by omega)]
    rfl

theorem doProcessThreadPC_disable (hpos : pos < 1024) (hc : (info.item pos).count.toNat = c)
    (h20 : c ≤ 20) (pc : Word) :
    doProcessThreadPC info pos pc .disable
      = match TablePair.translate c (info.item pos).trampolineAddr (info.item pos).origAddr pc with
        | some a => (true, a)
        | none => (false, pc) := by
  have hint : (info.item pos).count.toInt.toNat = c := by
    rw [BitVec.toInt_eq_toNat_of_lt (by omega), Int.toNat_natCast, hc]
  have hfind : (List.range c).find? (fun i =>
        pc - (info.item pos).trampolineInstructions == info.word pos (8 + i))
      = (List.range c).find? (fun i => (info.item pos).trampolineAddr i == pc) :=
    List.find?_congr (fun i hi => by
      have hi' : i < c := List.mem_range.mp hi
      rw [info_word hpos (by omega), sub_beq]
      rfl)
  unfold doProcessThreadPC TablePair.translate
  dsimp only
  rw [hint, hfind]
  cases hf : (List.range c).find? (fun i => (info.item pos).trampolineAddr i == pc) with
  | none => rfl
  | some i =>
    have hi : i < c := List.mem_range.mp (List.mem_of_find?_eq_some hf)
    rw [Option.map_some]
    dsimp only
    rw [info_word hpos (by omega)]
    rfl

end Tables

/-! ## A registration in an unused slot -/

section Registration

variable {os : Os} {t n a : Word} {p p' : Process}

/-- The address of instruction `i` of a target. -/
def insnAddr (code : Mem) (target_addr : Word) (i : ℕ) : Word :=
  clearBit0 target_addr + BitVec.ofNat 32 (insnOffset target_addr (codeAt code target_addr) i)

/-- The address of its block in a trampoline page. -/
def blockAddr (code : Mem) (target_addr page : Word) (i : ℕ) : Word :=
  page + BitVec.ofNat 32 (blockOffset code target_addr (codeAt code target_addr) i)

/-- Offsets that increase strictly from a base, and stay small, are
different addresses. -/
theorem addr_injOn (base : Word) {f : ℕ → ℕ} (hf : StrictMono f) {c : ℕ}
    (hc : ∀ i < c, f i < 2 ^ 32) :
    Set.InjOn (fun i => base + BitVec.ofNat 32 (f i)) (Set.Iio c) := by
  intro i hi j hj h
  have hnat := congrArg BitVec.toNat ((BitVec.add_right_inj base).mp h)
  rw [BitVec.toNat_ofNat, BitVec.toNat_ofNat, Nat.mod_eq_of_lt (hc i hi),
    Nat.mod_eq_of_lt (hc j hj)] at hnat
  exact hf.injective hnat

variable (h : registerInlineHook os t n a p = some (.ok, p')) (hfresh : leftoverCount p.info = 0)
  (h4 : begunCount t (codeAt p.code t) (windowLength t) ≤ 4)

include h hfresh h4

/-- **The item of a registration** holds the addresses of the instructions that
begin in the prologue, and of their blocks. -/
theorem registered_tables :
    p.info.size < 1024
      ∧ (p'.info.item p.info.size).count.toNat = begunCount t (codeAt p.code t) (windowLength t)
      ∧ ∀ i < begunCount t (codeAt p.code t) (windowLength t),
        (p'.info.item p.info.size).origAddr i = insnAddr p.code t i
          ∧ (p'.info.item p.info.size).trampolineAddr i = blockAddr p.code t os.mmap i := by
  obtain ⟨-, hsize, rfl⟩ := registerInlineHook_ok h
  have hlen := targetBoundaries_length p.code t
  have hfit : Fits t p := by
    unfold Fits
    omega
  have hx : Registered os t n a p (registeredItem os t n a p) := registered_registeredItem hfit
  rw [fillItem_info hfit hsize, setItem_item_self]
  refine ⟨hsize, by rw [hx.count, hfresh, hlen, Nat.zero_add], fun i hi => ?_⟩
  have hb : (targetBoundaries p.code t)[i]?
      = some (insnOffset t (codeAt p.code t) i, blockOffset p.code t (codeAt p.code t) i) := by
    rw [targetBoundaries_eq, List.getElem?_map, List.getElem?_range hi]
    rfl
  have ho := hx.origBoundaries i _ hb
  have ht := hx.trampolineBoundaries i _ hb (by omega)
  rw [hfresh, Nat.zero_add] at ho ht
  unfold InlineHookItem.origAddr InlineHookItem.trampolineAddr InlineHookItem.origBoundary
    InlineHookItem.trampolineBoundary insnAddr blockAddr
  rw [ho, ht, hx.targetAddr, hx.trampolineInstructions]
  exact ⟨rfl, rfl⟩

end Registration

/-- **Threads are moved by a bijection** between the boundaries of a prologue
and those of its trampoline: `orig i` and `tramp i` for `i < c`. -/
structure MovesThreads (info : InlineHookInfo) (pos c : ℕ) (orig tramp : ℕ → Word) : Prop where
  /-- A thread is moved exactly if it is at a boundary. -/
  enable_iff : ∀ pc, (doProcessThreadPC info pos pc .enable).1 = true ↔ ∃ i < c, pc = orig i
  disable_iff : ∀ pc, (doProcessThreadPC info pos pc .disable).1 = true ↔ ∃ i < c, pc = tramp i
  /-- Where it is moved. -/
  enable : ∀ i < c, doProcessThreadPC info pos (orig i) .enable = (true, tramp i)
  disable : ∀ i < c, doProcessThreadPC info pos (tramp i) .disable = (true, orig i)
  /-- A thread elsewhere stays where it is. -/
  enable_else : ∀ pc, (∀ i < c, pc ≠ orig i) → doProcessThreadPC info pos pc .enable = (false, pc)
  disable_else : ∀ pc, (∀ i < c, pc ≠ tramp i) →
    doProcessThreadPC info pos pc .disable = (false, pc)
  /-- Different boundaries go to different addresses. -/
  orig_inj : ∀ i < c, ∀ j < c, orig i = orig j → i = j
  tramp_inj : ∀ i < c, ∀ j < c, tramp i = tramp j → i = j
  /-- Each move undoes the other. -/
  enable_disable : ∀ pc, (doProcessThreadPC info pos pc .enable).1 = true →
    doProcessThreadPC info pos (doProcessThreadPC info pos pc .enable).2 .disable = (true, pc)
  disable_enable : ∀ i < c,
    doProcessThreadPC info pos (doProcessThreadPC info pos (tramp i) .disable).2 .enable
      = (true, tramp i)

/-- Tables without repetitions move threads by a bijection. -/
theorem movesThreads {info : InlineHookInfo} {pos c : ℕ} {orig tramp : ℕ → Word}
    (hpos : pos < 1024) (hc : (info.item pos).count.toNat = c) (h20 : c ≤ 20)
    (horig : ∀ i < c, (info.item pos).origAddr i = orig i)
    (htramp : ∀ i < c, (info.item pos).trampolineAddr i = tramp i)
    (hoi : Set.InjOn orig (Set.Iio c)) (hti : Set.InjOn tramp (Set.Iio c)) :
    MovesThreads info pos c orig tramp := by
  have hoi' : Set.InjOn (info.item pos).origAddr (Set.Iio c) :=
    hoi.congr (fun i hi => (horig i hi).symm)
  have hti' : Set.InjOn (info.item pos).trampolineAddr (Set.Iio c) :=
    hti.congr (fun i hi => (htramp i hi).symm)
  -- the two moves are the two directions of one partial bijection
  have henable : ∀ i < c, doProcessThreadPC info pos (orig i) .enable = (true, tramp i) := by
    intro i hi
    rw [doProcessThreadPC_enable hpos hc h20,
      (TablePair.translate_eq_some hoi').mpr ⟨i, hi, horig i hi, htramp i hi⟩]
  have hdisable : ∀ i < c, doProcessThreadPC info pos (tramp i) .disable = (true, orig i) := by
    intro i hi
    rw [doProcessThreadPC_disable hpos hc h20,
      (TablePair.translate_eq_some hti').mpr ⟨i, hi, htramp i hi, horig i hi⟩]
  have henable_else : ∀ pc, (∀ i < c, pc ≠ orig i) →
      doProcessThreadPC info pos pc .enable = (false, pc) := by
    intro pc hpc
    rw [doProcessThreadPC_enable hpos hc h20,
      TablePair.translate_eq_none.mpr (fun i hi heq => hpc i hi (heq.symm.trans (horig i hi)))]
  have hdisable_else : ∀ pc, (∀ i < c, pc ≠ tramp i) →
      doProcessThreadPC info pos pc .disable = (false, pc) := by
    intro pc hpc
    rw [doProcessThreadPC_disable hpos hc h20,
      TablePair.translate_eq_none.mpr (fun i hi heq => hpc i hi (heq.symm.trans (htramp i hi)))]
  have henable_iff : ∀ pc, (doProcessThreadPC info pos pc .enable).1 = true
      ↔ ∃ i < c, pc = orig i := by
    intro pc
    constructor
    · intro hm
      by_contra hne
      rw [henable_else pc (fun i hi heq => hne ⟨i, hi, heq⟩)] at hm
      cases hm
    · rintro ⟨i, hi, rfl⟩
      rw [henable i hi]
  refine ⟨henable_iff, fun pc => ⟨fun hm => ?_, ?_⟩, henable, hdisable, henable_else,
    hdisable_else, fun i hi j hj => hoi.eq_iff hi hj |>.mp, fun i hi j hj => hti.eq_iff hi hj |>.mp,
    fun pc hm => ?_, fun i hi => ?_⟩
  · by_contra hne
    rw [hdisable_else pc (fun i hi heq => hne ⟨i, hi, heq⟩)] at hm
    cases hm
  · rintro ⟨i, hi, rfl⟩
    rw [hdisable i hi]
  · obtain ⟨i, hi, rfl⟩ := (henable_iff pc).mp hm
    rw [henable i hi, hdisable i hi]
  · rw [hdisable i hi, henable i hi]

/-- **Thread migration**: after a registration in an unused slot, of a prologue
with at most four boundaries, threads are moved by a bijection, and a boundary
of the trampoline is the start of a block or of the final jump. -/
theorem threads_migrate {os : Os} {t n a : Word} {p p' : Process}
    (h : registerInlineHook os t n a p = some (.ok, p')) (hfresh : leftoverCount p.info = 0)
    (h4 : begunCount t (codeAt p.code t) (windowLength t) ≤ 4) :
    MovesThreads p'.info p.info.size (begunCount t (codeAt p.code t) (windowLength t))
        (insnAddr p.code t) (blockAddr p.code t os.mmap)
      ∧ ∃ trampoline, p'.pages os.mmap = some trampoline
        ∧ ∀ i < begunCount t (codeAt p.code t) (windowLength t),
          BeginsAt (blockOffset p.code t (codeAt p.code t) i)
            (if i < wholeCount t (codeAt p.code t) (windowLength t) then
              blockOf p.code t (codeAt p.code t) i
            else jumpTo t (codeAt p.code t) i) trampoline := by
  obtain ⟨hsize, hcount, haddr⟩ := registered_tables h hfresh h4
  refine ⟨movesThreads hsize hcount (by omega) (fun i hi => (haddr i hi).1)
    (fun i hi => (haddr i hi).2) (addr_injOn _ insnOffset_strictMono (fun i hi => ?_))
    (addr_injOn _ blockOffset_strictMono (fun i hi => ?_)), ?_⟩
  · have hlt := insnOffset_lt hi
    have hw := windowLength_le t
    omega
  · have := (blockOffset_aligned p.code t (codeAt p.code t) i).2
    omega
  · obtain ⟨-, -, rfl⟩ := registerInlineHook_ok h
    refine ⟨_, fillItem_pages _ _, fun i hi => ?_⟩
    have hle := begunCount_le t (codeAt p.code t) (windowLength t)
    split_ifs with hm
    · exact blockOf_beginsAt hm
    · -- the instruction that straddles the end has no block
      rw [show i = wholeCount t (codeAt p.code t) (windowLength t) by omega]
      exact jumpTo_beginsAt _ _ _ _

/-- The ARM function at `0x9000`. -/
theorem threads_migrate_arm :
    MovesThreads
        (fillItem reusingOs 0x9000#32 0xA000#32 0#32 0 { startProcess.info with size := 1 }
          startProcess).info 0
        (begunCount 0x9000#32 (codeAt startProcess.code 0x9000#32) (windowLength 0x9000#32))
        (insnAddr startProcess.code 0x9000#32) (blockAddr startProcess.code 0x9000#32 0x200#32)
      ∧ ∃ trampoline, (fillItem reusingOs 0x9000#32 0xA000#32 0#32 0
          { startProcess.info with size := 1 } startProcess).pages 0x200#32 = some trampoline
        ∧ ∀ i < begunCount 0x9000#32 (codeAt startProcess.code 0x9000#32)
            (windowLength 0x9000#32),
          BeginsAt (blockOffset startProcess.code 0x9000#32 (codeAt startProcess.code 0x9000#32) i)
            (if i < wholeCount 0x9000#32 (codeAt startProcess.code 0x9000#32)
                (windowLength 0x9000#32) then
              blockOf startProcess.code 0x9000#32 (codeAt startProcess.code 0x9000#32) i
            else jumpTo 0x9000#32 (codeAt startProcess.code 0x9000#32) i) trampoline :=
  threads_migrate (show registerInlineHook reusingOs 0x9000#32 0xA000#32 0#32 startProcess
    = some (.ok, _) from rfl) rfl (by decide)

end InlineHook
