import AndroidReverse.ArmDecode
import Mathlib.Data.Finset.Card
import Mathlib.Logic.Relation
import Mathlib.Tactic.IntervalCases

/-!
# Runs of the ARM machine

The machine that fetches, decodes and executes, and what it means to execute
a *block* of code: a run all of whose instructions are fetched from the block.
`RunsWithin base len s t` is such a run from `s` to `t`; only the last state
may have left the block, so a run that reaches a state has reached it by the
block's own instructions and by nothing that lies beyond it.

`Reproduces` is the criterion of relocation. The block stands for an
instruction if executing it from its start ends where the instruction would
have ended, with the program counter reading as it did in the old place and
the end of the block for a successor. It asks nothing where the instruction
is UNPREDICTABLE.

The machine is deterministic, so the runs of a block are a chain, and
`runsWithin_iff` unrolls it one instruction at a time. Both directions are
used: forwards to run a block, backwards to list every state it passes.
-/

namespace Arm

/-! ## Alignment -/

theorem align4_eq (a : Word) : align4 a = (a >>> 2) <<< 2 := by
  refine BitVec.eq_of_getLsbD_eq (fun i hi => ?_)
  rw [align4]
  interval_cases i <;> simp

/-- `Align(a, 4)` is the multiple of four below. -/
theorem toNat_align4 (a : Word) : (align4 a).toNat = a.toNat / 4 * 4 := by
  rw [align4_eq, BitVec.toNat_shiftLeft, BitVec.toNat_ushiftRight, Nat.shiftRight_eq_div_pow,
    Nat.shiftLeft_eq]
  omega

theorem align4_of_aligned {a : Word} (h : a.toNat % 4 = 0) : align4 a = a := by
  rw [← BitVec.toNat_inj, toNat_align4]
  omega

/-- Clearing bit 0 leaves the multiple of two below. -/
theorem toNat_align2 (a : Word) : (a &&& 0xFFFFFFFE#32).toNat = a.toNat / 2 * 2 := by
  have h : a &&& 0xFFFFFFFE#32 = (a >>> 1) <<< 1 := by
    refine BitVec.eq_of_getLsbD_eq (fun i hi => ?_)
    interval_cases i <;> simp
  rw [h, BitVec.toNat_shiftLeft, BitVec.toNat_ushiftRight, Nat.shiftRight_eq_div_pow,
    Nat.shiftLeft_eq]
  omega

/-- A bit of a word, as a quotient and a remainder. -/
theorem getLsbD_eq_decide (a : Word) (i : ℕ) :
    a.getLsbD i = decide (a.toNat / 2 ^ i % 2 = 1) := by
  rw [BitVec.getLsbD, Nat.testBit_eq_decide_div_mod_eq]

/-- The low bits of a word, as its remainder. -/
theorem toNat_mod_four {a : Word} (h0 : a.getLsbD 0 = false) (h1 : a.getLsbD 1 = false) :
    a.toNat % 4 = 0 := by
  rw [getLsbD_eq_decide] at h0 h1
  have h0' := of_decide_eq_false h0
  have h1' := of_decide_eq_false h1
  omega

theorem toNat_mod_two {a : Word} (h0 : a.getLsbD 0 = false) : a.toNat % 2 = 0 := by
  rw [getLsbD_eq_decide] at h0
  have h0' := of_decide_eq_false h0
  omega

/-- Setting bit 0 of an even word adds one. -/
theorem or_one_of_even {a : Word} (h : a.toNat % 2 = 0) : a ||| 1#32 = a + 1#32 := by
  refine (BitVec.add_eq_or_of_and_eq_zero _ _ (BitVec.eq_of_getLsbD_eq (fun i hi => ?_))).symm
  rw [BitVec.getLsbD_and, BitVec.getLsbD_zero]
  by_cases h0 : i = 0
  · rw [h0, getLsbD_eq_decide, decide_eq_false (by omega), Bool.false_and]
  · rw [show (1#32).getLsbD i = false from by simp [h0], Bool.and_false]

namespace State

/-- **A jump to an odd address enters Thumb state** at the even address
below. -/
theorem bxWritePC_thumb (s : State) {a : Word} (h : a.toNat % 2 = 0) :
    s.bxWritePC (a + 1#32) = some { s with pc := a, thumb := true } := by
  have h1 : (a + 1#32).toNat = a.toNat + 1 := by bv_omega
  have h0 : (a + 1#32).getLsbD 0 = true := by
    rw [getLsbD_eq_decide]
    simp only [decide_eq_true_eq]
    omega
  have hpc : (a + 1#32) &&& 0xFFFFFFFE#32 = a := by
    rw [← BitVec.toNat_inj, toNat_align2]
    omega
  rw [bxWritePC, if_pos h0, hpc]

/-- **A jump to a word-aligned address enters ARM state** there. -/
theorem bxWritePC_arm (s : State) {a : Word} (h : a.toNat % 4 = 0) :
    s.bxWritePC a = some { s with pc := a, thumb := false } := by
  have h0 : ¬ a.getLsbD 0 = true := by
    rw [getLsbD_eq_decide]
    simp only [decide_eq_true_eq]
    omega
  have h1 : ¬ a.getLsbD 1 = true := by
    rw [getLsbD_eq_decide]
    simp only [decide_eq_true_eq]
    omega
  rw [bxWritePC, if_neg h0, if_neg h1]

/-- A jump to an even address that is not a multiple of four is
UNPREDICTABLE. -/
theorem bxWritePC_unaligned (s : State) {a : Word} (h : a.toNat % 4 = 2) :
    s.bxWritePC a = none := by
  have h0 : ¬ a.getLsbD 0 = true := by
    rw [getLsbD_eq_decide]
    simp only [decide_eq_true_eq]
    omega
  have h1 : a.getLsbD 1 = true := by
    rw [getLsbD_eq_decide]
    simp only [decide_eq_true_eq]
    omega
  rw [bxWritePC, if_neg h0, if_pos h1]

/-- No other jump is UNPREDICTABLE. -/
theorem bxWritePC_eq_none {s : State} {a : Word} (h : s.bxWritePC a = none) :
    a.toNat % 4 = 2 := by
  unfold bxWritePC at h
  by_cases h0 : a.getLsbD 0 = true
  · rw [if_pos h0] at h
    cases h
  · rw [if_neg h0] at h
    by_cases h1 : a.getLsbD 1 = true
    · rw [getLsbD_eq_decide] at h0 h1
      simp only [decide_eq_true_eq] at h0 h1
      omega
    · rw [if_neg h1] at h
      cases h

/-- What a jump leaves behind: the registers, the flags and the memory are
those it found, and the instruction set is bit 0 of the address. -/
theorem bxWritePC_eq_some {s t : State} {a : Word} (h : s.bxWritePC a = some t) :
    t = { s with pc := if a.getLsbD 0 then a &&& 0xFFFFFFFE#32 else a,
                 thumb := a.getLsbD 0 } := by
  rw [bxWritePC] at h
  by_cases h0 : a.getLsbD 0 = true
  · rw [if_pos h0] at h
    rw [if_pos h0, h0, ← Option.some.inj h]
  · rw [if_neg h0] at h
    by_cases h1 : a.getLsbD 1 = true
    · rw [if_pos h1] at h
      cases h
    · rw [if_neg h1] at h
      rw [if_neg h0, Bool.eq_false_iff.mpr h0, ← Option.some.inj h]

/-- A branch inside Thumb state to an even address. -/
theorem branchWritePC_thumb {s : State} (ht : s.thumb = true) {a : Word}
    (h : a.toNat % 2 = 0) : s.branchWritePC a = s.goto a := by
  have ha : a &&& 0xFFFFFFFE#32 = a := by
    rw [← BitVec.toNat_inj, toNat_align2]
    omega
  rw [branchWritePC, if_pos ht, ha]

/-- A branch inside ARM state to a word-aligned address. -/
theorem branchWritePC_arm {s : State} (ht : s.thumb = false) {a : Word}
    (h : a.toNat % 4 = 0) : s.branchWritePC a = s.goto a := by
  rw [branchWritePC, if_neg (by rw [ht]; exact Bool.false_ne_true)]
  exact congrArg s.goto (align4_of_aligned h)

end State

/-! ## The machine -/

/-- The instruction at the program counter and its size. -/
def fetch (s : State) : Option (Insn × Word) :=
  if s.thumb then
    if isThumb32 (s.mem.read16 s.pc) then
      (decodeThumb32 (s.mem.read16 s.pc ++ s.mem.read16 (s.pc + 2#32))).map (fun x => (x, 4#32))
    else (decodeThumb16 (s.mem.read16 s.pc)).map (fun x => (x, 2#32))
  else (decodeArm (s.mem.read32 s.pc)).map (fun x => (x, 4#32))

/-- What the program counter reads as: two instructions ahead. -/
def State.pcValue (s : State) : Word := if s.thumb then s.pc + 4#32 else s.pc + 8#32

/-- **One instruction of the machine.** -/
def step (s : State) : Option State :=
  (fetch s).bind (fun x => x.1.exec s.pcValue (s.pc + x.2) s)

/-- A step in ARM state. -/
theorem step_arm {s : State} {x : Insn} (ht : s.thumb = false)
    (h : decodeArm (s.mem.read32 s.pc) = some x) :
    step s = x.exec (s.pc + 8#32) (s.pc + 4#32) s := by
  simp only [step, fetch, State.pcValue, ht, h, Bool.false_eq_true, if_false, Option.map_some,
    Option.bind_some]

/-- A step over a 16-bit instruction. -/
theorem step_thumb16 {s : State} {x : Insn} {w : Half} (ht : s.thumb = true)
    (hw : s.mem.read16 s.pc = w) (hn : isThumb32 w = false) (h : decodeThumb16 w = some x) :
    step s = x.exec (s.pc + 4#32) (s.pc + 2#32) s := by
  simp only [step, fetch, State.pcValue, ht, hw, hn, h, Bool.false_eq_true, if_false, if_true,
    Option.map_some, Option.bind_some]

/-- A step over a 32-bit instruction. -/
theorem step_thumb32 {s : State} {x : Insn} {hi lo : Half} (ht : s.thumb = true)
    (hh : s.mem.read16 s.pc = hi) (hl : s.mem.read16 (s.pc + 2#32) = lo)
    (hn : isThumb32 hi = true) (h : decodeThumb32 (hi ++ lo) = some x) :
    step s = x.exec (s.pc + 4#32) (s.pc + 4#32) s := by
  simp only [step, fetch, State.pcValue, ht, hh, hl, hn, h, if_true, Option.map_some,
    Option.bind_some]

/-! ## Code in memory -/

/-- The halfwords are in memory from an address on. -/
def HalvesAt (m : Mem) (base : Word) (hs : List Half) : Prop :=
  ∀ i v, hs[i]? = some v → m.read16 (base + BitVec.ofNat 32 (2 * i)) = v

/-- The words are in memory from an address on. -/
def WordsAt (m : Mem) (base : Word) (ws : List Word) : Prop :=
  ∀ i v, ws[i]? = some v → m.read32 (base + BitVec.ofNat 32 (4 * i)) = v

/-- Two halfwords in a row are the word of the second above the first. -/
theorem HalvesAt.read32 {m : Mem} {base : Word} {hs : List Half} (h : HalvesAt m base hs)
    {i : ℕ} {lo hi : Half} (hlo : hs[i]? = some lo) (hhi : hs[i + 1]? = some hi) :
    m.read32 (base + BitVec.ofNat 32 (2 * i)) = hi ++ lo := by
  have ha : base + BitVec.ofNat 32 (2 * i) + 2#32 = base + BitVec.ofNat 32 (2 * (i + 1)) := by
    rw [BitVec.add_assoc, ← BitVec.ofNat_add, Nat.mul_succ]
  rw [Mem.read32, ha, h _ _ hlo, h _ _ hhi]

/-- The code after a prefix stands after the prefix. -/
theorem WordsAt.append_right {m : Mem} {base : Word} {ws ws' : List Word}
    (h : WordsAt m base (ws ++ ws')) : WordsAt m (base + BitVec.ofNat 32 (4 * ws.length)) ws' := by
  intro i v hv
  have := h (ws.length + i) v (by rw [List.getElem?_append_right (by omega)]; simpa using hv)
  rwa [BitVec.add_assoc, ← BitVec.ofNat_add, ← Nat.mul_add]

theorem WordsAt.append_left {m : Mem} {base : Word} {ws ws' : List Word}
    (h : WordsAt m base (ws ++ ws')) : WordsAt m base ws := by
  intro i v hv
  have hi : i < ws.length := (List.getElem?_eq_some_iff.mp hv).1
  exact h i v (by rw [List.getElem?_append_left hi]; exact hv)

/-- The same for halfwords. -/
theorem HalvesAt.append_right {m : Mem} {base : Word} {hs hs' : List Half}
    (h : HalvesAt m base (hs ++ hs')) :
    HalvesAt m (base + BitVec.ofNat 32 (2 * hs.length)) hs' := by
  intro i v hv
  have := h (hs.length + i) v (by rw [List.getElem?_append_right (by omega)]; simpa using hv)
  rwa [BitVec.add_assoc, ← BitVec.ofNat_add, ← Nat.mul_add]

theorem HalvesAt.append_left {m : Mem} {base : Word} {hs hs' : List Half}
    (h : HalvesAt m base (hs ++ hs')) : HalvesAt m base hs := by
  intro i v hv
  have hi : i < hs.length := (List.getElem?_eq_some_iff.mp hv).1
  exact h i v (by rw [List.getElem?_append_left hi]; exact hv)

/-- Write a list of items of `size` bytes to memory. -/
def Mem.place {n : ℕ} (m : Mem) (size : ℕ) (base : Word) (items : List (BitVec n)) : Mem :=
  fun a =>
    let k := (a - base).toNat
    match items[k / size]? with
    | some v => v.extractLsb' (8 * (k % size)) 8
    | none => m a

/-- Byte `j` of item `i` of placed code. -/
theorem Mem.place_at {n : ℕ} {m : Mem} {size : ℕ} {base : Word} {items : List (BitVec n)}
    {i j : ℕ} {v : BitVec n} (hv : items[i]? = some v) (hj : j < size)
    (hlen : size * items.length ≤ 2 ^ 32) :
    m.place size base items (base + BitVec.ofNat 32 (size * i + j)) = v.extractLsb' (8 * j) 8 := by
  have hi : i < items.length := (List.getElem?_eq_some_iff.mp hv).1
  have hb : size * i + j < 2 ^ 32 := by
    have : size * (i + 1) ≤ size * items.length := Nat.mul_le_mul_left size hi
    rw [Nat.mul_add] at this
    omega
  have hk : (base + BitVec.ofNat 32 (size * i + j) - base).toNat = size * i + j := by
    rw [BitVec.add_comm, BitVec.add_sub_cancel, BitVec.toNat_ofNat, Nat.mod_eq_of_lt hb]
  have hd : (size * i + j) / size = i := by
    rw [Nat.mul_add_div (by omega), Nat.div_eq_of_lt hj, Nat.add_zero]
  have hm : (size * i + j) % size = j := by
    rw [Nat.mul_add_mod, Nat.mod_eq_of_lt hj]
  unfold Mem.place
  simp only [hk, hd, hm, hv]

/-- Placing code changes no byte outside it. -/
theorem Mem.place_of_out {n : ℕ} {m : Mem} {size : ℕ} {base a : Word}
    {items : List (BitVec n)} (h0 : 0 < size) (h : size * items.length ≤ (a - base).toNat) :
    m.place size base items a = m a := by
  have hk : items[(a - base).toNat / size]? = none := by
    rw [List.getElem?_eq_none_iff]
    exact (Nat.le_div_iff_mul_le h0).mpr (by rw [Nat.mul_comm]; exact h)
  unfold Mem.place
  simp only [hk]

theorem halvesAt_place (m : Mem) (base : Word) (hs : List Half)
    (hlen : 2 * hs.length ≤ 2 ^ 32) : HalvesAt (m.place 2 base hs) base hs := by
  intro i v hv
  have hb : ∀ j, j < 2 → m.place 2 base hs (base + BitVec.ofNat 32 (2 * i + j))
      = v.extractLsb' (8 * j) 8 := fun j hj => Mem.place_at hv hj hlen
  have h0 : m.place 2 base hs (base + BitVec.ofNat 32 (2 * i)) = v.extractLsb' 0 8 :=
    hb 0 (by omega)
  have ha : base + BitVec.ofNat 32 (2 * i) + 1#32 = base + BitVec.ofNat 32 (2 * i + 1) := by
    rw [BitVec.add_assoc, ← BitVec.ofNat_add]
  rw [Mem.read16, ha, hb 1 (by omega), h0]
  refine BitVec.eq_of_getLsbD_eq (fun k hk => ?_)
  simp only [BitVec.getLsbD_append, BitVec.getLsbD_extractLsb']
  interval_cases k <;> simp

theorem wordsAt_place (m : Mem) (base : Word) (ws : List Word)
    (hlen : 4 * ws.length ≤ 2 ^ 32) : WordsAt (m.place 4 base ws) base ws := by
  intro i v hv
  have hb : ∀ j, j < 4 → m.place 4 base ws (base + BitVec.ofNat 32 (4 * i + j))
      = v.extractLsb' (8 * j) 8 := fun j hj => Mem.place_at hv hj hlen
  have ha : ∀ j, base + BitVec.ofNat 32 (4 * i) + BitVec.ofNat 32 j
      = base + BitVec.ofNat 32 (4 * i + j) := by
    intro j
    rw [BitVec.add_assoc, ← BitVec.ofNat_add]
  have h3 : base + BitVec.ofNat 32 (4 * i) + 2#32 + 1#32
      = base + BitVec.ofNat 32 (4 * i) + BitVec.ofNat 32 3 := by
    rw [BitVec.add_assoc]
    rfl
  have h0 : m.place 4 base ws (base + BitVec.ofNat 32 (4 * i)) = v.extractLsb' 0 8 :=
    hb 0 (by omega)
  rw [Mem.read32, Mem.read16, Mem.read16, h3, ha 1, ha 2, ha 3, hb 1 (by omega),
    hb 2 (by omega), hb 3 (by omega), h0]
  refine BitVec.eq_of_getLsbD_eq (fun k hk => ?_)
  simp only [BitVec.getLsbD_append, BitVec.getLsbD_extractLsb']
  interval_cases k <;> simp

/-! ## Runs within a block -/

/-- An address lies in the block of `len` bytes at `base`. -/
def InBlock (base : Word) (len : ℕ) (a : Word) : Prop := (a - base).toNat < len

instance (base : Word) (len : ℕ) (a : Word) : Decidable (InBlock base len a) :=
  inferInstanceAs (Decidable (_ < _))

theorem inBlock_offset {base : Word} {len k : ℕ} (hk : k < len) (hk' : k < 2 ^ 32) :
    InBlock base len (base + BitVec.ofNat 32 k) := by
  rw [InBlock, BitVec.add_comm, BitVec.add_sub_cancel, BitVec.toNat_ofNat, Nat.mod_eq_of_lt hk']
  exact hk

theorem inBlock_base {base : Word} {len : ℕ} (h : 0 < len) : InBlock base len base := by
  rw [InBlock, BitVec.sub_self]
  exact h

/-- The end of a block is outside it. -/
theorem not_inBlock_end (base : Word) (len : ℕ) (h : len < 2 ^ 32) :
    ¬ InBlock base len (base + BitVec.ofNat 32 len) := by
  rw [InBlock, BitVec.add_comm, BitVec.add_sub_cancel, BitVec.toNat_ofNat, Nat.mod_eq_of_lt h]
  exact lt_irrefl len

/-- What is outside a block is outside its parts. -/
theorem not_inBlock_part {base a : Word} {len off len' : ℕ} (h : ¬ InBlock base len a)
    (ho : off + len' ≤ len) : ¬ InBlock (base + BitVec.ofNat 32 off) len' a := by
  unfold InBlock at *
  have hoff : off % 2 ^ 32 ≤ off := Nat.mod_le _ _
  rw [BitVec.toNat_sub] at *
  rw [BitVec.toNat_add, BitVec.toNat_ofNat]
  have := a.isLt
  have := base.isLt
  omega

/-- **There is room for a block** away from finitely many addresses. -/
theorem exists_base (len : ℕ) (hlen : len ≤ 256) (avoid : List Word)
    (h : avoid.length < 2 ^ 24) :
    ∃ base : Word, base.toNat % 4 = 0 ∧ ∀ a ∈ avoid, ¬ InBlock base len a := by
  -- one of the first 256-byte lines of the address space holds none of them
  obtain ⟨k, hk, hka⟩ : ∃ k ∈ Finset.range (avoid.length + 1),
      k ∉ (avoid.map (fun a => a.toNat / 256)).toFinset := by
    refine Finset.exists_mem_notMem_of_card_lt_card
      (lt_of_le_of_lt (List.toFinset_card_le _) ?_)
    rw [List.length_map, Finset.card_range]
    exact Nat.lt_succ_self _
  rw [Finset.mem_range] at hk
  have hb : (BitVec.ofNat 32 (256 * k)).toNat = 256 * k := by
    rw [BitVec.toNat_ofNat, Nat.mod_eq_of_lt (by omega)]
  refine ⟨BitVec.ofNat 32 (256 * k), by omega, fun a ha hin => hka ?_⟩
  rw [List.mem_toFinset, List.mem_map]
  refine ⟨a, ha, ?_⟩
  have hlt : (a - BitVec.ofNat 32 (256 * k)).toNat < len := hin
  rw [BitVec.toNat_sub, hb] at hlt
  have := a.isLt
  omega

/-- The bytes of a word. -/
def wordBytes (a : Word) : List Word := [a, a + 1#32, a + 2#32, a + 3#32]

/-- Memories that agree on the bytes of a word agree on the word. -/
theorem Mem.read32_congr {m m' : Mem} {a : Word} (h : ∀ b ∈ wordBytes a, m b = m' b) :
    m.read32 a = m'.read32 a := by
  have h3 : a + 2#32 + 1#32 = a + 3#32 := by rw [BitVec.add_assoc]; rfl
  unfold wordBytes at h
  simp only [List.mem_cons, List.not_mem_nil, or_false, forall_eq_or_imp, forall_eq] at h
  rw [Mem.read32, Mem.read32, Mem.read16, Mem.read16, Mem.read16, Mem.read16, h3, h.1, h.2.1,
    h.2.2.1, h.2.2.2]

/-- A store changes no byte outside what it stores to. -/
theorem Mem.write_of_out (m : Mem) {n : ℕ} {a v x : Word} (h : ¬ InBlock a n x) :
    m.write n a v x = m x :=
  if_neg h

/-- A word that is stored is read back. -/
theorem Mem.read32_write (m : Mem) (a v : Word) : (m.write 4 a v).read32 a = v := by
  have hb : ∀ k, k < 4 → m.write 4 a v (a + BitVec.ofNat 32 k) = byteOf v k := by
    intro k hk
    have hk' : (a + BitVec.ofNat 32 k - a).toNat = k := by
      rw [BitVec.add_comm, BitVec.add_sub_cancel, BitVec.toNat_ofNat, Nat.mod_eq_of_lt (by omega)]
    rw [Mem.write, hk', if_pos hk]
  have h3 : a + 2#32 + 1#32 = a + 3#32 := by
    rw [BitVec.add_assoc]
    rfl
  have h0 : m.write 4 a v a = byteOf v 0 := by
    rw [← hb 0 (by omega)]
    exact congrArg _ (BitVec.add_zero a).symm
  rw [Mem.read32, Mem.read16, Mem.read16, h3, h0, hb 1 (by omega), hb 2 (by omega),
    hb 3 (by omega)]
  refine BitVec.eq_of_getLsbD_eq (fun k hk => ?_)
  simp only [byteOf, BitVec.getLsbD_append, BitVec.getLsbD_extractLsb']
  interval_cases k <;> simp

/-- Code is in every memory that agrees with one it is in. -/
theorem HalvesAt.congr {m m' : Mem} {base : Word} {hs : List Half} (h : HalvesAt m base hs)
    (hm : ∀ k, k < 2 * hs.length →
      m' (base + BitVec.ofNat 32 k) = m (base + BitVec.ofNat 32 k)) : HalvesAt m' base hs := by
  intro i v hv
  have hi : i < hs.length := (List.getElem?_eq_some_iff.mp hv).1
  have ha : base + BitVec.ofNat 32 (2 * i) + 1#32 = base + BitVec.ofNat 32 (2 * i + 1) := by
    rw [BitVec.add_assoc, ← BitVec.ofNat_add]
  rw [← h i v hv, Mem.read16, Mem.read16, ha, hm _ (by omega), hm _ (by omega)]

theorem WordsAt.congr {m m' : Mem} {base : Word} {ws : List Word} (h : WordsAt m base ws)
    (hm : ∀ k, k < 4 * ws.length →
      m' (base + BitVec.ofNat 32 k) = m (base + BitVec.ofNat 32 k)) : WordsAt m' base ws := by
  intro i v hv
  have hi : i < ws.length := (List.getElem?_eq_some_iff.mp hv).1
  have ha : ∀ j, j < 4 → base + BitVec.ofNat 32 (4 * i) + BitVec.ofNat 32 j
      = base + BitVec.ofNat 32 (4 * i + j) := by
    intro j _
    rw [BitVec.add_assoc, ← BitVec.ofNat_add]
  rw [← h i v hv]
  refine Mem.read32_congr (fun b hb => ?_)
  unfold wordBytes at hb
  simp only [List.mem_cons, List.not_mem_nil, or_false] at hb
  rcases hb with rfl | rfl | rfl | rfl
  · exact hm _ (by omega)
  · exact (ha 1 (by omega)) ▸ hm _ (by omega)
  · exact (ha 2 (by omega)) ▸ hm _ (by omega)
  · exact (ha 3 (by omega)) ▸ hm _ (by omega)

/-- **A run within a block**: every instruction executed is fetched from the
block. -/
def RunsWithin (base : Word) (len : ℕ) : State → State → Prop :=
  Relation.ReflTransGen (fun s t => InBlock base len s.pc ∧ step s = some t)

/-- **The runs of a block, one instruction unrolled.** -/
theorem runsWithin_iff {base : Word} {len : ℕ} {s t : State} :
    RunsWithin base len s t
      ↔ t = s ∨ ∃ u, InBlock base len s.pc ∧ step s = some u ∧ RunsWithin base len u t := by
  constructor
  · intro h
    rcases Relation.ReflTransGen.cases_head h with h | ⟨u, hu, h⟩
    · exact Or.inl h.symm
    · exact Or.inr ⟨u, hu.1, hu.2, h⟩
  · rintro (rfl | ⟨u, hb, hs, h⟩)
    · exact Relation.ReflTransGen.refl
    · exact Relation.ReflTransGen.head ⟨hb, hs⟩ h

/-- The runs from a state in the block whose step is known. -/
theorem runsWithin_iff_of_step {base : Word} {len : ℕ} {s t u : State}
    (hb : InBlock base len s.pc) (hs : step s = some u) :
    RunsWithin base len s t ↔ t = s ∨ RunsWithin base len u t := by
  rw [runsWithin_iff]
  refine or_congr Iff.rfl ⟨?_, fun h => ⟨u, hb, hs, h⟩⟩
  rintro ⟨u', -, hs', h⟩
  rw [hs] at hs'
  rwa [Option.some.inj hs']

/-- A run goes no further than the first state outside the block. -/
theorem runsWithin_iff_of_out {base : Word} {len : ℕ} {s t : State}
    (hb : ¬ InBlock base len s.pc) : RunsWithin base len s t ↔ t = s := by
  rw [runsWithin_iff]
  exact ⟨fun h => h.elim id (fun ⟨_, hb', _⟩ => absurd hb' hb), Or.inl⟩

/-- The runs of two steps, of which the second may be one that the machine cannot take. -/
theorem runsWithin_iff_of_steps {base : Word} {len : ℕ} {s s₁ t : State} {o : Option State}
    (hb : InBlock base len s.pc) (hs : step s = some s₁) (hb₁ : InBlock base len s₁.pc)
    (hs₁ : step s₁ = o) :
    RunsWithin base len s t ↔ t = s ∨ t = s₁ ∨ ∃ u, o = some u ∧ RunsWithin base len u t := by
  rw [runsWithin_iff_of_step hb hs, runsWithin_iff (s := s₁), hs₁]
  refine or_congr Iff.rfl (or_congr Iff.rfl ⟨?_, ?_⟩)
  · rintro ⟨u, -, hu⟩
    exact ⟨u, hu⟩
  · rintro ⟨u, hu⟩
    exact ⟨u, hb₁, hu⟩

/-- The runs of two steps, of which the second leaves the block. -/
theorem runsWithin_iff_of_leaves {base : Word} {len : ℕ} {s s₁ t u : State}
    (hb : InBlock base len s.pc) (hs : step s = some s₁) (hb₁ : InBlock base len s₁.pc)
    (hs₁ : step s₁ = some u) (hout : ¬ InBlock base len u.pc) :
    RunsWithin base len s t ↔ t = s ∨ t = s₁ ∨ t = u := by
  rw [runsWithin_iff_of_step hb hs, runsWithin_iff_of_step hb₁ hs₁, runsWithin_iff_of_out hout]

/-- One step, then the rest of the run. -/
theorem RunsWithin.head {base : Word} {len : ℕ} {s t u : State}
    (hb : InBlock base len s.pc) (hs : step s = some u) (h : RunsWithin base len u t) :
    RunsWithin base len s t :=
  (runsWithin_iff_of_step hb hs).mpr (Or.inr h)

theorem RunsWithin.refl {base : Word} {len : ℕ} (s : State) : RunsWithin base len s s :=
  Relation.ReflTransGen.refl

/-! ## Leaving a block -/

/-- **A block is left in one state**: two runs that have left it have left it
in the same state. -/
theorem RunsWithin.left_unique {base : Word} {len : ℕ} {s t u : State}
    (h : RunsWithin base len s t) (ht : ¬ InBlock base len t.pc) (h' : RunsWithin base len s u)
    (hu : ¬ InBlock base len u.pc) : u = t := by
  induction h using Relation.ReflTransGen.head_induction_on with
  | refl => exact (runsWithin_iff_of_out ht).mp h'
  | head hstep _ ih =>
    rcases (runsWithin_iff_of_step hstep.1 hstep.2).mp h' with rfl | h'
    · exact absurd hstep.1 hu
    · exact ih h'

/-- The runs of a block are a chain. -/
theorem RunsWithin.total {base : Word} {len : ℕ} {s t u : State} (h : RunsWithin base len s t)
    (h' : RunsWithin base len s u) : RunsWithin base len t u ∨ RunsWithin base len u t :=
  Relation.ReflTransGen.total_of_right_unique
    (fun _ _ _ h h' => Option.some.inj (h.2.symm.trans h'.2)) h h'

theorem RunsWithin.trans {base : Word} {len : ℕ} {s t u : State} (h : RunsWithin base len s t)
    (h' : RunsWithin base len t u) : RunsWithin base len s u :=
  Relation.ReflTransGen.trans h h'

/-- What a run that has left the block has to do with a state it passes: it is
what comes after it. -/
theorem RunsWithin.left_iff {base : Word} {len : ℕ} {s t u : State} (h : RunsWithin base len s u)
    (hout : ¬ InBlock base len t.pc) : RunsWithin base len s t ↔ RunsWithin base len u t := by
  refine ⟨fun h' => ?_, h.trans⟩
  rcases h.total h' with hu | hu
  · exact hu
  · rw [(runsWithin_iff_of_out hout).mp hu]
    exact RunsWithin.refl t

/-- A larger block holds what a smaller one does. -/
theorem not_inBlock_of_le {base a : Word} {len len' : ℕ} (h : ¬ InBlock base len a)
    (hl : len' ≤ len) : ¬ InBlock base len' a :=
  fun h' => h (lt_of_lt_of_le h' hl)

/-- An offset leads to another address. -/
theorem add_ofNat_ne (a : Word) {k : ℕ} (h0 : 0 < k) (hk : k < 2 ^ 32) :
    a + BitVec.ofNat 32 k ≠ a := by
  intro h
  have h' := congrArg BitVec.toNat h
  rw [BitVec.toNat_add, BitVec.toNat_ofNat, Nat.mod_eq_of_lt hk] at h'
  have := a.isLt
  omega

/-- The two addresses a jump to `v` may continue at. -/
def jumpTargets (v : Word) : List Word := [v, v &&& 0xFFFFFFFE#32]

theorem jumpTargets_length (v : Word) : (jumpTargets v).length = 2 := rfl

theorem pc_mem_jumpTargets {s u : State} {v : Word} (h : s.bxWritePC v = some u) :
    u.pc ∈ jumpTargets v := by
  rw [State.bxWritePC_eq_some h]
  show (if v.getLsbD 0 then v &&& 0xFFFFFFFE#32 else v) ∈ jumpTargets v
  unfold jumpTargets
  split <;> simp

/-- A run within a part of a block is one within the block. -/
theorem RunsWithin.part {base : Word} {len off len' : ℕ} {s t : State} (ho : off + len' ≤ len)
    (h : RunsWithin (base + BitVec.ofNat 32 off) len' s t) : RunsWithin base len s t := by
  induction h using Relation.ReflTransGen.head_induction_on with
  | refl => exact RunsWithin.refl t
  | head hstep _ ih =>
    refine RunsWithin.head ?_ hstep.2 ih
    by_contra hout
    exact not_inBlock_part hout ho hstep.1

/-- A jump out of the block is the end of the run. -/
theorem RunsWithin.eq_of_jump {base v : Word} {len : ℕ} {s u t : State}
    (hv : ∀ a ∈ jumpTargets v, ¬ InBlock base len a) (hu : s.bxWritePC v = some u)
    (ht : RunsWithin base len u t) : t = u :=
  (runsWithin_iff_of_out (hv _ (pc_mem_jumpTargets hu))).mp ht

/-- **A block that jumps** is left where the jump leads. -/
theorem RunsWithin.left_iff_jump {base v : Word} {len : ℕ} {s t u : State}
    (h : RunsWithin base len s u) (hin : InBlock base len u.pc) (hst : step u = u.bxWritePC v)
    (hv : ∀ a ∈ jumpTargets v, ¬ InBlock base len a) (hout : ¬ InBlock base len t.pc) :
    RunsWithin base len s t ↔ u.bxWritePC v = some t := by
  rw [h.left_iff hout, runsWithin_iff]
  constructor
  · rintro (rfl | ⟨u', -, hu, ht⟩)
    · exact absurd hin hout
    · rw [hst] at hu
      rw [RunsWithin.eq_of_jump hv hu ht, hu]
  · exact fun ht => Or.inr ⟨t, hin, hst.trans ht, RunsWithin.refl t⟩

/-- A jump that avoids the block and the word behind it does not continue
there. -/
theorem not_jump_to_end {base v : Word} {len : ℕ} {s u t : State}
    (hlen : len + 4 < 2 ^ 32) (hv : ∀ a ∈ jumpTargets v, ¬ InBlock base (len + 4) a)
    (hu : s.bxWritePC v = some u) (ht : RunsWithin base len u t) :
    t.pc ≠ base + BitVec.ofNat 32 len := by
  intro hpc
  have hv' : ∀ a ∈ jumpTargets v, ¬ InBlock base len a :=
    fun a ha => not_inBlock_of_le (hv a ha) (by omega)
  rw [RunsWithin.eq_of_jump hv' hu ht] at hpc
  refine hv _ (pc_mem_jumpTargets hu) ?_
  rw [hpc]
  exact inBlock_offset (by omega) (by omega)

/-- What a load of a literal reads is the same in two memories. -/
def LiteralKept (m₀ : Mem) (op : Op) (pc : Word) (m : Mem) : Prop :=
  ∀ a, op.literalAddr pc = some a → m.read32 a = m₀.read32 a

theorem literalKept_of_none {m₀ m : Mem} {op : Op} {pc : Word} (h : op.literalAddr pc = none) :
    LiteralKept m₀ op pc m := by
  intro a ha
  rw [h] at ha
  cases ha

/-- **The block stands for an instruction**: executed from its start in the
state `s`, it reaches the state the instruction leads to when the program
counter reads as `pc` and the end of the block is what comes next. -/
def Reproduces (x : Insn) (pc base : Word) (len : ℕ) (s : State) : Prop :=
  ∀ t, x.exec pc (base + BitVec.ofNat 32 len) s = some t → RunsWithin base len s t

end Arm
