import AndroidReverse.RelocateVerbatim
import AndroidReverse.ThumbStream

/-!
# The layout of a trampoline

What the two loops of the relocator compute, without the loops: the
instructions of the prologue have their blocks one behind the other, and the
jump back stands behind the last. The ARM loop is a plain count, so its half
of this is in `AndroidReverse.Relocate`. The Thumb loop finds the next
instruction by decoding, and it stops in three places; in each it has relocated
the instructions that lie wholly in the prologue, and recorded a boundary for
each that begins there.

The offsets of the two instruction sets are read here through one pair of
functions, `insnOffset` and `blockOffset`: where an instruction of the prologue
begins, and where its block does. Both increase strictly.
-/

namespace Relocate

open Arm

/-! ## Thumb blocks -/

/-- The block of a Thumb instruction. -/
def thumbInsnBlock (mem : Mem) (pc : Word) : ThumbInsn → List Half
  | .narrow w => relocateInstructionInThumb16 mem pc w
  | .wide high low => relocateInstructionInThumb32 mem pc high low

section Thumb

variable {σ : Type} (record : σ → ℕ → ℕ → σ) (mem : Mem) (target_addr : Word)
  (orig_instructions : ℕ → Half)

/-- The block of instruction `j` of a Thumb prologue. -/
def thumbBlock (j : ℕ) : List Half :=
  thumbInsnBlock mem (target_addr + BitVec.ofNat 32 (2 * insnStart orig_instructions j + 4))
    (insnAt orig_instructions (insnStart orig_instructions j))

/-- The blocks of its first `m` instructions. -/
def thumbBlocks (m : ℕ) : List Half :=
  (List.range m).flatMap (thumbBlock mem target_addr orig_instructions)

theorem thumbBlocks_succ (m : ℕ) :
    thumbBlocks mem target_addr orig_instructions (m + 1)
      = thumbBlocks mem target_addr orig_instructions m
        ++ thumbBlock mem target_addr orig_instructions m := by
  simp only [thumbBlocks, List.range_succ, List.flatMap_append, List.flatMap_cons,
    List.flatMap_nil, List.append_nil]

/-- **The Thumb loop**, from any of its rounds on: the blocks of the
instructions wholly in the prologue, and a boundary for each that begins
there. -/
theorem thumbLoop_eq (n fuel j : ℕ) (hj : insnStart orig_instructions j < n)
    (hfuel : n ≤ insnStart orig_instructions j + fuel) (b : σ) :
    thumbLoop record mem orig_instructions n fuel (insnStart orig_instructions j)
        (target_addr + BitVec.ofNat 32 (2 * insnStart orig_instructions j + 4))
        (thumbBlocks mem target_addr orig_instructions j) b
      = (insnStart orig_instructions (wholeInsns orig_instructions n),
          thumbBlocks mem target_addr orig_instructions (wholeInsns orig_instructions n),
          (List.range' j (begunInsns orig_instructions n - j)).foldl (fun b j =>
            record b (insnStart orig_instructions j * 2)
              ((thumbBlocks mem target_addr orig_instructions j).length * 2)) b) := by
  induction fuel generalizing j b with
  | zero => omega
  | succ fuel ih =>
    set p := insnStart orig_instructions j with hp
    have hbegun : j < begunInsns orig_instructions n := lt_begunInsns_iff.mpr hj
    -- one more instruction, if the loop goes on behind it
    have hnext : ∀ b, insnStart orig_instructions (j + 1) < n →
        thumbLoop record mem orig_instructions n fuel (insnStart orig_instructions (j + 1))
            (target_addr + BitVec.ofNat 32 (2 * insnStart orig_instructions (j + 1) + 4))
            (thumbBlocks mem target_addr orig_instructions (j + 1)) b
          = (insnStart orig_instructions (wholeInsns orig_instructions n),
              thumbBlocks mem target_addr orig_instructions (wholeInsns orig_instructions n),
              (List.range' (j + 1) (begunInsns orig_instructions n - (j + 1))).foldl (fun b j =>
                record b (insnStart orig_instructions j * 2)
                  ((thumbBlocks mem target_addr orig_instructions j).length * 2)) b) := by
      intro b hlt
      refine ih (j + 1) hlt ?_ b
      have := insnStart_strictMono orig_instructions (Nat.lt_add_one j)
      omega
    have hrange : List.range' j (begunInsns orig_instructions n - j)
        = j :: List.range' (j + 1) (begunInsns orig_instructions n - (j + 1)) := by
      rw [show begunInsns orig_instructions n - j
        = begunInsns orig_instructions n - (j + 1) + 1 by omega, List.range'_succ]
    -- where the loop stops behind this instruction, it is the last
    have hlast : insnStart orig_instructions (j + 1) = n →
        wholeInsns orig_instructions n = j + 1 ∧ begunInsns orig_instructions n = j + 1 := by
      intro h
      have hw : wholeInsns orig_instructions n = j + 1 :=
        wholeInsns_unique h.le (h ▸ insnStart_strictMono _ (Nat.lt_add_one _))
      rcases insnStart_wholeInsns orig_instructions n with ⟨-, h'⟩ | ⟨h', -, -⟩
      · exact ⟨hw, h'.trans hw⟩
      · rw [hw] at h'
        omega
    have hpc : ∀ k, target_addr + BitVec.ofNat 32 (2 * p + 4) + BitVec.ofNat 32 (2 * k)
        = target_addr + BitVec.ofNat 32 (2 * (p + k) + 4) := by
      intro k
      rw [BitVec.add_assoc, ← BitVec.ofNat_add]
      exact congrArg (fun i => target_addr + BitVec.ofNat 32 i) (by omega)
    rw [thumbLoop, hrange, List.foldl_cons]
    simp only [isThumb32_iff]
    by_cases hw : isThumb32 (orig_instructions p) = true
    · have hblock : thumbBlocks mem target_addr orig_instructions j
          ++ relocateInstructionInThumb32 mem (target_addr + BitVec.ofNat 32 (2 * p + 4))
              (orig_instructions p) (orig_instructions (p + 1))
          = thumbBlocks mem target_addr orig_instructions (j + 1) := by
        rw [thumbBlocks_succ, thumbBlock, ← hp, insnAt_wide hw]
        rfl
      have hs : insnStart orig_instructions (j + 1) = p + 2 := by
        rw [insnStart_succ, ← hp, insnAt_wide hw]
        rfl
      rw [if_pos hw, hblock]
      by_cases hend : p + 2 > n
      · -- the instruction straddles the end
        have hwhole : wholeInsns orig_instructions n = j :=
          wholeInsns_unique (hp ▸ hj.le) (by omega)
        have hb : begunInsns orig_instructions n = j + 1 := by
          rcases insnStart_wholeInsns orig_instructions n with ⟨h, -⟩ | ⟨-, h, -⟩
          · rw [hwhole] at h
            omega
          · rw [h, hwhole]
        rw [if_pos hend, hwhole, hb, Nat.sub_self]
        rfl
      · rw [if_neg hend]
        by_cases hstop : p + 2 ≥ n
        · obtain ⟨h1, h2⟩ := hlast (by omega)
          rw [if_pos hstop, h1, h2, hs, Nat.sub_self]
          rfl
        · rw [if_neg hstop, ← hs]
          have h4 := hpc 2
          rw [show BitVec.ofNat 32 (2 * 2) = 4#32 from rfl, ← hs] at h4
          rw [h4]
          exact hnext _ (by omega)
    · rw [Bool.not_eq_true] at hw
      have hblock : thumbBlocks mem target_addr orig_instructions j
          ++ relocateInstructionInThumb16 mem (target_addr + BitVec.ofNat 32 (2 * p + 4))
              (orig_instructions p)
          = thumbBlocks mem target_addr orig_instructions (j + 1) := by
        rw [thumbBlocks_succ, thumbBlock, ← hp, insnAt_narrow hw]
        rfl
      have hs : insnStart orig_instructions (j + 1) = p + 1 := by
        rw [insnStart_succ, ← hp, insnAt_narrow hw]
        rfl
      rw [if_neg (by rw [hw]; exact Bool.false_ne_true), hblock]
      by_cases hstop : p + 1 ≥ n
      · obtain ⟨h1, h2⟩ := hlast (by omega)
        rw [if_pos hstop, h1, h2, hs, Nat.sub_self]
        rfl
      · rw [if_neg hstop, ← hs]
        have h2 := hpc 1
        rw [show BitVec.ofNat 32 (2 * 1) = 2#32 from rfl, ← hs] at h2
        rw [h2]
        exact hnext _ (by omega)

/-- **What `relocateInstructionInThumb` writes and records**: the blocks, the
jump to the first instruction that has none, and the boundaries. -/
theorem relocateInstructionInThumb_eq {length : ℕ} (h2 : 2 ≤ length) (b : σ) :
    relocateInstructionInThumb record mem target_addr orig_instructions length b
      = (thumbBlocks mem target_addr orig_instructions (wholeInsns orig_instructions (length / 2))
          ++ ldrPc (target_addr
            + BitVec.ofNat 32
                (2 * insnStart orig_instructions (wholeInsns orig_instructions (length / 2)))
            + 1#32),
        (List.range (begunInsns orig_instructions (length / 2))).foldl (fun b j =>
          record b (insnStart orig_instructions j * 2)
            ((thumbBlocks mem target_addr orig_instructions j).length * 2)) b) := by
  have h := thumbLoop_eq record mem target_addr orig_instructions (length / 2) (length / 2 + 1) 0
    (show 0 < length / 2 by omega) (by omega) b
  have h0 : thumbLoop record mem orig_instructions (length / 2) (length / 2 + 1) 0
      (target_addr + 4#32) [] b = _ := h
  unfold relocateInstructionInThumb
  rw [h0, List.range_eq_range', Nat.sub_zero]
  dsimp only
  rw [Nat.mul_comm 2]

end Thumb

/-! ## The sizes of the blocks -/

/-- A Thumb block is a whole number of words, and at most seven. -/
theorem relocateInstructionInThumb16_size (mem : Mem) (pc : Word) (w : Half) :
    ∃ k, (relocateInstructionInThumb16 mem pc w).length = 2 * (k + 1) ∧ k < 7 := by
  unfold relocateInstructionInThumb16
  cases getTypeInThumb16 w <;>
    simp only [List.length_append, List.length_cons, List.length_nil, ldrPc_length, literal_length]
  case b1Thumb16 => exact ⟨2, rfl, by decide⟩
  case b2Thumb16 => exact ⟨1, rfl, by decide⟩
  case bxThumb16 => exact ⟨1, rfl, by decide⟩
  case addThumb16 => exact ⟨3, rfl, by decide⟩
  case movThumb16 => exact ⟨1, rfl, by decide⟩
  case adrThumb16 => exact ⟨1, rfl, by decide⟩
  case ldrThumb16 => exact ⟨1, rfl, by decide⟩
  case cbThumb16 => exact ⟨2, rfl, by decide⟩
  all_goals exact ⟨0, rfl, by decide⟩

theorem relocateInstructionInThumb32_size (mem : Mem) (pc : Word) (high low : Half) :
    ∃ k, (relocateInstructionInThumb32 mem pc high low).length = 2 * (k + 1) ∧ k < 7 := by
  unfold relocateInstructionInThumb32
  cases h : getTypeInThumb32 ((high.setWidth 32 <<< 16) ||| low.setWidth 32) <;>
    simp only [h, List.length_append, List.length_cons, List.length_nil, ldrPc_length,
      literal_length]
  case blxThumb32 => exact ⟨2, rfl, by decide⟩
  case blThumb32 => exact ⟨2, rfl, by decide⟩
  case b1Thumb32 => exact ⟨2, rfl, by decide⟩
  case b2Thumb32 => exact ⟨1, rfl, by decide⟩
  case adr1Thumb32 => exact ⟨1, rfl, by decide⟩
  case adr2Thumb32 => exact ⟨1, rfl, by decide⟩
  case ldrThumb32 => exact ⟨1, rfl, by decide⟩
  case tbbThumb32 => exact ⟨6, rfl, by decide⟩
  case tbhThumb32 => exact ⟨6, rfl, by decide⟩
  all_goals exact ⟨0, rfl, by decide⟩

theorem thumbInsnBlock_size (mem : Mem) (pc : Word) (x : ThumbInsn) :
    ∃ k, (thumbInsnBlock mem pc x).length = 2 * (k + 1) ∧ k < 7 := by
  cases x with
  | narrow w => exact relocateInstructionInThumb16_size mem pc w
  | wide high low => exact relocateInstructionInThumb32_size mem pc high low

/-- An ARM block has at most six words. -/
theorem relocateWordInArm_size (mem : Mem) (pc w : Word) :
    0 < (relocateWordInArm mem pc w).length ∧ (relocateWordInArm mem pc w).length ≤ 6 := by
  unfold relocateWordInArm
  cases getTypeInArm w <;> simp only [List.length_cons, List.length_nil] <;> decide

/-! ## Both instruction sets -/

/-- Whether a target is a Thumb function, as `relocateInstruction` reads it. -/
def isThumbTarget (target_addr : Word) : Bool := target_addr &&& 1#32 != 0#32

/-- The halfwords of a code. -/
def halfAt (orig : ℕ → Byte) (i : ℕ) : Half := orig (2 * i + 1) ++ orig (2 * i)

/-- The words of a code. -/
def wordAt (orig : ℕ → Byte) (i : ℕ) : Word :=
  (orig (4 * i + 3) ++ orig (4 * i + 2)) ++ (orig (4 * i + 1) ++ orig (4 * i))

section Both

variable (mem : Mem) (target_addr : Word) (orig : ℕ → Byte)

/-- **Where instruction `j` of a code begins**, in bytes. -/
def insnOffset (j : ℕ) : ℕ :=
  if isThumbTarget target_addr then 2 * insnStart (halfAt orig) j else 4 * j

/-- **Where its block begins** in the trampoline. -/
def blockOffset (j : ℕ) : ℕ :=
  if isThumbTarget target_addr then
    2 * (thumbBlocks mem (target_addr - 1#32) (halfAt orig) j).length
  else 4 * (armBlocks mem target_addr (wordAt orig) j).length

/-- The number of instructions wholly inside a prologue. -/
def wholeCount (length : ℕ) : ℕ :=
  if isThumbTarget target_addr then wholeInsns (halfAt orig) (length / 2) else length / 4

/-- The number of instructions that begin inside it. -/
def begunCount (length : ℕ) : ℕ :=
  if isThumbTarget target_addr then begunInsns (halfAt orig) (length / 2) else length / 4

/-- **The trampoline of the first `m` instructions**: their blocks and a jump
to instruction `m`. -/
def trampolineOf (m : ℕ) : Trampoline :=
  if isThumbTarget target_addr then
    .thumb (thumbBlocks mem (target_addr - 1#32) (halfAt orig) m
      ++ ldrPc (target_addr - 1#32 + BitVec.ofNat 32 (insnOffset target_addr orig m) + 1#32))
  else
    .arm (armBlocks mem target_addr (wordAt orig) m
      ++ [0xE51FF004#32, target_addr + BitVec.ofNat 32 (insnOffset target_addr orig m)])

/-- The block of instruction `j`. -/
def blockOf (j : ℕ) : Trampoline :=
  if isThumbTarget target_addr then
    .thumb (thumbBlock mem (target_addr - 1#32) (halfAt orig) j)
  else .arm (armBlock mem target_addr (wordAt orig) j)

/-- The jump to instruction `m`. -/
def jumpTo (m : ℕ) : Trampoline :=
  if isThumbTarget target_addr then
    .thumb (ldrPc (target_addr - 1#32 + BitVec.ofNat 32 (insnOffset target_addr orig m) + 1#32))
  else .arm [0xE51FF004#32, target_addr + BitVec.ofNat 32 (insnOffset target_addr orig m)]

end Both

/-- A piece of code begins at byte `k` of a trampoline. -/
def BeginsAt (k : ℕ) : Trampoline → Trampoline → Prop
  | .thumb xs, .thumb ys => xs <+: ys.drop (k / 2)
  | .arm xs, .arm ys => xs <+: ys.drop (k / 4)
  | _, _ => False

theorem beginsAt_thumb {k : ℕ} {xs ys : List Half} :
    BeginsAt k (.thumb xs) (.thumb ys) ↔ xs <+: ys.drop (k / 2) := Iff.rfl

theorem beginsAt_arm {k : ℕ} {xs ys : List Word} :
    BeginsAt k (.arm xs) (.arm ys) ↔ xs <+: ys.drop (k / 4) := Iff.rfl

variable {mem : Mem} {target_addr : Word} {orig orig' : ℕ → Byte} {length j : ℕ}

theorem isThumbTarget_iff : isThumbTarget target_addr = true ↔ target_addr &&& 1#32 ≠ 0#32 :=
  bne_iff_ne

/-- **The trampoline of a prologue**: its first `wholeCount` instructions. -/
theorem relocateInstruction_code {σ : Type} (record : σ → ℕ → ℕ → σ) (h4 : 4 ∣ length)
    (hpos : 0 < length) (b : σ) :
    (relocateInstruction record mem target_addr orig length b).1
      = trampolineOf mem target_addr orig (wholeCount target_addr orig length) := by
  have h2 : 2 ≤ length := le_trans (by omega) (Nat.le_of_dvd hpos h4)
  unfold relocateInstruction trampolineOf insnOffset wholeCount
  by_cases ht : isThumbTarget target_addr = true
  · rw [if_pos (isThumbTarget_iff.mp ht), if_pos ht, if_pos ht, if_pos ht]
    exact congrArg (fun r => Trampoline.thumb r.1) (relocateInstructionInThumb_eq record mem
      (target_addr - 1#32) (halfAt orig) h2 b)
  · rw [if_neg (fun h => ht (isThumbTarget_iff.mpr h)), if_neg ht, if_neg ht, if_neg ht]
    refine congrArg Trampoline.arm ((relocateInstructionInArm_code record mem target_addr
      (wordAt orig) length b).trans ?_)
    rw [Nat.mul_div_cancel' h4]

/-- **The boundaries of a prologue**: where each instruction that begins there
begins, and where its block does. -/
theorem boundaries_eq (h2 : 2 ≤ length) :
    boundaries mem target_addr orig length
      = (List.range (begunCount target_addr orig length)).map
          (fun j => (insnOffset target_addr orig j, blockOffset mem target_addr orig j)) := by
  have hfold : ∀ (f : ℕ → ℕ × ℕ) (l : List ℕ) (bs : List (ℕ × ℕ)),
      l.foldl (fun bs j => bs ++ [f j]) bs = bs ++ l.map f := by
    intro f l bs
    induction l generalizing bs with
    | nil => exact (List.append_nil bs).symm
    | cons j l ih => rw [List.foldl_cons, ih, List.append_assoc, List.map_cons,
        List.singleton_append]
  unfold boundaries relocateInstruction insnOffset blockOffset begunCount
  by_cases ht : isThumbTarget target_addr = true
  · rw [if_pos (isThumbTarget_iff.mp ht)]
    simp only [if_pos ht]
    refine (congrArg Prod.snd (relocateInstructionInThumb_eq (fun bs o t => bs ++ [(o, t)]) mem
      (target_addr - 1#32) (halfAt orig) h2 [])).trans ?_
    refine (hfold _ _ []).trans (List.map_congr_left (fun j _ => ?_))
    rw [Nat.mul_comm 2, Nat.mul_comm 2]
  · rw [if_neg (fun h => ht (isThumbTarget_iff.mpr h))]
    simp only [if_neg ht]
    have h := armLoop_eq (fun bs o t => bs ++ [(o, t)]) mem target_addr (wordAt orig) (length / 4)
      0 ([] : List (ℕ × ℕ))
    refine (congrArg Prod.snd h).trans ?_
    rw [← List.range_eq_range']
    refine (hfold _ _ []).trans (List.map_congr_left (fun j _ => ?_))
    rw [Nat.mul_comm 4, Nat.mul_comm 4]

theorem insnOffset_strictMono : StrictMono (insnOffset target_addr orig) := by
  intro i j h
  unfold insnOffset
  split_ifs
  · exact Nat.mul_lt_mul_of_pos_left (insnStart_strictMono _ h) (by decide)
  · omega

/-- **One block more.** -/
theorem blockOffset_succ (mem : Mem) (target_addr : Word) (orig : ℕ → Byte) (j : ℕ) :
    ∃ k, blockOffset mem target_addr orig (j + 1)
      = blockOffset mem target_addr orig j + 4 * (k + 1) ∧ k < 7 := by
  unfold blockOffset
  split_ifs
  · obtain ⟨k, hk, h7⟩ := thumbInsnBlock_size mem
      (target_addr - 1#32 + BitVec.ofNat 32 (2 * insnStart (halfAt orig) j + 4))
      (insnAt (halfAt orig) (insnStart (halfAt orig) j))
    refine ⟨k, ?_, h7⟩
    rw [thumbBlocks_succ, List.length_append, thumbBlock, hk]
    omega
  · obtain ⟨h0, h6⟩ := relocateWordInArm_size mem
      (target_addr + BitVec.ofNat 32 (4 * j + 8)) (wordAt orig j)
    refine ⟨(armBlock mem target_addr (wordAt orig) j).length - 1, ?_, ?_⟩
    · rw [armBlocks_succ, List.length_append, armBlock]
      omega
    · rw [armBlock]
      omega

theorem blockOffset_strictMono : StrictMono (blockOffset mem target_addr orig) := by
  refine strictMono_nat_of_lt_succ (fun j => ?_)
  obtain ⟨k, hk, -⟩ := blockOffset_succ mem target_addr orig j
  omega

@[simp] theorem blockOffset_zero : blockOffset mem target_addr orig 0 = 0 := by
  unfold blockOffset
  split_ifs <;> rfl

/-- **Every block is word-aligned** in the trampoline, and takes at most 28
bytes. -/
theorem blockOffset_aligned (mem : Mem) (target_addr : Word) (orig : ℕ → Byte) (j : ℕ) :
    blockOffset mem target_addr orig j % 4 = 0 ∧ blockOffset mem target_addr orig j ≤ 28 * j := by
  induction j with
  | zero => rw [blockOffset_zero, Nat.mul_zero, Nat.zero_mod, eq_self_iff_true, true_and]
  | succ j ih =>
    obtain ⟨k, hk, h7⟩ := blockOffset_succ mem target_addr orig j
    omega

/-- The block of an instruction stands between those before it and those
after. -/
theorem thumbBlocks_split (mem : Mem) (target_addr : Word) (orig_instructions : ℕ → Half)
    {i n : ℕ} (hi : i < n) :
    ∃ rest, thumbBlocks mem target_addr orig_instructions n
      = thumbBlocks mem target_addr orig_instructions i
        ++ thumbBlock mem target_addr orig_instructions i ++ rest := by
  induction n with
  | zero => exact absurd hi (Nat.not_lt_zero i)
  | succ n ih =>
    rw [thumbBlocks_succ]
    rcases Nat.lt_succ_iff_lt_or_eq.mp hi with h | rfl
    · obtain ⟨rest, hr⟩ := ih h
      exact ⟨rest ++ thumbBlock mem target_addr orig_instructions n, by
        rw [hr, List.append_assoc]⟩
    · exact ⟨[], by rw [List.append_nil]⟩

/-- **The block of an instruction begins at its offset.** -/
theorem blockOf_beginsAt {i m : ℕ} (hi : i < m) :
    BeginsAt (blockOffset mem target_addr orig i) (blockOf mem target_addr orig i)
      (trampolineOf mem target_addr orig m) := by
  unfold blockOffset blockOf trampolineOf
  split_ifs
  · obtain ⟨rest, hr⟩ := thumbBlocks_split mem (target_addr - 1#32) (halfAt orig) hi
    rw [beginsAt_thumb, Nat.mul_div_cancel_left _ (by decide), hr, List.append_assoc,
      List.append_assoc, List.drop_left]
    exact List.prefix_append _ _
  · obtain ⟨rest, hr⟩ := armBlocks_split mem target_addr (wordAt orig) hi
    rw [beginsAt_arm, Nat.mul_div_cancel_left _ (by decide), hr, List.append_assoc,
      List.append_assoc, List.drop_left]
    exact List.prefix_append _ _

/-- The final jump begins where the blocks end. -/
theorem jumpTo_beginsAt (mem : Mem) (target_addr : Word) (orig : ℕ → Byte) (m : ℕ) :
    BeginsAt (blockOffset mem target_addr orig m) (jumpTo target_addr orig m)
      (trampolineOf mem target_addr orig m) := by
  unfold blockOffset jumpTo trampolineOf
  split_ifs
  · rw [beginsAt_thumb, Nat.mul_div_cancel_left _ (by decide), List.drop_left]
  · rw [beginsAt_arm, Nat.mul_div_cancel_left _ (by decide), List.drop_left]

/-- The instructions that begin in a prologue are the whole ones, and at most
one more. -/
theorem begunCount_le (target_addr : Word) (orig : ℕ → Byte) (length : ℕ) :
    begunCount target_addr orig length ≤ wholeCount target_addr orig length + 1 := by
  unfold begunCount wholeCount
  split_ifs
  · rcases insnStart_wholeInsns (halfAt orig) (length / 2) with ⟨-, h⟩ | ⟨-, h, -⟩ <;> omega
  · exact Nat.le_succ _

/-- They begin below its end. -/
theorem insnOffset_lt {j : ℕ} (h : j < begunCount target_addr orig length) :
    insnOffset target_addr orig j < length := by
  unfold begunCount at h
  unfold insnOffset
  split_ifs at h ⊢
  · have := lt_begunInsns_iff.mp h
    omega
  · omega

/-! ## The bytes the relocator reads -/

/-- The Thumb loop reads the halfwords of the prologue only. -/
theorem thumbLoop_halves {σ : Type} (record : σ → ℕ → ℕ → σ) (mem : Mem) {ws ws' : ℕ → Half}
    {n : ℕ} (h : ∀ i, i < n → ws i = ws' i) (fuel orig_pos : ℕ) (hpos : orig_pos < n) (pc : Word)
    (code : List Half) (b : σ) :
    thumbLoop record mem ws n fuel orig_pos pc code b
      = thumbLoop record mem ws' n fuel orig_pos pc code b := by
  induction fuel generalizing orig_pos pc code b with
  | zero => rfl
  | succ fuel ih =>
    rw [thumbLoop, thumbLoop]
    simp only [h orig_pos hpos]
    split_ifs with h32 hend hlast hlast
    · rfl
    · rw [h (orig_pos + 1) (by omega)]
    · rw [h (orig_pos + 1) (by omega)]
      exact ih (orig_pos + 2) (by omega) _ _ _
    · rfl
    · exact ih (orig_pos + 1) (by omega) _ _ _

theorem armLoop_words {σ : Type} (record : σ → ℕ → ℕ → σ) (mem : Mem) {ws ws' : ℕ → Word}
    {n : ℕ} (h : ∀ i, i < n → ws i = ws' i) (left orig_pos : ℕ)
    (hpos : orig_pos + left ≤ n) (pc : Word)
    (code : List Word) (b : σ) :
    armLoop record mem ws left orig_pos pc code b
      = armLoop record mem ws' left orig_pos pc code b := by
  induction left generalizing orig_pos pc code b with
  | zero => rfl
  | succ left ih =>
    rw [armLoop, armLoop, h orig_pos (by omega)]
    exact ih (orig_pos + 1) (by omega) _ _ _

/-- **The relocator reads the bytes of the prologue only.** -/
theorem relocateInstruction_congr {σ : Type} (record : σ → ℕ → ℕ → σ) (h4 : 4 ≤ length)
    (ho : ∀ k, k < length → orig k = orig' k) (b : σ) :
    relocateInstruction record mem target_addr orig length b
      = relocateInstruction record mem target_addr orig' length b := by
  have hhalf : ∀ i, i < length / 2 → halfAt orig i = halfAt orig' i := by
    intro i hi
    unfold halfAt
    rw [ho _ (by omega), ho _ (by omega)]
  have hword : ∀ i, i < length / 4 → wordAt orig i = wordAt orig' i := by
    intro i hi
    unfold wordAt
    rw [ho _ (by omega), ho _ (by omega), ho _ (by omega), ho _ (by omega)]
  have hthumb := thumbLoop_halves record mem hhalf (length / 2 + 1) 0 (by omega)
    (target_addr - 1#32 + 4#32) [] b
  have harm := armLoop_words record mem hword (length / 4) 0 (by omega)
    (target_addr + 8#32) [] b
  unfold relocateInstruction relocateInstructionInThumb relocateInstructionInArm
  exact if_congr Iff.rfl
    (congrArg (fun r : ℕ × List Half × σ => (Trampoline.thumb (r.2.1 ++ ldrPc
      (target_addr - 1#32 + BitVec.ofNat 32 (r.1 * 2) + 1#32)), r.2.2)) hthumb)
    (congrArg (fun r : List Word × σ => (Trampoline.arm (r.1
      ++ [0xE51FF004#32, target_addr + BitVec.ofNat 32 length]), r.2)) harm)

end Relocate
