import AndroidReverse.HookZzBlocks
import AndroidReverse.RelocateThumb32

/-!
# The targets of relocated Thumb branches

A relocated branch jumps to a literal, and the literal is the target the
rewriter computes from the fields of the instruction. The fields are put
together as the architecture has them, but nothing is sign-extended; in the
long branches the bits above `imm10` are or-ed into it, and `B.W` looks for its
sign bit outside the halfword.

What comes out is therefore below 2^22 whatever the instruction says, and it is
the displacement of the branch if that is below 2^22 as well:
`thumbBranch_target_iff`. Backward branches all go wrong, and so do calls of
4 MiB and more.
-/

namespace HookZz

open Arm Relocate Relocator

/-! ## The instruction that is read -/

/-- Decode a Thumb instruction of one halfword or two. -/
def decodeThumb (insn1 insn2 : Half) : Option Insn :=
  if isThumb32 insn1 then decodeThumb32 (insn1 ++ insn2) else decodeThumb16 insn1

/-- The instruction that stands at an address, as a reader finds it. -/
def thumbInsnAt (mem : Mem) (addr : Word) : ARMInstruction :=
  thumbReaderInsn mem (thumbReaderReset addr)

section Read

variable (mem : Mem) (addr : Word)

theorem read32_low :
    (mem.read32 addr &&& 0x0000FFFF#32).setWidth 16 = mem.read16 addr := by
  refine BitVec.eq_of_getLsbD_eq (fun i hi => ?_)
  rw [Mem.read32, BitVec.getLsbD_setWidth, BitVec.getLsbD_and, BitVec.getLsbD_append, if_pos hi]
  interval_cases i <;> simp

theorem read32_high :
    ((mem.read32 addr &&& 0xFFFF0000#32) >>> 16).setWidth 16 = mem.read16 (addr + 2#32) := by
  refine BitVec.eq_of_getLsbD_eq (fun i hi => ?_)
  rw [Mem.read32, BitVec.getLsbD_setWidth, BitVec.getLsbD_ushiftRight, BitVec.getLsbD_and,
    BitVec.getLsbD_append, if_neg (by omega), Nat.add_sub_cancel_left]
  interval_cases i <;> simp

theorem insnIsThumb2_read32 :
    insnIsThumb2 (mem.read32 addr) = isThumb32 (mem.read16 addr) := by
  have h : mem.read32 addr &&& 0x0000FFFF#32
      = (mem.read16 addr).setWidth 32 &&& 0x0000FFFF#32 := by
    refine BitVec.eq_of_getLsbD_eq (fun i hi => ?_)
    rw [Mem.read32, BitVec.getLsbD_and, BitVec.getLsbD_and, BitVec.getLsbD_append,
      BitVec.getLsbD_setWidth]
    interval_cases i <;> simp
  rw [← insnIsThumb2_eq, insnIsThumb2, insnIsThumb2, h]

/-- **What a reader finds** are the halfwords in memory. -/
theorem thumbInsnAt_eq :
    thumbInsnAt mem addr = if isThumb32 (mem.read16 addr) then
        ⟨.thumb2Insn, addr + 4#32, addr, 4, mem.read32 addr, mem.read16 addr,
          mem.read16 (addr + 2#32)⟩
      else ⟨.thumbInsn, addr + 4#32, addr, 2, mem.read32 addr, mem.read16 addr, 0#16⟩ := by
  rw [← insnIsThumb2_read32, ← read32_low, ← read32_high]
  rfl

@[simp] theorem thumbInsnAt_pc : (thumbInsnAt mem addr).pc = addr + 4#32 := by
  rw [thumbInsnAt_eq]
  split <;> rfl

@[simp] theorem thumbInsnAt_address : (thumbInsnAt mem addr).address = addr := by
  rw [thumbInsnAt_eq]
  split <;> rfl

theorem thumbInsnAt_size :
    (thumbInsnAt mem addr).size = if isThumb32 (mem.read16 addr) then 4 else 2 := by
  rw [thumbInsnAt_eq]
  split <;> rfl

/-- The relocator decodes what stands in memory. -/
theorem decodeThumb_insnAt :
    decodeThumb (thumbInsnAt mem addr).insn1 (thumbInsnAt mem addr).insn2
      = decodeThumb (mem.read16 addr) (mem.read16 (addr + 2#32)) := by
  unfold decodeThumb
  rw [thumbInsnAt_eq]
  by_cases h : isThumb32 (mem.read16 addr) = true
  · rw [if_pos h]
  · rw [if_neg h, if_neg h, if_neg h]

end Read

/-! ## Branches -/

/-- The branches with a displacement. -/
def isBranch : Op → Bool
  | .b _ => true
  | .bl _ => true
  | .blx _ => true
  | .cb _ _ _ => true
  | _ => false

/-- The displacement of a branch. -/
def displacement : Op → Word
  | .b off => off
  | .bl off => off
  | .blx off => off
  | .cb _ _ off => off
  | _ => 0#32

/-- **Where a branch goes**, in the form a jump takes it: with bit 0 set for
the branches that stay in Thumb state. -/
def branchTarget (pc : Word) : Op → Word
  | .blx off => align4 pc + off
  | op => (pc + displacement op) ||| 1#32

/-- **The Thumb branches, by the answers of the classifier.** -/
inductive IsBranch (insn1 insn2 : Half) : THUMBInsnType → Insn → Prop where
  | cb (h : insn1 &&& 0xF500#16 = 0xB100#16) : IsBranch insn1 insn2 .cbnzCbz
      ⟨always, .cb (insn1.getLsbD 11) (lowReg insn1 0) (thumbCbOffset insn1)⟩
  | bT1 (h : insn1 &&& 0xF000#16 = 0xD000#16)
      (hc : (insn1.extractLsb' 8 4).extractLsb' 1 3 ≠ 0b111#3) :
      IsBranch insn1 insn2 .bT1 ⟨insn1.extractLsb' 8 4, .b (thumb16CondOffset insn1)⟩
  | bT2 : IsBranch insn1 insn2 .bT2 ⟨always, .b (thumb16Offset insn1)⟩
  | bT3 (h1 : insn1 &&& 0xF800#16 = 0xF000#16) (h2 : insn2 &&& 0xD000#16 = 0x8000#16)
      (hc : (armReg (insn1 ++ insn2) 22).extractLsb' 1 3 ≠ 0b111#3) :
      IsBranch insn1 insn2 .bT3
        ⟨armReg (insn1 ++ insn2) 22, .b (thumbCondBranchOffset (insn1 ++ insn2))⟩
  | bT4 : IsBranch insn1 insn2 .bT4 ⟨always, .b (thumbBranchOffset (insn1 ++ insn2))⟩
  | bl : IsBranch insn1 insn2 .blblxImmediateT1
      ⟨always, .bl (thumbBranchOffset (insn1 ++ insn2))⟩
  | blx : IsBranch insn1 insn2 .blblxImmediateT2
      ⟨always, .blx (thumbBlxOffset (insn1 ++ insn2))⟩

/-- A pattern of two halfwords is a pattern of each. -/
theorem append_mask {insn1 insn2 m1 m2 v1 v2 : Half}
    (h : (insn1 ++ insn2 : BitVec 32) &&& (m1 ++ m2) = v1 ++ v2) :
    insn1 &&& m1 = v1 ∧ insn2 &&& m2 = v2 := by
  have hand : (insn1 ++ insn2 : BitVec 32) &&& (m1 ++ m2) = (insn1 &&& m1) ++ (insn2 &&& m2) := by
    refine BitVec.eq_of_getLsbD_eq (fun i hi => ?_)
    rw [BitVec.getLsbD_and, BitVec.getLsbD_append, BitVec.getLsbD_append, BitVec.getLsbD_append]
    split <;> rw [BitVec.getLsbD_and]
  rw [hand] at h
  constructor
  · refine BitVec.eq_of_getLsbD_eq (fun i hi => ?_)
    have hb := congrArg (fun w => BitVec.getLsbD w (i + 16)) h
    simpa only [BitVec.getLsbD_append, show ¬ i + 16 < 16 from by omega, if_false,
      Nat.add_sub_cancel] using hb
  · refine BitVec.eq_of_getLsbD_eq (fun i hi => ?_)
    have hb := congrArg (fun w => BitVec.getLsbD w i) h
    simpa only [BitVec.getLsbD_append, hi, if_true] using hb

/-- The condition field as the classifier reads it. -/
theorem condField_ne {insn1 : Half} (hc : (insn1.extractLsb' 8 4).extractLsb' 1 3 ≠ 0b111#3) :
    getInsnSub (insn1.setWidth 32) 8 4 ≠ 0b1110#32
      ∧ getInsnSub (insn1.setWidth 32) 8 4 ≠ 0b1111#32 := by
  have hf : getInsnSub (insn1.setWidth 32) 8 4 = (insn1.extractLsb' 8 4).setWidth 32 := by
    rw [getInsnSub_eq _ _ (by decide), BitVec.extractLsb'_setWidth_of_le (by decide)]
  rw [hf]
  generalize insn1.extractLsb' 8 4 = c at hc
  revert c
  decide

/-- The answers for a long branch. -/
theorem getTHUMBInsnType_long {insn1 insn2 v2 : Half} (hw : isThumb32 insn1 = true)
    (h1 : insn1 &&& 0xF800#16 = 0xF000#16) (h2 : insn2 &&& 0xD000#16 = v2)
    (hv : v2 &&& 0x8000#16 ≠ 0#16) :
    getTHUMBInsnType insn1 insn2 =
      if v2 = 0x8000#16 then .bT3
      else if v2 = 0x9000#16 then .bT4
      else if v2 = 0xD000#16 then .blblxImmediateT1
      else if v2 = 0xC000#16 then .blblxImmediateT2
      else .undef := by
  have hbit : insn2 &&& 0x8000#16 ≠ 0#16 := mask_conflict h2 (by simpa using hv)
  rw [getTHUMBInsnType_wide hw, if_neg (mask_conflict h1 (by decide)), if_neg (fun h => hbit h.2),
    if_neg (fun h => hbit h.2), h2]
  simp only [h1, true_and]

/-- **A branch that decodes is one of these.** -/
theorem isBranch_of_decode {insn1 insn2 : Half} {x : Insn}
    (hx : decodeThumb insn1 insn2 = some x) (hb : isBranch x.op = true) :
    IsBranch insn1 insn2 (getTHUMBInsnType insn1 insn2) x := by
  unfold decodeThumb at hx
  by_cases hw : isThumb32 insn1 = true
  · rw [if_pos hw] at hx
    obtain ⟨r, hr, hm, he, rfl⟩ := exists_row hx
    simp only [thumb32Rows, thumbRow, thumbCondRow, List.mem_cons, List.not_mem_nil, or_false]
      at hr
    rcases hr with rfl | rfl | rfl | rfl | rfl | rfl | rfl | rfl | rfl | rfl | rfl
    case inl =>
      have hm' := @append_mask _ _ 0xF800#16 0xD000#16 0xF000#16 0xC000#16
        (mask_trans _ hm (by decide))
      rw [getTHUMBInsnType_long hw hm'.1 hm'.2 (by decide)]
      exact IsBranch.blx
    case inr.inl =>
      have hm' := @append_mask _ _ 0xF800#16 0xD000#16 0xF000#16 0xD000#16 hm
      rw [getTHUMBInsnType_long hw hm'.1 hm'.2 (by decide)]
      exact IsBranch.bl
    case inr.inr.inl =>
      have hm' := @append_mask _ _ 0xF800#16 0xD000#16 0xF000#16 0x8000#16 hm
      rw [getTHUMBInsnType_long hw hm'.1 hm'.2 (by decide)]
      exact IsBranch.bT3 hm'.1 hm'.2 (by simpa using he)
    case inr.inr.inr.inl =>
      have hm' := @append_mask _ _ 0xF800#16 0xD000#16 0xF000#16 0x9000#16 hm
      rw [getTHUMBInsnType_long hw hm'.1 hm'.2 (by decide)]
      exact IsBranch.bT4
    all_goals cases hb
  · rw [if_neg hw] at hx
    rw [getTHUMBInsnType_narrow (Bool.eq_false_iff.mpr hw)]
    obtain ⟨r, hr, hm, he, rfl⟩ := exists_row hx
    simp only [thumb16Rows, thumbRow, thumbCondRow, List.mem_cons, List.not_mem_nil, or_false]
      at hr
    rcases hr with rfl | rfl | rfl | rfl | rfl | rfl | rfl | rfl | rfl | rfl | rfl | rfl | rfl
      | rfl | rfl | rfl | rfl | rfl | rfl | rfl | rfl
    case inl =>
      have hm : insn1 &&& 0xF000#16 = 0xD000#16 := hm
      have hc : (insn1.extractLsb' 8 4).extractLsb' 1 3 ≠ 0b111#3 := by simpa using he
      iterate 4 rw [if_neg (mask_conflict hm (by decide))]
      rw [if_pos ⟨hm, condField_ne hc⟩]
      exact IsBranch.bT1 hm hc
    case inr.inl =>
      have hm : insn1 &&& 0xF800#16 = 0xE000#16 := hm
      iterate 4 rw [if_neg (mask_conflict hm (by decide))]
      rw [if_neg (fun h => mask_conflict hm (by decide) h.1), if_pos hm]
      exact IsBranch.bT2
    case inr.inr.inr.inr.inr.inr.inr.inl =>
      have hm : insn1 &&& 0xF500#16 = 0xB100#16 := hm
      rw [if_pos hm]
      exact IsBranch.cb hm
    all_goals cases hb

/-! ## The immediates -/

section Immediates

variable (insn1 insn2 : Half)

/-- **An immediate without bits from 22 on**, which is the displacement if
the displacement has none either. -/
theorem imm_eq_iff {imm off : Word} (hi : ∀ i, 22 ≤ i → i < 32 → imm.getLsbD i = false)
    (h : (∀ i, 22 ≤ i → i < 32 → off.getLsbD i = false) → imm = off) :
    imm = off ↔ off.toNat < 2 ^ 22 := by
  constructor
  · rintro rfl
    refine Nat.lt_pow_two_of_testBit _ (fun i h22 => ?_)
    by_cases h32 : i < 32
    · exact hi i h22 h32
    · exact BitVec.getLsbD_of_ge imm i (by omega)
  · refine fun hlt => h (fun i h22 _ => ?_)
    exact Nat.testBit_lt_two_pow (lt_of_lt_of_le hlt (Nat.pow_le_pow_right (by decide) h22))

/-- An immediate that is not sign-extended. -/
theorem zeroExtend_iff {n : ℕ} (f : BitVec n) (hn : n ≤ 22) :
    f.setWidth 32 = f.signExtend 32 ↔ (f.signExtend 32).toNat < 2 ^ 22 := by
  refine imm_eq_iff (fun i h22 h32 => ?_) (fun h => ?_)
  · rw [BitVec.getLsbD_setWidth, BitVec.getLsbD_of_ge f i (by omega), Bool.and_false]
  · have h31 := h 31 (by decide) (by decide)
    rw [BitVec.getLsbD_signExtend, if_neg (by omega)] at h31
    exact (BitVec.signExtend_eq_setWidth_of_msb_false (by simpa using h31)).symm

theorem cbImm32_iff : cbImm32 (insn1.setWidth 32) = thumbCbOffset insn1
    ↔ (thumbCbOffset insn1).toNat < 2 ^ 22 := by
  unfold cbImm32 thumbCbOffset
  simp only [getInsnSub_eq _ _ (show 1 < 32 by decide), getInsnSub_eq _ _ (show 5 < 32 by decide)]
  refine imm_eq_iff (fun i h22 h32 => ?_) (fun _ => BitVec.eq_of_getLsbD_eq (fun i hi => ?_))
  · interval_cases i <;> simp
  · simp only [BitVec.getLsbD_or, BitVec.getLsbD_shiftLeft, BitVec.getLsbD_setWidth,
      BitVec.getLsbD_append, BitVec.getLsbD_extractLsb']
    interval_cases i <;> simp

/-- An offset in halfwords, as the source reads it. -/
theorem getInsnSub_shiftLeft_one {len : ℕ} (hlen : len ≤ 16) :
    getInsnSub (insn1.setWidth 32) 0 len <<< 1
      = (insn1.extractLsb' 0 len ++ 0b0#1).setWidth 32 := by
  rw [getInsnSub_eq _ _ (by omega)]
  refine BitVec.eq_of_getLsbD_eq (fun i hi => ?_)
  rw [BitVec.getLsbD_shiftLeft, BitVec.getLsbD_setWidth, BitVec.getLsbD_setWidth,
    BitVec.getLsbD_append, BitVec.getLsbD_extractLsb', BitVec.getLsbD_extractLsb',
    BitVec.getLsbD_setWidth]
  rcases Nat.eq_zero_or_pos i with rfl | hpos
  · simp
  · have hi1 : i - 1 < 32 := by omega
    simp [hi, hi1, show ¬ i < 1 by omega]

theorem bT1Imm32_iff : getInsnSub (insn1.setWidth 32) 0 8 <<< 1 = thumb16CondOffset insn1
    ↔ (thumb16CondOffset insn1).toNat < 2 ^ 22 := by
  rw [@getInsnSub_shiftLeft_one insn1 8 (by decide)]
  exact zeroExtend_iff _ (by decide)

theorem bT2Imm32_iff : getInsnSub (insn1.setWidth 32) 0 11 <<< 1 = thumb16Offset insn1
    ↔ (thumb16Offset insn1).toNat < 2 ^ 22 := by
  rw [@getInsnSub_shiftLeft_one insn1 11 (by decide)]
  exact zeroExtend_iff _ (by decide)

theorem bT3Imm32_iff :
    bT3Imm32 (insn1.setWidth 32) (insn2.setWidth 32) = thumbCondBranchOffset (insn1 ++ insn2)
      ↔ (thumbCondBranchOffset (insn1 ++ insn2)).toNat < 2 ^ 22 := by
  have hf : bT3Imm32 (insn1.setWidth 32) (insn2.setWidth 32)
      = ((insn1 ++ insn2 : BitVec 32).extractLsb' 26 1
          ++ ((insn1 ++ insn2 : BitVec 32).extractLsb' 11 1
            ++ ((insn1 ++ insn2 : BitVec 32).extractLsb' 13 1
              ++ ((insn1 ++ insn2 : BitVec 32).extractLsb' 16 6
                ++ ((insn1 ++ insn2 : BitVec 32).extractLsb' 0 11 ++ 0b0#1))))).setWidth 32 := by
    unfold bT3Imm32
    simp only [getInsnSub_eq _ _ (show 1 < 32 by decide),
      getInsnSub_eq _ _ (show 6 < 32 by decide), getInsnSub_eq _ _ (show 11 < 32 by decide)]
    refine BitVec.eq_of_getLsbD_eq (fun i hi => ?_)
    simp only [BitVec.getLsbD_or, BitVec.getLsbD_shiftLeft, BitVec.getLsbD_setWidth,
      BitVec.getLsbD_append, BitVec.getLsbD_extractLsb']
    interval_cases i <;> simp
  rw [hf]
  exact zeroExtend_iff _ (by decide)

/-- A single bit. -/
theorem getInsnSub_bit (w : Word) (k : ℕ) :
    getInsnSub w k 1 = (BitVec.ofBool (w.getLsbD k)).setWidth 32 := by
  rw [getInsnSub_eq _ _ (by decide)]
  refine congrArg (BitVec.setWidth 32) (BitVec.eq_of_getLsbD_eq (fun i hi => ?_))
  rw [BitVec.getLsbD_extractLsb', BitVec.getLsbD_ofBool]
  interval_cases i
  simp

/-- `I1` and `I2` as the rewriters compute them. -/
theorem not_xor_one (a b : Bool) :
    ~~~((BitVec.ofBool a).setWidth 32 ^^^ (BitVec.ofBool b).setWidth 32) &&& 0x1#32
      = (BitVec.ofBool (!(a ^^ b))).setWidth 32 := by
  cases a <;> cases b <;> decide

/-- A long branch of less than 4 MiB forward has the bits of its sign clear. -/
theorem sii_of_lt {w : Word} {f : BitVec 22}
    (h : ∀ i, 22 ≤ i → i < 32 → ((thumbSII w ++ f).signExtend 32).getLsbD i = false) :
    w.getLsbD 26 = false ∧ w.getLsbD 13 = true ∧ w.getLsbD 11 = true
      ∧ (thumbSII w ++ f).signExtend 32 = f.setWidth 32 := by
  have h22 := h 22 (by decide) (by decide)
  have h23 := h 23 (by decide) (by decide)
  have h24 := h 24 (by decide) (by decide)
  rw [BitVec.getLsbD_signExtend, if_pos (by decide), thumbSII] at h22 h23 h24
  simp only [BitVec.getLsbD_append, BitVec.getLsbD_ofBool] at h22 h23 h24
  have hs : w.getLsbD 26 = false := by simpa using h24
  rw [hs] at h22 h23
  have h13 : w.getLsbD 13 = true := by simpa using h23
  have h11 : w.getLsbD 11 = true := by simpa using h22
  have h0 : thumbSII w = 0#3 := by
    rw [thumbSII, hs, h13, h11]
    rfl
  refine ⟨hs, h13, h11, ?_⟩
  rw [h0, BitVec.signExtend_eq_setWidth_of_msb_false (by rw [BitVec.msb_append]; rfl)]
  refine BitVec.eq_of_getLsbD_eq (fun i hi => ?_)
  rw [BitVec.getLsbD_setWidth, BitVec.getLsbD_setWidth, BitVec.getLsbD_append]
  by_cases hi : i < 22
  · rw [if_pos hi]
  · rw [if_neg hi, BitVec.getLsbD_zero, BitVec.getLsbD_of_ge f i (by omega)]

/-- **The immediate of a long branch**, where the sign bit that is used is
clear whenever that of the instruction is. -/
theorem longBranchImm32_iff {w : Word} {f : BitVec 22} {s : Bool} {low high : Word}
    (hf : low ||| high = f.setWidth 32) (hs : w.getLsbD 26 = false → s = false) :
    longBranchImm32 ((BitVec.ofBool s).setWidth 32) ((BitVec.ofBool (w.getLsbD 13)).setWidth 32)
        ((BitVec.ofBool (w.getLsbD 11)).setWidth 32) low high
        = (thumbSII w ++ f).signExtend 32
      ↔ ((thumbSII w ++ f).signExtend 32).toNat < 2 ^ 22 := by
  unfold longBranchImm32
  simp only [not_xor_one, hf]
  refine imm_eq_iff (fun i h22 h32 => ?_) (fun h => ?_)
  · simp only [BitVec.getLsbD_or, BitVec.getLsbD_shiftLeft, BitVec.getLsbD_setWidth,
      BitVec.getLsbD_ofBool, BitVec.getLsbD_of_ge f i h22]
    interval_cases i <;> simp
  · obtain ⟨h26, h13, h11, he⟩ := sii_of_lt h
    rw [he, hs h26, h13, h11]
    simp

theorem branchImm32_iff {bitS : ℕ}
    (hs : (insn1 ++ insn2 : BitVec 32).getLsbD 26 = false →
      (insn1.setWidth 32).getLsbD bitS = false) :
    branchImm32 bitS (insn1.setWidth 32) (insn2.setWidth 32) = thumbBranchOffset (insn1 ++ insn2)
      ↔ (thumbBranchOffset (insn1 ++ insn2)).toNat < 2 ^ 22 := by
  have hf : getInsnSub (insn2.setWidth 32) 0 11 <<< 1 ||| getInsnSub (insn1.setWidth 32) 0 10 <<< 12
      = ((insn1 ++ insn2 : BitVec 32).extractLsb' 16 10
          ++ ((insn1 ++ insn2 : BitVec 32).extractLsb' 0 11 ++ 0b0#1)).setWidth 32 := by
    rw [getInsnSub_eq _ _ (by decide), getInsnSub_eq _ _ (by decide)]
    refine BitVec.eq_of_getLsbD_eq (fun i hi => ?_)
    simp only [BitVec.getLsbD_or, BitVec.getLsbD_shiftLeft, BitVec.getLsbD_setWidth,
      BitVec.getLsbD_append, BitVec.getLsbD_extractLsb']
    interval_cases i <;> simp
  have h := longBranchImm32_iff hf hs
  unfold branchImm32
  simp only [getInsnSub_bit, low_bit insn1 insn2 (show 13 < 16 by decide),
    low_bit insn1 insn2 (show 11 < 16 by decide)]
  exact h

theorem blxImm32_iff :
    blxImm32 (insn1.setWidth 32) (insn2.setWidth 32) = thumbBlxOffset (insn1 ++ insn2)
      ↔ (thumbBlxOffset (insn1 ++ insn2)).toNat < 2 ^ 22 := by
  have hf : getInsnSub (insn2.setWidth 32) 1 10 <<< 2 ||| getInsnSub (insn1.setWidth 32) 0 10 <<< 12
      = ((insn1 ++ insn2 : BitVec 32).extractLsb' 16 10
          ++ ((insn1 ++ insn2 : BitVec 32).extractLsb' 1 10 ++ 0b00#2)).setWidth 32 := by
    rw [getInsnSub_eq _ _ (by decide), getInsnSub_eq _ _ (by decide)]
    refine BitVec.eq_of_getLsbD_eq (fun i hi => ?_)
    simp only [BitVec.getLsbD_or, BitVec.getLsbD_shiftLeft, BitVec.getLsbD_setWidth,
      BitVec.getLsbD_append, BitVec.getLsbD_extractLsb']
    interval_cases i <;> simp
  have h := longBranchImm32_iff (w := insn1 ++ insn2)
    (s := (insn1 ++ insn2 : BitVec 32).getLsbD 26) hf id
  unfold blxImm32
  simp only [getInsnSub_bit, low_bit insn1 insn2 (show 13 < 16 by decide),
    low_bit insn1 insn2 (show 11 < 16 by decide), high_bit insn1 insn2 (show 10 < 16 by decide)]
  exact h

end Immediates

/-! ## The literals -/

namespace AssemblerWriter

/-- The word that was written last. -/
def lastLiteral (self : AssemblerWriter) : Option Word :=
  match self.buffer.reverse with
  | high :: low :: _ => some (high ++ low)
  | _ => none

theorem lastLiteral_bytes (self : AssemblerWriter) (v : Word) :
    (self.put (.bytes (addressBytes v))).lastLiteral = some v := by
  have h : (self.put (.bytes (addressBytes v))).buffer.reverse
      = highHalf v :: lowHalf v :: self.buffer.reverse := by
    show (self.buffer ++ [lowHalf v, highHalf v]).reverse = _
    rw [List.reverse_append]
    rfl
  unfold lastLiteral
  rw [h]
  exact congrArg some (highHalf_append_lowHalf v)

theorem lastLiteral_ldrPc (self : AssemblerWriter) (v : Word) :
    (self.thumbPutLdrRegAddress PC v).lastLiteral = some v := by
  rw [thumbPutLdrRegAddress_pc, emit_append]
  exact lastLiteral_bytes _ v

end AssemblerWriter

/-- The target a rewriter writes for an immediate. -/
def rewrittenTarget (pc imm : Word) : Op → Word
  | .blx _ => align4 pc + imm
  | _ => pc + imm + 1#32

/-- A jump to a literal, registered or not, ends with it. -/
theorem lastLiteral_jump (self : Relocator) (v : Word) (k : ℕ) :
    (registerLiteralInsn^[k] (self.write (·.thumbPutLdrRegAddress PC v))).output.lastLiteral
      = some v := by
  rw [registerLiteralInsn_iterate]
  exact AssemblerWriter.lastLiteral_ldrPc _ v

/-- **The literal of a rewritten branch** is its target for some immediate,
which is the displacement exactly if that is below 4 MiB. -/
theorem thumbRewrite_target {c : ARMInstruction} {x : Insn} (self : Relocator)
    (hx : IsBranch c.insn1 c.insn2 (getTHUMBInsnType c.insn1 c.insn2) x) :
    ∃ r imm, self.thumbRewrite c = some r
      ∧ r.output.lastLiteral = some (rewrittenTarget c.pc imm x.op)
      ∧ (imm = displacement x.op ↔ (displacement x.op).toNat < 2 ^ 22) := by
  unfold thumbRewrite
  generalize getTHUMBInsnType c.insn1 c.insn2 = ty at hx
  cases hx with
  | cb => exact ⟨_, _, rfl, lastLiteral_jump _ _ 1, cbImm32_iff _⟩
  | bT1 => exact ⟨_, _, rfl, lastLiteral_jump _ _ 1, bT1Imm32_iff _⟩
  | bT2 => exact ⟨_, _, rfl, lastLiteral_jump _ _ 1, bT2Imm32_iff _⟩
  | bT3 => exact ⟨_, _, rfl, lastLiteral_jump _ _ 0, bT3Imm32_iff _ _⟩
  | bT4 =>
    refine ⟨_, _, rfl, lastLiteral_jump _ _ 1, branchImm32_iff _ _ (fun _ => ?_)⟩
    rw [BitVec.getLsbD_setWidth, BitVec.getLsbD_of_ge c.insn1 _ (by decide), Bool.and_false]
  | bl =>
    refine ⟨_, _, rfl, lastLiteral_jump _ _ 0, branchImm32_iff _ _ (fun h => ?_)⟩
    rw [high_bit c.insn1 c.insn2 (by decide)]
    exact h
  | blx => exact ⟨_, _, rfl, lastLiteral_jump _ _ 1, blxImm32_iff _ _⟩

/-- The displacement of a Thumb branch is even. -/
theorem displacement_even {insn1 insn2 : Half} {ty : THUMBInsnType} {x : Insn}
    (hx : IsBranch insn1 insn2 ty x) : (displacement x.op).toNat % 2 = 0 := by
  cases hx with
  | cb => exact thumbCbOffset_even _
  | bT1 => exact thumb16CondOffset_even _
  | bT2 => exact thumb16Offset_even _
  | bT3 => exact thumbCondBranchOffset_even _
  | bT4 => exact thumbBranchOffset_even _
  | bl => exact thumbBranchOffset_even _
  | blx =>
    have h := thumbBlxOffset_aligned (insn1 ++ insn2)
    show (thumbBlxOffset (insn1 ++ insn2)).toNat % 2 = 0
    omega

/-- An immediate gives the target of the branch only if it is the
displacement. -/
theorem rewrittenTarget_eq_iff {pc imm : Word} {op : Op} (hb : isBranch op = true)
    (hpc : pc.toNat % 2 = 0) (hd : (displacement op).toNat % 2 = 0) :
    rewrittenTarget pc imm op = branchTarget pc op ↔ imm = displacement op := by
  have hthumb : pc + imm + 1#32 = (pc + displacement op) ||| 1#32 ↔ imm = displacement op := by
    rw [or_one_of_even (add_even hpc hd), BitVec.add_left_inj, BitVec.add_right_inj]
  cases op with
  | b off => exact hthumb
  | bl off => exact hthumb
  | cb nonzero rn off => exact hthumb
  | blx off => exact BitVec.add_right_inj (align4 pc)
  | _ => cases hb

section Claim

variable {mem : Mem} {addr : Word} {x : Insn} {self : Relocator}

/-- **The target literal of a relocated Thumb branch is the target of the
branch exactly for displacements below 4 MiB forward.** -/
theorem thumbBranch_target_iff (haddr : addr.toNat % 2 = 0)
    (hx : decodeThumb (mem.read16 addr) (mem.read16 (addr + 2#32)) = some x)
    (hb : isBranch x.op = true) (hne : self.inpos ≠ self.outpos)
    (hc : self.input.insns[self.outpos]? = some (thumbInsnAt mem addr)) :
    ∃ r, self.thumbWriteOne = some r
      ∧ (r.output.lastLiteral = some (branchTarget (addr + 4#32) x.op)
        ↔ (displacement x.op).toNat < 2 ^ 22) := by
  rw [← decodeThumb_insnAt] at hx
  have hbr := isBranch_of_decode hx hb
  obtain ⟨r, imm, hr, hl, himm⟩ := thumbRewrite_target { self with outpos := self.outpos + 1 } hbr
  unfold thumbWriteOne
  rw [if_neg hne, hc, Option.map_some]
  refine ⟨_, rfl, ?_⟩
  simp only [hr, Option.getD_some]
  rw [hl, Option.some_inj, thumbInsnAt_pc,
    rewrittenTarget_eq_iff hb (pc_even haddr) (displacement_even hbr), himm]

end Claim

/-- A relocator that has read the instruction at an address and writes from a
program counter on. -/
def relocatorAt (mem : Mem) (addr pc : Word) : Relocator :=
  (Relocator.init (thumbReaderReset addr) (AssemblerWriter.thumbReset 0#32 pc)).thumbReadOne mem

/-- A memory of halfwords from 0x8000 on. -/
def codeAt (hs : List Half) : Mem := Mem.place (fun _ => 0) 2 0x8000#32 hs

/-- A branch forward. -/
theorem thumbBranch_target_iff_forward :
    ∃ r, (relocatorAt (codeAt [0xE002#16]) 0x8000#32 0x9000#32).thumbWriteOne = some r
      ∧ (r.output.lastLiteral = some (branchTarget (0x8000#32 + 4#32) (.b 4#32))
        ↔ (displacement (.b 4#32)).toNat < 2 ^ 22) :=
  @thumbBranch_target_iff (codeAt [0xE002#16]) _ ⟨always, .b 4#32⟩ _ (by decide)
    (by decide) rfl (by decide) rfl

/-- A branch to itself: its displacement is -4 and the literal is 4 KiB
ahead. -/
theorem thumbBranch_backward :
    ¬ ∀ (mem : Mem) (addr : Word) (x : Insn) (self r : Relocator), addr.toNat % 2 = 0 →
      decodeThumb (mem.read16 addr) (mem.read16 (addr + 2#32)) = some x → isBranch x.op = true →
      self.inpos ≠ self.outpos →
      self.input.insns[self.outpos]? = some (thumbInsnAt mem addr) →
      self.thumbWriteOne = some r →
      r.output.lastLiteral = some (branchTarget (addr + 4#32) x.op) := by
  intro h
  have hl := h (codeAt [0xE7FE#16]) 0x8000#32 ⟨always, .b (-4)⟩
    (relocatorAt (codeAt [0xE7FE#16]) 0x8000#32 0x9000#32) _ (by decide) (by decide) rfl
    (by decide) rfl rfl
  revert hl
  decide

end HookZz
