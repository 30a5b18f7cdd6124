import AndroidReverse.RelocateThumb16

/-!
# Relocated 32-bit Thumb instructions

What `relocateInstructionInThumb32` emits for the branches and for the
instructions that read the program counter; the table branches have a module
of their own. The source takes an instruction as two halfwords, the decoder as
the first above the second, and the fields below are those of the word
`high ++ low`.

The branches that stay in Thumb state are right (`thumb32Branch_reproduces`).
`BLX` computes its target from the program counter instead of the aligned one,
so it is right exactly at word-aligned addresses (`thumbBlx_iff`). `ADR.W`
puts the pieces of its constant in the wrong places and exchanges addition
and subtraction, and every block goes through the 16-bit load, which has no
room for the high registers (`thumb32Value_iff`).
-/

namespace Relocate

open Arm

/-! ## The instructions -/

/-- The 32-bit branches that stay in Thumb state. -/
def isThumb32Branch : Op → Bool
  | .b _ => true
  | .bl _ => true
  | _ => false

/-- `BLX <label>`. -/
def isBlx : Op → Bool
  | .blx _ => true
  | _ => false

/-- `ADR.W` and `LDR.W <label>`. -/
def isThumb32Value : Op → Bool
  | .adr _ _ _ => true
  | .ldrLit _ _ _ => true
  | _ => false

variable {w : Word} {x : Insn}

/-- **The branches, by their encodings.** -/
theorem thumb32Branch_cases (h : decodeThumb32 w = some x) (hb : isThumb32Branch x.op = true) :
    (w &&& 0xF800D000#32 = 0xF000D000#32 ∧ x = ⟨always, .bl (thumbBranchOffset w)⟩)
      ∨ (w &&& 0xF800D000#32 = 0xF0008000#32 ∧ (armReg w 22).extractLsb' 1 3 ≠ 0b111#3
          ∧ x = ⟨armReg w 22, .b (thumbCondBranchOffset w)⟩)
      ∨ (w &&& 0xF800D000#32 = 0xF0009000#32 ∧ x = ⟨always, .b (thumbBranchOffset w)⟩) := by
  obtain ⟨r, hr, hm, he, rfl⟩ := exists_row h
  simp only [thumb32Rows, thumbRow, thumbCondRow, List.mem_cons, List.not_mem_nil, or_false] at hr
  rcases hr with rfl | rfl | rfl | rfl | rfl | rfl | rfl | rfl | rfl | rfl | rfl
  case inr.inl => exact Or.inl ⟨hm, rfl⟩
  case inr.inr.inl => exact Or.inr (Or.inl ⟨hm, by simpa using he, rfl⟩)
  case inr.inr.inr.inl => exact Or.inr (Or.inr ⟨hm, rfl⟩)
  all_goals cases hb

theorem thumbBlx_cases (h : decodeThumb32 w = some x) (hb : isBlx x.op = true) :
    w &&& 0xF800D001#32 = 0xF000C000#32 ∧ x = ⟨always, .blx (thumbBlxOffset w)⟩ := by
  obtain ⟨r, hr, hm, he, rfl⟩ := exists_row h
  simp only [thumb32Rows, thumbRow, thumbCondRow, List.mem_cons, List.not_mem_nil, or_false] at hr
  rcases hr with rfl | rfl | rfl | rfl | rfl | rfl | rfl | rfl | rfl | rfl | rfl
  case inl => exact ⟨hm, rfl⟩
  all_goals cases hb

/-- **The value instructions, by their encodings.** -/
theorem thumb32Value_cases (h : decodeThumb32 w = some x) (hv : isThumb32Value x.op = true) :
    (w &&& 0xFBFF8000#32 = 0xF2AF0000#32 ∧ armReg w 8 ≠ PC
        ∧ x = ⟨always, .adr false (armReg w 8) (thumbImm12 w)⟩)
      ∨ (w &&& 0xFBFF8000#32 = 0xF20F0000#32 ∧ armReg w 8 ≠ PC
          ∧ x = ⟨always, .adr true (armReg w 8) (thumbImm12 w)⟩)
      ∨ (w &&& 0xFF7F0000#32 = 0xF85F0000#32
          ∧ x = ⟨always,
              .ldrLit (w.getLsbD 23) (armReg w 12) ((w.extractLsb' 0 12).setWidth 32)⟩) := by
  obtain ⟨r, hr, hm, he, rfl⟩ := exists_row h
  simp only [thumb32Rows, thumbRow, thumbCondRow, List.mem_cons, List.not_mem_nil, or_false] at hr
  rcases hr with rfl | rfl | rfl | rfl | rfl | rfl | rfl | rfl | rfl | rfl | rfl
  case inr.inr.inr.inr.inl =>
    exact Or.inl ⟨hm, (by simpa [badReg] using he : _ ∧ _).2, rfl⟩
  case inr.inr.inr.inr.inr.inl =>
    exact Or.inr (Or.inl ⟨hm, (by simpa [badReg] using he : _ ∧ _).2, rfl⟩)
  case inr.inr.inr.inr.inr.inr.inl => exact Or.inr (Or.inr ⟨hm, rfl⟩)
  all_goals cases hv

/-! ## The fields -/

section Fields

variable (high low : Half)

/-- The instruction word of the source. -/
theorem instructionWord :
    (high.setWidth 32 <<< 16) ||| low.setWidth 32 = (high ++ low : BitVec 32) := by
  refine BitVec.eq_of_getLsbD_eq (fun i hi => ?_)
  simp only [BitVec.getLsbD_or, BitVec.getLsbD_shiftLeft, BitVec.getLsbD_setWidth,
    BitVec.getLsbD_append]
  by_cases h : i < 16
  · simp [h, hi]
  · simp [h, hi, BitVec.getLsbD_of_ge low i (by omega), show i - 16 < 32 from by omega]

/-- `I1` and `I2` as the source computes them. -/
theorem cNot_xor (a b : Bool) :
    cNot ((BitVec.ofBool a).setWidth 32 ^^^ (BitVec.ofBool b).setWidth 32)
      = (BitVec.ofBool (!(a ^^ b))).setWidth 32 := by
  cases a <;> cases b <;> decide

theorem high_bit {k : ℕ} (hk : k < 16) :
    (high.setWidth 32).getLsbD k = (high ++ low : BitVec 32).getLsbD (k + 16) := by
  rw [BitVec.getLsbD_setWidth, BitVec.getLsbD_append]
  simp [show k < 32 from by omega]

theorem extract_low {k n : ℕ} (h : k + n ≤ 16) :
    (high ++ low : BitVec 32).extractLsb' k n = low.extractLsb' k n := by
  refine BitVec.eq_of_getLsbD_eq (fun i hi => ?_)
  rw [BitVec.getLsbD_extractLsb', BitVec.getLsbD_extractLsb', BitVec.getLsbD_append,
    if_pos (show k + i < 16 by omega)]

theorem low_bit {k : ℕ} (hk : k < 16) :
    (low.setWidth 32).getLsbD k = (high ++ low : BitVec 32).getLsbD k := by
  rw [BitVec.getLsbD_setWidth, BitVec.getLsbD_append]
  simp [hk, show k < 32 from by omega]

/-- The immediate of `BL` and `B.W` T4 as the source assembles it. -/
theorem branchField32 :
    ((BitVec.ofBool ((high ++ low : BitVec 32).getLsbD 26)).setWidth 32 <<< 24
        ||| (BitVec.ofBool (!((high ++ low : BitVec 32).getLsbD 13
          ^^ (high ++ low : BitVec 32).getLsbD 26))).setWidth 32 <<< 23
        ||| (BitVec.ofBool (!((high ++ low : BitVec 32).getLsbD 11
          ^^ (high ++ low : BitVec 32).getLsbD 26))).setWidth 32 <<< 22
        ||| (high.setWidth 32 &&& 0x3FF#32) <<< 12 ||| (low.setWidth 32 &&& 0x7FF#32) <<< 1)
      = (thumbSII (high ++ low) ++ ((high ++ low : BitVec 32).extractLsb' 16 10
          ++ ((high ++ low : BitVec 32).extractLsb' 0 11 ++ 0b0#1))).setWidth 32 := by
  refine BitVec.eq_of_getLsbD_eq (fun i hi => ?_)
  simp only [thumbSII, BitVec.getLsbD_setWidth, BitVec.getLsbD_append, BitVec.getLsbD_shiftLeft,
    BitVec.getLsbD_and, BitVec.getLsbD_or, BitVec.getLsbD_extractLsb', BitVec.getLsbD_ofBool]
  interval_cases i <;> simp

/-- The immediate of `BLX` as the source assembles it. -/
theorem blxField32 :
    ((BitVec.ofBool ((high ++ low : BitVec 32).getLsbD 26)).setWidth 32 <<< 24
        ||| (BitVec.ofBool (!((high ++ low : BitVec 32).getLsbD 13
          ^^ (high ++ low : BitVec 32).getLsbD 26))).setWidth 32 <<< 23
        ||| (BitVec.ofBool (!((high ++ low : BitVec 32).getLsbD 11
          ^^ (high ++ low : BitVec 32).getLsbD 26))).setWidth 32 <<< 22
        ||| (high.setWidth 32 &&& 0x3FF#32) <<< 12 ||| (low.setWidth 32 &&& 0x7FE#32) <<< 1)
      = (thumbSII (high ++ low) ++ ((high ++ low : BitVec 32).extractLsb' 16 10
          ++ ((high ++ low : BitVec 32).extractLsb' 1 10 ++ 0b00#2))).setWidth 32 := by
  refine BitVec.eq_of_getLsbD_eq (fun i hi => ?_)
  simp only [thumbSII, BitVec.getLsbD_setWidth, BitVec.getLsbD_append, BitVec.getLsbD_shiftLeft,
    BitVec.getLsbD_and, BitVec.getLsbD_or, BitVec.getLsbD_extractLsb', BitVec.getLsbD_ofBool]
  interval_cases i <;> simp

/-- The immediate of `B<c>.W` T3 as the source assembles it. -/
theorem condField32 :
    ((BitVec.ofBool ((high ++ low : BitVec 32).getLsbD 26)).setWidth 32 <<< 20
        ||| (BitVec.ofBool ((high ++ low : BitVec 32).getLsbD 11)).setWidth 32 <<< 19
        ||| (BitVec.ofBool ((high ++ low : BitVec 32).getLsbD 13)).setWidth 32 <<< 18
        ||| (high.setWidth 32 &&& 0x3F#32) <<< 12 ||| (low.setWidth 32 &&& 0x7FF#32) <<< 1)
      = ((high ++ low : BitVec 32).extractLsb' 26 1 ++ ((high ++ low : BitVec 32).extractLsb' 11 1
          ++ ((high ++ low : BitVec 32).extractLsb' 13 1
            ++ ((high ++ low : BitVec 32).extractLsb' 16 6
              ++ ((high ++ low : BitVec 32).extractLsb' 0 11 ++ 0b0#1))))).setWidth 32 := by
  refine BitVec.eq_of_getLsbD_eq (fun i hi => ?_)
  simp only [BitVec.getLsbD_setWidth, BitVec.getLsbD_append, BitVec.getLsbD_shiftLeft,
    BitVec.getLsbD_and, BitVec.getLsbD_or, BitVec.getLsbD_extractLsb', BitVec.getLsbD_ofBool]
  interval_cases i <;> simp

theorem sField : (high.setWidth 32 &&& 0x400#32) >>> 10
    = (BitVec.ofBool ((high ++ low : BitVec 32).getLsbD 26)).setWidth 32 :=
  (bitField _ (k := 10) (by omega)).trans (by rw [high_bit high low (by omega)])

theorem j1Field : (low.setWidth 32 &&& 0x2000#32) >>> 13
    = (BitVec.ofBool ((high ++ low : BitVec 32).getLsbD 13)).setWidth 32 :=
  (bitField _ (k := 13) (by omega)).trans (by rw [low_bit high low (by omega)])

theorem j2Field : (low.setWidth 32 &&& 0x800#32) >>> 11
    = (BitVec.ofBool ((high ++ low : BitVec 32).getLsbD 11)).setWidth 32 :=
  (bitField _ (k := 11) (by omega)).trans (by rw [low_bit high low (by omega)])

end Fields

/-! ## The branch blocks -/

section Emit

variable (mem : Mem) (pc : Word) {high low : Half}

/-- `extendTop` where the source tests the sign bit by itself. -/
theorem extendTop_bit {n : ℕ} (f : BitVec (n + 1)) (hn : n < 32) {b : Bool} (hb : f.msb = b) :
    extendTop ((BitVec.ofBool b).setWidth 32) (n + 1) (f.setWidth 32) = f.signExtend 32 :=
  extendTop_eq_signExtend f hn (by rw [bit_ne_zero_iff, hb]) (Or.inr rfl)

theorem msb_ofBool_append (b : Bool) {n : ℕ} (y : BitVec n) : (BitVec.ofBool b ++ y).msb = b := by
  rw [BitVec.msb_append, if_neg Nat.one_ne_zero]
  cases b <;> rfl

theorem msb_thumbSII_append (w : Word) {n : ℕ} (y : BitVec n) :
    (thumbSII w ++ y).msb = w.getLsbD 26 := by
  rw [BitVec.msb_append, if_neg (by omega)]
  exact msb_ofBool_append _ _

theorem thumbBranchOffset_eq :
    extendTop ((BitVec.ofBool ((high ++ low : BitVec 32).getLsbD 26)).setWidth 32) 25
        (BitVec.setWidth 32 (thumbSII (high ++ low) ++ ((high ++ low : BitVec 32).extractLsb' 16 10
          ++ ((high ++ low : BitVec 32).extractLsb' 0 11 ++ 0b0#1))))
      = thumbBranchOffset (high ++ low) :=
  extendTop_bit (n := 24) _ (by omega) (msb_thumbSII_append _ _)

theorem relocateInstructionInThumb32_bl
    (h : (high ++ low : BitVec 32) &&& 0xF800D000#32 = 0xF000D000#32) :
    relocateInstructionInThumb32 mem pc high low
      = [0xF20F#16, 0x0E09#16, 0xF8DF#16, 0xF000#16,
          lowHalf (pc + thumbBranchOffset (high ++ low) + 1#32),
          highHalf (pc + thumbBranchOffset (high ++ low) + 1#32)] := by
  have ht : getTypeInThumb32 (high ++ low) = .blThumb32 := by
    rw [getTypeInThumb32, if_neg (mask_conflict h (by decide)), if_pos h]
  unfold relocateInstructionInThumb32
  simp only [instructionWord, ht, sField high low, j1Field high low, j2Field high low, cNot_xor,
    branchField32, thumbBranchOffset_eq, ldrPc_eq]
  rfl

theorem relocateInstructionInThumb32_b2
    (h : (high ++ low : BitVec 32) &&& 0xF800D000#32 = 0xF0009000#32) :
    relocateInstructionInThumb32 mem pc high low
      = [0xF8DF#16, 0xF000#16, lowHalf (pc + thumbBranchOffset (high ++ low) + 1#32),
          highHalf (pc + thumbBranchOffset (high ++ low) + 1#32)] := by
  have ht : getTypeInThumb32 (high ++ low) = .b2Thumb32 := by
    unfold getTypeInThumb32
    iterate 3 rw [if_neg (mask_conflict h (by decide))]
    rw [if_pos h]
  unfold relocateInstructionInThumb32
  simp only [instructionWord, ht, sField high low, j1Field high low, j2Field high low, cNot_xor,
    branchField32, thumbBranchOffset_eq, ldrPc_eq]

theorem relocateInstructionInThumb32_b1
    (h : (high ++ low : BitVec 32) &&& 0xF800D000#32 = 0xF0008000#32) :
    relocateInstructionInThumb32 mem pc high low
      = [condGuard (armReg (high ++ low) 22), 0xE003#16, 0xF8DF#16, 0xF000#16,
          lowHalf (pc + thumbCondBranchOffset (high ++ low) + 1#32),
          highHalf (pc + thumbCondBranchOffset (high ++ low) + 1#32)] := by
  have ht : getTypeInThumb32 (high ++ low) = .b1Thumb32 := by
    unfold getTypeInThumb32
    iterate 2 rw [if_neg (mask_conflict h (by decide))]
    rw [if_pos h]
  have hg : store16 (0xD000#32 ||| ((high.setWidth 32 &&& 0x3C0#32) <<< 2))
      = condGuard (armReg (high ++ low) 22) := by
    refine BitVec.eq_of_getLsbD_eq (fun i hi => ?_)
    simp only [store16, condGuard, armReg, BitVec.getLsbD_setWidth, BitVec.getLsbD_append,
      BitVec.getLsbD_shiftLeft, BitVec.getLsbD_and, BitVec.getLsbD_or, BitVec.getLsbD_extractLsb']
    interval_cases i <;> simp
  have hx := extendTop_bit (n := 20) ((high ++ low : BitVec 32).extractLsb' 26 1
    ++ ((high ++ low : BitVec 32).extractLsb' 11 1 ++ ((high ++ low : BitVec 32).extractLsb' 13 1
      ++ ((high ++ low : BitVec 32).extractLsb' 16 6
        ++ ((high ++ low : BitVec 32).extractLsb' 0 11 ++ 0b0#1)))))
    (by omega) (b := (high ++ low : BitVec 32).getLsbD 26) (by
      rw [BitVec.msb_append, if_neg Nat.one_ne_zero, BitVec.msb_eq_getLsbD_last,
        BitVec.getLsbD_extractLsb']
      rfl)
  unfold relocateInstructionInThumb32
  simp only [instructionWord, ht, sField high low, j1Field high low, j2Field high low,
    condField32, hg, ldrPc_eq]
  rw [hx]
  rfl

theorem relocateInstructionInThumb32_blx
    (h : (high ++ low : BitVec 32) &&& 0xF800D001#32 = 0xF000C000#32) :
    relocateInstructionInThumb32 mem pc high low
      = [0xF20F#16, 0x0E09#16, 0xF8DF#16, 0xF000#16,
          lowHalf (pc + thumbBlxOffset (high ++ low)),
          highHalf (pc + thumbBlxOffset (high ++ low))] := by
  have ht : getTypeInThumb32 (high ++ low) = .blxThumb32 := by
    rw [getTypeInThumb32, if_pos ((mask_trans _ h (by decide)).trans (by decide))]
  have hx : extendTop ((BitVec.ofBool ((high ++ low : BitVec 32).getLsbD 26)).setWidth 32) 25
        (BitVec.setWidth 32 (thumbSII (high ++ low) ++ ((high ++ low : BitVec 32).extractLsb' 16 10
          ++ ((high ++ low : BitVec 32).extractLsb' 1 10 ++ 0b00#2))))
      = thumbBlxOffset (high ++ low) :=
    extendTop_bit (n := 24) _ (by omega) (msb_thumbSII_append _ _)
  unfold relocateInstructionInThumb32
  simp only [instructionWord, ht, sField high low, j1Field high low, j2Field high low, cNot_xor,
    blxField32, hx, ldrPc_eq]
  rfl

end Emit

section Branch

variable {m₀ : Mem} {pc addr : Word} {f : Flags} {high low : Half}

theorem thumbBranchOffset_even (w : Word) : (thumbBranchOffset w).toNat % 2 = 0 := by
  refine toNat_mod_two ?_
  rw [thumbBranchOffset, BitVec.getLsbD_signExtend, BitVec.getLsbD_append, BitVec.getLsbD_append,
    BitVec.getLsbD_append]
  rfl

theorem thumbCondBranchOffset_even (w : Word) : (thumbCondBranchOffset w).toNat % 2 = 0 := by
  refine toNat_mod_two ?_
  rw [thumbCondBranchOffset, BitVec.getLsbD_signExtend, BitVec.getLsbD_append,
    BitVec.getLsbD_append, BitVec.getLsbD_append, BitVec.getLsbD_append, BitVec.getLsbD_append]
  rfl

theorem thumbBlxOffset_aligned (w : Word) : (thumbBlxOffset w).toNat % 4 = 0 := by
  refine toNat_mod_four ?_ ?_ <;>
  · rw [thumbBlxOffset, BitVec.getLsbD_signExtend, BitVec.getLsbD_append, BitVec.getLsbD_append,
      BitVec.getLsbD_append]
    rfl

/-- A call through a literal, in the terms of the link block. -/
theorem linkBranch_reproduces {off : Word} (hv : (pc + off).toNat % 2 = 0) :
    ThumbReproduces m₀ [0xF20F#16, 0x0E09#16, 0xF8DF#16, 0xF000#16,
        lowHalf (pc + off + 1#32), highHalf (pc + off + 1#32)] ⟨always, .bl off⟩ pc f := by
  refine (hasEffect_link _).reproduces (fun s t next hs _ _ ht => ?_)
  rw [Insn.exec_always] at ht
  rw [bxWritePC_odd (s := s.setReg LR (next ||| 1#32)) hs hv, ← ht]
  show _ = some ((s.setReg LR (s.link next)).branchWritePC (pc + off))
  rw [State.link, if_pos hs,
    State.branchWritePC_thumb (s := s.setReg LR (next ||| 1#32)) hs hv]

/-- **A relocated 32-bit branch that stays in Thumb state has the effect of
the branch.** -/
theorem thumb32Branch_reproduces (m₀ : Mem) (addr : Word) (haddr : addr.toNat % 2 = 0)
    (hx : decodeThumb32 (high ++ low) = some x) (hb : isThumb32Branch x.op = true) (f : Flags) :
    ThumbReproduces m₀ (relocateInstructionInThumb32 m₀ (addr + 4#32) high low) x
      (addr + 4#32) f := by
  have hpc := pc_even haddr
  rcases thumb32Branch_cases hx hb with ⟨hm, rfl⟩ | ⟨hm, hc, rfl⟩ | ⟨hm, rfl⟩
  · rw [relocateInstructionInThumb32_bl m₀ _ hm]
    exact linkBranch_reproduces (add_even hpc (thumbBranchOffset_even _))
  · rw [relocateInstructionInThumb32_b1 m₀ _ hm]
    exact (guardedBranch_iff (add_even hpc (thumbCondBranchOffset_even _))
      (isGuard_cond hc)).mpr (fun _ => rfl)
  · rw [relocateInstructionInThumb32_b2 m₀ _ hm]
    exact (jumpBranch_iff (add_even hpc (thumbBranchOffset_even _))).mpr rfl

/-- `BL` forward by four from an address that is not word-aligned. -/
theorem thumb32Branch_reproduces_bl :
    ThumbReproduces (fun _ => 0)
      (relocateInstructionInThumb32 (fun _ => 0) 0x8006#32 0xF000#16 0xF802#16)
      ⟨always, .bl 4#32⟩ 0x8006#32 ⟨false, false, false, false⟩ :=
  thumb32Branch_reproduces (x := ⟨always, .bl 4#32⟩) _ 0x8002#32 (by decide) (by decide)
    (by decide) _

/-- The literal of a link block. -/
def linkLiteral (block : List Half) : Word := block.getD 5 0 ++ block.getD 4 0

/-- **What a relocated `BLX` promises**: its literal is the word-aligned
target, computed from the aligned program counter, and the block has the
effect of the instruction, which puts the end of the block with bit 0 set in
the link register and continues in ARM state. -/
structure BlxExact (m₀ : Mem) (block : List Half) (x : Insn) (pc off : Word) : Prop where
  /-- The literal is the architectural target. -/
  literal : linkLiteral block = align4 pc + off
  /-- It is word-aligned. -/
  aligned : (linkLiteral block).toNat % 4 = 0
  /-- The block stands for the instruction. -/
  reproduces : ∀ f, ThumbReproduces m₀ block x pc f

/-- A call to ARM state through a literal. -/
theorem linkBlx_reproduces {off : Word} (hpc : pc.toNat % 4 = 0) (hoff : off.toNat % 4 = 0) :
    ThumbReproduces m₀ [0xF20F#16, 0x0E09#16, 0xF8DF#16, 0xF000#16,
        lowHalf (pc + off), highHalf (pc + off)] ⟨always, .blx off⟩ pc f := by
  have hv : (pc + off).toNat % 4 = 0 := by
    rw [BitVec.toNat_add]
    omega
  refine (hasEffect_link _).reproduces (fun s t next hs _ _ ht => ?_)
  rw [Insn.exec_always] at ht
  rw [State.bxWritePC_arm _ hv, ← ht]
  show _ = some (State.branchWritePC { s.setReg LR (s.link next) with thumb := !s.thumb }
    (if s.thumb then align4 pc + off else pc + off))
  rw [if_pos hs, align4_of_aligned hpc,
    State.branchWritePC_arm (by show (!s.thumb) = false; rw [hs]; rfl) hv,
        State.link, if_pos hs, hs]
  rfl

/-- **A relocated `BLX` is right exactly at word-aligned addresses.** -/
theorem thumbBlx_iff (m₀ : Mem) (addr : Word) (haddr : addr.toNat % 2 = 0) {off : Word}
    (hx : decodeThumb32 (high ++ low) = some ⟨always, .blx off⟩) :
    BlxExact m₀ (relocateInstructionInThumb32 m₀ (addr + 4#32) high low) ⟨always, .blx off⟩
        (addr + 4#32) off
      ↔ addr.toNat % 4 = 0 := by
  obtain ⟨hm, he⟩ := thumbBlx_cases hx rfl
  obtain rfl : off = thumbBlxOffset (high ++ low) := by injection he with _ he; injection he
  have hoff := thumbBlxOffset_aligned (high ++ low)
  rw [relocateInstructionInThumb32_blx m₀ _ hm]
  set v := addr + 4#32 + thumbBlxOffset (high ++ low) with hv
  have hmod : v.toNat % 4 = addr.toNat % 4 := by
    rw [hv, BitVec.toNat_add, BitVec.toNat_add, BitVec.toNat_ofNat]
    omega
  have hlit : linkLiteral [0xF20F#16, 0x0E09#16, 0xF8DF#16, 0xF000#16, lowHalf v, highHalf v]
      = v := highHalf_append_lowHalf v
  constructor
  · intro h
    rw [← hmod, ← hlit]
    exact h.aligned
  · intro h
    have hpc : (addr + 4#32).toNat % 4 = 0 := aligned_offset (k := 4) h (by omega)
    exact ⟨by rw [hlit, align4_of_aligned hpc], by rw [hlit, hmod, h],
      fun f => linkBlx_reproduces hpc hoff⟩

/-- `BLX` forward by four from a word-aligned address. -/
theorem thumbBlx_iff_aligned :
    BlxExact (fun _ => 0)
        (relocateInstructionInThumb32 (fun _ => 0) 0x8004#32 0xF000#16 0xE802#16)
        ⟨always, .blx 4#32⟩ 0x8004#32 4#32
      ↔ (0x8000#32 : Word).toNat % 4 = 0 :=
  thumbBlx_iff _ 0x8000#32 (by decide) (by decide)

/-- The same instruction two bytes further: the literal is not word-aligned. -/
theorem thumbBlx_unaligned :
    decodeThumb32 (0xF000#16 ++ 0xE802#16) = some ⟨always, .blx 4#32⟩
      ∧ ¬ BlxExact (fun _ => 0)
        (relocateInstructionInThumb32 (fun _ => 0) 0x8006#32 0xF000#16 0xE802#16)
        ⟨always, .blx 4#32⟩ 0x8006#32 4#32 :=
  ⟨by decide, fun h => absurd h.aligned (by decide)⟩

end Branch

/-! ## The value blocks -/

section Value

variable {m₀ : Mem} {pc addr : Word} {f : Flags} {high low : Half}

/-- The constant of `ADR.W` as the source assembles it. -/
def adrConstant (i : BitVec 1) (imm3 : BitVec 3) (imm8 : BitVec 8) : Word :=
  (i.setWidth 32 <<< 31) ||| (imm3.setWidth 32 <<< 30) ||| (imm8.setWidth 32 <<< 27)

/-- It only has bits from 27 up, the constant itself only bits below 12: they
cancel if there are none. -/
theorem adrConstant_add_eq_zero_iff : ∀ (i : BitVec 1) (imm3 : BitVec 3) (imm8 : BitVec 8),
    adrConstant i imm3 imm8 + (i ++ (imm3 ++ imm8)).setWidth 32 = 0#32
      ↔ BitVec.setWidth 32 (i ++ (imm3 ++ imm8)) = 0#32 := by
  decide +kernel

/-- The fields of `ADR.W` as the source cuts them out. -/
theorem adrField (high low : Half) :
    (((high.setWidth 32 &&& 0x400#32) >>> 10) <<< 31)
        ||| (((low.setWidth 32 &&& 0x7000#32) >>> 12) <<< 30)
        ||| (((high ++ low : BitVec 32) &&& 0xFF#32) <<< 27)
      = adrConstant ((high ++ low : BitVec 32).extractLsb' 26 1)
        ((high ++ low : BitVec 32).extractLsb' 12 3)
            ((high ++ low : BitVec 32).extractLsb' 0 8) := by
  refine BitVec.eq_of_getLsbD_eq (fun i hi => ?_)
  simp only [adrConstant, BitVec.getLsbD_setWidth, BitVec.getLsbD_append, BitVec.getLsbD_shiftLeft,
    BitVec.getLsbD_ushiftRight, BitVec.getLsbD_and, BitVec.getLsbD_or, BitVec.getLsbD_extractLsb']
  interval_cases i <;> simp

theorem rd32Field (high low : Half) :
    (low.setWidth 32 &&& 0xF00#32) >>> 8 = (armReg (high ++ low) 8).setWidth 32 := by
  rw [armReg, extract_low high low (by omega)]
  exact maskField low (by omega) 4 8 (by omega)

theorem rt32Field (high low : Half) :
    low.setWidth 32 >>> 12 = (armReg (high ++ low) 12).setWidth 32 := by
  refine BitVec.eq_of_getLsbD_eq (fun i hi => ?_)
  simp only [armReg, BitVec.getLsbD_setWidth, BitVec.getLsbD_append, BitVec.getLsbD_ushiftRight,
    BitVec.getLsbD_extractLsb']
  interval_cases i <;> simp

theorem imm12Field32 (high low : Half) :
    low.setWidth 32 &&& 0xFFF#32 = ((high ++ low : BitVec 32).extractLsb' 0 12).setWidth 32 := by
  rw [extract_low high low (by omega)]
  exact maskLow low (by omega) 12 (by omega)

theorem uField (high low : Half) : (high.setWidth 32 &&& 0x80#32) >>> 7
    = (BitVec.ofBool ((high ++ low : BitVec 32).getLsbD 23)).setWidth 32 :=
  (bitField _ (k := 7) (by omega)).trans (by rw [high_bit high low (by omega)])

theorem relocateInstructionInThumb32_adr1 (mem : Mem)
    (h : (high ++ low : BitVec 32) &&& 0xFBFF8000#32 = 0xF2AF0000#32) :
    relocateInstructionInThumb32 mem pc high low
      = thumbValueBlock ((armReg (high ++ low) 8).extractLsb' 0 3)
        (align4 pc + adrConstant ((high ++ low : BitVec 32).extractLsb' 26 1)
          ((high ++ low : BitVec 32).extractLsb' 12 3)
          ((high ++ low : BitVec 32).extractLsb' 0 8)) := by
  have ht : getTypeInThumb32 (high ++ low) = .adr1Thumb32 := by
    unfold getTypeInThumb32
    iterate 4 rw [if_neg (mask_conflict h (by decide))]
    rw [if_pos h]
  unfold relocateInstructionInThumb32
  simp only [instructionWord, ht, adrField, rd32Field high low, ldrOpcode, literal_eq, alignPc_eq]
  rfl

theorem relocateInstructionInThumb32_adr2 (mem : Mem)
    (h : (high ++ low : BitVec 32) &&& 0xFBFF8000#32 = 0xF20F0000#32) :
    relocateInstructionInThumb32 mem pc high low
      = thumbValueBlock ((armReg (high ++ low) 8).extractLsb' 0 3)
        (align4 pc - adrConstant ((high ++ low : BitVec 32).extractLsb' 26 1)
          ((high ++ low : BitVec 32).extractLsb' 12 3)
          ((high ++ low : BitVec 32).extractLsb' 0 8)) := by
  have ht : getTypeInThumb32 (high ++ low) = .adr2Thumb32 := by
    unfold getTypeInThumb32
    iterate 5 rw [if_neg (mask_conflict h (by decide))]
    rw [if_pos h]
  unfold relocateInstructionInThumb32
  simp only [instructionWord, ht, adrField, rd32Field high low, ldrOpcode, literal_eq, alignPc_eq]
  rfl

theorem relocateInstructionInThumb32_ldr (mem : Mem)
    (h : (high ++ low : BitVec 32) &&& 0xFF7F0000#32 = 0xF85F0000#32) :
    relocateInstructionInThumb32 mem pc high low
      = thumbValueBlock ((armReg (high ++ low) 12).extractLsb' 0 3)
        (mem.read32 (offset ((high ++ low : BitVec 32).getLsbD 23) (align4 pc)
          (((high ++ low : BitVec 32).extractLsb' 0 12).setWidth 32))) := by
  have ht : getTypeInThumb32 (high ++ low) = .ldrThumb32 := by
    unfold getTypeInThumb32
    iterate 6 rw [if_neg (mask_conflict h (by decide))]
    rw [if_pos h]
  have hu := bit_ne_zero_iff ((high ++ low : BitVec 32).getLsbD 23)
  unfold relocateInstructionInThumb32
  simp only [instructionWord, ht, rt32Field high low, imm12Field32 high low, uField high low, hu,
    ldrOpcode, literal_eq, alignPc_eq]
  rfl

/-- A register is the one its low three bits name if it is a low one. -/
theorem reg_eq_low_iff : ∀ r : Reg, r = (r.extractLsb' 0 3).setWidth 4 ↔ r.toNat < 8 := by
  decide

/-- **When a 32-bit value instruction and its block agree**: the register is a
low one, and the constant of an `ADR.W` is zero. A load of the program counter
from an unaligned address, or of a value it cannot take, has no effect to
agree with. -/
def thumb32ValueExact (m₀ : Mem) (pc : Word) : Op → Prop
  | .adr _ rd imm => rd.toNat < 8 ∧ imm = 0#32
  | .ldrLit add rt imm =>
    let a := offset add (align4 pc) imm
    rt.toNat < 8 ∨ (rt = PC ∧ (align4 a ≠ a ∨ (m₀.read32 a).toNat % 4 = 2))
  | _ => True

theorem thumbAdr_exec {add : Bool} {rd : Reg} {imm : Word} (hrd : rd ≠ PC) (s : State)
    (next : Word) :
    (Insn.mk always (.adr add rd imm)).exec pc next s
      = some ((s.setReg rd (offset add (align4 pc) imm)).goto next) := by
  rw [Insn.exec_always]
  show s.writeResult next rd _ = _
  rw [State.writeResult, if_neg hrd]

/-- A load of the program counter and a block that loads a low register agree
on nothing. -/
theorem thumbLdrPc_iff {add : Bool} {imm v : Word} {r : BitVec 3} :
    ThumbReproduces m₀ (thumbValueBlock r v) ⟨always, .ldrLit add PC imm⟩ pc f
      ↔ align4 (offset add (align4 pc) imm) ≠ offset add (align4 pc) imm
        ∨ (m₀.read32 (offset add (align4 pc) imm)).toNat % 4 = 2 := by
  set a := offset add (align4 pc) imm with ha
  have hex : ∀ s next, LiteralKept m₀ (.ldrLit add PC imm) pc s.mem →
      (Insn.mk always (.ldrLit add PC imm)).exec pc next s
        = if align4 a = a then s.bxWritePC (m₀.read32 a) else none := by
    intro s next hk
    rw [Insn.exec_always, ← hk a rfl]
    show s.writeLoaded next PC a (s.mem.read32 a) = _
    rw [State.writeLoaded, if_pos rfl]
  have hb := hasEffect_valueBlock r v
  constructor
  · intro h
    by_contra hnot
    rw [not_or, not_not] at hnot
    obtain ⟨s, next, hs, -, hg, hk, -, -, hw⟩ := h.exists_effect hb (by simp [thumbValueBlock])
      (fun _ => v + 1#32) (jumpTargets (m₀.read32 a)) (by simp) (by simp [jumpTargets])
    have hex' := hex s next hk
    rw [if_pos hnot.1] at hex'
    cases hres : s.bxWritePC (m₀.read32 a) with
    | none => exact hnot.2 (State.bxWritePC_eq_none hres)
    | some t =>
      have he := hw t (hex'.trans hres) (Or.inr (pc_mem_jumpTargets hres))
      rw [State.writeValue, if_neg (lowReg_ne_pc r)] at he
      have hgpr := congrArg (fun u => State.gpr u (r.setWidth 4)) (Option.some.inj he)
      simp only [State.bxWritePC_eq_some hres, State.goto_gpr, State.setReg_gpr,
        Function.update_self, hg] at hgpr
      exact add_ofNat_ne v (k := 1) (by omega) (by omega) hgpr.symm
  · intro h
    refine hb.reproduces (fun s t next hs _ hk ht => ?_)
    rw [hex s next hk] at ht
    by_cases hal : align4 a = a
    · rw [if_pos hal, State.bxWritePC_unaligned s (h.resolve_left (not_not_intro hal))] at ht
      cases ht
    · rw [if_neg hal] at ht
      cases ht

/-- **A relocated 32-bit value instruction has the effect of the instruction
exactly where the block is exact for it.** -/
theorem thumb32Value_iff (m₀ : Mem) (addr : Word) (hx : decodeThumb32 (high ++ low) = some x)
    (hv : isThumb32Value x.op = true) (f : Flags) :
    ThumbReproduces m₀ (relocateInstructionInThumb32 m₀ (addr + 4#32) high low) x (addr + 4#32) f
      ↔ thumb32ValueExact m₀ (addr + 4#32) x.op := by
  rcases thumb32Value_cases hx hv with ⟨hm, hrd, rfl⟩ | ⟨hm, hrd, rfl⟩ | ⟨hm, rfl⟩
  · rw [relocateInstructionInThumb32_adr1 m₀ hm,
      valueBlock_iff _ _ hrd (fun s next _ _ => thumbAdr_exec hrd s next), reg_eq_low_iff]
    refine and_congr Iff.rfl ?_
    rw [offset, if_neg Bool.false_ne_true, sub_eq_add_neg, BitVec.add_right_inj,
      eq_neg_iff_add_eq_zero]
    exact adrConstant_add_eq_zero_iff _ _ _
  · rw [relocateInstructionInThumb32_adr2 m₀ hm,
      valueBlock_iff _ _ hrd (fun s next _ _ => thumbAdr_exec hrd s next), reg_eq_low_iff]
    refine and_congr Iff.rfl ?_
    rw [offset, if_pos rfl, sub_eq_add_neg, BitVec.add_right_inj, neg_eq_iff_add_eq_zero]
    exact adrConstant_add_eq_zero_iff _ _ _
  · rw [relocateInstructionInThumb32_ldr m₀ hm]
    by_cases hrt : armReg (high ++ low) 12 = PC
    · have h8 : ¬ (PC : Reg).toNat < 8 := by decide
      rw [hrt, thumbLdrPc_iff]
      exact ⟨fun h => Or.inr ⟨rfl, h⟩, fun h => (h.resolve_left h8).2⟩
    · rw [valueBlock_iff _ _ hrt (fun s next _ hk => ?_), reg_eq_low_iff, and_iff_left rfl]
      · exact (or_iff_left (fun h => hrt h.1)).symm
      · rw [Insn.exec_always, ← hk _ rfl]
        show s.writeLoaded next _ _ _ = _
        rw [State.writeLoaded, if_neg hrt]

/-- `LDR.W R0, [PC, #-4]`. -/
theorem thumb32Value_iff_ldr :
    ThumbReproduces (fun _ => 0)
        (relocateInstructionInThumb32 (fun _ => 0) 0x8006#32 0xF85F#16 0x0004#16)
        ⟨always, .ldrLit false 0#4 4#32⟩ 0x8006#32 ⟨false, false, false, false⟩
      ↔ thumb32ValueExact (fun _ => 0) 0x8006#32 (.ldrLit false 0#4 4#32) :=
  thumb32Value_iff (x := ⟨always, .ldrLit false 0#4 4#32⟩) _ 0x8002#32 (by decide)
    (by decide) _

/-- `LDR.W R8, [PC, #4]`: the block loads R0. -/
theorem thumb32Ldr_high :
    decodeThumb32 (0xF8DF#16 ++ 0x8004#16) = some ⟨always, .ldrLit true 8#4 4#32⟩
      ∧ ¬ ThumbReproduces (fun _ => 0)
        (relocateInstructionInThumb32 (fun _ => 0) 0x8004#32 0xF8DF#16 0x8004#16)
        ⟨always, .ldrLit true 8#4 4#32⟩ 0x8004#32 ⟨false, false, false, false⟩ := by
  refine ⟨by decide, fun h => ?_⟩
  rw [relocateInstructionInThumb32_ldr _ (by decide)] at h
  refine absurd ((valueBlock_iff 8#4 0#32 (by decide) (fun s next _ hk => ?_)).mp
    h).1 (by decide)
  rw [Insn.exec_always]
  show s.writeLoaded next 8#4 _ (s.mem.read32 (offset true (align4 0x8004#32) 4#32)) = _
  rw [hk _ rfl]
  rfl

end Value

end Relocate
