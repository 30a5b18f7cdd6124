import AndroidReverse.Relocate

/-!
# Relocated 16-bit Thumb instructions

What `relocateInstructionInThumb16` emits, compared with the instruction it is
emitted for, at every halfword-aligned address and at every place the block
may have. Most of the blocks are instances of the ones in
`AndroidReverse.ArmBlocks`, and what has to be shown is which literal they
carry.

A compare-and-branch carries its target with bit 0 set and is right. The plain
branches carry theirs without, so that a taken one leaves Thumb state
(`thumb16Branch_iff`). Among the instructions that read the program counter
the literal load is right; `MOV` drops the top bit of its register, and `ADR`
scales the program counter along with the immediate (`thumb16Value_iff`).
-/

namespace Relocate

open Arm

/-! ## The instructions -/

/-- The 16-bit branches the relocator rewrites. -/
def isThumb16Branch : Op → Bool
  | .b _ => true
  | .cb _ _ _ => true
  | .bx rm => rm == PC
  | _ => false

/-- The 16-bit instructions that only read the program counter: `MOV Rd, PC`,
`ADR` and `LDR <label>`. -/
def isThumb16Value : Op → Bool
  | .movReg _ rd rm _ _ => rm == PC && rd != PC
  | .adr _ _ _ => true
  | .ldrLit _ _ _ => true
  | _ => false

/-- The offset of a 16-bit `B<c>`. -/
def thumb16CondOffset (w : Half) : Word := (w.extractLsb' 0 8 ++ 0b0#1).signExtend 32

/-- The offset of a 16-bit `B`. -/
def thumb16Offset (w : Half) : Word := (w.extractLsb' 0 11 ++ 0b0#1).signExtend 32

/-- The offset of `CBZ` and `CBNZ`. -/
def thumbCbOffset (w : Half) : Word :=
  (w.extractLsb' 9 1 ++ (w.extractLsb' 3 5 ++ 0b0#1)).setWidth 32

/-- **The branches, by their encodings.** -/
theorem thumb16Branch_cases {w : Half} {x : Insn} (h : decodeThumb16 w = some x)
    (hb : isThumb16Branch x.op = true) :
    (w &&& 0xF000#16 = 0xD000#16 ∧ (w.extractLsb' 8 4).extractLsb' 1 3 ≠ 0b111#3
        ∧ x = ⟨w.extractLsb' 8 4, .b (thumb16CondOffset w)⟩)
      ∨ (w &&& 0xF800#16 = 0xE000#16 ∧ x = ⟨always, .b (thumb16Offset w)⟩)
      ∨ (w &&& 0xFFFF#16 = 0x4778#16 ∧ x = ⟨always, .bx PC⟩)
      ∨ (w &&& 0xF500#16 = 0xB100#16
          ∧ x = ⟨always, .cb (w.getLsbD 11) (lowReg w 0) (thumbCbOffset w)⟩) := by
  obtain ⟨r, hr, hm, he, rfl⟩ := exists_row h
  simp only [thumb16Rows, thumbRow, thumbCondRow, List.mem_cons, List.not_mem_nil, or_false] at hr
  rcases hr with rfl | rfl | rfl | rfl | rfl | rfl | rfl | rfl | rfl | rfl | rfl | rfl | rfl | rfl
    | rfl | rfl | rfl | rfl | rfl | rfl | rfl
  case inl => exact Or.inl ⟨hm, by simpa using he, rfl⟩
  case inr.inl => exact Or.inr (Or.inl ⟨hm, rfl⟩)
  case inr.inr.inl =>
    have hpc : w.extractLsb' 3 4 = PC := by simpa [isThumb16Branch] using hb
    exact Or.inr (Or.inr (Or.inl ⟨mask_union hm (mask_of_extract 3 4 hpc),
      congrArg (fun r => Insn.mk always (.bx r)) hpc⟩))
  case inr.inr.inr.inr.inr.inr.inr.inl => exact Or.inr (Or.inr (Or.inr ⟨hm, rfl⟩))
  all_goals cases hb

/-- **The value instructions, by their encodings.** -/
theorem thumb16Value_cases {w : Half} {x : Insn} (h : decodeThumb16 w = some x)
    (hv : isThumb16Value x.op = true) :
    (w &&& 0xFF78#16 = 0x4678#16 ∧ highReg w ≠ PC
        ∧ x = ⟨always, .movReg false (highReg w) PC 0 0⟩)
      ∨ (w &&& 0xF800#16 = 0xA000#16 ∧ x = ⟨always, .adr true (lowReg w 8) (thumbImm8 w <<< 2)⟩)
      ∨ (w &&& 0xF800#16 = 0x4800#16
          ∧ x = ⟨always, .ldrLit true (lowReg w 8) (thumbImm8 w <<< 2)⟩) := by
  obtain ⟨r, hr, hm, he, rfl⟩ := exists_row h
  simp only [thumb16Rows, thumbRow, thumbCondRow, List.mem_cons, List.not_mem_nil, or_false] at hr
  rcases hr with rfl | rfl | rfl | rfl | rfl | rfl | rfl | rfl | rfl | rfl | rfl | rfl | rfl | rfl
    | rfl | rfl | rfl | rfl | rfl | rfl | rfl
  case inr.inr.inr.inr.inl =>
    obtain ⟨hpc, hrd⟩ : w.extractLsb' 3 4 = PC ∧ highReg w ≠ PC := by
      simpa [isThumb16Value] using hv
    exact Or.inl ⟨mask_union hm (mask_of_extract 3 4 hpc), hrd,
      congrArg (fun r => Insn.mk always (.movReg false (highReg w) r 0 0)) hpc⟩
  case inr.inr.inr.inr.inr.inl => exact Or.inr (Or.inl ⟨hm, rfl⟩)
  case inr.inr.inr.inr.inr.inr.inl => exact Or.inr (Or.inr ⟨hm, rfl⟩)
  all_goals cases hv

/-! ## The blocks -/

section Emit

variable (mem : Mem) (pc : Word) {w : Half}

/-- The fields of the branches as the source assembles them. -/
theorem thumb16CondField (w : Half) :
    (w.setWidth 32 &&& 0xFF#32) <<< 1 = (w.extractLsb' 0 8 ++ 0b0#1).setWidth 32 := by
  refine BitVec.eq_of_getLsbD_eq (fun i hi => ?_)
  simp only [BitVec.getLsbD_setWidth, BitVec.getLsbD_append, BitVec.getLsbD_shiftLeft,
    BitVec.getLsbD_and, BitVec.getLsbD_extractLsb']
  interval_cases i <;> simp

theorem thumb16Field (w : Half) :
    (w.setWidth 32 &&& 0x7FF#32) <<< 1 = (w.extractLsb' 0 11 ++ 0b0#1).setWidth 32 := by
  refine BitVec.eq_of_getLsbD_eq (fun i hi => ?_)
  simp only [BitVec.getLsbD_setWidth, BitVec.getLsbD_append, BitVec.getLsbD_shiftLeft,
    BitVec.getLsbD_and, BitVec.getLsbD_extractLsb']
  interval_cases i <;> simp

theorem thumbCbField (w : Half) :
    ((w.setWidth 32 &&& 0x200#32) >>> 3) ||| ((w.setWidth 32 &&& 0xF8#32) >>> 2)
      = thumbCbOffset w := by
  refine BitVec.eq_of_getLsbD_eq (fun i hi => ?_)
  simp only [thumbCbOffset, BitVec.getLsbD_setWidth, BitVec.getLsbD_append,
    BitVec.getLsbD_ushiftRight, BitVec.getLsbD_and, BitVec.getLsbD_or, BitVec.getLsbD_extractLsb']
  interval_cases i <;> simp

/-- Masking a halfword as an `int` and storing it masks the halfword. -/
theorem store16_and (w : Half) (m : Word) :
    store16 (w.setWidth 32 &&& m) = w &&& m.setWidth 16 := by
  refine BitVec.eq_of_getLsbD_eq (fun i hi => ?_)
  simp only [store16, BitVec.getLsbD_setWidth, BitVec.getLsbD_and]
  simp [hi, show i < 32 from by omega]

/-- The guard of a `B<c>` block. -/
def condGuard (c : BitVec 4) : Half := 0xD000#16 ||| (c.setWidth 16 <<< 8)

/-- The guard of a compare-and-branch block. -/
def cbGuard (nonzero : Bool) (r : BitVec 3) : Half :=
  0xB100#16 ||| ((BitVec.ofBool nonzero).setWidth 16 <<< 11) ||| r.setWidth 16

theorem relocateInstructionInThumb16_b1 (h : w &&& 0xF000#16 = 0xD000#16) :
    relocateInstructionInThumb16 mem pc w
      = [condGuard (w.extractLsb' 8 4), 0xE003#16, 0xF8DF#16, 0xF000#16,
          lowHalf (pc + thumb16CondOffset w), highHalf (pc + thumb16CondOffset w)] := by
  have ht : getTypeInThumb16 w = .b1Thumb16 := by rw [getTypeInThumb16, if_pos h]
  have hg : w &&& 0xFF00#16 = condGuard (w.extractLsb' 8 4) := by
    refine (mask_union h (mask_of_extract 8 4 rfl)).trans ?_
    rfl
  have hx := extendTop_shift (n := 8) (w.extractLsb' 0 8 ++ 0b0#1) (by omega) (k := 8)
    (Or.inl rfl)
  unfold relocateInstructionInThumb16
  simp only [ht, thumb16CondField, hx, store16_and, ldrPc_eq]
  rw [show (0xFF00#32).setWidth 16 = 0xFF00#16 from rfl, hg]
  rfl

theorem relocateInstructionInThumb16_b2 (h : w &&& 0xF800#16 = 0xE000#16) :
    relocateInstructionInThumb16 mem pc w
      = [0xF8DF#16, 0xF000#16, lowHalf (pc + thumb16Offset w),
          highHalf (pc + thumb16Offset w)] := by
  have ht : getTypeInThumb16 w = .b2Thumb16 := by
    rw [getTypeInThumb16, if_neg (mask_conflict h (by decide)), if_pos h]
  have hx := extendTop_shift (n := 11) (w.extractLsb' 0 11 ++ 0b0#1) (by omega) (k := 11)
    (Or.inl rfl)
  unfold relocateInstructionInThumb16
  simp only [ht, thumb16Field, hx, ldrPc_eq]
  rfl

theorem relocateInstructionInThumb16_bx (h : w &&& 0xFFFF#16 = 0x4778#16) :
    relocateInstructionInThumb16 mem pc w = [0xF8DF#16, 0xF000#16, lowHalf pc, highHalf pc] := by
  have ht : getTypeInThumb16 w = .bxThumb16 := by
    unfold getTypeInThumb16
    iterate 2 rw [if_neg (mask_conflict h (by decide))]
    rw [if_pos ((mask_trans _ h (by decide)).trans (by decide))]
  unfold relocateInstructionInThumb16
  simp only [ht, ldrPc_eq]

/-- The halfwords of a value block. -/
def thumbValueBlock (r : BitVec 3) (v : Word) : List Half :=
  [0x4800#16 ||| (r.setWidth 16 <<< 8), 0xE001#16, lowHalf v, highHalf v]

/-- The load of a value block as the source builds it. The top bit of a
register number falls on a bit of the opcode that is set anyway. -/
theorem ldrOpcode : ∀ r : BitVec 4,
    store16 (0x4800#32 ||| (r.setWidth 32 <<< 8))
      = 0x4800#16 ||| ((r.extractLsb' 0 3).setWidth 16 <<< 8) := by
  decide

/-- A low register as a register of the architecture and as a number of the
source. -/
theorem setWidth_four : ∀ r : BitVec 3, (r.setWidth 4).setWidth 32 = r.setWidth 32 := by decide

theorem relocateInstructionInThumb16_mov (h : w &&& 0xFF78#16 = 0x4678#16) :
    relocateInstructionInThumb16 mem pc w = thumbValueBlock (w.extractLsb' 0 3) pc := by
  have ht : getTypeInThumb16 w = .movThumb16 := by
    unfold getTypeInThumb16
    iterate 4 rw [if_neg (mask_conflict h (by decide))]
    rw [if_pos h]
  have hr : w.setWidth 32 &&& 0x7#32 = ((w.extractLsb' 0 3).setWidth 4).setWidth 32 := by
    rw [setWidth_four]
    exact maskLow w (by omega) 3 (by omega)
  have h3 : ∀ r : BitVec 3, (r.setWidth 4).extractLsb' 0 3 = r := by decide
  unfold relocateInstructionInThumb16
  simp only [ht, hr, ldrOpcode, h3, literal_eq]
  rfl

/-- The register field of `ADR` and `LDR` as the source cuts it out. -/
theorem rd8Field (w : Half) :
    (w.setWidth 32 &&& 0x700#32) >>> 8 = ((w.extractLsb' 8 3).setWidth 4).setWidth 32 := by
  rw [setWidth_four]
  exact maskField w (by omega) 3 8 (by omega)

/-- Their immediate. -/
theorem imm8Field (w : Half) : w.setWidth 32 &&& 0xFF#32 = thumbImm8 w :=
  maskLow w (by omega) 8 (by omega)

theorem relocateInstructionInThumb16_adr (h : w &&& 0xF800#16 = 0xA000#16) :
    relocateInstructionInThumb16 mem pc w
      = thumbValueBlock (w.extractLsb' 8 3) ((align4 pc + thumbImm8 w) <<< 2) := by
  have ht : getTypeInThumb16 w = .adrThumb16 := by
    unfold getTypeInThumb16
    iterate 5 rw [if_neg (mask_conflict h (by decide))]
    rw [if_pos h]
  have h3 : ∀ r : BitVec 3, (r.setWidth 4).extractLsb' 0 3 = r := by decide
  unfold relocateInstructionInThumb16
  simp only [ht, rd8Field, imm8Field, ldrOpcode, h3, literal_eq, alignPc_eq]
  rfl

theorem relocateInstructionInThumb16_ldr (h : w &&& 0xF800#16 = 0x4800#16) :
    relocateInstructionInThumb16 mem pc w
      = thumbValueBlock (w.extractLsb' 8 3) (mem.read32 (align4 pc + thumbImm8 w <<< 2)) := by
  have ht : getTypeInThumb16 w = .ldrThumb16 := by
    unfold getTypeInThumb16
    iterate 6 rw [if_neg (mask_conflict h (by decide))]
    rw [if_pos h]
  have h3 : ∀ r : BitVec 3, (r.setWidth 4).extractLsb' 0 3 = r := by decide
  unfold relocateInstructionInThumb16
  simp only [ht, rd8Field, imm8Field, ldrOpcode, h3, literal_eq, alignPc_eq]
  rfl

theorem relocateInstructionInThumb16_cb (h : w &&& 0xF500#16 = 0xB100#16) :
    relocateInstructionInThumb16 mem pc w
      = [cbGuard (w.getLsbD 11) (w.extractLsb' 0 3), 0xE003#16, 0xF8DF#16, 0xF000#16,
          lowHalf (pc + thumbCbOffset w + 1#32), highHalf (pc + thumbCbOffset w + 1#32)] := by
  have ht : getTypeInThumb16 w = .cbThumb16 := by
    unfold getTypeInThumb16
    iterate 7 rw [if_neg (mask_conflict h (by decide))]
    rw [if_pos h]
  have hnz : w.extractLsb' 11 1 = BitVec.ofBool (w.getLsbD 11) := by
    refine BitVec.eq_of_getLsbD_eq (fun i hi => ?_)
    obtain rfl : i = 0 := by omega
    simp
  have hg : w &&& 0xFD07#16 = cbGuard (w.getLsbD 11) (w.extractLsb' 0 3) := by
    refine (mask_union (mask_union h (mask_of_extract 11 1 hnz)) (mask_of_extract 0 3 rfl)).trans ?_
    rw [BitVec.shiftLeft_zero]
    rfl
  unfold relocateInstructionInThumb16
  simp only [ht, thumbCbField, store16_and, ldrPc_eq]
  rw [show (0xFD07#32).setWidth 16 = 0xFD07#16 from rfl, hg]
  rfl

end Emit

/-! ## The branch blocks -/

section Branch

/-- A branch by zero goes to what the program counter reads as. -/
theorem branchWritePC_zero {s : State} {pc : Word} (hs : s.thumb = true)
    (hpc : pc.toNat % 2 = 0) : s.branchWritePC (pc + 0#32) = s.goto pc := by
  rw [BitVec.add_zero, State.branchWritePC_thumb hs hpc]

theorem isGuard_cond {c : BitVec 4} (hc : c.extractLsb' 1 3 ≠ 0b111#3) :
    IsGuard (condGuard c) ⟨c, .b 0#32⟩ (fun s => conditionPassed c s.flags) where
  short := by
    have : ∀ c : BitVec 4, isThumb32 (condGuard c) = false := by decide
    exact this c
  decodes := by
    have : ∀ c : BitVec 4, c.extractLsb' 1 3 ≠ 0b111#3 →
        decodeThumb16 (condGuard c) = some ⟨c, .b 0#32⟩ := by decide
    exact this c hc
  exec s pc next hs hpc := by
    by_cases h : conditionPassed c s.flags = true
    · rw [Insn.exec_of_passed h, if_pos h]
      exact congrArg some (branchWritePC_zero hs hpc)
    · rw [Insn.exec_of_failed (Bool.eq_false_iff.mpr h), if_neg h]

theorem isGuard_cb (nonzero : Bool) (r : BitVec 3) :
    IsGuard (cbGuard nonzero r) ⟨always, .cb nonzero (r.setWidth 4) 0#32⟩
      (fun s => nonzero ^^ (s.gpr (r.setWidth 4) == 0#32)) where
  short := by
    have : ∀ b (r : BitVec 3), isThumb32 (cbGuard b r) = false := by decide
    exact this nonzero r
  decodes := by
    have : ∀ b (r : BitVec 3), decodeThumb16 (cbGuard b r)
        = some ⟨always, .cb b (r.setWidth 4) 0#32⟩ := by decide
    exact this nonzero r
  exec s pc next hs hpc := by
    rw [Insn.exec_always]
    show (if nonzero ^^ (s.gpr (r.setWidth 4) == 0#32) then
      some (s.branchWritePC (pc + 0#32)) else some (s.goto next)) = _
    rw [branchWritePC_zero hs hpc]
    exact (apply_ite (fun a => some (s.goto a)) _ pc next).symm

variable {m₀ : Mem} {pc : Word} {f : Flags}

theorem thumb16CondOffset_even (w : Half) : (thumb16CondOffset w).toNat % 2 = 0 :=
  toNat_mod_two (getLsbD_signExtend_append _ (by decide))

theorem thumb16Offset_even (w : Half) : (thumb16Offset w).toNat % 2 = 0 :=
  toNat_mod_two (getLsbD_signExtend_append _ (by decide))

theorem thumbCbOffset_even (w : Half) : (thumbCbOffset w).toNat % 2 = 0 := by
  refine toNat_mod_two ?_
  rw [thumbCbOffset, BitVec.getLsbD_setWidth, BitVec.getLsbD_append, BitVec.getLsbD_append]
  rfl

theorem add_even {a b : Word} (ha : a.toNat % 2 = 0) (hb : b.toNat % 2 = 0) :
    (a + b).toNat % 2 = 0 := by
  rw [BitVec.toNat_add]
  omega

/-- A jump to an odd address that stays in Thumb state is the branch. -/
theorem bxWritePC_odd {s : State} {a : Word} (hs : s.thumb = true) (ha : a.toNat % 2 = 0) :
    s.bxWritePC (a + 1#32) = some (s.goto a) := by
  rw [State.bxWritePC_thumb s ha, ← hs]
  rfl

/-- **A conditional branch through a guarded literal** stands for the branch
when it is not taken, or when the literal is odd. -/
theorem guardedBranch_iff {c : BitVec 4} {off v : Word} {g : Half} {y : Insn}
    (hv : (pc + off).toNat % 2 = 0)
    (hg : IsGuard g y (fun s => conditionPassed c s.flags)) :
    ThumbReproduces m₀ [g, 0xE003#16, 0xF8DF#16, 0xF000#16, lowHalf v, highHalf v]
        ⟨c, .b off⟩ pc f
      ↔ conditionPassed c f = true → v = pc + off + 1#32 := by
  have hb := hasEffect_guard v hg
  constructor
  · intro h hf
    obtain ⟨s, next, hs, hsf, -, -, -, -, hw⟩ := h.exists_effect hb (by simp)
      (fun _ => 0) [pc + off] (by rw [jumpTargets_length]; omega) (by simp)
    have hex : (Insn.mk c (.b off)).exec pc next s = some (s.goto (pc + off)) := by
      rw [Insn.exec_of_passed (by rw [hsf]; exact hf)]
      exact congrArg some (State.branchWritePC_thumb hs hv)
    have he := hw _ hex (Or.inr (List.mem_singleton.mpr rfl))
    simp only [hsf, hf, if_true] at he
    exact State.bxWritePC_injective he (bxWritePC_odd hs hv)
  · intro h
    refine hb.reproduces (fun s t next hs hsf _ ht => ?_)
    simp only [hsf]
    cases hf : conditionPassed c f with
    | true =>
      rw [Insn.exec_of_passed (by rw [hsf]; exact hf)] at ht
      rw [if_pos rfl, h hf, bxWritePC_odd hs hv, ← ht]
      exact congrArg some (State.branchWritePC_thumb hs hv).symm
    | false =>
      rw [Insn.exec_of_failed (by rw [hsf]; exact hf)] at ht
      exact ht

/-- **A branch through a literal** stands for the branch when the literal is
odd. -/
theorem jumpBranch_iff {off v : Word} (hv : (pc + off).toNat % 2 = 0) :
    ThumbReproduces m₀ [0xF8DF#16, 0xF000#16, lowHalf v, highHalf v] ⟨always, .b off⟩ pc f
      ↔ v = pc + off + 1#32 := by
  have hb := hasEffect_jump v
  have hex : ∀ s next, s.thumb = true →
      (Insn.mk always (.b off)).exec pc next s = some (s.goto (pc + off)) := by
    intro s next hs
    rw [Insn.exec_always]
    exact congrArg some (State.branchWritePC_thumb hs hv)
  constructor
  · intro h
    obtain ⟨s, next, hs, hsf, -, -, -, -, hw⟩ := h.exists_effect hb (by simp)
      (fun _ => 0) [pc + off] (by rw [jumpTargets_length]; omega) (by simp)
    exact State.bxWritePC_injective (hw _ (hex s next hs) (Or.inr (List.mem_singleton.mpr rfl)))
      (bxWritePC_odd hs hv)
  · rintro rfl
    refine hb.reproduces (fun s t next hs hsf _ ht => ?_)
    rw [bxWritePC_odd hs hv, ← hex s next hs]
    exact ht

/-- A compare-and-branch through a guarded literal. -/
theorem guardedCb_reproduces {nonzero : Bool} {r : BitVec 3} {off : Word}
    (hv : (pc + off).toNat % 2 = 0) :
    ThumbReproduces m₀ [cbGuard nonzero r, 0xE003#16, 0xF8DF#16, 0xF000#16,
        lowHalf (pc + off + 1#32), highHalf (pc + off + 1#32)]
      ⟨always, .cb nonzero (r.setWidth 4) off⟩ pc f := by
  refine (hasEffect_guard _ (isGuard_cb nonzero r)).reproduces (fun s t next hs _ _ ht => ?_)
  rw [Insn.exec_always] at ht
  rw [bxWritePC_odd hs hv, ← State.branchWritePC_thumb hs hv]
  exact ht

/-- Whether a branch is a plain `B`, not a compare-and-branch or a `BX`. -/
def isB : Op → Bool
  | .b _ => true
  | _ => false

variable {addr : Word} {w : Half} {x : Insn}

theorem pc_even (h : addr.toNat % 2 = 0) : (addr + 4#32).toNat % 2 = 0 := add_even h rfl

/-- **A relocated 16-bit branch has the effect of the branch exactly when it
is not a `B` that is taken.** -/
theorem thumb16Branch_iff (m₀ : Mem) (addr : Word) (haddr : addr.toNat % 2 = 0)
    (hx : decodeThumb16 w = some x) (hb : isThumb16Branch x.op = true) (f : Flags) :
    ThumbReproduces m₀ (relocateInstructionInThumb16 m₀ (addr + 4#32) w) x (addr + 4#32) f
      ↔ ¬ (isB x.op = true ∧ conditionPassed x.cond f = true) := by
  have hpc := pc_even haddr
  rcases thumb16Branch_cases hx hb with ⟨hm, hc, rfl⟩ | ⟨hm, rfl⟩ | ⟨hm, rfl⟩ | ⟨hm, rfl⟩
  · rw [relocateInstructionInThumb16_b1 m₀ _ hm,
      guardedBranch_iff (add_even hpc (thumb16CondOffset_even w)) (isGuard_cond hc)]
    exact ⟨fun h ⟨_, hf⟩ => absurd (h hf).symm (add_ofNat_ne _ (k := 1) (by omega) (by omega)),
      fun h hf => absurd ⟨rfl, hf⟩ h⟩
  · rw [relocateInstructionInThumb16_b2 m₀ _ hm,
      jumpBranch_iff (add_even hpc (thumb16Offset_even w))]
    exact ⟨fun h => absurd h.symm (add_ofNat_ne _ (k := 1) (by omega) (by omega)),
      fun h => absurd ⟨rfl, rfl⟩ h⟩
  · rw [relocateInstructionInThumb16_bx m₀ _ hm]
    exact iff_of_true ((hasEffect_jump _).reproduces (fun s t next _ _ _ ht => ht))
      (fun h => Bool.noConfusion h.1)
  · rw [relocateInstructionInThumb16_cb m₀ _ hm]
    exact iff_of_true (guardedCb_reproduces (add_even hpc (thumbCbOffset_even w)))
      (fun h => Bool.noConfusion h.1)

/-- `CBZ R0` over the next halfword, at an address that is not
word-aligned. -/
theorem thumb16Branch_iff_cbz :
    ThumbReproduces (fun _ => 0) (relocateInstructionInThumb16 (fun _ => 0) 0x8006#32 0xB108#16)
        ⟨always, .cb false 0#4 2#32⟩ 0x8006#32 ⟨false, false, false, false⟩
      ↔ ¬ (isB (.cb false 0#4 2#32) = true
        ∧ conditionPassed always ⟨false, false, false, false⟩ = true) :=
  thumb16Branch_iff (x := ⟨always, .cb false 0#4 2#32⟩) _ 0x8002#32 (by decide)
    (by decide) (by decide) _

/-- `B` to itself: the block loads the target without bit 0. -/
theorem thumb16B_leaves_thumb :
    decodeThumb16 0xE7FE#16 = some ⟨always, .b (-4)⟩
      ∧ ¬ ThumbReproduces (fun _ => 0)
        (relocateInstructionInThumb16 (fun _ => 0) 0x8004#32 0xE7FE#16) ⟨always, .b (-4)⟩
        0x8004#32 ⟨false, false, false, false⟩ := by
  refine ⟨by decide, fun h => ?_⟩
  rw [relocateInstructionInThumb16_b2 _ _ (by decide),
    show thumb16Offset 0xE7FE#16 = -4 from by decide, jumpBranch_iff (by decide)] at h
  exact absurd h (by decide)

end Branch

/-! ## The value blocks -/

section Value

variable {m₀ : Mem} {pc addr v : Word} {f : Flags} {r : BitVec 3} {w : Half} {x : Insn}

theorem lowReg_ne_pc : ∀ r : BitVec 3, r.setWidth 4 ≠ PC := by decide

theorem hasEffect_valueBlock (r : BitVec 3) (v : Word) :
    HasEffect (thumbValueBlock r v) [] (fun s next => s.writeValue next (r.setWidth 4) v) :=
  hasEffect_value v (lowReg_ne_pc r)
    (by have : ∀ r : BitVec 3, isThumb32 (0x4800#16 ||| (r.setWidth 16 <<< 8)) = false := by decide
        exact this r)
    (by have : ∀ r : BitVec 3, decodeThumb16 (0x4800#16 ||| (r.setWidth 16 <<< 8))
          = some ⟨always, .ldrLit true (r.setWidth 4) 0#32⟩ := by decide
        exact this r)

/-- **A value block stands for an instruction that writes a register** exactly
when it writes the same value to the same register. -/
theorem valueBlock_iff (rd : Reg) (v' : Word) (hrd : rd ≠ PC)
    (hex : ∀ s next, s.thumb = true → LiteralKept m₀ x.op pc s.mem →
      x.exec pc next s = some ((s.setReg rd v').goto next)) :
    ThumbReproduces m₀ (thumbValueBlock r v) x pc f ↔ rd = r.setWidth 4 ∧ v = v' := by
  have hb := hasEffect_valueBlock r v
  constructor
  · intro h
    obtain ⟨s, next, hs, -, hg, hk, -, -, hw⟩ := h.exists_effect hb (by simp [thumbValueBlock])
      (fun _ => v' + 1#32) [] (by simp) (by simp)
    have he := hw _ (hex s next hs hk) (Or.inl rfl)
    rw [State.writeValue, if_neg (lowReg_ne_pc r)] at he
    have hgpr := fun q => congrArg (fun u => State.gpr u q) (Option.some.inj he)
    by_cases hq : rd = r.setWidth 4
    · refine ⟨hq, ?_⟩
      simpa [hq] using hgpr (r.setWidth 4)
    · have := hgpr rd
      simp only [State.goto_gpr, State.setReg_gpr, Function.update_self,
        Function.update_of_ne hq, hg] at this
      exact absurd this (add_ofNat_ne v' (k := 1) (by omega) (by omega))
  · rintro ⟨rfl, rfl⟩
    refine hb.reproduces (fun s t next hs _ hk ht => ?_)
    rw [hex s next hs hk] at ht
    rw [State.writeValue, if_neg hrd, ht]

/-- **When a 16-bit value instruction and its block agree**: a `MOV` writes a
low register, and the scaling of an `ADR` has nothing but its immediate to
scale. -/
def thumb16ValueExact (pc : Word) : Op → Prop
  | .movReg _ rd _ _ _ => rd.toNat < 8
  | .adr _ _ _ => align4 pc = 0#32
  | _ => True

/-- Scaling a sum by four is scaling one term only if the other is zero. -/
theorem shift_sum_iff (a b : Word) : (a + b) <<< 2 = a + b <<< 2 ↔ a = 0#32 := by
  have h4 : ∀ x : Word, x <<< 2 = x * 4#32 := fun x => BitVec.shiftLeft_eq_mul_twoPow x 2
  constructor
  · intro h
    rw [h4, h4, BitVec.add_mul, BitVec.add_left_inj, show (4#32) = 3#32 + 1#32 from rfl,
      BitVec.mul_add, BitVec.mul_one] at h
    have h3 : a * 3#32 = 0#32 :=
      (BitVec.add_left_inj a).mp (h.trans (BitVec.zero_add a).symm)
    -- three is invertible
    rw [← BitVec.mul_one a, show (1#32) = 3#32 * 0xAAAAAAAB#32 from by decide, ← BitVec.mul_assoc,
      h3, BitVec.zero_mul]
  · rintro rfl
    rw [BitVec.zero_add, BitVec.zero_add]

theorem highReg_eq_low_iff (w : Half) :
    highReg w = (w.extractLsb' 0 3).setWidth 4 ↔ (highReg w).toNat < 8 := by
  have h : ∀ (b : BitVec 1) (r : BitVec 3), (b ++ r : BitVec 4) = r.setWidth 4 ↔
      (b ++ r : BitVec 4).toNat < 8 := by decide
  exact h _ _

/-- **A relocated 16-bit value instruction has the effect of the instruction
exactly where the block is exact for it.** -/
theorem thumb16Value_iff (m₀ : Mem) (addr : Word) (hx : decodeThumb16 w = some x)
    (hv : isThumb16Value x.op = true) (f : Flags) :
    ThumbReproduces m₀ (relocateInstructionInThumb16 m₀ (addr + 4#32) w) x (addr + 4#32) f
      ↔ thumb16ValueExact (addr + 4#32) x.op := by
  have hlow : lowReg w 8 ≠ PC := lowReg_ne_pc _
  rcases thumb16Value_cases hx hv with ⟨hm, hrd, rfl⟩ | ⟨hm, rfl⟩ | ⟨hm, rfl⟩
  · rw [relocateInstructionInThumb16_mov m₀ _ hm, valueBlock_iff _ _ hrd (fun s next _ _ => ?_),
      highReg_eq_low_iff, and_iff_left rfl]
    · rfl
    · rw [Insn.exec_always]
      show s.writeResult next (highReg w) (addr + 4#32) = _
      rw [State.writeResult, if_neg hrd]
  · rw [relocateInstructionInThumb16_adr m₀ _ hm,
      valueBlock_iff _ (align4 (addr + 4#32) + thumbImm8 w <<< 2) hlow
        (fun s next _ _ => ?_), shift_sum_iff]
    · exact and_iff_right rfl
    · rw [Insn.exec_always]
      show s.writeResult next (lowReg w 8) (align4 (addr + 4#32) + thumbImm8 w <<< 2) = _
      rw [State.writeResult, if_neg hlow]
  · rw [relocateInstructionInThumb16_ldr m₀ _ hm,
      valueBlock_iff _
        (m₀.read32 (align4 (addr + 4#32) + thumbImm8 w <<< 2)) hlow (fun s next _ hk => ?_)]
    · exact iff_of_true ⟨rfl, rfl⟩ trivial
    · rw [Insn.exec_always]
      show s.writeLoaded next (lowReg w 8) _
        (s.mem.read32 (offset true (align4 (addr + 4#32)) (thumbImm8 w <<< 2))) = _
      rw [hk _ rfl, State.writeLoaded, if_neg hlow]
      rfl

/-- `LDR R0, [PC, #4]`. -/
theorem thumb16Value_iff_ldr :
    ThumbReproduces (fun _ => 0) (relocateInstructionInThumb16 (fun _ => 0) 0x8006#32 0x4801#16)
        ⟨always, .ldrLit true 0#4 4#32⟩ 0x8006#32 ⟨false, false, false, false⟩
      ↔ thumb16ValueExact 0x8006#32 (.ldrLit true 0#4 4#32) :=
  thumb16Value_iff (x := ⟨always, .ldrLit true 0#4 4#32⟩) _ 0x8002#32 (by decide)
    (by decide) _

/-- `MOV R8, PC`: the block loads R0. -/
theorem thumb16Mov_high :
    decodeThumb16 0x46F8#16 = some ⟨always, .movReg false 8#4 PC 0 0⟩
      ∧ ¬ ThumbReproduces (fun _ => 0)
        (relocateInstructionInThumb16 (fun _ => 0) 0x8004#32 0x46F8#16)
        ⟨always, .movReg false 8#4 PC 0 0⟩ 0x8004#32 ⟨false, false, false, false⟩ := by
  refine ⟨by decide, fun h => ?_⟩
  rw [relocateInstructionInThumb16_mov _ _ (by decide)] at h
  exact absurd ((valueBlock_iff 8#4 _ (by decide) (fun _ _ _ _ => rfl)).mp h).1 (by decide)

end Value

end Relocate
