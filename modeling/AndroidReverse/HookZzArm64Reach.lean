import AndroidReverse.HookZzArm64Blocks

/-!
# How far the A64 relocator reaches

The displacement in an instruction is signed, and the relocator takes it for
unsigned. Of the register it sees four bits. So a rewritten instruction is right
exactly if it does not refer to something in front of it, and, if it writes a
register, this is one of the first sixteen (`writeOne_relocates_iff`).
-/

namespace HookZz.Arm64

open A64

/-! ## What the relocator reads from an instruction -/

/-- **The classifier, by masks.** -/
theorem getARM64InsnType_eq (insn : Word) : getARM64InsnType insn =
    if insn &&& 0xFF000000#32 = 0x58000000#32 then .ldrLiteral
    else if insn &&& 0x9F000000#32 = 0x10000000#32 then .adr
    else if insn &&& 0x9F000000#32 = 0x90000000#32 then .adrp
    else if insn &&& 0xFC000000#32 = 0x14000000#32 then .b
    else if insn &&& 0xFC000000#32 = 0x94000000#32 then .bl
    else if insn &&& 0xFF000010#32 = 0x54000000#32 then .bCond
    else .undef := by
  unfold getARM64InsnType
  simp only [insnEqual_iff "01011000xxxxxxxxxxxxxxxxxxxxxxxx" 0xFF000000#32 0x58000000#32
      (by decide),
    insnEqual_iff "0xx10000xxxxxxxxxxxxxxxxxxxxxxxx" 0x9F000000#32 0x10000000#32 (by decide),
    insnEqual_iff "1xx10000xxxxxxxxxxxxxxxxxxxxxxxx" 0x9F000000#32 0x90000000#32 (by decide),
    insnEqual_iff "000101xxxxxxxxxxxxxxxxxxxxxxxxxx" 0xFC000000#32 0x14000000#32 (by decide),
    insnEqual_iff "100101xxxxxxxxxxxxxxxxxxxxxxxxxx" 0xFC000000#32 0x94000000#32 (by decide),
    insnEqual_iff "01010100xxxxxxxxxxxxxxxxxxx0xxxx" 0xFF000010#32 0x54000000#32 (by decide)]

/-- **Taking a displacement for unsigned** is right if it is not negative. -/
theorem unsigned_eq_iff {n : ℕ} (x : BitVec n) (hn : n ≤ 33) :
    (x.setWidth 32).setWidth 64 = x.signExtend 64 ↔ (x.signExtend 64).msb = false := by
  constructor
  · intro h
    rw [← h, BitVec.msb_eq_getLsbD_last, BitVec.getLsbD_setWidth, BitVec.getLsbD_setWidth]
    rfl
  · intro h
    have hmsb : x.msb = false := by
      rw [BitVec.msb_signExtend, if_neg (by omega)] at h
      exact h
    rw [BitVec.signExtend_eq_setWidth_of_msb_false hmsb]
    refine BitVec.eq_of_getLsbD_eq fun i hi => ?_
    simp only [BitVec.getLsbD_setWidth, hi, decide_true, Bool.true_and]
    by_cases h32 : i < 32
    · rw [decide_eq_true h32, Bool.true_and]
    · -- the only bit above the 32 is the sign
      rw [decide_eq_false h32, Bool.false_and]
      by_cases hlast : n = 33 ∧ i = 32
      · obtain ⟨rfl, rfl⟩ := hlast
        exact ((BitVec.msb_eq_getLsbD_last x).symm.trans hmsb).symm
      · exact (BitVec.getLsbD_of_ge x i (by omega)).symm

theorem getInsnSub_scaled (insn : Word) (lo : ℕ) {n : ℕ} (hn : n ≤ 30) :
    (getInsnSub insn lo n <<< 2).setWidth 64
      = ((insn.extractLsb' lo n ++ 0#2).setWidth 32).setWidth 64 := by
  rw [getInsnSub_eq _ _ (by omega)]
  refine congrArg (BitVec.setWidth 64) (BitVec.eq_of_getLsbD_eq fun i hi => ?_)
  simp only [BitVec.getLsbD_shiftLeft, BitVec.getLsbD_setWidth, BitVec.getLsbD_append, hi,
    decide_true, Bool.true_and]
  by_cases h2 : i < 2
  · simp [h2]
  · simp [h2, show i - 2 < 32 by omega]

theorem getInsnSub_adr (insn : Word) :
    ((getInsnSub insn 5 19 <<< 2) ||| getInsnSub insn 29 2).setWidth 64
      = ((insn.extractLsb' 5 19 ++ insn.extractLsb' 29 2).setWidth 32).setWidth 64 := by
  rw [getInsnSub_eq _ _ (by decide), getInsnSub_eq _ _ (by decide)]
  refine congrArg (BitVec.setWidth 64) (BitVec.eq_of_getLsbD_eq fun i hi => ?_)
  simp only [BitVec.getLsbD_or, BitVec.getLsbD_shiftLeft, BitVec.getLsbD_setWidth,
    BitVec.getLsbD_append, hi, decide_true, Bool.true_and]
  by_cases h2 : i < 2
  · simp [h2]
  · simp [h2, show i - 2 < 32 by omega]

theorem getInsnSub_adrp (insn : Word) :
    ((getInsnSub insn 5 19 <<< 2 <<< 12) ||| (getInsnSub insn 29 2 <<< 12)).setWidth 64
      = (((insn.extractLsb' 5 19 ++ insn.extractLsb' 29 2) ++ 0#12).setWidth 32).setWidth 64 := by
  rw [getInsnSub_eq _ _ (by decide), getInsnSub_eq _ _ (by decide)]
  refine congrArg (BitVec.setWidth 64) (BitVec.eq_of_getLsbD_eq fun i hi => ?_)
  simp only [BitVec.getLsbD_or, BitVec.getLsbD_shiftLeft, BitVec.getLsbD_setWidth,
    BitVec.getLsbD_append, hi, decide_true, Bool.true_and]
  by_cases h12 : i < 12
  · simp [h12]
  · by_cases h2 : i - 12 < 2
    · simp [h12, h2, show i - 12 < 32 by omega]
    · simp [h12, h2, show i - 12 < 32 by omega, show i - 12 - 2 < 32 by omega]

/-- The register is the one of the instruction if this is one of the first
sixteen. -/
theorem rtNdx_eq_iff (insn : Word) :
    Relocator.rtNdx insn = insn.extractLsb' 0 5 ↔ (insn.extractLsb' 0 5).toNat < 16 := by
  have hnarrow : Relocator.rtNdx insn = ((insn.extractLsb' 0 5).setWidth 4).setWidth 5 := by
    rw [Relocator.rtNdx, getInsnSub_eq _ _ (by decide)]
    refine BitVec.eq_of_getLsbD_eq fun i hi => ?_
    simp only [BitVec.getLsbD_setWidth, BitVec.getLsbD_extractLsb', hi, decide_true, Bool.true_and,
      show i < 32 by omega]
  rw [hnarrow]
  exact (by decide : ∀ r : Reg, (r.setWidth 4).setWidth 5 = r ↔ r.toNat < 16) _

/-- It is never the zero register. -/
theorem rtNdx_ne (insn : Word) : Relocator.rtNdx insn ≠ 31#5 := by
  rw [Relocator.rtNdx, getInsnSub_eq _ _ (by decide),
    BitVec.setWidth_setWidth_of_le _ (by decide)]
  exact (by decide : ∀ r : BitVec 4, r.setWidth 5 ≠ 31#5) _

/-! ## The block of an instruction -/

/-- What stands for a rewritten instruction at `pc`: the address is taken
without its sign. -/
def blockOf (insn : Word) (pc : Addr) : Op → List Word
  | .ldrLit _ _ =>
    derefBlock (Relocator.rtNdx insn) (pc + (getInsnSub insn 5 19 <<< 2).setWidth 64)
  | .adr _ _ => loadBlock (Relocator.rtNdx insn)
      (pc + ((getInsnSub insn 5 19 <<< 2) ||| getInsnSub insn 29 2).setWidth 64)
  | .adrp _ _ => loadBlock (Relocator.rtNdx insn) (page pc
      + ((getInsnSub insn 5 19 <<< 2 <<< 12) ||| (getInsnSub insn 29 2 <<< 12)).setWidth 64)
  | .b _ => jumpBlock (pc + (getInsnSub insn 0 26 <<< 2).setWidth 64)
  | .bl _ => callBlock (pc + (getInsnSub insn 0 26 <<< 2).setWidth 64) (pc + 4#64)
  | .bCond cond _ => condBlock cond (pc + (getInsnSub insn 5 19 <<< 2).setWidth 64)
  | .br _ | .blr _ | .ldr _ _ _ => [insn]

/-- **What an instruction has to be like** to be rewritten right: the register
is one of the first sixteen, and what it refers to is not in front of it. -/
def Fits : Op → Prop
  | .ldrLit rt off | .adr rt off | .adrp rt off => rt.toNat < 16 ∧ off.msb = false
  | .b off | .bl off | .bCond _ off => off.msb = false
  | .br _ | .blr _ | .ldr _ _ _ => True

instance : DecidablePred Fits
  | .ldrLit _ _ | .adr _ _ | .adrp _ _ => inferInstanceAs (Decidable (_ ∧ _))
  | .b _ | .bl _ | .bCond _ _ => inferInstanceAs (Decidable (_ = _))
  | .br _ | .blr _ | .ldr _ _ _ => inferInstanceAs (Decidable True)

section Writer

variable (w : AssemblerWriter) (reg : Reg) (a : Addr)

theorem putLdrBRegAddress_buffer :
    (w.putLdrBRegAddress reg a).buffer = w.buffer ++ loadBlock reg a := by
  show ((w.buffer ++ [ldrLitWord reg 0x8#32]) ++ [bWord 0xc#64]) ++ addressBytes a = _
  rw [loadBlock, List.append_assoc, List.append_assoc]
  rfl

theorem putLdrBrRegAddress_buffer :
    (w.putLdrBrRegAddress x17 a).buffer = w.buffer ++ jumpBlock a := by
  show ((w.buffer ++ [ldrLitWord x17 0x8#32]) ++ [brWord]) ++ addressBytes a = _
  rw [jumpBlock, List.append_assoc, List.append_assoc]
  rfl

theorem putLdrBlrBRegAddress_buffer : (w.putLdrBlrBRegAddress x17 a).buffer
    = w.buffer ++ ([ldrLitWord x17 0xc#32, blrWord, bWord 0xc#64] ++ addressBytes a) := by
  show (((w.buffer ++ [ldrLitWord x17 0xc#32]) ++ [blrWord]) ++ [bWord 0xc#64])
    ++ addressBytes a = _
  rw [List.append_assoc, List.append_assoc, List.append_assoc]
  rfl

end Writer

section Rewrite

variable {insn : Word} {op : Op} {pc : Addr}

/-- An instruction with a displacement is of the kind the relocator takes it
for. -/
theorem getARM64InsnType_of_decode (hop : decode insn = some op) : getARM64InsnType insn =
    match op with
    | .ldrLit _ _ => .ldrLiteral
    | .adr _ _ => .adr
    | .adrp _ _ => .adrp
    | .b _ => .b
    | .bl _ => .bl
    | .bCond _ _ => .bCond
    | .br _ | .blr _ | .ldr _ _ _ => .undef := by
  rw [getARM64InsnType_eq]
  unfold decode at hop
  dsimp only at hop
  split_ifs at hop ⊢ <;> cases hop <;> rfl

/-- The fields of an instruction, as its decoding expands them. -/
theorem fields_of_decode (hop : decode insn = some op) :
    match op with
    | .ldrLit rt off => rt = insn.extractLsb' 0 5
        ∧ off = (insn.extractLsb' 5 19 ++ 0#2).signExtend 64
    | .adr rd off => rd = insn.extractLsb' 0 5
        ∧ off = (insn.extractLsb' 5 19 ++ insn.extractLsb' 29 2).signExtend 64
    | .adrp rd off => rd = insn.extractLsb' 0 5
        ∧ off = ((insn.extractLsb' 5 19 ++ insn.extractLsb' 29 2) ++ 0#12).signExtend 64
    | .b off | .bl off => off = (insn.extractLsb' 0 26 ++ 0#2).signExtend 64
    | .bCond cond off => cond = insn.extractLsb' 0 4
        ∧ off = (insn.extractLsb' 5 19 ++ 0#2).signExtend 64
    | .br _ | .blr _ | .ldr _ _ _ => True := by
  unfold decode at hop
  dsimp only at hop
  split_ifs at hop <;> cases hop <;> first | exact ⟨rfl, rfl⟩ | rfl | trivial

/-- **What is written** for an instruction with a displacement. -/
theorem rewrite_buffer (self : Relocator) (insnCtx : ARM64Instruction)
    (hop : decode insnCtx.insn = some op) (hlabel : op.displacement.isSome) :
    (self.rewrite insnCtx).output.buffer
      = self.output.buffer ++ blockOf insnCtx.insn insnCtx.pc op := by
  have hfields := fields_of_decode hop
  unfold Relocator.rewrite
  rw [getARM64InsnType_of_decode hop]
  cases op with
  | ldrLit rt off =>
    show (self.output.putLdrBRegAddress _ _).buffer ++ [ldrSelfWord _] = _
    rw [putLdrBRegAddress_buffer, List.append_assoc]
    rfl
  | adr rd off => exact putLdrBRegAddress_buffer self.output _ _
  | adrp rd off => exact putLdrBRegAddress_buffer self.output _ _
  | b off => exact putLdrBrRegAddress_buffer self.output _
  | bl off =>
    show ((self.output.putLdrBlrBRegAddress x17 _).putLdrBrRegAddress x17 _).buffer = _
    rw [putLdrBrRegAddress_buffer, putLdrBlrBRegAddress_buffer, List.append_assoc]
    rfl
  | bCond cond off =>
    have hcond : getInsnSub insnCtx.insn 0 4 = cond.setWidth 32 := by
      rw [hfields.1]
      exact getInsnSub_eq _ _ (by decide)
    show (((self.output.putBCondImm (getInsnSub insnCtx.insn 0 4) 0x8#64).putBImm
      0x14#64).putLdrBrRegAddress x17 _).buffer = _
    rw [putLdrBrRegAddress_buffer, hcond]
    show ((self.output.buffer ++ [bCondWord cond]) ++ [bWord 0x14#64]) ++ jumpBlock _ = _
    rw [List.append_assoc, List.append_assoc]
    rfl
  | br rn => exact absurd hlabel Bool.false_ne_true
  | blr rn => exact absurd hlabel Bool.false_ne_true
  | ldr rt rn off => exact absurd hlabel Bool.false_ne_true

/-- **The block is right** if the instruction is one that fits. -/
theorem relocates_blockOf_iff (hop : decode insn = some op) (hlabel : op.displacement.isSome) :
    Relocates op pc (blockOf insn pc op) ↔ Fits op := by
  have hfields := fields_of_decode hop
  cases op with
  | ldrLit rt off =>
    obtain ⟨rfl, rfl⟩ := hfields
    rw [blockOf, relocates_deref_iff (rtNdx_ne insn), rtNdx_eq_iff, BitVec.add_right_inj,
      getInsnSub_scaled insn 5 (by decide), unsigned_eq_iff _ (by decide)]
    rfl
  | adr rd off =>
    obtain ⟨rfl, rfl⟩ := hfields
    rw [blockOf, relocates_load_iff (rtNdx_ne insn) (fun _ _ => rfl) ⟨rfl, rfl⟩, rtNdx_eq_iff,
      BitVec.add_right_inj, getInsnSub_adr, unsigned_eq_iff _ (by decide)]
    rfl
  | adrp rd off =>
    obtain ⟨rfl, rfl⟩ := hfields
    rw [blockOf, relocates_load_iff (rtNdx_ne insn) (fun _ _ => rfl) ⟨rfl, rfl⟩, rtNdx_eq_iff,
      BitVec.add_right_inj, getInsnSub_adrp, unsigned_eq_iff _ (by decide)]
    rfl
  | b off =>
    have hoff : off = _ := hfields
    rw [blockOf, relocates_jump_iff, BitVec.add_right_inj,
      getInsnSub_scaled insn 0 (by decide), hoff, unsigned_eq_iff _ (by decide)]
    rfl
  | bl off =>
    have hoff : off = _ := hfields
    rw [blockOf, relocates_call_iff, BitVec.add_right_inj,
      getInsnSub_scaled insn 0 (by decide), hoff, unsigned_eq_iff _ (by decide)]
    rfl
  | bCond cond off =>
    obtain ⟨rfl, rfl⟩ := hfields
    rw [blockOf, relocates_cond_iff, BitVec.add_right_inj, getInsnSub_scaled insn 5 (by decide),
      unsigned_eq_iff _ (by decide)]
    rfl
  | br rn => exact absurd hlabel Bool.false_ne_true
  | blr rn => exact absurd hlabel Bool.false_ne_true
  | ldr rt rn off => exact absurd hlabel Bool.false_ne_true

end Rewrite

/-! ## Writing one instruction -/

/-- **The next instruction is written as a block that stands for it.** -/
def WritesRelocated (self : Relocator) (insnCtx : ARM64Instruction) (op : Op) : Prop :=
  ∃ self' block, self.writeOne = some self' ∧
    self'.output.buffer = self.output.buffer ++ block ∧ Relocates op insnCtx.pc block

section WriteOne

variable {self : Relocator} {insnCtx : ARM64Instruction} {op : Op}

/-- What is written next is the block of the instruction. -/
theorem writesRelocated_iff_blockOf (hpending : self.pending = some insnCtx)
    (hop : decode insnCtx.insn = some op) (hlabel : op.displacement.isSome) :
    WritesRelocated self insnCtx op
      ↔ Relocates op insnCtx.pc (blockOf insnCtx.insn insnCtx.pc op) := by
  have hbuffer := rewrite_buffer { self with outpos := self.outpos + 1 } insnCtx hop hlabel
  unfold WritesRelocated Relocator.writeOne
  rw [hpending, Option.map_some]
  constructor
  · rintro ⟨self', block, hself, hblock, hrel⟩
    cases hself
    rwa [List.append_cancel_left (hbuffer.symm.trans hblock)]
  · exact fun h => ⟨_, _, rfl, hbuffer, h⟩

/-- **An instruction with a displacement is relocated exactly if it fits.** -/
theorem writeOne_relocates_iff (hpending : self.pending = some insnCtx)
    (hop : decode insnCtx.insn = some op) (hlabel : op.displacement.isSome) :
    WritesRelocated self insnCtx op ↔ Fits op := by
  rw [writesRelocated_iff_blockOf hpending hop hlabel, relocates_blockOf_iff hop hlabel]

end WriteOne

/-- A relocator that has read one instruction, at `0x8000`. -/
def oneInsn (insn : Word) : Relocator :=
  { Relocator.init ⟨[⟨0x8000#64, 0x8000#64, 4, insn⟩], 0x8004#64, 0x8004#64, 4⟩
      (.reset 0x20000#64 0x20000#64) with inpos := 1 }

/-- `b.ne 0x8010` goes well. -/
theorem writeOne_relocates_forward :
    WritesRelocated (oneInsn 0x54000081#32) ⟨0x8000#64, 0x8000#64, 4, 0x54000081#32⟩
      (.bCond 1#4 0x10#64) :=
  (writeOne_relocates_iff rfl (by decide) rfl).mpr (by decide)

/-- `b 0x7ffc` and `ldr x16, 0x8008` do not. -/
theorem not_writeOne_relocates_backward :
    ¬ WritesRelocated (oneInsn 0x17FFFFFF#32) ⟨0x8000#64, 0x8000#64, 4, 0x17FFFFFF#32⟩
        (.b (-4#64)) ∧
      ¬ WritesRelocated (oneInsn 0x58000050#32) ⟨0x8000#64, 0x8000#64, 4, 0x58000050#32⟩
        (.ldrLit 16#5 8#64) := by
  rw [writesRelocated_iff_blockOf rfl (by decide) rfl, relocates_blockOf_iff (by decide) rfl,
    writesRelocated_iff_blockOf rfl (by decide) rfl, relocates_blockOf_iff (by decide) rfl]
  decide

end HookZz.Arm64
