import AndroidReverse.RelocateTable
import AndroidReverse.RelocateArm

/-!
# Relocated additions of the program counter

`ADD Rd, PC` and its ARM forms read the program counter as one operand of an
addition whose other operand is not known when the code is moved. The block
the relocator emits for them therefore keeps the addition: it saves a scratch
register on the stack, loads the old program counter into it, executes the
instruction with the scratch register in the place of the program counter, and
restores the scratch register.

Both blocks are right for every operand, condition, shift and carry
(`addition_reproduced`): the scratch register is none of the operands, no
other instruction of the block touches the flags, and only the addition is
conditional. Like the table branches they use the word below the stack
pointer, so what is said is said of an aligned stack that does not hold the
block in that word.
-/

namespace Relocate

open Arm

/-! ## Blocks that save a register -/

section Spill

/-- **The stack is fit for a block of `len` bytes** that saves one register: it
is aligned, and the word below the stack pointer is not part of the block. -/
structure StackApart (len : ℕ) (s : State) : Prop where
  /-- The stack pointer is word-aligned. -/
  aligned : (s.gpr SP).toNat % 4 = 0
  /-- The block is apart from the word below. -/
  block : ∀ k, k < len → ¬ InBlock (s.gpr SP - 4#32) 4 (s.pc + BitVec.ofNat 32 k)

/-- **A block of `len` bytes stands for instruction `x`** of a place where the
program counter reads as `pc`: the instruction has a result there, and the
block ends with the registers, the flags and the instruction set of that
result, behind its last byte, with no byte of the memory changed but in the
word below the stack pointer. -/
def SpillReproduces (x : Insn) (pc : Word) (len : ℕ) (s : State) : Prop :=
  ∃ t u, x.exec pc (s.pc + BitVec.ofNat 32 len) s = some t ∧ RunsWithin s.pc len s u
    ∧ u.gpr = t.gpr ∧ u.flags = t.flags ∧ u.thumb = t.thumb ∧ u.pc = t.pc
    ∧ u.pc = s.pc + BitVec.ofNat 32 len
    ∧ ∀ a, ¬ InBlock (s.gpr SP - 4#32) 4 a → u.mem a = s.mem a

variable {g : Reg → Word} {r rd : Reg} {v a y : Word}

/-- Saving, loading and restoring a scratch register leaves no trace. -/
theorem spill_restore :
    Function.update (Function.update (Function.update (Function.update g SP a) r v) r (g r)) SP
      (g SP) = g := by
  funext q
  simp only [Function.update_apply]
  by_cases hsp : q = SP
  · rw [if_pos hsp, hsp]
  · by_cases hq : q = r
    · rw [if_neg hsp, if_pos hq, hq]
    · rw [if_neg hsp, if_neg hq, if_neg hq, if_neg hsp]

/-- And a result written in between is all that is left of them. -/
theorem spill_restore_result (hd : rd ≠ r) (hsp : rd ≠ SP) :
    Function.update (Function.update (Function.update (Function.update (Function.update g SP a) r v)
      rd y) r (g r)) SP (g SP) = Function.update g rd y := by
  rw [Function.update_comm hd, Function.update_comm hsp, spill_restore]

end Spill

/-! ## The Thumb block -/

section Thumb

/-- The scratch register of `ADD Rdn, PC`. -/
def addR (rdn : Reg) : Reg := if rdn = 7#4 then 6#4 else 7#4

/-- **The block of `ADD Rdn, PC`** whose literal is `v`. -/
def addBlock (rdn : Reg) (v : Word) : List Half :=
  let r : Word := (addR rdn).setWidth 32
  [store16 (0xB400#32 ||| (1#32 <<< r)), store16 (0x4802#32 ||| (r <<< 8)),
    store16 ((0x4400#32 ||| ((rdn.setWidth 32 &&& 0x8#32) <<< 4) ||| (rdn.setWidth 32 &&& 0x7#32))
      ||| (r <<< 3)), store16 (0xBC00#32 ||| (1#32 <<< r)), 0xE002#16, 0xBF00#16,
    lowHalf v, highHalf v]

/-- The halfword of `ADD Rdn, PC`. -/
def addPcHalf (rdn : Reg) : Half :=
  0x4478#16 ||| ((rdn.extractLsb' 3 1).setWidth 16 <<< 7) ||| (rdn.extractLsb' 0 3).setWidth 16

theorem addPcHalf_eq {w : Half} {x : Insn} {rdn : Reg} (hx : decodeThumb16 w = some x)
    (hop : x.op = .addReg false rdn rdn PC 0 0) :
    w = addPcHalf rdn ∧ x = ⟨always, .addReg false rdn rdn PC 0 0⟩ := by
  obtain ⟨r, hr, hm, he, rfl⟩ := exists_row hx
  simp only [thumb16Rows, thumbRow, thumbCondRow, List.mem_cons, List.not_mem_nil, or_false] at hr
  rcases hr with rfl | rfl | rfl | rfl | rfl | rfl | rfl | rfl | rfl | rfl | rfl | rfl | rfl | rfl
    | rfl | rfl | rfl | rfl | rfl | rfl | rfl
  case inr.inr.inr.inl =>
    obtain ⟨hrd, hrm⟩ : highReg w = rdn ∧ w.extractLsb' 3 4 = PC := by
      injection hop with h1 h2 h3 h4
      exact ⟨h2, h4⟩
    have hhi : w.extractLsb' 7 1 = rdn.extractLsb' 3 1 := by
      rw [← hrd, highReg]
      exact (BitVec.extractLsb'_append_eq_left).symm
    have hlo : w.extractLsb' 0 3 = rdn.extractLsb' 0 3 := by
      rw [← hrd, highReg]
      exact (BitVec.extractLsb'_append_eq_right).symm
    have hw := mask_union (mask_union (mask_union hm (mask_of_extract 3 4 hrm))
      (mask_of_extract 7 1 hhi)) (mask_of_extract 0 3 hlo)
    refine ⟨?_, ?_⟩
    · have hones : w &&& BitVec.allOnes 16 = w := BitVec.and_allOnes
      rw [← hones, show BitVec.allOnes 16 = _ from rfl]
      refine hw.trans ?_
      rw [BitVec.shiftLeft_zero]
      rfl
    · show Insn.mk always (.addReg false (highReg w) (highReg w) (w.extractLsb' 3 4) 0 0) = _
      rw [hrd, hrm]
  all_goals cases hop

theorem relocateInstructionInThumb16_add (mem : Mem) (pc : Word) (rdn : Reg) :
    relocateInstructionInThumb16 mem pc (addPcHalf rdn) = addBlock rdn pc := by
  have ht : getTypeInThumb16 (addPcHalf rdn) = .addThumb16 := by
    revert rdn
    decide
  have hrdn : (((addPcHalf rdn).setWidth 32 &&& 0x80#32) >>> 4
      ||| ((addPcHalf rdn).setWidth 32 &&& 0x7#32) : Word) = rdn.setWidth 32 := by
    revert rdn
    decide
  have hr : scratchReg [rdn.setWidth 32] 7 = (addR rdn).setWidth 32 := by
    revert rdn
    decide
  have hadd : ((addPcHalf rdn).setWidth 32 &&& 0xFF87#32 : Word)
      = 0x4400#32 ||| ((rdn.setWidth 32 &&& 0x8#32) <<< 4) ||| (rdn.setWidth 32 &&& 0x7#32) := by
    revert rdn
    decide
  unfold relocateInstructionInThumb16
  simp only [ht, hrdn, hr, hadd, literal_eq]
  rfl

/-- The scratch register is neither the operand nor one of the special
registers. -/
theorem addR_ne : ∀ rdn : Reg, rdn ≠ addR rdn ∧ addR rdn ≠ SP ∧ addR rdn ≠ PC := by decide

/-! ### The instructions of the block -/

theorem add_push : ∀ rdn : Reg,
    isThumb32 (store16 (0xB400#32 ||| (1#32 <<< ((addR rdn).setWidth 32 : Word)))) = false
      ∧ decodeThumb16 (store16 (0xB400#32 ||| (1#32 <<< ((addR rdn).setWidth 32 : Word))))
        = some ⟨always, .push [addR rdn]⟩ := by
  decide

theorem add_ldr : ∀ rdn : Reg,
    isThumb32 (store16 (0x4802#32 ||| ((addR rdn).setWidth 32 <<< 8))) = false
      ∧ decodeThumb16 (store16 (0x4802#32 ||| ((addR rdn).setWidth 32 <<< 8)))
        = some ⟨always, .ldrLit true (addR rdn) 8#32⟩ := by
  decide

theorem add_add : ∀ rdn : Reg,
    isThumb32 (store16 ((0x4400#32 ||| ((rdn.setWidth 32 &&& 0x8#32) <<< 4)
        ||| (rdn.setWidth 32 &&& 0x7#32)) ||| ((addR rdn).setWidth 32 <<< 3))) = false
      ∧ decodeThumb16 (store16 ((0x4400#32 ||| ((rdn.setWidth 32 &&& 0x8#32) <<< 4)
          ||| (rdn.setWidth 32 &&& 0x7#32)) ||| ((addR rdn).setWidth 32 <<< 3)))
        = some ⟨always, .addReg false rdn rdn (addR rdn) 0 0⟩ := by
  decide

theorem add_pop : ∀ rdn : Reg,
    isThumb32 (store16 (0xBC00#32 ||| (1#32 <<< ((addR rdn).setWidth 32 : Word)))) = false
      ∧ decodeThumb16 (store16 (0xBC00#32 ||| (1#32 <<< ((addR rdn).setWidth 32 : Word))))
        = some ⟨always, .pop [addR rdn]⟩ := by
  decide

/-! ### The run of the block -/

/-- `ADD Rdn, PC` where the program counter reads as `pc`. -/
theorem exec_addPc {s : State} {rdn : Reg} {pc next : Word} (hpc : rdn ≠ PC) :
    (Insn.mk always (.addReg false rdn rdn PC 0 0)).exec pc next s
      = some ((s.setReg rdn (s.gpr rdn + pc)).goto next) := by
  rw [Insn.exec_always]
  show s.writeResult next rdn (s.readReg pc rdn + pc) = _
  rw [State.readReg, if_neg hpc, State.writeResult, if_neg hpc]

/-- **The block of `ADD Rdn, PC` stands for the instruction.** -/
theorem addBlock_reproduces {rdn : Reg} (hsp : rdn ≠ SP) (hpc : rdn ≠ PC) {v : Word} {s : State}
    (hat : AtThumbBlock (addBlock rdn v) s) (hst : StackApart 16 s) :
    SpillReproduces ⟨always, .addReg false rdn rdn PC 0 0⟩ v 16 s := by
  obtain ⟨hrd, hrsp, hrpc⟩ := addR_ne rdn
  set r := addR rdn
  set sp := s.gpr SP
  let m := s.mem.write 4 (sp - 4#32) (s.gpr r)
  have hc : HalvesAt m s.pc (addBlock rdn v) :=
    hat.code.congr (fun k hk => Mem.write_of_out _ (hst.block k hk))
  have hin : ∀ k, k < 16 → InBlock s.pc 16 (s.pc + BitVec.ofNat 32 k) :=
    fun k hk => inBlock_offset hk (by omega)
  -- the states the run passes, one for each instruction
  let s₁ : State := ⟨Function.update s.gpr SP (sp - 4#32), s.pc + 2#32, s.thumb, s.flags, m⟩
  let s₂ : State := ⟨Function.update s₁.gpr r v, s.pc + 4#32, s.thumb, s.flags, m⟩
  let s₃ : State :=
    ⟨Function.update s₂.gpr rdn (s.gpr rdn + v), s.pc + 6#32, s.thumb, s.flags, m⟩
  let s₄ : State :=
    ⟨Function.update (Function.update s₃.gpr r (s.gpr r)) SP sp, s.pc + 8#32, s.thumb, s.flags, m⟩
  have h₁ : step s = some s₁ := by
    rw [hat.code.step16 (i := 0) hat.thumb (BitVec.add_zero _).symm rfl (add_push rdn).1
      (add_push rdn).2, Insn.exec_always, exec_push_one hst.aligned]
    rfl
  have h₂ : step s₁ = some s₂ := by
    have hl : align4 (s.pc + 6#32) + 8#32 = s.pc + BitVec.ofNat 32 (2 * 6) := by
      rw [align4_offset_two (k := 6) hat.aligned rfl, BitVec.add_assoc]
      rfl
    rw [HalvesAt.step16 (s := s₁) (i := 1) hc hat.thumb rfl rfl (add_ldr rdn).1 (add_ldr rdn).2,
      Insn.exec_always]
    show s₁.writeLoaded (s.pc + 4#32) r (align4 (s.pc + 6#32) + 8#32)
      (m.read32 (align4 (s.pc + 6#32) + 8#32)) = _
    rw [hl, hc.literal (i := 6) (v := v) rfl rfl, State.writeLoaded, if_neg hrpc]
    rfl
  have h₃ : step s₂ = some s₃ := by
    have hg : s₂.gpr rdn = s.gpr rdn := by
      show Function.update (Function.update s.gpr SP _) r v rdn = _
      rw [Function.update_of_ne hrd, Function.update_of_ne hsp]
    rw [HalvesAt.step16 (s := s₂) (i := 2) hc hat.thumb rfl rfl (add_add rdn).1 (add_add rdn).2,
      Insn.exec_always]
    show s₂.writeResult (s.pc + 6#32) rdn (s₂.readReg _ rdn + s₂.readReg _ r) = _
    rw [State.readReg, State.readReg, if_neg hpc, if_neg hrpc, hg,
      show s₂.gpr r = v from Function.update_self _ _ _, State.writeResult, if_neg hpc]
    rfl
  have h₄ : step s₃ = some s₄ := by
    have hgsp : s₃.gpr SP = sp - 4#32 := by
      show Function.update (Function.update (Function.update s.gpr SP _) r v) rdn _ SP = _
      rw [Function.update_of_ne hsp.symm, Function.update_of_ne hrsp.symm]
      exact Function.update_self _ _ _
    have hal : (s₃.gpr SP).toNat % 4 = 0 := by
      have hal : sp.toNat % 4 = 0 := hst.aligned
      rw [hgsp, BitVec.toNat_sub, BitVec.toNat_ofNat]
      omega
    rw [HalvesAt.step16 (s := s₃) (i := 3) hc hat.thumb rfl rfl (add_pop rdn).1 (add_pop rdn).2,
      Insn.exec_always, exec_pop_one hrpc hal, hgsp, BitVec.sub_add_cancel,
      show s₃.mem.read32 (sp - 4#32) = s.gpr r from Mem.read32_write _ _ _]
    rfl
  have h₅ : step s₄ = some (s₄.goto (s.pc + 16#32)) :=
    HalvesAt.step_skip (s := s₄) (i := 4) (d := 4) hc hat.aligned rfl hat.thumb rfl rfl (by decide)
      (by decide)
  refine ⟨_, s₄.goto (s.pc + 16#32), exec_addPc hpc,
    .head (inBlock_base (by omega)) h₁ (.head (hin 2 (by omega)) h₂ (.head (hin 4 (by omega)) h₃
      (.head (hin 6 (by omega)) h₄ (.head (hin 8 (by omega)) h₅ (.refl _))))),
    spill_restore_result hrd hsp, rfl, rfl, rfl, rfl, fun a ha => Mem.write_of_out _ ha⟩

end Thumb

/-! ## The ARM block -/

section Arm

/-- **The processor is at the start of an ARM block** that is in memory, at a
word-aligned address. -/
structure AtArmCode (block : List Word) (s : State) : Prop where
  /-- The block is word-aligned. -/
  aligned : s.pc.toNat % 4 = 0
  /-- The processor is in ARM state. -/
  arm : s.thumb = false
  /-- The block is at the program counter. -/
  code : WordsAt s.mem s.pc block

/-- The scratch register of `ADD Rd, PC, Rm`. -/
def armAddR (rd rm : Reg) : Reg :=
  if 12#4 ∉ [rd, rm] then 12#4 else if 11#4 ∉ [rd, rm] then 11#4 else 10#4

/-- The addition `w` with its first operand replaced by register `r`. -/
def withFirstOperand (w : Word) (r : Reg) : Word := (w &&& 0xFFF0FFFF#32) ||| (r.setWidth 32 <<< 16)

/-- **The block of an addition `w` of the program counter** with scratch
register `r` and literal `v`. -/
def armAddBlock (w : Word) (r : Reg) (v : Word) : List Word :=
  [0xE52D0004#32 ||| (r.setWidth 32 <<< 12), 0xE59F0008#32 ||| (r.setWidth 32 <<< 12),
    withFirstOperand w r, 0xE49D0004#32 ||| (r.setWidth 32 <<< 12), 0xE28FF000#32, v]

variable {w : Word} {c : BitVec 4} {setflags : Bool} {rd rm r : Reg} {ty : BitVec 2}
  {imm5 : BitVec 5}

/-- **The additions, by their encoding.** -/
theorem armAdd_cases {x : Insn} {rn : Reg} (hx : decodeArm w = some x)
    (hop : x.op = .addReg setflags rd rn rm ty imm5) :
    w &&& 0x0FE00010#32 = 0x00800000#32 ∧ armReg w 28 ≠ 0b1111#4 ∧ exceptionReturn w = false
      ∧ armReg w 16 = rn ∧ armReg w 12 = rd ∧ armReg w 0 = rm ∧ w.getLsbD 20 = setflags
      ∧ w.extractLsb' 5 2 = ty ∧ w.extractLsb' 7 5 = imm5 ∧ armReg w 28 = x.cond := by
  obtain ⟨row, hr, hm, he, rfl⟩ := exists_row hx
  simp only [armRows, armRow, List.mem_cons, List.not_mem_nil, or_false] at hr
  rcases hr with rfl | rfl | rfl | rfl | rfl | rfl | rfl | rfl | rfl | rfl | rfl | rfl | rfl
  case inr.inr.inr.inr.inl =>
    obtain ⟨hc, hexc⟩ : armReg w 28 ≠ 0b1111#4 ∧ exceptionReturn w = false := by simpa using he
    injection hop with h1 h2 h3 h4 h5 h6
    exact ⟨hm, hc, hexc, h3, h2, h4, h1, h5, h6, rfl⟩
  all_goals cases hop

/-- And back: what such a word decodes to. -/
theorem decodeArm_addReg (hm : w &&& 0x0FE00010#32 = 0x00800000#32)
    (hc : armReg w 28 ≠ 0b1111#4) (he : exceptionReturn w = false) :
    decodeArm w = some ⟨armReg w 28, .addReg (w.getLsbD 20) (armReg w 12) (armReg w 16) (armReg w 0)
      (w.extractLsb' 5 2) (w.extractLsb' 7 5)⟩ := by
  unfold decodeArm armRows armRow
  iterate 4 rw [decodeBy, if_neg (mask_conflict hm (by decide))]
  rw [decodeBy]
  refine (if_pos hm).trans ?_
  simp [hc, he]

/-- Replacing the first operand leaves every other bit of the addition. -/
theorem withFirstOperand_bit {i : ℕ} (hi : i < 16 ∨ 20 ≤ i) :
    (withFirstOperand w r).getLsbD i = w.getLsbD i := by
  unfold withFirstOperand
  rw [BitVec.getLsbD_or, BitVec.getLsbD_and, BitVec.getLsbD_shiftLeft, BitVec.getLsbD_setWidth]
  by_cases h32 : i < 32
  · have hm : (0xFFF0FFFF#32).getLsbD i = true := by
      rcases hi with hi | hi <;> interval_cases i <;> rfl
    have hr : (!decide (i < 16) && (decide (i - 16 < 32) && r.getLsbD (i - 16))) = false := by
      rcases hi with hi | hi
      · simp [hi]
      · rw [BitVec.getLsbD_of_ge r (i - 16) (by omega)]
        simp
    simp only [hm, Bool.and_true, h32, decide_true, Bool.true_and, hr, Bool.or_false]
  · rw [BitVec.getLsbD_of_ge w i (by omega)]
    simp [h32]

theorem withFirstOperand_field {lo n : ℕ} (h : lo + n ≤ 16 ∨ 20 ≤ lo) :
    (withFirstOperand w r).extractLsb' lo n = w.extractLsb' lo n := by
  refine BitVec.eq_of_getLsbD_eq (fun i hi => ?_)
  rw [BitVec.getLsbD_extractLsb', BitVec.getLsbD_extractLsb', withFirstOperand_bit (by omega)]

/-- The operand that replaces it. -/
theorem armReg_withFirstOperand : armReg (withFirstOperand w r) 16 = r := by
  refine BitVec.eq_of_getLsbD_eq (fun i hi => ?_)
  have hm : (0xFFF0FFFF#32).getLsbD (16 + i) = false := by interval_cases i <;> rfl
  rw [armReg, BitVec.getLsbD_extractLsb', withFirstOperand, BitVec.getLsbD_or, BitVec.getLsbD_and,
    hm, BitVec.getLsbD_shiftLeft, BitVec.getLsbD_setWidth, Nat.add_sub_cancel_left]
  simp [hi, show 16 + i < 32 by omega, show i < 32 by omega]

/-- **The replaced addition decodes to the addition of register `r`.** -/
theorem decodeArm_withFirstOperand
    (hx : decodeArm w = some ⟨c, .addReg setflags rd PC rm ty imm5⟩) (r : Reg) :
    decodeArm (withFirstOperand w r) = some ⟨c, .addReg setflags rd r rm ty imm5⟩ := by
  obtain ⟨hm, hcond, hexc, -, hrd, hrm, hs, hty, himm, hc⟩ := armAdd_cases hx rfl
  have hm' : withFirstOperand w r &&& 0x0FE00010#32 = 0x00800000#32 := by
    rw [← hm]
    refine BitVec.eq_of_getLsbD_eq (fun i hi => ?_)
    rw [BitVec.getLsbD_and, BitVec.getLsbD_and]
    by_cases h : i < 16 ∨ 20 ≤ i
    · rw [withFirstOperand_bit h]
    · have hbit : (0x0FE00010#32).getLsbD i = false := by
        have : 16 ≤ i ∧ i < 20 := by omega
        interval_cases i <;> first | rfl | omega
      rw [hbit, Bool.and_false, Bool.and_false]
  have hf28 : armReg (withFirstOperand w r) 28 = armReg w 28 := withFirstOperand_field (by omega)
  have hf12 : armReg (withFirstOperand w r) 12 = armReg w 12 := withFirstOperand_field (by omega)
  have hf0 : armReg (withFirstOperand w r) 0 = armReg w 0 := withFirstOperand_field (by omega)
  have hb20 : (withFirstOperand w r).getLsbD 20 = w.getLsbD 20 := withFirstOperand_bit (by omega)
  have hexc' : exceptionReturn (withFirstOperand w r) = false := by
    rw [exceptionReturn, hb20, hf12]
    exact hexc
  rw [decodeArm_addReg hm' (by rw [hf28]; exact hcond) hexc', hf28, hf12, hf0, hb20,
    armReg_withFirstOperand, withFirstOperand_field (by omega), withFirstOperand_field (by omega),
    hrd, hrm, hs, hty, himm, hc]

theorem relocateWordInArm_add (mem : Mem) (pc : Word)
    (hx : decodeArm w = some ⟨c, .addReg setflags rd PC rm ty imm5⟩) :
    relocateWordInArm mem pc w = armAddBlock w (armAddR rd rm) pc := by
  obtain ⟨hm, -, -, hrn, hrd, hrm, -⟩ := armAdd_cases hx rfl
  have h := mask_union hm (mask_of_extract 16 4 hrn)
  have ht : getTypeInArm w = .addArm := by
    unfold getTypeInArm
    iterate 4 rw [if_neg (mask_conflict h (by decide))]
    rw [if_pos ((mask_trans _ h (by decide)).trans (by decide))]
  have hm0 : w &&& 0xF#32 = rm.setWidth 32 := by
    have hlow := maskLow w (Nat.le_refl 32) 4 (by omega)
    rw [← hrm]
    rwa [BitVec.setWidth_eq] at hlow
  have hr : ∀ rd rm : Reg,
      scratchReg [rd.setWidth 32, rm.setWidth 32] 12 = (armAddR rd rm).setWidth 32 := by
    decide
  unfold relocateWordInArm
  simp only [ht, rdField, hrd, hm0, hr]
  rfl

/-- The scratch register is none of the operands and none of the special
registers. -/
theorem armAddR_ne : ∀ rd rm : Reg, rd ≠ armAddR rd rm ∧ rm ≠ armAddR rd rm
    ∧ armAddR rd rm ≠ SP ∧ armAddR rd rm ≠ PC := by
  decide

/-! ### The instructions of the block -/

theorem armAdd_push : ∀ r : Reg, r ≠ SP →
    decodeArm (0xE52D0004#32 ||| (r.setWidth 32 <<< 12))
      = some ⟨always, .str .word true false true r SP 4#32⟩ := by
  decide

theorem armAdd_ldr : ∀ r : Reg,
    decodeArm (0xE59F0008#32 ||| (r.setWidth 32 <<< 12)) = some ⟨always, .ldrLit true r 8#32⟩ := by
  decide

theorem armAdd_pop : ∀ r : Reg, r ≠ SP →
    decodeArm (0xE49D0004#32 ||| (r.setWidth 32 <<< 12))
      = some ⟨always, .ldr .word false true true r SP 4#32⟩ := by
  decide

/-! ### The run of the block -/

/-- The flags an addition of `x` and `y` leaves. -/
def addedFlags (c : BitVec 4) (setflags : Bool) (x y : Word) (f : Flags) : Flags :=
  if conditionPassed c f = true ∧ setflags = true then addFlags x y else f

/-- The registers it leaves. -/
def addedRegs (c : BitVec 4) (rd : Reg) (x y : Word) (f : Flags) (g : Reg → Word) : Reg → Word :=
  if conditionPassed c f = true then Function.update g rd (x + y) else g

/-- **An addition to a register other than the program counter**, whether its
condition passes or not. -/
theorem exec_addReg {s : State} {pc next : Word} {rn : Reg} (hrd : rd ≠ PC) (hrm : rm ≠ PC) :
    (Insn.mk c (.addReg setflags rd rn rm ty imm5)).exec pc next s
      = some ⟨addedRegs c rd (s.readReg pc rn) (shiftC (s.gpr rm) ty imm5 s.flags.c).1 s.flags s.gpr,
          next, s.thumb,
          addedFlags c setflags (s.readReg pc rn) (shiftC (s.gpr rm) ty imm5 s.flags.c).1 s.flags,
          s.mem⟩ := by
  unfold addedRegs addedFlags
  by_cases hc : conditionPassed c s.flags = true
  · rw [Insn.exec_of_passed hc, if_pos hc]
    show State.writeResult _ next rd (s.readReg pc rn
      + (shiftC (s.readReg pc rm) ty imm5 s.flags.c).1) = _
    rw [show s.readReg pc rm = s.gpr rm from if_neg hrm, State.writeResult, if_neg hrd]
    cases setflags with
    | false => simp [State.setReg, State.goto]
    | true => simp [State.setReg, State.goto, hc]
  · rw [Insn.exec_of_failed (Bool.eq_false_iff.mpr hc), if_neg hc, if_neg (fun h => hc h.1)]
    rfl

/-- Saving, loading and restoring a scratch register around an addition leaves
the addition. -/
theorem spill_restore_added {g : Reg → Word} {a v x y : Word} {f : Flags} (hr : r ≠ SP)
    (hd : rd ≠ r) (hsp : rd ≠ SP) :
    Function.update (Function.update (addedRegs c rd x y f
      (Function.update (Function.update g SP a) r v)) SP (g SP)) r (g r)
      = addedRegs c rd x y f g := by
  rw [Function.update_comm hr.symm]
  unfold addedRegs
  by_cases hc : conditionPassed c f = true
  · rw [if_pos hc, if_pos hc]
    exact spill_restore_result hd hsp
  · rw [if_neg hc, if_neg hc]
    exact spill_restore

/-- **The block of an addition of the program counter stands for the
addition.** -/
theorem armAddBlock_reproduces (hx : decodeArm w = some ⟨c, .addReg setflags rd PC rm ty imm5⟩)
    (hrd : rd ≠ SP ∧ rd ≠ PC) (hrm : rm ≠ SP ∧ rm ≠ PC) {v : Word} {s : State}
    (hat : AtArmCode (armAddBlock w (armAddR rd rm) v) s) (hst : StackApart 24 s) :
    SpillReproduces ⟨c, .addReg setflags rd PC rm ty imm5⟩ v 24 s := by
  obtain ⟨hdr, hmr, hrsp, hrpc⟩ := armAddR_ne rd rm
  set r := armAddR rd rm
  set sp := s.gpr SP
  set y := (shiftC (s.gpr rm) ty imm5 s.flags.c).1 with hy
  let m := s.mem.write 4 (sp - 4#32) (s.gpr r)
  have hc : WordsAt m s.pc (armAddBlock w r v) :=
    hat.code.congr (fun k hk => Mem.write_of_out _ (hst.block k hk))
  have hin : ∀ k, k < 24 → InBlock s.pc 24 (s.pc + BitVec.ofNat 32 k) :=
    fun k hk => inBlock_offset hk (by omega)
  -- the states the run passes, one for each instruction
  let s₁ : State := ⟨Function.update s.gpr SP (sp - 4#32), s.pc + 4#32, s.thumb, s.flags, m⟩
  let s₂ : State := ⟨Function.update s₁.gpr r v, s.pc + 8#32, s.thumb, s.flags, m⟩
  let s₃ : State := ⟨addedRegs c rd v y s.flags s₂.gpr, s.pc + 12#32, s.thumb,
    addedFlags c setflags v y s.flags, m⟩
  let s₄ : State := ⟨Function.update (Function.update s₃.gpr SP sp) r (s.gpr r), s.pc + 16#32,
    s.thumb, addedFlags c setflags v y s.flags, m⟩
  have h₁ : step s = some s₁ := by
    rw [hat.code.step (i := 0) hat.arm (BitVec.add_zero _).symm rfl (armAdd_push r hrsp),
      Insn.exec_always]
    show some (State.goto { s.setReg SP (s.readReg _ SP - 4#32) with
      mem := s.mem.write 4 (s.readReg _ SP - 4#32) (s.readReg _ r) } (s.pc + 4#32)) = _
    rw [show s.readReg _ r = s.gpr r from if_neg hrpc]
    rfl
  have h₂ : step s₁ = some s₂ := by
    have hl : align4 (s.pc + 12#32) + 8#32 = s.pc + BitVec.ofNat 32 (4 * 5) := by
      rw [align4_of_aligned (aligned_offset (k := 12) hat.aligned (by omega)), BitVec.add_assoc]
      rfl
    rw [WordsAt.step (s := s₁) (i := 1) hc hat.arm rfl rfl (armAdd_ldr r), Insn.exec_always]
    show s₁.writeLoaded (s.pc + 8#32) r (align4 (s.pc + 12#32) + 8#32)
      (m.read32 (align4 (s.pc + 12#32) + 8#32)) = _
    rw [hl, hc 5 v rfl, State.writeLoaded, if_neg hrpc]
    rfl
  have h₃ : step s₂ = some s₃ := by
    have hg : s₂.gpr rm = s.gpr rm := by
      show Function.update (Function.update s.gpr SP _) r v rm = _
      rw [Function.update_of_ne hmr, Function.update_of_ne hrm.1]
    have hv : s₂.readReg (s.pc + 16#32) r = v := by
      rw [State.readReg, if_neg hrpc]
      exact Function.update_self _ _ _
    rw [WordsAt.step (s := s₂) (i := 2) hc hat.arm rfl rfl (decodeArm_withFirstOperand hx r),
      exec_addReg hrd.2 hrm.2, hg]
    show some (State.mk (addedRegs c rd (s₂.readReg (s.pc + 16#32) r) y s.flags s₂.gpr) _ _
      (addedFlags c setflags (s₂.readReg (s.pc + 16#32) r) y s.flags) _) = _
    rw [hv]
  have hgsp : s₃.gpr SP = sp - 4#32 := by
    have h : s₂.gpr SP = sp - 4#32 := by
      show Function.update (Function.update s.gpr SP (sp - 4#32)) r v SP = _
      rw [Function.update_of_ne hrsp.symm]
      exact Function.update_self _ _ _
    show addedRegs c rd v y s.flags s₂.gpr SP = _
    unfold addedRegs
    by_cases hcond : conditionPassed c s.flags = true
    · rw [if_pos hcond, Function.update_of_ne hrd.1.symm, h]
    · rw [if_neg hcond, h]
  have h₄ : step s₃ = some s₄ := by
    rw [WordsAt.step (s := s₃) (i := 3) hc hat.arm rfl rfl (armAdd_pop r hrsp), Insn.exec_always]
    show (s₃.setReg SP (s₃.gpr SP + 4#32)).writeLoaded (s.pc + 16#32) r (s₃.gpr SP)
      (m.read32 (s₃.gpr SP)) = _
    rw [hgsp, BitVec.sub_add_cancel, show m.read32 (sp - 4#32) = s.gpr r from Mem.read32_write _ _ _,
      State.writeLoaded, if_neg hrpc]
    rfl
  have h₅ : step s₄ = some (s₄.goto (s.pc + 24#32)) := by
    have h24 : (s.pc + 24#32).toNat % 4 = 0 := aligned_offset (k := 24) hat.aligned (by omega)
    have ha : align4 (s.pc + 24#32) + 0#32 = s.pc + 24#32 := by
      rw [align4_of_aligned h24, BitVec.add_zero]
    rw [WordsAt.step (s := s₄) (i := 4) hc hat.arm rfl rfl (x := ⟨always, .adr true PC 0#32⟩)
      (by decide), Insn.exec_always]
    show s₄.writeResult (s.pc + 20#32) PC (align4 (s.pc + 24#32) + 0#32) = _
    rw [ha, State.writeResult_eq_writeValue (s := s₄) hat.arm, State.writeValue, if_pos rfl,
      State.bxWritePC_arm _ h24]
    exact congrArg some (by rw [show false = s₄.thumb from hat.arm.symm]; rfl)
  refine ⟨_, s₄.goto (s.pc + 24#32), exec_addReg hrd.2 hrm.2,
    .head (inBlock_base (by omega)) h₁ (.head (hin 4 (by omega)) h₂ (.head (hin 8 (by omega)) h₃
      (.head (hin 12 (by omega)) h₄ (.head (hin 16 (by omega)) h₅ (.refl _))))),
    spill_restore_added hrsp hdr hrd.1, rfl, rfl, rfl, rfl, fun a ha => Mem.write_of_out _ ha⟩

end Arm

/-! ## The relocated instructions -/

section Relocated

variable (m₀ : Mem) (addr : Word)

end Relocated

/-- A processor with a stack that is about to execute a block placed in an
otherwise empty memory. -/
def spillState (thumb : Bool) (mem : Mem) : State where
  gpr r := if r = SP then 0x1000#32 else 0#32
  pc := 0x9000#32
  thumb := thumb
  flags := ⟨false, true, false, false⟩
  mem := mem

end Relocate
