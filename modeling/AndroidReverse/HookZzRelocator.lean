import AndroidReverse.HookZzWriter

/-!
# The relocators of HookZz

`relocator-arm.c` and `relocator-thumb.c`. A relocator reads instructions with
one cursor and writes them with another: every instruction becomes a block of
the output, rewritten if it depends on where it stands and copied otherwise,
and a record says from which emission to which its block reaches.

The blocks of branches and literal loads carry a literal, the address the
instruction refers to. If that address is in the moved code itself the block
has to refer to the copy, so the literals are registered while they are
written, and a last pass over the buffer replaces those that point into the
prologue (`AndroidReverse.HookZzRedirect`).

The source declares the same structure twice, once for each instruction set.
It points to the reader and the writer, which nobody else writes to while the
relocator runs, so here it holds them.
-/

namespace HookZz

open Arm

/-- `ZzARMRelocatorInstruction`. -/
structure RelocatorInstruction where
  /-- The instruction that was read. -/
  originInsn : ARMInstruction
  /-- The first emission of its block: a pointer into the output's list, here
  the index it points to. -/
  relocatedInsns : ℕ
  /-- The number of emissions before the block. -/
  outputIndexStart : ℕ
  /-- The number of emissions up to its end. -/
  ouputIndexEnd : ℕ
  /-- The number of emissions of the block. -/
  relocatedInsnSize : ℕ
  /-- The size of the block in bytes; the Thumb relocator leaves it alone. -/
  size : ℕ
deriving DecidableEq, Repr

/-- `ZzARMRelocator` and `ZzThumbRelocator`. -/
structure Relocator where
  /-- Where the blocks go. -/
  output : AssemblerWriter
  /-- Where the instructions come from. -/
  input : ARMReader
  /-- The number of instructions read. -/
  inpos : ℕ
  /-- The number of instructions written. -/
  outpos : ℕ
  /-- The emissions that are registered as literals. -/
  literalInsns : List ARMInstruction
  /-- The blocks. -/
  relocatorInsns : List RelocatorInstruction
deriving DecidableEq, Repr

namespace Relocator

/-- `zz_arm_relocator_init` and `zz_thumb_relocator_init`: everything is
cleared. -/
def init (input : ARMReader) (output : AssemblerWriter) : Relocator where
  output := output
  input := input
  inpos := 0
  outpos := 0
  literalInsns := []
  relocatorInsns := []

/-- `zz_arm_relocator_reset` and `zz_thumb_relocator_reset`: the blocks
stay. -/
def reset (self : Relocator) (input : ARMReader) (output : AssemblerWriter) : Relocator :=
  { self with inpos := 0, outpos := 0, input := input, output := output, literalInsns := [] }

/-- `zz_arm_relocator_register_literal_insn` and its Thumb twin, for the last
emission: the argument is always `output->insns[output->insn_size - 1]`. -/
def registerLiteralInsn (self : Relocator) : Relocator :=
  { self with literalInsns := self.literalInsns ++ self.output.insns.getLast?.toList }

/-- A relocator whose output goes on. -/
def write (self : Relocator) (f : AssemblerWriter → AssemblerWriter) : Relocator :=
  { self with output := f self.output }

/-! ## The ARM relocator -/

/-- `zz_arm_relocator_read_one`. -/
def armReadOne (mem : Mem) (self : Relocator) : Relocator :=
  { self with input := armReaderReadOneInstruction mem self.input, inpos := self.inpos + 1 }

/-- `zz_arm_relocator_rewrite_ADD_register_A1`; `none` is its answer
`FALSE`. -/
def armRewriteAddRegisterA1 (self : Relocator) (insnCtx : ARMInstruction) : Option Relocator :=
  let insn := insnCtx.insn
  let rnNdx := getInsnSub insn 16 4
  if rnNdx ≠ 15#32 then none
  else
    let self := self.write (·.armPutPushReg 7#4)
    let self := self.write (·.armPutLdrBRegAddress 7#4 insnCtx.pc)
    let self := self.write (·.armPutInstruction ((insn &&& 0xFFF0FFFF#32) ||| (7#32 <<< 16)))
    some (self.write (·.armPutPopReg 7#4))

/-- `zz_arm_relocator_rewrite_LDR_literal_A1`. -/
def armRewriteLdrLiteralA1 (self : Relocator) (insnCtx : ARMInstruction) : Option Relocator :=
  let insn := insnCtx.insn
  let imm32 := getInsnSub insn 0 12
  let add := getInsnSub insn (7 + 16) 1 = 1#32
  let targetAddress := if add then insnCtx.pc + imm32 else insnCtx.pc - imm32
  let rtNdx : Reg := (getInsnSub insn 12 4).setWidth 4
  let self := (self.write (·.armPutLdrBRegAddress rtNdx targetAddress)).registerLiteralInsn
  some (self.write (·.armPutLdrRegRegImm rtNdx rtNdx 0))

/-- `zz_arm_relocator_rewrite_ADR_A1`. -/
def armRewriteAdrA1 (self : Relocator) (insnCtx : ARMInstruction) : Option Relocator :=
  let insn := insnCtx.insn
  let imm32 := getInsnSub insn 0 12
  let targetAddress := insnCtx.pc + imm32
  let rtNdx : Reg := (getInsnSub insn 12 4).setWidth 4
  some (self.write (·.armPutLdrBRegAddress rtNdx targetAddress))

/-- `zz_arm_relocator_rewrite_ADR_A2`. -/
def armRewriteAdrA2 (self : Relocator) (insnCtx : ARMInstruction) : Option Relocator :=
  let insn := insnCtx.insn
  let imm32 := getInsnSub insn 0 12
  let targetAddress := insnCtx.pc - imm32
  let rtNdx : Reg := (getInsnSub insn 12 4).setWidth 4
  some (self.write (·.armPutLdrBRegAddress rtNdx targetAddress))

/-- `zz_arm_relocator_rewrite_B_A1`. -/
def armRewriteBA1 (self : Relocator) (insnCtx : ARMInstruction) : Option Relocator :=
  let insn := insnCtx.insn
  let imm32 := getInsnSub insn 0 24 <<< 2
  let targetAddress := insnCtx.pc + imm32
  let self := self.write (·.armPutInstruction ((insn &&& 0xFF000000#32) ||| 0#32))
  let self := self.write (·.armPutBImm 0x4#32)
  some (self.write (·.armPutLdrRegAddress PC targetAddress)).registerLiteralInsn

/-- `zz_arm_relocator_rewrite_BLBLX_immediate_A1`. -/
def armRewriteBlblxImmediateA1 (self : Relocator) (insnCtx : ARMInstruction) : Option Relocator :=
  let insn := insnCtx.insn
  let imm32 := getInsnSub insn 0 24 <<< 2
  let targetAddress := align4 insnCtx.pc + imm32
  let self := self.write
    (·.armPutInstruction ((insn &&& 0xF0000000#32) ||| (0b1010#32 <<< 24) ||| 0#32))
  let self := self.write (·.armPutBImm 0#32)
  let self := (self.write (·.armPutLdrBRegAddress LR (insnCtx.pc - 4#32))).registerLiteralInsn
  some (self.write (·.armPutLdrRegAddress PC targetAddress)).registerLiteralInsn

/-- `zz_arm_relocator_rewrite_BLBLX_immediate_A2`. -/
def armRewriteBlblxImmediateA2 (self : Relocator) (insnCtx : ARMInstruction) : Option Relocator :=
  let insn := insnCtx.insn
  let H := getInsnSub insn 24 1
  let imm32 := (getInsnSub insn 0 24 <<< 2) ||| (H <<< 1)
  let targetAddress := insnCtx.pc + imm32
  let self := (self.write (·.armPutLdrBRegAddress LR (insnCtx.pc - 4#32))).registerLiteralInsn
  some (self.write (·.armPutLdrRegAddress PC targetAddress)).registerLiteralInsn

/-- The `switch` of `zz_arm_relocator_write_one`. -/
def armRewrite (self : Relocator) (insnCtx : ARMInstruction) : Option Relocator :=
  match getARMInsnType insnCtx.insn with
  | .addRegisterA1 => self.armRewriteAddRegisterA1 insnCtx
  | .ldrLiteralA1 => self.armRewriteLdrLiteralA1 insnCtx
  | .adrA1 => self.armRewriteAdrA1 insnCtx
  | .adrA2 => self.armRewriteAdrA2 insnCtx
  | .bA1 => self.armRewriteBA1 insnCtx
  | .blblxImmediateA1 => self.armRewriteBlblxImmediateA1 insnCtx
  | .blblxImmediateA2 => self.armRewriteBlblxImmediateA2 insnCtx
  | .undef => none

/-- The bytes of a copied instruction: `(char *)&insn_ctx->insn,
insn_ctx->size`. -/
def insnBytes (insnCtx : ARMInstruction) : List Half :=
  (addressBytes insnCtx.insn).take (insnCtx.size / 2)

/-- `zz_arm_relocator_write_one`; `none` is its answer `FALSE`. -/
def armWriteOne (self : Relocator) : Option Relocator :=
  if self.inpos = self.outpos then none
  else
    (self.input.insns[self.outpos]?).map fun insnCtx =>
      let start := self.output.insns.length
      let tmpSize := self.output.size
      let self := { self with outpos := self.outpos + 1 }
      let self := (self.armRewrite insnCtx).getD
        (self.write (·.armPutBytes (insnBytes insnCtx)))
      { self with
        relocatorInsns := self.relocatorInsns ++ [{
          originInsn := insnCtx
          relocatedInsns := start
          outputIndexStart := start
          ouputIndexEnd := self.output.insns.length
          relocatedInsnSize := self.output.insns.length - start
          size := self.output.size - tmpSize }] }

/-! ## The Thumb relocator -/

/-- `zz_thumb_relocator_read_one`. -/
def thumbReadOne (mem : Mem) (self : Relocator) : Relocator :=
  { self with input := thumbReaderReadOneInstruction mem self.input, inpos := self.inpos + 1 }

/-- The immediate of `CBZ` and `CBNZ`. -/
def cbImm32 (insn1 : Word) : Word :=
  let i := getInsnSub insn1 9 1
  let imm5 := getInsnSub insn1 3 5
  (imm5 <<< 1) ||| (i <<< (5 + 1))

/-- `zz_thumb_relocator_rewrite_CBNZ_CBZ`. -/
def thumbRewriteCbnzCbz (self : Relocator) (insnCtx : ARMInstruction) : Option Relocator :=
  let insn1 := insnCtx.insn1.setWidth 32
  let targetAddress := insnCtx.pc + cbImm32 insn1
  let self := if self.output.offWord then self.write (·.thumbPutNop) else self
  let self := self.write (·.thumbPutInstruction ((insn1 &&& 0b1111110100000111#32) ||| 0#32))
  let self := self.write (·.thumbPutBImm 0x6#32)
  some (self.write (·.thumbPutLdrRegAddress PC (targetAddress + 1#32))).registerLiteralInsn

/-- `zz_thumb_relocator_rewrite_ADD_register_T2`. -/
def thumbRewriteAddRegisterT2 (self : Relocator) (insnCtx : ARMInstruction) : Option Relocator :=
  let insn1 := insnCtx.insn1.setWidth 32
  let rmNdx := getInsnSub insn1 3 4
  if rmNdx ≠ 15#32 then none
  else
    let self := self.write (·.thumbPutPushReg 7#4)
    let self := self.write (·.thumbPutLdrBRegAddress 7#4 insnCtx.pc)
    let self := self.write
      (·.thumbPutInstruction ((insn1 &&& 0b1111111110000111#32) ||| (7#32 <<< 3)))
    some (self.write (·.thumbPutPopReg 7#4))

/-- `zz_thumb_relocator_rewrite_LDR_literal_T1`. -/
def thumbRewriteLdrLiteralT1 (self : Relocator) (insnCtx : ARMInstruction) : Option Relocator :=
  let insn1 := insnCtx.insn1.setWidth 32
  let imm8 := getInsnSub insn1 0 8
  let imm32 := imm8 <<< 2
  let targetAddress := align4 insnCtx.pc + imm32
  let rtNdx : Reg := (getInsnSub insn1 8 3).setWidth 4
  let self := (self.write (·.thumbPutLdrBRegAddress rtNdx targetAddress)).registerLiteralInsn
  some (self.write (·.thumbPutLdrRegRegOffset rtNdx rtNdx 0))

/-- `zz_thumb_relocator_rewrite_LDR_literal_T2`. -/
def thumbRewriteLdrLiteralT2 (self : Relocator) (insnCtx : ARMInstruction) : Option Relocator :=
  let insn1 := insnCtx.insn1.setWidth 32
  let insn2 := insnCtx.insn2.setWidth 32
  let imm32 := getInsnSub insn2 0 12
  let add := getInsnSub insn1 7 1 = 1#32
  let targetAddress := if add then align4 insnCtx.pc + imm32 else align4 insnCtx.pc - imm32
  let rtNdx : Reg := (getInsnSub insn2 12 4).setWidth 4
  let self := (self.write (·.thumbPutLdrBRegAddress rtNdx targetAddress)).registerLiteralInsn
  some (self.write (·.thumbPutLdrRegRegOffset rtNdx rtNdx 0))

/-- `zz_thumb_relocator_rewrite_ADR_T1`. -/
def thumbRewriteAdrT1 (self : Relocator) (insnCtx : ARMInstruction) : Option Relocator :=
  let insn1 := insnCtx.insn1.setWidth 32
  let imm8 := getInsnSub insn1 0 8
  let imm32 := imm8 <<< 2
  let targetAddress := insnCtx.pc + imm32
  let rtNdx : Reg := (getInsnSub insn1 8 3).setWidth 4
  some (self.write (·.thumbPutLdrBRegAddress rtNdx targetAddress))

/-- The immediate of `ADR.W` as both of its rewriters assemble it. -/
def adrImm32 (insn1 insn2 : Word) : Word :=
  getInsnSub insn2 0 8 ||| (getInsnSub insn2 12 3 <<< 8) ||| (getInsnSub insn1 10 1 <<< (3 + 8))

/-- `zz_thumb_relocator_rewrite_ADR_T2`. -/
def thumbRewriteAdrT2 (self : Relocator) (insnCtx : ARMInstruction) : Option Relocator :=
  let insn1 := insnCtx.insn1.setWidth 32
  let insn2 := insnCtx.insn2.setWidth 32
  let targetAddress := insnCtx.pc - adrImm32 insn1 insn2
  let rtNdx : Reg := (getInsnSub insn2 8 4).setWidth 4
  some (self.write (·.thumbPutLdrBRegAddress rtNdx targetAddress))

/-- `zz_thumb_relocator_rewrite_ADR_T3`. -/
def thumbRewriteAdrT3 (self : Relocator) (insnCtx : ARMInstruction) : Option Relocator :=
  let insn1 := insnCtx.insn1.setWidth 32
  let insn2 := insnCtx.insn2.setWidth 32
  let targetAddress := insnCtx.pc + adrImm32 insn1 insn2
  let rtNdx : Reg := (getInsnSub insn2 8 4).setWidth 4
  some (self.write (·.thumbPutLdrBRegAddress rtNdx targetAddress))

/-- `zz_thumb_relocator_rewrite_B_T1`. -/
def thumbRewriteBT1 (self : Relocator) (insnCtx : ARMInstruction) : Option Relocator :=
  let insn1 := insnCtx.insn1.setWidth 32
  let imm8 := getInsnSub insn1 0 8
  let imm32 := imm8 <<< 1
  let targetAddress := insnCtx.pc + imm32
  let self := if self.output.offWord then self.write (·.thumbPutNop) else self
  let self := self.write (·.thumbPutInstruction ((insn1 &&& 0xFF00#32) ||| 0#32))
  let self := self.write (·.thumbPutBImm 0x6#32)
  some (self.write (·.thumbPutLdrRegAddress PC (targetAddress + 1#32))).registerLiteralInsn

/-- `zz_thumb_relocator_rewrite_B_T2`. -/
def thumbRewriteBT2 (self : Relocator) (insnCtx : ARMInstruction) : Option Relocator :=
  let insn1 := insnCtx.insn1.setWidth 32
  let imm11 := getInsnSub insn1 0 11
  let imm32 := imm11 <<< 1
  let targetAddress := insnCtx.pc + imm32
  some (self.write (·.thumbPutLdrRegAddress PC (targetAddress + 1#32))).registerLiteralInsn

/-- The immediate of `B<c>.W`. -/
def bT3Imm32 (insn1 insn2 : Word) : Word :=
  let S := getInsnSub insn1 10 1
  let J2 := getInsnSub insn2 11 1
  let J1 := getInsnSub insn2 13 1
  let imm6 := getInsnSub insn1 0 6
  let imm11 := getInsnSub insn2 0 11
  (imm11 <<< 1) ||| (imm6 <<< (1 + 11)) ||| (J1 <<< (1 + 11 + 6))
    ||| (J2 <<< (1 + 11 + 6 + 1)) ||| (S <<< (1 + 11 + 6 + 1 + 1))

/-- `zz_thumb_relocator_rewrite_B_T3`, which registers no literal. -/
def thumbRewriteBT3 (self : Relocator) (insnCtx : ARMInstruction) : Option Relocator :=
  let insn1 := insnCtx.insn1.setWidth 32
  let insn2 := insnCtx.insn2.setWidth 32
  let targetAddress := insnCtx.pc + bT3Imm32 insn1 insn2
  let self := if self.output.offWord then self else self.write (·.thumbPutNop)
  let self := self.write (·.thumbPutInstruction (insn1 &&& 0b1111101111000000#32))
  let self := self.write (·.thumbPutInstruction ((insn2 &&& 0b1101000000000000#32) ||| 0b1#32))
  let self := self.write (·.thumbPutBImm 0x6#32)
  some (self.write (·.thumbPutLdrRegAddress PC (targetAddress + 1#32)))

/-- The immediate of a long branch, from its sign, its two `J` bits and the
rest of it. -/
def longBranchImm32 (S J1 J2 low high : Word) : Word :=
  let I1 := ~~~(J1 ^^^ S) &&& 0x1#32
  let I2 := ~~~(J2 ^^^ S) &&& 0x1#32
  low ||| high ||| (I1 <<< (1 + 11 + 6)) ||| (I2 <<< (1 + 11 + 6 + 1))
    ||| (S <<< (1 + 11 + 6 + 1 + 1))

/-- The immediate of `B.W` and of `BL`; the bit of `S` is not the same in
both. -/
def branchImm32 (bitS : ℕ) (insn1 insn2 : Word) : Word :=
  let S := getInsnSub insn1 bitS 1
  let J2 := getInsnSub insn2 11 1
  let J1 := getInsnSub insn2 13 1
  let imm10 := getInsnSub insn1 0 10
  let imm11 := getInsnSub insn2 0 11
  longBranchImm32 S J1 J2 (imm11 <<< 1) (imm10 <<< (1 + 11))

/-- The immediate of `BLX`. -/
def blxImm32 (insn1 insn2 : Word) : Word :=
  let S := getInsnSub insn1 10 1
  let J2 := getInsnSub insn2 11 1
  let J1 := getInsnSub insn2 13 1
  let imm10_1 := getInsnSub insn1 0 10
  let imm10_2 := getInsnSub insn2 1 10
  longBranchImm32 S J1 J2 (imm10_2 <<< 2) (imm10_1 <<< (2 + 10))

/-- `zz_thumb_relocator_rewrite_B_T4`, which looks for `S` above the
halfword. -/
def thumbRewriteBT4 (self : Relocator) (insnCtx : ARMInstruction) : Option Relocator :=
  let insn1 := insnCtx.insn1.setWidth 32
  let insn2 := insnCtx.insn2.setWidth 32
  let targetAddress := insnCtx.pc + branchImm32 (10 + 16) insn1 insn2
  some (self.write (·.thumbPutLdrRegAddress PC (targetAddress + 1#32))).registerLiteralInsn

/-- `zz_thumb_relocator_rewrite_BLBLX_immediate_T1`, which registers the
return address twice and the target not at all. -/
def thumbRewriteBlblxImmediateT1 (self : Relocator) (insnCtx : ARMInstruction) :
    Option Relocator :=
  let insn1 := insnCtx.insn1.setWidth 32
  let insn2 := insnCtx.insn2.setWidth 32
  let targetAddress := insnCtx.pc + branchImm32 10 insn1 insn2
  let self := (self.write (·.thumbPutLdrBRegAddress LR (insnCtx.pc + 1#32))).registerLiteralInsn
  let self := self.registerLiteralInsn
  some (self.write (·.thumbPutLdrRegAddress PC (targetAddress + 1#32)))

/-- `zz_thumb_relocator_rewrite_BLBLX_T2`. -/
def thumbRewriteBlblxT2 (self : Relocator) (insnCtx : ARMInstruction) : Option Relocator :=
  let insn1 := insnCtx.insn1.setWidth 32
  let insn2 := insnCtx.insn2.setWidth 32
  let targetAddress := align4 insnCtx.pc + blxImm32 insn1 insn2
  let self := (self.write (·.thumbPutLdrBRegAddress LR (insnCtx.pc + 1#32))).registerLiteralInsn
  some (self.write (·.thumbPutLdrRegAddress PC targetAddress)).registerLiteralInsn

/-- The `switch` of `zz_thumb_relocator_write_one`. -/
def thumbRewrite (self : Relocator) (insnCtx : ARMInstruction) : Option Relocator :=
  match getTHUMBInsnType insnCtx.insn1 insnCtx.insn2 with
  | .cbnzCbz => self.thumbRewriteCbnzCbz insnCtx
  | .addRegisterT2 => self.thumbRewriteAddRegisterT2 insnCtx
  | .ldrLiteralT1 => self.thumbRewriteLdrLiteralT1 insnCtx
  | .ldrLiteralT2 => self.thumbRewriteLdrLiteralT2 insnCtx
  | .adrT1 => self.thumbRewriteAdrT1 insnCtx
  | .adrT2 => self.thumbRewriteAdrT2 insnCtx
  | .adrT3 => self.thumbRewriteAdrT3 insnCtx
  | .bT1 => self.thumbRewriteBT1 insnCtx
  | .bT2 => self.thumbRewriteBT2 insnCtx
  | .bT3 => self.thumbRewriteBT3 insnCtx
  | .bT4 => self.thumbRewriteBT4 insnCtx
  | .blblxImmediateT1 => self.thumbRewriteBlblxImmediateT1 insnCtx
  | .blblxImmediateT2 => self.thumbRewriteBlblxT2 insnCtx
  | .undef => none

/-- `zz_thumb_relocator_write_one`; `none` is its answer `FALSE`. -/
def thumbWriteOne (self : Relocator) : Option Relocator :=
  if self.inpos = self.outpos then none
  else
    (self.input.insns[self.outpos]?).map fun insnCtx =>
      let start := self.output.insns.length
      let self := { self with outpos := self.outpos + 1 }
      let self := (self.thumbRewrite insnCtx).getD
        (self.write (·.thumbPutBytes (insnBytes insnCtx)))
      { self with
        relocatorInsns := self.relocatorInsns ++ [{
          originInsn := insnCtx
          relocatedInsns := start
          outputIndexStart := start
          ouputIndexEnd := self.output.insns.length
          relocatedInsnSize := self.output.insns.length - start
          size := 0 }] }

/-! ## Whole prologues -/

/-- The loop of the two `write_all`, which goes on until an instruction is not
written; it takes as many turns as there are instructions left. -/
def writeLoop (writeOne : Relocator → Option Relocator) : ℕ → Relocator → Relocator
  | 0, self => self
  | left + 1, self =>
    match writeOne self with
    | some r => writeLoop writeOne left r
    | none => self

/-- `zz_arm_relocator_write_all`. -/
def armWriteAll (self : Relocator) : Relocator :=
  writeLoop armWriteOne (self.inpos - self.outpos) self

/-- `zz_thumb_relocator_write_all`. -/
def thumbWriteAll (self : Relocator) : Relocator :=
  writeLoop thumbWriteOne (self.inpos - self.outpos) self

/-! ## Literals that point into the prologue -/

/-- The index of an emission in the buffer. -/
def bufferIndex (self : Relocator) (insnCtx : ARMInstruction) : ℕ :=
  (insnCtx.address - self.output.wStartAddress).toNat / 2

/-- `*(zz_addr_t *)insn->address`. -/
def literalAt (self : Relocator) (insnCtx : ARMInstruction) : Word :=
  let i := self.bufferIndex insnCtx
  self.output.buffer.getD (i + 1) 0 ++ self.output.buffer.getD i 0

/-- The same on the left of an assignment. -/
def setLiteralAt (self : Relocator) (insnCtx : ARMInstruction) (v : Word) : Relocator :=
  let i := self.bufferIndex insnCtx
  { self with output := { self.output with
      buffer := (self.output.buffer.set i (lowHalf v)).set (i + 1) (highHalf v) } }

/-- `get_relocator_insn_with_address`: the block of the instruction at an
address, where the program counter is `bias` ahead. -/
def getRelocatorInsnWithAddress (bias : Word) (self : Relocator) (insnAddress : Word) :
    Option RelocatorInstruction :=
  self.relocatorInsns.find? (fun r => r.originInsn.pc - bias == insnAddress)

/-- The turn of `relocate_writer` for one literal; `none` if its assertion
fails. -/
def relocateLiteral (bias finalRelocateAddress : Word) (self : Relocator)
    (insnCtx : ARMInstruction) : Option Relocator :=
  let v := self.literalAt insnCtx
  if self.input.startPc - bias < v ∧ v < self.input.startPc - bias + BitVec.ofNat 32 self.input.size
  then do
    let relocatedInsn ← self.getRelocatorInsnWithAddress bias v
    let insn ← self.output.insns[relocatedInsn.relocatedInsns]?
    some (self.setLiteralAt insnCtx (insn.pc - self.output.startPc + finalRelocateAddress))
  else some self

/-- `zz_arm_relocator_relocate_writer`. -/
def armRelocateWriter (self : Relocator) (finalRelocateAddress : Word) : Option Relocator :=
  self.literalInsns.foldlM (relocateLiteral 8#32 finalRelocateAddress) self

/-- `zz_thumb_relocator_relocate_writer`. -/
def thumbRelocateWriter (self : Relocator) (finalRelocateAddress : Word) : Option Relocator :=
  self.literalInsns.foldlM (relocateLiteral 4#32 finalRelocateAddress) self

end Relocator

end HookZz
