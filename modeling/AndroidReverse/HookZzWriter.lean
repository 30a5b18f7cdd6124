import AndroidReverse.HookZzInsn
import AndroidReverse.ArmBlocks

/-!
# Writing instructions

The assembler writers of HookZz, `writer-arm.c` and `writer-thumb.c`. Both
write through one structure – the source makes one type a name of the other –
so a Thumb writer can put ARM words, which the thunks rely on.

A writer has two cursors as well, the address it writes to and the value the
program counter will have there, and the two are not related: a block is
written to a buffer on the stack and copied to where it will run afterwards.
What it writes depends on the second one, and on that only through its
remainder by four. Everything it writes is a whole number of halfwords, so the
buffer is a list of them.

There are three primitives, and they differ in the bytes they write and in
what they note down about them; `put` is all three of them, with an `Emission`
for an argument. Every other function of the writers is a sequence of these,
and `emit` says what a sequence does.
-/

namespace HookZz

open Arm

/-- `ZzARMAssemblerWriter`, which is `ZzThumbAssemblerWriter` as well. -/
structure AssemblerWriter where
  /-- What has been written. -/
  insns : List ARMInstruction
  /-- Where writing began. -/
  wStartAddress : Word
  /-- Where it goes on. -/
  wCurrentAddress : Word
  /-- The program counter where writing began. -/
  startPc : Word
  /-- The program counter where it goes on. -/
  currentPc : Word
  /-- The number of bytes written. -/
  size : ℕ
  /-- What stands from `wStartAddress` on. -/
  buffer : List Half
deriving DecidableEq, Repr

/-! ## The primitives -/

/-- **What one primitive writes**: a 16-bit instruction, a word, or data. -/
inductive Emission where
  /-- An instruction of `zz_thumb_writer_put_instruction`. -/
  | thumb (insn : Half)
  /-- An instruction of `zz_arm_writer_put_instruction`. -/
  | arm (insn : Word)
  /-- The data of either `put_bytes`. -/
  | bytes (data : List Half)
deriving DecidableEq, Repr

namespace Emission

/-- The halfwords of an emission. -/
def halves : Emission → List Half
  | thumb insn => [insn]
  | arm insn => [lowHalf insn, highHalf insn]
  | bytes data => data

/-- The size of an emission in bytes. -/
def size (e : Emission) : ℕ := 2 * e.halves.length

/-- What the writer notes down about an emission. -/
def record (pc address : Word) : Emission → ARMInstruction
  | thumb insn => ⟨.thumbInsn, pc, address, 2, 0#32, insn, 0#16⟩
  | arm insn => ⟨.armInsn, pc, address, 4, insn, 0#16, 0#16⟩
  | bytes data => ⟨.unkownInsn, pc, address, 2 * data.length, 0#32, 0#16, 0#16⟩

end Emission

/-- The four bytes of a word as data: `(zz_ptr_t)&address, sizeof(zz_ptr_t)`. -/
def addressBytes (address : Word) : List Half := [lowHalf address, highHalf address]

namespace AssemblerWriter

/-- **One primitive.** -/
def put (self : AssemblerWriter) (e : Emission) : AssemblerWriter :=
  { self with
    buffer := self.buffer ++ e.halves
    wCurrentAddress := self.wCurrentAddress + BitVec.ofNat 32 e.size
    currentPc := self.currentPc + BitVec.ofNat 32 e.size
    size := self.size + e.size
    insns := self.insns ++ [e.record self.currentPc self.wCurrentAddress] }

/-- Whether the program counter is off a word boundary: the test
`self->current_pc % 4`. -/
def offWord (self : AssemblerWriter) : Bool := self.currentPc.toNat % 4 != 0

/-! ## The ARM writer -/

/-- `zz_arm_writer_reset`. -/
def armReset (dataPtr targetPtr : Word) : AssemblerWriter where
  wCurrentAddress := align4 dataPtr
  wStartAddress := align4 dataPtr
  currentPc := targetPtr + 8#32
  startPc := targetPtr + 8#32
  size := 0
  insns := []
  buffer := []

/-- `zz_arm_writer_put_bytes`. -/
def armPutBytes (self : AssemblerWriter) (data : List Half) : AssemblerWriter :=
  self.put (.bytes data)

/-- `zz_arm_writer_put_instruction`. -/
def armPutInstruction (self : AssemblerWriter) (insn : Word) : AssemblerWriter :=
  self.put (.arm insn)

/-- `zz_arm_writer_put_b_imm`. -/
def armPutBImm (self : AssemblerWriter) (imm : Word) : AssemblerWriter :=
  self.armPutInstruction (0xea000000#32 ||| ((imm / 4#32) &&& 0xffffff#32))

/-- A `bool` shifted to its place in an instruction. -/
def flag (b : Bool) (k : ℕ) : Word := (BitVec.ofBool b).setWidth 32 <<< k

/-- A register shifted to its place in an instruction. -/
def regAt (reg : Reg) (k : ℕ) : Word := reg.setWidth 32 <<< k

/-- `ABS` of an `int32_t`, as the bits of a word. -/
def absWord (imm : ℤ) : Word := BitVec.ofInt 32 (if imm < 0 then -imm else imm)

/-- `zz_arm_writer_put_ldr_reg_reg_imm_A1`. -/
def armPutLdrRegRegImmA1 (self : AssemblerWriter) (dstReg srcReg : Reg) (imm : Word)
    (P U W : Bool) : AssemblerWriter :=
  self.armPutInstruction (0xe4100000#32 ||| regAt dstReg 12 ||| regAt srcReg 16 ||| flag P 24
    ||| flag U 23 ||| flag W 21 ||| (imm &&& 0xfff#32))

/-- `zz_arm_writer_put_ldr_reg_imm_literal`. -/
def armPutLdrRegImmLiteral (self : AssemblerWriter) (dstReg : Reg) (imm : ℤ) : AssemblerWriter :=
  self.armPutInstruction (0xe51f0000#32 ||| flag (0 ≤ imm) 23 ||| regAt dstReg 12
    ||| (absWord imm &&& 0xfff#32))

/-- `zz_arm_writer_put_ldr_reg_reg_imm`. -/
def armPutLdrRegRegImm (self : AssemblerWriter) (dstReg srcReg : Reg) (imm : ℤ) :
    AssemblerWriter :=
  if srcReg = PC then self.armPutLdrRegImmLiteral dstReg imm
  else self.armPutLdrRegRegImmA1 dstReg srcReg (absWord imm) true (0 ≤ imm) false

/-- `zz_arm_writer_put_ldr_reg_reg_imm_index`. -/
def armPutLdrRegRegImmIndex (self : AssemblerWriter) (dstReg srcReg : Reg) (imm : ℤ)
    (index : Bool) : AssemblerWriter :=
  self.armPutLdrRegRegImmA1 dstReg srcReg (absWord imm) index (0 ≤ imm) index

/-- `zz_arm_writer_put_str_reg_reg_imm`. -/
def armPutStrRegRegImm (self : AssemblerWriter) (dstReg srcReg : Reg) (imm : ℤ) :
    AssemblerWriter :=
  self.armPutInstruction (0xe4000000#32 ||| regAt dstReg 12 ||| regAt srcReg 16 ||| flag true 24
    ||| flag (0 ≤ imm) 23 ||| flag false 21 ||| (BitVec.ofInt 32 imm &&& 0xfff#32))

/-- `zz_arm_writer_put_ldr_reg_address`. -/
def armPutLdrRegAddress (self : AssemblerWriter) (reg : Reg) (address : Word) : AssemblerWriter :=
  (self.armPutLdrRegRegImm reg PC (-4)).armPutBytes (addressBytes address)

/-- `zz_arm_writer_put_ldr_b_reg_address`. -/
def armPutLdrBRegAddress (self : AssemblerWriter) (reg : Reg) (address : Word) : AssemblerWriter :=
  ((self.armPutLdrRegRegImm reg PC 0).armPutBImm 0x0#32).armPutBytes (addressBytes address)

/-- `zz_arm_writer_put_add_reg_reg_imm`. -/
def armPutAddRegRegImm (self : AssemblerWriter) (dstReg srcReg : Reg) (imm : Word) :
    AssemblerWriter :=
  self.armPutInstruction (0xe2800000#32 ||| regAt dstReg 12 ||| regAt srcReg 16
    ||| (imm &&& 0xfff#32))

/-- `zz_arm_writer_put_sub_reg_reg_imm`. -/
def armPutSubRegRegImm (self : AssemblerWriter) (dstReg srcReg : Reg) (imm : Word) :
    AssemblerWriter :=
  self.armPutInstruction (0xe2400000#32 ||| regAt dstReg 12 ||| regAt srcReg 16
    ||| (imm &&& 0xfff#32))

/-- `zz_arm_writer_put_bx_reg`. -/
def armPutBxReg (self : AssemblerWriter) (reg : Reg) : AssemblerWriter :=
  self.armPutInstruction (0xe12fff10#32 ||| regAt reg 0)

/-- `zz_arm_writer_put_push_reg`. -/
def armPutPushReg (self : AssemblerWriter) (reg : Reg) : AssemblerWriter :=
  self.armPutInstruction (0b11100101001011010000000000000100#32 ||| regAt reg 12)

/-- `zz_arm_writer_put_pop_reg`. -/
def armPutPopReg (self : AssemblerWriter) (reg : Reg) : AssemblerWriter :=
  self.armPutInstruction (0b11100100100111010000000000000100#32 ||| regAt reg 12)

/-- `zz_arm_writer_put_bx_to_thumb`. -/
def armPutBxToThumb (self : AssemblerWriter) : AssemblerWriter :=
  let self := self.armPutSubRegRegImm SP SP 0x8#32
  let self := self.armPutStrRegRegImm 1#4 SP 0x0
  let self := self.armPutAddRegRegImm 1#4 PC 9#32
  let self := self.armPutStrRegRegImm 1#4 SP 0x4
  let self := self.armPutLdrRegRegImmIndex 1#4 SP 4 false
  self.armPutLdrRegRegImmIndex PC SP 4 false

/-- `zz_arm_writer_put_nop`. -/
def armPutNop (self : AssemblerWriter) : AssemblerWriter := self.armPutInstruction 0xe320f000#32

/-! ## The Thumb writer -/

/-- `zz_thumb_writer_reset`. -/
def thumbReset (dataPtr targetPtr : Word) : AssemblerWriter where
  wCurrentAddress := align4 dataPtr
  wStartAddress := align4 dataPtr
  currentPc := targetPtr + 4#32
  startPc := targetPtr + 4#32
  size := 0
  insns := []
  buffer := []

/-- `zz_thumb_writer_put_bytes`. -/
def thumbPutBytes (self : AssemblerWriter) (data : List Half) : AssemblerWriter :=
  self.put (.bytes data)

/-- `zz_thumb_writer_put_instruction`, with the truncation of its argument. -/
def thumbPutInstruction (self : AssemblerWriter) (insn : Word) : AssemblerWriter :=
  self.put (.thumb (insn.setWidth 16))

/-- `zz_thumb_writer_put_nop`. -/
def thumbPutNop (self : AssemblerWriter) : AssemblerWriter := self.thumbPutInstruction 0x46c0#32

/-- `zz_thumb_writer_put_b_imm`. -/
def thumbPutBImm (self : AssemblerWriter) (imm : Word) : AssemblerWriter :=
  self.thumbPutInstruction (0xe000#32 ||| ((imm / 2#32) &&& 0x7ff#32))

/-- `zz_thumb_writer_put_bx_reg`. -/
def thumbPutBxReg (self : AssemblerWriter) (reg : Reg) : AssemblerWriter :=
  let self := if self.offWord then self.thumbPutNop else self
  (self.thumbPutInstruction (0x4700#32 ||| regAt reg 3)).thumbPutNop

/-- `zz_thumb_writer_put_blx_reg`. -/
def thumbPutBlxReg (self : AssemblerWriter) (reg : Reg) : AssemblerWriter :=
  self.thumbPutInstruction (0x4780#32 ||| regAt reg 3)

/-- `zz_thumb_writer_put_branch_imm`. The distance is the argument halved as a
signed integer, towards zero. -/
def thumbPutBranchImm (self : AssemblerWriter) (imm : Word) (link thumb : Bool) :
    AssemblerWriter :=
  let distance : Word := BitVec.ofInt 32 (imm.toInt.tdiv 2)
  let s := (distance >>> 31) &&& 1#32
  let j1 := ~~~((distance >>> 22) ^^^ s) &&& 1#32
  let j2 := ~~~((distance >>> 21) ^^^ s) &&& 1#32
  let imm10 := (distance >>> 11) &&& 0x3ff#32
  let imm11 := distance &&& 0x7ff#32
  (self.thumbPutInstruction (0xf000#32 ||| (s <<< 10) ||| imm10)).thumbPutInstruction
    (0x8000#32 ||| flag link 14 ||| (j1 <<< 13) ||| flag thumb 12 ||| (j2 <<< 11) ||| imm11)

/-- `zz_thumb_writer_put_bl_imm`. -/
def thumbPutBlImm (self : AssemblerWriter) (imm : Word) : AssemblerWriter :=
  self.thumbPutBranchImm imm true true

/-- `zz_thumb_writer_put_blx_imm`. -/
def thumbPutBlxImm (self : AssemblerWriter) (imm : Word) : AssemblerWriter :=
  self.thumbPutBranchImm imm true false

/-- `zz_thumb_writer_put_b_imm32`. -/
def thumbPutBImm32 (self : AssemblerWriter) (imm : Word) : AssemblerWriter :=
  self.thumbPutBranchImm imm false true

/-- `zz_thumb_writer_put_ldr_reg_imm`. -/
def thumbPutLdrRegImm (self : AssemblerWriter) (reg : Reg) (imm : ℤ) : AssemblerWriter :=
  if reg ≤ 7#4 ∧ 0 ≤ imm ∧ imm < 1024 then
    self.thumbPutInstruction
      (0x4800#32 ||| regAt reg 8 ||| (BitVec.ofInt 32 (imm.tdiv 4) &&& 0xff#32))
  else if imm < 4096 then
    (self.thumbPutInstruction (0xf85f#32 ||| flag (0 ≤ imm) 7)).thumbPutInstruction
      (regAt reg 12 ||| absWord imm)
  else self

/-- `zz_thumb_writer_put_ldr_b_reg_address`. -/
def thumbPutLdrBRegAddress (self : AssemblerWriter) (reg : Reg) (address : Word) :
    AssemblerWriter :=
  let self :=
    if self.offWord then
      if reg ≤ 7#4 then (self.thumbPutLdrRegImm reg 0x4).thumbPutNop
      else self.thumbPutLdrRegImm reg 0x4
    else
      if reg ≤ 7#4 then self.thumbPutLdrRegImm reg 0x0
      else (self.thumbPutLdrRegImm reg 0x4).thumbPutNop
  (self.thumbPutBImm 0x2#32).thumbPutBytes (addressBytes address)

/-- `zz_thumb_writer_put_ldr_reg_address`. -/
def thumbPutLdrRegAddress (self : AssemblerWriter) (reg : Reg) (address : Word) :
    AssemblerWriter :=
  let self :=
    if self.offWord then
      if reg ≤ 7#4 then self.thumbPutLdrRegImm reg 0x0
      else (self.thumbPutLdrRegImm reg 0x4).thumbPutNop
    else
      if reg ≤ 7#4 then (self.thumbPutLdrRegImm reg 0x0).thumbPutNop
      else self.thumbPutLdrRegImm reg 0x0
  self.thumbPutBytes (addressBytes address)

/-- The `enum ZzThumbMemoryOperation`. -/
inductive ThumbMemoryOperation where
  | load
  | store
deriving DecidableEq, Repr

/-- The bits a load adds to the encoding of the store. -/
def ThumbMemoryOperation.bits (operation : ThumbMemoryOperation) (bit : Word) : Word :=
  match operation with
  | .load => bit
  | .store => 0#32

/-- `zz_thumb_writer_put_transfer_reg_reg_offset_T1`, with its answer. -/
def thumbPutTransferT1 (self : AssemblerWriter) (operation : ThumbMemoryOperation)
    (leftReg rightReg : Reg) (rightOffset : ℤ) : AssemblerWriter × Bool :=
  if rightOffset < 0 then (self, false)
  else if leftReg ≤ 7#4 ∧ rightReg ≤ 7#4 ∧ rightOffset < 128 then
    (self.thumbPutInstruction ((0x6000#32 ||| (BitVec.ofInt 32 (rightOffset.tdiv 4) <<< 6)
      ||| regAt rightReg 3 ||| regAt leftReg 0) ||| operation.bits 0x0800#32), true)
  else (self, false)

/-- `zz_thumb_writer_put_transfer_reg_reg_offset_T2`, with its answer. -/
def thumbPutTransferT2 (self : AssemblerWriter) (operation : ThumbMemoryOperation)
    (leftReg rightReg : Reg) (rightOffset : ℤ) : AssemblerWriter × Bool :=
  if rightOffset < 0 then (self, false)
  else if rightReg = SP ∧ leftReg ≤ 7#4 ∧ rightOffset < 1024 then
    (self.thumbPutInstruction ((0x9000#32 ||| regAt leftReg 8
      ||| BitVec.ofInt 32 (rightOffset.tdiv 4)) ||| operation.bits 0x0800#32), true)
  else (self, false)

/-- `zz_thumb_writer_put_transfer_reg_reg_offset_T3`, with its answer. -/
def thumbPutTransferT3 (self : AssemblerWriter) (operation : ThumbMemoryOperation)
    (leftReg rightReg : Reg) (rightOffset : ℤ) : AssemblerWriter × Bool :=
  if rightOffset < 0 then (self, false)
  else if rightOffset < 4096 then
    let self := if rightReg = PC then self.thumbPutLdrRegImm leftReg rightOffset else self
    ((self.thumbPutInstruction (0xf8c0#32 ||| operation.bits 0x0010#32
      ||| regAt rightReg 0)).thumbPutInstruction
        (regAt leftReg 12 ||| BitVec.ofInt 32 rightOffset), true)
  else (self, false)

/-- `zz_thumb_writer_put_transfer_reg_reg_offset_T4`, with its answer. -/
def thumbPutTransferT4 (self : AssemblerWriter) (operation : ThumbMemoryOperation)
    (leftReg rightReg : Reg) (rightOffset : ℤ) (index wback : Bool) : AssemblerWriter × Bool :=
  if rightOffset.natAbs < 256 then
    if rightReg = PC then (self.thumbPutLdrRegImm leftReg rightOffset, false)
    else
      ((self.thumbPutInstruction (0xf840#32 ||| operation.bits 0x0010#32
        ||| regAt rightReg 0)).thumbPutInstruction
          (0x0800#32 ||| regAt leftReg 12 ||| flag index 10 ||| flag (0 < rightOffset) 9
            ||| flag wback 8 ||| absWord rightOffset), true)
  else (self, false)

/-- `zz_thumb_writer_put_transfer_reg_reg_offset`: the first form that fits. -/
def thumbPutTransfer (self : AssemblerWriter) (operation : ThumbMemoryOperation)
    (leftReg rightReg : Reg) (rightOffset : ℤ) : AssemblerWriter :=
  let t1 := self.thumbPutTransferT1 operation leftReg rightReg rightOffset
  if t1.2 then t1.1
  else
    let t2 := t1.1.thumbPutTransferT2 operation leftReg rightReg rightOffset
    if t2.2 then t2.1
    else
      let t3 := t2.1.thumbPutTransferT3 operation leftReg rightReg rightOffset
      if t3.2 then t3.1
      else (t3.1.thumbPutTransferT4 operation leftReg rightReg rightOffset true false).1

/-- `zz_thumb_writer_put_ldr_reg_reg_offset`. -/
def thumbPutLdrRegRegOffset (self : AssemblerWriter) (dstReg srcReg : Reg) (srcOffset : ℤ) :
    AssemblerWriter :=
  self.thumbPutTransfer .load dstReg srcReg srcOffset

/-- `zz_thumb_writer_put_str_reg_reg_offset`. -/
def thumbPutStrRegRegOffset (self : AssemblerWriter) (srcReg dstReg : Reg) (dstOffset : ℤ) :
    AssemblerWriter :=
  self.thumbPutTransfer .store srcReg dstReg dstOffset

/-- `zz_thumb_writer_put_ldr_index_reg_reg_offset`. -/
def thumbPutLdrIndexRegRegOffset (self : AssemblerWriter) (dstReg srcReg : Reg) (srcOffset : ℤ)
    (index : Bool) : AssemblerWriter :=
  (self.thumbPutTransferT4 .load dstReg srcReg srcOffset index true).1

/-- `zz_thumb_writer_put_str_index_reg_reg_offset`. -/
def thumbPutStrIndexRegRegOffset (self : AssemblerWriter) (srcReg dstReg : Reg) (dstOffset : ℤ)
    (index : Bool) : AssemblerWriter :=
  (self.thumbPutTransferT4 .store srcReg dstReg dstOffset index true).1

/-- `zz_thumb_writer_put_str_reg_reg`. -/
def thumbPutStrRegReg (self : AssemblerWriter) (srcReg dstReg : Reg) : AssemblerWriter :=
  self.thumbPutStrRegRegOffset srcReg dstReg 0

/-- `zz_thumb_writer_put_ldr_reg_reg`. -/
def thumbPutLdrRegReg (self : AssemblerWriter) (dstReg srcReg : Reg) : AssemblerWriter :=
  self.thumbPutLdrRegRegOffset dstReg srcReg 0

/-- `zz_thumb_writer_put_add_reg_imm`. -/
def thumbPutAddRegImm (self : AssemblerWriter) (dstReg : Reg) (imm : ℤ) : AssemblerWriter :=
  if dstReg = SP then
    self.thumbPutInstruction (0xb000#32 ||| (if imm < 0 then 0x0080#32 else 0x0000#32)
      ||| absWord (imm.tdiv 4))
  else
    self.thumbPutInstruction (0x3000#32 ||| (if imm < 0 then 0x0800#32 else 0x0000#32)
      ||| regAt dstReg 8 ||| absWord imm)

/-- `zz_thumb_writer_put_sub_reg_imm`. -/
def thumbPutSubRegImm (self : AssemblerWriter) (dstReg : Reg) (imm : ℤ) : AssemblerWriter :=
  self.thumbPutAddRegImm dstReg (-imm)

/-- `zz_thumb_writer_put_add_reg_reg_imm`. -/
def thumbPutAddRegRegImm (self : AssemblerWriter) (dstReg leftReg : Reg) (rightValue : ℤ) :
    AssemblerWriter :=
  if leftReg = dstReg then self.thumbPutAddRegImm dstReg rightValue
  else if dstReg ≤ 7#4 ∧ leftReg ≤ 7#4 ∧ rightValue.natAbs < 8 then
    self.thumbPutInstruction (0x1c00#32 ||| (if rightValue < 0 then 1#32 <<< 9 else 0#32)
      ||| (absWord rightValue <<< 6) ||| regAt leftReg 3 ||| regAt dstReg 0)
  else if (leftReg = SP ∨ leftReg = PC) ∧ dstReg ≤ 7#4 ∧ 0 < rightValue ∧ rightValue % 4 = 0
      ∧ rightValue < 256 then
    self.thumbPutInstruction (0xa000#32 ||| (if leftReg = SP then 0x0800#32 else 0x0000#32)
      ||| regAt dstReg 8 ||| BitVec.ofInt 32 (rightValue.tdiv 4))
  else
    let i := (absWord rightValue >>> 11) &&& 0x1#32
    let imm3 := (absWord rightValue >>> 8) &&& 0b111#32
    let imm8 := absWord rightValue &&& 0b11111111#32
    (self.thumbPutInstruction
      ((if rightValue < 0 then 0b1111001010100000#32 else 0b1111001000000000#32)
        ||| (i <<< 10) ||| regAt leftReg 0)).thumbPutInstruction
      (0b0#32 ||| (imm3 <<< 12) ||| regAt dstReg 8 ||| imm8)

/-- `zz_thumb_writer_put_sub_reg_reg_imm`. -/
def thumbPutSubRegRegImm (self : AssemblerWriter) (dstReg leftReg : Reg) (rightValue : ℤ) :
    AssemblerWriter :=
  self.thumbPutAddRegRegImm dstReg leftReg (-rightValue)

/-- `zz_thumb_writer_put_push_reg`. -/
def thumbPutPushReg (self : AssemblerWriter) (reg : Reg) : AssemblerWriter :=
  self.thumbPutInstruction (0b1011010000000000#32 ||| (0#32 <<< 8) ||| (1#32 <<< reg.toNat))

/-- `zz_thumb_writer_put_pop_reg`. -/
def thumbPutPopReg (self : AssemblerWriter) (reg : Reg) : AssemblerWriter :=
  self.thumbPutInstruction (0b1011110000000000#32 ||| (0#32 <<< 8) ||| (1#32 <<< reg.toNat))

/-- `zz_thumb_writer_put_add_reg_reg_reg`. -/
def thumbPutAddRegRegReg (self : AssemblerWriter) (dstReg leftReg rightReg : Reg) :
    AssemblerWriter :=
  self.thumbPutInstruction (0b0001100000000000#32 ||| regAt rightReg 6 ||| regAt leftReg 3
    ||| regAt dstReg 0)

/-- **Which form a transfer takes.** -/
theorem thumbPutTransfer_eq (self : AssemblerWriter) (operation : ThumbMemoryOperation)
    (leftReg rightReg : Reg) (rightOffset : ℤ) :
    self.thumbPutTransfer operation leftReg rightReg rightOffset
      = if 0 ≤ rightOffset ∧ leftReg ≤ 7#4 ∧ rightReg ≤ 7#4 ∧ rightOffset < 128 then
          (self.thumbPutTransferT1 operation leftReg rightReg rightOffset).1
        else if 0 ≤ rightOffset ∧ rightReg = SP ∧ leftReg ≤ 7#4 ∧ rightOffset < 1024 then
          (self.thumbPutTransferT2 operation leftReg rightReg rightOffset).1
        else if 0 ≤ rightOffset ∧ rightOffset < 4096 then
          (self.thumbPutTransferT3 operation leftReg rightReg rightOffset).1
        else (self.thumbPutTransferT4 operation leftReg rightReg rightOffset true false).1 := by
  unfold thumbPutTransfer thumbPutTransferT1 thumbPutTransferT2 thumbPutTransferT3
  by_cases h0 : rightOffset < 0
  · simp only [if_pos h0, Bool.false_eq_true, if_false, Int.not_le.mpr h0, false_and]
  simp only [if_neg h0, Int.not_lt.mp h0, true_and]
  by_cases h1 : leftReg ≤ 7#4 ∧ rightReg ≤ 7#4 ∧ rightOffset < 128
  · simp only [if_pos h1, if_true]
  by_cases h2 : rightReg = SP ∧ leftReg ≤ 7#4 ∧ rightOffset < 1024
  · simp only [if_neg h1, if_pos h2, Bool.false_eq_true, if_false, if_true]
  by_cases h3 : rightOffset < 4096
  · simp only [if_neg h1, if_neg h2, if_pos h3, Bool.false_eq_true, if_false, if_true]
  · simp only [if_neg h1, if_neg h2, if_neg h3, Bool.false_eq_true, if_false]

/-! ## Sequences of emissions -/

/-- Writing one emission after the other. -/
def emit (self : AssemblerWriter) (es : List Emission) : AssemblerWriter := es.foldl put self

section Emit

variable (self : AssemblerWriter) (es es' : List Emission)

theorem emit_cons (e : Emission) : self.emit (e :: es) = (self.put e).emit es := rfl

theorem emit_append : self.emit (es ++ es') = (self.emit es).emit es' := List.foldl_append

/-- What is written behind what is there. -/
theorem emit_buffer : (self.emit es).buffer = self.buffer ++ es.flatMap Emission.halves := by
  induction es generalizing self with
  | nil => exact (List.append_nil _).symm
  | cons e es ih =>
    rw [emit_cons, ih, List.flatMap_cons, ← List.append_assoc]
    rfl

/-- The number of bytes of a sequence. -/
def bytesOf (es : List Emission) : ℕ := 2 * (es.flatMap Emission.halves).length

theorem bytesOf_cons (e : Emission) : bytesOf (e :: es) = e.size + bytesOf es := by
  unfold bytesOf Emission.size
  rw [List.flatMap_cons, List.length_append, Nat.mul_add]

theorem emit_size : (self.emit es).size = self.size + bytesOf es := by
  induction es generalizing self with
  | nil => rfl
  | cons e es ih =>
    rw [emit_cons, ih, bytesOf_cons, ← Nat.add_assoc]
    rfl

theorem emit_currentPc :
    (self.emit es).currentPc = self.currentPc + BitVec.ofNat 32 (bytesOf es) := by
  induction es generalizing self with
  | nil => exact (BitVec.add_zero _).symm
  | cons e es ih =>
    rw [emit_cons, ih, bytesOf_cons, BitVec.ofNat_add, ← BitVec.add_assoc]
    rfl

@[simp] theorem emit_startPc : (self.emit es).startPc = self.startPc := by
  induction es generalizing self with
  | nil => rfl
  | cons e es ih => rw [emit_cons, ih]; rfl

@[simp] theorem emit_wStartAddress : (self.emit es).wStartAddress = self.wStartAddress := by
  induction es generalizing self with
  | nil => rfl
  | cons e es ih => rw [emit_cons, ih]; rfl

/-- The records of a sequence that begins at a program counter and an
address. -/
def records (pc address : Word) : List Emission → List ARMInstruction
  | [] => []
  | e :: es => e.record pc address
      :: records (pc + BitVec.ofNat 32 e.size) (address + BitVec.ofNat 32 e.size) es

theorem emit_insns :
    (self.emit es).insns = self.insns ++ records self.currentPc self.wCurrentAddress es := by
  induction es generalizing self with
  | nil => exact (List.append_nil _).symm
  | cons e es ih =>
    rw [emit_cons, ih, records]
    exact (List.append_cons _ _ _).symm

theorem length_records (pc address : Word) : (records pc address es).length = es.length := by
  induction es generalizing pc address with
  | nil => rfl
  | cons e es ih => rw [records, List.length_cons, List.length_cons, ih]

end Emit

/-! ## Literal loads -/

/-- The emissions of `LDR.W reg, [PC, #imm]`. -/
def ldrWide (reg : Reg) (imm : Word) : List Emission :=
  [.thumb 0xF8DF#16, .thumb ((regAt reg 12 ||| imm).setWidth 16)]

/-- The emissions of the jump to a literal: what `put_ldr_reg_address` writes
for the program counter. -/
def ldrPcCode (offWord : Bool) : List Emission :=
  if offWord then ldrWide PC 4#32 ++ [.thumb 0x46C0#16] else ldrWide PC 0#32

/-- The emissions in front of the literal that `put_ldr_b_reg_address` loads:
the load, and the branch over the literal. -/
def ldrBCode (offWord : Bool) (reg : Reg) : List Emission :=
  (if offWord then
      if reg ≤ 7#4 then
        [.thumb ((0x4800#32 ||| regAt reg 8 ||| 1#32).setWidth 16), .thumb 0x46C0#16]
      else ldrWide reg 4#32
    else
      if reg ≤ 7#4 then [.thumb ((0x4800#32 ||| regAt reg 8 ||| 0#32).setWidth 16)]
      else ldrWide reg 4#32 ++ [.thumb 0x46C0#16])
    ++ [.thumb 0xE001#16]

theorem thumbPutLdrRegAddress_pc (self : AssemblerWriter) (address : Word) :
    self.thumbPutLdrRegAddress PC address
      = self.emit (ldrPcCode self.offWord ++ [.bytes (addressBytes address)]) := by
  unfold thumbPutLdrRegAddress ldrPcCode
  cases self.offWord <;> rfl

theorem thumbPutLdrBRegAddress_eq (self : AssemblerWriter) (reg : Reg) (address : Word) :
    self.thumbPutLdrBRegAddress reg address
      = self.emit (ldrBCode self.offWord reg ++ [.bytes (addressBytes address)]) := by
  unfold thumbPutLdrBRegAddress ldrBCode thumbPutLdrRegImm
  by_cases hr : reg ≤ 7#4
  · cases self.offWord <;> simp only [hr, true_and, if_true, Bool.false_eq_true, if_false] <;> rfl
  · cases self.offWord <;> simp only [hr, false_and, if_true, Bool.false_eq_true, if_false] <;> rfl

theorem armPutLdrBRegAddress_eq (self : AssemblerWriter) (reg : Reg) (address : Word) :
    self.armPutLdrBRegAddress reg address
      = self.emit [.arm (0xE59F0000#32 ||| regAt reg 12 ||| 0#32), .arm 0xEA000000#32,
          .bytes (addressBytes address)] :=
  rfl

end AssemblerWriter

end HookZz
