import AndroidReverse.A64Machine
import AndroidReverse.HookZzInsn

/-!
# The A64 relocator

`relocator-arm64.c` with what it uses of `writer-arm64.c`, `reader-arm64.c` and
`regs-arm64.c`. Six kinds of instructions are rewritten, the others are copied.
A rewritten one loads the address it refers to from a literal, into the register
it is for or into X17.

The address is computed from fields of the instruction, in 32 bits and without
regard to their sign, and the register is read from four of its five bits.
`writeOne_relocates_iff` is when that comes out right.
-/

namespace HookZz.Arm64

open A64

/-! ## Registers -/

/-- `ZzARM64RegInfo`. -/
structure ARM64RegInfo where
  index : Word
  width : ℕ
  isInteger : Bool
deriving DecidableEq, Repr

/-- `zz_arm64_register_describe`: all of the registers are described alike, by
the number they have in `ZzARM64Reg`. -/
def registerDescribe (reg : Reg) : ARM64RegInfo where
  index := reg.setWidth 32
  width := 64
  isInteger := true

/-- `ZZ_ARM64_REG_X17`. -/
def x17 : Reg := 17#5

/-! ## Instructions -/

/-- `ZzARM64Instruction`. -/
structure ARM64Instruction where
  /-- The address it runs at. -/
  pc : Addr
  /-- Where it was read or written. -/
  address : Addr
  /-- Its size in bytes. -/
  size : ℕ
  /-- The word. -/
  insn : Word
deriving DecidableEq, Repr

/-- The `enum ARM64InsnType`. -/
inductive ARM64InsnType where
  | ldrLiteral
  | adr
  | adrp
  | b
  | bl
  | bCond
  | undef
deriving DecidableEq, Repr

/-- `GetARM64InsnType`. -/
def getARM64InsnType (insn : Word) : ARM64InsnType :=
  if insnEqual insn "01011000xxxxxxxxxxxxxxxxxxxxxxxx" then .ldrLiteral
  else if insnEqual insn "0xx10000xxxxxxxxxxxxxxxxxxxxxxxx" then .adr
  else if insnEqual insn "1xx10000xxxxxxxxxxxxxxxxxxxxxxxx" then .adrp
  else if insnEqual insn "000101xxxxxxxxxxxxxxxxxxxxxxxxxx" then .b
  else if insnEqual insn "100101xxxxxxxxxxxxxxxxxxxxxxxxxx" then .bl
  else if insnEqual insn "01010100xxxxxxxxxxxxxxxxxxx0xxxx" then .bCond
  else ARM64InsnType.undef

/-- `ZzARM64Reader`. -/
structure ARM64Reader where
  /-- The instructions read so far. -/
  insns : List ARM64Instruction
  /-- Where reading goes on. -/
  rCurrentAddress : Addr
  /-- The program counter there. -/
  currentPc : Addr
  /-- The number of bytes read. -/
  size : ℕ
deriving DecidableEq, Repr

/-- `zz_arm64_reader_reset`. -/
def readerReset (insnAddress : Addr) : ARM64Reader where
  insns := []
  rCurrentAddress := insnAddress
  currentPc := insnAddress
  size := 0

/-- `zz_arm64_reader_read_one_instruction`. -/
def readerReadOneInstruction (mem : Mem) (self : ARM64Reader) : ARM64Reader where
  insns := self.insns ++
    [⟨self.currentPc, self.rCurrentAddress, 4, mem.read32 self.rCurrentAddress⟩]
  rCurrentAddress := self.rCurrentAddress + 4#64
  currentPc := self.currentPc + 4#64
  size := self.size + 4

/-! ## The writer -/

/-- **What one primitive of the writer writes**: an instruction, or data. -/
inductive Emission where
  /-- An instruction of `zz_arm64_writer_put_instruction`. -/
  | insn (w : Word)
  /-- The data of `zz_arm64_writer_put_bytes`. -/
  | bytes (data : List Word)
deriving DecidableEq, Repr

namespace Emission

/-- The words of an emission. -/
def words : Emission → List Word
  | insn w => [w]
  | bytes data => data

/-- The size of an emission in bytes. -/
def size (e : Emission) : ℕ := 4 * e.words.length

/-- What the writer notes down about an emission. -/
def record (pc address : Addr) : Emission → ARM64Instruction
  | insn w => ⟨pc, address, 4, w⟩
  | bytes data => ⟨pc, address, 4 * data.length, 0#32⟩

end Emission

/-- The eight bytes of an address as data: `(zz_ptr_t)&address, sizeof(address)`. -/
def addressBytes (address : Addr) : List Word :=
  [address.extractLsb' 0 32, address.extractLsb' 32 32]

/-- `ZzARM64AssemblerWriter`. -/
structure AssemblerWriter where
  /-- What has been written. -/
  insns : List ARM64Instruction
  /-- Where writing goes on. -/
  wCurrentAddress : Addr
  /-- The program counter there. -/
  currentPc : Addr
  /-- The number of bytes written. -/
  size : ℕ
  /-- What has been written, in words. -/
  buffer : List Word
deriving DecidableEq, Repr

namespace AssemblerWriter

/-- `zz_arm64_writer_reset`. -/
def reset (dataPtr targetPtr : Addr) : AssemblerWriter where
  insns := []
  wCurrentAddress := dataPtr &&& ~~~3#64
  currentPc := targetPtr &&& ~~~3#64
  size := 0
  buffer := []

/-- **One primitive.** -/
def put (self : AssemblerWriter) (e : Emission) : AssemblerWriter where
  insns := self.insns ++ [e.record self.currentPc self.wCurrentAddress]
  wCurrentAddress := self.wCurrentAddress + BitVec.ofNat 64 e.size
  currentPc := self.currentPc + BitVec.ofNat 64 e.size
  size := self.size + e.size
  buffer := self.buffer ++ e.words

@[simp] theorem put_buffer (self : AssemblerWriter) (e : Emission) :
    (self.put e).buffer = self.buffer ++ e.words := rfl

/-- `zz_arm64_writer_put_bytes`. -/
def putBytes (self : AssemblerWriter) (data : List Word) : AssemblerWriter :=
  self.put (.bytes data)

/-- `zz_arm64_writer_put_instruction`. -/
def putInstruction (self : AssemblerWriter) (insn : Word) : AssemblerWriter :=
  self.put (.insn insn)

/-- `zz_arm64_writer_put_ldr_reg_imm`. -/
def putLdrRegImm (self : AssemblerWriter) (reg : Reg) (offset : Word) : AssemblerWriter :=
  let imm19 := offset >>> 2
  let rtNdx := (registerDescribe reg).index
  self.putInstruction (0x58000000#32 ||| imm19 <<< 5 ||| rtNdx)

/-- `zz_arm64_writer_put_ldr_reg_reg_offset`, of a register that is an
integer. -/
def putLdrRegRegOffset (self : AssemblerWriter) (dstReg srcReg : Reg) (offset : Addr) :
    AssemblerWriter :=
  let rs := registerDescribe srcReg
  let rd := registerDescribe dstReg
  let opc := 0b01#32
  let size := if rs.width = 64 then 0b11#32 else 0b10#32
  let imm12 := (offset >>> size).setWidth 32
  self.putInstruction (0x39000000#32 ||| size <<< 30 ||| opc <<< 22 ||| imm12 <<< 10
    ||| rs.index <<< 5 ||| rd.index)

/-- `zz_arm64_writer_put_br_reg`. -/
def putBrReg (self : AssemblerWriter) (reg : Reg) : AssemblerWriter :=
  let op := 0#32
  let rnNdx := (registerDescribe reg).index
  self.putInstruction (0xd61f0000#32 ||| op <<< 21 ||| rnNdx <<< 5)

/-- `zz_arm64_writer_put_blr_reg`. -/
def putBlrReg (self : AssemblerWriter) (reg : Reg) : AssemblerWriter :=
  let op := 0b01#32
  let rnNdx := (registerDescribe reg).index
  self.putInstruction (0xd63f0000#32 ||| op <<< 21 ||| rnNdx <<< 5)

/-- `zz_arm64_writer_put_b_imm`. -/
def putBImm (self : AssemblerWriter) (offset : Addr) : AssemblerWriter :=
  let op := 0b0#32
  let imm26 := ((offset >>> 2) &&& 0x03ffffff#64).setWidth 32
  self.putInstruction (0x14000000#32 ||| op <<< 31 ||| imm26)

/-- `zz_arm64_writer_put_b_cond_imm`. -/
def putBCondImm (self : AssemblerWriter) (condition : Word) (imm : Addr) : AssemblerWriter :=
  let imm19 := ((imm >>> 2) &&& 0x7ffff#64).setWidth 32
  self.putInstruction (0x54000000#32 ||| imm19 <<< 5 ||| condition)

/-- `zz_arm64_writer_put_ldr_br_reg_address`. -/
def putLdrBrRegAddress (self : AssemblerWriter) (reg : Reg) (address : Addr) : AssemblerWriter :=
  ((self.putLdrRegImm reg 0x8#32).putBrReg reg).putBytes (addressBytes address)

/-- `zz_arm64_writer_put_ldr_blr_b_reg_address`. -/
def putLdrBlrBRegAddress (self : AssemblerWriter) (reg : Reg) (address : Addr) :
    AssemblerWriter :=
  (((self.putLdrRegImm reg 0xc#32).putBlrReg reg).putBImm 0xc#64).putBytes (addressBytes address)

/-- `zz_arm64_writer_put_ldr_b_reg_address`. -/
def putLdrBRegAddress (self : AssemblerWriter) (reg : Reg) (address : Addr) : AssemblerWriter :=
  ((self.putLdrRegImm reg 0x8#32).putBImm 0xc#64).putBytes (addressBytes address)

end AssemblerWriter

/-! ## The relocator -/

/-- `ZzARM64RelocatorInstruction`. -/
structure RelocatorInstruction where
  /-- The instruction that was read. -/
  originInsn : ARM64Instruction
  /-- The first emission of its block, an index in the output's list. -/
  relocatedInsns : ℕ
  /-- The number of emissions before the block. -/
  outputIndexStart : ℕ
  /-- The number of emissions up to its end. -/
  ouputIndexEnd : ℕ
  /-- The number of emissions of the block. -/
  relocatedInsnSize : ℕ
  /-- The size of the block in bytes. -/
  size : ℕ
deriving DecidableEq, Repr

/-- `ZzARM64Relocator`. -/
structure Relocator where
  /-- Where the blocks go. -/
  output : AssemblerWriter
  /-- Where the instructions come from. -/
  input : ARM64Reader
  /-- The number of instructions read. -/
  inpos : ℕ
  /-- The number of instructions written. -/
  outpos : ℕ
  /-- The emissions that are registered as literals. -/
  literalInsns : List ARM64Instruction
  /-- The blocks. -/
  relocatorInsns : List RelocatorInstruction
deriving DecidableEq, Repr

namespace Relocator

/-- `zz_arm64_relocator_init`. -/
def init (input : ARM64Reader) (output : AssemblerWriter) : Relocator where
  output := output
  input := input
  inpos := 0
  outpos := 0
  literalInsns := []
  relocatorInsns := []

/-- `zz_arm64_relocator_read_one`. -/
def readOne (mem : Mem) (self : Relocator) : Relocator :=
  { self with input := readerReadOneInstruction mem self.input, inpos := self.inpos + 1 }

/-- `zz_arm64_relocator_register_literal_insn` of the last emission. -/
def registerLiteralInsn (self : Relocator) : Relocator :=
  { self with literalInsns := self.literalInsns ++ self.output.insns.getLast?.toList }

/-- A relocator whose output goes on. -/
def write (self : Relocator) (f : AssemblerWriter → AssemblerWriter) : Relocator :=
  { self with output := f self.output }

/-- The register that is read from an instruction: `get_insn_sub(insn, 0, 4)`. -/
def rtNdx (insn : Word) : Reg := (getInsnSub insn 0 4).setWidth 5

/-- `zz_arm64_relocator_rewrite_LDR_literal`. -/
def rewriteLdrLiteral (self : Relocator) (insnCtx : ARM64Instruction) : Relocator :=
  let insn := insnCtx.insn
  let imm19 := getInsnSub insn 5 19
  let offset := (imm19 <<< 2).setWidth 64
  let targetAddress := insnCtx.pc + offset
  let self := self.write (·.putLdrBRegAddress (rtNdx insn) targetAddress)
  let self := self.registerLiteralInsn
  self.write (·.putLdrRegRegOffset (rtNdx insn) (rtNdx insn) 0#64)

/-- `zz_arm64_relocator_rewrite_ADR`. -/
def rewriteAdr (self : Relocator) (insnCtx : ARM64Instruction) : Relocator :=
  let insn := insnCtx.insn
  let immhi := getInsnSub insn 5 19
  let immlo := getInsnSub insn 29 2
  let imm := ((immhi <<< 2) ||| immlo).setWidth 64
  let targetAddress := insnCtx.pc + imm
  self.write (·.putLdrBRegAddress (rtNdx insn) targetAddress)

/-- `zz_arm64_relocator_rewrite_ADRP`. -/
def rewriteAdrp (self : Relocator) (insnCtx : ARM64Instruction) : Relocator :=
  let insn := insnCtx.insn
  let immhi := getInsnSub insn 5 19
  let immlo := getInsnSub insn 29 2
  let imm := ((immhi <<< 2 <<< 12) ||| (immlo <<< 12)).setWidth 64
  let targetAddress := (insnCtx.pc &&& 0xFFFFFFFFFFFFF000#64) + imm
  self.write (·.putLdrBRegAddress (rtNdx insn) targetAddress)

/-- `zz_arm64_relocator_rewrite_B`. -/
def rewriteB (self : Relocator) (insnCtx : ARM64Instruction) : Relocator :=
  let insn := insnCtx.insn
  let imm26 := getInsnSub insn 0 26
  let offset := (imm26 <<< 2).setWidth 64
  let targetAddress := insnCtx.pc + offset
  (self.write (·.putLdrBrRegAddress x17 targetAddress)).registerLiteralInsn

/-- `zz_arm64_relocator_rewrite_BL`. -/
def rewriteBl (self : Relocator) (insnCtx : ARM64Instruction) : Relocator :=
  let insn := insnCtx.insn
  let imm26 := getInsnSub insn 0 26
  let offset := (imm26 <<< 2).setWidth 64
  let targetAddress := insnCtx.pc + offset
  let self := (self.write (·.putLdrBlrBRegAddress x17 targetAddress)).registerLiteralInsn
  (self.write (·.putLdrBrRegAddress x17 (insnCtx.pc + 4#64))).registerLiteralInsn

/-- `zz_arm64_relocator_rewrite_B_cond`. -/
def rewriteBCond (self : Relocator) (insnCtx : ARM64Instruction) : Relocator :=
  let insn := insnCtx.insn
  let imm19 := getInsnSub insn 5 19
  let offset := (imm19 <<< 2).setWidth 64
  let targetAddress := insnCtx.pc + offset
  let cond := getInsnSub insn 0 4
  let self := self.write (·.putBCondImm cond 0x8#64)
  let self := self.write (·.putBImm 0x14#64)
  (self.write (·.putLdrBrRegAddress x17 targetAddress)).registerLiteralInsn

/-- The `switch` of `zz_arm64_relocator_write_one`, and the copy if nothing was
rewritten. -/
def rewrite (self : Relocator) (insnCtx : ARM64Instruction) : Relocator :=
  match getARM64InsnType insnCtx.insn with
  | .ldrLiteral => self.rewriteLdrLiteral insnCtx
  | .adr => self.rewriteAdr insnCtx
  | .adrp => self.rewriteAdrp insnCtx
  | .b => self.rewriteB insnCtx
  | .bl => self.rewriteBl insnCtx
  | .bCond => self.rewriteBCond insnCtx
  | .undef => self.write (·.putBytes [insnCtx.insn])

/-- The instruction that is written next, if one is left. -/
def pending (self : Relocator) : Option ARM64Instruction :=
  if self.inpos = self.outpos then none else self.input.insns[self.outpos]?

/-- `zz_arm64_relocator_write_one`; `none` is its answer `FALSE`. -/
def writeOne (self : Relocator) : Option Relocator :=
  self.pending.map fun insnCtx =>
    let start := self.output.insns.length
    let tmpSize := self.output.size
    let self := { self with outpos := self.outpos + 1 }.rewrite insnCtx
    { self with
      relocatorInsns := self.relocatorInsns ++ [{
        originInsn := insnCtx
        relocatedInsns := start
        outputIndexStart := start
        ouputIndexEnd := self.output.insns.length
        relocatedInsnSize := self.output.insns.length - start
        size := self.output.size - tmpSize }] }

end Relocator

end HookZz.Arm64
