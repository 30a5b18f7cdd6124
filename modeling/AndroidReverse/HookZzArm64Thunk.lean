import AndroidReverse.A64Frame
import AndroidReverse.HookZzArm64Reach

/-!
# A64 trampolines and thunks

`thunker-arm64.c`, `interceptor-template-arm64.S` and the trampolines of
`interceptor-arm64.c` that lead to them. A trampoline takes two doublewords of
stack, one for the next hop and one for the entry, and jumps to a thunk. The
thunk saves X0 to X30 and Q0 to Q7, calls a function of HookZz with the
addresses of what it has saved, restores the registers and jumps to the next
hop, through X17.

The enter thunk that is used is the one of the template; the others are
written. They differ in how the function is called.
-/

namespace HookZz.Arm64

open A64

/-! ## The writer -/

/-- `ZZ_ARM64_REG_SP`. -/
def sp : Reg := 31#5

/-- `CTX_SAVE_STACK_OFFSET`. -/
def ctxSaveStackOffset : Addr := 8#64 + 30#64 * 8#64 + 8#64 * 16#64

namespace AssemblerWriter

/-- `zz_arm64_writer_put_str_reg_reg_offset`, of a register that is an
integer. -/
def putStrRegRegOffset (self : AssemblerWriter) (srcReg dstReg : Reg) (offset : Addr) :
    AssemblerWriter :=
  let rs := registerDescribe srcReg
  let rd := registerDescribe dstReg
  let opc := 0#32
  let size := if rs.width = 64 then 0b11#32 else 0b10#32
  let imm12 := (offset >>> size).setWidth 32
  self.putInstruction (0x39000000#32 ||| size <<< 30 ||| opc <<< 22 ||| imm12 <<< 10
    ||| rd.index <<< 5 ||| rs.index)

/-- What `zz_arm64_writer_put_add_reg_reg_imm` and `..._sub_...` have in common:
`op` is the bit that they differ in. -/
def putAddSubRegRegImm (self : AssemblerWriter) (op : Word) (dstReg leftReg : Reg) (imm : Addr) :
    AssemblerWriter :=
  let rd := registerDescribe dstReg
  let rl := registerDescribe leftReg
  let sf := 1#32
  let S := 0#32
  let shift := 0b00#32
  let imm12 := (imm &&& 0xFFF#64).setWidth 32
  self.putInstruction (0x11000000#32 ||| sf <<< 31 ||| op <<< 30 ||| S <<< 29 ||| shift <<< 22
    ||| imm12 <<< 10 ||| rl.index <<< 5 ||| rd.index)

/-- `zz_arm64_writer_put_add_reg_reg_imm`. -/
def putAddRegRegImm (self : AssemblerWriter) (dstReg leftReg : Reg) (imm : Addr) :
    AssemblerWriter :=
  self.putAddSubRegRegImm 0#32 dstReg leftReg imm

/-- `zz_arm64_writer_put_sub_reg_reg_imm`. -/
def putSubRegRegImm (self : AssemblerWriter) (dstReg leftReg : Reg) (imm : Addr) :
    AssemblerWriter :=
  self.putAddSubRegRegImm 1#32 dstReg leftReg imm

end AssemblerWriter

/-! ## The template -/

/-- `sub sp, sp, #imm`. -/
def subSpWord (imm : ℕ) : Word := 0xD10003FF#32 ||| BitVec.ofNat 32 imm <<< 10

/-- `add sp, sp, #imm`. -/
def addSpWord (imm : ℕ) : Word := 0x910003FF#32 ||| BitVec.ofNat 32 imm <<< 10

/-- `add r, sp, #imm`. -/
def leaWord (r : Reg) (imm : ℕ) : Word :=
  0x910003E0#32 ||| BitVec.ofNat 32 imm <<< 10 ||| r.setWidth 32

/-- `str r, [sp, #(k*8)]`. -/
def strWord (r : Reg) (k : ℕ) : Word :=
  0xF90003E0#32 ||| BitVec.ofNat 32 k <<< 10 ||| r.setWidth 32

/-- `ldr r, [sp, #(k*8)]`. -/
def ldrWord (r : Reg) (k : ℕ) : Word :=
  0xF94003E0#32 ||| BitVec.ofNat 32 k <<< 10 ||| r.setWidth 32

/-- `stp r, r', [sp, #(k*8)]`. -/
def stpWord (r r' : Reg) (k : ℕ) : Word :=
  0xA90003E0#32 ||| BitVec.ofNat 32 k <<< 15 ||| r'.setWidth 32 <<< 10 ||| r.setWidth 32

/-- `ldp r, r', [sp], #16`. -/
def ldpWord (r r' : Reg) : Word :=
  0xA8C103E0#32 ||| r'.setWidth 32 <<< 10 ||| r.setWidth 32

/-- `stp q, q', [sp, #(k*16)]`. -/
def stpVecWord (q q' : Reg) (k : ℕ) : Word :=
  0xAD0003E0#32 ||| BitVec.ofNat 32 k <<< 15 ||| q'.setWidth 32 <<< 10 ||| q.setWidth 32

/-- `ldp q, q', [sp], #32`. -/
def ldpVecWord (q q' : Reg) : Word :=
  0xACC103E0#32 ||| q'.setWidth 32 <<< 10 ||| q.setWidth 32

/-- `ctx_save`, and `CTX_SAVE_ALL_MACRO`. -/
def ctxSave : List Word :=
  [subSpWord (8 * 16), stpVecWord 6#5 7#5 6, stpVecWord 4#5 5#5 4, stpVecWord 2#5 3#5 2,
    stpVecWord 0#5 1#5 0,
    subSpWord (30 * 8), stpWord 29#5 30#5 28, stpWord 27#5 28#5 26, stpWord 25#5 26#5 24,
    stpWord 23#5 24#5 22, stpWord 21#5 22#5 20, stpWord 19#5 20#5 18, stpWord 17#5 18#5 16,
    stpWord 15#5 16#5 14, stpWord 13#5 14#5 12, stpWord 11#5 12#5 10, stpWord 9#5 10#5 8,
    stpWord 7#5 8#5 6, stpWord 5#5 6#5 4, stpWord 3#5 4#5 2, stpWord 1#5 2#5 0,
    subSpWord (2 * 8), strWord 0#5 1]

/-- `ctx_restore`, and `CTX_RESTORE_ALL_MACRO`. -/
def ctxRestore : List Word :=
  [ldrWord 0#5 1, addSpWord (2 * 8),
    ldpWord 1#5 2#5, ldpWord 3#5 4#5, ldpWord 5#5 6#5, ldpWord 7#5 8#5, ldpWord 9#5 10#5,
    ldpWord 11#5 12#5, ldpWord 13#5 14#5, ldpWord 15#5 16#5, ldpWord 17#5 18#5, ldpWord 19#5 20#5,
    ldpWord 21#5 22#5, ldpWord 23#5 24#5, ldpWord 25#5 26#5, ldpWord 27#5 28#5, ldpWord 29#5 30#5,
    ldpVecWord 0#5 1#5, ldpVecWord 2#5 3#5, ldpVecWord 4#5 5#5, ldpVecWord 6#5 7#5]

/-- `bl` of the function `off` away. -/
def blWord (off : Addr) : Word := 0x94000000#32 ||| ((off >>> 2) &&& 0x03ffffff#64).setWidth 32

/-- `enter_thunk_template`; `bl` is the word of its call of
`function_context_begin_invocation`. -/
def enterThunkTemplate (bl : Word) : List Word :=
  ctxSave ++ [leaWord 1#5 0x190, strWord 1#5 0, subSpWord 0x10, ldrWord 0#5 50, leaWord 1#5 0x198,
    leaWord 2#5 0x10, leaWord 3#5 0x108] ++ [bl] ++ [addSpWord 0x10] ++ ctxRestore
    ++ [ldrWord x17 1, addSpWord 0x10, brWord]

/-! ## The thunks that are written -/

/-- What every thunk is: the call of a function between saving and restoring,
with the address of the saved link register for an argument or without. -/
def putThunk (writer : AssemblerWriter) (callerRetAddr : Bool) (function : Addr) :
    AssemblerWriter :=
  -- save general registers and sp
  let writer := writer.putBytes ctxSave
  let writer := writer.putAddRegRegImm 1#5 sp (8#64 + ctxSaveStackOffset + 2#64 * 8#64)
  -- trick: use the `ctx_save` left [sp]
  let writer := writer.putStrRegRegOffset 1#5 sp (0#64 * 8#64)
  -- alignment padding + dummy PC
  let writer := writer.putSubRegRegImm sp sp (2#64 * 8#64)
  -- entry, next hop, RegState and caller ret address
  let writer := writer.putLdrRegRegOffset 0#5 sp (2#64 * 8#64 + 8#64 + ctxSaveStackOffset)
  let writer := writer.putAddRegRegImm 1#5 sp (2#64 * 8#64 + 8#64 + ctxSaveStackOffset + 0x8#64)
  let writer := writer.putAddRegRegImm 2#5 sp (2#64 * 8#64)
  let writer := if callerRetAddr then
      writer.putAddRegRegImm 3#5 sp (2#64 * 8#64 + 2#64 * 8#64 + 28#64 * 8#64 + 8#64)
    else writer
  let writer := writer.putLdrBlrBRegAddress x17 function
  -- alignment padding + dummy PC
  let writer := writer.putAddRegRegImm sp sp (2#64 * 8#64)
  -- restore general registers stack
  let writer := writer.putBytes ctxRestore
  -- load next hop to x17, restore next hop and arg stack, jump to next hop
  let writer := writer.putLdrRegRegOffset x17 sp 0x8#64
  let writer := writer.putAddRegRegImm sp sp (2#64 * 8#64)
  writer.putBrReg x17

/-- `zz_arm64_thunker_build_enter_thunk`, with the address of
`function_context_begin_invocation`. -/
def buildEnterThunk (writer : AssemblerWriter) (functionContextBeginInvocation : Addr) :
    AssemblerWriter :=
  putThunk writer true functionContextBeginInvocation

/-- `zz_arm64_thunker_build_insn_leave_thunk`, with the address of
`insn_context_end_invocation`. -/
def buildInsnLeaveThunk (writer : AssemblerWriter) (insnContextEndInvocation : Addr) :
    AssemblerWriter :=
  putThunk writer true insnContextEndInvocation

/-- `zz_arm64_thunker_build_dynamic_binary_instrumentation_thunk`, with the
address of `dynamic_binary_instrumentation_invocation`. -/
def buildDynamicBinaryInstrumentationThunk (writer : AssemblerWriter)
    (dynamicBinaryInstrumentationInvocation : Addr) : AssemblerWriter :=
  putThunk writer true dynamicBinaryInstrumentationInvocation

/-- `zz_arm64_thunker_build_leave_thunk`, with the address of
`function_context_end_invocation`. -/
def buildLeaveThunk (writer : AssemblerWriter) (functionContextEndInvocation : Addr) :
    AssemblerWriter :=
  putThunk writer false functionContextEndInvocation

/-! ## The trampolines -/

/-- What `ZzBuildEnterTrampoline`, `ZzBuildInsnLeaveTrampoline`,
`ZzBuildLeaveTrampoline` and `ZzBuildDynamicBinaryInstrumentationTrampoline`
write, each for its thunk. -/
def putThunkTrampoline (writer : AssemblerWriter) (entry thunk : Addr) : AssemblerWriter :=
  -- prepare 2 stack space: 1. next_hop 2. entry arg
  let writer := writer.putSubRegRegImm sp sp (2#64 * 0x8#64)
  let writer := writer.putLdrBRegAddress x17 entry
  let writer := writer.putStrRegRegOffset x17 sp 0x0#64
  -- jump to the thunk
  writer.putLdrBrRegAddress x17 thunk

/-! ## The code as operations on a frame -/

/-- `ctx_save` as operations. -/
def ctxSaveItems : List (Word × FrameOp) :=
  ctxSave.zip [.down 16, .storeVecs 6#5 7#5 12, .storeVecs 4#5 5#5 8, .storeVecs 2#5 3#5 4,
    .storeVecs 0#5 1#5 0, .down 30, .storePair 29#5 30#5 28, .storePair 27#5 28#5 26,
    .storePair 25#5 26#5 24, .storePair 23#5 24#5 22, .storePair 21#5 22#5 20,
    .storePair 19#5 20#5 18, .storePair 17#5 18#5 16, .storePair 15#5 16#5 14,
    .storePair 13#5 14#5 12, .storePair 11#5 12#5 10, .storePair 9#5 10#5 8, .storePair 7#5 8#5 6,
    .storePair 5#5 6#5 4, .storePair 3#5 4#5 2, .storePair 1#5 2#5 0, .down 2, .store 0#5 1]

/-- Passing the arguments. -/
def argItems (callerRetAddr : Bool) : List (Word × FrameOp) :=
  [(leaWord 1#5 0x190, .lea 1#5 50), (strWord 1#5 0, .store 1#5 0), (subSpWord 0x10, .down 2),
    (ldrWord 0#5 50, .load 0#5 50), (leaWord 1#5 0x198, .lea 1#5 51), (leaWord 2#5 0x10, .lea 2#5 2)]
    ++ if callerRetAddr then [(leaWord 3#5 0x108, .lea 3#5 33)] else []

/-- `ctx_restore` as operations, with what is in front of it and behind. -/
def restoreItems : List (Word × FrameOp) :=
  (addSpWord 0x10, .up 2) :: (ctxRestore.zip [.load 0#5 1, .up 2, .popPair 1#5 2#5,
    .popPair 3#5 4#5, .popPair 5#5 6#5, .popPair 7#5 8#5, .popPair 9#5 10#5, .popPair 11#5 12#5,
    .popPair 13#5 14#5, .popPair 15#5 16#5, .popPair 17#5 18#5, .popPair 19#5 20#5,
    .popPair 21#5 22#5, .popPair 23#5 24#5, .popPair 25#5 26#5, .popPair 27#5 28#5,
    .popPair 29#5 30#5, .popVecs 0#5 1#5, .popVecs 2#5 3#5, .popVecs 4#5 5#5, .popVecs 6#5 7#5]
    ++ [(ldrWord x17 1, .load x17 1), (addSpWord 0x10, .up 2)])

/-- Saving the registers and passing the arguments. -/
def saveCode (callerRetAddr : Bool) : FrameCode :=
  .ofInsns (ctxSaveItems ++ argItems callerRetAddr)

/-- Restoring the registers. -/
def restoreCode : FrameCode := .ofInsns restoreItems

/-- The words of a thunk that calls its function by `call`. -/
def thunkWords (callerRetAddr : Bool) (call : List Word) : List Word :=
  (saveCode callerRetAddr).words ++ (call ++ (restoreCode.words ++ [brWord]))

/-- A call through a literal. -/
def literalCall (function : Addr) : List Word :=
  [ldrLitWord x17 0xc#32, blrWord, bWord 0xc#64] ++ addressBytes function

/-- The first part of a trampoline. -/
def trampolineCode (entry : Addr) : FrameCode :=
  [([subSpWord 0x10], .down 2),
    ([ldrLitWord x17 0x8#32, bWord 0xc#64] ++ addressBytes entry, .set x17 entry),
    ([strWord x17 0], .store x17 0)]

theorem saveCode_pieces (b : Bool) : ∀ i ∈ saveCode b, FrameOp.Piece i.1 i.2 := by
  refine FrameCode.pieces_ofInsns ?_
  cases b <;> decide

theorem restoreCode_pieces : ∀ i ∈ restoreCode, FrameOp.Piece i.1 i.2 :=
  FrameCode.pieces_ofInsns (by decide)

theorem trampolineCode_pieces (entry : Addr) :
    ∀ i ∈ trampolineCode entry, FrameOp.Piece i.1 i.2 := by
  intro i hi
  simp only [trampolineCode, List.mem_cons, List.not_mem_nil, or_false] at hi
  rcases hi with rfl | rfl | rfl
  · exact piece_of_isInsn (i := (subSpWord 0x10, .down 2)) (by decide)
  · have h : FrameOp.Piece [_, _, entry.extractLsb' 0 32, entry.extractLsb' 32 32] _ := .literal
      (decode_ldrLitWord x17).1 decode_bWord.1
    rwa [words_append] at h
  · exact piece_of_isInsn (i := (strWord x17 0, .store x17 0)) (by decide)

/-! ## What is written -/

section Writer

variable (w : AssemblerWriter)

/-- **The words of a thunk.** -/
theorem putThunk_buffer (callerRetAddr : Bool) (function : Addr) :
    (putThunk w callerRetAddr function).buffer
      = w.buffer ++ thunkWords callerRetAddr (literalCall function) := by
  cases callerRetAddr <;>
  · simp only [putThunk, Bool.false_eq_true, if_false, if_true, AssemblerWriter.putBytes, AssemblerWriter.putAddRegRegImm,
      AssemblerWriter.putSubRegRegImm, AssemblerWriter.putAddSubRegRegImm,
      AssemblerWriter.putStrRegRegOffset, AssemblerWriter.putLdrRegRegOffset,
      AssemblerWriter.putLdrBlrBRegAddress, AssemblerWriter.putLdrRegImm,
      AssemblerWriter.putBlrReg, AssemblerWriter.putBImm, AssemblerWriter.putBrReg,
      AssemblerWriter.putInstruction, AssemblerWriter.put_buffer, Emission.words,
      List.append_assoc]
    rfl

/-- **The words of a trampoline.** -/
theorem putThunkTrampoline_buffer (entry thunk : Addr) :
    (putThunkTrampoline w entry thunk).buffer
      = w.buffer ++ ((trampolineCode entry).words ++ jumpBlock thunk) := by
  unfold putThunkTrampoline
  dsimp only
  rw [putLdrBrRegAddress_buffer]
  show (((w.buffer ++ [_]) ++ [_] ++ [_] ++ addressBytes entry) ++ [_]) ++ jumpBlock thunk = _
  simp only [List.append_assoc]
  rfl

/-- The words of the template. -/
theorem enterThunkTemplate_eq (bl : Word) : enterThunkTemplate bl = thunkWords true [bl] := rfl

end Writer

end HookZz.Arm64
