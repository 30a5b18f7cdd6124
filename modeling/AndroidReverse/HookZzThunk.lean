import AndroidReverse.HookZzTrampoline
import AndroidReverse.HookZzEffect
import AndroidReverse.ArmFrame

/-!
# Thunks

What a trampoline jumps to: `thunker-arm.c`. A thunk saves the registers above
what the trampoline has pushed, calls a function of HookZz with the addresses
of what it has saved, restores the registers and continues where the function
has told it to. It changes the instruction set four times on the way, since
saving and restoring are ARM code.

Trampoline and thunk together work on eighteen words below the stack pointer.
The highest is where to go on, then come the entry, the saved registers from
the link register down to R0, the stack pointer in front of them as the head of
the `RegState`, and a word of padding. With these as a frame
(`AndroidReverse.ArmFrame`) the code is five straight lines between its jumps.
-/

namespace HookZz

open Arm Relocate Relocator

/-! ## The code -/

/-- `str r, [sp, #(k*4)]`. -/
def strWord (r : Reg) (k : ℕ) : Word :=
  0xE58D0000#32 ||| AssemblerWriter.regAt r 12 ||| BitVec.ofNat 32 (4 * k)

/-- `ldr r, [sp], #4`. -/
def ldrPostWord (r : Reg) : Word := 0xE49D0004#32 ||| AssemblerWriter.regAt r 12

/-- `ctx_save`, which begins with `sub sp, sp, #(14*4)`. -/
def ctxSave : List Word :=
  [0xE24DD038#32, strWord LR 13, strWord 12#4 12, strWord 11#4 11, strWord 10#4 10, strWord 9#4 9,
    strWord 8#4 8, strWord 7#4 7, strWord 6#4 6, strWord 5#4 5, strWord 4#4 4, strWord 3#4 3,
    strWord 2#4 2, strWord 1#4 1, strWord 0#4 0]

/-- `ctx_restore`. -/
def ctxRestore : List Word :=
  [ldrPostWord 0#4, ldrPostWord 1#4, ldrPostWord 2#4, ldrPostWord 3#4, ldrPostWord 4#4,
    ldrPostWord 5#4, ldrPostWord 6#4, ldrPostWord 7#4, ldrPostWord 8#4, ldrPostWord 9#4,
    ldrPostWord 10#4, ldrPostWord 11#4, ldrPostWord 12#4, ldrPostWord LR]

/-- `CTX_SAVE_STACK_OFFSET`. -/
def ctxSaveStackOffset : ℤ := 4 * 14

/-- What every thunk is: the call of a function between saving and restoring,
with the address of the saved link register for an argument or without. -/
def putThunk (writer : AssemblerWriter) (callerRetAddr : Bool) (function : Word) :
    AssemblerWriter :=
  -- save general registers and sp
  let writer := writer.thumbPutBxReg PC
  let writer := writer.armPutBytes (ctxSave.flatMap addressBytes)
  let writer := writer.armPutAddRegRegImm 1#4 PC 1#32
  let writer := writer.armPutBxReg 1#4
  let writer := writer.thumbPutSubRegImm SP 0x8
  let writer := writer.thumbPutAddRegRegImm 1#4 SP (ctxSaveStackOffset + 0x8 + 0x8)
  let writer := writer.thumbPutStrRegRegOffset 1#4 SP 0x4
  -- entry, next hop, RegState and caller ret address
  let writer := writer.thumbPutLdrRegRegOffset 0#4 SP (ctxSaveStackOffset + 0x8)
  let writer := writer.thumbPutAddRegRegImm 1#4 SP (ctxSaveStackOffset + 0x8 + 0x4)
  let writer := writer.thumbPutAddRegRegImm 2#4 SP 0x4
  let writer := if callerRetAddr then writer.thumbPutAddRegRegImm 3#4 SP (0x8 + 13 * 4) else writer
  let writer := writer.thumbPutLdrBRegAddress LR function
  let writer := writer.thumbPutBlxReg LR
  -- restore general registers and sp
  let writer := writer.thumbPutAddRegImm SP 0x8
  let writer := writer.thumbPutBxReg PC
  let writer := writer.armPutBytes (ctxRestore.flatMap addressBytes)
  let writer := writer.armPutBxToThumb
  -- restore arg space, pop and jump to next hop
  let writer := writer.thumbPutAddRegImm SP 0x4
  writer.thumbPutLdrIndexRegRegOffset PC SP 4 false

/-- `zz_thumb_thunker_build_enter_thunk`, with the address of
`function_context_begin_invocation`. -/
def buildEnterThunk (writer : AssemblerWriter) (functionContextBeginInvocation : Word) :
    AssemblerWriter :=
  putThunk writer true functionContextBeginInvocation

/-- `zz_thumb_thunker_build_insn_leave_thunk`, with the address of
`insn_context_end_invocation`. -/
def buildInsnLeaveThunk (writer : AssemblerWriter) (insnContextEndInvocation : Word) :
    AssemblerWriter :=
  putThunk writer true insnContextEndInvocation

/-- `zz_thumb_thunker_build_dynamic_binary_instrumentation_thunk`, with the
address of `dynamic_binary_instrumentation_invocation`. -/
def buildDynamicBinaryInstrumentationThunk (writer : AssemblerWriter)
    (dynamicBinaryInstrumentationInvocation : Word) : AssemblerWriter :=
  putThunk writer true dynamicBinaryInstrumentationInvocation

/-- `zz_thumb_thunker_build_leave_thunk`, with the address of
`function_context_end_invocation`. -/
def buildLeaveThunk (writer : AssemblerWriter) (functionContextEndInvocation : Word) :
    AssemblerWriter :=
  putThunk writer false functionContextEndInvocation

/-! ## The code as pieces -/

/-- ARM words with what they do. -/
def armItems (items : List (Word × FrameOp)) : List (List Half × FrameOp) :=
  items.map fun i => (addressBytes i.1, i.2)

/-- Halfwords with what they do. -/
def thumbItems (items : List (Half × FrameOp)) : List (List Half × FrameOp) :=
  items.map fun i => ([i.1], i.2)

/-- The halfwords of a list of pieces. -/
def piecesOf (items : List (List Half × FrameOp)) : List Half := items.flatMap Prod.fst

/-- `ctx_save` as operations. -/
def ctxSaveItems : List (List Half × FrameOp) :=
  armItems (ctxSave.zip [.down 14, .store LR 13, .store 12#4 12, .store 11#4 11, .store 10#4 10,
    .store 9#4 9, .store 8#4 8, .store 7#4 7, .store 6#4 6, .store 5#4 5, .store 4#4 4,
    .store 3#4 3, .store 2#4 2, .store 1#4 1, .store 0#4 0])

/-- Saving the registers, at an address. -/
def saveItems (addr : Word) : List (List Half × FrameOp) :=
  ctxSaveItems ++ [(addressBytes 0xE28F1001#32, .set 1#4 (addr + 69#32))]

/-- The addresses that are passed. -/
def addressItems (callerRetAddr : Bool) : List (List Half × FrameOp) :=
  thumbItems ([(0xB082#16, .down 2), (0xA912#16, .lea 1#4 18), (0x9101#16, .store 1#4 1),
    (0x9810#16, .load 0#4 16), (0xA911#16, .lea 1#4 17), (0xAA01#16, .lea 2#4 1)]
    ++ if callerRetAddr then [(0xAB0F#16, .lea 3#4 15)] else [])

/-- Passing the arguments. -/
def argItems (callerRetAddr : Bool) (function : Word) : List (List Half × FrameOp) :=
  addressItems callerRetAddr
    ++ [(itemHalves (valueItems callerRetAddr LR function 0), .set LR function)]

/-- `ctx_restore` as operations, with the beginning of the way back. -/
def ctxRestoreItems : List (List Half × FrameOp) :=
  armItems (ctxRestore.zip [.pop 0#4, .pop 1#4, .pop 2#4, .pop 3#4, .pop 4#4, .pop 5#4, .pop 6#4,
    .pop 7#4, .pop 8#4, .pop 9#4, .pop 10#4, .pop 11#4, .pop 12#4, .pop LR]
    ++ [(0xE24DD008#32, .down 2), (0xE58D1000#32, .store 1#4 0)])

/-- Restoring the registers, at an address. -/
def restoreItems (addr : Word) : List (List Half × FrameOp) :=
  ctxRestoreItems ++ ([(addressBytes 0xE28F1009#32, .set 1#4 (addr + 81#32))]
    ++ armItems [(0xE58D1004#32, .store 1#4 1), (0xE49D1004#32, .pop 1#4)])

/-- The halfwords of a thunk. The addresses in the lists of operations are not
part of them. -/
def thunkHalves (callerRetAddr : Bool) (function : Word) : List Half :=
  [0x4778#16, 0x46C0#16] ++ (piecesOf (saveItems 0#32) ++ (addressBytes 0xE12FFF11#32
    ++ (piecesOf (argItems callerRetAddr function) ++ ([0x47F0#16] ++ ([0xB002#16]
      ++ ([0x4778#16, 0x46C0#16] ++ (piecesOf (restoreItems 0#32) ++ (addressBytes 0xE49DF004#32
        ++ ([0xB001#16] ++ [0xF85D#16, 0xFB04#16])))))))))

theorem thunkHalves_length (callerRetAddr : Bool) (function : Word) :
    (thunkHalves callerRetAddr function).length = 95 := by
  cases callerRetAddr <;> rfl

namespace AssemblerWriter

theorem thumbPutBxReg_pc {w : AssemblerWriter} (h : w.offWord = false) :
    w.thumbPutBxReg PC = w.emit [.thumb 0x4778#16, .thumb 0x46C0#16] := by
  unfold thumbPutBxReg
  rw [h]
  rfl

end AssemblerWriter

/-- What a thunk consists of, before the literal with the function, -/
def thunkHead (callerRetAddr : Bool) : List Emission :=
  [.thumb 0x4778#16, .thumb 0x46C0#16, .bytes (ctxSave.flatMap addressBytes), .arm 0xE28F1001#32,
    .arm 0xE12FFF11#32, .thumb 0xB082#16, .thumb 0xA912#16, .thumb 0x9101#16, .thumb 0x9810#16,
    .thumb 0xA911#16, .thumb 0xAA01#16] ++ if callerRetAddr then [.thumb 0xAB0F#16] else []

/-- and behind it, up to the way back to ARM state. -/
def thunkCall (callerRetAddr : Bool) (function : Word) : List Emission :=
  thunkHead callerRetAddr ++ ((AssemblerWriter.ldrBCode callerRetAddr LR
    ++ [.bytes (addressBytes function)]) ++ [.thumb 0x47F0#16, .thumb 0xB002#16])

/-- **The bytes of a thunk.** -/
theorem putThunk_buffer {w : AssemblerWriter} (h : w.currentPc.toNat % 4 = 0)
    (callerRetAddr : Bool) (function : Word) :
    (putThunk w callerRetAddr function).buffer
        = w.buffer ++ thunkHalves callerRetAddr function := by
  have heven : w.currentPc.toNat % 2 = 0 := by omega
  have hoff : w.offWord = false := by
    unfold AssemblerWriter.offWord
    rw [h]
    rfl
  have hhead : (w.emit (thunkHead callerRetAddr)).offWord = callerRetAddr := by
    rw [AssemblerWriter.offWord_emit w heven, hoff]
    cases callerRetAddr <;> rfl
  have hcall : (w.emit (thunkCall callerRetAddr function)).offWord = false := by
    have hlen : ((thunkCall callerRetAddr function).flatMap Emission.halves).length = 50 := by
      rw [thunkCall, List.flatMap_append, List.flatMap_append, List.flatMap_append,
        List.length_append, List.length_append, List.length_append, ldrBCode_length]
      cases callerRetAddr <;> rfl
    rw [AssemblerWriter.offWord_emit w heven, hoff, hlen]
    rfl
  have hput : putThunk w callerRetAddr function
      = (w.emit (thunkCall callerRetAddr function)).emit ([.thumb 0x4778#16, .thumb 0x46C0#16]
        ++ [.bytes (ctxRestore.flatMap addressBytes), .arm 0xE24DD008#32, .arm 0xE58D1000#32,
          .arm 0xE28F1009#32, .arm 0xE58D1004#32, .arm 0xE49D1004#32, .arm 0xE49DF004#32,
          .thumb 0xB001#16, .thumb 0xF85D#16, .thumb 0xFB04#16]) := by
    have hbegin : (if callerRetAddr then
        ((((((((((w.thumbPutBxReg PC).armPutBytes (ctxSave.flatMap addressBytes)).armPutAddRegRegImm
          1#4 PC 1#32).armPutBxReg 1#4).thumbPutSubRegImm SP 0x8).thumbPutAddRegRegImm 1#4 SP
          (ctxSaveStackOffset + 0x8 + 0x8)).thumbPutStrRegRegOffset 1#4 SP
          0x4).thumbPutLdrRegRegOffset 0#4 SP
              (ctxSaveStackOffset + 0x8)).thumbPutAddRegRegImm 1#4 SP
          (ctxSaveStackOffset + 0x8 + 0x4)).thumbPutAddRegRegImm 2#4 SP 0x4).thumbPutAddRegRegImm
          3#4 SP (0x8 + 13 * 4)
        else
        (((((((((w.thumbPutBxReg PC).armPutBytes (ctxSave.flatMap addressBytes)).armPutAddRegRegImm
          1#4 PC 1#32).armPutBxReg 1#4).thumbPutSubRegImm SP 0x8).thumbPutAddRegRegImm 1#4 SP
          (ctxSaveStackOffset + 0x8 + 0x8)).thumbPutStrRegRegOffset 1#4 SP
          0x4).thumbPutLdrRegRegOffset 0#4 SP
              (ctxSaveStackOffset + 0x8)).thumbPutAddRegRegImm 1#4 SP
          (ctxSaveStackOffset + 0x8 + 0x4)).thumbPutAddRegRegImm 2#4 SP 0x4)
        = w.emit (thunkHead callerRetAddr) := by
      rw [AssemblerWriter.thumbPutBxReg_pc hoff]
      cases callerRetAddr <;> rfl
    have hldr : (((w.emit (thunkHead callerRetAddr)).thumbPutLdrBRegAddress LR
        function).thumbPutBlxReg LR).thumbPutAddRegImm SP 0x8
        = w.emit (thunkCall callerRetAddr function) := by
      rw [AssemblerWriter.thumbPutLdrBRegAddress_eq, hhead]
      rw [thunkCall, w.emit_append, (w.emit (thunkHead callerRetAddr)).emit_append (_ ++ _)]
      rfl
    unfold putThunk
    dsimp only
    rw [hbegin, hldr, AssemblerWriter.thumbPutBxReg_pc hcall, AssemblerWriter.emit_append]
    rfl
  rw [hput, AssemblerWriter.emit_buffer, AssemblerWriter.emit_buffer, List.append_assoc]
  cases callerRetAddr <;> rfl

/-! ## Pieces that do an operation -/

/-- The instruction in a piece. -/
def decodePiece (thumb : Bool) : List Half → Option Insn
  | [w] => if thumb && !isThumb32 w then decodeThumb16 w else none
  | [w, w'] =>
    if thumb then (if isThumb32 w then decodeThumb32 (w ++ w') else none) else decodeArm (w' ++ w)
  | _ => none

theorem addressBytes_append (w w' : Half) : addressBytes (w' ++ w) = [w, w'] := by
  have hlow : lowHalf (w' ++ w) = w := by
    ext i hi
    simp only [lowHalf, BitVec.getElem_extractLsb', BitVec.getLsbD_append]
    simp [hi]
  have hhigh : highHalf (w' ++ w) = w' := by
    ext i hi
    simp only [highHalf, BitVec.getElem_extractLsb', BitVec.getLsbD_append]
    simp [hi]
  rw [addressBytes, hlow, hhigh]

theorem encodes_of_decode {thumb : Bool} {piece : List Half} {x : Insn}
    (h : decodePiece thumb piece = some x) : Encodes thumb piece x := by
  unfold decodePiece at h
  split at h
  · split at h
    · next hw =>
      obtain ⟨rfl, hn⟩ := (Bool.and_eq_true _ _).mp hw
      exact encodes_thumb16 ((Bool.not_eq_true' _).mp hn) h
    · cases h
  · next w w' =>
    split at h
    · next ht =>
      split at h
      · next hw =>
        rw [ht]
        exact encodes_thumb32 hw h
      · cases h
    · next ht =>
      rw [Bool.eq_false_iff.mpr ht, ← addressBytes_append]
      exact encodes_arm h
  · cases h

section Pieces

variable {base addr pc : Word} {n : ℕ} {m₀ : Mem} {thumb : Bool} {piece : List Half} {o : FrameOp}
  {op : Op}

/-- An instruction that stands for an operation does it. -/
theorem doneBy_of_encodes (hn : 4 * n ≤ 2 ^ 32) (he : Encodes thumb piece ⟨always, op⟩)
    (hpc : pc = if thumb then addr + 4#32 else addr + 8#32) (hm : FrameOp.Means pc o op) :
    o.DoneBy base n m₀ thumb addr piece := by
  intro a s ht hspc hc h hfit
  subst hspc
  obtain ⟨t, ht', htpc, htt, htf, hframe⟩ :=
    hm.exec h hn hfit (s.pc + BitVec.ofNat 32 (2 * piece.length))
  have hval : s.pcValue = pc := by rw [State.pcValue, ht, hpc]
  have hstep : step s = some t := by rw [he s ht hc, Insn.exec_always, hval, ht']
  exact ⟨t, Reaches.single hstep, htpc, htt.trans ht, htf, hframe⟩

/-- Instructions that stand for operations wherever they are. -/
theorem frameCode_of_decode (hn : 4 * n ≤ 2 ^ 32) {items : List (List Half × FrameOp)}
    (h : ∀ i ∈ items, i.2.op.isSome = true
      ∧ decodePiece thumb i.1 = i.2.op.map (Insn.mk always)) (addr : Word) :
    FrameCode base n m₀ thumb addr items := by
  refine FrameCode.of_forall (fun i hi addr => ?_) addr
  obtain ⟨hsome, hd⟩ := h i hi
  obtain ⟨op, hop⟩ := Option.isSome_iff_exists.mp hsome
  rw [hop] at hd
  exact doneBy_of_encodes hn (encodes_of_decode hd) rfl (.op hop)

/-- The address of a place near the program counter. -/
theorem frameCode_adr (hn : 4 * n ≤ 2 ^ 32) {r : Reg} {imm v : Word}
    (he : decodePiece thumb piece = some ⟨always, .adr true r imm⟩)
    (hpc : pc = if thumb then addr + 4#32 else addr + 8#32) (hal : pc.toNat % 4 = 0)
    (hv : pc + imm = v) : FrameCode base n m₀ thumb addr [(piece, .set r v)] := by
  refine .cons ?_ (.nil _)
  rw [← hv]
  have h : FrameOp.Means pc (.set r (align4 pc + imm)) (.adr true r imm) := .adr r imm
  rw [align4_of_aligned hal] at h
  exact doneBy_of_encodes hn (encodes_of_decode he) hpc h

/-- A literal load sets a register. -/
theorem frameCode_loads {phase : ℕ} {r : Reg} {v : Word} (hl : LoadsValue thumb phase piece r v)
    (hphase : addr.toNat % 4 = phase) : FrameCode base n m₀ thumb addr [(piece, .set r v)] := by
  refine .cons (fun a s ht hpc hc h hfit => ?_) (.nil _)
  subst hpc
  exact ⟨_, (hl.run s ⟨hphase, ht, hc⟩ (FrameOp.plain_ne hfit).2).reaches, rfl, ht, rfl,
    h.setReg hfit v _⟩

end Pieces

end HookZz
