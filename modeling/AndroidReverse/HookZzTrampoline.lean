import AndroidReverse.HookZzPrologue

/-!
# Trampolines

What a hook consists of: `interceptor-arm.c`, `backend-arm-helper.c` and
`trampoline.c`. `ZzPrepareTrampoline` decides how much of the target is going
to be overwritten and saves it; the builders write the pieces of code a hook
needs and `ZzBuildTrampoline` puts them in the order of the hook's type.

A backend has a reader, a writer and a relocator for each instruction set and
every builder resets those it uses, so here a backend is its two relocators,
which hold their readers and writers.

Two things are left to whoever runs a builder: where the allocator puts a
piece of code, if it finds a place at all, and whether patching succeeds. Both
are answers the world has in store.
-/

namespace HookZz

open Arm

/-! ## Data -/

/-- The `enum ZZSTATUS`, as far as it is used here. -/
inductive Status where
  | done
  | success
  | failed
  | doneHook
  | doneEnable
  | alreadyHook
  | alreadyEnabled
  | noBuildHook
deriving DecidableEq, Repr

/-- The `enum ZZHOOKTYPE`. -/
inductive HookType where
  | oneInstruction
  | functionViaPrePost
  | functionViaReplace
  | functionViaGot
  | dbi
deriving DecidableEq, Repr

/-- `FunctionBackup`. -/
structure FunctionBackup where
  /-- Where the bytes were. -/
  address : Word
  /-- How many they are. -/
  size : ℕ
  /-- The bytes. -/
  data : List Byte
deriving DecidableEq, Repr

/-- `ZzHookFunctionEntry`. A null pointer is 0. -/
structure HookFunctionEntry where
  /-- Where the entry itself is: the trampolines pass its address on. -/
  ptr : Word
  /-- The kind of hook. -/
  hookType : HookType
  /-- Its number. -/
  id : ℕ
  /-- Whether the target is patched. -/
  isEnabled : Bool
  /-- Whether four bytes are to be enough. -/
  tryNearJump : Bool
  /-- The key of its call stacks. -/
  threadLocalKey : Word
  /-- What is hooked; bit 0 says that it is Thumb code. -/
  targetPtr : Word
  /-- Where to go on behind a hooked instruction. -/
  nextInsnAddr : Word
  /-- What is called before the target. -/
  preCall : Word
  /-- What is called after it. -/
  postCall : Word
  /-- What is called before an instruction. -/
  stubCall : Word
  /-- What is called instead of the target. -/
  replaceCall : Word
  /-- The jump in reach of the target. -/
  onEnterTransferTrampoline : Word
  /-- The jump to the enter thunk. -/
  onEnterTrampoline : Word
  /-- The jump to the leave thunk of an instruction. -/
  onInsnLeaveTrampoline : Word
  /-- The relocated prologue. -/
  onInvokeTrampoline : Word
  /-- The jump to the leave thunk. -/
  onLeaveTrampoline : Word
  /-- The jump to the instrumentation thunk. -/
  onDynamicBinaryInstrumentationTrampoline : Word
  /-- What the target was overwritten over. -/
  originPrologue : FunctionBackup
  /-- `backend->redirect_code_size`, if there is a backend. -/
  redirectCodeSize : Option ℕ
deriving DecidableEq, Repr

/-- `ZzInterceptorBackend`. -/
structure InterceptorBackend where
  /-- The ARM relocator, with its reader and its writer. -/
  armRelocator : Relocator
  /-- The Thumb relocator, with its reader and its writer. -/
  thumbRelocator : Relocator
  /-- The thunk in front of a function. -/
  enterThunk : Word
  /-- The thunk behind an instruction. -/
  insnLeaveThunk : Word
  /-- The thunk behind a function. -/
  leaveThunk : Word
  /-- The thunk in front of an instruction. -/
  dynamicBinaryInstrumentationThunk : Word
deriving DecidableEq, Repr

/-- **The world a hook is built in**: the memory, and what is going to be
answered to requests. -/
structure World where
  /-- The memory. -/
  mem : Mem
  /-- Where a builder has its buffer: `temp_code_slice`. -/
  tempCodeSlice : Word
  /-- Where the next code slices are, as long as there are any. -/
  slices : List (Option Word)
  /-- Whether the next patches succeed. -/
  patches : List Bool

/-- The backend, the entry and the world a builder works on. -/
structure HookState where
  /-- The backend: `self`. -/
  backend : InterceptorBackend
  /-- The entry. -/
  entry : HookFunctionEntry
  /-- The world. -/
  world : World

/-! ## The world -/

namespace World

/-- `ZzNewCodeSlice` and `ZzNewNearCodeSlice`, whose `range_size` is 0 if the
slice may be anywhere. -/
def newCodeSlice (w : World) : Option Word × World :=
  (w.slices.headD none, { w with slices := w.slices.tail })

/-- `ZzMemoryPatchCode`. -/
def memoryPatchCode (w : World) (address : Word) (codedata : List Byte) : Bool × World :=
  if w.patches.headD true then
    (true, { w with mem := w.mem.place 1 address codedata, patches := w.patches.tail })
  else (false, { w with patches := w.patches.tail })

end World

/-- The bytes of what a writer has written, as they are patched:
`w_start_address, size`. -/
def AssemblerWriter.code (self : AssemblerWriter) : List Byte :=
  (self.buffer.flatMap fun h => [h.setWidth 8, h.extractLsb' 8 8]).take self.size

/-- `zz_arm_code_patch` and `zz_thumb_code_patch`. -/
def codePatch (writer : AssemblerWriter) (w : World) : Option Word × World :=
  match w.newCodeSlice with
  | (none, w) => (none, w)
  | (some data, w) =>
    match w.memoryPatchCode data writer.code with
    | (true, w) => (some data, w)
    | (false, w) => (none, w)

/-- `zz_arm_relocate_code_patch` and `zz_thumb_relocate_code_patch`; `none` if
the assertion of `relocate_writer` fails. -/
def relocateCodePatch (thumb : Bool) (relocator : Relocator) (w : World) :
    Option (Option Word × Relocator × World) :=
  match w.newCodeSlice with
  | (none, w) => some (none, relocator, w)
  | (some data, w) =>
    (if thumb then relocator.thumbRelocateWriter data else relocator.armRelocateWriter data).map
      fun relocator =>
        match w.memoryPatchCode data relocator.output.code with
        | (true, w) => (some data, relocator, w)
        | (false, w) => (none, relocator, w)

/-! ## Preparing -/

/-- `INSTRUCTION_IS_THUMB`. -/
def instructionIsThumb (insnAddr : Word) : Bool := insnAddr &&& 1#32 == 1#32

/-- `target_addr`: the target without its Thumb bit. -/
def targetAddr (targetPtr : Word) : Word :=
  if instructionIsThumb targetPtr then targetPtr &&& ~~~1#32 else targetPtr

/-- The instructions behind which a function may end: the `switch` of the two
`try_relocate`. -/
def isEarlyEnd (thumb : Bool) (insnCtx : ARMInstruction) : Bool :=
  if thumb then
    let type := getTHUMBInsnType insnCtx.insn1 insnCtx.insn2
    type == .bT2 || type == .bT4
  else getARMInsnType insnCtx.insn == .bA1 && getInsnSub insnCtx.insn 28 4 == 0xE#32

/-- The instruction a reader is at. -/
def readerInsn (thumb : Bool) (mem : Mem) (reader : ARMReader) : ARMInstruction :=
  if thumb then thumbReaderInsn mem reader else armReaderInsn mem reader

/-- The loop of `try_relocate`, with `tmp_size` and `early_end`; the first
argument bounds the number of turns. -/
def tryRelocateLoop (thumb : Bool) (mem : Mem) (minBytes : ℕ) :
    ℕ → ARMReader → ℕ → Bool → ℕ × Bool
  | 0, _, tmpSize, earlyEnd => (tmpSize, earlyEnd)
  | turns + 1, reader, tmpSize, earlyEnd =>
    let insnCtx := readerInsn thumb mem reader
    let earlyEnd := earlyEnd || isEarlyEnd thumb insnCtx
    let tmpSize := tmpSize + insnCtx.size
    if tmpSize < minBytes then
      tryRelocateLoop thumb mem minBytes turns (reader.push insnCtx) tmpSize earlyEnd
    else (tmpSize, earlyEnd)

/-- `zz_arm_relocator_try_relocate` and `zz_thumb_relocator_try_relocate`: what
`max_bytes` is afterwards. -/
def tryRelocate (thumb : Bool) (mem : Mem) (address : Word) (minBytes maxBytes : ℕ) : ℕ :=
  let r := tryRelocateLoop thumb mem minBytes minBytes (readerReset thumb address) 0 false
  if r.2 then r.1 else maxBytes

/-- `ZZ_THUMB_TINY_REDIRECT_SIZE` and `ZZ_ARM_TINY_REDIRECT_SIZE`. -/
def tinyRedirectSize : ℕ := 4

/-- `ZZ_THUMB_FULL_REDIRECT_SIZE` and `ZZ_ARM_FULL_REDIRECT_SIZE`. -/
def fullRedirectSize : ℕ := 8

/-- The part of `ZzPrepareTrampoline` that decides how many bytes are
overwritten, and whether a near jump is tried after all; `none` if there is not
enough room. -/
def chooseRedirect (mem : Mem) (targetPtr : Word) (tryNearJump : Bool) : Option (Bool × ℕ) :=
  let isThumb := instructionIsThumb targetPtr
  let addr := targetAddr targetPtr
  if tryNearJump then some (tryNearJump, tinyRedirectSize)
  else
    let redirectLimit := tryRelocate isThumb mem addr fullRedirectSize 0
    if redirectLimit ≠ 0 ∧ redirectLimit > tinyRedirectSize ∧ redirectLimit < fullRedirectSize then
      some (true, tinyRedirectSize)
    else if redirectLimit ≠ 0 ∧ redirectLimit < tinyRedirectSize then none
    else if isThumb then
      -- put nop to align
      some (tryNearJump, if addr.toNat % 4 ≠ 0 then fullRedirectSize + 2 else fullRedirectSize)
    else some (tryNearJump, fullRedirectSize)

/-- `size` bytes of the memory: the source of a `memcpy`. -/
def memBytes (mem : Mem) (address : Word) (size : ℕ) : List Byte :=
  (List.range size).map fun i => mem (address + BitVec.ofNat 32 i)

/-- `ZzPrepareTrampoline`. -/
def prepareTrampoline (s : HookState) : Status × HookState :=
  match chooseRedirect s.world.mem s.entry.targetPtr s.entry.tryNearJump with
  | none => (.failed, { s with entry := { s.entry with redirectCodeSize := some 0 } })
  | some (tryNearJump, redirectCodeSize) =>
    let addr := targetAddr s.entry.targetPtr
    (.success, { s with
      entry := { s.entry with
        tryNearJump := tryNearJump
        redirectCodeSize := some redirectCodeSize
        originPrologue := ⟨addr, redirectCodeSize, memBytes s.world.mem addr redirectCodeSize⟩ }
      backend := { s.backend with
        armRelocator := Relocator.init s.backend.armRelocator.input s.backend.armRelocator.output
        thumbRelocator :=
          Relocator.init s.backend.thumbRelocator.input s.backend.thumbRelocator.output } })

/-! ## The trampolines -/

/-- What every trampoline of a hook begins with: the entry is pushed, above it
a slot for where to go on, and a thunk is jumped to. -/
def putThunkJump (writer : AssemblerWriter) (entry thunk : Word) : AssemblerWriter :=
  let writer := writer.thumbPutSubRegImm SP 0xc
  let writer := writer.thumbPutStrRegRegOffset 1#4 SP 0x0
  let writer := writer.thumbPutLdrBRegAddress 1#4 entry
  let writer := writer.thumbPutStrRegRegOffset 1#4 SP 0x4
  let writer := writer.thumbPutLdrRegRegOffset 1#4 SP 0x0
  let writer := writer.thumbPutAddRegImm SP 0x4
  writer.thumbPutLdrRegAddress PC thunk

/-- A state whose Thumb writer has written something else. -/
def HookState.withThumbWriter (s : HookState) (writer : AssemblerWriter) : HookState :=
  { s with backend := { s.backend with
      thumbRelocator := { s.backend.thumbRelocator with output := writer } } }

/-- A state whose ARM writer has written something else. -/
def HookState.withArmWriter (s : HookState) (writer : AssemblerWriter) : HookState :=
  { s with backend := { s.backend with
      armRelocator := { s.backend.armRelocator with output := writer } } }

/-- Code is patched in and the entry notes down where: `set` is the assignment
to its field. -/
def HookState.place (s : HookState) (writer : AssemblerWriter)
    (set : HookFunctionEntry → Word → HookFunctionEntry) : Status × HookState :=
  match codePatch writer s.world with
  | (some data, world) => (.success, { s with world := world, entry := set s.entry data })
  | (none, world) => (.failed, { s with world := world })

/-- A trampoline to a thunk. -/
def buildThunkJump (s : HookState) (thunk : Word)
    (set : HookFunctionEntry → Word → HookFunctionEntry) : Status × HookState :=
  let writer := putThunkJump
    (AssemblerWriter.thumbReset s.world.tempCodeSlice 0#32) s.entry.ptr thunk
  (s.withThumbWriter writer).place writer set

/-- Where `ZzBuildEnterTransferTrampoline` jumps to. -/
def transferAddress (entry : HookFunctionEntry) : Word :=
  match entry.hookType with
  | .functionViaReplace => entry.replaceCall
  | .dbi => entry.onDynamicBinaryInstrumentationTrampoline
  | _ => entry.onEnterTrampoline

/-- `ZzBuildEnterTransferTrampoline`. -/
def buildEnterTransferTrampoline (s : HookState) : Status × HookState :=
  let address := transferAddress s.entry
  if instructionIsThumb s.entry.targetPtr then
    let writer := (AssemblerWriter.thumbReset s.world.tempCodeSlice s.world.tempCodeSlice)
      |>.thumbPutLdrRegAddress PC address
    (s.withThumbWriter writer).place writer
      fun entry data => { entry with onEnterTransferTrampoline := data + 1#32 }
  else
    let writer := (AssemblerWriter.armReset s.world.tempCodeSlice 0#32).armPutLdrRegAddress PC address
    (s.withArmWriter writer).place writer
      fun entry data => { entry with onEnterTransferTrampoline := data }

/-- The end of the two builders of what is entered: the jump in reach of the
target, if four bytes have to do. -/
def buildTransferIfTiny (r : Status × HookState) : Status × HookState :=
  if r.1 = .success ∧ r.2.entry.redirectCodeSize = some tinyRedirectSize then
    (r.1, (buildEnterTransferTrampoline r.2).2)
  else r

/-- `ZzBuildEnterTrampoline`. -/
def buildEnterTrampoline (s : HookState) : Status × HookState :=
  let r := buildThunkJump s s.backend.enterThunk
    fun entry data => { entry with onEnterTrampoline := data + 1#32 }
  if s.entry.hookType ≠ .functionViaGot then buildTransferIfTiny r else r

/-- `ZzBuildDynamicBinaryInstrumentationTrampoline`. -/
def buildDynamicBinaryInstrumentationTrampoline (s : HookState) : Status × HookState :=
  buildTransferIfTiny (buildThunkJump s s.backend.dynamicBinaryInstrumentationThunk
    fun entry data => { entry with onDynamicBinaryInstrumentationTrampoline := data + 1#32 })

/-- `ZzBuildInsnLeaveTrampoline`. -/
def buildInsnLeaveTrampoline (s : HookState) : Status × HookState :=
  buildThunkJump s s.backend.insnLeaveThunk
    fun entry data => { entry with onInsnLeaveTrampoline := data + 1#32 }

/-- `ZzBuildLeaveTrampoline`, whose answer is another one. -/
def buildLeaveTrampoline (s : HookState) : Status × HookState :=
  match buildThunkJump s s.backend.leaveThunk
    (fun entry data => { entry with onLeaveTrampoline := data + 1#32 }) with
  | (.success, s) => (.done, s)
  | r => r

/-- The loop of a hooked instruction, which writes what it reads. -/
def readWriteUntil (thumb : Bool) (mem : Mem) (redirectCodeSize : ℕ) : ℕ → Relocator → Relocator
  | 0, self => self
  | turns + 1, self =>
    let r := readOne thumb mem self
    let r := (writeOne thumb r).getD r
    if r.input.size < redirectCodeSize then readWriteUntil thumb mem redirectCodeSize turns r else r

/-- The code of the invoke trampoline of a hooked instruction: behind it is a
jump to the trampoline that leaves it. -/
def insnInvokeCode (thumb : Bool) (mem : Mem) (self : Relocator) (dataPtr addr : Word)
    (redirectCodeSize : ℕ) (onInsnLeaveTrampoline : Word) : Relocator :=
  let self := self.reset (readerReset thumb addr) (writerReset thumb dataPtr 0#32)
  let self := readOne thumb mem self
  let self := (writeOne thumb self).getD self
  let self := self.write (putLdrPc thumb onInsnLeaveTrampoline)
  let self := readWriteUntil thumb mem redirectCodeSize (redirectCodeSize + 1) self
  let restoreNextInsnAddr := addr + BitVec.ofNat 32 self.input.size
  self.write (putLdrPc thumb (if thumb then restoreNextInsnAddr + 1#32 else restoreNextInsnAddr))

/-- The code of the invoke trampoline of an entry, as the relocator has
written it when it is handed on. -/
def invokeRelocator (s : HookState) : Relocator :=
  let isThumb := instructionIsThumb s.entry.targetPtr
  let relocator := if isThumb then s.backend.thumbRelocator else s.backend.armRelocator
  let redirectCodeSize := s.entry.redirectCodeSize.getD 0
  if s.entry.hookType = .oneInstruction then
    insnInvokeCode isThumb s.world.mem relocator s.world.tempCodeSlice
        (targetAddr s.entry.targetPtr)
      redirectCodeSize s.entry.onInsnLeaveTrampoline
  else
    invokeCode isThumb s.world.mem relocator s.world.tempCodeSlice (targetAddr s.entry.targetPtr)
      redirectCodeSize

/-- What the entry notes down about its invoke trampoline. -/
def setInvoke (isThumb : Bool) (relocator : Relocator) (entry : HookFunctionEntry) (data : Word) :
    HookFunctionEntry :=
  let data := if isThumb then data + 1#32 else data
  { entry with
    onInvokeTrampoline := data
    nextInsnAddr :=
      if entry.hookType = .oneInstruction then
        let relocatorInsn := relocator.relocatorInsns[1]?
        let insn := relocatorInsn.bind fun r => relocator.output.insns[r.relocatedInsns]?
        (insn.elim 0#32 ARMInstruction.pc - relocator.output.startPc) + data
      else entry.nextInsnAddr }

/-- `ZzBuildInvokeTrampoline`; `none` if the assertion of the relocator
fails. -/
def buildInvokeTrampoline (s : HookState) : Option (Status × HookState) :=
  let isThumb := instructionIsThumb s.entry.targetPtr
  (relocateCodePatch isThumb (invokeRelocator s) s.world).map fun (slice, relocator, world) =>
    let backend := if isThumb then { s.backend with thumbRelocator := relocator }
      else { s.backend with armRelocator := relocator }
    match slice with
    | some data => (.success, ⟨backend, setInvoke isThumb relocator s.entry data, world⟩)
    | none => (.failed, ⟨backend, s.entry, world⟩)

/-- `ZzBuildTrampoline`, which looks at none of the answers. -/
def buildTrampoline (s : HookState) : Option (Status × HookState) :=
  match s.entry.hookType with
  | .oneInstruction => do
    let s := (prepareTrampoline s).2
    let s := (buildEnterTrampoline s).2
    let s := (buildInsnLeaveTrampoline s).2
    let r ← buildInvokeTrampoline s
    some (.done, r.2)
  | .functionViaPrePost => do
    let s := (prepareTrampoline s).2
    let s := (buildEnterTrampoline s).2
    let r ← buildInvokeTrampoline s
    some (.done, (buildLeaveTrampoline r.2).2)
  | .functionViaReplace => do
    let s := (prepareTrampoline s).2
    let s := (buildEnterTransferTrampoline s).2
    let r ← buildInvokeTrampoline s
    some (.done, r.2)
  | .functionViaGot =>
    let s := (buildEnterTrampoline s).2
    some (.done, (buildLeaveTrampoline s).2)
  | .dbi => do
    let s := (prepareTrampoline s).2
    let s := (buildDynamicBinaryInstrumentationTrampoline s).2
    let r ← buildInvokeTrampoline s
    some (.done, r.2)

/-- What `ZzBuildTrampoline` has done when it gets to the invoke
trampoline. -/
def beforeInvoke (s : HookState) : HookState :=
  let s := (prepareTrampoline s).2
  match s.entry.hookType with
  | .oneInstruction => (buildInsnLeaveTrampoline (buildEnterTrampoline s).2).2
  | .functionViaReplace => (buildEnterTransferTrampoline s).2
  | .dbi => (buildDynamicBinaryInstrumentationTrampoline s).2
  | _ => (buildEnterTrampoline s).2

/-! ## What the builders keep -/

section Keeps

/-- **What no builder changes in an entry**, once it is prepared. -/
structure HookFunctionEntry.Keeps (e e' : HookFunctionEntry) : Prop where
  ptr : e'.ptr = e.ptr
  hookType : e'.hookType = e.hookType
  isEnabled : e'.isEnabled = e.isEnabled
  targetPtr : e'.targetPtr = e.targetPtr
  originPrologue : e'.originPrologue = e.originPrologue
  redirectCodeSize : e'.redirectCodeSize = e.redirectCodeSize

/-- **What the builders keep** up to the invoke trampoline: the blocks that are
noted down in the relocators as well. -/
structure HookState.Keeps (s s' : HookState) : Prop extends s.entry.Keeps s'.entry where
  arm : s'.backend.armRelocator.relocatorInsns = s.backend.armRelocator.relocatorInsns
  thumb : s'.backend.thumbRelocator.relocatorInsns = s.backend.thumbRelocator.relocatorInsns

variable {s s' s'' : HookState}

theorem HookFunctionEntry.Keeps.trans {e e' e'' : HookFunctionEntry} (h : e.Keeps e')
    (h' : e'.Keeps e'') : e.Keeps e'' :=
  ⟨h'.ptr.trans h.ptr, h'.hookType.trans h.hookType, h'.isEnabled.trans h.isEnabled,
    h'.targetPtr.trans h.targetPtr, h'.originPrologue.trans h.originPrologue,
    h'.redirectCodeSize.trans h.redirectCodeSize⟩

theorem HookState.Keeps.refl (s : HookState) : s.Keeps s :=
  ⟨⟨rfl, rfl, rfl, rfl, rfl, rfl⟩, rfl, rfl⟩

theorem HookState.Keeps.trans (h : s.Keeps s') (h' : s'.Keeps s'') : s.Keeps s'' :=
  ⟨h.toKeeps.trans h'.toKeeps, h'.arm.trans h.arm, h'.thumb.trans h.thumb⟩

theorem withThumbWriter_keeps (s : HookState) (writer : AssemblerWriter) :
    s.Keeps (s.withThumbWriter writer) :=
  ⟨⟨rfl, rfl, rfl, rfl, rfl, rfl⟩, rfl, rfl⟩

theorem withArmWriter_keeps (s : HookState) (writer : AssemblerWriter) :
    s.Keeps (s.withArmWriter writer) :=
  ⟨⟨rfl, rfl, rfl, rfl, rfl, rfl⟩, rfl, rfl⟩

theorem place_keeps (s : HookState) (writer : AssemblerWriter)
    {set : HookFunctionEntry → Word → HookFunctionEntry} 
    (hset : ∀ (e : HookFunctionEntry) (data : Word), e.Keeps (set e data)) :
    s.Keeps (s.place writer set).2 := by
  unfold HookState.place
  match codePatch writer s.world with
  | (some data, world) => exact ⟨hset s.entry data, rfl, rfl⟩
  | (none, world) => exact ⟨(HookState.Keeps.refl s).toKeeps, rfl, rfl⟩

theorem buildThunkJump_keeps (s : HookState) (thunk : Word)
    {set : HookFunctionEntry → Word → HookFunctionEntry} 
    (hset : ∀ (e : HookFunctionEntry) (data : Word), e.Keeps (set e data)) :
    s.Keeps (buildThunkJump s thunk set).2 :=
  (withThumbWriter_keeps s _).trans (place_keeps (s.withThumbWriter _) _ hset)

theorem buildEnterTransferTrampoline_keeps (s : HookState) :
    s.Keeps (buildEnterTransferTrampoline s).2 := by
  unfold buildEnterTransferTrampoline
  split
  · refine (withThumbWriter_keeps s _).trans (place_keeps _ _ ?_)
    exact fun _ _ => ⟨rfl, rfl, rfl, rfl, rfl, rfl⟩
  · refine (withArmWriter_keeps s _).trans (place_keeps _ _ ?_)
    exact fun _ _ => ⟨rfl, rfl, rfl, rfl, rfl, rfl⟩

theorem buildTransferIfTiny_keeps {r : Status × HookState} (h : s.Keeps r.2) :
    s.Keeps (buildTransferIfTiny r).2 := by
  unfold buildTransferIfTiny
  split
  · exact h.trans (buildEnterTransferTrampoline_keeps r.2)
  · exact h

theorem buildEnterTrampoline_keeps (s : HookState) : s.Keeps (buildEnterTrampoline s).2 := by
  have h : s.Keeps (buildThunkJump s s.backend.enterThunk
      fun entry data => { entry with onEnterTrampoline := data + 1#32 }).2 :=
    buildThunkJump_keeps s _ fun _ _ => ⟨rfl, rfl, rfl, rfl, rfl, rfl⟩
  unfold buildEnterTrampoline
  dsimp only
  split
  · exact buildTransferIfTiny_keeps h
  · exact h

theorem buildDynamicBinaryInstrumentationTrampoline_keeps (s : HookState) :
    s.Keeps (buildDynamicBinaryInstrumentationTrampoline s).2 :=
  buildTransferIfTiny_keeps
    (buildThunkJump_keeps s _ fun _ _ => ⟨rfl, rfl, rfl, rfl, rfl, rfl⟩)

theorem buildInsnLeaveTrampoline_keeps (s : HookState) : s.Keeps (buildInsnLeaveTrampoline s).2 :=
  buildThunkJump_keeps s _ fun _ _ => ⟨rfl, rfl, rfl, rfl, rfl, rfl⟩

theorem buildLeaveTrampoline_keeps (s : HookState) : s.Keeps (buildLeaveTrampoline s).2 := by
  have h : s.Keeps (buildThunkJump s s.backend.leaveThunk
      fun entry data => { entry with onLeaveTrampoline := data + 1#32 }).2 :=
    buildThunkJump_keeps s _ fun _ _ => ⟨rfl, rfl, rfl, rfl, rfl, rfl⟩
  unfold buildLeaveTrampoline
  split
  · rename_i hs
    rwa [hs] at h
  · exact h

/-- From the preparation to the invoke trampoline. -/
theorem beforeInvoke_keeps (s : HookState) : (prepareTrampoline s).2.Keeps (beforeInvoke s) := by
  unfold beforeInvoke
  dsimp only
  split
  · exact (buildEnterTrampoline_keeps _).trans (buildInsnLeaveTrampoline_keeps _)
  · exact buildEnterTransferTrampoline_keeps _
  · exact buildDynamicBinaryInstrumentationTrampoline_keeps _
  · exact buildEnterTrampoline_keeps _

theorem buildInvokeTrampoline_keeps {status : Status}
    (h : buildInvokeTrampoline s = some (status, s')) : s.entry.Keeps s'.entry := by
  obtain ⟨⟨slice, relocator, world⟩, -, hs⟩ := Option.map_eq_some_iff.mp h
  cases slice with
  | none =>
    rw [← (Prod.mk.inj hs).2]
    exact (HookState.Keeps.refl s).toKeeps
  | some data =>
    rw [← (Prod.mk.inj hs).2]
    exact ⟨rfl, rfl, rfl, rfl, rfl, rfl⟩

theorem prepareTrampoline_hookType (s : HookState) :
    (prepareTrampoline s).2.entry.hookType = s.entry.hookType := by
  unfold prepareTrampoline
  split <;> rfl

/-- **All hooks but those of a table go through the invoke trampoline.** -/
theorem buildTrampoline_eq (h : s.entry.hookType ≠ .functionViaGot) :
    buildTrampoline s = (buildInvokeTrampoline (beforeInvoke s)).map fun r =>
      (.done, if s.entry.hookType = .functionViaPrePost then (buildLeaveTrampoline r.2).2
        else r.2) := by
  have hmap : ∀ (x : Option (Status × HookState)) (f : Status × HookState → Status × HookState),
      (x >>= fun r => some (f r)) = x.map f := by
    intro x f
    cases x <;> rfl
  unfold buildTrampoline beforeInvoke
  simp only [prepareTrampoline_hookType]
  cases ht : s.entry.hookType with
  | functionViaGot => exact absurd ht h
  | oneInstruction => exact hmap _ _
  | functionViaPrePost => exact hmap _ _
  | functionViaReplace => exact hmap _ _
  | dbi => exact hmap _ _

/-- **What is chosen**: as many bytes as the jump takes that is going to be
written over the target. -/
theorem chooseRedirect_size {mem : Mem} {targetPtr : Word} {tryNearJump tryNearJump' : Bool} {k : ℕ}
    (h : chooseRedirect mem targetPtr tryNearJump = some (tryNearJump', k)) :
    k = 4 ∨ k = if instructionIsThumb targetPtr ∧ (targetAddr targetPtr).toNat % 4 ≠ 0 then 10 else 8 := by
  unfold chooseRedirect at h
  dsimp only at h
  split at h
  · exact Or.inl (Prod.mk.inj (Option.some_inj.mp h)).2.symm
  · split at h
    · exact Or.inl (Prod.mk.inj (Option.some_inj.mp h)).2.symm
    · split at h
      · cases h
      · right
        split at h
        · rename_i ht
          rw [← (Prod.mk.inj (Option.some_inj.mp h)).2]
          exact if_congr (iff_of_eq (by rw [ht, eq_self, true_and])) rfl rfl
        · rename_i ht
          rw [← (Prod.mk.inj (Option.some_inj.mp h)).2, if_neg (fun hc => ht hc.1)]
          rfl

/-- A prepared backend has no blocks left of an earlier hook. -/
theorem prepareTrampoline_success (h : (prepareTrampoline s).1 = .success) :
    ∃ tryNearJump k, chooseRedirect s.world.mem s.entry.targetPtr s.entry.tryNearJump
        = some (tryNearJump, k)
      ∧ (prepareTrampoline s).2.entry.redirectCodeSize = some k
      ∧ (prepareTrampoline s).2.entry.targetPtr = s.entry.targetPtr
      ∧ (prepareTrampoline s).2.entry.originPrologue = ⟨targetAddr s.entry.targetPtr, k,
          memBytes s.world.mem (targetAddr s.entry.targetPtr) k⟩
      ∧ (prepareTrampoline s).2.backend.armRelocator.relocatorInsns = []
      ∧ (prepareTrampoline s).2.backend.thumbRelocator.relocatorInsns = [] := by
  unfold prepareTrampoline at h ⊢
  split at h
  · cases h
  · rename_i tryNearJump k hk
    exact ⟨tryNearJump, k, hk, rfl, rfl, rfl, rfl, rfl⟩

/-- **An entry whose trampolines are built** has what was chosen and saved
when it was prepared. -/
theorem buildTrampoline_entry {status : Status} (htype : s.entry.hookType ≠ .functionViaGot)
    (h : buildTrampoline s = some (status, s')) : (prepareTrampoline s).2.entry.Keeps s'.entry := by
  rw [buildTrampoline_eq htype] at h
  obtain ⟨r, hr, hs⟩ := Option.map_eq_some_iff.mp h
  have hinvoke := (beforeInvoke_keeps s).toKeeps.trans (buildInvokeTrampoline_keeps hr)
  rw [← (Prod.mk.inj hs).2]
  split
  · exact hinvoke.trans (buildLeaveTrampoline_keeps r.2).toKeeps
  · exact hinvoke

end Keeps

end HookZz
