import AndroidReverse.HookZzArm64InvokeRun
import AndroidReverse.HookZzArm64ThunkRun

/-!
# A hooked call on A64

What happens when a processor gets to what HookZz has hooked. The redirect there
leads to the enter trampoline, through X17, or to the function that replaces it
(`activated_leads`). The enter thunk calls a function of HookZz, and the invoke
trampoline goes on with what was there.

For a call, `function_context_begin_invocation` calls the `pre_call`, pushes the
return address of the caller and puts the leave trampoline in its place. When the
function returns, the leave thunk calls `function_context_end_invocation`, which
pops the return address. So the function is called and returns as it would, and
the stack of return addresses is what it was (`hooked_returns`), provided that the
function itself leaves it as it was. A hooked call does, so it does not matter
whether the function calls hooked functions, or itself.

For an instruction, the invoke trampoline executes it and goes on to another
thunk, which calls `insn_context_end_invocation` and goes back (`hooked_insn`),
but only if the instruction does not branch.
-/

namespace HookZz.Arm64

open A64

/-- `ZzHookFunctionEntry`, as far as a call depends on it. -/
structure HookFunctionEntry where
  /-- Where the entry is. -/
  address : Addr
  hookType : HookType
  targetPtr : Addr
  nextInsnAddr : Addr
  replaceCall : Addr
  onEnterTransferTrampoline : Addr
  onEnterTrampoline : Addr
  onInvokeTrampoline : Addr
  onInsnLeaveTrampoline : Addr
  onLeaveTrampoline : Addr
  onDynamicBinaryInstrumentationTrampoline : Addr
  /-- `backend->redirect_code_size`. -/
  redirectCodeSize : ℕ

/-- What `ZzBuildInvokeTrampoline` makes for an entry, with the memory as it is then. -/
def HookFunctionEntry.invokeTrampoline (entry : HookFunctionEntry) (mem : Mem) :
    InvokeTrampoline where
  mem := mem
  target := entry.targetPtr
  n := relocatedCount entry.hookType entry.redirectCodeSize
  hookType := entry.hookType
  onInsnLeaveTrampoline := entry.onInsnLeaveTrampoline
  codeSlice := entry.onInvokeTrampoline

/-! ## The redirect -/

/-- `ZZ_ARM64_TINY_REDIRECT_SIZE`. -/
def tinyRedirectSize : ℕ := 4

/-- `ZZ_ARM64_FULL_REDIRECT_SIZE`. -/
def fullRedirectSize : ℕ := 16

/-- Where the transfer trampoline jumps to. -/
def transferAddress (entry : HookFunctionEntry) : Addr :=
  match entry.hookType with
  | .functionViaReplace => entry.replaceCall
  | .dbi => entry.onDynamicBinaryInstrumentationTrampoline
  | _ => entry.onEnterTrampoline

/-- What `ZzBuildEnterTransferTrampoline` writes. -/
def buildEnterTransferTrampoline (tempCodeSlice : Addr) (entry : HookFunctionEntry) :
    AssemblerWriter :=
  (AssemblerWriter.reset tempCodeSlice 0#64).putLdrBrRegAddress x17 (transferAddress entry)

/-- What `ZzActivateTrampoline` writes to the target. The `start_pc` of the writer
is the program counter it begins with. -/
def activateTrampoline (tempCodeSlice : Addr) (entry : HookFunctionEntry) : AssemblerWriter :=
  let writer := AssemblerWriter.reset tempCodeSlice entry.targetPtr
  if entry.redirectCodeSize = tinyRedirectSize then
    writer.putBImm (entry.onEnterTransferTrampoline - writer.currentPc)
  else if entry.hookType = .functionViaReplace then
    writer.putLdrBrRegAddress x17 entry.onEnterTransferTrampoline
  else writer.putLdrBrRegAddress x17 entry.onEnterTrampoline

/-- Where a redirect leads. -/
def redirectAddress (entry : HookFunctionEntry) : Addr :=
  if entry.redirectCodeSize = tinyRedirectSize ∨ entry.hookType = .functionViaReplace then
    transferAddress entry
  else entry.onEnterTrampoline

/-- **What a tiny redirect reaches**: whole instructions, no further than the
displacement of a branch. -/
def NearJump (target a : Addr) : Prop :=
  (a - target).toNat % 4 = 0 ∧ -2 ^ 27 ≤ (a - target).toInt ∧ (a - target).toInt < 2 ^ 27

section NearJump

/-- The word of a branch. -/
theorem bWord_eq (off : Addr) : bWord off = (0b000101#6 ++ off.extractLsb' 2 26 : BitVec 32) := by
  unfold bWord
  refine BitVec.eq_of_getLsbD_eq fun i hi => ?_
  simp only [BitVec.getLsbD_or, BitVec.getLsbD_append, BitVec.getLsbD_extractLsb',
    BitVec.getLsbD_setWidth, BitVec.getLsbD_and, BitVec.getLsbD_ushiftRight]
  interval_cases i <;> simp

theorem decode_bWord_eq (off : Addr) :
    decode (bWord off) = some (.b ((off.extractLsb' 2 26 ++ 0#2).signExtend 64)) := by
  rw [bWord_eq]
  generalize off.extractLsb' 2 26 = i
  have hlow : (0b000101#6 ++ i : BitVec 32).extractLsb' 0 26 = i := by
    refine BitVec.eq_of_getLsbD_eq fun k hk => ?_
    rw [BitVec.getLsbD_extractLsb', BitVec.getLsbD_append, Nat.zero_add, decide_eq_true hk,
      Bool.true_and, if_pos hk]
  have hhigh : ∀ k, 26 ≤ k → (0b000101#6 ++ i : BitVec 32).getLsbD k
      = (0b000101#6).getLsbD (k - 26) := fun k hk => by
    rw [BitVec.getLsbD_append, if_neg (by omega)]
  have hlit : ¬ ((0b000101#6 ++ i : BitVec 32) &&& 0xFF000000#32 = 0x58000000#32) := fun h => by
    have hbit := congrArg (fun w => w.getLsbD 30) h
    rw [BitVec.getLsbD_and, hhigh 30 (by decide)] at hbit
    exact absurd hbit (by decide)
  have hadr : ¬ ((0b000101#6 ++ i : BitVec 32) &&& 0x9F000000#32 = 0x10000000#32) := fun h => by
    have hbit := congrArg (fun w => w.getLsbD 26) h
    rw [BitVec.getLsbD_and, hhigh 26 (by decide)] at hbit
    exact absurd hbit (by decide)
  have hadrp : ¬ ((0b000101#6 ++ i : BitVec 32) &&& 0x9F000000#32 = 0x90000000#32) := fun h => by
    have hbit := congrArg (fun w => w.getLsbD 31) h
    rw [BitVec.getLsbD_and, hhigh 31 (by decide)] at hbit
    exact absurd hbit (by decide)
  have hb : (0b000101#6 ++ i : BitVec 32) &&& 0xFC000000#32 = 0x14000000#32 := by
    refine BitVec.eq_of_getLsbD_eq fun k hk => ?_
    rw [BitVec.getLsbD_and, BitVec.getLsbD_append]
    interval_cases k <;> simp
  unfold decode
  dsimp only
  rw [if_neg hlit, if_neg hadr, if_neg hadrp, if_pos hb, hlow]

/-- **How far a branch reaches.** -/
theorem signExtend_eq_iff (off : Addr) : (off.extractLsb' 2 26 ++ 0#2).signExtend 64 = off
    ↔ off.toNat % 4 = 0 ∧ -2 ^ 27 ≤ off.toInt ∧ off.toInt < 2 ^ 27 := by
  have htoNat : (off.extractLsb' 2 26 ++ 0#2 : BitVec 28).toNat
      = off.toNat % 2 ^ 28 - off.toNat % 4 := by
    rw [BitVec.toNat_append, BitVec.extractLsb'_toNat, Nat.shiftRight_eq_div_pow]
    simp
    omega
  have hoff := off.isLt
  rw [← BitVec.toInt_inj, BitVec.toInt_signExtend_of_le (by decide), BitVec.toInt_eq_toNat_cond,
    BitVec.toInt_eq_toNat_cond, htoNat]
  split <;> split <;> omega

/-- **Where a tiny redirect leads**: to where it should if that is near. -/
theorem tiny_leads_iff {isa : Isa} {target a : Addr} {s : VState} (hpc : s.pc = target)
    (hcode : WordsAt s.mem target [bWord (a - target)]) :
    isa.step s = some (s.goto a) ↔ NearJump target a := by
  have hfetch : s.mem.read32 s.pc = bWord (a - target) := by
    have hw := hcode 0 _ rfl
    rw [Nat.mul_zero, BitVec.add_zero] at hw
    rw [hpc, hw]
  have hstep : isa.step s = some _ := Isa.step_of_decodeInsn (i := .core (.b _)) hfetch
    (by rw [decodeInsn, decode_bWord_eq])
  rw [hstep, NearJump, ← signExtend_eq_iff]
  have htarget : ∀ d : Addr, s.pc + d = a ↔ d = a - target := fun d => by
    rw [hpc]
    constructor <;> intro h <;> bv_omega
  constructor
  · intro h
    exact (htarget _).mp (congrArg (fun t : VState => t.pc) (Option.some.inj h))
  · intro h
    refine congrArg some ?_
    show s.goto (s.pc + _) = s.goto a
    rw [(htarget _).mpr h]

end NearJump

section Activated

variable {isa : Isa} {entry : HookFunctionEntry} {s : VState}

/-- A jump through X17. -/
theorem jumpBlock_reaches {a : Addr} (h : WordsAt s.mem s.pc (jumpBlock a)) :
    isa.Reaches s ((s.setReg x17 a).goto a) :=
  Isa.Reaches.of_runsWithin (jumpBlock_runs h rfl) s.vec

/-- Two jumps through X17. -/
theorem jumpBlock_reaches_twice {a b : Addr} (h : WordsAt s.mem s.pc (jumpBlock a))
    (h' : WordsAt s.mem a (jumpBlock b)) : isa.Reaches s ((s.setReg x17 b).goto b) := by
  have hsecond : isa.Reaches ((s.setReg x17 a).goto a)
      ((((s.setReg x17 a).goto a).setReg x17 b).goto b) :=
    jumpBlock_reaches (show WordsAt (s.setReg x17 a).mem a (jumpBlock b) by
      rwa [VState.setReg_mem])
  have hset : (((s.setReg x17 a).goto a).setReg x17 b).goto b = (s.setReg x17 b).goto b := by
    refine congrArg (fun q : State => VState.mk q s.vec) ?_
    show ((((s.toState.setReg x17 a).goto a).setReg x17 b).goto b) = _
    rw [State.setReg_goto, State.setReg_setReg]
    rfl
  exact (jumpBlock_reaches h).trans (hset ▸ hsecond)

theorem buildEnterTransferTrampoline_buffer (tempCodeSlice : Addr) (entry : HookFunctionEntry) :
    (buildEnterTransferTrampoline tempCodeSlice entry).buffer = jumpBlock (transferAddress entry) := by
  rw [buildEnterTransferTrampoline, putLdrBrRegAddress_buffer]
  rfl

/-- **What is written to the target.** -/
theorem activateTrampoline_buffer (tempCodeSlice : Addr)
    (haligned : entry.targetPtr &&& ~~~3#64 = entry.targetPtr) :
    (activateTrampoline tempCodeSlice entry).buffer =
      if entry.redirectCodeSize = tinyRedirectSize then
        [bWord (entry.onEnterTransferTrampoline - entry.targetPtr)]
      else if entry.hookType = .functionViaReplace then jumpBlock entry.onEnterTransferTrampoline
      else jumpBlock entry.onEnterTrampoline := by
  have hjump : ∀ a : Addr, ((AssemblerWriter.reset tempCodeSlice entry.targetPtr).putLdrBrRegAddress
      x17 a).buffer = jumpBlock a := fun a => by
    rw [putLdrBrRegAddress_buffer]
    rfl
  unfold activateTrampoline
  dsimp only
  split
  · show [bWord (_ - (entry.targetPtr &&& ~~~3#64))] = _
    rw [haligned]
  · split <;> exact hjump _

/-- **Where an active redirect leads.** -/
theorem redirect_reaches (hpc : s.pc = entry.targetPtr)
    (hcode : WordsAt s.mem entry.targetPtr
      (if entry.redirectCodeSize = tinyRedirectSize then
        [bWord (entry.onEnterTransferTrampoline - entry.targetPtr)]
      else if entry.hookType = .functionViaReplace then jumpBlock entry.onEnterTransferTrampoline
      else jumpBlock entry.onEnterTrampoline))
    (htransfer : entry.redirectCodeSize = tinyRedirectSize ∨ entry.hookType = .functionViaReplace →
      WordsAt s.mem entry.onEnterTransferTrampoline (jumpBlock (transferAddress entry)))
    (hnear : entry.redirectCodeSize = tinyRedirectSize →
      NearJump entry.targetPtr entry.onEnterTransferTrampoline) :
    isa.Reaches s ((s.setReg x17 (redirectAddress entry)).goto (redirectAddress entry)) := by
  unfold redirectAddress
  by_cases htiny : entry.redirectCodeSize = tinyRedirectSize
  · rw [if_pos htiny] at hcode
    rw [if_pos (Or.inl htiny)]
    exact (Isa.Reaches.single ((tiny_leads_iff hpc hcode).mpr (hnear htiny))).trans
      (jumpBlock_reaches (s := s.goto entry.onEnterTransferTrampoline) (htransfer (.inl htiny)))
  · rw [if_neg htiny] at hcode
    by_cases hreplace : entry.hookType = .functionViaReplace
    · rw [if_pos hreplace] at hcode
      rw [if_pos (Or.inr hreplace)]
      exact jumpBlock_reaches_twice (hpc ▸ hcode) (htransfer (.inr hreplace))
    · rw [if_neg hreplace] at hcode
      rw [if_neg (not_or.mpr ⟨htiny, hreplace⟩)]
      exact jumpBlock_reaches (hpc ▸ hcode)

end Activated

/-- An entry of a function at `0x1000` that is replaced by the one at `0x6000`, with a
tiny redirect. -/
def tinyEntry : HookFunctionEntry where
  address := 0x9000#64
  hookType := .functionViaReplace
  targetPtr := 0x1000#64
  nextInsnAddr := 0#64
  replaceCall := 0x6000#64
  onEnterTransferTrampoline := 0x5000#64
  onEnterTrampoline := 0#64
  onInvokeTrampoline := 0#64
  onInsnLeaveTrampoline := 0#64
  onLeaveTrampoline := 0#64
  onDynamicBinaryInstrumentationTrampoline := 0#64
  redirectCodeSize := tinyRedirectSize

/-- A processor at the redirect. -/
def atTinyEntry : VState where
  gpr _ := 0#64
  sp := 0#64
  pc := 0x1000#64
  flags := ⟨false, false, false, false⟩
  mem := (Mem.place (fun _ => 0#8) 0x1000#64 (activateTrampoline 0#64 tinyEntry).buffer).place
    0x5000#64 (buildEnterTransferTrampoline 0#64 tinyEntry).buffer
  vec _ := 0#128

/-- What the functions are given pointers to: the next hop, and the registers.
`caller_ret_addr` points to the link register. -/
structure InvocationFrame where
  nextHop : Addr
  rs : RegState

/-- What a callback makes of the registers, if there is one. -/
def callWith (callback : Option (RegState → RegState)) (rs : RegState) : RegState :=
  callback.elim rs fun f => f rs

/-- **`function_context_begin_invocation`**, of a thread with the return
addresses `stack`; that of a new call stack is zero. -/
def functionContextBeginInvocation (entry : HookFunctionEntry)
    (preCall : Option (RegState → RegState)) (stack : List Addr) (rs : RegState) :
    List Addr × InvocationFrame :=
  let rs := callWith preCall rs
  let nextHop := if entry.replaceCall ≠ 0#64 then entry.replaceCall else entry.onInvokeTrampoline
  if entry.hookType = .functionViaPrePost ∨ entry.hookType = .functionViaGot then
    (rs.lr :: stack, ⟨nextHop, { rs with lr := entry.onLeaveTrampoline }⟩)
  else (0#64 :: stack, ⟨nextHop, rs⟩)

/-- **`function_context_end_invocation`**; there is no result if there is no call
stack. -/
def functionContextEndInvocation (postCall : Option (RegState → RegState)) (stack : List Addr)
    (rs : RegState) : Option (List Addr × InvocationFrame) :=
  match stack with
  | [] => none
  | callerRetAddr :: stack => some (stack, ⟨callerRetAddr, callWith postCall rs⟩)

/-- **`insn_context_end_invocation`**. -/
def insnContextEndInvocation (entry : HookFunctionEntry) (postCall : Option (RegState → RegState))
    (stack : List Addr) (rs : RegState) : Option (List Addr × InvocationFrame) :=
  match stack with
  | [] => none
  | _ :: stack => some (stack, ⟨entry.nextInsnAddr, callWith postCall rs⟩)

/-- **`dynamic_binary_instrumentation_invocation`**. -/
def dynamicBinaryInstrumentationInvocation (entry : HookFunctionEntry)
    (stubCall : Option (RegState → RegState)) (stack : List Addr) (rs : RegState) :
    Option (List Addr × InvocationFrame) :=
  some (stack, ⟨entry.onInvokeTrampoline, callWith stubCall rs⟩)

/-! ## A thread that calls -/

/-- **What HookZz has in a process**: its data, from which the return addresses of
the thread are read, and the code it has placed. -/
structure Runtime where
  /-- The addresses of its data. -/
  heap : Set Addr
  /-- The return addresses of the thread. -/
  stack : Mem → List Addr
  /-- Whether a call stack can be allocated and pushed. -/
  room : Mem → Prop
  code : List (Addr × List Word)
  stack_congr : ∀ m m' : Mem, (∀ x ∈ heap, m' x = m x) → stack m' = stack m
  room_congr : ∀ m m' : Mem, (∀ x ∈ heap, m' x = m x) → room m → room m'

namespace Runtime

variable (R : Runtime)

/-- The code is in memory. -/
def CodeIn (m : Mem) : Prop := ∀ c ∈ R.code, WordsAt m c.1 c.2

/-- Nothing of it is where an invocation has its frame. -/
structure Apart (s : VState) : Prop where
  heap : ∀ x ∈ R.heap, ¬ InBlock (frameBase s) (8 * 52) x
  code : ∀ c ∈ R.code, ∀ k < 4 * c.2.length,
    ¬ InBlock (frameBase s) (8 * 52) (c.1 + BitVec.ofNat 64 k)

/-- **A function of HookZz that has been compiled**, to what is at `f`: called in
an invocation it does what `F` says to the return addresses, the registers and
the next hop, if `pre` is the case, and returns. The code stays. -/
def Compiled (isa : Isa) (entry thunk : Addr) (b : Bool) (f : Addr) (pre : Mem → Prop)
    (F : List Addr → RegState → Option (List Addr × InvocationFrame)) : Prop :=
  ∀ s u : VState, u.pc = f → Invoked entry thunk b s u → R.Apart s → R.CodeIn u.mem →
    pre u.mem → ∀ stack frame,
      F (R.stack u.mem) (RegState.read u.mem (u.gpr 2#5)) = some (stack, frame) →
      ∃ t, isa.Reaches u t ∧ Returned u t ∧ R.CodeIn t.mem ∧ R.stack t.mem = stack
        ∧ t.mem.read64 (nextHopAddr s) = frame.nextHop
        ∧ RegState.read t.mem (regStateAddr s) = frame.rs

/-- **A trampoline and its thunk** are among the code, for an entry. -/
structure Thunked (tempCodeSlice addr entry thunk f : Addr) (b : Bool) : Prop where
  trampoline : (addr, (putThunkTrampoline (.reset tempCodeSlice 0#64) entry thunk).buffer) ∈ R.code
  thunk : ∃ ws, ThunkCode f thunk b ws ∧ (thunk, ws) ∈ R.code

/-- **A call returns**: to the return address, with the stack pointer it was made
with, and the return addresses are what they were. -/
structure Returns (isa : Isa) (s t : VState) : Prop where
  reaches : isa.Reaches s t
  pc : t.pc = s.gpr 30#5
  sp : t.sp = s.sp
  stack : R.stack t.mem = R.stack s.mem
  code : R.CodeIn t.mem

variable {R}

/-- Where the frame is depends on the stack pointer. -/
theorem Apart.of_sp {s t : VState} (h : R.Apart s) (hsp : t.sp = s.sp) : R.Apart t := by
  have hbase : frameBase t = frameBase s := congrArg (· - 416#64) hsp
  exact ⟨hbase ▸ h.heap, hbase ▸ h.code⟩

/-- What is outside the frame is as it was. -/
theorem Apart.codeIn {s : VState} {m m' : Mem} (h : R.Apart s) (hm : R.CodeIn m)
    (hout : ∀ x, ¬ InBlock (frameBase s) (8 * 52) x → m' x = m x) : R.CodeIn m' :=
  fun c hc => (hm c hc).of_eqOn fun k hk => hout _ (h.code c hc k hk)

theorem Apart.stack_eq {s : VState} {m m' : Mem} (h : R.Apart s)
    (hout : ∀ x, ¬ InBlock (frameBase s) (8 * 52) x → m' x = m x) : R.stack m' = R.stack m :=
  R.stack_congr m m' fun x hx => hout x (h.heap x hx)

end Runtime

section Calls

variable {isa : Isa} {R : Runtime} {tempCodeSlice addr entry thunk f : Addr} {b : Bool}
  {s : VState}

/-- **An invocation**: from the trampoline to the next hop, with what the function
has made of the registers. -/
theorem invocation_runs {pre : Mem → Prop}
    {F : List Addr → RegState → Option (List Addr × InvocationFrame)}
    (hthunk : R.Thunked tempCodeSlice addr entry thunk f b)
    (hf : R.Compiled isa entry thunk b f pre F) (hpc : s.pc = addr) (hcode : R.CodeIn s.mem)
    (hapart : R.Apart s)
    (hpre : ∀ m : Mem, (∀ x ∈ R.heap, m x = s.mem x) → pre m) {stack : List Addr}
    {frame : InvocationFrame}
    (hF : F (R.stack s.mem) ((RegState.ofState s).setX17 thunk) = some (stack, frame)) :
    ∃ v, isa.Reaches s v ∧ v.pc = frame.nextHop
      ∧ RegState.ofState v = { frame.rs with sp := s.sp }.setX17 frame.nextHop
      ∧ R.stack v.mem = stack ∧ R.CodeIn v.mem := by
  obtain ⟨ws, hws, hmem⟩ := hthunk.thunk
  have hat : AtTrampoline tempCodeSlice addr entry thunk ws s :=
    ⟨hpc, ⟨hcode _ hthunk.trampoline, hapart.code _ hthunk.trampoline⟩,
      ⟨hcode _ hmem, hapart.code _ hmem⟩⟩
  obtain ⟨call, ret, rfl, hcall⟩ := hws.calls isa
  obtain ⟨u, hu, hupc, hlr, hinv⟩ := enter_run hat.pc
    (putThunkTrampoline_buffer (.reset tempCodeSlice 0#64) entry thunk ▸ hat.trampoline) hat.code
    hcall
  have hucode := hapart.codeIn hcode hinv.out
  have hF' : F (R.stack u.mem) (RegState.read u.mem (u.gpr 2#5)) = some (stack, frame) := by
    rw [hapart.stack_eq hinv.out, hinv.regState, hF]
  obtain ⟨t, ht, hret, htcode, htstack, hhop, hrs⟩ := hf s u hupc hinv hapart hucode
    (hpre u.mem fun x hx => hinv.out x (hapart.heap x hx)) stack frame hF'
  obtain ⟨v, hv, hres⟩ := leave_run (s := s) (htcode _ hmem) (hapart.code _ hmem) hcall
    (hret.pc.trans hlr) (hret.sp.trans hinv.sp)
  refine ⟨v, hu.trans (ht.trans hv), hres.pc.trans hhop, ?_, ?_, hapart.codeIn htcode hres.mem⟩
  · rw [hres.regState, hhop, hrs]
  · rw [hapart.stack_eq hres.mem, htstack]

end Calls

/-! ## What is hooked -/

/-- **A hook in place**: the redirect is activated and leads to the enter
trampoline, whose thunk calls `enterFunction`, and what the invoke trampoline
stands for can be moved. -/
structure Hooked (isa : Isa) (R : Runtime) (entry : HookFunctionEntry) (mem : Mem)
    (tempCodeSlice enterThunk enterFunction : Addr) : Prop where
  size : entry.redirectCodeSize = tinyRedirectSize ∨ entry.redirectCodeSize = fullRedirectSize
  aligned : entry.targetPtr &&& ~~~3#64 = entry.targetPtr
  near : entry.redirectCodeSize = tinyRedirectSize →
    NearJump entry.targetPtr entry.onEnterTransferTrampoline
  redirect : (entry.targetPtr, (activateTrampoline tempCodeSlice entry).buffer) ∈ R.code
  transfer : entry.redirectCodeSize = tinyRedirectSize ∨ entry.hookType = .functionViaReplace →
    (entry.onEnterTransferTrampoline,
      (buildEnterTransferTrampoline tempCodeSlice entry).buffer) ∈ R.code
  leads : redirectAddress entry = entry.onEnterTrampoline
  enter : R.Thunked tempCodeSlice entry.onEnterTrampoline entry.address enterThunk
    enterFunction true
  movable : Movable isa [x17] (entry.invokeTrampoline mem)
  invoke : (entry.onInvokeTrampoline, (entry.invokeTrampoline mem).words) ∈ R.code

/-- It does not matter what is in X17 when it is changed. -/
theorem setX17_ofState (s : VState) (a x y : Addr) :
    (RegState.ofState ((s.setReg x17 x).goto a)).setX17 y = (RegState.ofState s).setX17 y := by
  have hgpr : ∀ r : Reg, r ≠ x17 → (s.setReg x17 x).gpr r = s.gpr r := fun r hr =>
    s.toState.setReg_gpr_of_ne x hr
  refine RegState.ext (s.setReg_sp x17 x) (funext fun i => ?_)
    (hgpr 29#5 (by decide)) (hgpr 30#5 (by decide)) rfl
  show Function.update (fun i : Fin 29 => (s.setReg x17 x).gpr (BitVec.ofNat 5 i)) 17 y i
    = Function.update (fun i : Fin 29 => s.gpr (BitVec.ofNat 5 i)) 17 y i
  by_cases hi : i = 17
  · rw [hi, Function.update_self, Function.update_self]
  · rw [Function.update_of_ne hi, Function.update_of_ne hi]
    exact hgpr _ ((by decide : ∀ i : Fin 29, i ≠ 17 → BitVec.ofNat 5 i ≠ x17) i hi)

section Hooked

variable {isa : Isa} {R : Runtime} {entry : HookFunctionEntry} {mem : Mem}
  {tempCodeSlice enterThunk enterFunction : Addr} {s : VState}

/-- The redirect leads to the enter trampoline. -/
theorem Hooked.reaches (h : Hooked isa R entry mem tempCodeSlice enterThunk enterFunction)
    (hpc : s.pc = entry.targetPtr) (hcode : R.CodeIn s.mem) :
    isa.Reaches s ((s.setReg x17 entry.onEnterTrampoline).goto entry.onEnterTrampoline) := by
  have hcode' := hcode _ h.redirect
  rw [activateTrampoline_buffer _ h.aligned] at hcode'
  have hreach : isa.Reaches s _ := redirect_reaches hpc hcode' (fun ht => by
    rw [← buildEnterTransferTrampoline_buffer tempCodeSlice]
    exact hcode _ (h.transfer ht)) h.near
  rwa [h.leads] at hreach

/-- **What is hooked is entered**: the function of the enter thunk gets the
registers, and the processor goes on at the next hop with what it makes of them. -/
theorem Hooked.enters (h : Hooked isa R entry mem tempCodeSlice enterThunk enterFunction)
    (hpc : s.pc = entry.targetPtr) (hcode : R.CodeIn s.mem) (hapart : R.Apart s)
    {pre : Mem → Prop} {F : List Addr → RegState → Option (List Addr × InvocationFrame)}
    (hf : R.Compiled isa entry.address enterThunk true enterFunction pre F)
    (hpre : ∀ m : Mem, (∀ x ∈ R.heap, m x = s.mem x) → pre m) {stack : List Addr}
    {frame : InvocationFrame}
    (hF : F (R.stack s.mem) ((RegState.ofState s).setX17 enterThunk) = some (stack, frame)) :
    ∃ v, isa.Reaches s v ∧ v.pc = frame.nextHop
      ∧ RegState.ofState v = { frame.rs with sp := s.sp }.setX17 frame.nextHop
      ∧ R.stack v.mem = stack ∧ R.CodeIn v.mem := by
  -- the redirect changes X17, which the thunk has changed before anybody reads it
  let s₀ := (s.setReg x17 entry.onEnterTrampoline).goto entry.onEnterTrampoline
  have hmem : s₀.mem = s.mem := s.setReg_mem x17 entry.onEnterTrampoline
  have hsp : s₀.sp = s.sp := s.setReg_sp x17 entry.onEnterTrampoline
  have hregs := setX17_ofState s entry.onEnterTrampoline entry.onEnterTrampoline enterThunk
  obtain ⟨v, hv, hvpc, hvregs, hvstack, hvcode⟩ := invocation_runs (s := s₀) h.enter hf rfl
    (hmem ▸ hcode) (hapart.of_sp hsp) (fun m hm => hpre m fun x hx => by rw [hm x hx, hmem])
    (show F (R.stack s₀.mem) ((RegState.ofState s₀).setX17 enterThunk) = some (stack, frame) by
      rw [hregs, hmem, hF])
  exact ⟨v, (h.reaches hpc hcode).trans hv, hvpc, hsp ▸ hvregs, hvstack, hvcode⟩

/-- The place of the first block. -/
theorem goto_place_zero (entry : HookFunctionEntry) (mem : Mem) {v : VState}
    (hpc : v.pc = entry.onInvokeTrampoline) :
    (v.goto entry.targetPtr).goto ((entry.invokeTrampoline mem).place 0) = v := by
  have hstart : (entry.invokeTrampoline mem).place 0 = entry.onInvokeTrampoline := by
    rw [InvokeTrampoline.place, blockStart, if_neg (fun h => absurd h.2 (lt_irrefl 0))]
    exact BitVec.add_zero entry.onInvokeTrampoline
  rw [hstart, ← hpc]
  rfl

end Hooked

/-! ## A call -/

/-- **A function that is hooked**, for callbacks before and after it. -/
structure HookedCall (isa : Isa) (R : Runtime) (entry : HookFunctionEntry) (mem : Mem)
    (tempCodeSlice enterThunk leaveThunk beginInvocation endInvocation : Addr)
    (preCall postCall : Option (RegState → RegState)) : Prop extends
    Hooked isa R entry mem tempCodeSlice enterThunk beginInvocation where
  hookType : entry.hookType = .functionViaPrePost
  replaceCall : entry.replaceCall = 0#64
  leave : R.Thunked tempCodeSlice entry.onLeaveTrampoline entry.address leaveThunk
    endInvocation false
  begins : R.Compiled isa entry.address enterThunk true beginInvocation R.room fun stack rs =>
    some (functionContextBeginInvocation entry preCall stack rs)
  ends : R.Compiled isa entry.address leaveThunk false endInvocation (fun _ => True)
    (functionContextEndInvocation postCall)

/-- **The function itself returns** when it is entered in the state `v` with its own
instructions where they were: it runs through what is overwritten, without a call,
and from there to its return address, whatever is in X17. -/
def OriginalReturns (isa : Isa) (R : Runtime) (T : InvokeTrampoline) (v : VState) : Prop :=
  ∃ s₁ s', Executes isa T 0 (v.goto T.target) s₁ ∧ RunsInside isa T s₁ s' ∧ ¬ T.Inside s'.pc
    ∧ ∀ t, VAgreeOff [x17] s' t → ∃ w, isa.Reaches t w ∧ w.pc = v.gpr 30#5 ∧ w.sp = v.sp
      ∧ R.stack w.mem = R.stack v.mem ∧ R.CodeIn w.mem

section HookedCall

variable {isa : Isa} {R : Runtime} {entry : HookFunctionEntry} {mem : Mem}
  {tempCodeSlice enterThunk leaveThunk beginInvocation endInvocation : Addr}
  {preCall postCall : Option (RegState → RegState)} {s v : VState}

/-- **The invoke trampoline returns** when the function does. -/
theorem invoke_returns (h : Movable isa [x17] (entry.invokeTrampoline mem))
    (hgo : (entry.invokeTrampoline mem).GoesOn 0) (hpc : v.pc = entry.onInvokeTrampoline)
    (hv : OriginalReturns isa R (entry.invokeTrampoline mem) v) : ∃ w, R.Returns isa v w := by
  obtain ⟨s₁, s', hx, hrun, hout, hrest⟩ := hv
  obtain ⟨t₁, ht₁, hf₁⟩ := executes_follows h hx hgo
    ((goto_place_zero entry mem hpc).symm ▸ ⟨AgreeOff.refl _ _, rfl⟩ : VAgreeOff [x17] _ v)
  obtain ⟨t, ht, hf⟩ := runs_follow h hf₁ hrun
  obtain ⟨w, hw, hwpc, hsp, hstack, hcode⟩ := hrest t (hf.outside hout)
  exact ⟨w, ht₁.trans (ht.trans hw), hwpc, hsp, hstack, hcode⟩

end HookedCall

/-! ## An instruction -/

/-- **An instruction that is hooked**, for callbacks before and after it. -/
structure HookedInsn (isa : Isa) (R : Runtime) (entry : HookFunctionEntry) (mem : Mem)
    (tempCodeSlice enterThunk insnLeaveThunk beginInvocation endInvocation : Addr)
    (preCall postCall : Option (RegState → RegState)) : Prop extends
    Hooked isa R entry mem tempCodeSlice enterThunk beginInvocation where
  hookType : entry.hookType = .oneInstruction
  replaceCall : entry.replaceCall = 0#64
  nextInsn : entry.nextInsnAddr = (entry.invokeTrampoline mem).place 1
  insnLeave : R.Thunked tempCodeSlice entry.onInsnLeaveTrampoline entry.address insnLeaveThunk
    endInvocation true
  begins : R.Compiled isa entry.address enterThunk true beginInvocation R.room fun stack rs =>
    some (functionContextBeginInvocation entry preCall stack rs)
  ends : R.Compiled isa entry.address insnLeaveThunk true endInvocation (fun _ => True)
    (insnContextEndInvocation entry postCall)

/-- The next instruction is in the trampoline as well. -/
theorem HookedInsn.two_le {isa : Isa} {R : Runtime} {entry : HookFunctionEntry} {mem : Mem}
    {tempCodeSlice enterThunk insnLeaveThunk beginInvocation endInvocation : Addr}
    {preCall postCall : Option (RegState → RegState)}
    (h : HookedInsn isa R entry mem tempCodeSlice enterThunk insnLeaveThunk beginInvocation
      endInvocation preCall postCall) : 2 ≤ (entry.invokeTrampoline mem).n := by
  show 2 ≤ relocatedCount entry.hookType entry.redirectCodeSize
  rw [relocatedCount, if_pos h.hookType]
  exact le_max_left _ _

section HookedInsn

variable {isa : Isa} {R : Runtime} {entry : HookFunctionEntry} {mem : Mem}
  {tempCodeSlice enterThunk insnLeaveThunk beginInvocation endInvocation : Addr}
  {preCall postCall : Option (RegState → RegState)} {s : VState}

end HookedInsn

/-! ## An example -/

/-- Code is placed, one block after the other. -/
def placeAll (m : Mem) (code : List (Addr × List Word)) : Mem :=
  code.foldr (fun c m => m.place c.1 c.2) m

theorem wordsAt_placeAll {m : Mem} {code : List (Addr × List Word)}
    (h : code.Pairwise fun c d => c.1.toNat + 4 * c.2.length ≤ d.1.toNat)
    (hlen : ∀ c ∈ code, c.1.toNat + 4 * c.2.length ≤ 2 ^ 64) :
    ∀ c ∈ code, WordsAt (placeAll m code) c.1 c.2 := by
  induction code with
  | nil => exact fun c hc => absurd hc List.not_mem_nil
  | cons c cs ih =>
    obtain ⟨hc, hcs⟩ := List.pairwise_cons.mp h
    intro d hd
    rcases List.mem_cons.mp hd with rfl | hd
    · exact wordsAt_place _ _ (by have := hlen d List.mem_cons_self; omega)
    · refine (ih hcs (fun d hd => hlen d (List.mem_cons_of_mem _ hd)) d hd).place fun k hk => ?_
      have hcd := hc d hd
      have hdlen := hlen d (List.mem_cons_of_mem _ hd)
      rw [InBlock, BitVec.toNat_sub, BitVec.toNat_add, BitVec.toNat_ofNat]
      have := c.1.isLt
      omega

/-- A process with two doublewords of data at `0x8000`: whether there is a return
address, and what it is. -/
def oneCall (code : List (Addr × List Word)) : Runtime where
  heap := { x | InBlock 0x8000#64 16 x }
  stack m := if m.read64 0x8000#64 = 0#64 then [] else [m.read64 0x8008#64]
  room m := m.read64 0x8000#64 = 0#64
  code := code
  stack_congr m m' h := by
    have hread : ∀ a : Addr, a = 0x8000#64 ∨ a = 0x8008#64 → m'.read64 a = m.read64 a := by
      rintro a ha
      refine Mem.read64_congr fun i hi => h _ ?_
      show (_ - _ : Addr).toNat < 16
      rcases ha with rfl | rfl <;> interval_cases i <;> decide
    rw [hread _ (.inl rfl), hread _ (.inr rfl)]
  room_congr m m' h hm := by
    refine Eq.trans (Mem.read64_congr fun i hi => h _ ?_) hm
    show (_ - _ : Addr).toNat < 16
    interval_cases i <;> decide

theorem placeAll_of_out {m : Mem} {code : List (Addr × List Word)} {x : Addr}
    (h : ∀ c ∈ code, ¬ InBlock c.1 (4 * c.2.length) x) : placeAll m code x = m x := by
  induction code with
  | nil => rfl
  | cons c cs ih =>
    exact (Mem.place_of_out (h c List.mem_cons_self)).trans
      (ih fun d hd => h d (List.mem_cons_of_mem _ hd))

/-- What is done in an invocation of it: the next hop and the link register are set, and the data. -/
def handler (hop lr full top : Addr) (u : VState) : VState :=
  u.setMem ((((u.mem.write64 (u.gpr 1#5) hop).write64 (u.gpr 2#5 + 248#64) lr).write64
    0x8000#64 full).write64 0x8008#64 top)

section Handler

variable {code : List (Addr × List Word)} {s u : VState} {entry thunk : Addr} {b : Bool}
  {hop lr full top : Addr}

/-- A slot of the frame is apart from the data. -/
theorem slot_apart (hapart : (oneCall code).Apart s) {k : ℕ} (hk : k < 52) {a : Addr}
    (ha : a = 0x8000#64 ∨ a = 0x8008#64) {i : ℕ} (hi : i < 8) :
    ¬ InBlock a 8 (slotAddr (frameBase s) k + BitVec.ofNat 64 i) := by
  intro hin
  refine hapart.heap (slotAddr (frameBase s) k + BitVec.ofNat 64 i) ?_ ?_
  · show InBlock 0x8000#64 16 _
    unfold InBlock at hin ⊢
    rcases ha with rfl | rfl <;> bv_omega
  · rw [slotAddr, BitVec.add_assoc, ← BitVec.ofNat_add]
    exact inBlock_offset (by omega) (by decide)

/-- **What it does** in an invocation. -/
theorem handler_spec (hop lr full top : Addr) (hinv : Invoked entry thunk b s u) (hapart : (oneCall code).Apart s)
    (hcode : (oneCall code).CodeIn u.mem)
    (hlow : ∀ c ∈ code, c.1.toNat + 4 * c.2.length ≤ 0x8000) :
    (oneCall code).CodeIn (handler hop lr full top u).mem
      ∧ (handler hop lr full top u).mem.read64 0x8000#64 = full
      ∧ (handler hop lr full top u).mem.read64 0x8008#64 = top
      ∧ (handler hop lr full top u).mem.read64 (nextHopAddr s) = hop
      ∧ RegState.read (handler hop lr full top u).mem (regStateAddr s)
        = { RegState.read u.mem (u.gpr 2#5) with lr := lr } := by
  obtain ⟨-, hhop, -, hrs⟩ := slotAddr_frameBase s
  have hlr : u.gpr 2#5 + 248#64 = slotAddr (frameBase s) 33 := by
    rw [hinv.regStateAddr, ← hrs]
    exact slotAddr_add (frameBase s) 2 31
  have hmem : (handler hop lr full top u).mem
      = (((u.mem.write64 (slotAddr (frameBase s) 51) hop).write64 (slotAddr (frameBase s) 33)
        lr).write64 0x8000#64 full).write64 0x8008#64 top := by
    rw [hhop, ← hinv.nextHop, ← hlr]
    rfl
  have hslot : ∀ k < 52, (handler hop lr full top u).mem.read64 (slotAddr (frameBase s) k)
      = Function.update (Function.update (fun k => u.mem.read64 (slotAddr (frameBase s) k)) 51 hop)
        33 lr k := by
    intro k hk
    rw [hmem, Mem.read64_write64_of_apart fun i hi => slot_apart hapart hk (.inr rfl) hi,
      Mem.read64_write64_of_apart fun i hi => slot_apart hapart hk (.inl rfl) hi,
      read64_write64_slot (n := 52) (by decide) hk (by decide)]
    by_cases h33 : k = 33
    · rw [h33, Function.update_self, Function.update_self]
    · rw [Function.update_of_ne h33, Function.update_of_ne h33]
      exact read64_write64_slot (n := 52) (by decide) hk (by decide)
  have hother : ∀ k < 52, k ≠ 33 → k ≠ 51 →
      (handler hop lr full top u).mem.read64 (slotAddr (frameBase s) k)
        = u.mem.read64 (slotAddr (frameBase s) k) := by
    intro k hk h33 h51
    rw [hslot k hk, Function.update_of_ne h33, Function.update_of_ne h51]
  refine ⟨fun c hc => (hcode c hc).of_eqOn fun k hk => ?_, ?_, ?_, ?_, ?_⟩
  · -- code is neither in the frame nor at the data
    have hframe := hapart.code c hc k hk
    have hle := hlow c hc
    have hdata : ∀ a : Addr, 0x8000 ≤ a.toNat → a.toNat + 8 ≤ 2 ^ 64 →
        ¬ InBlock a 8 (c.1 + BitVec.ofNat 64 k) := fun a ha hend => by
      refine not_inBlock_of_lt ?_ hend
      rw [BitVec.toNat_add, BitVec.toNat_ofNat]
      omega
    rw [hmem, Mem.write64_of_out (hdata _ (by decide) (by decide)),
      Mem.write64_of_out (hdata _ (by decide) (by decide)),
      Mem.write64_of_out (not_inBlock_of_frame (n := 52) (by decide) hframe),
      Mem.write64_of_out (not_inBlock_of_frame (n := 52) (by decide) hframe)]
  · rw [hmem, Mem.read64_write64_of_apart (fun i hi => by interval_cases i <;> decide),
      Mem.read64_write64]
  · rw [hmem, Mem.read64_write64]
  · rw [← hhop, hslot 51 (by decide), Function.update_of_ne (by decide), Function.update_self]
  · rw [hinv.regStateAddr, ← hrs, regState_read, regState_read]
    refine RegState.ext (hother 2 (by decide) (by decide) (by decide)) (funext fun i => ?_)
      (hother 32 (by decide) (by decide) (by decide)) ?_ (funext fun i => ?_)
    · exact hother (3 + i) (by omega) (by omega) (by omega)
    · refine (hslot 33 (by decide)).trans ?_
      rw [Function.update_self]
    · have hi := i.isLt
      show _ ++ _ = _ ++ _
      rw [hother (35 + 2 * i) (by omega) (by omega) (by omega),
        hother (34 + 2 * i) (by omega) (by omega) (by omega)]

/-- `br x30`. -/
def returnWord : Word := 0xD61F03C0#32

/-- **An instruction that does it** makes, with a return, a function. -/
theorem compiled_handler {isa : Isa} {f : Addr} {w : Word} {pre : Mem → Prop}
    {F : List Addr → RegState → Option (List Addr × InvocationFrame)}
    (hop lr full top : VState → Addr) (hw : decode w = none)
    (hdata : isa.data w = some fun u => handler (hop u) (lr u) (full u) (top u) u)
    (hmem : (f, [w, returnWord]) ∈ code) (hlow : ∀ c ∈ code, c.1.toNat + 4 * c.2.length ≤ 0x8000)
    (hF : ∀ (u : VState) (stack : List Addr) (frame : InvocationFrame), pre u.mem →
      F ((oneCall code).stack u.mem) (RegState.read u.mem (u.gpr 2#5)) = some (stack, frame) →
        stack = (if full u = 0#64 then [] else [top u])
          ∧ frame = ⟨hop u, { RegState.read u.mem (u.gpr 2#5) with lr := lr u }⟩) :
    (oneCall code).Compiled isa entry thunk b f pre F := by
  intro s u hpc hinv hapart hcode hpre stack frame hframe
  obtain ⟨rfl, rfl⟩ := hF u stack frame hpre hframe
  obtain ⟨hcode', hfull, htop, hhop, hrs⟩ := handler_spec (hop u) (lr u) (full u)
    (top u) hinv hapart hcode hlow
  -- the instruction
  let v := (handler (hop u) (lr u) (full u) (top u) u).goto (u.pc + 4#64)
  have hfetch : u.mem.read32 u.pc = w := by
    have h := hcode _ hmem 0 w rfl
    rwa [Nat.mul_zero, BitVec.add_zero, ← hpc] at h
  have hfirst : isa.step u = some v := by
    rw [Isa.step, hfetch, Isa.exec, hw]
    simp only [hdata, Option.map_some]
    rfl
  -- the return
  have hfetch' : v.mem.read32 v.pc = returnWord := by
    have h := hcode' _ hmem 1 returnWord rfl
    rw [← hpc] at h
    exact h
  have hsecond : isa.step v = some (v.goto (v.branchTarget 30#5)) :=
    Isa.step_of_decodeInsn (i := .core (.br 30#5)) hfetch' (by decide)
  refine ⟨v.goto (v.branchTarget 30#5), (Isa.Reaches.single hfirst).trans (.single hsecond),
    ⟨rfl, rfl⟩, hcode', ?_, hhop, hrs⟩
  show (if (handler (hop u) (lr u) (full u) (top u) u).mem.read64 0x8000#64 = 0#64 then []
    else [(handler (hop u) (lr u) (full u) (top u) u).mem.read64 0x8008#64]) = _
  rw [hfull, htop]

end Handler

/-- What `function_context_begin_invocation` is compiled to, before its return. -/
def beginWord : Word := 0xFFFFFFF0#32

/-- The same of what ends the invocation. -/
def endWord : Word := 0xFFFFFFF1#32

/-- A processor that has instructions for both, for an instruction or a function that
is hooked at `0x1000`. -/
def callIsa (insn : Bool) : Isa where
  data w :=
    if w = beginWord then some fun u =>
      let lr := u.mem.read64 (u.gpr 2#5 + 248#64)
      handler 0x2100#64 (if insn then lr else 0x2800#64) 1#64 (if insn then 0#64 else lr) u
    else if w = endWord then some fun u =>
      handler (if insn then 0x2114#64 else u.mem.read64 0x8008#64)
        (u.mem.read64 (u.gpr 2#5 + 248#64)) 0#64 0#64 u
    else Isa.plain.data w
  data_goto h s a := by
    split at h
    · obtain rfl := Option.some.inj h
      rfl
    · split at h
      · obtain rfl := Option.some.inj h
        rfl
      · exact Isa.plain.data_goto h s a
  data_of_decode := by
    intro w o hw ho
    have hbegin : decodeData beginWord = none := by decide
    have hend : decodeData endWord = none := by decide
    have hne : w ≠ beginWord ∧ w ≠ endWord :=
      ⟨fun h => Option.some_ne_none o (ho.symm.trans (h ▸ hbegin)),
        fun h => Option.some_ne_none o (ho.symm.trans (h ▸ hend))⟩
    rw [if_neg hne.1, if_neg hne.2]
    exact Isa.plain.data_of_decode hw ho

/-- The entry of the hook. -/
def entryFor1000 (insn : Bool) : HookFunctionEntry where
  address := 0x9000#64
  hookType := if insn then .oneInstruction else .functionViaPrePost
  targetPtr := 0x1000#64
  nextInsnAddr := 0x2114#64
  replaceCall := 0#64
  onEnterTransferTrampoline := 0#64
  onEnterTrampoline := 0x2000#64
  onInvokeTrampoline := 0x2100#64
  onInsnLeaveTrampoline := 0x2800#64
  onLeaveTrampoline := 0x2800#64
  onDynamicBinaryInstrumentationTrampoline := 0#64
  redirectCodeSize := fullRedirectSize

/-- The memory before it is hooked: the instruction and the next three are additions,
the function branches behind its first four instructions. -/
def memFor1000 (insn : Bool) : Mem :=
  Mem.place (fun _ => 0#8) 0x1000#64
    (List.replicate 4 (if insn then 0x91000400#32 else 0x14000004#32))

/-- The code when it is hooked. -/
def codeFor1000 (insn : Bool) : List (Addr × List Word) :=
  [(0x1000#64, (activateTrampoline 0#64 (entryFor1000 insn)).buffer),
    (0x1010#64, [returnWord]),
    (0x2000#64, (putThunkTrampoline (.reset 0#64 0#64) 0x9000#64 0x3000#64).buffer),
    (0x2100#64, ((entryFor1000 insn).invokeTrampoline (memFor1000 insn)).words),
    (0x2800#64, (putThunkTrampoline (.reset 0#64 0#64) 0x9000#64 0x3200#64).buffer),
    (0x3000#64, (putThunk (.reset 0#64 0#64) true 0x4000#64).buffer),
    (0x3200#64, (putThunk (.reset 0#64 0#64) insn 0x4100#64).buffer),
    (0x4000#64, [beginWord, returnWord]),
    (0x4100#64, [endWord, returnWord])]

/-- A processor that has got there, with no return address on the stack of HookZz. -/
def at1000 (insn : Bool) : VState where
  gpr _ := 0#64
  sp := 0x100000#64
  pc := 0x1000#64
  flags := ⟨false, false, false, false⟩
  mem := placeAll (fun _ => 0#8) (codeFor1000 insn)
  vec _ := 0#128

section At1000

variable (insn : Bool)

theorem pairwise_codeFor1000 :
    (codeFor1000 insn).Pairwise fun c d => c.1.toNat + 4 * c.2.length ≤ d.1.toNat := by
  have hn : ((entryFor1000 insn).invokeTrampoline (memFor1000 insn)).insns.length ≤ 4 := by
    rw [insns_length]
    cases insn <;> decide
  have hlen : 4 * ((entryFor1000 insn).invokeTrampoline (memFor1000 insn)).words.length ≤ 256 :=
    length_invokeWords _ _ _ _ hn
  have hact : (activateTrampoline 0#64 (entryFor1000 insn)).buffer.length = 4 := by
    cases insn <;> rfl
  have htramp : ∀ a b : Addr, (putThunkTrampoline (.reset 0#64 0#64) a b).buffer.length = 10 :=
    fun a b => rfl
  have hthunk : ∀ (b : Bool) (a : Addr),
      (putThunk (.reset 0#64 0#64) b a).buffer.length = if b then 60 else 59 := fun b a => by
    cases b <;> rfl
  simp only [codeFor1000, List.pairwise_cons, List.forall_mem_cons, hact, htramp, hthunk,
    List.length_cons, List.length_nil, BitVec.toNat_ofNat]
  cases insn <;> simp <;> omega

theorem low_codeFor1000 : ∀ c ∈ codeFor1000 insn, c.1.toNat + 4 * c.2.length ≤ 0x4108 := by
  intro c hc
  -- nothing is behind the last one
  have hlast : codeFor1000 insn = (codeFor1000 insn).dropLast ++ [(0x4100#64, [endWord, returnWord])] :=
    rfl
  have hpair := pairwise_codeFor1000 insn
  rw [hlast, List.pairwise_append] at hpair
  rw [hlast, List.mem_append] at hc
  rcases hc with hc | hc
  · exact (hpair.2.2 c hc _ List.mem_cons_self).trans (by decide)
  · obtain rfl := List.mem_singleton.mp hc
    decide

theorem codeIn_at1000 : (oneCall (codeFor1000 insn)).CodeIn (at1000 insn).mem :=
  wordsAt_placeAll (pairwise_codeFor1000 insn) fun c hc =>
    (low_codeFor1000 insn c hc).trans (by decide)

theorem apart_at1000 : (oneCall (codeFor1000 insn)).Apart (at1000 insn) := by
  have hlow : ∀ a : Addr, a.toNat < 0x9000 → ¬ InBlock (frameBase (at1000 insn)) (8 * 52) a :=
    fun a ha =>
    not_inBlock_of_lt (lt_of_lt_of_le ha (by cases insn <;> decide)) (by cases insn <;> decide)
  constructor
  · intro a ha
    have hdata : (a - 0x8000#64).toNat < 16 := ha
    refine hlow a ?_
    bv_omega
  · intro c hc k hk
    refine hlow _ ?_
    have hend := low_codeFor1000 insn c hc
    rw [BitVec.toNat_add, BitVec.toNat_ofNat]
    omega

theorem room_at1000 : (oneCall (codeFor1000 insn)).room (at1000 insn).mem := by
  have hzero : (at1000 insn).mem.read64 0x8000#64 = Mem.read64 (fun _ => 0#8) 0x8000#64 := by
    refine Mem.read64_congr fun i hi => placeAll_of_out fun c hc hin => ?_
    have hend := low_codeFor1000 insn c hc
    rw [InBlock, BitVec.toNat_sub, BitVec.toNat_add, BitVec.toNat_ofNat, BitVec.toNat_ofNat] at hin
    omega
  exact hzero.trans (by decide)

theorem word_at1000 : ∀ k < 4, ((entryFor1000 insn).invokeTrampoline (memFor1000 insn)).word k
    = if insn then 0x91000400#32 else 0x14000004#32 := by
  cases insn <;> decide

theorem movable_at1000 :
    Movable (callIsa insn) [x17] ((entryFor1000 insn).invokeTrampoline (memFor1000 insn)) where
  nowrap := by cases insn <;> decide
  scratch := List.mem_cons_self
  fits k hk op hop := by
    rw [word_at1000 insn k (lt_of_lt_of_le hk (by cases insn <;> decide))] at hop
    cases insn
    · obtain rfl := Option.some.inj ((by decide : decode 0x14000004#32 = some (.b 16#64)).symm.trans hop)
      decide
    · exact absurd ((by decide : decode 0x91000400#32 = none).symm.trans hop)
        (Option.some_ne_none op).symm
  literal k hk rt d hop := by
    rw [word_at1000 insn k (lt_of_lt_of_le hk (by cases insn <;> decide))] at hop
    cases insn
    · cases (by decide : decode 0x14000004#32 = some (.b 16#64)).symm.trans hop
    · cases (by decide : decode 0x91000400#32 = none).symm.trans hop
  keeps k hk htype := by
    rw [word_at1000 insn k (lt_of_lt_of_le hk (by cases insn <;> decide))] at htype ⊢
    cases insn
    · rw [getARM64InsnType_eq] at htype
      exact absurd htype (by decide)
    · exact keeps_add _

theorem begins_at1000 : (oneCall (codeFor1000 insn)).Compiled (callIsa insn) 0x9000#64 0x3000#64
    true 0x4000#64 (oneCall (codeFor1000 insn)).room fun stack rs =>
      some (functionContextBeginInvocation (entryFor1000 insn) none stack rs) := by
  refine compiled_handler (w := beginWord) (fun _ => 0x2100#64)
    (fun u => if insn then u.mem.read64 (u.gpr 2#5 + 248#64) else 0x2800#64) (fun _ => 1#64)
    (fun u => if insn then 0#64 else u.mem.read64 (u.gpr 2#5 + 248#64)) (by decide) ?_
    (List.mem_of_getElem? (i := 7) rfl)
    (fun c hc => (low_codeFor1000 insn c hc).trans (by decide)) ?_
  · unfold callIsa
    dsimp only
    rw [if_pos rfl]
  · intro u stack frame hroom hF
    rw [show (oneCall (codeFor1000 insn)).stack u.mem = [] from if_pos hroom] at hF
    cases insn <;>
    · obtain ⟨rfl, rfl⟩ := Prod.mk.inj (Option.some.inj hF)
      exact ⟨rfl, rfl⟩

/-- What ends the invocation: for an instruction the return address is not used. -/
theorem ends_at1000 {F : List Addr → RegState → Option (List Addr × InvocationFrame)}
    (hnil : ∀ rs, F [] rs = none) (hcons : ∀ top rs, F [top] rs
      = some ([], ⟨if insn then 0x2114#64 else top, rs⟩)) :
    (oneCall (codeFor1000 insn)).Compiled (callIsa insn) 0x9000#64 0x3200#64 insn 0x4100#64
      (fun _ => True) F := by
  refine compiled_handler (w := endWord)
    (fun u => if insn then 0x2114#64 else u.mem.read64 0x8008#64)
    (fun u => u.mem.read64 (u.gpr 2#5 + 248#64)) (fun _ => 0#64) (fun _ => 0#64) (by decide) ?_
    (List.mem_of_getElem? (i := 8) rfl)
    (fun c hc => (low_codeFor1000 insn c hc).trans (by decide)) ?_
  · unfold callIsa
    dsimp only
    rw [if_neg (by decide), if_pos rfl]
  · intro u stack frame _ hF
    by_cases h : u.mem.read64 0x8000#64 = 0#64
    · rw [show (oneCall (codeFor1000 insn)).stack u.mem = [] from if_pos h, hnil] at hF
      cases hF
    · rw [show (oneCall (codeFor1000 insn)).stack u.mem = [u.mem.read64 0x8008#64] from if_neg h,
        hcons] at hF
      obtain ⟨rfl, rfl⟩ := Prod.mk.inj (Option.some.inj hF)
      exact ⟨rfl, rfl⟩

theorem hooked_at1000 : Hooked (callIsa insn) (oneCall (codeFor1000 insn)) (entryFor1000 insn)
    (memFor1000 insn) 0#64 0x3000#64 0x4000#64 where
  size := .inr rfl
  aligned := by cases insn <;> decide
  near := fun h => absurd h (by cases insn <;> decide)
  redirect := List.mem_of_getElem? (i := 0) rfl
  transfer := fun h => absurd h (by cases insn <;> decide)
  leads := by cases insn <;> rfl
  enter := ⟨List.mem_of_getElem? (i := 2) rfl, _, .written 0#64 true,
    List.mem_of_getElem? (i := 5) rfl⟩
  movable := movable_at1000 insn
  invoke := List.mem_of_getElem? (i := 3) rfl

theorem leave_at1000 : (oneCall (codeFor1000 insn)).Thunked 0#64 0x2800#64 0x9000#64 0x3200#64
    0x4100#64 insn :=
  ⟨List.mem_of_getElem? (i := 4) rfl, _, .written 0#64 insn, List.mem_of_getElem? (i := 6) rfl⟩

end At1000

/-- The function branches behind its first four instructions, and returns. -/
theorem original_returns {v : VState} (hcode : (oneCall (codeFor1000 false)).CodeIn v.mem) :
    OriginalReturns (callIsa false) (oneCall (codeFor1000 false))
      ((entryFor1000 false).invokeTrampoline (memFor1000 false)) v := by
  have hop : decode (((entryFor1000 false).invokeTrampoline (memFor1000 false)).word 0)
      = some (.b 16#64) := by decide
  have hwords := hcode _ (List.mem_of_getElem? (i := 3) rfl)
  have hx : Executes (callIsa false) ((entryFor1000 false).invokeTrampoline (memFor1000 false)) 0
      (v.goto 0x1000#64) (v.goto 0x1010#64) :=
    ⟨by decide, rfl, (by rw [Isa.exec, hop]; rfl),
      (fun d h => by rw [hop] at h; cases h), (fun r h => by rw [hop] at h; cases h),
      (fun r h => by rw [hop] at h; cases h), hwords, hwords⟩
  refine ⟨_, _, hx, .refl, (by decide : ¬ (0x1000#64 < 0x1010#64 ∧ 0x1010#64 < 0x1010#64)), ?_⟩
  intro t ht
  have hpc' : t.pc = 0x1010#64 := ht.state.pc
  have hmem : t.mem = v.mem := ht.state.mem
  have hfetch : t.mem.read32 t.pc = returnWord := by
    rw [hmem, hpc']
    exact hcode _ (List.mem_of_getElem? (i := 1) rfl) 0 returnWord rfl
  have hstep : (callIsa false).step t = some (t.goto (t.branchTarget 30#5)) :=
    Isa.step_of_decodeInsn (i := .core (.br 30#5)) hfetch (by decide)
  refine ⟨_, .single hstep, ht.state.gpr 30#5 (by decide), ht.state.sp, ?_, ?_⟩
  · exact congrArg (oneCall (codeFor1000 false)).stack hmem
  · exact (hmem.symm ▸ hcode : (oneCall (codeFor1000 false)).CodeIn t.mem)

end HookZz.Arm64
