import AndroidReverse.HookZzThunk
import AndroidReverse.HookZzStack

/-!
# What a trampoline and its thunk do

The run of a trampoline of `interceptor-arm.c` and of the thunk it jumps to.
Up to the call of the function it takes the frame through two straight lines of
code (`enter_run`, `save_run`), and from its return to the jump to the next hop
through another (`restore_run`). In between is the function, of which only what
the calling convention promises is known, and that it leaves the frame alone
but for the next hop and the saved link register.

A trampoline is transparent then (`functionEnter_transparent`): whatever the
registers held at its entry they hold when the next hop is jumped to, with the
link register as the function has left it. The condition flags are what the
function returns with, as nothing saves them, and in front of an instruction
that matters (`instrumentation_registers`).
-/

namespace HookZz

open Arm Relocate Relocator

/-! ## Straight lines -/

section Run

variable {base thunk f : Word} {b : Bool} {m₀ : Mem} {fl : Flags} {g : Reg → Word}
  {sl : ℕ → Word} {s : State} {a : FrameState}

/-- `BX PC` of the Thumb writer leads to the next word. -/
theorem step_bxPc {hs : List Half} {addr : Word} (k : ℕ) (hc : CodeApart base 18 m₀ addr hs)
    (hp : [0x4778#16] <+: hs.drop k) (hal : addr.toNat % 4 = 0) (hk : k % 2 = 0)
    (h : FrameAt base 18 m₀ true (addr + BitVec.ofNat 32 (2 * k)) fl a s) :
    ∃ t, Reaches s t ∧ FrameAt base 18 m₀ false (addr + BitVec.ofNat 32 (2 * (k + 2))) fl a t := by
  have hcode := hc.part k hp h.frame
  have he : Encodes true [0x4778#16] ⟨always, .bx PC⟩ := encodes_thumb16 (by decide) (by decide)
  have hnext : addr + BitVec.ofNat 32 (2 * k) + 4#32 = addr + BitVec.ofNat 32 (2 * (k + 2)) := by
    rw [BitVec.add_assoc, show (4#32 : Word) = BitVec.ofNat 32 4 from rfl, ← BitVec.ofNat_add,
      Nat.mul_add]
  refine ⟨{ s with pc := addr + BitVec.ofNat 32 (2 * (k + 2)), thumb := false },
    Reaches.single ?_, ⟨h.frame.congr rfl rfl, rfl, rfl, h.flags⟩⟩
  rw [he s h.state (h.pc ▸ hcode), Insn.exec_always, State.pcValue, if_pos h.state, h.pc, hnext]
  exact State.bxWritePC_arm s (aligned_offset hal (by omega))

/-! ### The code of a thunk -/

theorem saveItems_code (hal : thunk.toNat % 4 = 0) :
    FrameCode base 18 m₀ false (thunk + BitVec.ofNat 32 (2 * 2))
      (saveItems (thunk + BitVec.ofNat 32 4)) := by
  refine FrameCode.append (frameCode_of_decode (by decide) (by decide) _) ?_
  have he : decodePiece false (addressBytes 0xE28F1001#32) = some ⟨always, .adr true 1#4 1#32⟩ := by
    decide
  refine frameCode_adr (by decide) he rfl ?_ ?_
  · show (thunk + BitVec.ofNat 32 4 + BitVec.ofNat 32 60 + 8#32).toNat % 4 = 0
    exact aligned_offset (aligned_offset (aligned_offset hal rfl) rfl) rfl
  · show thunk + BitVec.ofNat 32 4 + BitVec.ofNat 32 60 + 8#32 + 1#32 = _
    rw [BitVec.add_assoc, BitVec.add_assoc]
    rfl

theorem argItems_code (hal : thunk.toNat % 4 = 0) :
    FrameCode base 18 m₀ true (thunk + BitVec.ofNat 32 (2 * 36)) (argItems b f) := by
  cases b with
  | false =>
    refine FrameCode.append (frameCode_of_decode (by decide) (by decide) _) ?_
    exact frameCode_loads (loadsValue_thumb false LR f 0)
      (aligned_offset (k := 12) (aligned_offset hal rfl) rfl)
  | true =>
    refine FrameCode.append (frameCode_of_decode (by decide) (by decide) _) ?_
    refine frameCode_loads (loadsValue_thumb true LR f 0) ?_
    exact toNat_offset_mod (k := 14) (by decide) (aligned_offset hal rfl)

theorem restoreItems_code (hal : thunk.toNat % 4 = 0) :
    FrameCode base 18 m₀ false (thunk + BitVec.ofNat 32 (2 * 52))
      (restoreItems (thunk + BitVec.ofNat 32 104)) := by
  refine FrameCode.append (frameCode_of_decode (by decide) (by decide) _) ?_
  refine FrameCode.append ?_ (frameCode_of_decode (by decide) (by decide) _)
  have he : decodePiece false (addressBytes 0xE28F1009#32) = some ⟨always, .adr true 1#4 9#32⟩ := by
    decide
  refine frameCode_adr (by decide) he rfl ?_ ?_
  · show (thunk + BitVec.ofNat 32 104 + BitVec.ofNat 32 64 + 8#32).toNat % 4 = 0
    exact aligned_offset (aligned_offset (aligned_offset hal rfl) rfl) rfl
  · show thunk + BitVec.ofNat 32 104 + BitVec.ofNat 32 64 + 8#32 + 9#32 = _
    rw [BitVec.add_assoc, BitVec.add_assoc]
    rfl

/-! ### Up to the call -/

/-- The frame at the call of the function. -/
def callFrame (base thunk : Word) (b : Bool) (f : Word) (g : Reg → Word) (sl : ℕ → Word) :
    FrameState :=
  execOps base (execOps base ⟨g, 16, sl⟩ (saveItems (thunk + BitVec.ofNat 32 4))) (argItems b f)

/-- **The thunk saves the registers**, passes the arguments and gets to the
call. -/
theorem save_run (hal : thunk.toNat % 4 = 0) (hc : CodeApart base 18 m₀ thunk (thunkHalves b f))
    (h : FrameAt base 18 m₀ true thunk fl ⟨g, 16, sl⟩ s) :
    ∃ t, Reaches s t ∧ FrameAt base 18 m₀ true (thunk + BitVec.ofNat 32 (2 * 48)) fl
      (callFrame base thunk b f g sl) t := by
  have h0 : FrameAt base 18 m₀ true (thunk + BitVec.ofNat 32 (2 * 0)) fl ⟨g, 16, sl⟩ s := by
    rwa [Nat.mul_zero, BitVec.add_zero]
  obtain ⟨s₁, hr₁, h₁⟩ := step_bxPc 0 hc ⟨_, rfl⟩ hal rfl h0
  have hsave : (saveItems (thunk + BitVec.ofNat 32 4)).flatMap Prod.fst <+:
    (thunkHalves b f).drop 2 :=
    ⟨_, rfl⟩
  obtain ⟨s₂, hr₂, h₂⟩ := hc.run 2 hsave (saveItems_code hal) h₁ rfl
  -- `bx r1`
  have hbx : addressBytes 0xE12FFF11#32 <+: (thunkHalves b f).drop 34 := ⟨_, rfl⟩
  have he : Encodes false (addressBytes 0xE12FFF11#32) ⟨always, .bx 1#4⟩ := encodes_arm (by decide)
  have hreg : s₂.gpr 1#4 = thunk + BitVec.ofNat 32 (2 * 36) + 1#32 := by
    rw [h₂.frame.reg 1#4 (by decide)]
    show thunk + BitVec.ofNat 32 4 + 69#32 = _
    rw [BitVec.add_assoc, BitVec.add_assoc]
    rfl
  have hstep : step s₂
    = some { s₂ with pc := thunk + BitVec.ofNat 32 (2 * 36), thumb := true } := by
    rw [he s₂ h₂.state (h₂.pc ▸ hc.part 34 hbx h₂.frame), Insn.exec_always]
    show s₂.bxWritePC (s₂.gpr 1#4) = _
    rw [hreg]
    exact State.bxWritePC_thumb s₂ (toNat_offset_mod (by decide) (by omega))
  have h₃ : FrameAt base 18 m₀ true (thunk + BitVec.ofNat 32 (2 * 36)) fl
      (execOps base ⟨g, 16, sl⟩ (saveItems (thunk + BitVec.ofNat 32 4)))
      { s₂ with pc := thunk + BitVec.ofNat 32 (2 * 36), thumb := true } :=
    ⟨h₂.frame.congr rfl rfl, rfl, rfl, h₂.flags⟩
  have hargs : (argItems b f).flatMap Prod.fst <+: (thunkHalves b f).drop 36 := ⟨_, rfl⟩
  have hlen : ((argItems b f).flatMap Prod.fst).length = 12 := by cases b <;> rfl
  obtain ⟨t, hr₄, h₄⟩ := hc.run 36 hargs (argItems_code hal) h₃ (by cases b <;> rfl)
  rw [hlen] at h₄
  exact ⟨t, ((hr₁.trans hr₂).trans (Reaches.single hstep)).trans hr₄, h₄⟩

/-- What the frame holds at the call. -/
theorem callFrame_slot (base thunk f : Word) (b : Bool) (g : Reg → Word) (sl : ℕ → Word) :
    (callFrame base thunk b f g sl).slot 1 = slotAddr base 18
      ∧ (∀ i < 13, (callFrame base thunk b f g sl).slot (2 + i) = g (BitVec.ofNat 4 i))
      ∧ (callFrame base thunk b f g sl).slot 15 = g LR := by
  refine ⟨by cases b <;> rfl, fun i hi => ?_, by cases b <;> rfl⟩
  interval_cases i <;> cases b <;> rfl

/-- What the registers hold. -/
theorem callFrame_reg (base thunk f : Word) (b : Bool) (g : Reg → Word) (sl : ℕ → Word) :
    (callFrame base thunk b f g sl).reg 0#4 = sl 16
      ∧ (callFrame base thunk b f g sl).reg 1#4 = slotAddr base 17
      ∧ (callFrame base thunk b f g sl).reg 2#4 = slotAddr base 1
      ∧ (b = true → (callFrame base thunk b f g sl).reg 3#4 = slotAddr base 15) := by
  refine ⟨by cases b <;> rfl, by cases b <;> rfl, by cases b <;> rfl, ?_⟩
  rintro rfl
  rfl

/-- Where the function returns to. -/
def returnAddr (thunk : Word) : Word := thunk + BitVec.ofNat 32 (2 * 49) + 1#32

/-- **The call.** -/
theorem call_step (hc : CodeApart base 18 m₀ thunk (thunkHalves b f)) (hal : thunk.toNat % 4 = 0)
    (h : FrameAt base 18 m₀ true (thunk + BitVec.ofNat 32 (2 * 48)) fl
      (callFrame base thunk b f g sl) s) :
    step s = (s.setReg LR (returnAddr thunk)).bxWritePC f := by
  have hblx : [0x47F0#16] <+: (thunkHalves b f).drop 48 := by cases b <;> exact ⟨_, rfl⟩
  have he : Encodes true [0x47F0#16] ⟨always, .blxReg LR⟩ := encodes_thumb16 (by decide) (by decide)
  have hreg : s.gpr LR = f := by
    rw [h.frame.reg LR (by decide)]
    cases b <;> rfl
  have hnext : s.link (s.pc + BitVec.ofNat 32 (2 * [0x47F0#16].length))
      = returnAddr thunk := by
    have hpc : s.pc + BitVec.ofNat 32 (2 * [0x47F0#16].length)
        = thunk + BitVec.ofNat 32 (2 * 49) := by
      rw [h.pc, BitVec.add_assoc]
      rfl
    rw [State.link, if_pos h.state, hpc]
    exact or_one_of_even (toNat_offset_mod (by decide) (by omega))
  rw [he s h.state (h.pc ▸ hc.part 48 hblx h.frame), Insn.exec_always]
  show (s.setReg LR (s.link _)).bxWritePC (s.gpr LR) = _
  rw [hnext, hreg]

/-! ### From the return -/

/-- The frame at the jump to the next hop. -/
def nextHopFrame (base thunk : Word) (g : Reg → Word) (sl : ℕ → Word) : FrameState :=
  execOps base ⟨g, 2, sl⟩ (restoreItems (thunk + BitVec.ofNat 32 104))

/-- **The thunk restores the registers** and gets to the jump to the next
hop. -/
theorem restore_run (hal : thunk.toNat % 4 = 0) (hbase : base.toNat % 4 = 0)
    (hc : CodeApart base 18 m₀ thunk (thunkHalves b f))
    (h : FrameAt base 18 m₀ true (thunk + BitVec.ofNat 32 (2 * 49)) fl ⟨g, 0, sl⟩ s) :
    ∃ t, Reaches s t ∧ FrameAt base 18 m₀ true (thunk + BitVec.ofNat 32 (2 * 93)) fl
      { nextHopFrame base thunk g sl with sp := 17 } t := by
  have hadd : ([([0xB002#16], .up 2)] : List (List Half × FrameOp)).flatMap Prod.fst
      <+: (thunkHalves b f).drop 49 := by cases b <;> exact ⟨_, rfl⟩
  obtain ⟨s₁, hr₁, h₁⟩ := hc.run 49 hadd (frameCode_of_decode (by decide) (by decide) _) h rfl
  obtain ⟨s₂, hr₂, h₂⟩ := step_bxPc 50 hc (by cases b <;> exact ⟨_, rfl⟩) hal rfl h₁
  have hrestore : (restoreItems (thunk + BitVec.ofNat 32 104)).flatMap Prod.fst
      <+: (thunkHalves b f).drop 52 := by cases b <;> exact ⟨_, rfl⟩
  obtain ⟨s₃, hr₃, h₃⟩ := hc.run 52 hrestore (restoreItems_code hal) h₂ rfl
  -- `ldr pc, [sp], #4`, back to Thumb state
  have hpop : addressBytes 0xE49DF004#32 <+: (thunkHalves b f).drop 90 := by
    cases b <;> exact ⟨_, rfl⟩
  have he : Encodes false (addressBytes 0xE49DF004#32)
      ⟨always, .ldr .word false true true PC SP 4#32⟩ := encodes_arm (by decide)
  have hslot : (nextHopFrame base thunk g sl).slot 15
    = thunk + BitVec.ofNat 32 (2 * 92) + 1#32 := by
    show thunk + BitVec.ofNat 32 104 + 81#32 = _
    rw [BitVec.add_assoc, BitVec.add_assoc]
    rfl
  have hstep : step s₃ = some { s₃.setReg SP (slotAddr base 16) with
      pc := thunk + BitVec.ofNat 32 (2 * 92), thumb := true } := by
    rw [he s₃ h₃.state (h₃.pc ▸ hc.part 90 hpop h₃.frame), Insn.exec_always,
      h₃.frame.popPc hbase (by decide : 15 < 18)]
    show (s₃.setReg SP (slotAddr base 16)).bxWritePC ((nextHopFrame base thunk g sl).slot 15) = _
    rw [hslot]
    exact State.bxWritePC_thumb _ (toNat_offset_mod (by decide) (by omega))
  have h₄ : FrameAt base 18 m₀ true (thunk + BitVec.ofNat 32 (2 * 92)) fl
      { nextHopFrame base thunk g sl with sp := 16 }
      { s₃.setReg SP (slotAddr base 16) with
        pc := thunk + BitVec.ofNat 32 (2 * 92), thumb := true } :=
    ⟨(h₃.frame.move 16 0#32).congr rfl rfl, rfl, rfl, h₃.flags⟩
  have hadd' : ([([0xB001#16], .up 1)] : List (List Half × FrameOp)).flatMap Prod.fst
      <+: (thunkHalves b f).drop 92 := by cases b <;> exact ⟨_, rfl⟩
  obtain ⟨t, hr₅, h₅⟩ := hc.run 92 hadd' (frameCode_of_decode (by decide) (by decide) _) h₄ rfl
  exact ⟨t, (((hr₁.trans hr₂).trans hr₃).trans (Reaches.single hstep)).trans hr₅, h₅⟩

/-- **The jump to the next hop.** -/
theorem nextHop_step (hbase : base.toNat % 4 = 0)
    (hc : CodeApart base 18 m₀ thunk (thunkHalves b f))
    (h : FrameAt base 18 m₀ true (thunk + BitVec.ofNat 32 (2 * 93)) fl ⟨g, 17, sl⟩ s) :
    step s = (s.setReg SP (slotAddr base 18)).bxWritePC (sl 17) := by
  have hpop : [0xF85D#16, 0xFB04#16] <+: (thunkHalves b f).drop 93 := by
    cases b <;> exact ⟨_, rfl⟩
  have he : Encodes true [0xF85D#16, 0xFB04#16] ⟨always, .ldr .word false true true PC SP 4#32⟩ :=
    encodes_thumb32 (by decide) (by decide)
  rw [he s h.state (h.pc ▸ hc.part 93 hpop h.frame), Insn.exec_always]
  exact h.frame.popPc hbase (Nat.lt_succ_self 17) _ _

/-! ### The trampoline -/

/-- The halfwords of a trampoline. -/
def trampolineHalves (entry thunkPtr : Word) : List Half :=
  [0xB083#16, 0x9100#16] ++ (([0x4900#16, 0xE001#16] ++ addressBytes entry)
    ++ ([0x9101#16, 0x9900#16, 0xB001#16]
      ++ ([0xF8DF#16, 0xF004#16, 0x46C0#16] ++ addressBytes thunkPtr)))

/-- What a trampoline consists of, up to its jump. -/
def trampolineHead (entry : Word) : List Emission :=
  [.thumb 0xB083#16, .thumb 0x9100#16]
    ++ ([.thumb 0x4900#16, .thumb 0xE001#16] ++ [.bytes (addressBytes entry)])
    ++ [.thumb 0x9101#16, .thumb 0x9900#16, .thumb 0xB001#16]

/-- **The bytes of a trampoline.** -/
theorem putThunkJump_buffer (dataPtr entry thunkPtr : Word) :
    (putThunkJump (AssemblerWriter.thumbReset dataPtr 0#32) entry thunkPtr).buffer
      = trampolineHalves entry thunkPtr := by
  have heven : (AssemblerWriter.thumbReset dataPtr 0#32).currentPc.toNat % 2 = 0 := by
    show (0#32 + 4#32 : Word).toNat % 2 = 0
    decide
  have hreset : (AssemblerWriter.thumbReset dataPtr 0#32).offWord = false := by
    show ((0#32 + 4#32 : Word).toNat % 4 != 0) = false
    decide
  have hoff : ∀ es : List Emission, ((AssemblerWriter.thumbReset dataPtr 0#32).emit es).offWord
      = decide ((es.flatMap Emission.halves).length % 2 = 1) := by
    intro es
    rw [AssemblerWriter.offWord_emit _ heven, hreset, Bool.false_xor]
  have hput : putThunkJump (AssemblerWriter.thumbReset dataPtr 0#32) entry thunkPtr
      = ((AssemblerWriter.thumbReset dataPtr 0#32).emit
          (trampolineHead entry)).thumbPutLdrRegAddress
        PC thunkPtr := by
    show (((((AssemblerWriter.thumbReset dataPtr 0#32).emit [.thumb 0xB083#16,
      .thumb 0x9100#16]).thumbPutLdrBRegAddress 1#4 entry).emit [.thumb 0x9101#16, .thumb 0x9900#16,
      .thumb 0xB001#16]).thumbPutLdrRegAddress PC thunkPtr) = _
    have hload : AssemblerWriter.ldrBCode (decide ((([.thumb 0xB083#16, .thumb 0x9100#16] :
        List Emission).flatMap Emission.halves).length % 2 = 1)) 1#4
          = [.thumb 0x4900#16, .thumb 0xE001#16] := by
      decide
    rw [AssemblerWriter.thumbPutLdrBRegAddress_eq, hoff, hload, ← AssemblerWriter.emit_append,
      ← AssemblerWriter.emit_append]
    rfl
  have hhead : ((trampolineHead entry).flatMap Emission.halves).length = 9 := rfl
  have hjump : AssemblerWriter.ldrPcCode true
      = [.thumb 0xF8DF#16, .thumb 0xF004#16, .thumb 0x46C0#16] := by
    decide
  rw [hput, AssemblerWriter.thumbPutLdrRegAddress_pc, hoff, hhead, decide_eq_true (by decide), hjump,
    AssemblerWriter.emit_buffer, AssemblerWriter.emit_buffer]
  rfl

/-- A trampoline up to its jump. -/
def trampolineItems (entry : Word) : List (List Half × FrameOp) :=
  thumbItems [(0xB083#16, .down 3), (0x9100#16, .store 1#4 0)]
    ++ ([(itemHalves (valueItems false 1#4 entry 0), .set 1#4 entry)]
      ++ thumbItems [(0x9101#16, .store 1#4 1), (0x9900#16, .load 1#4 0), (0xB001#16, .up 1)])

/-- The trampoline leaves the registers as they are and the entry in its slot. -/
theorem trampolineItems_exec (base entry : Word) (g : Reg → Word) (sl : ℕ → Word) :
    ∃ sl', execOps base ⟨g, 18, sl⟩ (trampolineItems entry) = ⟨g, 16, sl'⟩ ∧ sl' 16 = entry := by
  refine ⟨Function.update (Function.update sl 15 (g 1#4)) 16 entry, ?_, Function.update_self _ _ _⟩
  have hreg : Function.update (Function.update g 1#4 entry) 1#4 (g 1#4) = g := by
    rw [Function.update_idem, Function.update_eq_self]
  exact congrArg (FrameState.mk · 16 _) hreg

/-- **The trampoline pushes the entry** and jumps to the thunk. -/
theorem trampoline_run {addr entry : Word} (hal : addr.toNat % 4 = 0)
    (hthunk : thunk.toNat % 4 = 0)
    (hc : CodeApart base 18 m₀ addr (trampolineHalves entry (thunk + 1#32)))
    (h : FrameAt base 18 m₀ true addr fl ⟨g, 18, sl⟩ s) :
    ∃ t, Reaches s t ∧ FrameAt base 18 m₀ true thunk fl
      (execOps base ⟨g, 18, sl⟩ (trampolineItems entry)) t := by
  have h0 : FrameAt base 18 m₀ true (addr + BitVec.ofNat 32 (2 * 0)) fl ⟨g, 18, sl⟩ s := by
    rwa [Nat.mul_zero, BitVec.add_zero]
  have hitems : (trampolineItems entry).flatMap Prod.fst
      <+: (trampolineHalves entry (thunk + 1#32)).drop 0 := ⟨_, rfl⟩
  have hcode : FrameCode base 18 m₀ true (addr + BitVec.ofNat 32 (2 * 0))
      (trampolineItems entry) := by
    refine FrameCode.append (frameCode_of_decode (by decide) (by decide) _) ?_
    refine FrameCode.append ?_ (frameCode_of_decode (by decide) (by decide) _)
    exact frameCode_loads (loadsValue_thumb false 1#4 entry 0)
      (aligned_offset (k := 4) (aligned_offset hal rfl) rfl)
  obtain ⟨s₁, hr₁, h₁⟩ := hc.run 0 hitems hcode h0 rfl
  -- `ldr pc`, whose literal stands behind a `NOP`
  have hjump : [0xF8DF#16, 0xF004#16] <+: (trampolineHalves entry (thunk + 1#32)).drop 9 := ⟨_, rfl⟩
  have hlit : addressBytes (thunk + 1#32) <+: (trampolineHalves entry (thunk + 1#32)).drop 12 :=
    ⟨_, rfl⟩
  have he : Encodes true [0xF8DF#16, 0xF004#16] ⟨always, .ldrLit true PC 4#32⟩ :=
    encodes_thumb32 (by decide) (by decide)
  have hpc : s₁.pc = addr + BitVec.ofNat 32 18 := h₁.pc
  have hphase : (addr + BitVec.ofNat 32 18).toNat % 4 = if true then 2 else 0 :=
    toNat_offset_mod (by decide) hal
  have haddr : align4 (s₁.pc + 4#32) + 4#32 = addr + BitVec.ofNat 32 (2 * 12) := by
    rw [hpc, literal_address hphase, BitVec.add_assoc, BitVec.add_assoc]
    rfl
  have hread : s₁.mem.read32 (addr + BitVec.ofNat 32 (2 * 12)) = thunk + 1#32 := by
    have hr := (hc.part 12 hlit h₁.frame).literal (i := 0) (v := thunk + 1#32) rfl rfl
    rwa [Nat.mul_zero, BitVec.add_zero] at hr
  have hstep : step s₁ = some { s₁ with pc := thunk, thumb := true } := by
    rw [he s₁ h₁.state (h₁.pc ▸ hc.part 9 hjump h₁.frame), Insn.exec_always, State.pcValue,
      if_pos h₁.state]
    show s₁.writeLoaded _ PC (align4 (s₁.pc + 4#32) + 4#32)
      (s₁.mem.read32 (align4 (s₁.pc + 4#32) + 4#32)) = _
    rw [haddr, hread, State.writeLoaded, if_pos rfl,
      if_pos (align4_of_aligned (aligned_offset hal rfl))]
    exact State.bxWritePC_thumb s₁ (by omega)
  exact ⟨_, hr₁.trans (Reaches.single hstep), h₁.frame.congr rfl rfl, rfl, rfl, h₁.flags⟩

end Run

/-! ## Transparency -/

/-- `RegState`. -/
@[ext]
structure RegState where
  /-- The stack pointer. -/
  sp : Word
  /-- `general.r`. -/
  r : Fin 13 → Word
  /-- The link register. -/
  lr : Word

namespace RegState

/-- The `RegState` at an address. -/
def read (m : Mem) (rs : Word) : RegState where
  sp := m.read32 rs
  r i := m.read32 (rs + BitVec.ofNat 32 (4 * (i + 1)))
  lr := m.read32 (rs + BitVec.ofNat 32 (4 * 14))

/-- The registers of a processor. -/
def ofState (s : State) : RegState where
  sp := s.gpr SP
  r i := s.gpr (BitVec.ofNat 4 i)
  lr := s.gpr LR

end RegState

/-- The frame of an invocation lies below the stack pointer. -/
def frameBase (s : State) : Word := s.gpr SP - 72#32

/-- Where an invocation finds the next hop. -/
def nextHopAddr (s : State) : Word := s.gpr SP - 4#32

/-- Where an invocation finds the return address of the hooked function. -/
def callerRetAddr (s : State) : Word := s.gpr SP - 12#32

/-- **What a function is called with**, in the state `u`, by a trampoline that
was entered in the state `s`. -/
structure Invoked (entry : Word) (callerRet : Bool) (s u : State) : Prop where
  /-- The entry. -/
  entry : u.gpr 0#4 = entry
  /-- The place of the next hop. -/
  nextHop : u.gpr 1#4 = nextHopAddr s
  /-- The saved registers. -/
  regState : RegState.read u.mem (u.gpr 2#4) = RegState.ofState s
  /-- The place of the saved link register. -/
  callerRetAddr : callerRet = true → u.gpr 3#4 = callerRetAddr s
  /-- Which holds it. -/
  savedLr : u.mem.read32 (HookZz.callerRetAddr s) = s.gpr LR
  /-- The rest of the memory. -/
  out : ∀ x, ¬ InBlock (frameBase s) 72 x → u.mem x = s.mem x

/-- **A function that has returned**, called in the state `u`: what the
procedure call standard says about the state `t` it has returned in. -/
structure Returned (u t : State) : Prop where
  /-- It has returned to its caller, -/
  pc : t.pc = u.gpr LR &&& 0xFFFFFFFE#32
  /-- in its instruction set, -/
  thumb : t.thumb = (u.gpr LR).getLsbD 0
  /-- with the stack as it was, -/
  sp : t.gpr SP = u.gpr SP
  /-- and with the registers it has to preserve. -/
  preserved : ∀ r : Reg, 4#4 ≤ r → r ≤ 11#4 → t.gpr r = u.gpr r

/-- **Nothing of the frame has changed** but the next hop and the saved link
register. -/
def FrameKept (s u t : State) : Prop :=
  ∀ x, InBlock (frameBase s) 72 x → ¬ InBlock (nextHopAddr s) 4 x → ¬ InBlock (callerRetAddr s) 4 x →
    t.mem x = u.mem x

/-- **The registers are those of a state** but for the link register and the
program counter. -/
def SameRegisters (s v : State) : Prop := ∀ r, r ≠ LR → r ≠ PC → v.gpr r = s.gpr r

/-- **A run that jumps** to an address: in the state `u`, of which only the
program counter and the instruction set are left to be set. -/
def JumpsTo (s : State) (v : Word) (u : State) : Prop := ∃ t, Reaches s t ∧ step t = u.bxWritePC v

/-- **A processor at the entry of a trampoline**, which has been written for an
entry and a thunk: the code of both is in memory, apart from the stack. -/
structure AtTrampoline (tempCodeSlice addr entry thunk : Word) (thunkCode : List Half) (s : State) :
    Prop where
  /-- It is at the trampoline, -/
  pc : s.pc = addr
  /-- in Thumb state, -/
  state : s.thumb = true
  /-- with a stack. -/
  sp : (s.gpr SP).toNat % 4 = 0
  /-- The trampoline is a code slice, -/
  slice : addr.toNat % 4 = 0
  /-- and the thunk is. -/
  thunkSlice : thunk.toNat % 4 = 0
  /-- The trampoline jumps to the thunk. -/
  trampoline : CodeApart (frameBase s) 18 s.mem addr
    (putThunkJump (AssemblerWriter.thumbReset tempCodeSlice 0#32) entry (thunk + 1#32)).buffer
  /-- The thunk is where it jumps. -/
  code : CodeApart (frameBase s) 18 s.mem thunk thunkCode

section Transparency

variable {addr thunk entry f tempCodeSlice : Word} {b : Bool} {s u t : State}

/-- The slots of an invocation. -/
theorem slotAddr_frameBase (s : State) : slotAddr (frameBase s) 18 = s.gpr SP
    ∧ slotAddr (frameBase s) 17 = nextHopAddr s ∧ slotAddr (frameBase s) 15 = callerRetAddr s := by
  refine ⟨BitVec.sub_add_cancel _ _, ?_, ?_⟩
  · show s.gpr SP - 72#32 + 68#32 = s.gpr SP - 4#32
    rw [BitVec.sub_eq_add_neg, BitVec.add_assoc, BitVec.sub_eq_add_neg]
    rfl
  · show s.gpr SP - 72#32 + 60#32 = s.gpr SP - 12#32
    rw [BitVec.sub_eq_add_neg, BitVec.add_assoc, BitVec.sub_eq_add_neg]
    rfl

/-- What is above the padding and below the two words that may change is
kept. -/
theorem FrameKept.read32 (h : FrameKept s u t) {k : ℕ} (hk : k < 18) (h15 : k ≠ 15) (h17 : k ≠ 17) :
    t.mem.read32 (slotAddr (frameBase s) k) = u.mem.read32 (slotAddr (frameBase s) k) := by
  obtain ⟨-, hnext, hret⟩ := slotAddr_frameBase s
  refine Mem.read32_congr (fun x hx => h x (inBlock_slot hk (by decide) hx) ?_ ?_)
  · rw [← hnext]
    exact not_inBlock_slot (by decide : 17 < 18) hk (by decide) (Ne.symm h17) hx
  · rw [← hret]
    exact not_inBlock_slot (by decide : 15 < 18) hk (by decide) (Ne.symm h15) hx

/-- **The way in.** Entered with the code of a trampoline and of its thunk in
memory, the processor calls the function with what has been saved, and has its
frame in the shape the way out needs. -/
theorem enter_run (hal : addr.toNat % 4 = 0) (hthunk : thunk.toNat % 4 = 0)
    (htramp : CodeApart (frameBase s) 18 s.mem addr (trampolineHalves entry (thunk + 1#32)))
    (hcode : CodeApart (frameBase s) 18 s.mem thunk (thunkHalves b f)) (ht : s.thumb = true)
    (hpc : s.pc = addr) :
    ∃ u, JumpsTo s f u ∧ Invoked entry b s u ∧ u.gpr LR = returnAddr thunk
      ∧ u.gpr SP = frameBase s ∧ u.flags = s.flags
      ∧ ∀ i < 13, u.mem.read32 (slotAddr (frameBase s) (2 + i)) = s.gpr (BitVec.ofNat 4 i) := by
  obtain ⟨hsp, hnext, hret⟩ := slotAddr_frameBase s
  obtain ⟨s₁, hr₁, h₁⟩ := trampoline_run hal hthunk htramp
    ⟨InFrame.self (a := ⟨s.gpr, 18, fun k => s.mem.read32 (slotAddr (frameBase s) k)⟩) hsp.symm,
      hpc, ht, rfl⟩
  obtain ⟨sl, hexec, hentry⟩ := trampolineItems_exec (frameBase s) entry s.gpr
    (fun k => s.mem.read32 (slotAddr (frameBase s) k))
  rw [hexec] at h₁
  obtain ⟨s₂, hr₂, h₂⟩ := save_run hthunk hcode h₁
  obtain ⟨hself, hregs, hlr⟩ := callFrame_slot (frameBase s) thunk f b s.gpr sl
  obtain ⟨h0, h1, h2, h3⟩ := callFrame_reg (frameBase s) thunk f b s.gpr sl
  have hslot := h₂.frame.slot
  have hgpr : ∀ r, r ≠ SP → r ≠ LR →
      (s₂.setReg LR (returnAddr thunk)).gpr r
        = (callFrame (frameBase s) thunk b f s.gpr sl).reg r := by
    intro r hsp hlr
    rw [State.setReg_gpr, Function.update_of_ne hlr]
    exact h₂.frame.reg r hsp
  have hlr' : s₂.mem.read32 (slotAddr (frameBase s) 15) = s.gpr LR :=
    (hslot 15 (by decide)).trans hlr
  have hregs' : ∀ i < 13, s₂.mem.read32 (slotAddr (frameBase s) (2 + i))
    = s.gpr (BitVec.ofNat 4 i) :=
    fun i hi => (hslot (2 + i) (by omega)).trans (hregs i hi)
  refine ⟨_, ⟨s₂, hr₁.trans hr₂, call_step hcode hthunk h₂⟩, ?_, ?_, ?_,
    h₂.flags, hregs'⟩
  · constructor
    · rw [hgpr 0#4 (by decide) (by decide), h0, hentry]
    · rw [hgpr 1#4 (by decide) (by decide), h1, hnext]
    · rw [hgpr 2#4 (by decide) (by decide), h2]
      refine RegState.ext ?_ (funext fun i => ?_) ?_
      · exact (hslot 1 (by decide)).trans (hself.trans hsp)
      · show s₂.mem.read32 (slotAddr (frameBase s) 1 + BitVec.ofNat 32 (4 * (i + 1))) = _
        rw [slotAddr_add, show 1 + ((i : ℕ) + 1) = 2 + i by omega]
        exact hregs' i i.isLt
      · show s₂.mem.read32 (slotAddr (frameBase s) 1 + BitVec.ofNat 32 (4 * 14)) = _
        rw [slotAddr_add]
        exact hlr'
    · intro hb
      rw [hgpr 3#4 (by decide) (by decide), h3 hb, hret]
    · exact hret ▸ hlr'
    · exact h₂.frame.out
  · rw [State.setReg_gpr, Function.update_self]
  · have hzero : (callFrame (frameBase s) thunk b f s.gpr sl).sp = 0 := by cases b <;> rfl
    rw [State.setReg_gpr, Function.update_of_ne (by decide), h₂.frame.sp, hzero]
    exact BitVec.add_zero _

/-- What the registers hold at the jump to the next hop. -/
theorem nextHopFrame_reg (base thunk : Word) (g : Reg → Word) (sl : ℕ → Word) :
    (∀ i < 13, (nextHopFrame base thunk g sl).reg (BitVec.ofNat 4 i) = sl (2 + i))
      ∧ (nextHopFrame base thunk g sl).reg LR = sl 15
      ∧ (nextHopFrame base thunk g sl).slot 17 = sl 17 := by
  refine ⟨fun i hi => ?_, rfl, rfl⟩
  interval_cases i <;> rfl

/-- **The way out.** Once the function has returned, the processor jumps to the
next hop with the registers that are in the frame. -/
theorem leave_run (hthunk : thunk.toNat % 4 = 0) (hsp : (s.gpr SP).toNat % 4 = 0)
    (hcode : CodeApart (frameBase s) 18 t.mem thunk (thunkHalves b f)) (ht : t.thumb = true)
    (hpc : t.pc = thunk + BitVec.ofNat 32 (2 * 49)) (htsp : t.gpr SP = frameBase s) :
    ∃ v, JumpsTo t (t.mem.read32 (nextHopAddr s)) v ∧ v.gpr SP = s.gpr SP ∧ v.flags = t.flags
      ∧ v.gpr LR = t.mem.read32 (callerRetAddr s)
      ∧ ∀ i < 13, v.gpr (BitVec.ofNat 4 i) = t.mem.read32 (slotAddr (frameBase s) (2 + i)) := by
  obtain ⟨htop, hnext, hret⟩ := slotAddr_frameBase s
  have hbase : (frameBase s).toNat % 4 = 0 := by
    rw [frameBase, BitVec.toNat_sub, show (72#32 : Word).toNat = 72 from rfl]
    omega
  obtain ⟨w, hr, hw⟩ := restore_run hthunk hbase hcode
    ⟨InFrame.self (a := ⟨t.gpr, 0, fun k => t.mem.read32 (slotAddr (frameBase s) k)⟩)
      (htsp.trans (BitVec.add_zero _).symm), hpc, ht, rfl⟩
  obtain ⟨hregs, hlr, hhop⟩ := nextHopFrame_reg (frameBase s) thunk t.gpr
    (fun k => t.mem.read32 (slotAddr (frameBase s) k))
  have hjump := nextHop_step hbase hcode hw
  rw [hhop, hnext] at hjump
  have hgpr : ∀ r v, r ≠ SP → (nextHopFrame (frameBase s) thunk t.gpr
      (fun k => t.mem.read32 (slotAddr (frameBase s) k))).reg r = v →
      (w.setReg SP (slotAddr (frameBase s) 18)).gpr r = v := by
    intro r v hr hv
    rw [State.setReg_gpr, Function.update_of_ne hr]
    exact (hw.frame.reg r hr).trans hv
  refine ⟨_, ⟨w, hr, hjump⟩, ?_, hw.flags, ?_, fun i hi => ?_⟩
  · rw [State.setReg_gpr, Function.update_self, htop]
  · rw [← hret]
    exact hgpr LR _ (by decide) hlr
  · refine hgpr _ _ ?_ (hregs i hi)
    interval_cases i <;> decide

/-- The bytes of a thunk, as they are built. -/
theorem putThunk_reset (tempCodeSlice : Word) (b : Bool) (f : Word) :
    (putThunk (AssemblerWriter.thumbReset tempCodeSlice 0#32) b f).buffer = thunkHalves b f :=
  putThunk_buffer (by
    show (0#32 + 4#32 : Word).toNat % 4 = 0
    decide) b f

/-- **Trampoline and thunk are transparent**, whatever function is called
between. -/
theorem invocation_transparent
    (h : AtTrampoline tempCodeSlice addr entry thunk (thunkHalves b f) s) :
    ∃ u, JumpsTo s f u ∧ Invoked entry b s u ∧ u.flags = s.flags
      ∧ ∀ t, Returned u t → FrameKept s u t → HalvesAt t.mem thunk (thunkHalves b f) →
        ∃ v, JumpsTo t (t.mem.read32 (nextHopAddr s)) v ∧ SameRegisters s v
          ∧ v.gpr LR = t.mem.read32 (callerRetAddr s) ∧ v.flags = t.flags := by
  obtain ⟨u, hu, hinv, hlr, husp, hfl, hregs⟩ :=
    enter_run h.slice h.thunkSlice (putThunkJump_buffer _ _ _ ▸ h.trampoline) h.code h.state h.pc
  refine ⟨u, hu, hinv, hfl, fun t hret hkept hcode => ?_⟩
  have heven : (thunk + BitVec.ofNat 32 (2 * 49)).toNat % 2 = 0 :=
    toNat_offset_mod (by decide) (by have := h.thunkSlice; omega)
  have hodd : (returnAddr thunk).getLsbD 0 = true := by
    rw [returnAddr, ← or_one_of_even heven, BitVec.getLsbD_or]
    exact Bool.or_true _
  have hpc : t.pc = thunk + BitVec.ofNat 32 (2 * 49) := by
    have hback := State.bxWritePC_eq_some (State.bxWritePC_thumb t heven)
    have hpc := congrArg State.pc hback
    dsimp only at hpc
    rw [hret.pc, hlr, hpc]
    exact (if_pos hodd).symm
  obtain ⟨v, hv, hvsp, hvfl, hvlr, hvregs⟩ := leave_run h.thunkSlice h.sp ⟨hcode, h.code.apart⟩
    (hret.thumb.trans (hlr ▸ hodd)) hpc (hret.sp.trans husp)
  refine ⟨v, hv, fun r hr hrpc => ?_, hvlr, hvfl⟩
  by_cases hrsp : r = SP
  · rw [hrsp, hvsp]
  · obtain ⟨i, hi, rfl⟩ : ∃ i < 13, r = BitVec.ofNat 4 i := by
      revert r
      decide
    rw [hvregs i hi, hkept.read32 (by omega) (by omega) (by omega), hregs i hi]

/-- **The enter path is transparent.** However the registers are when a
trampoline of a hooked function is entered, `function_context_begin_invocation`
is called with the entry, the place of the next hop, a `RegState` of those
registers and the place of the saved link register. Once it has returned, and
if it has changed no more of the frame than the next hop and the saved link
register, the next hop is jumped to with the registers as they were, and with
the link register that was left there. -/
theorem functionEnter_transparent {thunkSlice functionContextBeginInvocation : Word}
    (h : AtTrampoline tempCodeSlice addr entry thunk
      (buildEnterThunk (AssemblerWriter.thumbReset thunkSlice 0#32)
        functionContextBeginInvocation).buffer s) :
    ∃ u, JumpsTo s functionContextBeginInvocation u ∧ Invoked entry true s u
      ∧ ∀ t, Returned u t → FrameKept s u t →
        HalvesAt t.mem thunk (buildEnterThunk (AssemblerWriter.thumbReset thunkSlice 0#32)
          functionContextBeginInvocation).buffer →
        ∃ v, JumpsTo t (t.mem.read32 (nextHopAddr s)) v ∧ SameRegisters s v
          ∧ v.gpr LR = t.mem.read32 (callerRetAddr s) := by
  have hbuf := putThunk_reset thunkSlice true functionContextBeginInvocation
  obtain ⟨u, hu, hinv, -, hback⟩ := invocation_transparent (hbuf ▸ h)
  refine ⟨u, hu, hinv, fun t hret hkept hcode => ?_⟩
  obtain ⟨v, hv, hregs, hlr, -⟩ := hback t hret hkept (hbuf ▸ hcode)
  exact ⟨v, hv, hregs, hlr⟩

/-! ## Instrumentation -/

/-- What is handed to `stub_call`, with the pointer that is called. -/
structure StubCallback where
  /-- The pointer. -/
  function : Word
  /-- The saved registers. -/
  rs : Word
  /-- `hook_id` of the `HookEntryInfo`. -/
  hookId : ℕ
  /-- `hook_address` of the `HookEntryInfo`. -/
  hookAddress : Word
deriving DecidableEq

/-- `dynamic_binary_instrumentation_invocation`: what it calls, and what it
makes of the memory if that changes nothing. -/
def dynamicBinaryInstrumentationInvocation (entry : HookFunctionEntry) (nextHop rs : Word)
    (mem : Mem) : Option StubCallback × Mem :=
  (if entry.stubCall = 0#32 then none else some ⟨entry.stubCall, rs, entry.id, entry.targetPtr⟩,
    mem.write 4 nextHop entry.onInvokeTrampoline)

/-- **The function for instrumentation has returned**, and `stub_call` has
changed nothing: of the frame it has changed what it changes itself. -/
structure StubReturned (entry : HookFunctionEntry) (s u t : State) : Prop extends Returned u t where
  frame : ∀ x, InBlock (frameBase s) 72 x →
    t.mem x = (dynamicBinaryInstrumentationInvocation entry (u.gpr 1#4) (u.gpr 2#4) u.mem).2 x

theorem StubReturned.kept {entry : HookFunctionEntry} {p x : Word} (h : StubReturned entry s u t)
    (hinv : Invoked p b s u) (hx : InBlock (frameBase s) 72 x)
    (hnext : ¬ InBlock (nextHopAddr s) 4 x) : t.mem x = u.mem x := by
  rw [h.frame x hx, hinv.nextHop]
  exact Mem.write_of_out u.mem hnext

/-- Where the invocation goes on and what it has saved. -/
theorem StubReturned.slots {entry : HookFunctionEntry} {p : Word} (h : StubReturned entry s u t)
    (hinv : Invoked p b s u) : t.mem.read32 (nextHopAddr s) = entry.onInvokeTrampoline
      ∧ t.mem.read32 (callerRetAddr s) = s.gpr LR := by
  obtain ⟨-, hnext, hret⟩ := slotAddr_frameBase s
  constructor
  · have hmem : ∀ x ∈ wordBytes (nextHopAddr s), t.mem x = _ := fun x hx =>
      h.frame x (inBlock_slot (by decide : 17 < 18) (by decide) (hnext.symm ▸ hx))
    rw [Mem.read32_congr hmem, hinv.nextHop]
    exact Mem.read32_write u.mem (nextHopAddr s) entry.onInvokeTrampoline
  · rw [← hinv.savedLr, ← hret]
    refine Mem.read32_congr (fun x hx => h.kept hinv ?_ ?_)
    · exact inBlock_slot (by decide : 15 < 18) (by decide) hx
    · rw [← hnext]
      exact not_inBlock_slot (by decide : 17 < 18) (by decide) (by decide) (by decide) hx

/-- **Instrumentation is transparent but for the flags.** However the registers
are when an instrumented instruction is reached, if `stub_call` changes nothing
the processor gets to the invoke trampoline with the registers as they were, the
link register included. The flags are those the function for instrumentation
has returned with: neither `ctx_save` nor a thunk saves them. -/
theorem instrumentation_registers {entry : HookFunctionEntry}
    {thunkSlice dynamicBinaryInstrumentationInvocation : Word}
    (h : AtTrampoline tempCodeSlice addr entry.ptr thunk
      (buildDynamicBinaryInstrumentationThunk (AssemblerWriter.thumbReset thunkSlice 0#32)
        dynamicBinaryInstrumentationInvocation).buffer s) :
    ∃ u, JumpsTo s dynamicBinaryInstrumentationInvocation u ∧ Invoked entry.ptr true s u
      ∧ ∀ t, StubReturned entry s u t →
        HalvesAt t.mem thunk (buildDynamicBinaryInstrumentationThunk
          (AssemblerWriter.thumbReset thunkSlice 0#32)
          dynamicBinaryInstrumentationInvocation).buffer →
        ∃ v, JumpsTo t entry.onInvokeTrampoline v ∧ SameRegisters s v ∧ v.gpr LR = s.gpr LR
          ∧ v.flags = t.flags := by
  have hbuf := putThunk_reset thunkSlice true dynamicBinaryInstrumentationInvocation
  obtain ⟨u, hu, hinv, -, hback⟩ := invocation_transparent (hbuf ▸ h)
  refine ⟨u, hu, hinv, fun t hret hcode => ?_⟩
  obtain ⟨v, hv, hregs, hlr, hfl⟩ := hback t hret.toReturned
    (fun x hx hnext _ => hret.kept hinv hx hnext) (hbuf ▸ hcode)
  obtain ⟨hhop, hsaved⟩ := hret.slots hinv
  exact ⟨v, hhop ▸ hv, hregs, hlr.trans hsaved, hfl⟩

end Transparency

/-- A processor at a trampoline at 0x9000, with the thunk right behind it. -/
def trampolineState (function : Word) : State where
  gpr r := if r = SP then 0x8000#32 else r.setWidth 32
  pc := 0x9000#32
  thumb := true
  flags := ⟨false, false, false, false⟩
  mem := Mem.place (fun _ => 0#8) 2 0x9000#32
    (trampolineHalves 0x1000#32 (0x901C#32 + 1#32) ++ thunkHalves true function)

theorem trampolineState_atTrampoline (function : Word) :
    AtTrampoline 0x2000#32 0x9000#32 0x1000#32 0x901C#32 (thunkHalves true function)
      (trampolineState function) := by
  have hcode : HalvesAt (trampolineState function).mem 0x9000#32
      (trampolineHalves 0x1000#32 (0x901C#32 + 1#32) ++ thunkHalves true function) := by
    refine halvesAt_place _ _ _ ?_
    rw [List.length_append, thunkHalves_length]
    decide
  have hsp : (trampolineState function).gpr SP = 0x8000#32 := rfl
  have hbase : frameBase (trampolineState function) = 0x7FB8#32 := by
    rw [frameBase, hsp]
    rfl
  have hout : ∀ k < 218, ¬ InBlock (frameBase (trampolineState function)) (4 * 18)
      (0x9000#32 + BitVec.ofNat 32 k) := by
    intro k hk
    rw [hbase, InBlock, BitVec.toNat_sub, BitVec.toNat_add, BitVec.toNat_ofNat]
    simp only [BitVec.toNat_ofNat]
    omega
  refine ⟨rfl, rfl, by rw [hsp]; rfl, rfl, rfl, ⟨?_, fun k hk => ?_⟩,
    ⟨hcode.append_right, fun k hk => ?_⟩⟩
  · rw [putThunkJump_buffer]
    exact hcode.append_left
  · rw [putThunkJump_buffer] at hk
    exact hout k (lt_trans hk (by decide))
  · rw [thunkHalves_length] at hk
    have h := hout (28 + k) (by omega)
    rwa [BitVec.ofNat_add, ← BitVec.add_assoc] at h

/-- A call of `function_context_begin_invocation` at 0x5000. -/
theorem functionEnter_transparent_first :
    ∃ u, JumpsTo (trampolineState 0x5001#32) 0x5001#32 u
      ∧ Invoked 0x1000#32 true (trampolineState 0x5001#32) u
      ∧ ∀ t, Returned u t → FrameKept (trampolineState 0x5001#32) u t →
        HalvesAt t.mem 0x901C#32
          (buildEnterThunk (AssemblerWriter.thumbReset 0x2000#32 0#32) 0x5001#32).buffer →
        ∃ v, JumpsTo t (t.mem.read32 (nextHopAddr (trampolineState 0x5001#32))) v
          ∧ SameRegisters (trampolineState 0x5001#32) v
          ∧ v.gpr LR = t.mem.read32 (callerRetAddr (trampolineState 0x5001#32)) :=
  functionEnter_transparent (by
    rw [buildEnterThunk, putThunk_reset]
    exact trampolineState_atTrampoline 0x5001#32)

/-- An instrumented instruction, whose entry is at 0x1000 and whose relocated
prologue is at 0x9200. -/
def instrumentedEntry : HookFunctionEntry where
  ptr := 0x1000#32
  hookType := .dbi
  id := 0
  isEnabled := true
  tryNearJump := false
  threadLocalKey := 0#32
  targetPtr := 0x8001#32
  nextInsnAddr := 0#32
  preCall := 0#32
  postCall := 0#32
  stubCall := 0x6001#32
  replaceCall := 0#32
  onEnterTransferTrampoline := 0#32
  onEnterTrampoline := 0#32
  onInsnLeaveTrampoline := 0#32
  onInvokeTrampoline := 0x9201#32
  onLeaveTrampoline := 0#32
  onDynamicBinaryInstrumentationTrampoline := 0x9001#32
  originPrologue := ⟨0x8000#32, 8, []⟩
  redirectCodeSize := some 8

theorem instrumentation_registers_first :
    ∃ u, JumpsTo (trampolineState 0x5001#32) 0x5001#32 u
      ∧ Invoked 0x1000#32 true (trampolineState 0x5001#32) u
      ∧ ∀ t, StubReturned instrumentedEntry (trampolineState 0x5001#32) u t →
        HalvesAt t.mem 0x901C#32 (buildDynamicBinaryInstrumentationThunk
          (AssemblerWriter.thumbReset 0x2000#32 0#32) 0x5001#32).buffer →
        ∃ v, JumpsTo t 0x9201#32 v ∧ SameRegisters (trampolineState 0x5001#32) v
          ∧ v.gpr LR = (trampolineState 0x5001#32).gpr LR ∧ v.flags = t.flags :=
  @instrumentation_registers _ _ _ _ instrumentedEntry _ _ (by
    rw [buildDynamicBinaryInstrumentationThunk, putThunk_reset]
    exact trampolineState_atTrampoline 0x5001#32)

/-- A function for instrumentation that sets the carry flag, as a comparison
does, and is otherwise as it should be: the invoke trampoline is entered with
the flag set, which was clear. -/
theorem instrumentation_flags_lost :
    ∃ u t v, JumpsTo (trampolineState 0x5001#32) 0x5001#32 u
      ∧ StubReturned instrumentedEntry (trampolineState 0x5001#32) u t
      ∧ HalvesAt t.mem 0x901C#32 (buildDynamicBinaryInstrumentationThunk
          (AssemblerWriter.thumbReset 0x2000#32 0#32) 0x5001#32).buffer
      ∧ JumpsTo t 0x9201#32 v ∧ v.flags.c = true ∧ (trampolineState 0x5001#32).flags.c = false := by
  have hat := trampolineState_atTrampoline 0x5001#32
  obtain ⟨u, hu, hinv, -, hback⟩ := invocation_transparent hat
  set s := trampolineState 0x5001#32
  set t : State :=
    { u with
      pc := u.gpr LR &&& 0xFFFFFFFE#32
      thumb := (u.gpr LR).getLsbD 0
      flags := ⟨false, false, true, false⟩
      mem := u.mem.write 4 (u.gpr 1#4) 0x9201#32 }
  have hret : StubReturned instrumentedEntry s u t :=
    ⟨⟨rfl, rfl, rfl, fun _ _ _ => rfl⟩, fun _ _ => rfl⟩
  have hcode : HalvesAt t.mem 0x901C#32 (thunkHalves true 0x5001#32) := by
    refine hat.code.code.congr (fun k hk => ?_)
    have hout := hat.code.apart k hk
    have hnext : ¬ InBlock (u.gpr 1#4) 4 (0x901C#32 + BitVec.ofNat 32 k) := by
      rw [hinv.nextHop, ← (slotAddr_frameBase s).2.1]
      exact not_inBlock_of_frame (by decide) hout
    exact (Mem.write_of_out u.mem hnext).trans (hinv.out _ hout)
  obtain ⟨v, hv, -, -, hfl⟩ := hback t hret.toReturned
    (fun x hx hnext _ => hret.kept hinv hx hnext) hcode
  rw [(hret.slots hinv).1] at hv
  refine ⟨u, t, v, hu, hret, ?_, hv, by rw [hfl], rfl⟩
  rw [buildDynamicBinaryInstrumentationThunk, putThunk_reset]
  exact hcode

end HookZz
