import AndroidReverse.HookZzArm64Thunk

/-!
# What an A64 trampoline and its thunk do

Trampoline and thunk together work on 52 doublewords below the stack pointer.
The highest is the next hop, then come the entry, Q7 to Q0, X30 to X0, the stack
pointer in front of all that as the head of the `RegState`, and the padding.

Whatever the function that is called leaves in the `RegState` is in the
registers when the next hop is jumped to, the stack pointer and X17 apart
(`invocation_passes`): the one is what it was at the entry whatever is written
for it, the other is the next hop. Of the vector registers the `RegState` has
eight, and the flags are in it nowhere.
-/

namespace HookZz.Arm64

open A64

/-! ## The frame -/

/-- `RegState`. -/
@[ext]
structure RegState where
  /-- The stack pointer. -/
  sp : Addr
  /-- `general.x`. -/
  x : Fin 29 → Addr
  /-- The frame pointer. -/
  fp : Addr
  /-- The link register. -/
  lr : Addr
  /-- `floating.q`. -/
  q : Fin 8 → Vec

namespace RegState

/-- The `RegState` at an address. -/
def read (m : Mem) (rs : Addr) : RegState where
  sp := m.read64 rs
  x i := m.read64 (rs + BitVec.ofNat 64 (8 * (1 + i)))
  fp := m.read64 (rs + BitVec.ofNat 64 (8 * 30))
  lr := m.read64 (rs + BitVec.ofNat 64 (8 * 31))
  q i := m.read128 (rs + BitVec.ofNat 64 (8 * (32 + 2 * i)))

/-- The registers of a processor. -/
def ofState (s : VState) : RegState where
  sp := s.sp
  x i := s.gpr (BitVec.ofNat 5 i)
  fp := s.gpr 29#5
  lr := s.gpr 30#5
  q i := s.vec (BitVec.ofNat 5 i)

/-- With another X17. -/
def setX17 (rs : RegState) (v : Addr) : RegState := { rs with x := Function.update rs.x 17 v }

end RegState

/-- The frame of an invocation lies below the stack pointer. -/
def frameBase (s : VState) : Addr := s.sp - 416#64

/-- Where an invocation finds the next hop. -/
def nextHopAddr (s : VState) : Addr := s.sp - 8#64

/-- Where it finds the saved registers. -/
def regStateAddr (s : VState) : Addr := s.sp - 400#64

/-- Where it finds the return address of the hooked function. -/
def callerRetAddr (s : VState) : Addr := s.sp - 152#64

/-- The slots of an invocation. -/
theorem slotAddr_frameBase (s : VState) : slotAddr (frameBase s) 52 = s.sp
    ∧ slotAddr (frameBase s) 51 = nextHopAddr s ∧ slotAddr (frameBase s) 33 = callerRetAddr s
    ∧ slotAddr (frameBase s) 2 = regStateAddr s := by
  have hsub : ∀ k : Addr, s.sp - 416#64 + k = s.sp - (416#64 - k) := fun k => by bv_omega
  refine ⟨?_, hsub _, hsub _, hsub _⟩
  exact (hsub _).trans (BitVec.sub_zero _)

/-- The `RegState` in a frame. -/
theorem regState_read {base : Addr} {m : Mem} : RegState.read m (slotAddr base 2)
    = { sp := m.read64 (slotAddr base 2)
        x := fun i => m.read64 (slotAddr base (3 + i))
        fp := m.read64 (slotAddr base 32)
        lr := m.read64 (slotAddr base 33)
        q := fun i => m.read64 (slotAddr base (35 + 2 * i)) ++ m.read64 (slotAddr base (34 + 2 * i)) } := by
  refine RegState.ext rfl (funext fun i => ?_) ?_ ?_ (funext fun i => ?_)
  · show m.read64 (slotAddr base 2 + _) = _
    rw [slotAddr_add, show 2 + (1 + (i : ℕ)) = 3 + i by omega]
  · exact congrArg m.read64 (slotAddr_add base 2 30)
  · exact congrArg m.read64 (slotAddr_add base 2 31)
  · show m.read128 (slotAddr base 2 + _) = _
    rw [slotAddr_add, show 2 + (32 + 2 * (i : ℕ)) = 34 + 2 * i by omega, Mem.read128, slotAddr_succ,
      show 34 + 2 * (i : ℕ) + 1 = 35 + 2 * i by omega]

section Frames

variable (base entry : Addr) (b : Bool) (a : FrameState)

/-- What the first part of a trampoline leaves. -/
theorem trampolineCode_exec (h : a.sp = 52) :
    ((trampolineCode entry).exec base a).sp = 50
      ∧ ((trampolineCode entry).exec base a).slot 50 = entry
      ∧ (∀ r, r ≠ x17 → ((trampolineCode entry).exec base a).reg r = a.reg r)
      ∧ ((trampolineCode entry).exec base a).vec = a.vec := by
  obtain ⟨g, v, k, sl⟩ := a
  obtain rfl : k = 52 := h
  refine ⟨rfl, ?_, fun r hr => ?_, rfl⟩
  · show Function.update sl 50 (Function.update g x17 entry x17) 50 = entry
    rw [Function.update_self, Function.update_self]
  · show Function.update g x17 entry r = g r
    rw [Function.update_of_ne hr]

/-- **What `ctx_save` leaves.** -/
theorem ctxSave_exec (h : a.sp = 50) :
    let c := (FrameCode.ofInsns ctxSaveItems).exec base a
    c.sp = 2 ∧ c.reg = a.reg ∧ c.vec = a.vec ∧ c.slot 50 = a.slot 50
      ∧ (∀ i < 31, c.slot (3 + i) = a.reg (BitVec.ofNat 5 i))
      ∧ ∀ i < 8, c.slots (34 + 2 * i) = a.vec (BitVec.ofNat 5 i) := by
  obtain ⟨g, v, k, sl⟩ := a
  obtain rfl : k = 50 := h
  refine ⟨rfl, rfl, rfl, rfl, fun i hi => ?_, fun i hi => ?_⟩
  · interval_cases i <;> rfl
  · refine Eq.trans ?_ (doublewords_append (v (BitVec.ofNat 5 i)))
    interval_cases i <;> rfl

/-- **What the arguments are**, and that the head of the `RegState` is the stack
pointer at the entry. -/
theorem argItems_exec (h : a.sp = 2) :
    let c := (FrameCode.ofInsns (argItems b)).exec base a
    c.reg 0#5 = a.slot 50 ∧ c.reg 1#5 = slotAddr base 51 ∧ c.reg 2#5 = slotAddr base 2
      ∧ (b = true → c.reg 3#5 = slotAddr base 33) ∧ c.vec = a.vec ∧ c.sp = 0
      ∧ c.slot 2 = slotAddr base 52 ∧ ∀ k, k ≠ 2 → c.slot k = a.slot k := by
  obtain ⟨g, v, k, sl⟩ := a
  obtain rfl : k = 2 := h
  have hslot : ∀ k, k ≠ 2 → Function.update sl 2 (slotAddr base 52) k = sl k := fun k hk => by
    rw [Function.update_of_ne hk]
  cases b with
  | false => exact ⟨rfl, rfl, rfl, fun h => absurd h Bool.false_ne_true, rfl, rfl, rfl, hslot⟩
  | true => exact ⟨rfl, rfl, rfl, fun _ => rfl, rfl, rfl, rfl, hslot⟩

theorem saveCode_exec : (saveCode b).exec base a = (FrameCode.ofInsns (argItems b)).exec base
    ((FrameCode.ofInsns ctxSaveItems).exec base a) := by
  rw [saveCode, FrameCode.ofInsns, List.map_append]
  exact List.foldl_append

/-- **What is in the registers** at the jump to the next hop. -/
theorem restoreCode_exec (h : a.sp = 0) :
    (∀ i < 31, i ≠ 17 → (restoreCode.exec base a).reg (BitVec.ofNat 5 i) = a.slot (3 + i))
      ∧ (restoreCode.exec base a).reg x17 = a.slot 51
      ∧ (∀ i < 8, (restoreCode.exec base a).vec (BitVec.ofNat 5 i) = a.slots (34 + 2 * i))
      ∧ (∀ r : Reg, 8 ≤ r.toNat → (restoreCode.exec base a).vec r = a.vec r)
      ∧ (restoreCode.exec base a).sp = 52 := by
  obtain ⟨g, v, k, sl⟩ := a
  obtain rfl : k = 0 := h
  refine ⟨fun i hi hne => ?_, rfl, fun i hi => ?_, fun r hr => ?_, rfl⟩
  · interval_cases i <;> first | rfl | exact absurd rfl hne
  · interval_cases i <;> rfl
  · have hne : ∀ q : Reg, q.toNat < 8 → r ≠ q := fun q hq he => by
      rw [he] at hr
      exact absurd hr (Nat.not_le.mpr hq)
    show Function.update (Function.update (Function.update (Function.update (Function.update
      (Function.update (Function.update (Function.update v 0#5 _) 1#5 _) 2#5 _) 3#5 _) 4#5 _) 5#5 _)
      6#5 _) 7#5 _ r = v r
    rw [Function.update_of_ne (hne _ (by decide)), Function.update_of_ne (hne _ (by decide)),
      Function.update_of_ne (hne _ (by decide)), Function.update_of_ne (hne _ (by decide)),
      Function.update_of_ne (hne _ (by decide)), Function.update_of_ne (hne _ (by decide)),
      Function.update_of_ne (hne _ (by decide)), Function.update_of_ne (hne _ (by decide))]

end Frames

/-! ## The call -/

section Calls

variable {isa : Isa}

/-- **Words that call a function** and go on behind themselves when it returns.
They change the link register, and maybe X17. -/
structure Calls (isa : Isa) (call : List Word) (addr f ret : Addr) : Prop where
  enter : ∀ s : VState, s.pc = addr → WordsAt s.mem addr call → ∃ u, isa.Reaches s u ∧ u.pc = f
    ∧ u.gpr 30#5 = ret ∧ (∀ r, r ≠ x17 → r ≠ 30#5 → u.gpr r = s.gpr r) ∧ u.sp = s.sp
    ∧ u.vec = s.vec ∧ u.flags = s.flags ∧ u.mem = s.mem
  back : ∀ t : VState, t.pc = ret → WordsAt t.mem addr call →
    isa.Reaches t (t.goto (addr + BitVec.ofNat 64 (4 * call.length)))

/-- The call of the template. -/
theorem calls_bl {bl : Word} {addr off : Addr} (h : decode bl = some (.bl off)) :
    Calls isa [bl] addr (addr + off) (addr + 4#64) where
  enter s hpc hw := by
    have hfetch : s.mem.read32 s.pc = bl := by
      have h₀ := hw 0 _ rfl
      rwa [Nat.mul_zero, BitVec.add_zero, ← hpc] at h₀
    have hstep : isa.step s = some _ := Isa.step_of_decodeInsn (i := .core (.bl off)) hfetch
      (by rw [decodeInsn, h])
    refine ⟨_, .single hstep, by rw [← hpc]; rfl, ?_, fun r _ hr => ?_, ?_, rfl, ?_, ?_⟩
    · rw [← hpc]
      exact State.setReg_gpr (r := 30#5) s.toState (s.pc + 4#64) (by decide)
    · exact s.toState.setReg_gpr_of_ne (s.pc + 4#64) hr
    · exact s.setReg_sp 30#5 (s.pc + 4#64)
    · exact s.setReg_flags 30#5 (s.pc + 4#64)
    · exact s.setReg_mem 30#5 (s.pc + 4#64)
  back t hpc _ := by
    rw [show t.goto (addr + BitVec.ofNat 64 (4 * [bl].length)) = t.goto t.pc from
      congrArg t.goto hpc.symm]
    exact .refl t

/-- The call of a thunk that is written. -/
theorem calls_literal {addr f : Addr} : Calls isa (literalCall f) addr f (addr + 8#64) where
  enter s hpc hw := by
    have hcall : RunsWithin addr 36 s.toState
        (((s.toState.setReg x17 f).setReg 30#5 (addr + 8#64)).goto f) := by
      refine RunsWithin.step_at (k := 0) (by rw [hpc]; exact (BitVec.add_zero addr).symm)
        (by decide) (by decide) (hw 0 _ rfl) (decode_ldrLitWord x17).2 ?_
      have hlit : s.mem.read64 (addr + BitVec.ofNat 64 (4 * 0) + 12#64) = f := by
        rw [BitVec.add_assoc]
        exact read64_addressBytes 3 hw rfl rfl
      rw [Op.exec, hlit]
      refine RunsWithin.step_at (k := 1) rfl (by decide) (by decide) ?_ decode_blrWord ?_
      · rw [State.goto_mem, State.setReg_mem]
        exact hw 1 _ rfl
      · have htarget : ((s.toState.setReg x17 f).goto
            (addr + BitVec.ofNat 64 (4 * (0 + 1)))).branchTarget x17 = f :=
          (if_neg (by decide)).trans (s.toState.setReg_gpr f (r := x17) (by decide))
        rw [Op.exec, htarget, State.setReg_goto, State.goto_goto]
        exact RunsWithin.refl _
    refine ⟨_, Isa.Reaches.of_runsWithin hcall s.vec, rfl, ?_, fun r h₁₇ h₃₀ => ?_, ?_, rfl, ?_, ?_⟩
    · exact State.setReg_gpr (r := 30#5) (s.toState.setReg x17 f) (addr + 8#64) (by decide)
    · exact ((s.toState.setReg x17 f).setReg_gpr_of_ne _ h₃₀).trans
        (s.toState.setReg_gpr_of_ne f h₁₇)
    · exact ((s.setReg x17 f).setReg_sp 30#5 (addr + 8#64)).trans (s.setReg_sp x17 f)
    · exact ((s.setReg x17 f).setReg_flags 30#5 (addr + 8#64)).trans (s.setReg_flags x17 f)
    · exact ((s.setReg x17 f).setReg_mem 30#5 (addr + 8#64)).trans (s.setReg_mem x17 f)
  back t hpc hw := by
    have hstep : isa.step t = some _ := Isa.step_of_decodeInsn (i := .core (.b 12#64))
      (hpc ▸ hw 2 _ rfl) (by rw [decodeInsn, decode_bWord.1])
    have hend : t.pc + 12#64 = addr + BitVec.ofNat 64 (4 * (literalCall f).length) := by
      rw [hpc, BitVec.add_assoc]
      rfl
    rw [← hend]
    exact .single hstep

end Calls

/-! ## Trampoline and thunk -/

/-- **The code of a thunk** at an address, for a function and with the address
of the saved link register for an argument or without. -/
inductive ThunkCode (f thunk : Addr) : Bool → List Word → Prop where
  /-- The template, linked to its function. -/
  | template {bl : Word} {off : Addr} (h : decode bl = some (.bl off))
      (hf : thunk + BitVec.ofNat 64 (4 * (saveCode true).words.length) + off = f) :
      ThunkCode f thunk true (enterThunkTemplate bl)
  /-- A thunk that is written. -/
  | written (tempCodeSlice : Addr) (b : Bool) :
      ThunkCode f thunk b (putThunk (.reset tempCodeSlice 0#64) b f).buffer

/-- A thunk calls its function. -/
theorem ThunkCode.calls {f thunk : Addr} {b : Bool} {ws : List Word} (h : ThunkCode f thunk b ws)
    (isa : Isa) : ∃ call ret, ws = thunkWords b call
      ∧ Calls isa call (thunk + BitVec.ofNat 64 (4 * (saveCode b).words.length)) f ret := by
  cases h with
  | @template bl off h hf => exact ⟨[bl], _, enterThunkTemplate_eq bl, hf ▸ calls_bl h⟩
  | written tempCodeSlice => exact ⟨literalCall f, _, putThunk_buffer _ _ _, calls_literal⟩

/-- **Code that is apart from the frame** of an invocation. -/
structure CodeApart (s : VState) (addr : Addr) (ws : List Word) : Prop where
  code : WordsAt s.mem addr ws
  apart : ∀ k < 4 * ws.length, ¬ InBlock (frameBase s) (8 * 52) (addr + BitVec.ofNat 64 k)

/-- **A processor at the entry of a trampoline**, which has been written for an
entry and a thunk: the code of both is in memory, apart from the stack. -/
structure AtTrampoline (tempCodeSlice addr entry thunk : Addr) (thunkCode : List Word)
    (s : VState) : Prop where
  pc : s.pc = addr
  /-- The trampoline jumps to the thunk. -/
  trampoline : CodeApart s addr
    (putThunkTrampoline (.reset tempCodeSlice 0#64) entry thunk).buffer
  /-- The thunk is where it jumps. -/
  code : CodeApart s thunk thunkCode

/-- **What a function is called with**, in the state `u`, by a trampoline that
was entered in the state `s`. -/
structure Invoked (entry thunk : Addr) (callerRet : Bool) (s u : VState) : Prop where
  entry : u.gpr 0#5 = entry
  /-- The place of the next hop. -/
  nextHop : u.gpr 1#5 = nextHopAddr s
  /-- The place of the saved registers, -/
  regStateAddr : u.gpr 2#5 = regStateAddr s
  /-- which are those at the entry of the trampoline, but for X17. -/
  regState : RegState.read u.mem (u.gpr 2#5) = (RegState.ofState s).setX17 thunk
  /-- The place of the saved link register. -/
  callerRetAddr : callerRet = true → u.gpr 3#5 = callerRetAddr s
  /-- The stack pointer keeps its alignment. -/
  sp : u.sp = frameBase s
  vec : u.vec = s.vec
  flags : u.flags = s.flags
  /-- The rest of the memory. -/
  out : ∀ x, ¬ InBlock (frameBase s) (8 * 52) x → u.mem x = s.mem x

/-- **A function that has returned**, called in the state `u`. -/
structure Returned (u t : VState) : Prop where
  pc : t.pc = u.gpr 30#5
  sp : t.sp = u.sp

/-- **What the next hop is jumped to with**, in the state `v`, once the function
has returned in the state `t`. -/
structure Resumed (s t v : VState) : Prop where
  /-- The next hop. -/
  pc : v.pc = t.mem.read64 (nextHopAddr s)
  /-- The registers that were left for it, with the stack pointer as it was. -/
  regState : RegState.ofState v
    = { RegState.read t.mem (regStateAddr s) with sp := s.sp }.setX17
        (t.mem.read64 (nextHopAddr s))
  /-- The vector registers that are not saved. -/
  vec : ∀ r : Reg, 8 ≤ r.toNat → v.vec r = t.vec r
  flags : v.flags = t.flags
  /-- What is not on the stack of the invocation. -/
  mem : ∀ x, ¬ InBlock (frameBase s) (8 * 52) x → v.mem x = t.mem x

section Invocation

variable {isa : Isa} {addr thunk entry f ret tempCodeSlice : Addr} {b : Bool} {s t : VState}
  {call ws : List Word}

/-- The parts of code apart from the frame. -/
theorem CodeApart.part {ws' : List Word} (h : CodeApart s addr (ws ++ ws')) :
    CodeApart s addr ws ∧ CodeApart s (addr + BitVec.ofNat 64 (4 * ws.length)) ws' := by
  have hlen : (ws ++ ws').length = ws.length + ws'.length := List.length_append
  refine ⟨⟨h.code.append_left, fun k hk => h.apart k (by omega)⟩,
    ⟨h.code.append_right, fun k hk => ?_⟩⟩
  rw [BitVec.add_assoc, ← BitVec.ofNat_add]
  exact h.apart _ (by omega)

/-- **A trampoline leads to its thunk**, with the entry on the stack. -/
theorem trampoline_run (isa : Isa) (hpc : s.pc = addr)
    (htramp : CodeApart s addr ((trampolineCode entry).words ++ jumpBlock thunk)) :
    ∃ u a, isa.Reaches s u ∧ u.pc = thunk ∧ u.flags = s.flags
      ∧ InFrame (frameBase s) 52 s.mem a u ∧ a.sp = 50 ∧ a.slot 50 = entry ∧ a.reg x17 = thunk
      ∧ (∀ r, r ≠ x17 → a.reg r = s.gpr r) ∧ a.vec = s.vec := by
  obtain ⟨s₁, hr₁, hpc₁, hf₁, h₁⟩ := InFrame.run isa (by decide)
    (trampolineCode_pieces entry) htramp.part.1.code htramp.part.1.apart
    (InFrame.self (n := 52) (slotAddr_frameBase s).1.symm) hpc rfl
  obtain ⟨hsp, hentry, hgpr, hvec⟩ := trampolineCode_exec (frameBase s) entry
    ⟨s.gpr, s.vec, 52, fun k => s.mem.read64 (slotAddr (frameBase s) k)⟩ rfl
  have hjump : isa.Reaches s₁ _ := Isa.Reaches.of_runsWithin (jumpBlock_runs (s := s₁.toState)
    (h₁.code htramp.part.2.code htramp.part.2.apart) hpc₁) s₁.vec
  refine ⟨_, _, hr₁.trans hjump, rfl, ?_, (h₁.setReg (r := x17) rfl thunk).goto thunk, hsp,
    hentry, FrameState.setReg_self _ thunk, fun r hr => ?_, hvec⟩
  · exact (s₁.setReg_flags x17 thunk).trans hf₁
  · exact (FrameState.setReg_of_ne _ thunk hr).trans (hgpr r hr)

/-- **The way in.** -/
theorem enter_run (hpc : s.pc = addr)
    (htramp : CodeApart s addr ((trampolineCode entry).words ++ jumpBlock thunk))
    (hcode : CodeApart s thunk (thunkWords b call))
    (hcall : Calls isa call (thunk + BitVec.ofNat 64 (4 * (saveCode b).words.length)) f ret) :
    ∃ u, isa.Reaches s u ∧ u.pc = f ∧ u.gpr 30#5 = ret ∧ Invoked entry thunk b s u := by
  obtain ⟨htop, hhop, hret, hrs⟩ := slotAddr_frameBase s
  obtain ⟨s₂, a, hr₂, hpc₂, hf₂, h₂, hsp₂, hentry, h₁₇, hgpr₂, hvec₂⟩ :=
    trampoline_run isa hpc htramp
  -- the thunk up to the call
  obtain ⟨s₃, hr₃, hpc₃, hf₃, h₃⟩ := InFrame.run isa (by decide) (saveCode_pieces b)
    hcode.part.1.code hcode.part.1.apart h₂ hpc₂ (by rw [hsp₂]; cases b <;> rfl)
  obtain ⟨hsp, hreg, hvec, hslot₅₀, hregs, hvecs⟩ := ctxSave_exec (frameBase s) a hsp₂
  obtain ⟨h0, h1, h2, h3, hvec₃, hsp₃, hself, hkept⟩ := argItems_exec (frameBase s) b _ hsp
  rw [saveCode_exec] at h₃
  obtain ⟨u, hu, hupc, hulr, hugpr, husp, huvec, huf, humem⟩ :=
    hcall.enter s₃ hpc₃ (h₃.code hcode.part.2.part.1.code hcode.part.2.part.1.apart)
  have hgpr : ∀ {r : Reg}, r ≠ x17 → r ≠ 30#5 → u.gpr r = _ :=
    fun h₁₇ h₃₀ => (hugpr _ h₁₇ h₃₀).trans (congrFun h₃.reg _)
  have hslot : ∀ k < 52, k ≠ 2 → u.mem.read64 (slotAddr (frameBase s) k) = _ :=
    fun k hk hne => humem ▸ (h₃.slot k hk).trans (hkept k hne)
  have harg : u.gpr 2#5 = slotAddr (frameBase s) 2 := (hgpr (by decide) (by decide)).trans h2
  refine ⟨u, hr₂.trans (hr₃.trans hu), hupc, hulr, ?_⟩
  constructor
  case entry => exact (hgpr (by decide) (by decide)).trans (h0.trans (hslot₅₀.trans hentry))
  case nextHop => exact (hgpr (by decide) (by decide)).trans (h1.trans hhop)
  case regStateAddr => exact harg.trans hrs
  case callerRetAddr => exact fun hb => (hgpr (by decide) (by decide)).trans ((h3 hb).trans hret)
  case sp => exact (husp.trans h₃.sp).trans (by rw [hsp₃]; exact BitVec.add_zero _)
  case vec => exact huvec.trans (h₃.vec.trans (hvec₃.trans (hvec.trans hvec₂)))
  case flags => exact huf.trans (hf₃.trans hf₂)
  case out => exact fun x hx => (congrFun humem x).trans (h₃.out x hx)
  case regState =>
    have hreg : ∀ i < 31, i ≠ 17 → u.mem.read64 (slotAddr (frameBase s) (3 + i))
        = s.gpr (BitVec.ofNat 5 i) := by
      intro i hi hne
      have hr : BitVec.ofNat 5 i ≠ x17 := fun he => hne (by
        have hn := congrArg BitVec.toNat he
        rwa [BitVec.toNat_ofNat, Nat.mod_eq_of_lt (by omega)] at hn)
      rw [hslot _ (by omega) (by omega), hregs i hi, hgpr₂ _ hr]
    rw [harg, regState_read]
    refine RegState.ext ?_ (funext fun i => ?_) (hreg 29 (by decide) (by decide))
      (hreg 30 (by decide) (by decide)) (funext fun i => ?_)
    · exact (humem ▸ h₃.slot 2 (by decide)).trans (hself.trans htop)
    · show u.mem.read64 (slotAddr (frameBase s) (3 + i))
        = Function.update (fun i : Fin 29 => s.gpr (BitVec.ofNat 5 i)) 17 thunk i
      by_cases he : i = 17
      · subst he
        rw [Function.update_self]
        exact (hslot 20 (by decide) (by decide)).trans ((hregs 17 (by decide)).trans h₁₇)
      · rw [Function.update_of_ne he]
        exact hreg i (by omega) fun hn => he (Fin.ext hn)
    · show u.mem.read64 _ ++ u.mem.read64 _ = s.vec (BitVec.ofNat 5 i)
      rw [hslot _ (by omega) (by omega), hslot _ (by omega) (by omega),
        show 35 + 2 * (i : ℕ) = 34 + 2 * i + 1 by omega, ← hvec₂]
      exact hvecs i i.isLt

/-- **The way out.** -/
theorem leave_run (hcode : WordsAt t.mem thunk (thunkWords b call))
    (hapart : ∀ k < 4 * (thunkWords b call).length,
      ¬ InBlock (frameBase s) (8 * 52) (thunk + BitVec.ofNat 64 k))
    (hcall : Calls isa call (thunk + BitVec.ofNat 64 (4 * (saveCode b).words.length)) f ret)
    (hpc : t.pc = ret) (hsp : t.sp = frameBase s) :
    ∃ v, isa.Reaches t v ∧ Resumed s t v := by
  obtain ⟨htop, hhop, -, hrs⟩ := slotAddr_frameBase s
  have hrest := WordsAt.append_right (WordsAt.append_right hcode)
  have hlen : (thunkWords b call).length
      = (saveCode b).words.length + (call.length + (restoreCode.words.length + 1)) := by
    rw [thunkWords, List.length_append, List.length_append, List.length_append]
    rfl
  have hback := hcall.back t hpc (WordsAt.append_left (WordsAt.append_right hcode))
  obtain ⟨s₁, hr₁, hpc₁, hf₁, h₁⟩ := InFrame.run isa (by decide) restoreCode_pieces
    hrest.append_left (fun k hk => by
      rw [BitVec.add_assoc, BitVec.add_assoc, ← BitVec.ofNat_add, ← BitVec.ofNat_add]
      exact hapart _ (by omega))
    ((InFrame.self (n := 52) (k := 0) (hsp.trans (BitVec.add_zero _).symm)).goto _) rfl rfl
  obtain ⟨hregs, h₁₇, hvecs, hvec, hsp₁⟩ := restoreCode_exec (frameBase s)
    ⟨t.gpr, t.vec, 0, fun k => t.mem.read64 (slotAddr (frameBase s) k)⟩ rfl
  have hgpr₁₇ : s₁.gpr x17 = t.mem.read64 (nextHopAddr s) :=
    (congrFun h₁.reg x17).trans (h₁₇.trans (congrArg t.mem.read64 hhop))
  have hfetch : s₁.mem.read32 s₁.pc = brWord := by
    have hbr := h₁.code (hrest.append_right) (fun k hk => by
      rw [BitVec.add_assoc, BitVec.add_assoc, BitVec.add_assoc, ← BitVec.ofNat_add,
        ← BitVec.ofNat_add, ← BitVec.ofNat_add]
      exact hapart _ (by simp only [List.length_singleton] at hk; omega)) 0 _ rfl
    rwa [Nat.mul_zero, BitVec.add_zero, ← hpc₁] at hbr
  have hstep : isa.step s₁ = some _ := Isa.step_of_decodeInsn (i := .core (.br x17)) hfetch
    (by rw [decodeInsn, decode_brWord])
  have htarget : s₁.branchTarget x17 = t.mem.read64 (nextHopAddr s) :=
    (if_neg (by decide)).trans hgpr₁₇
  refine ⟨s₁.goto (t.mem.read64 (nextHopAddr s)), hback.trans (hr₁.trans (.single ?_)), ?_⟩
  · rw [hstep, ← htarget]
    rfl
  have hreg : ∀ i < 31, i ≠ 17 → s₁.gpr (BitVec.ofNat 5 i)
      = t.mem.read64 (slotAddr (frameBase s) (3 + i)) := fun i hi hne =>
    (congrFun h₁.reg _).trans (hregs i hi hne)
  constructor
  case pc => rfl
  case flags => exact hf₁
  case vec => exact fun r hr => (congrFun h₁.vec r).trans (hvec r hr)
  case mem => exact h₁.out
  case regState =>
    rw [← hrs, regState_read]
    refine RegState.ext ?_ (funext fun i => ?_) (hreg 29 (by decide) (by decide))
      (hreg 30 (by decide) (by decide)) (funext fun i => ?_)
    · exact h₁.sp.trans ((congrArg (slotAddr (frameBase s)) hsp₁).trans htop)
    · show s₁.gpr (BitVec.ofNat 5 i) = Function.update
        (fun i : Fin 29 => t.mem.read64 (slotAddr (frameBase s) (3 + i))) 17 _ i
      by_cases he : i = 17
      · subst he
        rw [Function.update_self]
        exact hgpr₁₇
      · rw [Function.update_of_ne he]
        exact hreg i (by omega) fun hn => he (Fin.ext hn)
    · refine (congrFun h₁.vec _).trans ((hvecs i i.isLt).trans ?_)
      rw [FrameState.slots, show 34 + 2 * (i : ℕ) + 1 = 35 + 2 * i by omega]
      rfl

/-- **A trampoline and its thunk pass on what is left in the `RegState`.**
Entered in any state, with their code in memory apart from the stack, they call
the function with the entry, the place of the next hop, a `RegState` of the
registers, with the address of the thunk for X17, and the place of the saved
link register. When it has returned they jump to the next hop it has set, with
the registers as the `RegState` has them then. The stack pointer is again what
it was, whatever the `RegState` says, and X17 is the next hop. The flags and the
other vector registers are those that the function has returned with. -/
theorem invocation_passes {thunkCode : List Word} (hthunk : ThunkCode f thunk b thunkCode)
    (h : AtTrampoline tempCodeSlice addr entry thunk thunkCode s) :
    ∃ u, isa.Reaches s u ∧ u.pc = f ∧ Invoked entry thunk b s u
      ∧ ∀ t, Returned u t → WordsAt t.mem thunk thunkCode →
        ∃ v, isa.Reaches t v ∧ Resumed s t v := by
  obtain ⟨call, ret, rfl, hcall⟩ := hthunk.calls isa
  obtain ⟨u, hu, hupc, hlr, hinv⟩ := enter_run h.pc
    (putThunkTrampoline_buffer (.reset tempCodeSlice 0#64) entry thunk ▸ h.trampoline) h.code hcall
  refine ⟨u, hu, hupc, hinv, fun t hret hcode => ?_⟩
  exact leave_run hcode h.code.apart hcall (hret.pc.trans hlr) (hret.sp.trans hinv.sp)

end Invocation

/-- A trampoline that leads to `0x2000`, where there is a thunk that calls what is
at `0x3000`. -/
def trampolineAt1000 : List Word × List Word :=
  ((putThunkTrampoline (.reset 0#64 0#64) 0x5000#64 0x2000#64).buffer,
    (putThunk (.reset 0#64 0#64) false 0x3000#64).buffer)

/-- A processor in front of it. -/
def startTrampoline : VState where
  gpr _ := 0#64
  sp := 0x100000#64
  pc := 0x1000#64
  flags := ⟨false, false, false, false⟩
  mem := (Mem.place (fun _ => 0#8) 0x1000#64 trampolineAt1000.1).place 0x2000#64 trampolineAt1000.2
  vec _ := 0#128

/-- What is in front of a block is not in it. -/
theorem not_inBlock_of_lt {base a : Addr} {len : ℕ} (h : a.toNat < base.toNat)
    (hlen : base.toNat + len ≤ 2 ^ 64) : ¬ InBlock base len a := by
  rw [InBlock, BitVec.toNat_sub]
  omega

theorem invocation_passes_once : ∃ u, Isa.plain.Reaches startTrampoline u ∧ u.pc = 0x3000#64
    ∧ Invoked 0x5000#64 0x2000#64 false startTrampoline u := by
  have hlen : trampolineAt1000.1.length = 10 ∧ trampolineAt1000.2.length = 59 := ⟨rfl, rfl⟩
  have hlow : ∀ (a : Addr) (k : ℕ), a.toNat ≤ 0x2000 → k < 256 →
      (a + BitVec.ofNat 64 k).toNat = a.toNat + k := by
    intro a k ha hk
    rw [BitVec.toNat_add, BitVec.toNat_ofNat]
    omega
  have hapart : ∀ (a : Addr) (ws : List Word), a.toNat ≤ 0x2000 → ws.length ≤ 60 →
      ∀ k < 4 * ws.length, ¬ InBlock (frameBase startTrampoline) (8 * 52)
        (a + BitVec.ofNat 64 k) := by
    intro a ws ha hws k hk
    refine not_inBlock_of_lt ?_ (by decide)
    rw [hlow a k ha (by omega)]
    exact lt_of_lt_of_le (by omega : a.toNat + k < 0x3000) (by decide)
  have htramp : WordsAt startTrampoline.mem 0x1000#64 trampolineAt1000.1 := by
    refine (wordsAt_place _ _ (by decide)).place fun k hk => not_inBlock_of_lt ?_ (by decide)
    rw [hlow _ k (by decide) (by omega)]
    exact (by omega : 0x1000 + k < 0x2000)
  have h : AtTrampoline 0#64 0x1000#64 0x5000#64 0x2000#64 trampolineAt1000.2 startTrampoline :=
    ⟨rfl, ⟨htramp, hapart _ _ (by decide) (by decide)⟩,
      ⟨wordsAt_place _ _ (by decide), hapart _ _ (by decide) (by decide)⟩⟩
  obtain ⟨u, hu, hpc, hinv, -⟩ := invocation_passes (ThunkCode.written 0#64 false) h
  exact ⟨u, hu, hpc, hinv⟩

end HookZz.Arm64
