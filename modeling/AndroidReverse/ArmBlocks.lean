import AndroidReverse.ArmRun

/-!
# Blocks around a literal

Code that is moved away from what it refers to carries the address or the
value along as a literal and loads it. There are three such blocks in each
instruction set: one that jumps to its literal, one that also sets the link
register, and one that leaves the literal in a register and continues behind
it; in Thumb state the jump may be guarded by a conditional branch over it.

For each the theorem lists every state a run of the block passes, as an
equivalence. From right to left it runs the block; from left to right it says
that there is nothing else to reach.
-/

namespace Arm

/-! ## Code at an offset -/

/-- **One 16-bit instruction of placed code.** -/
theorem HalvesAt.step16 {s : State} {base : Word} {hs : List Half} {i : ℕ} {w : Half} {x : Insn}
    (hc : HalvesAt s.mem base hs) (ht : s.thumb = true)
    (hpc : s.pc = base + BitVec.ofNat 32 (2 * i)) (hw : hs[i]? = some w)
    (hn : isThumb32 w = false) (hd : decodeThumb16 w = some x) :
    step s = x.exec (base + BitVec.ofNat 32 (2 * i + 4))
        (base + BitVec.ofNat 32 (2 * i + 2)) s := by
  have hr : s.mem.read16 s.pc = w := by rw [hpc]; exact hc i w hw
  rw [step_thumb16 ht hr hn hd, hpc, BitVec.add_assoc, BitVec.add_assoc, ← BitVec.ofNat_add,
    ← BitVec.ofNat_add]

/-- **One 32-bit instruction of placed code.** -/
theorem HalvesAt.step32 {s : State} {base : Word} {hs : List Half} {i : ℕ} {w w' : Half}
    {x : Insn} (hc : HalvesAt s.mem base hs) (ht : s.thumb = true)
    (hpc : s.pc = base + BitVec.ofNat 32 (2 * i)) (hw : hs[i]? = some w)
    (hw' : hs[i + 1]? = some w') (hn : isThumb32 w = true)
    (hd : decodeThumb32 (w ++ w') = some x) :
    step s = x.exec (base + BitVec.ofNat 32 (2 * i + 4))
        (base + BitVec.ofNat 32 (2 * i + 4)) s := by
  have hr : s.mem.read16 s.pc = w := by rw [hpc]; exact hc i w hw
  have hr' : s.mem.read16 (s.pc + 2#32) = w' := by
    rw [hpc, BitVec.add_assoc, ← BitVec.ofNat_add]
    exact hc (i + 1) w' hw'
  rw [step_thumb32 ht hr hr' hn hd, hpc, BitVec.add_assoc, ← BitVec.ofNat_add]

/-- **One word of placed code.** -/
theorem WordsAt.step {s : State} {base : Word} {ws : List Word} {i : ℕ} {w : Word} {x : Insn}
    (hc : WordsAt s.mem base ws) (ht : s.thumb = false)
    (hpc : s.pc = base + BitVec.ofNat 32 (4 * i)) (hw : ws[i]? = some w)
    (hd : decodeArm w = some x) :
    Arm.step s
      = x.exec (base + BitVec.ofNat 32 (4 * i + 8)) (base + BitVec.ofNat 32 (4 * i + 4)) s := by
  have hr : s.mem.read32 s.pc = w := by rw [hpc]; exact hc i w hw
  rw [step_arm ht (by rw [hr]; exact hd), hpc, BitVec.add_assoc, BitVec.add_assoc,
    ← BitVec.ofNat_add, ← BitVec.ofNat_add]

/-- The address of an offset into a block, as a number modulo a power of two
that divides the address space. -/
theorem toNat_offset_mod {base : Word} {m k : ℕ} (hm : m ∣ 2 ^ 32) (h : base.toNat % m = 0) :
    (base + BitVec.ofNat 32 k).toNat % m = k % m := by
  rw [BitVec.toNat_add, BitVec.toNat_ofNat, Nat.mod_mod_of_dvd _ hm, Nat.add_mod, h, Nat.zero_add,
    Nat.mod_mod, Nat.mod_mod_of_dvd _ hm]

theorem aligned_offset {base : Word} {k : ℕ} (h : base.toNat % 4 = 0) (hk : k % 4 = 0) :
    (base + BitVec.ofNat 32 k).toNat % 4 = 0 := by
  rw [toNat_offset_mod (by decide) h, hk]

theorem even_offset {base : Word} {k : ℕ} (h : base.toNat % 4 = 0) (hk : k % 2 = 0) :
    (base + BitVec.ofNat 32 k).toNat % 2 = 0 := by
  rw [toNat_offset_mod (by decide) (by omega), hk]

/-! ## Literals -/

/-- The low half of a literal, stored first. -/
def lowHalf (v : Word) : Half := v.extractLsb' 0 16

/-- The high half of a literal. -/
def highHalf (v : Word) : Half := v.extractLsb' 16 16

theorem highHalf_append_lowHalf (v : Word) : highHalf v ++ lowHalf v = v := by
  refine BitVec.eq_of_getLsbD_eq (fun i hi => ?_)
  simp only [highHalf, lowHalf, BitVec.getLsbD_append, BitVec.getLsbD_extractLsb']
  interval_cases i <;> simp

/-- The literal at halfword `i` of placed code. -/
theorem HalvesAt.literal {m : Mem} {base : Word} {hs : List Half} {i : ℕ} {v : Word}
    (hc : HalvesAt m base hs) (hlo : hs[i]? = some (lowHalf v))
    (hhi : hs[i + 1]? = some (highHalf v)) : m.read32 (base + BitVec.ofNat 32 (2 * i)) = v := by
  rw [hc.read32 hlo hhi, highHalf_append_lowHalf]

/-! ## Writing a value -/

namespace State

/-- The effect of a block that loads a value: the value is in the register, or
the processor has jumped to it. -/
def writeValue (s : State) (next : Word) (r : Reg) (v : Word) : Option State :=
  if r = PC then s.bxWritePC v else some ((s.setReg r v).goto next)

variable {s t : State} {next v v' : Word} {r : Reg}

/-- In ARM state that is writing the result of a data-processing
instruction. -/
theorem writeResult_eq_writeValue (hs : s.thumb = false) :
    s.writeResult next r v = s.writeValue next r v := by
  unfold writeResult writeValue aluWritePC
  rw [hs]
  rfl

theorem bxWritePC_injective (h : s.bxWritePC v = some t) (h' : s.bxWritePC v' = some t) :
    v = v' := by
  have ht := bxWritePC_eq_some h
  have ht' := bxWritePC_eq_some h'
  have hbit : v.getLsbD 0 = v'.getLsbD 0 :=
    (congrArg State.thumb ht).symm.trans (congrArg State.thumb ht')
  have hpc := (congrArg State.pc ht).symm.trans (congrArg State.pc ht')
  simp only [← hbit] at hpc
  by_cases h0 : v.getLsbD 0 = true
  · rw [if_pos h0, if_pos h0] at hpc
    refine BitVec.eq_of_getLsbD_eq (fun i hi => ?_)
    by_cases hi0 : i = 0
    · rw [hi0, hbit]
    · have hm : (0xFFFFFFFE#32).getLsbD i = true := by
        interval_cases i <;> first | rfl | omega
      have hb := congrArg (fun x => x.getLsbD i) hpc
      simpa only [BitVec.getLsbD_and, hm, Bool.and_true] using hb
  · rwa [if_neg h0, if_neg h0] at hpc

/-- The value written can be read off the state. -/
theorem writeValue_injective (h : s.writeValue next r v = some t)
    (h' : s.writeValue next r v' = some t) : v = v' := by
  unfold writeValue at h h'
  by_cases hr : r = PC
  · rw [if_pos hr] at h h'
    exact bxWritePC_injective h h'
  · rw [if_neg hr] at h h'
    have hg := congrArg (fun u => State.gpr u r) (Option.some.inj (h.trans h'.symm))
    simpa using hg

theorem writeValue_flags (h : s.writeValue next r v = some t) : t.flags = s.flags := by
  unfold writeValue at h
  by_cases hr : r = PC
  · rw [if_pos hr] at h
    rw [bxWritePC_eq_some h]
  · rw [if_neg hr] at h
    rw [← Option.some.inj h]
    rfl

/-- Writing another value than the register holds is not doing nothing. -/
theorem writeValue_ne_goto (hg : s.gpr r ≠ v) (hn : next ∉ jumpTargets v) :
    s.writeValue next r v ≠ some (s.goto next) := by
  intro h
  unfold writeValue at h
  by_cases hr : r = PC
  · rw [if_pos hr] at h
    exact hn (pc_mem_jumpTargets h)
  · rw [if_neg hr] at h
    have hg' := congrArg (fun u => State.gpr u r) (Option.some.inj h)
    exact hg (by simpa using hg'.symm)

end State

/-! ## Thumb blocks -/

section Thumb

variable {base : Word} {s t : State} {v : Word}

/-- `LDR.W PC, [PC]` at a word-aligned halfword `i`, its literal behind it. -/
theorem HalvesAt.step_ldrPc {hs : List Half} {i : ℕ} (hc : HalvesAt s.mem base hs)
    (hal : base.toNat % 4 = 0) (hi : i % 2 = 0) (ht : s.thumb = true)
    (hpc : s.pc = base + BitVec.ofNat 32 (2 * i)) (h0 : hs[i]? = some 0xF8DF#16)
    (h1 : hs[i + 1]? = some 0xF000#16) (h2 : hs[i + 2]? = some (lowHalf v))
    (h3 : hs[i + 3]? = some (highHalf v)) : step s = s.bxWritePC v := by
  have hl : align4 (base + BitVec.ofNat 32 (2 * i + 4)) + 0#32
      = base + BitVec.ofNat 32 (2 * (i + 2)) := by
    rw [align4_of_aligned (aligned_offset hal (by omega)), BitVec.add_zero]
    rfl
  rw [hc.step32 ht hpc h0 h1 (x := ⟨always, .ldrLit true PC 0#32⟩) (by decide) (by decide),
    Insn.exec_always]
  show s.writeLoaded _ PC (align4 _ + 0#32) (s.mem.read32 (align4 _ + 0#32)) = _
  rw [hl, hc.literal h2 h3, State.writeLoaded, if_pos rfl,
    if_pos (align4_of_aligned (aligned_offset hal (by omega)))]

/-- A branch forward inside placed code. -/
theorem HalvesAt.step_skip {hs : List Half} {i d : ℕ} {w : Half} (hc : HalvesAt s.mem base hs)
    (hal : base.toNat % 4 = 0) (hi : d % 2 = 0) (ht : s.thumb = true)
    (hpc : s.pc = base + BitVec.ofNat 32 (2 * i)) (h0 : hs[i]? = some w)
    (hn : isThumb32 w = false)
    (hd : decodeThumb16 w = some ⟨always, .b (BitVec.ofNat 32 d)⟩) :
    step s = some (s.goto (base + BitVec.ofNat 32 (2 * i + 4 + d))) := by
  rw [hc.step16 ht hpc h0 hn hd, Insn.exec_always]
  show some (s.branchWritePC (base + _ + _)) = _
  rw [BitVec.add_assoc, ← BitVec.ofNat_add,
    State.branchWritePC_thumb ht (even_offset hal (by omega))]

/-- **The jump block**: `LDR.W PC, [PC]` and its literal. -/
theorem jumpThumb_iff (hal : base.toNat % 4 = 0) (ht : s.thumb = true) (hpc : s.pc = base)
    (hc : HalvesAt s.mem base [0xF8DF#16, 0xF000#16, lowHalf v, highHalf v]) :
    RunsWithin base 8 s t
      ↔ t = s ∨ ∃ u, s.bxWritePC v = some u ∧ RunsWithin base 8 u t := by
  have hst : step s = s.bxWritePC v :=
    hc.step_ldrPc (i := 0) hal rfl ht (by rw [hpc]; exact (BitVec.add_zero base).symm)
      rfl rfl rfl rfl
  have hb : InBlock base 8 s.pc := by rw [hpc]; exact inBlock_base (by omega)
  rw [runsWithin_iff, hst]
  exact or_congr Iff.rfl ⟨fun ⟨u, _, hu⟩ => ⟨u, hu⟩, fun ⟨u, hu⟩ => ⟨u, hb, hu⟩⟩

/-- **The link block**: `ADD.W LR, PC, #9`, `LDR.W PC, [PC]` and its literal.
The link register is the end of the block with bit 0 set. -/
theorem linkThumb_iff (hal : base.toNat % 4 = 0) (ht : s.thumb = true) (hpc : s.pc = base)
    (hc : HalvesAt s.mem base
      [0xF20F#16, 0x0E09#16, 0xF8DF#16, 0xF000#16, lowHalf v, highHalf v]) :
    RunsWithin base 12 s t
      ↔ t = s ∨ t = (s.setReg LR ((base + 12#32) ||| 1#32)).goto (base + 4#32)
        ∨ ∃ u, (s.setReg LR ((base + 12#32) ||| 1#32)).bxWritePC v = some u
          ∧ RunsWithin base 12 u t := by
  have hlr : align4 (base + 4#32) + 9#32 = (base + 12#32) ||| 1#32 := by
    rw [align4_of_aligned (aligned_offset hal (by omega))]
    rw [or_one_of_even (even_offset (k := 12) hal (by omega)), BitVec.add_assoc, BitVec.add_assoc]
    rfl
  set s₁ := (s.setReg LR ((base + 12#32) ||| 1#32)).goto (base + 4#32) with hs₁
  have hst : step s = some s₁ := by
    rw [hc.step32 (i := 0) ht (by rw [hpc]; exact (BitVec.add_zero base).symm) rfl rfl
      (x := ⟨always, .adr true LR 9#32⟩) (by decide) (by decide), Insn.exec_always]
    show s.writeResult (base + 4#32) LR (align4 (base + 4#32) + 9#32) = _
    rw [hlr]
    rfl
  have hst₁ : step s₁ = (s.setReg LR ((base + 12#32) ||| 1#32)).bxWritePC v :=
    HalvesAt.step_ldrPc (s := s₁) (i := 2) hc hal rfl ht rfl rfl rfl rfl rfl
  have hb : InBlock base 12 s.pc := by rw [hpc]; exact inBlock_base (by omega)
  have hb₁ : InBlock base 12 s₁.pc := inBlock_offset (k := 4) (by omega) (by omega)
  exact runsWithin_iff_of_steps hb hst hb₁ hst₁

section Guarded

variable {c : Half} {x : Insn}

/-- **A guarded jump whose guard branches**: the guard lands on the jump, and
the branch over it is not executed. -/
theorem guardTaken_iff (hal : base.toNat % 4 = 0) (ht : s.thumb = true) (hpc : s.pc = base)
    (hn : isThumb32 c = false) (hd : decodeThumb16 c = some x)
    (hx : x.exec (base + 4#32) (base + 2#32) s = some (s.goto (base + 4#32)))
    (hc : HalvesAt s.mem base
      [c, 0xE003#16, 0xF8DF#16, 0xF000#16, lowHalf v, highHalf v]) :
    RunsWithin base 12 s t
      ↔ t = s ∨ t = s.goto (base + 4#32)
        ∨ ∃ u, s.bxWritePC v = some u ∧ RunsWithin base 12 u t := by
  set s₁ := s.goto (base + 4#32) with hs₁
  have hst : step s = some s₁ := by
    rw [hc.step16 (i := 0) ht (by rw [hpc]; exact (BitVec.add_zero base).symm) rfl hn hd]
    exact hx
  have hst₁ : step s₁ = s.bxWritePC v :=
    HalvesAt.step_ldrPc (s := s₁) (i := 2) hc hal rfl ht rfl rfl rfl rfl rfl
  have hb : InBlock base 12 s.pc := by rw [hpc]; exact inBlock_base (by omega)
  have hb₁ : InBlock base 12 s₁.pc := inBlock_offset (k := 4) (by omega) (by omega)
  exact runsWithin_iff_of_steps hb hst hb₁ hst₁

/-- **A guarded jump whose guard falls through**: the branch behind the guard
leaves the block at its end. -/
theorem guardFailed_iff (hal : base.toNat % 4 = 0) (ht : s.thumb = true) (hpc : s.pc = base)
    (hn : isThumb32 c = false) (hd : decodeThumb16 c = some x)
    (hx : x.exec (base + 4#32) (base + 2#32) s = some (s.goto (base + 2#32)))
    (hc : HalvesAt s.mem base
      [c, 0xE003#16, 0xF8DF#16, 0xF000#16, lowHalf v, highHalf v]) :
    RunsWithin base 12 s t
      ↔ t = s ∨ t = s.goto (base + 2#32) ∨ t = s.goto (base + 12#32) := by
  set s₁ := s.goto (base + 2#32) with hs₁
  have hst : step s = some s₁ := by
    rw [hc.step16 (i := 0) ht (by rw [hpc]; exact (BitVec.add_zero base).symm) rfl hn hd]
    exact hx
  have hst₁ : step s₁ = some (s.goto (base + 12#32)) := by
    rw [HalvesAt.step_skip (s := s₁) (i := 1) (d := 6) hc hal (by omega) ht rfl rfl (by decide)
      (by decide)]
    rfl
  have hb : InBlock base 12 s.pc := by rw [hpc]; exact inBlock_base (by omega)
  have hb₁ : InBlock base 12 s₁.pc := inBlock_offset (k := 2) (by omega) (by omega)
  have hout : ¬ InBlock base 12 (base + 12#32) := not_inBlock_end _ _ (by omega)
  exact runsWithin_iff_of_leaves hb hst hb₁ hst₁ hout

/-- **The value block**: load the literal into a register and branch over
it. -/
theorem valueThumb_iff {r : Reg} (hal : base.toNat % 4 = 0) (ht : s.thumb = true)
    (hpc : s.pc = base) (hr : r ≠ PC) (hn : isThumb32 c = false)
    (hd : decodeThumb16 c = some ⟨always, .ldrLit true r 0#32⟩)
    (hc : HalvesAt s.mem base [c, 0xE001#16, lowHalf v, highHalf v]) :
    RunsWithin base 8 s t
      ↔ t = s ∨ t = (s.setReg r v).goto (base + 2#32)
        ∨ t = (s.setReg r v).goto (base + 8#32) := by
  set s₁ := (s.setReg r v).goto (base + 2#32) with hs₁
  have hl : align4 (base + 4#32) + 0#32 = base + BitVec.ofNat 32 (2 * 2) := by
    rw [align4_of_aligned (aligned_offset (k := 4) hal (by omega)), BitVec.add_zero]
  have hst : step s = some s₁ := by
    rw [hc.step16 (i := 0) ht (by rw [hpc]; exact (BitVec.add_zero base).symm) rfl hn hd,
      Insn.exec_always]
    show s.writeLoaded (base + 2#32) r _ (s.mem.read32 (align4 (base + 4#32) + 0#32)) = _
    rw [hl, hc.literal (i := 2) rfl rfl, State.writeLoaded, if_neg hr]
  have hst₁ : step s₁ = some ((s.setReg r v).goto (base + 8#32)) := by
    rw [HalvesAt.step_skip (s := s₁) (i := 1) (d := 2) hc hal (by omega) ht rfl rfl (by decide)
      (by decide)]
    rfl
  have hb : InBlock base 8 s.pc := by rw [hpc]; exact inBlock_base (by omega)
  have hb₁ : InBlock base 8 s₁.pc := inBlock_offset (k := 2) (by omega) (by omega)
  have hout : ¬ InBlock base 8 (base + 8#32) := not_inBlock_end _ _ (by omega)
  exact runsWithin_iff_of_leaves hb hst hb₁ hst₁ hout

end Guarded

end Thumb

/-! ## The effect of a Thumb block -/

/-- **The processor is at the start of a Thumb block** that is in memory, at a
word-aligned address. -/
structure AtThumbBlock (block : List Half) (s : State) : Prop where
  /-- The block is word-aligned. -/
  aligned : s.pc.toNat % 4 = 0
  /-- The processor is in Thumb state. -/
  thumb : s.thumb = true
  /-- The block is at the program counter. -/
  code : HalvesAt s.mem s.pc block

/-- The address behind a block. -/
def blockEnd (block : List Half) (s : State) : Word := s.pc + BitVec.ofNat 32 (2 * block.length)

/-- **The effect of a Thumb block** as a function of the state it is entered
in and of the address behind it. A block has the effect if it always reaches
the state the function gives, and if that is the only state it can reach
outside itself; the latter as long as the addresses the block itself refers to
are not in it. -/
structure HasEffect (block : List Half) (targets : List Word)
    (effect : State → Word → Option State) : Prop where
  /-- The block reaches its effect. -/
  runs : ∀ s t, AtThumbBlock block s → effect s (blockEnd block s) = some t →
    RunsWithin s.pc (2 * block.length) s t
  /-- It reaches nothing else outside. -/
  left : ∀ s t, AtThumbBlock block s → (∀ a ∈ targets, ¬ InBlock s.pc (2 * block.length) a) →
    ¬ InBlock s.pc (2 * block.length) t.pc → RunsWithin s.pc (2 * block.length) s t →
    effect s (blockEnd block s) = some t

/-- **A block stands for instruction `x`** at a place where the program
counter reads as `pc`: entered with the flags `f`, and with what a literal
load reads as it was in `m₀`, it has the effect of the instruction. -/
def ThumbReproduces (m₀ : Mem) (block : List Half) (x : Insn) (pc : Word) (f : Flags) : Prop :=
  ∀ s, AtThumbBlock block s → s.flags = f → LiteralKept m₀ x.op pc s.mem →
    Reproduces x pc s.pc (2 * block.length) s

section Effects

variable {block : List Half} {targets : List Word} {effect : State → Word → Option State}
  {m₀ : Mem} {x : Insn} {pc : Word} {f : Flags}

/-- A block stands for an instruction of the same effect. -/
theorem HasEffect.reproduces (hb : HasEffect block targets effect)
    (h : ∀ s t next, s.thumb = true → s.flags = f → LiteralKept m₀ x.op pc s.mem →
      x.exec pc next s = some t → effect s next = some t) :
    ThumbReproduces m₀ block x pc f :=
  fun s hat hsf hk t ht => hb.runs s t hat (h s t _ hat.thumb hsf hk ht)

/-- The bytes of the literal an instruction reads. -/
def literalBytes (pc : Word) (op : Op) : List Word :=
  ((op.literalAddr pc).map wordBytes).getD []

theorem literalBytes_length_le (pc : Word) (op : Op) : (literalBytes pc op).length ≤ 4 := by
  unfold literalBytes
  cases op.literalAddr pc <;> simp [wordBytes]

theorem literalKept_of_bytes {m₀ m : Mem} {op : Op} {pc : Word}
    (h : ∀ a ∈ literalBytes pc op, m a = m₀ a) : LiteralKept m₀ op pc m := by
  intro a ha
  refine Mem.read32_congr (fun b hb => h b ?_)
  rw [literalBytes, ha]
  exact hb

/-- **An instruction that a block stands for has the effect of the block**, in
states with any registers and as long as what comes next is none of finitely
many addresses. -/
theorem ThumbReproduces.exists_effect (h : ThumbReproduces m₀ block x pc f)
    (hb : HasEffect block targets effect) (hlen : block.length ≤ 100) (g : Reg → Word)
    (others : List Word) (ht : targets.length < 2 ^ 16) (ho : others.length < 2 ^ 16) :
    ∃ s next, s.thumb = true ∧ s.flags = f ∧ s.gpr = g ∧ LiteralKept m₀ x.op pc s.mem
      ∧ next ∉ targets ∧ next.toNat % 2 = 0
      ∧ ∀ t, x.exec pc next s = some t → t.pc = next ∨ t.pc ∈ others →
        effect s next = some t := by
  have hlit := literalBytes_length_le pc x.op
  -- a place away from all of them, where it can be seen that a run leaves the block
  obtain ⟨base, hal, hav⟩ := exists_base (2 * block.length + 4) (by omega)
    (targets ++ others ++ literalBytes pc x.op)
    (by rw [List.length_append, List.length_append]; omega)
  let s : State := ⟨g, base, true, f, m₀.place 2 base block⟩
  have hat : AtThumbBlock block s := ⟨hal, rfl, halvesAt_place m₀ base block (by omega)⟩
  have hk : LiteralKept m₀ x.op pc s.mem := by
    refine literalKept_of_bytes (fun a ha => Mem.place_of_out (by omega) ?_)
    have := Nat.not_lt.mp (hav a (List.mem_append_right _ ha))
    omega
  have hend : InBlock base (2 * block.length + 4) (blockEnd block s) :=
    inBlock_offset (by omega) (by omega)
  have hout : ∀ a ∈ targets ++ others, ¬ InBlock base (2 * block.length) a :=
    fun a ha => not_inBlock_of_le (hav a (List.mem_append_left _ ha)) (by omega)
  refine ⟨s, blockEnd block s, rfl, rfl, rfl, hk, fun hn => ?_, ?_, fun t ht htpc => ?_⟩
  · exact hav _ (List.mem_append_left _ (List.mem_append_left _ hn)) hend
  · exact even_offset hal (by omega)
  · refine hb.left s t hat (fun a ha => hout a (List.mem_append_left _ ha)) ?_ (h s hat rfl hk t ht)
    rcases htpc with htpc | htpc
    · rw [htpc]
      exact not_inBlock_end base (2 * block.length) (by omega)
    · exact hout _ (List.mem_append_right _ htpc)

/-- What is outside a block is not its start. -/
theorem ne_start_of_out {s t : State} {len : ℕ} (hlen : 0 < len)
    (hout : ¬ InBlock s.pc len t.pc) : t ≠ s := by
  rintro rfl
  exact hout (inBlock_base hlen)

/-- Nor is it anywhere else in the block. -/
theorem pc_ne_offset_of_out {a b : Word} {len k : ℕ} (hk : k < len) (hlen : len < 2 ^ 32)
    (hout : ¬ InBlock a len b) : b ≠ a + BitVec.ofNat 32 k := by
  rintro rfl
  exact hout (inBlock_offset hk (by omega))

variable (v : Word)

/-- The jump block jumps to its literal. -/
theorem hasEffect_jump :
    HasEffect [0xF8DF#16, 0xF000#16, lowHalf v, highHalf v] (jumpTargets v)
      (fun s _ => s.bxWritePC v) where
  runs s t hat h :=
    (jumpThumb_iff hat.aligned hat.thumb rfl hat.code).mpr (Or.inr ⟨t, h, RunsWithin.refl t⟩)
  left s t hat hv hout h := by
    rcases (jumpThumb_iff hat.aligned hat.thumb rfl hat.code).mp h with h | ⟨u, hu, h⟩
    · exact absurd h (ne_start_of_out (Nat.succ_pos _) hout)
    · rw [RunsWithin.eq_of_jump hv hu h, hu]

/-- The link block also sets the link register to the end of the block. -/
theorem hasEffect_link :
    HasEffect [0xF20F#16, 0x0E09#16, 0xF8DF#16, 0xF000#16, lowHalf v, highHalf v] (jumpTargets v)
      (fun s next => (s.setReg LR (next ||| 1#32)).bxWritePC v) where
  runs s t hat h :=
    (linkThumb_iff hat.aligned hat.thumb rfl hat.code).mpr
      (Or.inr (Or.inr ⟨t, h, RunsWithin.refl t⟩))
  left s t hat hv hout h := by
    have hout' : ¬ InBlock s.pc 12 t.pc := hout
    rcases (linkThumb_iff hat.aligned hat.thumb rfl hat.code).mp h with h | h | ⟨u, hu, h⟩
    · exact absurd h (ne_start_of_out (Nat.succ_pos _) hout)
    · exact absurd (congrArg State.pc h)
        (pc_ne_offset_of_out (k := 4) (by omega) (by omega) hout')
    · rw [RunsWithin.eq_of_jump hv hu h]
      exact hu

/-- A guard with offset zero: it branches over the halfword behind it. -/
structure IsGuard (c : Half) (x : Insn) (taken : State → Bool) : Prop where
  /-- The guard is a 16-bit instruction. -/
  short : isThumb32 c = false
  /-- It decodes. -/
  decodes : decodeThumb16 c = some x
  /-- It branches to what the program counter reads as, or continues. -/
  exec : ∀ s pc next, s.thumb = true → pc.toNat % 2 = 0 →
    x.exec pc next s = some (s.goto (if taken s then pc else next))

/-- The guarded jump jumps if its guard is taken. -/
theorem hasEffect_guard {c : Half} {y : Insn} {taken : State → Bool} (hg : IsGuard c y taken) :
    HasEffect [c, 0xE003#16, 0xF8DF#16, 0xF000#16, lowHalf v, highHalf v] (jumpTargets v)
      (fun s next => if taken s then s.bxWritePC v else some (s.goto next)) where
  runs s t hat h := by
    have hex := hg.exec s (s.pc + 4#32) (s.pc + 2#32) hat.thumb
      (even_offset (k := 4) hat.aligned (by omega))
    cases htk : taken s with
    | true =>
      simp only [htk, if_true] at h hex
      exact (guardTaken_iff hat.aligned hat.thumb rfl hg.short hg.decodes hex hat.code).mpr
        (Or.inr (Or.inr ⟨t, h, RunsWithin.refl t⟩))
    | false =>
      simp only [htk, Bool.false_eq_true, if_false] at h hex
      exact (guardFailed_iff hat.aligned hat.thumb rfl hg.short hg.decodes hex hat.code).mpr
        (Or.inr (Or.inr (Option.some.inj h).symm))
  left s t hat hv hout h := by
    have hout' : ¬ InBlock s.pc 12 t.pc := hout
    have hex := hg.exec s (s.pc + 4#32) (s.pc + 2#32) hat.thumb
      (even_offset (k := 4) hat.aligned (by omega))
    cases htk : taken s with
    | true =>
      simp only [htk, if_true] at hex ⊢
      rcases (guardTaken_iff hat.aligned hat.thumb rfl hg.short hg.decodes hex hat.code).mp h
        with h | h | ⟨u, hu, h⟩
      · exact absurd h (ne_start_of_out (Nat.succ_pos _) hout)
      · exact absurd (congrArg State.pc h)
          (pc_ne_offset_of_out (k := 4) (by omega) (by omega) hout')
      · rw [RunsWithin.eq_of_jump hv hu h, hu]
    | false =>
      simp only [htk, Bool.false_eq_true, if_false] at hex ⊢
      rcases (guardFailed_iff hat.aligned hat.thumb rfl hg.short hg.decodes hex hat.code).mp h
        with h | h | h
      · exact absurd h (ne_start_of_out (Nat.succ_pos _) hout)
      · exact absurd (congrArg State.pc h)
          (pc_ne_offset_of_out (k := 2) (by omega) (by omega) hout')
      · rw [h]
        rfl

/-- The value block writes its value to a register. -/
theorem hasEffect_value {c : Half} {r : Reg} (hr : r ≠ PC) (hn : isThumb32 c = false)
    (hd : decodeThumb16 c = some ⟨always, .ldrLit true r 0#32⟩) :
    HasEffect [c, 0xE001#16, lowHalf v, highHalf v] []
      (fun s next => s.writeValue next r v) where
  runs s t hat h := by
    simp only [State.writeValue, if_neg hr] at h
    exact (valueThumb_iff hat.aligned hat.thumb rfl hr hn hd hat.code).mpr
      (Or.inr (Or.inr (Option.some.inj h).symm))
  left s t hat _ hout h := by
    have hout' : ¬ InBlock s.pc 8 t.pc := hout
    simp only [State.writeValue, if_neg hr]
    rcases (valueThumb_iff hat.aligned hat.thumb rfl hr hn hd hat.code).mp h with h | h | h
    · exact absurd h (ne_start_of_out (Nat.succ_pos _) hout)
    · exact absurd (congrArg State.pc h)
        (pc_ne_offset_of_out (k := 2) (by omega) (by omega) hout')
    · rw [h]
      rfl

end Effects

/-! ## ARM blocks -/

section Arm

variable {base : Word} {s t : State} {v : Word}

/-- A load at word `i` of the word behind it: `LDR reg, [PC, #-4]`. -/
theorem WordsAt.step_ldrBack {ws : List Word} {i : ℕ} {w : Word} {reg : Reg}
    (hc : WordsAt s.mem base ws) (hal : base.toNat % 4 = 0) (ht : s.thumb = false)
    (hpc : s.pc = base + BitVec.ofNat 32 (4 * i)) (h0 : ws[i]? = some w)
    (hd : decodeArm w = some ⟨always, .ldrLit false reg 4#32⟩) (h1 : ws[i + 1]? = some v) :
    Arm.step s = s.writeValue (base + BitVec.ofNat 32 (4 * i + 4)) reg v := by
  have hl : align4 (base + BitVec.ofNat 32 (4 * i + 8)) - 4#32
      = base + BitVec.ofNat 32 (4 * (i + 1)) := by
    rw [align4_of_aligned (aligned_offset hal (by omega)),
      show 4 * i + 8 = 4 * (i + 1) + 4 from by omega, BitVec.ofNat_add, ← BitVec.add_assoc]
    exact BitVec.add_sub_cancel _ _
  rw [hc.step ht hpc h0 hd, Insn.exec_always]
  show s.writeLoaded _ reg (align4 _ - 4#32) (s.mem.read32 (align4 _ - 4#32)) = _
  rw [hl, hc _ _ h1, State.writeLoaded,
    if_pos (align4_of_aligned (aligned_offset hal (by omega)))]
  rfl

/-- `LDR PC, [PC, #-4]` at word `i`, its literal behind it. -/
theorem WordsAt.step_ldrPc {ws : List Word} {i : ℕ} (hc : WordsAt s.mem base ws)
    (hal : base.toNat % 4 = 0) (ht : s.thumb = false)
    (hpc : s.pc = base + BitVec.ofNat 32 (4 * i)) (h0 : ws[i]? = some 0xE51FF004#32)
    (h1 : ws[i + 1]? = some v) : Arm.step s = s.bxWritePC v :=
  @step_ldrBack _ _ _ _ _ _ PC hc hal ht hpc h0 (by decide) h1

/-- **The jump block**: `LDR PC, [PC, #-4]` and its literal. -/
theorem jumpArm_iff (hal : base.toNat % 4 = 0) (ht : s.thumb = false) (hpc : s.pc = base)
    (hc : WordsAt s.mem base [0xE51FF004#32, v]) :
    RunsWithin base 8 s t
      ↔ t = s ∨ ∃ u, s.bxWritePC v = some u ∧ RunsWithin base 8 u t := by
  have hst : Arm.step s = s.bxWritePC v :=
    hc.step_ldrPc (i := 0) hal ht (by rw [hpc]; exact (BitVec.add_zero base).symm) rfl rfl
  have hb : InBlock base 8 s.pc := by rw [hpc]; exact inBlock_base (by omega)
  rw [runsWithin_iff, hst]
  exact or_congr Iff.rfl ⟨fun ⟨u, _, hu⟩ => ⟨u, hu⟩, fun ⟨u, hu⟩ => ⟨u, hb, hu⟩⟩

/-- **The link block**: `ADD LR, PC, #4`, `LDR PC, [PC, #-4]` and its
literal. The link register is the end of the block. -/
theorem linkArm_iff (hal : base.toNat % 4 = 0) (ht : s.thumb = false) (hpc : s.pc = base)
    (hc : WordsAt s.mem base [0xE28FE004#32, 0xE51FF004#32, v]) :
    RunsWithin base 12 s t
      ↔ t = s ∨ t = (s.setReg LR (base + 12#32)).goto (base + 4#32)
        ∨ ∃ u, (s.setReg LR (base + 12#32)).bxWritePC v = some u ∧ RunsWithin base 12 u t := by
  have hlr : align4 (base + 8#32) + 4#32 = base + 12#32 := by
    rw [align4_of_aligned (aligned_offset (k := 8) hal (by omega)), BitVec.add_assoc]
    rfl
  set s₁ := (s.setReg LR (base + 12#32)).goto (base + 4#32) with hs₁
  have hst : Arm.step s = some s₁ := by
    rw [hc.step (i := 0) ht (by rw [hpc]; exact (BitVec.add_zero base).symm) rfl
      (x := ⟨always, .adr true LR 4#32⟩) (by decide), Insn.exec_always]
    show s.writeResult (base + 4#32) LR (align4 (base + 8#32) + 4#32) = _
    rw [hlr]
    rfl
  have hst₁ : Arm.step s₁ = (s.setReg LR (base + 12#32)).bxWritePC v :=
    WordsAt.step_ldrPc (s := s₁) (i := 1) hc hal ht rfl rfl rfl
  have hb : InBlock base 12 s.pc := by rw [hpc]; exact inBlock_base (by omega)
  have hb₁ : InBlock base 12 s₁.pc := inBlock_offset (k := 4) (by omega) (by omega)
  exact runsWithin_iff_of_steps hb hst hb₁ hst₁

section Value

variable {w : Word} {r : Reg}

/-- The load of a value block. -/
theorem step_ldrValue (hal : base.toNat % 4 = 0) (ht : s.thumb = false) (hpc : s.pc = base)
    (hd : decodeArm w = some ⟨always, .ldrLit false r 0#32⟩)
    (hc : WordsAt s.mem base [w, 0xE28FF000#32, v]) :
    Arm.step s = s.writeLoaded (base + 4#32) r (base + 8#32) v := by
  have hl : align4 (base + 8#32) - 0#32 = base + BitVec.ofNat 32 (4 * 2) := by
    rw [align4_of_aligned (aligned_offset (k := 8) hal (by omega)), BitVec.sub_zero]
  rw [hc.step (i := 0) ht (by rw [hpc]; exact (BitVec.add_zero base).symm) rfl hd,
    Insn.exec_always]
  show s.writeLoaded (base + 4#32) r (align4 (base + 8#32) - 0#32)
    (s.mem.read32 (align4 (base + 8#32) - 0#32)) = _
  rw [hl, hc 2 v rfl]

/-- **The value block**: `LDR Rr, [PC]`, `ADD PC, PC, #0` over the literal. -/
theorem valueArm_iff (hal : base.toNat % 4 = 0) (ht : s.thumb = false) (hpc : s.pc = base)
    (hr : r ≠ PC) (hd : decodeArm w = some ⟨always, .ldrLit false r 0#32⟩)
    (hc : WordsAt s.mem base [w, 0xE28FF000#32, v]) :
    RunsWithin base 12 s t
      ↔ t = s ∨ t = (s.setReg r v).goto (base + 4#32)
        ∨ t = (s.setReg r v).goto (base + 12#32) := by
  set s₁ := (s.setReg r v).goto (base + 4#32) with hs₁
  have hst : Arm.step s = some s₁ := by
    rw [step_ldrValue hal ht hpc hd hc, State.writeLoaded, if_neg hr]
  have hst₁ : Arm.step s₁ = some ((s.setReg r v).goto (base + 12#32)) := by
    have h12 : (base + 12#32).toNat % 4 = 0 := aligned_offset (k := 12) hal (by omega)
    have ha : align4 (base + 12#32) + 0#32 = base + 12#32 := by
      rw [align4_of_aligned h12, BitVec.add_zero]
    rw [WordsAt.step (s := s₁) (i := 1) hc ht rfl rfl (x := ⟨always, .adr true PC 0#32⟩)
      (by decide), Insn.exec_always]
    show s₁.writeResult (base + 8#32) PC (align4 (base + 12#32) + 0#32) = _
    rw [ha, State.writeResult, if_pos rfl, State.aluWritePC,
      if_neg (by rw [show s₁.thumb = false from ht]; exact Bool.false_ne_true),
      State.bxWritePC_arm _ h12]
    exact congrArg some (by rw [show false = s₁.thumb from ht.symm]; rfl)
  have hb : InBlock base 12 s.pc := by rw [hpc]; exact inBlock_base (by omega)
  have hb₁ : InBlock base 12 s₁.pc := inBlock_offset (k := 4) (by omega) (by omega)
  have hout : ¬ InBlock base 12 (base + 12#32) := not_inBlock_end _ _ (by omega)
  exact runsWithin_iff_of_leaves hb hst hb₁ hst₁ hout

/-- A value block whose register is the program counter jumps to the
value. -/
theorem valueArmPc_iff (hal : base.toNat % 4 = 0) (ht : s.thumb = false) (hpc : s.pc = base)
    (hd : decodeArm w = some ⟨always, .ldrLit false PC 0#32⟩)
    (hc : WordsAt s.mem base [w, 0xE28FF000#32, v]) :
    RunsWithin base 12 s t
      ↔ t = s ∨ ∃ u, s.bxWritePC v = some u ∧ RunsWithin base 12 u t := by
  have hst : Arm.step s = s.bxWritePC v := by
    rw [step_ldrValue hal ht hpc hd hc, State.writeLoaded, if_pos rfl,
      if_pos (align4_of_aligned (aligned_offset (k := 8) hal (by omega)))]
  have hb : InBlock base 12 s.pc := by rw [hpc]; exact inBlock_base (by omega)
  rw [runsWithin_iff, hst]
  exact or_congr Iff.rfl ⟨fun ⟨u, _, hu⟩ => ⟨u, hu⟩, fun ⟨u, hu⟩ => ⟨u, hb, hu⟩⟩

/-- **A value block writes its value.** -/
theorem valueArm_runs (hal : base.toNat % 4 = 0) (ht : s.thumb = false) (hpc : s.pc = base)
    (hd : decodeArm w = some ⟨always, .ldrLit false r 0#32⟩)
    (hc : WordsAt s.mem base [w, 0xE28FF000#32, v])
    (h : s.writeValue (base + 12#32) r v = some t) : RunsWithin base 12 s t := by
  unfold State.writeValue at h
  by_cases hr : r = PC
  · rw [if_pos hr] at h
    rw [hr] at hd
    exact (valueArmPc_iff hal ht hpc hd hc).mpr (Or.inr ⟨t, h, RunsWithin.refl t⟩)
  · rw [if_neg hr] at h
    exact (valueArm_iff hal ht hpc hr hd hc).mpr (Or.inr (Or.inr (Option.some.inj h).symm))

/-- A run that has left the value block has written its value. -/
theorem valueArm_left (hal : base.toNat % 4 = 0) (ht : s.thumb = false) (hpc : s.pc = base)
    (hd : decodeArm w = some ⟨always, .ldrLit false r 0#32⟩)
    (hc : WordsAt s.mem base [w, 0xE28FF000#32, v])
    (hv : ∀ a ∈ jumpTargets v, ¬ InBlock base 12 a) (hout : ¬ InBlock base 12 t.pc)
    (h : RunsWithin base 12 s t) : s.writeValue (base + 12#32) r v = some t := by
  have hs : t ≠ s := by
    rintro rfl
    exact hout (by rw [hpc]; exact inBlock_base (by omega))
  unfold State.writeValue
  by_cases hr : r = PC
  · rw [hr] at hd
    rw [if_pos hr]
    rcases (valueArmPc_iff hal ht hpc hd hc).mp h with h | ⟨u, hu, h⟩
    · exact absurd h hs
    · rw [RunsWithin.eq_of_jump hv hu h, hu]
  · rw [if_neg hr]
    rcases (valueArm_iff hal ht hpc hr hd hc).mp h with h | h | h
    · exact absurd h hs
    · exact absurd (by rw [h]; exact inBlock_offset (k := 4) (by omega) (by omega)) hout
    · rw [h]

end Value

end Arm

end Arm
