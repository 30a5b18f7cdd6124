import AndroidReverse.HookZzCode
import AndroidReverse.RelocateArm

/-!
# Relocated ARM branches

The blocks `zz_arm_relocator_write_one` writes for `B`, `BL` and `BLX`, run in
every state and compared with the branch where it stood.

A `B` keeps its condition: the guard in front skips the branch over the jump,
and the jump is right if the displacement is not negative, since it is not
sign-extended. A `BL` keeps it as well, but the branch behind its guard is too
short: it ends on the branch over the return address and from there on the
jump, so a call that is not made is made without a link. A `BLX` loads its
target without the bit that enters Thumb state. `armBranch_relocated_iff` says
when the block is right.
-/

namespace HookZz

open Arm Relocate Relocator

/-! ## The instructions -/

/-- **The ARM branches, by the answers of the classifier.** -/
inductive IsArmBranch (w : Word) : ARMInsnType → Insn → Prop where
  | b (h : w &&& 0x0F000000#32 = 0x0A000000#32) (hc : armReg w 28 ≠ 0b1111#4) :
      IsArmBranch w .bA1 ⟨armReg w 28, .b (armBranchOffset w)⟩
  | bl (hc : armReg w 28 ≠ 0b1111#4) :
      IsArmBranch w .blblxImmediateA1 ⟨armReg w 28, .bl (armBranchOffset w)⟩
  | blx : IsArmBranch w .blblxImmediateA2 ⟨always, .blx (armBlxOffset w)⟩

/-- The condition field as the classifier reads it. -/
theorem armCond_ne_iff (w : Word) : getInsnSub w 28 4 ≠ 0xF#32 ↔ armReg w 28 ≠ 0b1111#4 := by
  rw [getInsnSub_eq _ _ (by decide), armReg]
  generalize w.extractLsb' 28 4 = c
  revert c
  decide

/-- **A branch that decodes is one of these.** -/
theorem isArmBranch_of_decode {w : Word} {x : Insn} (hx : decodeArm w = some x)
    (hb : isBranch x.op = true) : IsArmBranch w (getARMInsnType w) x := by
  obtain ⟨r, hr, hm, he, rfl⟩ := exists_row hx
  simp only [armRows, armRow, List.mem_cons, List.not_mem_nil, or_false] at hr
  rcases hr with rfl | rfl | rfl | rfl | rfl | rfl | rfl | rfl | rfl | rfl | rfl | rfl | rfl
  case inl =>
    have hm : w &&& 0xFE000000#32 = 0xFA000000#32 := hm
    have hc : ¬ getInsnSub w 28 4 ≠ 0xF#32 := by
      rw [armCond_ne_iff]
      exact not_not.mpr (mask_extract hm 28 4 (by decide))
    rw [getARMInsnType_eq]
    simp only [hc, and_false, if_false, hm, if_true]
    exact IsArmBranch.blx
  case inr.inl =>
    have hm : w &&& 0x0F000000#32 = 0x0B000000#32 := hm
    have hc : armReg w 28 ≠ 0b1111#4 := by simpa using he
    rw [getARMInsnType_eq]
    iterate 5 rw [if_neg (fun h => mask_conflict hm (by decide) h.1)]
    rw [if_pos ⟨hm, (armCond_ne_iff w).mpr hc⟩]
    exact IsArmBranch.bl hc
  case inr.inr.inl =>
    have hm : w &&& 0x0F000000#32 = 0x0A000000#32 := hm
    have hc : armReg w 28 ≠ 0b1111#4 := by simpa using he
    rw [getARMInsnType_eq]
    iterate 4 rw [if_neg (fun h => mask_conflict hm (by decide) h.1)]
    rw [if_pos ⟨hm, (armCond_ne_iff w).mpr hc⟩]
    exact IsArmBranch.b hm hc
  all_goals cases hb

/-! ## The blocks -/

/-- The guard of a block: a branch over the next word. -/
def armGuard (c : BitVec 4) : Word := (c.setWidth 32 <<< 28) ||| 0x0A000000#32

theorem decodeArm_guard : ∀ c : BitVec 4, c ≠ 0b1111#4 →
    decodeArm (armGuard c) = some ⟨c, .b (BitVec.ofNat 32 0)⟩ := by
  decide

/-- The words of a `B`. -/
def bWords (c : BitVec 4) (v : Word) : List Word :=
  [armGuard c, 0xEA000001#32, 0xE51FF004#32, v]

/-- The words of a `BL`. -/
def blWords (c : BitVec 4) (lr v : Word) : List Word :=
  [armGuard c, 0xEA000000#32, 0xE59FE000#32, 0xEA000000#32, lr, 0xE51FF004#32, v]

/-- The words of a `BLX`. -/
def blxWords (lr v : Word) : List Word := [0xE59FE000#32, 0xEA000000#32, lr, 0xE51FF004#32, v]

/-- The target a rewriter computes. -/
def armTarget (pc w : Word) : Word := pc + (getInsnSub w 0 24 <<< 2)

/-- The target the rewriter of `BLX` computes. -/
def armBlxTarget (pc w : Word) : Word :=
  pc + ((getInsnSub w 0 24 <<< 2) ||| (getInsnSub w 24 1 <<< 1))

section Words

variable {c : ARMInstruction} {x : Insn}

theorem itemHalves_b (ht : getARMInsnType c.insn = .bA1)
    (hm : c.insn &&& 0x0F000000#32 = 0x0A000000#32) :
    itemHalves (armItems c)
      = (bWords (armReg c.insn 28) (armTarget c.pc c.insn)).flatMap addressBytes := by
  have hg : (c.insn &&& 0xFF000000#32) ||| 0#32 = armGuard (armReg c.insn 28) := by
    rw [BitVec.or_zero]
    exact mask_union (mask_of_extract 28 4 rfl) hm
  unfold armItems
  simp only [ht, hg]
  rfl

theorem itemHalves_bl (ht : getARMInsnType c.insn = .blblxImmediateA1) :
    itemHalves (armItems c)
      = (blWords (armReg c.insn 28) (c.pc - 4#32)
          (armTarget (align4 c.pc) c.insn)).flatMap addressBytes := by
  have hg : (c.insn &&& 0xF0000000#32) ||| (0b1010#32 <<< 24) ||| 0#32
      = armGuard (armReg c.insn 28) := by
    rw [BitVec.or_zero]
    exact congrArg (· ||| (0b1010#32 <<< 24)) (mask_of_extract 28 4 rfl)
  unfold armItems
  simp only [ht, hg]
  rfl

theorem itemHalves_blx (ht : getARMInsnType c.insn = .blblxImmediateA2) :
    itemHalves (armItems c)
      = (blxWords (c.pc - 4#32) (armBlxTarget c.pc c.insn)).flatMap addressBytes := by
  unfold armItems
  simp only [ht]
  rfl

end Words

/-! ## The targets -/

section Targets

variable (w : Word)

/-- An immediate that is not sign-extended is the displacement if that is not
negative. -/
theorem setWidth_eq_signExtend_iff (f : BitVec 26) :
    f.setWidth 32 = f.signExtend 32 ↔ 0 ≤ (f.signExtend 32).toInt := by
  rw [BitVec.toInt_signExtend_of_le (by decide)]
  constructor
  · intro h
    have hmsb := congrArg BitVec.msb h
    rw [BitVec.msb_signExtend, BitVec.msb_setWidth, BitVec.getLsbD_of_ge f _ (by decide)] at hmsb
    exact BitVec.toInt_nonneg_of_msb_false (by simpa using hmsb.symm)
  · intro h
    refine (BitVec.signExtend_eq_setWidth_of_msb_false ?_).symm
    rw [BitVec.msb_eq_toInt]
    exact decide_eq_false (not_lt.mpr h)

theorem armImm_eq :
    getInsnSub w 0 24 <<< 2 = (w.extractLsb' 0 24 ++ 0b00#2).setWidth 32 := by
  rw [getInsnSub_eq _ _ (by decide)]
  refine BitVec.eq_of_getLsbD_eq (fun i hi => ?_)
  simp only [BitVec.getLsbD_shiftLeft, BitVec.getLsbD_setWidth, BitVec.getLsbD_append,
    BitVec.getLsbD_extractLsb']
  interval_cases i <;> simp

theorem armTarget_eq_iff (pc : Word) :
    armTarget pc w = pc + armBranchOffset w ↔ 0 ≤ (armBranchOffset w).toInt := by
  rw [armTarget, BitVec.add_right_inj, armImm_eq]
  exact setWidth_eq_signExtend_iff _

variable {pc : Word} (hpc : pc.toNat % 4 = 0)
include hpc

theorem armTarget_aligned : (armTarget pc w).toNat % 4 = 0 := by
  have h : (getInsnSub w 0 24 <<< 2).toNat % 4 = 0 := by
    rw [BitVec.toNat_shiftLeft, Nat.shiftLeft_eq]
    omega
  rw [armTarget, BitVec.toNat_add]
  omega

theorem armBlxTarget_even : (armBlxTarget pc w).getLsbD 0 = false := by
  have h0 : pc.getLsbD 0 = false := by
    rw [getLsbD_eq_decide]
    exact decide_eq_false (by omega)
  have h : ((getInsnSub w 0 24 <<< 2) ||| (getInsnSub w 24 1 <<< 1)).getLsbD 0 = false := by
    rw [BitVec.getLsbD_or, BitVec.getLsbD_shiftLeft, BitVec.getLsbD_shiftLeft]
    rfl
  rw [getLsbD_eq_decide] at h0 h ⊢
  have h0' := of_decide_eq_false h0
  have h' := of_decide_eq_false h
  rw [armBlxTarget, BitVec.toNat_add]
  exact decide_eq_false (by omega)

end Targets

/-! ## The runs -/

/-- **A block that jumps**: from its start it reaches a state in the block
whose step is a jump to `v`. -/
structure JumpsFrom (block : List Half) (s u : State) (v : Word) : Prop where
  /-- The jump is reached. -/
  reaches : RunsWithin s.pc (2 * block.length) s u
  /-- It is in the block. -/
  inside : InBlock s.pc (2 * block.length) u.pc
  /-- It is a jump. -/
  jumps : step u = u.bxWritePC v

theorem JumpsFrom.runs {block : List Half} {s t u : State} {v : Word} (h : JumpsFrom block s u v)
    (ht : u.bxWritePC v = some t) : RunsWithin s.pc (2 * block.length) s t :=
  h.reaches.trans (RunsWithin.head h.inside (h.jumps.trans ht) (RunsWithin.refl t))

section Runs

variable {s : State} {c : BitVec 4} {lr v : Word}

theorem AtBlock.words {ws : List Word} (hat : AtBlock false 0 (ws.flatMap addressBytes) s) :
    WordsAt s.mem s.pc ws :=
  wordsAt_of_halves hat.code

/-- The guard of a block. -/
theorem step_guard {ws : List Word}
    (hat : AtBlock false 0 ((armGuard c :: ws).flatMap addressBytes) s)
    (hc : c ≠ 0b1111#4) :
    step s = some (s.goto (s.pc + BitVec.ofNat 32
      (if conditionPassed c s.flags then 8 else 4))) := by
  have h := step_branchWord (i := 0) hat.words hat.phase hat.state (BitVec.add_zero _).symm
    (by decide) rfl (decodeArm_guard c hc)
  rw [h, Nat.mul_zero, Nat.zero_add]

theorem bWords_jumps (hat : AtBlock false 0 ((bWords c v).flatMap addressBytes) s)
    (hc : c ≠ 0b1111#4) (hp : conditionPassed c s.flags = true) :
    JumpsFrom ((bWords c v).flatMap addressBytes) s (s.goto (s.pc + 8#32)) v := by
  have h := step_guard hat hc
  rw [if_pos hp] at h
  exact ⟨RunsWithin.head (inBlock_base (Nat.succ_pos _)) h (RunsWithin.refl _),
    inBlock_offset (k := 8) (by decide : 8 < 16) (by decide),
    WordsAt.step_ldrPc (s := s.goto _) (i := 2) hat.words hat.phase hat.state rfl rfl rfl⟩

theorem bWords_falls (hat : AtBlock false 0 ((bWords c v).flatMap addressBytes) s)
    (hc : c ≠ 0b1111#4) (hp : conditionPassed c s.flags = false) :
    RunsWithin s.pc 16 s (s.goto (s.pc + 16#32)) := by
  have h := step_guard hat hc
  rw [if_neg (by rw [hp]; exact Bool.false_ne_true)] at h
  have h' : step (s.goto (s.pc + 4#32)) = some (s.goto (s.pc + 16#32)) :=
    @step_skipWord (s.goto (s.pc + 4#32)) s.pc _ 1 _ hat.words hat.phase hat.state rfl 4 rfl rfl
      (by decide)
  exact RunsWithin.head (inBlock_base (by decide)) h (RunsWithin.head
    (inBlock_offset (k := 4) (by decide) (by decide)) h' (RunsWithin.refl _))

theorem blWords_jumps (hat : AtBlock false 0 ((blWords c lr v).flatMap addressBytes) s)
    (hc : c ≠ 0b1111#4) (hp : conditionPassed c s.flags = true) :
    JumpsFrom ((blWords c lr v).flatMap addressBytes) s
      ((s.setReg LR lr).goto (s.pc + 20#32)) v := by
  have h := step_guard hat hc
  rw [if_pos hp] at h
  have h' : RunsWithin s.pc 28 (s.goto (s.pc + 8#32)) ((s.setReg LR lr).goto (s.pc + 20#32)) :=
    @run_loadWord (s.goto (s.pc + 8#32)) s.pc _ 2 _ 28 hat.words hat.phase hat.state rfl LR
      (by decide) rfl rfl rfl (by decide) (by decide)
  exact ⟨RunsWithin.head (inBlock_base (Nat.succ_pos _)) h h',
    inBlock_offset (k := 20) (by decide : 20 < 28) (by decide),
    WordsAt.step_ldrPc (s := (s.setReg LR lr).goto _) (i := 5) hat.words hat.phase hat.state rfl
      rfl rfl⟩

/-- A call that is not made still jumps. -/
theorem blWords_jumps_failed (hat : AtBlock false 0 ((blWords c lr v).flatMap addressBytes) s)
    (hc : c ≠ 0b1111#4) (hp : conditionPassed c s.flags = false) :
    JumpsFrom ((blWords c lr v).flatMap addressBytes) s (s.goto (s.pc + 20#32)) v := by
  have h := step_guard hat hc
  rw [if_neg (by rw [hp]; exact Bool.false_ne_true)] at h
  have h4 : step (s.goto (s.pc + 4#32)) = some (s.goto (s.pc + 12#32)) :=
    @step_skipWord (s.goto (s.pc + 4#32)) s.pc _ 1 _ hat.words hat.phase hat.state rfl 0 rfl rfl
      (by decide)
  have h12 : step (s.goto (s.pc + 12#32)) = some (s.goto (s.pc + 20#32)) :=
    @step_skipWord (s.goto (s.pc + 12#32)) s.pc _ 3 _ hat.words hat.phase hat.state rfl 0 rfl rfl
      (by decide)
  have hin : ∀ k, k < 28 → InBlock s.pc 28 (s.pc + BitVec.ofNat 32 k) :=
    fun k hk => inBlock_offset hk (by omega)
  exact ⟨RunsWithin.head (inBlock_base (Nat.succ_pos _)) h (RunsWithin.head (hin 4 (by decide)) h4
      (RunsWithin.head (hin 12 (by decide)) h12 (RunsWithin.refl _))), hin 20 (by decide),
    WordsAt.step_ldrPc (s := s.goto _) (i := 5) hat.words hat.phase hat.state rfl rfl rfl⟩

theorem blxWords_jumps (hat : AtBlock false 0 ((blxWords lr v).flatMap addressBytes) s) :
    JumpsFrom ((blxWords lr v).flatMap addressBytes) s
      ((s.setReg LR lr).goto (s.pc + 12#32)) v :=
  ⟨@run_loadWord _ _ _ 0 _ 20 hat.words hat.phase hat.state
      (BitVec.add_zero _).symm LR (by decide) rfl rfl rfl (by decide) (by decide),
    inBlock_offset (k := 12) (by decide : 12 < 20) (by decide),
    WordsAt.step_ldrPc (s := (s.setReg LR lr).goto _) (i := 3) hat.words hat.phase hat.state rfl
      rfl rfl⟩

end Runs

/-! ## Comparison -/

/-- **What a branch does at its place**: the branch itself if its condition
passes, and what comes next – here the end of the block – if it fails. -/
def armBranchEffect (x : Insn) (addr next : Word) (s : State) : Option State :=
  if conditionPassed x.cond s.flags then x.op.exec (addr + 8#32) (addr + 4#32) s
  else some (s.goto next)

/-- **A block stands for a branch** that was at an address, for some flags:
wherever it is and whatever the registers hold. -/
def ArmBranchRelocated (block : List Half) (x : Insn) (addr : Word) (f : Flags) : Prop :=
  ∀ s t, AtBlock false 0 block s → s.flags = f →
    armBranchEffect x addr (blockEnd block s) s = some t →
    RunsWithin s.pc (2 * block.length) s t

/-- **A block that only jumps** stands for a branch only if its jump is the
branch, at a place where it can be told from the block. -/
theorem ArmBranchRelocated.exists_jump {block : List Half} {x : Insn} {addr v a : Word} {f : Flags}
    {u : State → State} (h : ArmBranchRelocated block x addr f) (hlen : block.length ≤ 100)
    (hj : ∀ s, AtBlock false 0 block s → s.flags = f → JumpsFrom block s (u s) v)
    (he : ∀ s next, s.thumb = false → s.flags = f →
      ∃ t, armBranchEffect x addr next s = some t ∧ (t.pc = next ∨ t.pc = a)) :
    ∃ s next t, s.thumb = false ∧ s.flags = f ∧ next ∉ jumpTargets v
      ∧ armBranchEffect x addr next s = some t ∧ (u s).bxWritePC v = some t := by
  obtain ⟨base, hat, hav⟩ :=
    exists_atBlock false (Or.inl rfl) block hlen (fun _ => 0) (fun _ => 0) f
    (a :: jumpTargets v) (by rw [List.length_cons, jumpTargets_length]; decide)
  set s : State := ⟨fun _ => 0, base, false, f, Mem.place (fun _ => 0) 2 base block⟩
  obtain ⟨t, ht, htpc⟩ := he s (blockEnd block s) rfl rfl
  have hv : ∀ b ∈ jumpTargets v, ¬ InBlock base (2 * block.length) b :=
    fun b hb => not_inBlock_of_le (hav b (List.mem_cons_of_mem a hb)) (by omega)
  have hout : ¬ InBlock base (2 * block.length) t.pc := by
    rcases htpc with htpc | htpc
    · rw [htpc]
      exact not_inBlock_end base _ (by omega)
    · rw [htpc]
      exact not_inBlock_of_le (hav a List.mem_cons_self) (by omega)
  have hjump := hj _ hat rfl
  refine ⟨s, blockEnd block s, t, rfl, rfl, fun hn => hav _ (List.mem_cons_of_mem a hn) ?_, ht,
    (hjump.reaches.left_iff_jump hjump.inside hjump.jumps hv hout).mp (h s t hat rfl ht)⟩
  exact inBlock_offset (by omega) (by omega)

section Compare

variable {addr w v : Word} {c : BitVec 4} {f : Flags}

theorem armPc_sub_four (addr : Word) : addr + 8#32 - 4#32 = addr + 4#32 := by
  rw [show 8#32 = 4#32 + 4#32 from rfl, ← BitVec.add_assoc, BitVec.add_sub_cancel]

theorem armBranchOffset_aligned (haddr : addr.toNat % 4 = 0) :
    (addr + 8#32 + armBranchOffset w).toNat % 4 = 0 := by
  have h := toNat_mod_four (armBranchOffset_low w).1 (armBranchOffset_low w).2
  have h8 : (addr + 8#32).toNat % 4 = 0 := aligned_offset (k := 8) haddr (by decide)
  rw [BitVec.toNat_add]
  omega

/-- A relocated `B` is right if it is not taken, or not backward. -/
theorem bWords_iff (haddr : addr.toNat % 4 = 0) (hc : c ≠ 0b1111#4) :
    ArmBranchRelocated ((bWords c (armTarget (addr + 8#32) w)).flatMap addressBytes)
        ⟨c, .b (armBranchOffset w)⟩ addr f
      ↔ (conditionPassed c f = true → 0 ≤ (armBranchOffset w).toInt) := by
  have h8 : (addr + 8#32).toNat % 4 = 0 := aligned_offset (k := 8) haddr (by decide)
  have hal := armTarget_aligned w h8
  have hoff := armBranchOffset_aligned (w := w) haddr
  rw [← armTarget_eq_iff w (addr + 8#32)]
  constructor
  · intro h hp
    obtain ⟨s, next, t, hs, hf, -, ht, hu⟩ := h.exists_jump (a := addr + 8#32 + armBranchOffset w)
      (u := fun s => s.goto (s.pc + 8#32)) (show 8 ≤ 100 by decide)
      (fun s hat hf => bWords_jumps hat hc (by rw [hf]; exact hp))
      (fun s next hs hf => ⟨_, if_pos (by rw [hf]; exact hp), Or.inr (by
        rw [State.branchWritePC_arm hs hoff]
        rfl)⟩)
    rw [State.bxWritePC_arm _ hal] at hu
    rw [armBranchEffect, if_pos (by rw [hf]; exact hp)] at ht
    have hpc := congrArg State.pc (Option.some.inj (hu.trans ht.symm))
    rw [State.branchWritePC_arm hs hoff] at hpc
    exact hpc
  · intro h s t hat hf ht
    unfold armBranchEffect at ht
    by_cases hp : conditionPassed c s.flags = true
    · rw [if_pos hp] at ht
      refine (bWords_jumps hat hc hp).runs ?_
      rw [bxWritePC_eq_branchWritePC (s := s.goto (s.pc + 8#32)) hat.state hal,
        h (by rw [← hf]; exact hp)]
      exact ht
    · rw [if_neg hp] at ht
      rw [← Option.some.inj ht]
      exact bWords_falls hat hc (Bool.eq_false_iff.mpr hp)

/-- A relocated `BL` is right if it is taken, and not backward. -/
theorem blWords_iff (haddr : addr.toNat % 4 = 0) (hc : c ≠ 0b1111#4) :
    ArmBranchRelocated ((blWords c (addr + 8#32 - 4#32)
          (armTarget (addr + 8#32) w)).flatMap addressBytes)
        ⟨c, .bl (armBranchOffset w)⟩ addr f
      ↔ conditionPassed c f = true ∧ 0 ≤ (armBranchOffset w).toInt := by
  have h8 : (addr + 8#32).toNat % 4 = 0 := aligned_offset (k := 8) haddr (by decide)
  have hal := armTarget_aligned w h8
  have hoff := armBranchOffset_aligned (w := w) haddr
  rw [← armTarget_eq_iff w (addr + 8#32), armPc_sub_four]
  constructor
  · intro h
    by_cases hp : conditionPassed c f = true
    · refine ⟨hp, ?_⟩
      obtain ⟨s, next, t, hs, hf, -, ht, hu⟩ := h.exists_jump
        (a := addr + 8#32 + armBranchOffset w)
        (u := fun s => (s.setReg LR (addr + 4#32)).goto (s.pc + 20#32)) (show 14 ≤ 100 by decide)
        (fun s hat hf => blWords_jumps hat hc (by rw [hf]; exact hp))
        (fun s next hs hf => ⟨_, if_pos (by rw [hf]; exact hp), Or.inr (by
          rw [State.branchWritePC_arm (s := s.setReg LR _) hs hoff]
          rfl)⟩)
      rw [State.bxWritePC_arm _ hal] at hu
      rw [armBranchEffect, if_pos (by rw [hf]; exact hp)] at ht
      have hpc := congrArg State.pc (Option.some.inj (hu.trans ht.symm))
      rw [State.branchWritePC_arm (s := s.setReg LR _) hs hoff] at hpc
      exact hpc
    · obtain ⟨s, next, t, hs, hf, hn, ht, hu⟩ := h.exists_jump (a := addr)
        (u := fun s => s.goto (s.pc + 20#32)) (show 14 ≤ 100 by decide)
        (fun s hat hf => blWords_jumps_failed hat hc (by rw [hf]; exact Bool.eq_false_iff.mpr hp))
        (fun s next hs hf => ⟨_, if_neg (by rw [hf]; exact hp), Or.inl rfl⟩)
      rw [armBranchEffect, if_neg (by rw [hf]; exact hp)] at ht
      refine absurd (pc_mem_jumpTargets hu) ?_
      rw [← Option.some.inj ht]
      exact hn
  · rintro ⟨hp, h⟩ s t hat hf ht
    have hp' : conditionPassed c s.flags = true := by
      rw [hf]
      exact hp
    rw [armBranchEffect, if_pos hp'] at ht
    refine (blWords_jumps hat hc hp').runs ?_
    rw [bxWritePC_eq_branchWritePC (s := (s.setReg LR (addr + 4#32)).goto (s.pc + 20#32)) hat.state
      hal, h, ← ht]
    show _ = some ((s.setReg LR (s.link (addr + 4#32))).branchWritePC _)
    rw [State.link, if_neg (by rw [hat.state]; exact Bool.false_ne_true)]
    rfl

/-- A relocated `BLX` never is: it does not enter Thumb state. -/
theorem not_blxWords (haddr : addr.toNat % 4 = 0) (lr off : Word) :
    ¬ ArmBranchRelocated ((blxWords lr (armBlxTarget (addr + 8#32) w)).flatMap addressBytes)
        ⟨always, .blx off⟩ addr f := by
  have h8 : (addr + 8#32).toNat % 4 = 0 := aligned_offset (k := 8) haddr (by decide)
  intro h
  obtain ⟨s, next, t, hs, hf, -, ht, hu⟩ := h.exists_jump
    (a := (addr + 8#32 + off) &&& 0xFFFFFFFE#32)
    (u := fun s => (s.setReg LR lr).goto (s.pc + 12#32)) (show 10 ≤ 100 by decide)
    (fun s hat _ => blxWords_jumps hat) (fun s next hs _ => ⟨_, rfl, Or.inr (by
      show State.pc (State.branchWritePC _ _) = _
      simp only [State.branchWritePC, hs, Bool.not_false, if_true, Bool.false_eq_true, if_false]
      rfl)⟩)
  have hthumb := congrArg State.thumb (State.bxWritePC_eq_some hu)
  have ht' : t.thumb = !s.thumb := by
    rw [← Option.some.inj ht]
    rfl
  rw [ht', hs, armBlxTarget_even w h8] at hthumb
  cases hthumb

/-- **The branches that are relocated rightly.** -/
def armBranchExact (x : Insn) (f : Flags) : Prop :=
  match x.op with
  | .b off => conditionPassed x.cond f = true → 0 ≤ off.toInt
  | .bl off => conditionPassed x.cond f = true ∧ 0 ≤ off.toInt
  | _ => False

end Compare

/-- **A relocated ARM branch has the effect of the branch exactly when it is a
`B` that is not taken, or a `B` or `BL` that is taken and not backward.** -/
theorem armBranch_relocated_iff {mem : Mem} {addr : Word} {x : Insn} {self : Relocator}
    (haddr : addr.toNat % 4 = 0) (hx : decodeArm (mem.read32 addr) = some x)
    (hb : isBranch x.op = true) (hne : self.inpos ≠ self.outpos)
    (hc : self.input.insns[self.outpos]? = some (armInsnAt mem addr)) (f : Flags) :
    ∃ r, self.armWriteOne = some r
      ∧ (ArmBranchRelocated (written self r) x addr f ↔ armBranchExact x f) := by
  have h8 : (addr + 8#32).toNat % 4 = 0 := aligned_offset (k := 8) haddr (by decide)
  refine ⟨_, armWriteOne_eq hne hc, ?_⟩
  rw [written_writeBlock]
  have hbr := isArmBranch_of_decode hx hb
  generalize hty : getARMInsnType (mem.read32 addr) = ty at hbr
  cases hbr with
  | b hm hcond =>
    rw [itemHalves_b (c := armInsnAt mem addr) hty hm]
    exact bWords_iff haddr hcond
  | bl hcond =>
    rw [itemHalves_bl (c := armInsnAt mem addr) hty, armInsnAt_pc, align4_of_aligned h8]
    exact blWords_iff haddr hcond
  | blx =>
    rw [itemHalves_blx (c := armInsnAt mem addr) hty]
    exact iff_of_false (not_blxWords haddr _ _) id

/-- A relocator that has read the instruction at an address. -/
def armRelocatorAt (mem : Mem) (addr pc : Word) : Relocator :=
  (Relocator.init (armReaderReset addr) (AssemblerWriter.armReset 0#32 pc)).armReadOne mem

/-- A branch forward, taken. -/
theorem armBranch_relocated_iff_forward :
    ∃ r, (armRelocatorAt (codeAt [0x0002#16, 0xEA00#16]) 0x8000#32 0x9000#32).armWriteOne = some r
      ∧ (ArmBranchRelocated (written
            (armRelocatorAt (codeAt [0x0002#16, 0xEA00#16]) 0x8000#32 0x9000#32) r)
          ⟨always, .b 8#32⟩ 0x8000#32 ⟨false, false, false, false⟩
        ↔ armBranchExact ⟨always, .b 8#32⟩ ⟨false, false, false, false⟩) :=
  @armBranch_relocated_iff (codeAt [0x0002#16, 0xEA00#16]) _ _ _ (by decide) (by decide) rfl
    (by decide) rfl _

/-- `BLEQ` with the zero flag clear: the block jumps to the target all the
same. -/
theorem armBranch_relocated_skipped :
    ¬ ∀ (mem : Mem) (addr : Word) (x : Insn) (self r : Relocator) (f : Flags),
      addr.toNat % 4 = 0 → decodeArm (mem.read32 addr) = some x → isBranch x.op = true →
      self.inpos ≠ self.outpos → self.input.insns[self.outpos]? = some (armInsnAt mem addr) →
      self.armWriteOne = some r → ArmBranchRelocated (written self r) x addr f := by
  intro h
  have hw : decodeArm ((codeAt [0x0002#16, 0x0B00#16]).read32 0x8000#32)
      = some ⟨0#4, .bl (armBranchOffset 0x0B000002#32)⟩ := by decide
  have hr := @armWriteOne_eq (armRelocatorAt (codeAt [0x0002#16, 0x0B00#16]) 0x8000#32
    0x9000#32) (c := armInsnAt (codeAt [0x0002#16, 0x0B00#16]) 0x8000#32) (by decide) rfl
  have hb := h _ 0x8000#32 _ _ _ ⟨false, false, false, false⟩ (by decide) hw rfl (by decide) rfl hr
  rw [written_writeBlock, itemHalves_bl (by decide),
    show (armInsnAt (codeAt [0x0002#16, 0x0B00#16]) 0x8000#32).insn = 0x0B000002#32 from by decide,
    armInsnAt_pc, show align4 (0x8000#32 + 8#32) = 0x8000#32 + 8#32 from by decide] at hb
  exact absurd ((blWords_iff (by decide) (by decide)).mp hb).1 (by decide)

end HookZz
