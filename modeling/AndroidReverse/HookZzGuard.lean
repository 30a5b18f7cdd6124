import AndroidReverse.HookZzCode

/-!
# Relocated conditional branches

A conditional Thumb branch is relocated to its own condition in front of a
jump: the guard branches over the branch behind it, onto the load of the
literal, and that branch leads to the end of the block. The distances are the
same in every block, so the load has to stand at a word boundary, and the
writer pads in front of the guard to bring it there: a guard of one halfword
is padded between two words, a guard of two at the beginning of one.

`guardedBranch_runs` says that both senses are right. It is stated over every
state a run of the block passes, so it says as well that a branch that is not
taken never comes to the load.
-/

namespace HookZz

open Arm Relocate Relocator

/-! ## The instructions -/

/-- The Thumb branches with a condition of their own. -/
def isConditional (x : Insn) : Bool :=
  match x.op with
  | .cb _ _ _ => true
  | .b _ => x.cond != always
  | _ => false

/-- **Whether a branch is taken.** -/
def taken (x : Insn) (s : State) : Bool :=
  conditionPassed x.cond s.flags && match x.op with
    | .cb nonzero rn _ => nonzero ^^ (s.gpr rn == 0#32)
    | _ => true

/-- **A guard**: it branches over the halfword behind it if the branch is
taken, and continues there if not. -/
def IsGuardAt (m : Mem) (a : Word) (size : ℕ) (x : Insn) : Prop :=
  ∀ s : State, s.thumb = true → s.mem = m → s.pc = a →
    step s = some (s.goto (a + BitVec.ofNat 32 (if taken x s then size + 2 else size)))

/-! ## The guards -/

section Guards

variable {insn1 insn2 : Half} {m : Mem} {base : Word} {hs : List Half} {i : ℕ}

/-- The guard of a compare-and-branch. -/
theorem cbGuard_eq (h : insn1 &&& 0xF500#16 = 0xB100#16) :
    ((insn1.setWidth 32 &&& 0xFD07#32) ||| 0#32).setWidth 16
      = cbGuard (insn1.getLsbD 11) (insn1.extractLsb' 0 3) := by
  have h11 : insn1 &&& 0x0800#16 = (BitVec.ofBool (insn1.getLsbD 11)).setWidth 16 <<< 11 := by
    refine BitVec.eq_of_getLsbD_eq (fun i hi => ?_)
    simp only [BitVec.getLsbD_and, BitVec.getLsbD_shiftLeft, BitVec.getLsbD_setWidth,
      BitVec.getLsbD_ofBool]
    interval_cases i <;> simp
  have hm := mask_union (mask_union h h11) (mask_of_extract (x := insn1) 0 3 rfl)
  rw [BitVec.shiftLeft_zero, BitVec.shiftLeft_zero] at hm
  rw [BitVec.or_zero, show (insn1.setWidth 32 &&& 0xFD07#32).setWidth 16 = insn1 &&& 0xFD07#16 from
    store16_and insn1 _]
  exact hm

/-- The guard of a short branch. -/
theorem condGuard_eq (h : insn1 &&& 0xF000#16 = 0xD000#16) :
    ((insn1.setWidth 32 &&& 0xFF00#32) ||| 0#32).setWidth 16
      = condGuard (insn1.extractLsb' 8 4) := by
  rw [BitVec.or_zero, show (insn1.setWidth 32 &&& 0xFF00#32).setWidth 16 = insn1 &&& 0xFF00#16 from
    store16_and insn1 _]
  exact mask_union h (mask_of_extract 8 4 rfl)

/-- A guard of one halfword. -/
theorem isGuardAt_short {c : Half} {x y : Insn} (hg : IsGuard c y (taken x))
    (hc : HalvesAt m base hs) (he : base.toNat % 2 = 0) (hw : hs[i]? = some c) :
    IsGuardAt m (base + BitVec.ofNat 32 (2 * i)) 2 x := by
  intro s ht hm hpc
  subst hm
  have heven : (base + BitVec.ofNat 32 (2 * i + 4)).toNat % 2 = 0 := by
    rw [toNat_offset_mod (by decide) he]
    omega
  rw [hc.step16 ht hpc hw hg.short hg.decodes, hg.exec s _ _ ht heven, BitVec.add_assoc,
    ← BitVec.ofNat_add]
  cases taken x s <;> rfl

theorem isGuard_taken_cond {c : BitVec 4} {off : Word} (hc : c.extractLsb' 1 3 ≠ 0b111#3) :
    IsGuard (condGuard c) ⟨c, .b 0#32⟩ (taken ⟨c, .b off⟩) := by
  have ht : taken ⟨c, .b off⟩ = fun s => conditionPassed c s.flags := by
    funext s
    exact Bool.and_true _
  rw [ht]
  exact isGuard_cond hc

theorem isGuard_taken_cb {nonzero : Bool} {r : BitVec 3} {off : Word} :
    IsGuard (cbGuard nonzero r) ⟨always, .cb nonzero (r.setWidth 4) 0#32⟩
      (taken ⟨always, .cb nonzero (r.setWidth 4) off⟩) := by
  have ht : taken ⟨always, .cb nonzero (r.setWidth 4) off⟩
      = fun s => nonzero ^^ (s.gpr (r.setWidth 4) == 0#32) := by
    funext s
    exact Bool.true_and _
  rw [ht]
  exact isGuard_cb nonzero r

/-- The guard of a long branch, by its condition. -/
def condGuard32 (c : BitVec 4) : Half × Half := (0xF000#16 ||| (c.setWidth 16 <<< 6), 0x8001#16)

theorem condGuard32_eq (h1 : insn1 &&& 0xF800#16 = 0xF000#16)
    (h2 : insn2 &&& 0xD000#16 = 0x8000#16) :
    (insn1.setWidth 32 &&& 0xFBC0#32).setWidth 16 = (condGuard32 (armReg (insn1 ++ insn2) 22)).1
      ∧ ((insn2.setWidth 32 &&& 0xD000#32) ||| 1#32).setWidth 16
        = (condGuard32 (armReg (insn1 ++ insn2) 22)).2 := by
  have hc : insn1.extractLsb' 6 4 = armReg (insn1 ++ insn2) 22 := by
    refine BitVec.eq_of_getLsbD_eq (fun i hi => ?_)
    rw [armReg, BitVec.getLsbD_extractLsb', BitVec.getLsbD_extractLsb', BitVec.getLsbD_append,
      if_neg (by omega)]
    simp only [hi, decide_true, Bool.true_and]
    congr 1
    omega
  constructor
  · rw [show (insn1.setWidth 32 &&& 0xFBC0#32).setWidth 16 = insn1 &&& 0xFBC0#16 from
      store16_and insn1 _]
    exact mask_union h1 (mask_of_extract 6 4 hc)
  · have hs : (insn2.setWidth 32 &&& 0xD000#32).setWidth 16 = insn2 &&& 0xD000#16 :=
      store16_and insn2 _
    rw [BitVec.setWidth_or, hs, h2]
    rfl

/-- A guard of two halfwords. -/
theorem isGuardAt_long {c : BitVec 4} {off : Word} (hcond : c.extractLsb' 1 3 ≠ 0b111#3)
    (hc : HalvesAt m base hs) (he : base.toNat % 2 = 0) (hw : hs[i]? = some (condGuard32 c).1)
    (hw' : hs[i + 1]? = some (condGuard32 c).2) :
    IsGuardAt m (base + BitVec.ofNat 32 (2 * i)) 4 ⟨c, .b off⟩ := by
  intro s ht hm hpc
  subst hm
  have hdec : ∀ c : BitVec 4, c.extractLsb' 1 3 ≠ 0b111#3 →
      isThumb32 (condGuard32 c).1 = true
        ∧ decodeThumb32 ((condGuard32 c).1 ++ (condGuard32 c).2) = some ⟨c, .b 2#32⟩ := by decide
  have htk : taken ⟨c, .b off⟩ s = conditionPassed c s.flags := Bool.and_true _
  rw [hc.step32 ht hpc hw hw' (hdec c hcond).1 (hdec c hcond).2, htk, BitVec.add_assoc,
    ← BitVec.ofNat_add]
  by_cases hp : conditionPassed c s.flags = true
  · have heven : (base + BitVec.ofNat 32 (2 * i + 6)).toNat % 2 = 0 := by
      rw [toNat_offset_mod (by decide) he]
      omega
    rw [Insn.exec_of_passed hp, if_pos hp]
    show some (s.branchWritePC (base + _ + BitVec.ofNat 32 2)) = _
    rw [BitVec.add_assoc, ← BitVec.ofNat_add]
    exact congrArg some (State.branchWritePC_thumb ht heven)
  · rw [Insn.exec_of_failed (Bool.eq_false_iff.mpr hp), if_neg hp]

end Guards

/-! ## The runs -/

section Runs

variable {base : Word} {hs : List Half} {s t : State} {x : Insn} {v : Word} {i size : ℕ}

/-- **The runs of a guarded jump**, from its guard at halfword `i`: it comes to
the jump if the branch is taken, and to the end of the block if not. -/
theorem guarded_iff (hc : HalvesAt s.mem base hs) (he : base.toNat % 2 = 0) (ht : s.thumb = true)
    (hpc : s.pc = base + BitVec.ofNat 32 (2 * i))
    (hg : IsGuardAt s.mem (base + BitVec.ofNat 32 (2 * i)) (2 * size) x)
    (hb : hs[i + size]? = some 0xE003#16) {len : ℕ} (hlen : len = 2 * (i + size + 5))
    (hl : len < 2 ^ 32) :
    RunsWithin base len s t
      ↔ t = s ∨ if taken x s then
          RunsWithin base len (s.goto (base + BitVec.ofNat 32 (2 * (i + size + 1)))) t
        else t = s.goto (base + BitVec.ofNat 32 (2 * (i + size)))
          ∨ t = s.goto (base + BitVec.ofNat 32 len) := by
  have hin : ∀ k, k < len → InBlock base len (base + BitVec.ofNat 32 k) :=
    fun k hk => inBlock_offset hk (by omega)
  have hst := hg s ht rfl hpc
  rw [BitVec.add_assoc, ← BitVec.ofNat_add] at hst
  rw [runsWithin_iff_of_step (by rw [hpc]; exact hin _ (by omega)) hst]
  refine or_congr_right ?_
  cases taken x s with
  | true =>
    simp only [if_true]
    rw [show 2 * i + (2 * size + 2) = 2 * (i + size + 1) from by omega]
  | false =>
    simp only [Bool.false_eq_true, if_false]
    have hskip := step_skipHalf (s := s.goto (base + BitVec.ofNat 32 (2 * (i + size)))) (d := 6) hc
      he ht rfl rfl hb (by decide) (by decide)
    have hstart : 2 * i + 2 * size = 2 * (i + size) := by omega
    have hend : 2 * (i + size) + 4 + 6 = len := by omega
    rw [hend] at hskip
    have hbranch : InBlock base len (s.goto (base + BitVec.ofNat 32 (2 * (i + size)))).pc :=
      hin (2 * (i + size)) (by omega)
    have hout := not_inBlock_end base len hl
    rw [hstart, runsWithin_iff_of_step hbranch hskip]
    exact or_congr_right (runsWithin_iff_of_out hout)

/-- The load of the literal a block ends with. -/
def jumpState (block : List Half) (s : State) : State :=
  s.goto (s.pc + BitVec.ofNat 32 (2 * block.length - 8))

/-- **A block that jumps to a literal if a branch is taken**, and otherwise
continues behind itself; in either case it changes nothing but the program
counter. -/
structure GuardedJump (block : List Half) (v : Word) (x : Insn) (s : State) : Prop where
  /-- The last instruction of the block loads the literal into the program
  counter. -/
  jumps : step (jumpState block s) = (jumpState block s).bxWritePC v
  /-- The load is reached exactly if the branch is taken. -/
  reached : RunsWithin s.pc (2 * block.length) s (jumpState block s) ↔ taken x s = true
  /-- Otherwise the end of the block is reached. -/
  skipped : taken x s = false →
    RunsWithin s.pc (2 * block.length) s (s.goto (blockEnd block s))

/-- The code of a guarded jump behind a padding of `i` halfwords. -/
structure GuardedCode (hs : List Half) (i size : ℕ) (v : Word) : Prop where
  /-- The block ends with the literal. -/
  length : hs.length = i + size + 5
  /-- The branch over the jump. -/
  skip : hs[i + size]? = some 0xE003#16
  /-- The first halfword of the jump. -/
  jump : hs[i + size + 1]? = some 0xF8DF#16
  /-- The second. -/
  jump' : hs[i + size + 2]? = some 0xF000#16
  /-- The first halfword of the literal. -/
  low : hs[i + size + 3]? = some (lowHalf v)
  /-- The second. -/
  high : hs[i + size + 4]? = some (highHalf v)
  /-- The padding is at most a `NOP`. -/
  pad : i = 0 ∨ i = 1 ∧ hs[0]? = some 0x46C0#16

/-- **A guarded jump whose load stands at a word boundary.** -/
theorem GuardedCode.guardedJump {phase : ℕ} (hcode : GuardedCode hs i size v)
    (hat : AtBlock true phase hs s) (hsize : size ≤ 2)
    (hphase : (phase + 2 * (i + size + 1)) % 4 = 0)
    (hg : IsGuardAt s.mem (s.pc + BitVec.ofNat 32 (2 * i)) (2 * size) x) :
    GuardedJump hs v x s := by
  have hlen := hcode.length
  have he : s.pc.toNat % 2 = 0 := by
    have := hat.phase
    omega
  have hi : i ≤ 1 := by
    rcases hcode.pad with h | ⟨h, -⟩ <;> omega
  have hjs : jumpState hs s = s.goto (s.pc + BitVec.ofNat 32 (2 * (i + size + 1))) := by
    rw [jumpState, show 2 * hs.length - 8 = 2 * (i + size + 1) from by omega]
  -- the runs from the guard, wherever the block begins
  have hiff : ∀ t, RunsWithin s.pc (2 * hs.length) (s.goto (s.pc + BitVec.ofNat 32 (2 * i))) t
      ↔ t = s.goto (s.pc + BitVec.ofNat 32 (2 * i)) ∨ if taken x s then
          RunsWithin s.pc (2 * hs.length) (s.goto (s.pc + BitVec.ofNat 32 (2 * (i + size + 1)))) t
        else t = s.goto (s.pc + BitVec.ofNat 32 (2 * (i + size)))
          ∨ t = s.goto (s.pc + BitVec.ofNat 32 (2 * hs.length)) :=
    fun t => @guarded_iff s.pc _ (s.goto (s.pc + BitVec.ofNat 32 (2 * i))) t _ _ _ hat.code he
      hat.state rfl hg hcode.skip _ (by omega) (by omega)
  have hpad : ∀ t, RunsWithin s.pc (2 * hs.length) s t
      ↔ t = s ∨ RunsWithin s.pc (2 * hs.length) (s.goto (s.pc + BitVec.ofNat 32 (2 * i))) t := by
    intro t
    rcases hcode.pad with rfl | ⟨rfl, hnop⟩
    · rw [show s.goto (s.pc + BitVec.ofNat 32 (2 * 0)) = s from by
        rw [show s.pc + BitVec.ofNat 32 (2 * 0) = s.pc from BitVec.add_zero _]
        rfl]
      exact ⟨Or.inr, fun h => h.elim (fun h => h ▸ RunsWithin.refl _) id⟩
    · exact runsWithin_iff_of_step (inBlock_base (by omega))
        (step_nop (i := 0) hat.code hat.state (BitVec.add_zero _).symm hnop)
  -- the load is none of the other states
  have hne : ∀ {k : ℕ} {t : State}, k < 32 → k ≠ 2 * (i + size + 1) →
      t.pc = s.pc + BitVec.ofNat 32 k →
      s.goto (s.pc + BitVec.ofNat 32 (2 * (i + size + 1))) ≠ t :=
    fun hk h ht h' => offset_ne s.pc (by omega) (by omega) (Ne.symm h)
      ((congrArg State.pc h').trans ht)
  refine ⟨?_, ⟨fun h => ?_, fun h => ?_⟩, fun h => ?_⟩
  · rw [hjs]
    refine @step_jump (s.goto (s.pc + BitVec.ofNat 32 (2 * (i + size + 1)))) s.pc _ _ _
      hat.code hat.state rfl ?_ hcode.jump hcode.jump' hcode.low hcode.high
    rw [BitVec.toNat_add, BitVec.toNat_ofNat]
    have := hat.phase
    omega
  · by_contra htk
    rw [hjs, hpad, hiff, if_neg htk] at h
    rcases h with h | h | h | h
    · exact hne (k := 0) (by omega) (by omega) (BitVec.add_zero _).symm h
    · exact hne (k := 2 * i) (by omega) (by omega) rfl h
    · exact hne (k := 2 * (i + size)) (by omega) (by omega) rfl h
    · exact hne (k := 2 * hs.length) (by omega) (by omega) rfl h
  · rw [hjs, hpad, hiff, if_pos h]
    exact Or.inr (Or.inr (RunsWithin.refl _))
  · rw [hpad, hiff, h]
    exact Or.inr (Or.inr (Or.inr rfl))

end Runs

/-! ## The blocks -/

section Blocks

/-- The halfwords of a guarded jump. -/
def guardedHalves (pad : Bool) (guard : List Half) (v : Word) : List Half :=
  (if pad then [0x46C0#16] else []) ++ guard
    ++ [0xE003#16, 0xF8DF#16, 0xF000#16, lowHalf v, highHalf v]

theorem itemHalves_guarded (pad : Bool) (guard : List Emission) (v : Word) (k : ℕ) :
    itemHalves (guardedItems pad guard v k)
      = guardedHalves pad (guard.flatMap Emission.halves) v := by
  have hpad : itemHalves (padItems pad) = if pad then [0x46C0#16] else [] := by
    cases pad <;> rfl
  have hjump : itemHalves (jumpItems false v k) = [0xF8DF#16, 0xF000#16, lowHalf v, highHalf v] :=
    rfl
  unfold guardedItems guardedHalves
  rw [itemHalves_append, itemHalves_append, itemHalves_codeItems, hpad, hjump,
    List.flatMap_append, ← List.append_assoc, List.append_assoc _ _ [_, _, _, _]]
  rfl

theorem guardedCode (pad : Bool) (guard : List Half) (v : Word) :
    GuardedCode (guardedHalves pad guard v) (if pad then 1 else 0) guard.length v := by
  have hlen : ((if pad then [0x46C0#16] else []) ++ guard : List Half).length
      = (if pad then 1 else 0) + guard.length := by
    cases pad <;> simp [Nat.add_comm]
  have htail : ∀ j, (guardedHalves pad guard v)[(if pad then 1 else 0) + guard.length + j]?
      = [0xE003#16, 0xF8DF#16, 0xF000#16, lowHalf v, highHalf v][j]? := by
    intro j
    rw [guardedHalves, List.getElem?_append_right (by omega), hlen, Nat.add_sub_cancel_left]
  refine ⟨?_, htail 0, htail 1, htail 2, htail 3, htail 4, ?_⟩
  · rw [guardedHalves, List.length_append, hlen]
    rfl
  · cases pad with
    | true => exact Or.inr ⟨rfl, rfl⟩
    | false => exact Or.inl rfl

/-- The guard stands behind the padding. -/
theorem getElem?_guard (pad : Bool) (guard : List Half) (v : Word) {j : ℕ} (hj : j < guard.length) :
    (guardedHalves pad guard v)[(if pad then 1 else 0) + j]? = guard[j]? := by
  cases pad with
  | true =>
    rw [guardedHalves, List.append_assoc, List.getElem?_append_right (by simp)]
    simp [List.getElem?_append_left hj]
  | false =>
    rw [guardedHalves]
    simp [List.getElem?_append_left hj]

theorem lastLiteral_items (self : Relocator) (is : List Item) (v : Word) (k : ℕ) :
    (self.items (is ++ [.literal v k])).output.lastLiteral = some v := by
  rw [items_output, List.map_append, AssemblerWriter.emit_append]
  exact AssemblerWriter.lastLiteral_bytes _ v

theorem lastLiteral_guarded (self : Relocator) (pad : Bool) (guard : List Emission) (v : Word)
    (k : ℕ) : (self.items (guardedItems pad guard v k)).output.lastLiteral = some v := by
  unfold guardedItems jumpItems
  rw [← List.append_assoc, lastLiteral_items]

variable {s : State} {x y : Insn} {v : Word}

theorem AtBlock.even {off : Bool} {hs : List Half}
    (hat : AtBlock true (if off then 2 else 0) hs s) : s.pc.toNat % 2 = 0 := by
  have hp := hat.phase
  cases off with
  | true =>
    rw [if_pos rfl] at hp
    omega
  | false =>
    rw [if_neg Bool.false_ne_true] at hp
    omega

/-- A guard of one halfword is padded between two words. -/
theorem guardedItems_short {off : Bool} {g : Half} {k : ℕ}
    (hat : AtBlock true (if off then 2 else 0) (itemHalves (guardedItems off [.thumb g] v k)) s)
    (hg : IsGuard g y (taken x)) :
    GuardedJump (itemHalves (guardedItems off [.thumb g] v k)) v x s := by
  rw [itemHalves_guarded] at hat ⊢
  have hcode : GuardedCode (guardedHalves off [g] v) (if off then 1 else 0) 1 v := guardedCode _ _ _
  refine hcode.guardedJump hat (by decide) (by cases off <;> rfl) ?_
  exact isGuardAt_short hg hat.code hat.even (getElem?_guard off [g] v (by decide : 0 < 1))

/-- A guard of two is padded at the beginning of one. -/
theorem guardedItems_long {off : Bool} {c : BitVec 4} {target : Word} {k : ℕ}
    (hat : AtBlock true (if off then 2 else 0) (itemHalves (guardedItems (!off)
      [.thumb (condGuard32 c).1, .thumb (condGuard32 c).2] v k)) s)
    (hcond : c.extractLsb' 1 3 ≠ 0b111#3) :
    GuardedJump (itemHalves (guardedItems (!off)
      [.thumb (condGuard32 c).1, .thumb (condGuard32 c).2] v k)) v ⟨c, .b target⟩ s := by
  rw [itemHalves_guarded] at hat ⊢
  have hcode : GuardedCode (guardedHalves (!off) [(condGuard32 c).1, (condGuard32 c).2] v)
      (if !off then 1 else 0) 2 v := guardedCode _ _ _
  refine hcode.guardedJump hat (by decide) (by cases off <;> rfl) ?_
  exact isGuardAt_long hcond hat.code hat.even
    (getElem?_guard (!off) [_, _] v (by decide : 0 < 2))
    (getElem?_guard (!off) [_, _] v (by decide : 1 < 2))

variable {c : ARMInstruction} {off : Bool}

theorem thumbItems_cb (h : getTHUMBInsnType c.insn1 c.insn2 = .cbnzCbz) :
    thumbItems off c
      = guardedItems off [.thumb (((c.insn1.setWidth 32 &&& 0xFD07#32) ||| 0#32).setWidth 16)]
          (c.pc + cbImm32 (c.insn1.setWidth 32) + 1#32) 1 := by
  unfold thumbItems
  rw [h]

theorem thumbItems_bT1 (h : getTHUMBInsnType c.insn1 c.insn2 = .bT1) :
    thumbItems off c
      = guardedItems off [.thumb (((c.insn1.setWidth 32 &&& 0xFF00#32) ||| 0#32).setWidth 16)]
          (c.pc + (getInsnSub (c.insn1.setWidth 32) 0 8 <<< 1) + 1#32) 1 := by
  unfold thumbItems
  rw [h]

theorem thumbItems_bT3 (h : getTHUMBInsnType c.insn1 c.insn2 = .bT3) :
    thumbItems off c
      = guardedItems (!off) [.thumb ((c.insn1.setWidth 32 &&& 0xFBC0#32).setWidth 16),
          .thumb (((c.insn2.setWidth 32 &&& 0xD000#32) ||| 1#32).setWidth 16)]
          (c.pc + bT3Imm32 (c.insn1.setWidth 32) (c.insn2.setWidth 32) + 1#32) 0 := by
  unfold thumbItems
  rw [h]

end Blocks

section Claim

variable {mem : Mem} {addr : Word} {x : Insn} {self : Relocator}

/-- **A relocated conditional branch keeps its condition**, wherever it is
written: the load of its target is reached exactly if the branch is taken, the
end of its block otherwise, and nothing but the program counter changes. -/
theorem guardedBranch_runs
    (hx : decodeThumb (mem.read16 addr) (mem.read16 (addr + 2#32)) = some x)
    (hb : isConditional x = true) (hne : self.inpos ≠ self.outpos)
    (hc : self.input.insns[self.outpos]? = some (thumbInsnAt mem addr))
    (he : self.output.currentPc.toNat % 2 = 0) :
    ∃ r v, self.thumbWriteOne = some r ∧ r.output.lastLiteral = some v
      ∧ ∀ s, AtBlock true (self.output.currentPc.toNat % 4) (written self r) s →
        GuardedJump (written self r) v x s := by
  have hbr : isBranch x.op = true := by
    unfold isConditional at hb
    cases hop : x.op <;> rw [hop] at hb <;> first | rfl | cases hb
  rw [← decodeThumb_insnAt] at hx
  have hcase := isBranch_of_decode hx hbr
  have hitems := thumbWriteOne_eq hne hc he
  rw [phase_of_offWord he]
  generalize self.output.offWord = off at hitems
  generalize hty : getTHUMBInsnType (thumbInsnAt mem addr).insn1 (thumbInsnAt mem addr).insn2 = ty
    at hcase
  cases hcase with
  | cb hm =>
    rw [thumbItems_cb hty, cbGuard_eq hm] at hitems
    refine ⟨_, _, hitems, lastLiteral_guarded _ _ _ _ _, fun s hat => ?_⟩
    rw [written_writeBlock] at hat ⊢
    exact guardedItems_short hat isGuard_taken_cb
  | bT1 hm hcond =>
    rw [thumbItems_bT1 hty, condGuard_eq hm] at hitems
    refine ⟨_, _, hitems, lastLiteral_guarded _ _ _ _ _, fun s hat => ?_⟩
    rw [written_writeBlock] at hat ⊢
    exact guardedItems_short hat (isGuard_taken_cond hcond)
  | bT3 h1 h2 hcond =>
    have hg := condGuard32_eq h1 h2
    rw [thumbItems_bT3 hty, hg.1, hg.2] at hitems
    refine ⟨_, _, hitems, lastLiteral_guarded _ _ _ _ _, fun s hat => ?_⟩
    rw [written_writeBlock] at hat ⊢
    exact guardedItems_long hat hcond
  | bT2 => cases hb
  | bT4 => cases hb
  | bl => cases hb
  | blx => cases hb

end Claim

/-- A `BEQ` written between two words. -/
theorem guardedBranch_runs_beq :
    ∃ r v, (relocatorAt (codeAt [0xD002#16]) 0x8000#32 0x9002#32).thumbWriteOne = some r
      ∧ r.output.lastLiteral = some v
      ∧ ∀ s, AtBlock true
          ((relocatorAt (codeAt [0xD002#16]) 0x8000#32 0x9002#32).output.currentPc.toNat % 4)
          (written (relocatorAt (codeAt [0xD002#16]) 0x8000#32 0x9002#32) r) s →
        GuardedJump (written (relocatorAt (codeAt [0xD002#16]) 0x8000#32 0x9002#32) r) v
          ⟨0#4, .b 4#32⟩ s :=
  @guardedBranch_runs (codeAt [0xD002#16]) 0x8000#32 _ _ (by decide) rfl (by decide) rfl
    (by decide)

end HookZz
