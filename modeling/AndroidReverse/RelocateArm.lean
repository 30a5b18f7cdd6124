import AndroidReverse.Relocate

/-!
# Relocated ARM instructions

What the blocks of an ARM prologue do, compared with the instructions they
stand for. The comparison is for every target, every trampoline page, every
register file and memory, one instruction of the prologue at a time:
`ArmReproduces` says that the block has the effect of the instruction at its
old address whenever it is entered with the flags `f`.

The relocator tells ARM instructions apart with the condition field masked
off and emits unconditional blocks, so every block is right only when the
condition of its instruction passes (`armBranch_iff`, `armValue_iff`). Beyond
that, branches and literal loads are right, an `ADR` is right when its
constant is not rotated, and a `MOV` when it sets no flag that differs.
-/

namespace Relocate

open Arm

/-! ## The comparison -/

section Comparison

variable (mem₀ : Mem) (target_addr : Word) (orig_instructions : ℕ → Word) (i : ℕ)

/-- What `relocateInstructionInArm` writes to the trampoline of an ARM
target, whose prologue is eight bytes long. -/
def armTrampoline : List Word :=
  (relocateInstructionInArm (fun _ _ _ => ()) mem₀ target_addr orig_instructions 8 ()).1

/-- What the program counter reads as at instruction `i` of the target. -/
def armPc : Word := target_addr + BitVec.ofNat 32 (4 * i + 8)

/-- **The processor is about to execute block `i`** of the trampoline, which
is on a page of its own. -/
structure AtArmBlock (page : Word) (s : State) : Prop where
  /-- The page is word-aligned. -/
  aligned : page.toNat % 4 = 0
  /-- The processor is in ARM state. -/
  arm : s.thumb = false
  /-- The trampoline is on the page. -/
  code : WordsAt s.mem page (armTrampoline mem₀ target_addr orig_instructions)
  /-- The block begins behind the blocks before it. -/
  pc : s.pc
    = page + BitVec.ofNat 32 (4 * (armBlocks mem₀ target_addr orig_instructions i).length)

/-- **Block `i` has the effect of instruction `x` at its old address** whenever
it is entered with the flags `f` and what a literal load reads is as it was
when the block was made. -/
def ArmReproduces (x : Insn) (f : Flags) : Prop :=
  ∀ page s, AtArmBlock mem₀ target_addr orig_instructions i page s → s.flags = f →
    LiteralKept mem₀ x.op (armPc target_addr i) s.mem →
    Reproduces x (armPc target_addr i) s.pc
      (4 * (armBlock mem₀ target_addr orig_instructions i).length) s

variable {mem₀ target_addr orig_instructions i}

theorem relocateWordInArm_length_le (mem : Mem) (pc w : Word) :
    (relocateWordInArm mem pc w).length ≤ 6 := by
  unfold relocateWordInArm
  cases getTypeInArm w <;> simp

theorem armTrampoline_eq (mem₀ : Mem) (target_addr : Word) (orig_instructions : ℕ → Word)
    (hi : i < 2) :
    ∃ rest, 0 < rest.length ∧ armTrampoline mem₀ target_addr orig_instructions
      = armBlocks mem₀ target_addr orig_instructions i
        ++ armBlock mem₀ target_addr orig_instructions i ++ rest := by
  obtain ⟨rest, hr⟩ := armBlocks_split mem₀ target_addr orig_instructions hi
  refine ⟨rest ++ [0xE51FF004#32, target_addr + BitVec.ofNat 32 8], ?_, ?_⟩
  · rw [List.length_append]
    exact Nat.add_pos_right _ (Nat.succ_pos _)
  · rw [armTrampoline, relocateInstructionInArm_code, show 8 / 4 = 2 from rfl, hr,
      List.append_assoc]

theorem armTrampoline_length_le :
    (armTrampoline mem₀ target_addr orig_instructions).length ≤ 14 := by
  have hb : ∀ i, (armBlock mem₀ target_addr orig_instructions i).length ≤ 6 :=
    fun i => relocateWordInArm_length_le _ _ _
  have h0 := hb 0
  have h1 := hb 1
  rw [armTrampoline, relocateInstructionInArm_code, show 8 / 4 = 2 from rfl, armBlocks_succ,
    armBlocks_succ]
  simp only [armBlocks, List.range_zero, List.flatMap_nil, List.nil_append,
    List.length_append, List.length_cons, List.length_nil]
  omega

/-- The block stands at the program counter, which is word-aligned. -/
theorem AtArmBlock.block {page : Word} {s : State} (hi : i < 2)
    (h : AtArmBlock mem₀ target_addr orig_instructions i page s) :
    s.pc.toNat % 4 = 0
      ∧ WordsAt s.mem s.pc (armBlock mem₀ target_addr orig_instructions i) := by
  obtain ⟨rest, hrest, hr⟩ := armTrampoline_eq mem₀ target_addr orig_instructions hi
  have hc := h.code
  rw [hr, List.append_assoc] at hc
  rw [h.pc]
  exact ⟨aligned_offset h.aligned (Nat.mul_mod_right 4 _), hc.append_right.append_left⟩

/-- **A place for the trampoline** away from finitely many addresses, entered
with any registers and flags. -/
theorem exists_atArmBlock (mem₀ : Mem) (target_addr : Word) (orig_instructions : ℕ → Word)
    (hi : i < 2) (avoid : List Word) (h : avoid.length < 2 ^ 24) (g : Reg → Word) (f : Flags) :
    ∃ page s, AtArmBlock mem₀ target_addr orig_instructions i page s ∧ s.flags = f ∧ s.gpr = g
      ∧ ∀ a ∈ avoid, s.mem a = mem₀ a
        ∧ ¬ InBlock s.pc (4 * (armBlock mem₀ target_addr orig_instructions i).length + 4) a := by
  obtain ⟨page, hal, hav⟩ := exists_base 64 (by omega) avoid h
  have hlen : (armTrampoline mem₀ target_addr orig_instructions).length ≤ 14 :=
    armTrampoline_length_le
  obtain ⟨rest, hrest, hr⟩ := armTrampoline_eq mem₀ target_addr orig_instructions hi
  refine ⟨page,
    { gpr := g
      pc := page
        + BitVec.ofNat 32 (4 * (armBlocks mem₀ target_addr orig_instructions i).length)
      thumb := false
      flags := f
      mem := mem₀.place 4 page (armTrampoline mem₀ target_addr orig_instructions) },
    ⟨hal, rfl, wordsAt_place _ _ _ (by omega), rfl⟩, rfl, rfl, fun a ha => ⟨?_, ?_⟩⟩
  · refine Mem.place_of_out (by omega) ?_
    have := Nat.not_lt.mp (hav a ha)
    omega
  · refine not_inBlock_part (hav a ha) ?_
    have hsum := congrArg List.length hr
    simp only [List.length_append] at hsum
    omega

end Comparison

/-! ## The instructions -/

/-- The ARM branches the relocator rewrites. -/
def isArmBranch : Op → Bool
  | .b _ => true
  | .bl _ => true
  | .blx _ => true
  | .bx rm => rm == PC
  | _ => false

/-- The ARM instructions that only read the program counter: `ADR`,
`LDR <label>` and `MOV Rd, PC`. -/
def isArmValue : Op → Bool
  | .adr _ _ _ => true
  | .ldrLit _ _ _ => true
  | .movReg _ _ rm ty imm5 => rm == PC && ty == 0#2 && imm5 == 0#5
  | _ => false

/-- **The branches, by their encodings.** -/
theorem armBranch_cases {w : Word} {x : Insn} (h : decodeArm w = some x)
    (hb : isArmBranch x.op = true) :
    (w &&& 0xFE000000#32 = 0xFA000000#32 ∧ x = ⟨always, .blx (armBlxOffset w)⟩)
      ∨ (w &&& 0x0F000000#32 = 0x0B000000#32 ∧ armReg w 28 ≠ 0b1111#4
          ∧ x = ⟨armReg w 28, .bl (armBranchOffset w)⟩)
      ∨ (w &&& 0x0F000000#32 = 0x0A000000#32 ∧ armReg w 28 ≠ 0b1111#4
          ∧ x = ⟨armReg w 28, .b (armBranchOffset w)⟩)
      ∨ (w &&& 0x0FFFFFFF#32 = 0x012FFF1F#32 ∧ x = ⟨armReg w 28, .bx PC⟩) := by
  obtain ⟨r, hr, hm, he, rfl⟩ := exists_row h
  simp only [armRows, armRow, List.mem_cons, List.not_mem_nil, or_false] at hr
  rcases hr with rfl | rfl | rfl | rfl | rfl | rfl | rfl | rfl | rfl | rfl | rfl | rfl | rfl
  case inl => exact Or.inl ⟨hm, rfl⟩
  case inr.inl => exact Or.inr (Or.inl ⟨hm, by simpa using he, rfl⟩)
  case inr.inr.inl => exact Or.inr (Or.inr (Or.inl ⟨hm, by simpa using he, rfl⟩))
  case inr.inr.inr.inl =>
    have hpc : armReg w 0 = PC := by simpa [isArmBranch] using hb
    exact Or.inr (Or.inr (Or.inr ⟨mask_union hm (mask_of_extract 0 4 hpc),
      congrArg (fun r => Insn.mk (armReg w 28) (.bx r)) hpc⟩))
  -- the other rows decode to no branch
  all_goals cases hb

/-- **The value instructions, by their encodings.** -/
theorem armValue_cases {w : Word} {x : Insn} (h : decodeArm w = some x)
    (hv : isArmValue x.op = true) :
    (w &&& 0x0FEF0FFF#32 = 0x01A0000F#32 ∧ exceptionReturn w = false
        ∧ x = ⟨armReg w 28, .movReg (w.getLsbD 20) (armReg w 12) PC 0 0⟩)
      ∨ (w &&& 0x0FFF0000#32 = 0x028F0000#32
          ∧ x = ⟨armReg w 28, .adr true (armReg w 12) (armExpandImm (w.extractLsb' 0 12))⟩)
      ∨ (w &&& 0x0FFF0000#32 = 0x024F0000#32
          ∧ x = ⟨armReg w 28, .adr false (armReg w 12) (armExpandImm (w.extractLsb' 0 12))⟩)
      ∨ (w &&& 0x0F7F0000#32 = 0x051F0000#32
          ∧ x = ⟨armReg w 28,
              .ldrLit (w.getLsbD 23) (armReg w 12) ((w.extractLsb' 0 12).setWidth 32)⟩) := by
  obtain ⟨r, hr, hm, he, rfl⟩ := exists_row h
  simp only [armRows, armRow, List.mem_cons, List.not_mem_nil, or_false] at hr
  rcases hr with rfl | rfl | rfl | rfl | rfl | rfl | rfl | rfl | rfl | rfl | rfl | rfl | rfl
  case inr.inr.inr.inr.inr.inl =>
    obtain ⟨⟨hrm, hty⟩, himm⟩ : (armReg w 0 = PC ∧ w.extractLsb' 5 2 = 0#2)
        ∧ w.extractLsb' 7 5 = 0#5 := by simpa [isArmValue] using hv
    have hexc : exceptionReturn w = false := (by simpa using he : _ ∧ _).2
    refine Or.inl ⟨mask_union (mask_union (mask_union hm (mask_of_extract 0 4 hrm))
      (mask_of_extract 5 2 hty)) (mask_of_extract 7 5 himm), hexc, ?_⟩
    show Insn.mk _ (.movReg _ _ (armReg w 0) (w.extractLsb' 5 2) (w.extractLsb' 7 5)) = _
    rw [hrm, hty, himm]
    rfl
  case inr.inr.inr.inr.inr.inr.inl => exact Or.inr (Or.inl ⟨hm, rfl⟩)
  case inr.inr.inr.inr.inr.inr.inr.inl => exact Or.inr (Or.inr (Or.inl ⟨hm, rfl⟩))
  case inr.inr.inr.inr.inr.inr.inr.inr.inr.inl => exact Or.inr (Or.inr (Or.inr ⟨hm, rfl⟩))
  all_goals cases hv

/-! ## The branch blocks -/

/-- The immediate of `B` and `BL` as the source assembles it. -/
theorem branchField (w : Word) :
    (w &&& 0xFFFFFF#32) <<< 2 = (w.extractLsb' 0 24 ++ 0b00#2).setWidth 32 := by
  refine BitVec.eq_of_getLsbD_eq (fun i hi => ?_)
  simp only [BitVec.getLsbD_setWidth, BitVec.getLsbD_append, BitVec.getLsbD_shiftLeft,
    BitVec.getLsbD_and, BitVec.getLsbD_extractLsb']
  interval_cases i <;> simp

/-- The immediate of `BLX` as the source assembles it. -/
theorem blxField (w : Word) :
    ((w &&& 0xFFFFFF#32) <<< 2) ||| ((w &&& 0x1000000#32) >>> 23)
      = (w.extractLsb' 0 24 ++ w.extractLsb' 24 1 ++ 0b0#1).setWidth 32 := by
  refine BitVec.eq_of_getLsbD_eq (fun i hi => ?_)
  simp only [BitVec.getLsbD_setWidth, BitVec.getLsbD_append, BitVec.getLsbD_shiftLeft,
    BitVec.getLsbD_and, BitVec.getLsbD_or, BitVec.getLsbD_ushiftRight, BitVec.getLsbD_extractLsb']
  interval_cases i <;> simp

section Branch

variable (mem : Mem) (pc : Word) {w : Word}

/-- The mask of `BLX` fixes the condition field. -/
theorem not_blxMask (hc : armReg w 28 ≠ 0b1111#4) : w &&& 0xFE000000#32 ≠ 0xFA000000#32 :=
  fun h => hc (mask_extract h 28 4 (by decide))

theorem relocateWordInArm_blx (h : w &&& 0xFE000000#32 = 0xFA000000#32) :
    relocateWordInArm mem pc w = [0xE28FE004#32, 0xE51FF004#32, pc + armBlxOffset w + 1#32] := by
  have ht : getTypeInArm w = .blxArm := by rw [getTypeInArm, if_pos h]
  have hx := extendTop_shift (n := 25) (w.extractLsb' 0 24 ++ w.extractLsb' 24 1 ++ 0b0#1)
    (by omega) (k := 26) (Or.inr rfl)
  unfold relocateWordInArm
  simp only [ht, blxField, hx]
  rfl

theorem relocateWordInArm_bl (h : w &&& 0x0F000000#32 = 0x0B000000#32)
    (hc : armReg w 28 ≠ 0b1111#4) :
    relocateWordInArm mem pc w = [0xE28FE004#32, 0xE51FF004#32, pc + armBranchOffset w] := by
  have ht : getTypeInArm w = .blArm := by
    rw [getTypeInArm, if_neg (not_blxMask hc), if_pos h]
  have hx := extendTop_shift (n := 25) (w.extractLsb' 0 24 ++ 0b00#2) (by omega) (k := 26)
    (Or.inr rfl)
  unfold relocateWordInArm
  simp only [ht, branchField, hx]
  rfl

theorem relocateWordInArm_b (h : w &&& 0x0F000000#32 = 0x0A000000#32)
    (hc : armReg w 28 ≠ 0b1111#4) :
    relocateWordInArm mem pc w = [0xE51FF004#32, pc + armBranchOffset w] := by
  have ht : getTypeInArm w = .bArm := by
    rw [getTypeInArm, if_neg (not_blxMask hc), if_neg (mask_conflict h (by decide)), if_pos h]
  have hx := extendTop_shift (n := 25) (w.extractLsb' 0 24 ++ 0b00#2) (by omega) (k := 26)
    (Or.inr rfl)
  unfold relocateWordInArm
  simp only [ht, branchField, hx]
  rfl

theorem relocateWordInArm_bx (h : w &&& 0x0FFFFFFF#32 = 0x012FFF1F#32) :
    relocateWordInArm mem pc w = [0xE51FF004#32, pc] := by
  have ht : getTypeInArm w = .bxArm := by
    rw [getTypeInArm, if_neg (mask_conflict h (by decide)), if_neg (mask_conflict h (by decide)),
      if_neg (mask_conflict h (by decide)), if_pos ((mask_trans _ h (by decide)).trans (by decide))]
  unfold relocateWordInArm
  simp only [ht]
  rw [show extendTop (0#32 >>> 25) 26 0#32 = 0#32 from by decide, BitVec.add_zero]

end Branch

/-- `BLX` and the other jumps of a block interwork; a branch that stays in ARM
state is the same. -/
theorem bxWritePC_eq_branchWritePC {s : State} (hs : s.thumb = false) {a : Word}
    (ha : a.toNat % 4 = 0) : s.bxWritePC a = some (s.branchWritePC a) := by
  rw [State.bxWritePC_arm s ha, State.branchWritePC_arm hs ha, ← hs]
  rfl

/-- **Every branch is a jump to a literal**, with or without a link, and its
block is that jump. -/
theorem armBranch_spec (mem : Mem) {pc w : Word} (hpc : pc.toNat % 4 = 0) {x : Insn}
    (h : decodeArm w = some x) (hb : isArmBranch x.op = true) :
    ∃ v, (relocateWordInArm mem pc w = [0xE51FF004#32, v]
          ∧ ∀ next s, s.thumb = false → x.op.exec pc next s = s.bxWritePC v)
      ∨ (relocateWordInArm mem pc w = [0xE28FE004#32, 0xE51FF004#32, v]
          ∧ ∀ next s, s.thumb = false → x.op.exec pc next s = (s.setReg LR next).bxWritePC v) := by
  have hal : (pc + armBranchOffset w).toNat % 4 = 0 := by
    have := toNat_mod_four (armBranchOffset_low w).1 (armBranchOffset_low w).2
    rw [BitVec.toNat_add]
    omega
  rcases armBranch_cases h hb with ⟨hm, rfl⟩ | ⟨hm, hc, rfl⟩ | ⟨hm, hc, rfl⟩ | ⟨hm, rfl⟩
  · refine ⟨_, Or.inr ⟨relocateWordInArm_blx mem pc hm, fun next s hs => ?_⟩⟩
    have hev : (pc + armBlxOffset w).toNat % 2 = 0 := by
      have := toNat_mod_two (armBlxOffset_low w)
      rw [BitVec.toNat_add]
      omega
    rw [State.bxWritePC_thumb _ hev]
    show some (State.branchWritePC { s.setReg LR (s.link next) with thumb := !s.thumb } _) = _
    rw [State.branchWritePC_thumb (by show (!s.thumb) = true; rw [hs]; rfl), State.link]
    · simp only [hs, Bool.false_eq_true, if_false]
      rfl
    · simpa only [hs, Bool.false_eq_true, if_false] using hev
  · refine ⟨_, Or.inr ⟨relocateWordInArm_bl mem pc hm hc, fun next s hs => ?_⟩⟩
    rw [bxWritePC_eq_branchWritePC (s := s.setReg LR next) hs hal]
    show some ((s.setReg LR (s.link next)).branchWritePC _) = _
    rw [State.link, if_neg (by rw [hs]; exact Bool.false_ne_true)]
  · refine ⟨_, Or.inl ⟨relocateWordInArm_b mem pc hm hc, fun next s hs => ?_⟩⟩
    rw [bxWritePC_eq_branchWritePC hs hal]
    rfl
  · exact ⟨pc, Or.inl ⟨relocateWordInArm_bx mem pc hm, fun next s _ => rfl⟩⟩

section Blocks

variable {mem₀ : Mem} {target_addr : Word} {orig_instructions : ℕ → Word} {i : ℕ}

theorem armPc_aligned (h : target_addr.toNat % 4 = 0) : (armPc target_addr i).toNat % 4 = 0 :=
  aligned_offset h (by omega)

/-- A branch whose condition passes is reproduced. -/
theorem armBranch_reproduces (hi : i < 2) (htarget : target_addr.toNat % 4 = 0) {x : Insn}
    (hx : decodeArm (orig_instructions i) = some x) (hb : isArmBranch x.op = true) {f : Flags}
    (hf : conditionPassed x.cond f = true) :
    ArmReproduces mem₀ target_addr orig_instructions i x f := by
  intro page s hat hsf _ t ht
  obtain ⟨hal, hc⟩ := hat.block hi
  rw [Insn.exec_of_passed (by rw [hsf]; exact hf)] at ht
  obtain ⟨v, ⟨he, hex⟩ | ⟨he, hex⟩⟩ := armBranch_spec mem₀ (armPc_aligned htarget) hx hb
  · rw [show armBlock mem₀ target_addr orig_instructions i = _ from he] at hc ht ⊢
    rw [hex _ _ hat.arm] at ht
    exact (jumpArm_iff hal hat.arm rfl hc).mpr (Or.inr ⟨t, ht, RunsWithin.refl t⟩)
  · rw [show armBlock mem₀ target_addr orig_instructions i = _ from he] at hc ht ⊢
    rw [hex _ _ hat.arm] at ht
    exact (linkArm_iff hal hat.arm rfl hc).mpr (Or.inr (Or.inr ⟨t, ht, RunsWithin.refl t⟩))

/-- A branch whose condition fails is not: its block jumps all the same. -/
theorem armBranch_not_reproduces (hi : i < 2) (htarget : target_addr.toNat % 4 = 0) {x : Insn}
    (hx : decodeArm (orig_instructions i) = some x) (hb : isArmBranch x.op = true) {f : Flags}
    (hf : conditionPassed x.cond f = false) :
    ¬ ArmReproduces mem₀ target_addr orig_instructions i x f := by
  intro h
  obtain ⟨v, hv⟩ := armBranch_spec mem₀ (armPc_aligned htarget) hx hb
  obtain ⟨page, s, hat, hsf, -, hav⟩ := exists_atArmBlock mem₀ target_addr orig_instructions
    hi (jumpTargets v) (by rw [jumpTargets_length]; decide) (fun _ => 0) f
  obtain ⟨hal, hc⟩ := hat.block hi
  have hkept : LiteralKept mem₀ x.op (armPc target_addr i) s.mem := by
    rcases armBranch_cases hx hb with ⟨-, rfl⟩ | ⟨-, -, rfl⟩ | ⟨-, -, rfl⟩ | ⟨-, rfl⟩ <;>
      exact literalKept_of_none rfl
  have hrun := h page s hat hsf hkept _ (Insn.exec_of_failed (by rw [hsf]; exact hf))
  -- the original continues behind the block, and no run of the block ends there
  rcases hv with ⟨he, -⟩ | ⟨he, -⟩
  · rw [show armBlock mem₀ target_addr orig_instructions i = _ from he] at hc hrun hav
    rcases (jumpArm_iff hal hat.arm rfl hc).mp hrun with ht | ⟨u, hu, ht⟩
    · exact absurd (congrArg State.pc ht) (add_ofNat_ne s.pc (k := 8) (by omega) (by omega))
    · exact not_jump_to_end (show 8 + 4 < 2 ^ 32 by omega) (fun a ha => (hav a ha).2) hu ht rfl
  · rw [show armBlock mem₀ target_addr orig_instructions i = _ from he] at hc hrun hav
    rcases (linkArm_iff hal hat.arm rfl hc).mp hrun with ht | ht | ⟨u, hu, ht⟩
    · exact absurd (congrArg State.pc ht) (add_ofNat_ne s.pc (k := 12) (by omega) (by omega))
    · exact absurd (congrArg State.pc ht) (by
        show s.pc + 12#32 ≠ s.pc + 4#32
        bv_omega)
    · exact not_jump_to_end (show 12 + 4 < 2 ^ 32 by omega) (fun a ha => (hav a ha).2) hu ht rfl

/-- **A relocated ARM branch has the effect of the branch exactly when its
condition passes.** -/
theorem armBranch_iff (hi : i < 2) (htarget : target_addr.toNat % 4 = 0) {x : Insn}
    (hx : decodeArm (orig_instructions i) = some x) (hb : isArmBranch x.op = true) (f : Flags) :
    ArmReproduces mem₀ target_addr orig_instructions i x f ↔ conditionPassed x.cond f = true := by
  refine ⟨fun h => ?_, armBranch_reproduces hi htarget hx hb⟩
  by_contra hf
  exact armBranch_not_reproduces hi htarget hx hb (Bool.eq_false_iff.mpr hf) h

/-- A branch to itself in both positions, entered with all flags clear. -/
theorem armBranch_iff_loop :
    ArmReproduces (fun _ => 0) 0x8000#32 (fun _ => 0xEAFFFFFE#32) 1 ⟨always, .b (-8)⟩
        ⟨false, false, false, false⟩
      ↔ conditionPassed always ⟨false, false, false, false⟩ = true :=
  armBranch_iff (by decide) (by decide) (by decide) (by decide) _

/-- `BNE` with the zero flag set: the original falls through, the block
jumps. -/
theorem armBranch_taken_always :
    decodeArm 0x1A000000#32 = some ⟨0b0001#4, .b 0⟩
      ∧ ¬ ArmReproduces (fun _ => 0) 0x8000#32 (fun _ => 0x1A000000#32) 0 ⟨0b0001#4, .b 0⟩
        ⟨false, true, false, false⟩ :=
  ⟨by decide, armBranch_not_reproduces (by decide) (by decide) (by decide) (by decide) (by decide)⟩

end Blocks

/-! ## The value blocks -/

section Value

variable (mem : Mem) (pc : Word) {w : Word}

/-- The words of a value block: load register `r` from the literal and branch
over it. -/
def armValueBlock (r : Reg) (v : Word) : List Word :=
  [0xE51F0000#32 ||| (r.setWidth 32 <<< 12), 0xE28FF000#32, v]

theorem decodeArm_ldrValue : ∀ r : Reg,
    decodeArm (0xE51F0000#32 ||| (r.setWidth 32 <<< 12)) = some ⟨always, .ldrLit false r 0#32⟩ := by
  decide

/-- The register field as the source cuts it out. -/
theorem rdField (w : Word) : (w &&& 0xF000#32) >>> 12 = (armReg w 12).setWidth 32 := by
  have h := maskField w (Nat.le_refl 32) 4 12 (by omega)
  rwa [BitVec.setWidth_eq] at h

/-- The immediate field as the source cuts it out. -/
theorem imm12Field (w : Word) : w &&& 0xFFF#32 = (w.extractLsb' 0 12).setWidth 32 := by
  have h := maskLow w (Nat.le_refl 32) 12 (by omega)
  rwa [BitVec.setWidth_eq] at h

/-- The `U` bit as the source tests it. -/
theorem addBit (w : Word) : (w &&& 0x800000#32) >>> 23 ≠ 0#32 ↔ w.getLsbD 23 = true := by
  rw [show (w &&& 0x800000#32) >>> 23 = _ from bitField w (k := 23) (by omega)]
  exact bit_ne_zero_iff _

theorem relocateWordInArm_mov (h : w &&& 0x0FEF0FFF#32 = 0x01A0000F#32) :
    relocateWordInArm mem pc w = armValueBlock (armReg w 12) pc := by
  have ht : getTypeInArm w = .movArm := by
    unfold getTypeInArm
    iterate 8 rw [if_neg (mask_conflict h (by decide))]
    rw [if_pos ((mask_trans _ h (by decide)).trans (by decide))]
  unfold relocateWordInArm
  simp only [ht, rdField]
  rfl

theorem relocateWordInArm_adr1 (h : w &&& 0x0FFF0000#32 = 0x028F0000#32) :
    relocateWordInArm mem pc w
      = armValueBlock (armReg w 12) (pc + (w.extractLsb' 0 12).setWidth 32) := by
  have ht : getTypeInArm w = .adr1Arm := by
    unfold getTypeInArm
    iterate 5 rw [if_neg (mask_conflict h (by decide))]
    rw [if_pos h]
  unfold relocateWordInArm
  simp only [ht, rdField, imm12Field]
  rfl

theorem relocateWordInArm_adr2 (h : w &&& 0x0FFF0000#32 = 0x024F0000#32) :
    relocateWordInArm mem pc w
      = armValueBlock (armReg w 12) (pc - (w.extractLsb' 0 12).setWidth 32) := by
  have ht : getTypeInArm w = .adr2Arm := by
    unfold getTypeInArm
    iterate 6 rw [if_neg (mask_conflict h (by decide))]
    rw [if_pos h]
  unfold relocateWordInArm
  simp only [ht, rdField, imm12Field]
  rfl

theorem relocateWordInArm_ldr (h : w &&& 0x0F7F0000#32 = 0x051F0000#32) :
    relocateWordInArm mem pc w = armValueBlock (armReg w 12)
      (mem.read32 (offset (w.getLsbD 23) pc ((w.extractLsb' 0 12).setWidth 32))) := by
  have ht : getTypeInArm w = .ldrArm := by
    unfold getTypeInArm
    iterate 7 rw [if_neg (mask_conflict h (by decide))]
    rw [if_pos ((mask_trans _ h (by decide)).trans (by decide))]
  unfold relocateWordInArm
  simp only [ht, rdField, imm12Field]
  by_cases hu : w.getLsbD 23 = true
  · rw [if_pos ((addBit w).mpr hu), offset, if_pos hu]
    rfl
  · rw [if_neg (fun h => hu ((addBit w).mp h)), offset, if_neg hu]
    rfl

end Value

section ValueBlocks

variable {mem₀ : Mem} {target_addr : Word} {orig_instructions : ℕ → Word} {i : ℕ} {x : Insn}
  {f : Flags} {r : Reg} {v : Word}

/-- The block stands for an instruction that writes its value. -/
theorem armReproduces_of_writeValue (hi : i < 2)
    (hblock : armBlock mem₀ target_addr orig_instructions i = armValueBlock r v)
    (h : ∀ s t next, s.thumb = false → s.flags = f →
      LiteralKept mem₀ x.op (armPc target_addr i) s.mem →
      x.exec (armPc target_addr i) next s = some t → s.writeValue next r v = some t) :
    ArmReproduces mem₀ target_addr orig_instructions i x f := by
  intro page s hat hsf hk t ht
  obtain ⟨hal, hc⟩ := hat.block hi
  rw [hblock] at hc ht ⊢
  exact valueArm_runs hal hat.arm rfl (decodeArm_ldrValue r) hc (h s t _ hat.arm hsf hk ht)

/-- Where the block stands for an instruction, the instruction writes the
block's value, in states with any registers and as long as what comes next is
none of finitely many addresses. -/
theorem ArmReproduces.exists_writeValue (hi : i < 2)
    (h : ArmReproduces mem₀ target_addr orig_instructions i x f)
    (hblock : armBlock mem₀ target_addr orig_instructions i = armValueBlock r v) (g : Reg → Word)
    (others : List Word) (ho : others.length < 2 ^ 16) :
    ∃ s next, s.thumb = false ∧ s.flags = f ∧ s.gpr = g
      ∧ LiteralKept mem₀ x.op (armPc target_addr i) s.mem ∧ next ∉ jumpTargets v
      ∧ ∀ t, x.exec (armPc target_addr i) next s = some t → t.pc = next ∨ t.pc ∈ others →
        s.writeValue next r v = some t := by
  let lit := ((x.op.literalAddr (armPc target_addr i)).map wordBytes).getD []
  have hlit : lit.length ≤ 4 := by
    show (((x.op.literalAddr (armPc target_addr i)).map wordBytes).getD []).length ≤ 4
    cases x.op.literalAddr (armPc target_addr i) <;> simp [wordBytes]
  -- a page away from all of them, where it can be seen that a run leaves the block
  obtain ⟨page, s, hat, hsf, hg, hav⟩ := exists_atArmBlock mem₀ target_addr orig_instructions hi
    (jumpTargets v ++ others ++ lit)
    (by rw [List.length_append, List.length_append, jumpTargets_length]; omega) g f
  obtain ⟨hal, hc⟩ := hat.block hi
  have hk : LiteralKept mem₀ x.op (armPc target_addr i) s.mem := by
    intro a ha
    refine Mem.read32_congr (fun b hb => (hav b (List.mem_append_right _ ?_)).1)
    show b ∈ ((x.op.literalAddr (armPc target_addr i)).map wordBytes).getD []
    rw [ha]
    exact hb
  rw [hblock] at hc hav
  have hend : InBlock s.pc (4 * (armValueBlock r v).length + 4) (s.pc + 12#32) :=
    inBlock_offset (k := 12) (by show 12 < 16; omega) (by omega)
  have hout : ∀ a ∈ jumpTargets v ++ others, ¬ InBlock s.pc 12 a :=
    fun a ha => not_inBlock_of_le (hav a (List.mem_append_left _ ha)).2
      (by show 12 ≤ 16; omega)
  refine ⟨s, s.pc + 12#32, hat.arm, hsf, hg, hk, fun hn => ?_, fun t ht htpc => ?_⟩
  · exact (hav _ (List.mem_append_left _ (List.mem_append_left _ hn))).2 hend
  · have hrun := h page s hat hsf hk t (by rw [hblock]; exact ht)
    rw [hblock] at hrun
    refine valueArm_left hal hat.arm rfl (decodeArm_ldrValue r) hc
      (fun a ha => hout a (List.mem_append_left _ ha)) ?_ hrun
    rcases htpc with htpc | htpc
    · rw [htpc]
      exact not_inBlock_end _ 12 (by omega)
    · exact hout _ (List.mem_append_right _ htpc)

/-- A value block is wrong when the condition fails. -/
theorem ArmReproduces.passed (hi : i < 2)
    (h : ArmReproduces mem₀ target_addr orig_instructions i x f)
    (hblock : armBlock mem₀ target_addr orig_instructions i = armValueBlock r v) :
    conditionPassed x.cond f = true := by
  by_contra hf
  obtain ⟨s, next, -, hsf, hg, -, hn, hw⟩ := h.exists_writeValue hi hblock (fun _ => v + 1#32) []
    (by decide)
  refine State.writeValue_ne_goto ?_ hn (hw _ (Insn.exec_of_failed ?_) (Or.inl rfl))
  · rw [hg]
    exact add_ofNat_ne v (k := 1) (by omega) (by omega)
  · rw [hsf]
    exact Bool.eq_false_iff.mpr hf

/-- **When a value instruction and its block agree**, the condition passing:
the constant of an `ADR` is not rotated, and a `MOV` that sets flags finds
them set. An `ADR` that would jump to an UNPREDICTABLE address has no effect
to agree with. -/
def armValueExact (w pc : Word) (f : Flags) : Op → Prop
  | .adr add rd imm =>
    w.extractLsb' 8 4 = 0#4 ∨ (rd = PC ∧ (offset add pc imm).toNat % 4 = 2)
  | .movReg setflags _ _ _ _ => setflags = false ∨ (f.n = pc.msb ∧ f.z = (pc == 0#32))
  | _ => True

theorem exec_movPc (setflags : Bool) (rd : Reg) (pc next : Word) (s : State) :
    Op.exec pc next s (.movReg setflags rd PC 0 0)
      = (if setflags then { s with flags := { s.flags with n := pc.msb, z := pc == 0#32 } }
          else s).writeResult next rd pc := rfl

/-- `MOV Rd, PC`. -/
theorem armMov_iff (hi : i < 2) {c : BitVec 4} {setflags : Bool} {rd : Reg}
    (hexc : ¬ (setflags = true ∧ rd = PC))
    (hblock : armBlock mem₀ target_addr orig_instructions i
      = armValueBlock rd (armPc target_addr i)) :
    ArmReproduces mem₀ target_addr orig_instructions i ⟨c, .movReg setflags rd PC 0 0⟩ f
      ↔ conditionPassed c f = true ∧ (setflags = false
          ∨ (f.n = (armPc target_addr i).msb ∧ f.z = (armPc target_addr i == 0#32))) := by
  constructor
  · intro h
    have hf := h.passed hi hblock
    refine ⟨hf, ?_⟩
    cases setflags with
    | false => exact Or.inl rfl
    | true =>
      have hrd : rd ≠ PC := fun hrd => hexc ⟨rfl, hrd⟩
      obtain ⟨s, next, -, hsf, -, -, -, hw⟩ :=
        h.exists_writeValue hi hblock (fun _ => 0) [] (by decide)
      have hex : (Insn.mk c (.movReg true rd PC 0 0)).exec (armPc target_addr i) next s
          = some ((State.setReg { s with flags := { s.flags with
              n := (armPc target_addr i).msb, z := armPc target_addr i == 0#32 } }
              rd (armPc target_addr i)).goto next) := by
        rw [Insn.exec_of_passed (by rw [hsf]; exact hf)]
        show Op.exec _ _ _ _ = _
        rw [exec_movPc, if_pos rfl, State.writeResult, if_neg hrd]
      have hfl := State.writeValue_flags (hw _ hex (Or.inl rfl))
      rw [hsf] at hfl
      exact Or.inr ⟨(congrArg Flags.n hfl).symm, (congrArg Flags.z hfl).symm⟩
  · rintro ⟨hf, hS⟩
    refine armReproduces_of_writeValue hi hblock (fun s t next hs hsf _ ht => ?_)
    rw [Insn.exec_of_passed (by rw [hsf]; exact hf)] at ht
    have hstate : (if setflags then { s with flags := { s.flags with
        n := (armPc target_addr i).msb, z := armPc target_addr i == 0#32 } } else s) = s := by
      rcases hS with rfl | ⟨hn, hz⟩
      · rfl
      · rw [← hn, ← hz, ← hsf, ite_self]
    replace ht : Op.exec (armPc target_addr i) next s (.movReg setflags rd PC 0 0) = some t := ht
    rwa [exec_movPc, hstate, State.writeResult_eq_writeValue hs] at ht

/-- `ADR`, where the block holds `v` and the architecture computes `v'`. -/
theorem armAdr_iff (hi : i < 2) {c : BitVec 4} {add : Bool} {rd : Reg} {imm : Word}
    (hpc : (armPc target_addr i).toNat % 4 = 0)
    (hblock : armBlock mem₀ target_addr orig_instructions i = armValueBlock rd v) :
    ArmReproduces mem₀ target_addr orig_instructions i ⟨c, .adr add rd imm⟩ f
      ↔ conditionPassed c f = true ∧ (v = offset add (armPc target_addr i) imm
          ∨ (rd = PC ∧ (offset add (armPc target_addr i) imm).toNat % 4 = 2)) := by
  set v' := offset add (armPc target_addr i) imm with hv'
  have hex : ∀ s next, s.thumb = false → s.flags = f → conditionPassed c f = true →
      (Insn.mk c (.adr add rd imm)).exec (armPc target_addr i) next s
        = s.writeValue next rd v' := by
    intro s next hs hsf hf
    rw [Insn.exec_of_passed (by rw [hsf]; exact hf)]
    show s.writeResult next rd (offset add (align4 _) imm) = _
    rw [align4_of_aligned hpc, State.writeResult_eq_writeValue hs]
  constructor
  · intro h
    have hf := h.passed hi hblock
    refine ⟨hf, ?_⟩
    obtain ⟨s, next, hs, hsf, -, -, -, hw⟩ :=
      h.exists_writeValue hi hblock (fun _ => 0) (jumpTargets v')
        (by rw [jumpTargets_length]; omega)
    have hex' := hex s next hs hsf hf
    -- without an effect of the original there is nothing to agree with
    cases hres : s.writeValue next rd v' with
    | some t =>
      refine Or.inl (State.writeValue_injective (hw t (hex'.trans hres) ?_) hres)
      unfold State.writeValue at hres
      by_cases hrd : rd = PC
      · rw [if_pos hrd] at hres
        exact Or.inr (pc_mem_jumpTargets hres)
      · rw [if_neg hrd] at hres
        rw [← Option.some.inj hres]
        exact Or.inl rfl
    | none =>
      unfold State.writeValue at hres
      by_cases hrd : rd = PC
      · rw [if_pos hrd] at hres
        exact Or.inr ⟨hrd, State.bxWritePC_eq_none hres⟩
      · rw [if_neg hrd] at hres
        cases hres
  · rintro ⟨hf, hvv⟩
    refine armReproduces_of_writeValue hi hblock (fun s t next hs hsf _ ht => ?_)
    rw [hex s next hs hsf hf] at ht
    rcases hvv with hvv | ⟨hrd, hmod⟩
    · rw [hvv]
      exact ht
    · rw [State.writeValue, if_pos hrd, State.bxWritePC_unaligned s hmod] at ht
      cases ht

/-- `LDR <label>`. -/
theorem armLdr_iff (hi : i < 2) {c : BitVec 4} {add : Bool} {rt : Reg} {imm : Word}
    (hpc : (armPc target_addr i).toNat % 4 = 0)
    (hblock : armBlock mem₀ target_addr orig_instructions i
      = armValueBlock rt (mem₀.read32 (offset add (armPc target_addr i) imm))) :
    ArmReproduces mem₀ target_addr orig_instructions i ⟨c, .ldrLit add rt imm⟩ f
      ↔ conditionPassed c f = true := by
  refine ⟨fun h => h.passed hi hblock, fun hf => ?_⟩
  refine armReproduces_of_writeValue hi hblock (fun s t next hs hsf hk ht => ?_)
  have hlit : s.mem.read32 (offset add (align4 (armPc target_addr i)) imm)
      = mem₀.read32 (offset add (align4 (armPc target_addr i)) imm) := hk _ rfl
  rw [Insn.exec_of_passed (by rw [hsf]; exact hf)] at ht
  replace ht : s.writeLoaded next rt (offset add (align4 (armPc target_addr i)) imm)
    (s.mem.read32 (offset add (align4 (armPc target_addr i)) imm)) = some t := ht
  rw [hlit, align4_of_aligned hpc] at ht
  unfold State.writeLoaded at ht
  unfold State.writeValue
  by_cases hrt : rt = PC
  · rw [if_pos hrt] at ht ⊢
    by_cases ha : align4 (offset add (armPc target_addr i) imm)
        = offset add (armPc target_addr i) imm
    · rwa [if_pos ha] at ht
    · rw [if_neg ha] at ht
      cases ht
  · rwa [if_neg hrt] at ht ⊢

/-- **A relocated ARM value instruction has the effect of the instruction
exactly when its condition passes and it is one the block is exact for.** -/
theorem armValue_iff (hi : i < 2) (htarget : target_addr.toNat % 4 = 0)
    (hx : decodeArm (orig_instructions i) = some x) (hv : isArmValue x.op = true) (f : Flags) :
    ArmReproduces mem₀ target_addr orig_instructions i x f
      ↔ conditionPassed x.cond f = true
        ∧ armValueExact (orig_instructions i) (armPc target_addr i) f x.op := by
  have hpc : (armPc target_addr i).toNat % 4 = 0 := armPc_aligned htarget
  rcases armValue_cases hx hv with ⟨hm, hexc, rfl⟩ | ⟨hm, rfl⟩ | ⟨hm, rfl⟩ | ⟨hm, rfl⟩
  · refine armMov_iff hi (fun h => ?_) (relocateWordInArm_mov mem₀ _ hm)
    rw [exceptionReturn, h.1, h.2] at hexc
    cases hexc
  · rw [armAdr_iff hi hpc (relocateWordInArm_adr1 mem₀ _ hm)]
    refine and_congr Iff.rfl (or_congr ?_ Iff.rfl)
    rw [← extract_imm12, ← armExpandImm_eq_iff, eq_comm]
    exact offset_inj true
  · rw [armAdr_iff hi hpc (relocateWordInArm_adr2 mem₀ _ hm)]
    refine and_congr Iff.rfl (or_congr ?_ Iff.rfl)
    rw [← extract_imm12, ← armExpandImm_eq_iff, eq_comm]
    exact offset_inj false
  · rw [armLdr_iff hi hpc (relocateWordInArm_ldr mem₀ _ hm)]
    exact (and_iff_left trivial).symm

/-- `LDREQ R0, [PC, #4]` with the zero flag set. -/
theorem armValue_iff_ldr :
    ArmReproduces (fun _ => 0) 0x8000#32 (fun _ => 0x059F0004#32) 0
        ⟨0b0000#4, .ldrLit true 0#4 4#32⟩ ⟨false, true, false, false⟩
      ↔ conditionPassed 0b0000#4 ⟨false, true, false, false⟩ = true
        ∧ armValueExact 0x059F0004#32 (armPc 0x8000#32 0) ⟨false, true, false, false⟩
          (.ldrLit true 0#4 4#32) :=
  armValue_iff (x := ⟨0b0000#4, .ldrLit true 0#4 4#32⟩) (by decide) (by decide) (by decide)
    (by decide) _

/-- `ADD R0, PC, #4`, whose constant is encoded as 1 rotated right by 30: the
block leaves the program counter plus the encoding. -/
theorem armAdr_rotated :
    decodeArm 0xE28F0F01#32 = some ⟨always, .adr true 0#4 4#32⟩
      ∧ ¬ ArmReproduces (fun _ => 0) 0x8000#32 (fun _ => 0xE28F0F01#32) 0
        ⟨always, .adr true 0#4 4#32⟩ ⟨false, false, false, false⟩ := by
  refine ⟨by decide, fun h => ?_⟩
  have hblock : armBlock (fun _ => 0) 0x8000#32 (fun _ => 0xE28F0F01#32) 0
      = armValueBlock 0#4 0x8F09#32 := by decide
  rcases ((armAdr_iff (by decide) (by decide) hblock).mp h).2 with h | h
  · exact absurd h (by decide)
  · exact absurd h.1 (by decide)

end ValueBlocks

end Relocate
