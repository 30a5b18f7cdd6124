import AndroidReverse.RelocateAdd
import AndroidReverse.RelocateClassify
import AndroidReverse.RelocateLayout
import AndroidReverse.ThumbFlow

/-!
# The shapes of the Thumb blocks

What the relocator emits for a Thumb instruction is one of eight sequences of
instructions, with a literal behind it unless the instruction was copied. The
sequences are `BlockShape.code`; which one an instruction gets is `thumbShape`,
and `thumbInsnBlock_shape` says that its block is that sequence and a literal.

Everything that is asked of a block alone is then a question about a finite
number of instructions: what they load from the code and where they go on
(`sound_of_hasLiteral`, and the flows of the shapes below it).
-/

namespace Relocate

open Arm PatternTable

/-- **The shapes of the blocks.** -/
inductive BlockShape where
  /-- `LDR.W PC`. -/
  | jump
  /-- The link register set to the end of the block, and `LDR.W PC`. -/
  | call
  /-- A load and a branch over the literal. -/
  | value (r : BitVec 3)
  /-- `B<c>` around a branch to the end, and `LDR.W PC`. -/
  | condBranch (c : BitVec 4)
  /-- The same with `CBZ` or `CBNZ`. -/
  | compareBranch (nonzero : Bool) (r : BitVec 3)
  /-- An addition with a scratch register. -/
  | add (rdn : Reg)
  /-- A table branch with two scratch registers. -/
  | table (wide : Bool) (rm : Reg)
  /-- A copied instruction. -/
  | copy (x : ThumbInsn)

/-- `LDR.W PC, [PC]`. -/
def ldrPcInsn : ThumbInsn := .wide 0xF8DF#16 0xF000#16

/-- The instructions of a block. -/
def BlockShape.code : BlockShape → List ThumbInsn
  | .jump => [ldrPcInsn]
  | .call => [.wide 0xF20F#16 0x0E09#16, ldrPcInsn]
  | .value r => [.narrow (0x4800#16 ||| (r.setWidth 16 <<< 8)), .narrow 0xE001#16]
  | .condBranch c => [.narrow (condGuard c), .narrow 0xE003#16, ldrPcInsn]
  | .compareBranch nonzero r => [.narrow (cbGuard nonzero r), .narrow 0xE003#16, ldrPcInsn]
  | .add rdn =>
    let r : Word := (addR rdn).setWidth 32
    [.narrow (store16 (0xB400#32 ||| (1#32 <<< r))), .narrow (store16 (0x4802#32 ||| (r <<< 8))),
      .narrow (store16 ((0x4400#32 ||| ((rdn.setWidth 32 &&& 0x8#32) <<< 4)
        ||| (rdn.setWidth 32 &&& 0x7#32)) ||| (r <<< 3))),
      .narrow (store16 (0xBC00#32 ||| (1#32 <<< r))), .narrow 0xE002#16, .nop]
  | .table wide rm =>
    let r : Word := (tableR rm).setWidth 32
    let rx : Word := (tableRx rm).setWidth 32
    [.narrow (store16 (0xB400#32 ||| (1#32 <<< rx))), .narrow (store16 (0x4805#32 ||| (r <<< 8))),
      .narrow (store16 (0x4600#32 ||| (rm.setWidth 32 <<< 3) ||| rx)),
      .wide (store16 (0xEB00#32 ||| r))
        (store16 ((if wide then 0x0040#32 else 0x0000#32) ||| (rx <<< 8) ||| rx)),
      .narrow (store16 ((if wide then 0x8800#32 else 0x7800#32) ||| (rx <<< 3) ||| rx)),
      .wide (store16 (0xEB00#32 ||| r)) (store16 (0x0040#32 ||| (r <<< 8) ||| rx)),
      .narrow (store16 (0x3001#32 ||| (r <<< 8))), .narrow (store16 (0xBC00#32 ||| (1#32 <<< rx))),
      .narrow (store16 (0x4700#32 ||| (r <<< 3))), .nop]
  | .copy x => pad x

/-- Whether a literal stands behind the instructions. -/
def BlockShape.hasLiteral : BlockShape → Bool
  | .copy _ => false
  | _ => true

/-- **The shape of the block of an instruction.** -/
def thumbShape : ThumbInsn → BlockShape
  | .narrow w =>
    match getTypeInThumb16 w with
    | .b1Thumb16 => .condBranch (w.extractLsb' 8 4)
    | .b2Thumb16 => .jump
    | .bxThumb16 => .jump
    | .addThumb16 => .add (highReg w)
    | .movThumb16 => .value (w.extractLsb' 0 3)
    | .adrThumb16 => .value (w.extractLsb' 8 3)
    | .ldrThumb16 => .value (w.extractLsb' 8 3)
    | .cbThumb16 => .compareBranch (w.getLsbD 11) (w.extractLsb' 0 3)
    | _ => .copy (.narrow w)
  | .wide high low =>
    match getTypeInThumb32 (high ++ low) with
    | .blxThumb32 => .call
    | .blThumb32 => .call
    | .b1Thumb32 => .condBranch (armReg (high ++ low) 22)
    | .b2Thumb32 => .jump
    | .adr1Thumb32 => .value ((armReg (high ++ low) 8).extractLsb' 0 3)
    | .adr2Thumb32 => .value ((armReg (high ++ low) 8).extractLsb' 0 3)
    | .ldrThumb32 => .value ((armReg (high ++ low) 12).extractLsb' 0 3)
    | .tbbThumb32 => .table false (low.extractLsb' 0 4)
    | .tbhThumb32 => .table true (low.extractLsb' 0 4)
    | _ => .copy (.wide high low)

/-! ## The blocks have these shapes -/

/-- The halfword of an addition of the program counter. -/
theorem eq_addPcHalf {w : Half} (h : w &&& 0xFF78#16 = 0x4478#16) : w = addPcHalf (highReg w) := by
  have hhi : w.extractLsb' 7 1 = (highReg w).extractLsb' 3 1 := by
    rw [highReg]
    exact (BitVec.extractLsb'_append_eq_left).symm
  have hlo : w.extractLsb' 0 3 = (highReg w).extractLsb' 0 3 := by
    rw [highReg]
    exact (BitVec.extractLsb'_append_eq_right).symm
  have hw := mask_union (mask_union h (mask_of_extract 7 1 hhi)) (mask_of_extract 0 3 hlo)
  have hones : w &&& BitVec.allOnes 16 = w := BitVec.and_allOnes
  calc w = w &&& BitVec.allOnes 16 := hones.symm
    _ = _ := hw
    _ = addPcHalf (highReg w) := by rw [BitVec.shiftLeft_zero]; rfl

/-- A block as its shape says. -/
def BlockShape.Emits (S : BlockShape) (block : List Half) : Prop :=
  ∃ v : Word, block = S.code.flatMap ThumbInsn.toHalves
    ++ if S.hasLiteral then [lowHalf v, highHalf v] else []

/-- The blocks of the shapes. -/
theorem emits_jump (v : Word) :
    BlockShape.jump.Emits [0xF8DF#16, 0xF000#16, lowHalf v, highHalf v] := ⟨v, rfl⟩

theorem emits_call (v : Word) :
    BlockShape.call.Emits [0xF20F#16, 0x0E09#16, 0xF8DF#16, 0xF000#16, lowHalf v, highHalf v] :=
  ⟨v, rfl⟩

theorem emits_value (r : BitVec 3) (v : Word) :
    (BlockShape.value r).Emits (thumbValueBlock r v) := ⟨v, rfl⟩

theorem emits_condBranch (c : BitVec 4) (v : Word) :
    (BlockShape.condBranch c).Emits
      [condGuard c, 0xE003#16, 0xF8DF#16, 0xF000#16, lowHalf v, highHalf v] := ⟨v, rfl⟩

theorem emits_compareBranch (nonzero : Bool) (r : BitVec 3) (v : Word) :
    (BlockShape.compareBranch nonzero r).Emits
      [cbGuard nonzero r, 0xE003#16, 0xF8DF#16, 0xF000#16, lowHalf v, highHalf v] := ⟨v, rfl⟩

theorem emits_add (rdn : Reg) (v : Word) : (BlockShape.add rdn).Emits (addBlock rdn v) := ⟨v, rfl⟩

theorem emits_table (wide : Bool) (rm : Reg) (v : Word) :
    (BlockShape.table wide rm).Emits (tableBlock wide rm v) := ⟨v, rfl⟩

theorem emits_copy (x : ThumbInsn) : (BlockShape.copy x).Emits (padHalves x) := by
  cases x <;> exact ⟨0#32, rfl⟩

theorem relocateInstructionInThumb16_shape (mem : Mem) (pc : Word) (w : Half) :
    (thumbShape (.narrow w)).Emits (relocateInstructionInThumb16 mem pc w) := by
  by_cases hu : getTypeInThumb16 w = .undefine
  · rw [thumbShape, hu, relocateInstructionInThumb16_verbatim mem pc hu]
    exact emits_copy _
  rw [getTypeInThumb16_eq] at hu
  obtain ⟨r, hr, hm, ht⟩ := exists_of_lookup_ne hu
  rw [← getTypeInThumb16_eq] at ht
  simp only [thumb16Types, List.mem_cons, List.not_mem_nil, or_false] at hr
  rcases hr with rfl | rfl | rfl | rfl | rfl | rfl | rfl | rfl
  · rw [thumbShape, ht, relocateInstructionInThumb16_b1 mem pc hm]
    exact emits_condBranch _ _
  · rw [thumbShape, ht, relocateInstructionInThumb16_b2 mem pc hm]
    exact emits_jump _
  · rw [thumbShape, ht]
    unfold relocateInstructionInThumb16
    simp only [ht, ldrPc_eq]
    exact emits_jump _
  · have hb := relocateInstructionInThumb16_add mem pc (highReg w)
    rw [← eq_addPcHalf hm] at hb
    rw [thumbShape, ht, hb]
    exact emits_add _ _
  · rw [thumbShape, ht, relocateInstructionInThumb16_mov mem pc hm]
    exact emits_value _ _
  · rw [thumbShape, ht, relocateInstructionInThumb16_adr mem pc hm]
    exact emits_value _ _
  · rw [thumbShape, ht, relocateInstructionInThumb16_ldr mem pc hm]
    exact emits_value _ _
  · rw [thumbShape, ht, relocateInstructionInThumb16_cb mem pc hm]
    exact emits_compareBranch _ _ _

/-- A `BLX` is called like a `BL`, whatever its last bit. -/
theorem relocateInstructionInThumb32_blx_call (mem : Mem) (pc : Word) {high low : Half}
    (ht : getTypeInThumb32 (high ++ low) = .blxThumb32) :
    ∃ v, relocateInstructionInThumb32 mem pc high low
      = [0xF20F#16, 0x0E09#16, 0xF8DF#16, 0xF000#16, lowHalf v, highHalf v] := by
  unfold relocateInstructionInThumb32
  simp only [instructionWord, ht, ldrPc_eq]
  exact ⟨_, rfl⟩

theorem relocateInstructionInThumb32_shape (mem : Mem) (pc : Word) (high low : Half) :
    (thumbShape (.wide high low)).Emits (relocateInstructionInThumb32 mem pc high low) := by
  by_cases hu : getTypeInThumb32 (high ++ low) = .undefine
  · rw [thumbShape, hu, relocateInstructionInThumb32_verbatim mem pc
      ((congrArg getTypeInThumb32 (instructionWord high low)).trans hu)]
    exact emits_copy _
  rw [getTypeInThumb32_eq] at hu
  obtain ⟨r, hr, hm, ht⟩ := exists_of_lookup_ne hu
  rw [← getTypeInThumb32_eq] at ht
  simp only [thumb32Types, List.mem_cons, List.not_mem_nil, or_false] at hr
  rcases hr with rfl | rfl | rfl | rfl | rfl | rfl | rfl | rfl | rfl
  · obtain ⟨v, hv⟩ := relocateInstructionInThumb32_blx_call mem pc ht
    rw [thumbShape, ht, hv]
    exact emits_call v
  · rw [thumbShape, ht, relocateInstructionInThumb32_bl mem pc hm]
    exact emits_call _
  · rw [thumbShape, ht, relocateInstructionInThumb32_b1 mem pc hm]
    exact emits_condBranch _ _
  · rw [thumbShape, ht, relocateInstructionInThumb32_b2 mem pc hm]
    exact emits_jump _
  · rw [thumbShape, ht, relocateInstructionInThumb32_adr1 mem hm]
    exact emits_value _ _
  · rw [thumbShape, ht, relocateInstructionInThumb32_adr2 mem hm]
    exact emits_value _ _
  · rw [thumbShape, ht, relocateInstructionInThumb32_ldr mem hm]
    exact emits_value _ _
  · rw [thumbShape, ht, relocateInstructionInThumb32_tbb mem pc ht]
    exact emits_table _ _ _
  · rw [thumbShape, ht, relocateInstructionInThumb32_tbh mem pc ht]
    exact emits_table _ _ _

/-- **A block is the instructions of its shape, with a literal unless the
instruction was copied.** -/
theorem thumbInsnBlock_shape (mem : Mem) (pc : Word) (x : ThumbInsn) :
    (thumbShape x).Emits (thumbInsnBlock mem pc x) := by
  cases x with
  | narrow w => exact relocateInstructionInThumb16_shape mem pc w
  | wide high low => exact relocateInstructionInThumb32_shape mem pc high low

/-- The halfwords of a block. -/
def BlockShape.size (S : BlockShape) : ℕ := codeHalves S.code + if S.hasLiteral then 2 else 0

theorem BlockShape.Emits.length {S : BlockShape} {block : List Half} (h : S.Emits block) :
    block.length = S.size := by
  obtain ⟨v, rfl⟩ := h
  rw [List.length_append, length_flatMap_toHalves, BlockShape.size]
  cases S.hasLiteral <;> rfl

/-! ## Copied instructions -/

/-- An instruction is copied if the classifiers do not know it. -/
theorem hasLiteral_thumbShape (x : ThumbInsn) :
    (thumbShape x).hasLiteral = true ↔ ¬ Verbatim x := by
  cases x with
  | narrow w =>
    have hv : Verbatim (.narrow w) ↔ getTypeInThumb16 w = .undefine := Iff.rfl
    rw [hv]
    by_cases hu : getTypeInThumb16 w = .undefine
    · rw [thumbShape, hu]
      exact ⟨fun h => absurd h Bool.false_ne_true, fun h => absurd rfl h⟩
    refine ⟨fun _ => hu, fun _ => ?_⟩
    rw [getTypeInThumb16_eq] at hu
    obtain ⟨r, hr, -, ht⟩ := exists_of_lookup_ne hu
    rw [← getTypeInThumb16_eq] at ht
    rw [thumbShape, ht]
    simp only [thumb16Types, List.mem_cons, List.not_mem_nil, or_false] at hr
    rcases hr with rfl | rfl | rfl | rfl | rfl | rfl | rfl | rfl <;> rfl
  | wide high low =>
    have hv : Verbatim (.wide high low) ↔ getTypeInThumb32 (high ++ low) = .undefine := by
      rw [← instructionWord]
      exact Iff.rfl
    rw [hv]
    by_cases hu : getTypeInThumb32 (high ++ low) = .undefine
    · rw [thumbShape, hu]
      exact ⟨fun h => absurd h Bool.false_ne_true, fun h => absurd rfl h⟩
    refine ⟨fun _ => hu, fun _ => ?_⟩
    rw [getTypeInThumb32_eq] at hu
    obtain ⟨r, hr, -, ht⟩ := exists_of_lookup_ne hu
    rw [← getTypeInThumb32_eq] at ht
    rw [thumbShape, ht]
    simp only [thumb32Types, List.mem_cons, List.not_mem_nil, or_false] at hr
    rcases hr with rfl | rfl | rfl | rfl | rfl | rfl | rfl | rfl | rfl <;> rfl

theorem thumbShape_of_verbatim {x : ThumbInsn} (h : Verbatim x) : thumbShape x = .copy x := by
  cases x with
  | narrow w =>
    have hu : getTypeInThumb16 w = .undefine := h
    rw [thumbShape, hu]
  | wide high low =>
    have hu : getTypeInThumb32 (high ++ low) = .undefine := by
      rw [← instructionWord]
      exact h
    rw [thumbShape, hu]

/-- The branches that the decoder reads are of a type of their own. -/
theorem not_verbatim_of_b16 {w : Half} (h : w &&& 0xF000#16 = 0xD000#16
    ∨ w &&& 0xF800#16 = 0xE000#16 ∨ w &&& 0xF500#16 = 0xB100#16 ∨ w &&& 0xF800#16 = 0xA000#16) :
    ¬ Verbatim (.narrow w) := by
  intro hv
  have hu : lookup .undefine thumb16Types w = .undefine := hv
  have hno : ∀ r ∈ thumb16Types, ¬ r.1.Matches w := fun r hr =>
    not_matches_of_lookup_eq hu hr (by decide)
  rcases h with h | h | h | h
  · exact hno (⟨0xF000, 0xD000⟩, .b1Thumb16) (by decide) h
  · exact hno (⟨0xF800, 0xE000⟩, .b2Thumb16) (by decide) h
  · exact hno (⟨0xF500, 0xB100⟩, .cbThumb16) (by decide) h
  · exact hno (⟨0xF800, 0xA000⟩, .adrThumb16) (by decide) h

theorem not_verbatim_of_b32 {high low : Half}
    (h : (high ++ low : Word) &&& 0xF800D000#32 = 0xF0008000#32
      ∨ (high ++ low : Word) &&& 0xF800D000#32 = 0xF0009000#32
      ∨ (high ++ low : Word) &&& 0xFBFF8000#32 = 0xF20F0000#32) :
    ¬ Verbatim (.wide high low) := by
  intro hv
  have hu : lookup .undefine thumb32Types (high ++ low) = .undefine := by
    rw [← getTypeInThumb32_eq, ← instructionWord]
    exact hv
  have hno : ∀ r ∈ thumb32Types, ¬ r.1.Matches (high ++ low) := fun r hr =>
    not_matches_of_lookup_eq hu hr (by decide)
  rcases h with h | h | h
  · exact hno (⟨0xF800D000, 0xF0008000⟩, .b1Thumb32) (by decide) h
  · exact hno (⟨0xF800D000, 0xF0009000⟩, .b2Thumb32) (by decide) h
  · exact hno (⟨0xFBFF8000, 0xF20F0000⟩, .adr2Thumb32) (by decide) h

/-- The 16-bit instructions that go on at a place they name. -/
theorem flow16_cases {w : Half} {y : Insn} (h : decodeThumb16 w = some y)
    (hp : y.flow.isPlain = false) :
    w &&& 0xF000#16 = 0xD000#16 ∨ w &&& 0xF800#16 = 0xE000#16 ∨ w &&& 0xF500#16 = 0xB100#16
      ∨ w &&& 0xF800#16 = 0xA000#16 := by
  obtain ⟨r, hr, hm, he, rfl⟩ := exists_row h
  simp only [thumb16Rows, thumbRow, thumbCondRow, List.mem_cons, List.not_mem_nil, or_false] at hr
  rcases hr with rfl | rfl | rfl | rfl | rfl | rfl | rfl | rfl | rfl | rfl | rfl | rfl | rfl | rfl
    | rfl | rfl | rfl | rfl | rfl | rfl | rfl
  case inl => exact Or.inl hm
  case inr.inl => exact Or.inr (Or.inl hm)
  case inr.inr.inr.inr.inr.inl => exact Or.inr (Or.inr (Or.inr hm))
  case inr.inr.inr.inr.inr.inr.inr.inl => exact Or.inr (Or.inr (Or.inl hm))
  all_goals
    dsimp only [Insn.flow] at hp
    first | cases hp | (split_ifs at hp <;> cases hp)

/-- The 32-bit ones. -/
theorem flow32_cases {w : Word} {y : Insn} (h : decodeThumb32 w = some y)
    (hp : y.flow.isPlain = false) :
    w &&& 0xF800D000#32 = 0xF0008000#32 ∨ w &&& 0xF800D000#32 = 0xF0009000#32
      ∨ w &&& 0xFBFF8000#32 = 0xF20F0000#32 := by
  obtain ⟨r, hr, hm, he, rfl⟩ := exists_row h
  simp only [thumb32Rows, thumbRow, thumbCondRow, List.mem_cons, List.not_mem_nil, or_false] at hr
  rcases hr with rfl | rfl | rfl | rfl | rfl | rfl | rfl | rfl | rfl | rfl | rfl
  case inr.inr.inl => exact Or.inl hm
  case inr.inr.inr.inl => exact Or.inr (Or.inl hm)
  case inr.inr.inr.inr.inr.inl => exact Or.inr (Or.inr hm)
  all_goals
    dsimp only [Insn.flow] at hp
    first | cases hp | (split_ifs at hp <;> cases hp)

/-- **A copied instruction goes on at no place it names.** -/
theorem isPlain_flow_of_verbatim (stops : ThumbInsn → Bool) {x : ThumbInsn} (h : Verbatim x) :
    (x.flow stops).isPlain = true := by
  rw [ThumbInsn.flow]
  cases hd : x.decode with
  | none =>
    dsimp only
    split_ifs <;> rfl
  | some y =>
    refine Bool.of_not_eq_false fun hp => ?_
    cases x with
    | narrow w => exact not_verbatim_of_b16 (flow16_cases hd hp) h
    | wide high low => exact not_verbatim_of_b32 (flow32_cases hd hp) h

/-! ## What a block asks of itself -/

/-- Whether an instruction at halfword `p.1` of a code loads no literal but the one at
halfword `lit`. -/
def ownLoad (lit : ℕ) (p : ℕ × ThumbInsn) : Bool :=
  match p.2.decode with
  | some ⟨_, .ldrLit add _ imm⟩ => add && (2 * p.1 + 4) / 4 * 4 + imm.toNat == 2 * lit
  | _ => true

/-- Whether an instruction of a block names only places in the block and the one behind
its literal. -/
def BlockShape.ownTargets (S : BlockShape) (p : ℕ × ThumbInsn) : Bool :=
  match p.2.decode with
  | some y => (y.flow.targets p.1).all fun t =>
      t == 2 * (codeHalves S.code + 2) || (placed 0 S.code).any fun q => t == 2 * q.1
  | none => true

/-- Whether a block decodes to its instructions, loads its own literal and stays where it
is. -/
def BlockShape.sound (S : BlockShape) : Bool :=
  S.code.all ThumbInsn.wellFormed
    && (placed 0 S.code).all fun p => ownLoad (codeHalves S.code) p && S.ownTargets p

/-- **Every block with a literal is sound.** -/
theorem sound_of_hasLiteral {S : BlockShape} (h : S.hasLiteral = true) : S.sound = true := by
  cases S with
  | jump => decide
  | call => decide
  | value r => exact (by decide : ∀ r, (BlockShape.value r).sound = true) r
  | condBranch c => exact (by decide +kernel : ∀ c, (BlockShape.condBranch c).sound = true) c
  | compareBranch nonzero r =>
    exact (by decide +kernel : ∀ n r, (BlockShape.compareBranch n r).sound = true) nonzero r
  | add rdn => exact (by decide +kernel : ∀ r, (BlockShape.add r).sound = true) rdn
  | table wide rm => exact (by decide +kernel : ∀ b r, (BlockShape.table b r).sound = true) wide rm
  | copy x => cases h

/-! ## The flows of the shapes -/

/-- The flows of the instructions of a block. A guard with condition 1110 or 1111 is `UDF`
or `SVC`, and an addition to the program counter itself is not an addition any more. -/
def BlockShape.codeFlows : BlockShape → List (Option Flow)
  | .jump => [some .away]
  | .call => [some (.link 9), some .away]
  | .value _ => [some .on, some (.branch false 2)]
  | .condBranch c =>
    [if c.extractLsb' 1 3 = 0b111#3 then none else some (.branch true 0), some (.branch false 6),
      some .away]
  | .compareBranch _ _ => [some (.branch true 0), some (.branch false 6), some .away]
  | .add rdn =>
    [some .on, some .on, some (if rdn = PC then .computed else .on), some .on,
      some (.branch false 4), some .on]
  | .table _ _ => List.replicate 8 (some .on) ++ [some .away, some .on]
  | .copy x => flows (pad x)

theorem flows_code (S : BlockShape) : flows S.code = S.codeFlows := by
  cases S with
  | jump => decide
  | call => decide
  | value r =>
    exact (by decide : ∀ r, flows (BlockShape.value r).code = (BlockShape.value r).codeFlows) r
  | condBranch c =>
    exact (by decide +kernel : ∀ c, flows (BlockShape.condBranch c).code
      = (BlockShape.condBranch c).codeFlows) c
  | compareBranch nonzero r =>
    exact (by decide +kernel : ∀ n r, flows (BlockShape.compareBranch n r).code
      = (BlockShape.compareBranch n r).codeFlows) nonzero r
  | add rdn =>
    exact (by decide +kernel : ∀ r, flows (BlockShape.add r).code
      = (BlockShape.add r).codeFlows) rdn
  | table wide rm =>
    exact (by decide +kernel : ∀ b r, flows (BlockShape.table b r).code
      = (BlockShape.table b r).codeFlows) wide rm
  | copy x => rfl

end Relocate
