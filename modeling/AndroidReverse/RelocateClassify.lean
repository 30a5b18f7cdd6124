import AndroidReverse.PatternTable
import AndroidReverse.RelocateThumb32
import AndroidReverse.RelocateVerbatim

/-!
# The classifiers and the architecture

`getTypeInThumb16`, `getTypeInThumb32` and `getTypeInArm` look at an instruction through
a mask for each type. The encoding tables of the architecture are read the same way, but
they have rows that the classifiers do not have: condition 1110 or 1111 is not a
condition of a Thumb branch but `UDF`, `SVC` or a control instruction; condition 1111 of
an ARM word is the space of the unconditional instructions; a data-processing instruction
that sets the flags and writes the program counter returns from an exception.

A word belongs to the instruction of its diagram unless the architecture says that it is
UNDEFINED or refers to another one. An UNPREDICTABLE choice of operands, or a bit that
should be set and is not, does not make it another instruction.

The classifiers are sound on every word outside the rows they do not have, and wrong on
every word in them (`classifiers_sound_iff`).
-/

namespace Arm

open PatternTable

/-- What the architecture calls the instructions that the relocator knows about. -/
inductive Encoding
  /-- `B` with a condition. -/
  | bCond
  | b
  /-- `BX PC`. -/
  | bxPc
  /-- `ADD` and `MOV` of the program counter, and not an exception return. -/
  | addPc
  | movPc
  | adr
  | ldrLiteral
  /-- `CBZ` and `CBNZ`. -/
  | cb
  | bl
  /-- `BLX <label>`. -/
  | blx
  /-- `TBB` and `TBH` of a table behind the instruction. -/
  | tbb
  | tbh
  /-- Any other instruction, and the words that are none. -/
  | other
  deriving DecidableEq, Repr

/-- The 16-bit encodings. -/
def thumb16Encodings : List (Pattern 16 × Encoding) :=
  [(⟨0xFE00, 0xDE00⟩, .other), -- UDF and SVC
    (⟨0xF000, 0xD000⟩, .bCond),
    (⟨0xF800, 0xE000⟩, .b),
    (⟨0xFFF8, 0x4778⟩, .bxPc),
    (⟨0xFF78, 0x4478⟩, .addPc),
    (⟨0xFF78, 0x4678⟩, .movPc),
    (⟨0xF800, 0xA000⟩, .adr),
    (⟨0xF800, 0x4800⟩, .ldrLiteral),
    (⟨0xF500, 0xB100⟩, .cb)]

/-- The 32-bit Thumb encodings. -/
def thumb32Encodings : List (Pattern 32 × Encoding) :=
  [(⟨0xF800D001, 0xF000C001⟩, .other), -- BLX with H set is UNDEFINED
    (⟨0xF800D000, 0xF000C000⟩, .blx),
    (⟨0xF800D000, 0xF000D000⟩, .bl),
    -- MSR, MRS, the hints and barriers and the other control instructions
    (⟨0xFB80D000, 0xF3808000⟩, .other),
    (⟨0xF800D000, 0xF0008000⟩, .bCond),
    (⟨0xF800D000, 0xF0009000⟩, .b),
    (⟨0xFBFF8000, 0xF2AF0000⟩, .adr),
    (⟨0xFBFF8000, 0xF20F0000⟩, .adr),
    (⟨0xFF7F0000, 0xF85F0000⟩, .ldrLiteral),
    (⟨0xFFFF00F0, 0xE8DF0000⟩, .tbb),
    (⟨0xFFFF00F0, 0xE8DF0010⟩, .tbh)]

/-- The ARM encodings. -/
def armEncodings : List (Pattern 32 × Encoding) :=
  [(⟨0xFE000000, 0xFA000000⟩, .blx),
    (⟨0x0F700000, 0x04300000⟩, .other), -- LDRT
    (⟨0x0FF0F010, 0x0090F000⟩, .other), -- ADDS PC and MOVS PC return from an exception
    (⟨0x0FF0F010, 0x01B0F000⟩, .other),
    (⟨0xF0000000, 0xF0000000⟩, .other), -- the unconditional instructions
    (⟨0x0F000000, 0x0B000000⟩, .bl),
    (⟨0x0F000000, 0x0A000000⟩, .b),
    (⟨0x0FF000FF, 0x0120001F⟩, .bxPc),
    (⟨0x0FEF0010, 0x008F0000⟩, .addPc),
    (⟨0x0FFF0000, 0x028F0000⟩, .adr),
    (⟨0x0FFF0000, 0x024F0000⟩, .adr),
    (⟨0x0E5F0000, 0x041F0000⟩, .ldrLiteral),
    (⟨0x0FE00FFF, 0x01A0000F⟩, .movPc)]

/-- The instruction of a halfword that is not the first of two. -/
def thumb16Encoding : Half → Encoding := lookup .other thumb16Encodings

/-- The instruction of two halfwords, the first one above the second. -/
def thumb32Encoding : Word → Encoding := lookup .other thumb32Encodings

/-- The instruction of an ARM word. -/
def armEncoding : Word → Encoding := lookup .other armEncodings

end Arm

namespace Relocate

open Arm PatternTable

/-- The instruction that a type names. -/
def InstructionType.encoding : InstructionType → Encoding
  | .b1Thumb16 => .bCond
  | .b2Thumb16 => .b
  | .bxThumb16 => .bxPc
  | .addThumb16 => .addPc
  | .movThumb16 => .movPc
  | .adrThumb16 => .adr
  | .ldrThumb16 => .ldrLiteral
  | .cbThumb16 => .cb
  | .blxThumb32 => .blx
  | .blThumb32 => .bl
  | .b1Thumb32 => .bCond
  | .b2Thumb32 => .b
  | .adr1Thumb32 => .adr
  | .adr2Thumb32 => .adr
  | .ldrThumb32 => .ldrLiteral
  | .tbbThumb32 => .tbb
  | .tbhThumb32 => .tbh
  | .blxArm => .blx
  | .blArm => .bl
  | .bArm => .b
  | .bxArm => .bxPc
  | .addArm => .addPc
  | .adr1Arm => .adr
  | .adr2Arm => .adr
  | .movArm => .movPc
  | .ldrArm => .ldrLiteral
  | .undefine => .other

/-! ## The classifiers as tables -/

/-- The masks of `getTypeInThumb16`. -/
def thumb16Types : List (Pattern 16 × InstructionType) :=
  [(⟨0xF000, 0xD000⟩, .b1Thumb16), (⟨0xF800, 0xE000⟩, .b2Thumb16),
    (⟨0xFFF8, 0x4778⟩, .bxThumb16), (⟨0xFF78, 0x4478⟩, .addThumb16),
    (⟨0xFF78, 0x4678⟩, .movThumb16), (⟨0xF800, 0xA000⟩, .adrThumb16),
    (⟨0xF800, 0x4800⟩, .ldrThumb16), (⟨0xF500, 0xB100⟩, .cbThumb16)]

/-- The masks of `getTypeInThumb32`. -/
def thumb32Types : List (Pattern 32 × InstructionType) :=
  [(⟨0xF800D000, 0xF000C000⟩, .blxThumb32), (⟨0xF800D000, 0xF000D000⟩, .blThumb32),
    (⟨0xF800D000, 0xF0008000⟩, .b1Thumb32), (⟨0xF800D000, 0xF0009000⟩, .b2Thumb32),
    (⟨0xFBFF8000, 0xF2AF0000⟩, .adr1Thumb32), (⟨0xFBFF8000, 0xF20F0000⟩, .adr2Thumb32),
    (⟨0xFF7F0000, 0xF85F0000⟩, .ldrThumb32), (⟨0xFFFF00F0, 0xE8DF0000⟩, .tbbThumb32),
    (⟨0xFFFF00F0, 0xE8DF0010⟩, .tbhThumb32)]

/-- The masks of `getTypeInArm`. -/
def armTypes : List (Pattern 32 × InstructionType) :=
  [(⟨0xFE000000, 0xFA000000⟩, .blxArm), (⟨0xF000000, 0xB000000⟩, .blArm),
    (⟨0xF000000, 0xA000000⟩, .bArm), (⟨0xFF000FF, 0x120001F⟩, .bxArm),
    (⟨0xFEF0010, 0x8F0000⟩, .addArm), (⟨0xFFF0000, 0x28F0000⟩, .adr1Arm),
    (⟨0xFFF0000, 0x24F0000⟩, .adr2Arm), (⟨0xE5F0000, 0x41F0000⟩, .ldrArm),
    (⟨0xFE00FFF, 0x1A0000F⟩, .movArm)]

theorem getTypeInThumb16_eq (w : Half) : getTypeInThumb16 w = lookup .undefine thumb16Types w := rfl

theorem getTypeInThumb32_eq (w : Word) : getTypeInThumb32 w = lookup .undefine thumb32Types w := rfl

/-! ## What the classifiers do not tell apart -/

/-- `UDF` and `SVC`, which are taken for a branch with condition 1110 or 1111. -/
def thumb16Misread : List (Pattern 16) := [⟨0xFE00, 0xDE00⟩]

/-- The control instructions, which are taken for such a branch too, and the words that
would be a `BLX` to a halfword. -/
def thumb32Misread : List (Pattern 32) := [⟨0xFB80D000, 0xF3808000⟩, ⟨0xF800D001, 0xF000C001⟩]

/-- The unconditional instructions that look like `BX PC`, `ADD`, `ADR`, `LDR` or `MOV`;
`ADDS PC, PC` and `MOVS PC, PC`; and `LDRT`. -/
def armMisread : List (Pattern 32) :=
  [⟨0xFFF000FF, 0xF120001F⟩, ⟨0xFFEF0010, 0xF08F0000⟩, ⟨0xFFFF0000, 0xF28F0000⟩,
    ⟨0xFFFF0000, 0xF24F0000⟩, ⟨0xFE5F0000, 0xF41F0000⟩, ⟨0xFFE00FFF, 0xF1A0000F⟩,
    ⟨0x0FFFF010, 0x009FF000⟩, ⟨0x0FF0FFFF, 0x01B0F00F⟩, ⟨0x0F7F0000, 0x043F0000⟩]

theorem thumb16Types_agree :
    agrees InstructionType.encoding .other thumb16Encodings thumb16Misread thumb16Types = true := by
  decide

theorem thumb32Types_agree :
    agrees InstructionType.encoding .other thumb32Encodings thumb32Misread thumb32Types = true := by
  decide

theorem armTypes_agree :
    agrees InstructionType.encoding .other armEncodings armMisread armTypes = true := by
  decide

theorem thumb16Misread_disagree :
    thumb16Misread.all (disagrees InstructionType.encoding .undefine .other thumb16Types
      thumb16Encodings) = true := by
  decide

theorem thumb32Misread_disagree :
    thumb32Misread.all (disagrees InstructionType.encoding .undefine .other thumb32Types
      thumb32Encodings) = true := by
  decide

theorem armMisread_disagree :
    armMisread.all (disagrees InstructionType.encoding .undefine .other armTypes
      armEncodings) = true := by
  decide

/-! ## Soundness -/

/-- `getTypeInThumb16` is sound on a halfword: if it gives it a type the halfword is the
instruction that the type names, and if it does not the halfword is copied. -/
def Thumb16Sound (w : Half) : Prop :=
  (getTypeInThumb16 w ≠ .undefine → thumb16Encoding w = (getTypeInThumb16 w).encoding)
    ∧ (getTypeInThumb16 w = .undefine →
        ∀ mem pc, relocateInstructionInThumb16 mem pc w = [w, 0xBF00#16])

/-- The same of `getTypeInThumb32` and two halfwords. -/
def Thumb32Sound (high low : Half) : Prop :=
  (getTypeInThumb32 (high ++ low) ≠ .undefine →
      thumb32Encoding (high ++ low) = (getTypeInThumb32 (high ++ low)).encoding)
    ∧ (getTypeInThumb32 (high ++ low) = .undefine →
        ∀ mem pc, relocateInstructionInThumb32 mem pc high low = [high, low])

/-- The same of `getTypeInArm` and a word. -/
def ArmSound (w : Word) : Prop :=
  (getTypeInArm w ≠ .undefine → armEncoding w = (getTypeInArm w).encoding)
    ∧ (getTypeInArm w = .undefine → ∀ mem pc, relocateWordInArm mem pc w = [w])

/-- **The classifiers are sound** on a word exactly if it is not one of those that they
do not tell from a branch or from an instruction on the program counter. -/
theorem classifiers_sound_iff (half high low : Half) (w : Word) :
    (Thumb16Sound half ↔ ∀ q ∈ thumb16Misread, ¬ q.Matches half)
      ∧ (Thumb32Sound high low ↔ ∀ q ∈ thumb32Misread, ¬ q.Matches (high ++ low))
      ∧ (ArmSound w ↔ ∀ q ∈ armMisread, ¬ q.Matches w) := by
  refine ⟨?_, ?_, ?_⟩
  · have hcopy : getTypeInThumb16 half = .undefine →
        ∀ mem pc, relocateInstructionInThumb16 mem pc half = [half, 0xBF00#16] :=
      fun h mem pc => relocateInstructionInThumb16_verbatim mem pc h
    exact (and_iff_left hcopy).trans
      (lookup_agree_iff thumb16Types_agree thumb16Misread_disagree)
  · have hcopy : getTypeInThumb32 (high ++ low) = .undefine →
        ∀ mem pc, relocateInstructionInThumb32 mem pc high low = [high, low] := by
      intro h mem pc
      refine relocateInstructionInThumb32_verbatim mem pc ?_
      rw [Verbatim, instructionWord]
      exact h
    exact (and_iff_left hcopy).trans
      (lookup_agree_iff thumb32Types_agree thumb32Misread_disagree)
  · have hcopy : getTypeInArm w = .undefine → ∀ mem pc, relocateWordInArm mem pc w = [w] := by
      intro h mem pc
      simp only [relocateWordInArm, h]
    exact (and_iff_left hcopy).trans (lookup_agree_iff armTypes_agree armMisread_disagree)

/-- `SVC #0` is taken for a branch. -/
theorem classifiers_svc :
    getTypeInThumb16 0xDF00#16 = .b1Thumb16 ∧ thumb16Encoding 0xDF00#16 = .other
      ∧ ¬ Thumb16Sound 0xDF00#16 := by
  refine ⟨rfl, rfl, fun h => ?_⟩
  have hb : thumb16Encoding 0xDF00#16 = .bCond := h.1 (by decide)
  cases hb

end Relocate
