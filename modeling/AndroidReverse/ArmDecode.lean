import AndroidReverse.ArmMachine
import Mathlib.Tactic.IntervalCases

/-!
# Decoding

The encodings of the instructions of `Arm.Op` in the three formats: ARM words,
16-bit Thumb halfwords and 32-bit Thumb instructions. Each format is a table
of patterns, and a pattern is a mask with a value, which is how the
architecture draws its encoding diagrams: the fixed bits and what they are.
The operand fields are then cut out of the word.

A word outside the patterns, or one the diagrams mark UNPREDICTABLE, decodes
to `none`. The table is not the whole architecture; what is in it is exact.

Two patterns are compared through their masks. `mask_trans` says that a
pattern implies every coarser one and `mask_conflict` that two patterns
disagreeing on a common bit exclude each other, so reading a table never
needs more than the masks. What a decoded instruction says about its word is
then one fact, `exists_row`: some row of the table matches it.
-/

namespace Arm

/-! ## Patterns -/

/-- **A pattern implies a coarser one.** -/
theorem mask_trans {n : ℕ} {x m v : BitVec n} (m' : BitVec n) (h : x &&& m = v)
    (hm : m &&& m' = m') : x &&& m' = v &&& m' := by
  rw [← h, BitVec.and_assoc, hm]

/-- **Patterns that disagree on a common bit exclude each other.** -/
theorem mask_conflict {n : ℕ} {x m v m' v' : BitVec n} (h : x &&& m = v)
    (hv : v &&& m' ≠ v' &&& m) : x &&& m' ≠ v' := by
  intro h'
  refine hv ?_
  rw [← h, ← h', BitVec.and_assoc, BitVec.and_assoc, BitVec.and_comm m m']

/-- Two patterns on disjoint fields make the pattern of their union. -/
theorem mask_union {n : ℕ} {x m v m' v' : BitVec n} (h : x &&& m = v) (h' : x &&& m' = v') :
    x &&& (m ||| m') = v ||| v' := by
  rw [BitVec.and_or_distrib_left, h, h']

/-- A field that a pattern fixes. -/
theorem mask_extract {n : ℕ} {x m v : BitVec n} (h : x &&& m = v) (lo len : ℕ)
    (hm : m.extractLsb' lo len = BitVec.allOnes len) :
    x.extractLsb' lo len = v.extractLsb' lo len := by
  rw [← h, BitVec.extractLsb'_and, hm, BitVec.and_allOnes]

/-- A field that is known makes a pattern. -/
theorem mask_of_extract {n : ℕ} {x : BitVec n} (lo len : ℕ) {v : BitVec len}
    (h : x.extractLsb' lo len = v) :
    x &&& ((BitVec.allOnes len).setWidth n <<< lo) = v.setWidth n <<< lo := by
  refine BitVec.eq_of_getLsbD_eq (fun i hi => ?_)
  rw [← h]
  simp only [BitVec.getLsbD_and, BitVec.getLsbD_shiftLeft, BitVec.getLsbD_setWidth,
    BitVec.getLsbD_allOnes, BitVec.getLsbD_extractLsb']
  by_cases hlo : i < lo
  · simp [hlo]
  · rw [show lo + (i - lo) = i from by omega]
    cases x.getLsbD i <;> simp

/-- **A row of an encoding table**: the fixed bits, and how the rest is
read. -/
structure Row (n : ℕ) where
  /-- Which bits are fixed. -/
  mask : BitVec n
  /-- What they are. -/
  value : BitVec n
  /-- The condition. -/
  cond : BitVec n → BitVec 4
  /-- The words of the pattern that are UNPREDICTABLE or belong to another
  instruction. -/
  excluded : BitVec n → Bool
  /-- The operation. -/
  op : BitVec n → Op

/-- Decode a word by the first row it matches. -/
def decodeBy {n : ℕ} : List (Row n) → BitVec n → Option Insn
  | [], _ => none
  | r :: rs, w =>
    if w &&& r.mask = r.value then (if r.excluded w then none else some ⟨r.cond w, r.op w⟩)
    else decodeBy rs w

/-- **A decoded instruction was read off a matching row.** -/
theorem exists_row {n : ℕ} {rows : List (Row n)} {w : BitVec n} {x : Insn}
    (h : decodeBy rows w = some x) :
    ∃ r ∈ rows, w &&& r.mask = r.value ∧ r.excluded w = false ∧ x = ⟨r.cond w, r.op w⟩ := by
  induction rows with
  | nil => cases h
  | cons r rs ih =>
    rw [decodeBy] at h
    by_cases hm : w &&& r.mask = r.value
    · rw [if_pos hm] at h
      by_cases he : r.excluded w = true
      · rw [if_pos he] at h
        cases h
      · rw [if_neg he] at h
        exact ⟨r, List.mem_cons_self, hm, Bool.eq_false_iff.mpr he, (Option.some.inj h).symm⟩
    · rw [if_neg hm] at h
      obtain ⟨r', hr', h'⟩ := ih h
      exact ⟨r', List.mem_cons_of_mem r hr', h'⟩

/-- **A word of a pattern is read by its row**, if the rows in front of it
disagree with the pattern. -/
theorem decodeBy_of_mask {n : ℕ} (rows : List (Row n)) (k : ℕ) {r : Row n} {w m v : BitVec n}
    (hr : rows[k]? = some r) (h : w &&& m = v) (hm : m &&& r.mask = r.mask)
    (hv : v &&& r.mask = r.value) (hb : ∀ r' ∈ rows.take k, v &&& r'.mask ≠ r'.value &&& m) :
    decodeBy rows w = if r.excluded w then none else some ⟨r.cond w, r.op w⟩ := by
  induction k generalizing rows with
  | zero =>
    cases rows with
    | nil => cases hr
    | cons r' rows =>
      obtain rfl := Option.some.inj hr
      rw [decodeBy, if_pos ((mask_trans r'.mask h hm).trans hv)]
  | succ k ih =>
    cases rows with
    | nil => cases hr
    | cons r' rows =>
      rw [decodeBy, if_neg (mask_conflict h (hb r' List.mem_cons_self))]
      exact ih rows hr (fun r'' hr'' => hb r'' (List.mem_cons_of_mem r' hr''))

/-! ## Immediates -/

/-- `ARMExpandImm`: an eight-bit constant rotated right by twice the
four-bit rotation. -/
def armExpandImm (imm12 : BitVec 12) : Word :=
  ((imm12.extractLsb' 0 8).setWidth 32).rotateRight (2 * (imm12.extractLsb' 8 4).toNat)

/-- The offset of an ARM `B` or `BL`: `SignExtend(imm24:'00')`. -/
def armBranchOffset (w : Word) : Word := (w.extractLsb' 0 24 ++ 0b00#2).signExtend 32

/-- The offset of an ARM `BLX`: `SignExtend(imm24:H:'0')`. -/
def armBlxOffset (w : Word) : Word :=
  (w.extractLsb' 0 24 ++ w.extractLsb' 24 1 ++ 0b0#1).signExtend 32

/-- `S:I1:I2` of a 32-bit Thumb branch, with `I = NOT(J EOR S)`. -/
def thumbSII (w : Word) : BitVec 3 :=
  let s := w.getLsbD 26
  BitVec.ofBool s ++ (BitVec.ofBool (!(w.getLsbD 13 ^^ s)) ++ BitVec.ofBool (!(w.getLsbD 11 ^^ s)))

/-- The offset of `BL` and `B.W` T4: `SignExtend(S:I1:I2:imm10:imm11:'0')`. -/
def thumbBranchOffset (w : Word) : Word :=
  (thumbSII w ++ (w.extractLsb' 16 10 ++ (w.extractLsb' 0 11 ++ 0b0#1))).signExtend 32

/-- The offset of `BLX`: `SignExtend(S:I1:I2:imm10H:imm10L:'00')`. -/
def thumbBlxOffset (w : Word) : Word :=
  (thumbSII w ++ (w.extractLsb' 16 10 ++ (w.extractLsb' 1 10 ++ 0b00#2))).signExtend 32

/-- The offset of `B<c>.W` T3: `SignExtend(S:J2:J1:imm6:imm11:'0')`. -/
def thumbCondBranchOffset (w : Word) : Word :=
  (w.extractLsb' 26 1 ++ (w.extractLsb' 11 1 ++ (w.extractLsb' 13 1 ++
    (w.extractLsb' 16 6 ++ (w.extractLsb' 0 11 ++ 0b0#1))))).signExtend 32

/-- The constant of `ADR.W`: `ZeroExtend(i:imm3:imm8)`. -/
def thumbImm12 (w : Word) : Word :=
  (w.extractLsb' 26 1 ++ (w.extractLsb' 12 3 ++ w.extractLsb' 0 8)).setWidth 32

/-- The registers of a register list, in ascending order. -/
def regList (bits : BitVec 16) : List Reg :=
  ((List.range 16).filter bits.getLsbD).map (BitVec.ofNat 4)

/-! ## ARM -/

/-- The register fields of a word. -/
def armReg (w : Word) (k : ℕ) : Reg := w.extractLsb' k 4

/-- A conditional row: field 1111 is the space of the unconditional
instructions. -/
def armRow (mask value : Word) (excluded : Word → Bool) (op : Word → Op) : Row 32 :=
  ⟨mask, value, fun w => armReg w 28, fun w => armReg w 28 = 0b1111#4 || excluded w, op⟩

/-- A data-processing instruction that sets the flags and writes the program
counter is an exception return. -/
def exceptionReturn (w : Word) : Bool := w.getLsbD 20 && armReg w 12 == PC

/-- Whether a transfer writes its base back. -/
def armWback (w : Word) : Bool := !w.getLsbD 24 || w.getLsbD 21

/-- The transfers not read here: the unprivileged ones, a base that is the
program counter, a written-back base that is also transferred. -/
def armTransferExcluded (w : Word) : Bool :=
  (!w.getLsbD 24 && w.getLsbD 21) || armReg w 16 == PC
    || (armWback w && armReg w 16 == armReg w 12)

/-- The ARM table. The first row is the only unconditional instruction read. -/
def armRows : List (Row 32) :=
  [⟨0xFE000000, 0xFA000000, fun _ => always, fun _ => false, fun w => .blx (armBlxOffset w)⟩,
    armRow 0x0F000000 0x0B000000 (fun _ => false) (fun w => .bl (armBranchOffset w)),
    armRow 0x0F000000 0x0A000000 (fun _ => false) (fun w => .b (armBranchOffset w)),
    armRow 0x0FFFFFF0 0x012FFF10 (fun _ => false) (fun w => .bx (armReg w 0)),
    armRow 0x0FE00010 0x00800000 exceptionReturn (fun w => .addReg (w.getLsbD 20) (armReg w 12)
      (armReg w 16) (armReg w 0) (w.extractLsb' 5 2) (w.extractLsb' 7 5)),
    armRow 0x0FEF0010 0x01A00000 exceptionReturn (fun w => .movReg (w.getLsbD 20) (armReg w 12)
      (armReg w 0) (w.extractLsb' 5 2) (w.extractLsb' 7 5)),
    armRow 0x0FFF0000 0x028F0000 (fun _ => false)
      (fun w => .adr true (armReg w 12) (armExpandImm (w.extractLsb' 0 12))),
    armRow 0x0FFF0000 0x024F0000 (fun _ => false)
      (fun w => .adr false (armReg w 12) (armExpandImm (w.extractLsb' 0 12))),
    armRow 0x0FE00000 0x02800000 exceptionReturn (fun w => .addImm (w.getLsbD 20) (armReg w 12)
      (armReg w 16) (armExpandImm (w.extractLsb' 0 12))),
    armRow 0x0F7F0000 0x051F0000 (fun _ => false)
      (fun w => .ldrLit (w.getLsbD 23) (armReg w 12) ((w.extractLsb' 0 12).setWidth 32)),
    armRow 0x0E500000 0x04100000 armTransferExcluded (fun w => .ldr .word (w.getLsbD 24)
      (w.getLsbD 23) (armWback w) (armReg w 12) (armReg w 16) ((w.extractLsb' 0 12).setWidth 32)),
    armRow 0x0E500000 0x04000000 armTransferExcluded (fun w => .str .word (w.getLsbD 24)
      (w.getLsbD 23) (armWback w) (armReg w 12) (armReg w 16) ((w.extractLsb' 0 12).setWidth 32)),
    -- a subtraction that sets no flag is the addition of the negated constant
    armRow 0x0FF00000 0x02400000 (fun _ => false) (fun w => .addImm false (armReg w 12)
      (armReg w 16) (-armExpandImm (w.extractLsb' 0 12)))]

/-- **Decode an ARM word.** -/
def decodeArm (w : Word) : Option Insn := decodeBy armRows w

/-! ## Thumb -/

/-- Whether a halfword is the first of a 32-bit instruction. -/
def isThumb32 (w : Half) : Bool := 0x1D#16 ≤ w >>> 11

/-- Whether there is another halfword is up to the five upper bits. -/
theorem isThumb32_of_mask {w v : Half} (h : w &&& 0xF800#16 = v) : isThumb32 w = isThumb32 v := by
  have hs : ∀ u : Half, u >>> 11 = (u &&& 0xF800#16) >>> 11 := by
    intro u
    rw [BitVec.ushiftRight_and_distrib, show 0xF800#16 >>> 11 = BitVec.allOnes 16 >>> 11 from rfl,
      ← BitVec.ushiftRight_and_distrib, BitVec.and_allOnes]
  have hv : v &&& 0xF800#16 = v := by rw [← h, BitVec.and_assoc, BitVec.and_self]
  unfold isThumb32
  rw [hs w, hs v, h, hv]

/-- An unconditional row. -/
def thumbRow {n : ℕ} (mask value : BitVec n) (excluded : BitVec n → Bool) (op : BitVec n → Op) :
    Row n :=
  ⟨mask, value, fun _ => always, excluded, op⟩

/-- The row of a conditional branch. In a halfword condition 1110 is `UDF` and
1111 is `SVC`; in a 32-bit instruction both are the control instructions. -/
def thumbCondRow {n : ℕ} (mask value : BitVec n) (cond : BitVec n → BitVec 4)
    (off : BitVec n → Word) : Row n :=
  ⟨mask, value, cond, fun w => (cond w).extractLsb' 1 3 == 0b111#3, fun w => .b (off w)⟩

/-- A three-bit register field of a halfword. -/
def lowReg (w : Half) (k : ℕ) : Reg := (w.extractLsb' k 3).setWidth 4

/-- The split register field of the high-register instructions: bit 7 on top
of the low three. -/
def highReg (w : Half) : Reg := w.extractLsb' 7 1 ++ w.extractLsb' 0 3

/-- The eight-bit constant of a halfword. -/
def thumbImm8 (w : Half) : Word := (w.extractLsb' 0 8).setWidth 32

/-- The seven-bit constant of an instruction on the stack pointer. -/
def thumbImm7 (w : Half) : Word := (w.extractLsb' 0 7).setWidth 32

/-- The registers a `PUSH` stores: bit 8 is the link register. -/
def pushList (w : Half) : List Reg :=
  regList ((w.extractLsb' 8 1 ++ (0#6 ++ w.extractLsb' 0 8)).setWidth 16)

/-- The registers a `POP` loads: bit 8 is the program counter. -/
def popList (w : Half) : List Reg := regList (w.extractLsb' 8 1 ++ (0#7 ++ w.extractLsb' 0 8))

/-- The table of the 16-bit instructions. -/
def thumb16Rows : List (Row 16) :=
  [thumbCondRow 0xF000 0xD000 (fun w => w.extractLsb' 8 4)
      (fun w => (w.extractLsb' 0 8 ++ 0b0#1).signExtend 32),
    thumbRow 0xF800 0xE000 (fun _ => false)
      (fun w => .b ((w.extractLsb' 0 11 ++ 0b0#1).signExtend 32)),
    thumbRow 0xFF87 0x4700 (fun _ => false) (fun w => .bx (w.extractLsb' 3 4)),
    thumbRow 0xFF00 0x4400 (fun w => highReg w == PC && w.extractLsb' 3 4 == PC)
      (fun w => .addReg false (highReg w) (highReg w) (w.extractLsb' 3 4) 0 0),
    thumbRow 0xFF00 0x4600 (fun _ => false)
      (fun w => .movReg false (highReg w) (w.extractLsb' 3 4) 0 0),
    thumbRow 0xF800 0xA000 (fun _ => false)
      (fun w => .adr true (lowReg w 8) (thumbImm8 w <<< 2)),
    thumbRow 0xF800 0x4800 (fun _ => false)
      (fun w => .ldrLit true (lowReg w 8) (thumbImm8 w <<< 2)),
    thumbRow 0xF500 0xB100 (fun _ => false) (fun w => .cb (w.getLsbD 11) (lowReg w 0)
      ((w.extractLsb' 9 1 ++ (w.extractLsb' 3 5 ++ 0b0#1)).setWidth 32)),
    thumbRow 0xF800 0x3000 (fun _ => false)
      (fun w => .addImm true (lowReg w 8) (lowReg w 8) (thumbImm8 w)),
    thumbRow 0xFE00 0xB400 (fun w => pushList w == []) (fun w => .push (pushList w)),
    thumbRow 0xFE00 0xBC00 (fun w => popList w == []) (fun w => .pop (popList w)),
    thumbRow 0xF800 0x7800 (fun _ => false) (fun w => .ldr .byte true true false (lowReg w 0)
      (lowReg w 3) ((w.extractLsb' 6 5).setWidth 32)),
    thumbRow 0xF800 0x8800 (fun _ => false) (fun w => .ldr .half true true false (lowReg w 0)
      (lowReg w 3) ((w.extractLsb' 6 5 ++ 0b0#1).setWidth 32)),
    thumbRow 0xFFFF 0xBF00 (fun _ => false) (fun _ => .nop),
    thumbRow 0xF800 0x6800 (fun _ => false) (fun w => .ldr .word true true false (lowReg w 0)
      (lowReg w 3) ((w.extractLsb' 6 5 ++ 0b00#2).setWidth 32)),
    thumbRow 0xF800 0x9000 (fun _ => false)
      (fun w => .str .word true true false (lowReg w 8) SP (thumbImm8 w <<< 2)),
    thumbRow 0xF800 0x9800 (fun _ => false)
      (fun w => .ldr .word true true false (lowReg w 8) SP (thumbImm8 w <<< 2)),
    thumbRow 0xF800 0xA800 (fun _ => false)
      (fun w => .addImm false (lowReg w 8) SP (thumbImm8 w <<< 2)),
    thumbRow 0xFF80 0xB000 (fun _ => false) (fun w => .addImm false SP SP (thumbImm7 w <<< 2)),
    thumbRow 0xFF80 0xB080 (fun _ => false) (fun w => .addImm false SP SP (-(thumbImm7 w <<< 2))),
    thumbRow 0xFF87 0x4780 (fun w => w.extractLsb' 3 4 == PC)
      (fun w => .blxReg (w.extractLsb' 3 4))]

/-- **Decode a 16-bit Thumb instruction.** -/
def decodeThumb16 (w : Half) : Option Insn := decodeBy thumb16Rows w

/-- The stack pointer and the program counter, which most 32-bit Thumb
instructions cannot name. -/
def badReg (r : Reg) : Bool := r == SP || r == PC

/-- The indexed transfers not read here: the unprivileged one, the one that
neither indexes nor writes back, a written-back base that is also
transferred. -/
def thumbTransferExcluded (w : Word) : Bool :=
  (w.getLsbD 10 && w.getLsbD 9 && !w.getLsbD 8) || (!w.getLsbD 10 && !w.getLsbD 8)
    || (w.getLsbD 8 && armReg w 16 == armReg w 12)

/-- The table of the 32-bit instructions. -/
def thumb32Rows : List (Row 32) :=
  [thumbRow 0xF800D001 0xF000C000 (fun _ => false) (fun w => .blx (thumbBlxOffset w)),
    thumbRow 0xF800D000 0xF000D000 (fun _ => false) (fun w => .bl (thumbBranchOffset w)),
    thumbCondRow 0xF800D000 0xF0008000 (fun w => armReg w 22) thumbCondBranchOffset,
    thumbRow 0xF800D000 0xF0009000 (fun _ => false) (fun w => .b (thumbBranchOffset w)),
    thumbRow 0xFBFF8000 0xF2AF0000 (fun w => badReg (armReg w 8))
      (fun w => .adr false (armReg w 8) (thumbImm12 w)),
    thumbRow 0xFBFF8000 0xF20F0000 (fun w => badReg (armReg w 8))
      (fun w => .adr true (armReg w 8) (thumbImm12 w)),
    thumbRow 0xFF7F0000 0xF85F0000 (fun _ => false)
      (fun w => .ldrLit (w.getLsbD 23) (armReg w 12) ((w.extractLsb' 0 12).setWidth 32)),
    thumbRow 0xFFF0FFE0 0xE8D0F000 (fun w => armReg w 16 == SP || badReg (armReg w 0))
      (fun w => .tb (w.getLsbD 4) (armReg w 16) (armReg w 0)),
    -- the forms on the stack pointer and the compare have patterns of their own
    thumbRow 0xFFE08000 0xEB000000
      (fun w => badReg (armReg w 0) || badReg (armReg w 8) || badReg (armReg w 16))
      (fun w => .addReg (w.getLsbD 20) (armReg w 8) (armReg w 16) (armReg w 0)
        (w.extractLsb' 4 2) (w.extractLsb' 12 3 ++ w.extractLsb' 6 2)),
    thumbRow 0xFFF00000 0xF8D00000 (fun _ => false) (fun w => .ldr .word true true false
      (armReg w 12) (armReg w 16) ((w.extractLsb' 0 12).setWidth 32)),
    thumbRow 0xFFF00800 0xF8500800 thumbTransferExcluded (fun w => .ldr .word (w.getLsbD 10)
      (w.getLsbD 9) (w.getLsbD 8) (armReg w 12) (armReg w 16) ((w.extractLsb' 0 8).setWidth 32))]

/-- **Decode a 32-bit Thumb instruction**, given as its first halfword above
its second. -/
def decodeThumb32 (w : Word) : Option Insn := decodeBy thumb32Rows w

/-! ## Immediates, read without their expansion -/

/-- The expansion of a constant is the constant itself only if it is not
rotated. -/
theorem armExpandImm_eq_iff :
    ∀ imm12 : BitVec 12, armExpandImm imm12 = imm12.setWidth 32 ↔ imm12.extractLsb' 8 4 = 0#4 := by
  decide +kernel

theorem extract_imm12 (w : Word) :
    (w.extractLsb' 0 12).extractLsb' 8 4 = w.extractLsb' 8 4 := by
  refine BitVec.eq_of_getLsbD_eq (fun i hi => ?_)
  simp only [BitVec.getLsbD_extractLsb']
  interval_cases i <;> simp

/-- The zeros appended to an immediate are the low bits of the offset. -/
theorem getLsbD_signExtend_append {n m i : ℕ} (f : BitVec n) (hi : i < m) :
    ((f ++ 0#m).signExtend 32).getLsbD i = false := by
  rw [BitVec.getLsbD_signExtend, BitVec.getLsbD_append]
  simp [hi, show i < n + m from by omega]

theorem armBranchOffset_low (w : Word) :
    (armBranchOffset w).getLsbD 0 = false ∧ (armBranchOffset w).getLsbD 1 = false :=
  ⟨getLsbD_signExtend_append _ (by decide), getLsbD_signExtend_append _ (by decide)⟩

theorem armBlxOffset_low (w : Word) : (armBlxOffset w).getLsbD 0 = false :=
  getLsbD_signExtend_append _ (by decide)

end Arm
