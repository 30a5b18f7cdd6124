import AndroidReverse.PatternTable

/-!
# Reading instructions

How HookZz reads the code it is going to move: `instructions.c` and the two
readers. A pattern of the architecture manual is kept as the string the source
has, one character a bit, and `insnEqual` compiles it to a mask and a value
each time it is asked. The classifiers ask for one pattern after the other, so
what a classifier answers is settled by the masks; `insnEqual_iff` says so, and
what follows names the answer for every encoding the relocators rewrite.

A reader keeps two cursors, the address it reads from and the value the
program counter has there. The instructions it has read are a list, so the
source's `insn_size` is its length.
-/

namespace HookZz

open Arm

/-! ## Patterns -/

/-- `get_insn_sub`. -/
def getInsnSub (insn : Word) (start length : ℕ) : Word :=
  (insn >>> start) &&& ((1#32 <<< length) - 1#32)

/-- What it cuts out. -/
theorem getInsnSub_eq (insn : Word) (start : ℕ) {length : ℕ} (h : length < 32) :
    getInsnSub insn start length = (insn.extractLsb' start length).setWidth 32 := by
  have hm : (1#32 <<< length) - 1#32 = (BitVec.allOnes length).setWidth 32 := by
    have hlt : 2 ^ length < 2 ^ 32 := Nat.pow_lt_pow_right (by decide) h
    have hpos := Nat.two_pow_pos length
    rw [← BitVec.toNat_inj, BitVec.toNat_sub, BitVec.toNat_shiftLeft, BitVec.toNat_setWidth,
      BitVec.toNat_allOnes, Nat.shiftLeft_eq, show (1#32).toNat = 1 from rfl, Nat.one_mul,
      Nat.mod_eq_of_lt hlt, Nat.mod_eq_of_lt (lt_of_le_of_lt (Nat.sub_le _ 1) hlt)]
    generalize 2 ^ length = n at hlt hpos
    omega
  rw [getInsnSub, hm]
  refine BitVec.eq_of_getLsbD_eq (fun i hi => ?_)
  simp only [BitVec.getLsbD_and, BitVec.getLsbD_ushiftRight, BitVec.getLsbD_setWidth,
    BitVec.getLsbD_allOnes, BitVec.getLsbD_extractLsb', hi, decide_true, Bool.true_and]
  exact Bool.and_comm _ _

/-- The loop of `insn_equal`: character `j` from the right, the mask and the
value so far. -/
def insnEqualLoop : List Char → ℕ → Word × Word → Word × Word
  | [], _, (mask, value) => (mask, value)
  | c :: opstr, j, (mask, value) =>
    insnEqualLoop opstr (j + 1)
      (if c = 'x' then (mask ||| (0#32 <<< j), value)
        else if c = '0' then (mask ||| (1#32 <<< j), value)
        else if c = '1' then (mask ||| (1#32 <<< j), value ||| (1#32 <<< j))
        else (mask, value))

/-- `insn_equal`. -/
def insnEqual (insn : Word) (opstr : String) : Bool :=
  let mv := insnEqualLoop opstr.toList.reverse 0 (0#32, 0#32)
  insn &&& mv.1 == mv.2

/-- **A pattern is a mask with a value.** -/
theorem insnEqual_iff (opstr : String) (mask value : Word) {insn : Word}
    (h : insnEqualLoop opstr.toList.reverse 0 (0#32, 0#32) = (mask, value)) :
    insnEqual insn opstr = true ↔ insn &&& mask = value := by
  unfold insnEqual
  rw [h]
  exact beq_iff_eq

/-- A pattern of a halfword, which the source passes as an `int`. -/
theorem insnEqual_half (opstr : String) (mask value : Half) {w : Half}
    (h : insnEqualLoop opstr.toList.reverse 0 (0#32, 0#32)
      = (mask.setWidth 32, value.setWidth 32)) :
    insnEqual (w.setWidth 32) opstr = true ↔ w &&& mask = value := by
  rw [insnEqual_iff opstr _ _ h, ← BitVec.setWidth_and]
  constructor
  · intro h
    have h' := congrArg (BitVec.setWidth 16) h
    rwa [BitVec.setWidth_setWidth_of_le _ (by decide), BitVec.setWidth_setWidth_of_le _ (by decide),
      BitVec.setWidth_eq, BitVec.setWidth_eq] at h'
  · exact congrArg _

/-- The bit that a character of a pattern asks for, if it asks for one. -/
def patternBit (c : Char) : Option Bool :=
  if c = '0' then some false else if c = '1' then some true else none

section Loop

variable (c : Char) (cs : List Char) (j : ℕ) (mask value : Word) {i : ℕ}

/-- **A round** sets what its character asks for. -/
theorem insnEqualLoop_cons : insnEqualLoop (c :: cs) j (mask, value)
    = insnEqualLoop cs (j + 1)
      (mask ||| (if (patternBit c).isSome then 1#32 <<< j else 0#32),
        value ||| (if patternBit c = some true then 1#32 <<< j else 0#32)) := by
  rw [insnEqualLoop, patternBit]
  by_cases hx : c = 'x'
  · simp [hx]
  by_cases h0 : c = '0'
  · simp [h0]
  by_cases h1 : c = '1'
  · simp [h1]
  · simp [hx, h0, h1]

/-- **What the loop has set**: at each bit what the character of that bit asks for. -/
theorem insnEqualLoop_getLsbD (hi : i < 32) :
    (insnEqualLoop cs j (mask, value)).1.getLsbD i
        = (mask.getLsbD i || (decide (j ≤ i) && (cs[i - j]?.bind patternBit).isSome))
      ∧ (insnEqualLoop cs j (mask, value)).2.getLsbD i
        = (value.getLsbD i || (decide (j ≤ i) && (cs[i - j]?.bind patternBit).getD false)) := by
  induction cs generalizing j mask value with
  | nil =>
    rw [List.getElem?_nil, Option.bind_none, Option.isSome_none, Option.getD_none, Bool.and_false,
      Bool.or_false, Bool.or_false]
    exact ⟨rfl, rfl⟩
  | cons c cs ih =>
    obtain ⟨hmask, hvalue⟩ := ih (j + 1)
      (mask ||| (if (patternBit c).isSome then 1#32 <<< j else 0#32))
      (value ||| (if patternBit c = some true then 1#32 <<< j else 0#32))
    rw [insnEqualLoop_cons, hmask, hvalue, PatternTable.getLsbD_or_bit mask j _ hi,
      PatternTable.getLsbD_or_bit value j _ hi]
    rcases Nat.lt_trichotomy i j with hlt | rfl | hgt
    · simp [hlt.ne, not_le.mpr hlt, not_le.mpr (Nat.lt_succ_of_lt hlt)]
    · rw [Nat.sub_self, List.getElem?_cons_zero, Option.bind_some]
      cases patternBit c <;> simp
    · have hsub : i - j = i - (j + 1) + 1 := by omega
      rw [hsub, List.getElem?_cons_succ]
      simp [hgt.ne', hgt.le, Nat.succ_le_of_lt hgt]

end Loop

/-- **A pattern of the manual**: at most a word long, of bits that are fixed and bits that are
not. -/
structure IsOpstr (opstr : String) : Prop where
  length_le : opstr.length ≤ 32
  mem : ∀ c ∈ opstr.toList, c = '0' ∨ c = '1' ∨ c = 'x'

/-- **An instruction has the bits of a pattern**, of which the last character is bit 0. What is
above the pattern may be anything. -/
def HasBits (insn : Word) (opstr : String) : Prop :=
  ∀ i c, opstr.toList.reverse[i]? = some c → c ≠ 'x' → insn.getLsbD i = decide (c = '1')

/-- **A pattern is compared bit by bit.** -/
theorem insnEqual_iff_hasBits {opstr : String} (h : IsOpstr opstr) (insn : Word) :
    insnEqual insn opstr = true ↔ HasBits insn opstr := by
  have hbits : ∀ i < 32, _ := fun i hi =>
    insnEqualLoop_getLsbD opstr.toList.reverse 0 0#32 0#32 (i := i) hi
  simp only [BitVec.getLsbD_zero, Bool.false_or, Nat.zero_le, decide_true, Bool.true_and,
    Nat.sub_zero] at hbits
  have hmatch := PatternTable.Pattern.matches_iff_bits (p := ⟨_, _⟩) (w := insn)
    (b := fun i => opstr.toList.reverse[i]?.bind patternBit)
    (fun i hi => (hbits i hi).1) (fun i hi => (hbits i hi).2)
  rw [insnEqual_iff opstr _ _ rfl]
  refine hmatch.trans ⟨fun hall i c hc hx => ?_, fun hall i _ b hb => ?_⟩
  · have hi : i < 32 := by
      have hlt := (List.getElem?_eq_some_iff.mp hc).1
      rw [List.length_reverse, String.length_toList] at hlt
      exact hlt.trans_le h.length_le
    refine hall i hi _ ?_
    rw [hc, Option.bind_some]
    rcases h.mem c (List.mem_reverse.mp (List.mem_of_getElem? hc)) with rfl | rfl | rfl
    · rfl
    · rfl
    · exact absurd rfl hx
  · obtain ⟨c, hc, hcb⟩ := Option.bind_eq_some_iff.mp hb
    rcases h.mem c (List.mem_reverse.mp (List.mem_of_getElem? hc)) with rfl | rfl | rfl
    · exact (hall i _ hc (by decide)).trans (Option.some.inj hcb)
    · exact (hall i _ hc (by decide)).trans (Option.some.inj hcb)
    · cases hcb

/-- **What a pattern asks for and what a field holds**: `insn_equal` compares the bits that the
pattern fixes and no others, `get_insn_sub` cuts out the field. An `int` wraps around where
`1 << 31` and `(1 << 31) - 1` leave its range. -/
theorem insnEqual_getInsnSub {opstr : String} (h : IsOpstr opstr) (insn : Word) (start : ℕ)
    {length : ℕ} (hlength : length < 32) :
    (insnEqual insn opstr = true ↔ HasBits insn opstr)
      ∧ (getInsnSub insn start length).toNat = insn.toNat / 2 ^ start % 2 ^ length := by
  refine ⟨insnEqual_iff_hasBits h insn, ?_⟩
  have hlt : insn.toNat / 2 ^ start % 2 ^ length < 2 ^ 32 :=
    (Nat.mod_lt _ (Nat.two_pow_pos length)).trans (Nat.pow_lt_pow_right (by decide) hlength)
  rw [getInsnSub_eq insn start hlength, BitVec.toNat_setWidth, BitVec.extractLsb'_toNat,
    Nat.shiftRight_eq_div_pow, Nat.mod_eq_of_lt hlt]

/-- A pattern of four characters, and a field of four bits. -/
theorem insnEqual_getInsnSub_four :
    (insnEqual 0xA5#32 "01x1" = true ↔ HasBits 0xA5#32 "01x1")
      ∧ (getInsnSub 0xA5#32 4 4).toNat = 0xA5 / 2 ^ 4 % 2 ^ 4 :=
  insnEqual_getInsnSub ⟨by decide, by simp⟩ 0xA5#32 4 (by decide)

/-! ## Instructions -/

/-- The `enum InsnType`. -/
inductive InsnType where
  | armInsn
  | thumbInsn
  | thumb2Insn
  | unkownInsn
deriving DecidableEq, Repr

/-- `ZzARMInstruction`: an instruction that was read, or one that was
written. -/
structure ARMInstruction where
  /-- ARM, 16-bit Thumb, 32-bit Thumb, or data. -/
  type : InsnType
  /-- What the program counter reads as at the instruction. -/
  pc : Word
  /-- Where it was read or written. -/
  address : Word
  /-- Its size in bytes. -/
  size : ℕ
  /-- The word. -/
  insn : Word
  /-- The first halfword. -/
  insn1 : Half
  /-- The second halfword. -/
  insn2 : Half
deriving DecidableEq, Repr

/-- `ZzARMReader`. -/
structure ARMReader where
  /-- The instructions read so far. -/
  insns : List ARMInstruction
  /-- Where reading began. -/
  rStartAddress : Word
  /-- Where it goes on. -/
  rCurrentAddress : Word
  /-- The program counter where reading began. -/
  startPc : Word
  /-- The program counter where it goes on. -/
  currentPc : Word
  /-- The number of bytes read. -/
  size : ℕ
deriving DecidableEq, Repr

/-! ## The ARM reader -/

/-- `zz_arm_reader_reset`. -/
def armReaderReset (insnAddress : Word) : ARMReader where
  insns := []
  rStartAddress := insnAddress
  rCurrentAddress := insnAddress
  startPc := insnAddress + 8#32
  currentPc := insnAddress + 8#32
  size := 0

/-- The instruction `zz_arm_reader_read_one_instruction` makes. -/
def armReaderInsn (mem : Mem) (self : ARMReader) : ARMInstruction where
  type := .armInsn
  address := self.rCurrentAddress
  pc := self.currentPc
  insn := mem.read32 self.rCurrentAddress
  size := 4
  insn1 := 0#16
  insn2 := 0#16

/-- A reader that has read one more instruction. -/
def ARMReader.push (self : ARMReader) (insnCtx : ARMInstruction) : ARMReader :=
  { self with
    insns := self.insns ++ [insnCtx]
    rCurrentAddress := self.rCurrentAddress + BitVec.ofNat 32 insnCtx.size
    currentPc := self.currentPc + BitVec.ofNat 32 insnCtx.size
    size := self.size + insnCtx.size }

/-- `zz_arm_reader_read_one_instruction`. -/
def armReaderReadOneInstruction (mem : Mem) (self : ARMReader) : ARMReader :=
  self.push (armReaderInsn mem self)

/-- The `enum ARMInsnType`. -/
inductive ARMInsnType where
  | addRegisterA1
  | ldrLiteralA1
  | adrA1
  | adrA2
  | bA1
  | blblxImmediateA1
  | blblxImmediateA2
  | undef
deriving DecidableEq, Repr

/-- `GetARMInsnType`. -/
def getARMInsnType (insn : Word) : ARMInsnType :=
  if insnEqual insn "xxxx0000100xxxxxxxxxxxxxxxx0xxxx" ∧ getInsnSub insn 28 4 ≠ 0xF#32 then
    .addRegisterA1
  else if insnEqual insn "xxxx0101x0011111xxxxxxxxxxxxxxxx" ∧ getInsnSub insn 28 4 ≠ 0xF#32 then
    .ldrLiteralA1
  else if insnEqual insn "xxxx001010001111xxxxxxxxxxxxxxxx" ∧ getInsnSub insn 28 4 ≠ 0xF#32 then
    .adrA1
  else if insnEqual insn "xxxx001001001111xxxxxxxxxxxxxxxx" ∧ getInsnSub insn 28 4 ≠ 0xF#32 then
    .adrA2
  else if insnEqual insn "xxxx1010xxxxxxxxxxxxxxxxxxxxxxxx" ∧ getInsnSub insn 28 4 ≠ 0xF#32 then
    .bA1
  else if insnEqual insn "xxxx1011xxxxxxxxxxxxxxxxxxxxxxxx" ∧ getInsnSub insn 28 4 ≠ 0xF#32 then
    .blblxImmediateA1
  else if insnEqual insn "1111101xxxxxxxxxxxxxxxxxxxxxxxxx" then .blblxImmediateA2
  else ARMInsnType.undef

/-! ## The Thumb reader -/

/-- `insn_is_thumb2`. -/
def insnIsThumb2 (insn : Word) : Bool :=
  insnEqual (insn &&& 0x0000FFFF#32) "11101xxxxxxxxxxx"
    || insnEqual (insn &&& 0x0000FFFF#32) "11111xxxxxxxxxxx"
    || insnEqual (insn &&& 0x0000FFFF#32) "11110xxxxxxxxxxx"

/-- `zz_thumb_reader_reset`. -/
def thumbReaderReset (insnAddress : Word) : ARMReader where
  insns := []
  rStartAddress := insnAddress
  rCurrentAddress := insnAddress
  startPc := insnAddress + 4#32
  currentPc := insnAddress + 4#32
  size := 0

/-- The instruction `zz_thumb_reader_read_one_instruction` makes. -/
def thumbReaderInsn (mem : Mem) (self : ARMReader) : ARMInstruction :=
  let insn := mem.read32 self.rCurrentAddress
  if insnIsThumb2 insn then
    { type := .thumb2Insn
      pc := self.currentPc
      address := self.rCurrentAddress
      insn := insn
      size := 4
      insn1 := (insn &&& 0x0000FFFF#32).setWidth 16
      insn2 := ((insn &&& 0xFFFF0000#32) >>> 16).setWidth 16 }
  else
    { type := .thumbInsn
      pc := self.currentPc
      address := self.rCurrentAddress
      insn := insn
      size := 2
      insn1 := (insn &&& 0x0000FFFF#32).setWidth 16
      insn2 := 0#16 }

/-- `zz_thumb_reader_read_one_instruction`. -/
def thumbReaderReadOneInstruction (mem : Mem) (self : ARMReader) : ARMReader :=
  self.push (thumbReaderInsn mem self)

/-- The `enum THUMBInsnType`. -/
inductive THUMBInsnType where
  | cbnzCbz
  | addRegisterT2
  | ldrLiteralT1
  | ldrLiteralT2
  | adrT1
  | adrT2
  | adrT3
  | bT1
  | bT2
  | bT3
  | bT4
  | blblxImmediateT1
  | blblxImmediateT2
  | undef
deriving DecidableEq, Repr

/-- `GetTHUMBInsnType`, whose arguments are promoted when they are passed
on. -/
def getTHUMBInsnType (insn1 insn2 : Half) : THUMBInsnType :=
  let i1 := insn1.setWidth 32
  let i2 := insn2.setWidth 32
  if ¬ insnIsThumb2 i1 ∧ insnEqual i1 "1011x0x1xxxxxxxx" then .cbnzCbz
  else if ¬ insnIsThumb2 i1 ∧ insnEqual i1 "01000100xxxxxxxx" then .addRegisterT2
  else if ¬ insnIsThumb2 i1 ∧ insnEqual i1 "01001xxxxxxxxxxx" then .ldrLiteralT1
  else if insnIsThumb2 i1 ∧ insnEqual i1 "11111000x1011111" ∧ insnEqual i2 "xxxxxxxxxxxxxxxx" then
    .ldrLiteralT2
  else if ¬ insnIsThumb2 i1 ∧ insnEqual i1 "10100xxxxxxxxxxx" then .adrT1
  else if insnIsThumb2 i1 ∧ insnEqual i1 "11110x1010101111" ∧ insnEqual i2 "0xxxxxxxxxxxxxxx" then
    .adrT2
  else if insnIsThumb2 i1 ∧ insnEqual i1 "11110x1000001111" ∧ insnEqual i2 "0xxxxxxxxxxxxxxx" then
    .adrT3
  else if (¬ insnIsThumb2 i1 ∧ insnEqual i1 "1101xxxxxxxxxxxx")
      ∧ getInsnSub i1 8 4 ≠ 0b1110#32 ∧ getInsnSub i1 8 4 ≠ 0b1111#32 then .bT1
  else if ¬ insnIsThumb2 i1 ∧ insnEqual i1 "11100xxxxxxxxxxx" then .bT2
  else if insnIsThumb2 i1 ∧ insnEqual i1 "11110xxxxxxxxxxx" ∧ insnEqual i2 "10x0xxxxxxxxxxxx" then
    .bT3
  else if insnIsThumb2 i1 ∧ insnEqual i1 "11110xxxxxxxxxxx" ∧ insnEqual i2 "10x1xxxxxxxxxxxx" then
    .bT4
  else if insnIsThumb2 i1 ∧ insnEqual i1 "11110xxxxxxxxxxx" ∧ insnEqual i2 "11x1xxxxxxxxxxxx" then
    .blblxImmediateT1
  else if insnIsThumb2 i1 ∧ insnEqual i1 "11110xxxxxxxxxxx" ∧ insnEqual i2 "11x0xxxxxxxxxxxx" then
    .blblxImmediateT2
  else THUMBInsnType.undef

/-! ## The classifiers, by masks -/

theorem extract_eq_iff_mask (w : Half) (v : BitVec 5) :
    w &&& 0xF800#16 = v.setWidth 16 <<< 11 ↔ w.extractLsb' 11 5 = v := by
  constructor
  · intro h
    rw [mask_extract h 11 5 (by decide)]
    exact (by decide : ∀ v : BitVec 5, (v.setWidth 16 <<< 11).extractLsb' 11 5 = v) v
  · exact mask_of_extract 11 5

/-- **The reader's test for a 32-bit instruction is the architecture's.** -/
theorem insnIsThumb2_eq (w : Half) : insnIsThumb2 (w.setWidth 32) = isThumb32 w := by
  have hw : w.setWidth 32 &&& 0x0000FFFF#32 = w.setWidth 32 := by
    rw [show 0x0000FFFF#32 = (BitVec.allOnes 16).setWidth 32 from rfl, ← BitVec.setWidth_and,
      BitVec.and_allOnes]
  have ht : w >>> 11 = (w.extractLsb' 11 5).setWidth 16 := by
    refine BitVec.eq_of_getLsbD_eq (fun i hi => ?_)
    simp only [BitVec.getLsbD_ushiftRight, BitVec.getLsbD_setWidth, BitVec.getLsbD_extractLsb', hi,
      decide_true, Bool.true_and]
    by_cases h : i < 5
    · simp [h]
    · simp [h, BitVec.getLsbD_of_ge w (11 + i) (by omega)]
  have h29 := extract_eq_iff_mask w 0b11101#5
  have h31 := extract_eq_iff_mask w 0b11111#5
  have h30 := extract_eq_iff_mask w 0b11110#5
  rw [Bool.eq_iff_iff, insnIsThumb2, hw, Bool.or_eq_true, Bool.or_eq_true,
    insnEqual_half "11101xxxxxxxxxxx" 0xF800#16 0xE800#16 rfl,
    insnEqual_half "11111xxxxxxxxxxx" 0xF800#16 0xF800#16 rfl,
    insnEqual_half "11110xxxxxxxxxxx" 0xF800#16 0xF000#16 rfl]
  rw [show (0xE800#16 : Half) = (0b11101#5).setWidth 16 <<< 11 from rfl,
    show (0xF000#16 : Half) = (0b11110#5).setWidth 16 <<< 11 from rfl, h29, h30]
  rw [show (w &&& 0xF800#16 = 0xF800#16) = (w &&& 0xF800#16 = (0b11111#5).setWidth 16 <<< 11)
    from rfl, h31, isThumb32, decide_eq_true_iff, ht]
  generalize w.extractLsb' 11 5 = t
  revert t
  decide

section Classifiers

variable {w w2 : Half}

/-- The answers for a 16-bit instruction. -/
theorem getTHUMBInsnType_narrow (h : isThumb32 w = false) :
    getTHUMBInsnType w w2 =
      if w &&& 0xF500#16 = 0xB100#16 then .cbnzCbz
      else if w &&& 0xFF00#16 = 0x4400#16 then .addRegisterT2
      else if w &&& 0xF800#16 = 0x4800#16 then .ldrLiteralT1
      else if w &&& 0xF800#16 = 0xA000#16 then .adrT1
      else if w &&& 0xF000#16 = 0xD000#16 ∧ getInsnSub (w.setWidth 32) 8 4 ≠ 0b1110#32
          ∧ getInsnSub (w.setWidth 32) 8 4 ≠ 0b1111#32 then .bT1
      else if w &&& 0xF800#16 = 0xE000#16 then .bT2
      else .undef := by
  unfold getTHUMBInsnType
  simp only [insnIsThumb2_eq, h, Bool.false_eq_true, not_false_eq_true, true_and, false_and,
    if_false, insnEqual_half "1011x0x1xxxxxxxx" 0xF500#16 0xB100#16 rfl,
    insnEqual_half "01000100xxxxxxxx" 0xFF00#16 0x4400#16 rfl,
    insnEqual_half "01001xxxxxxxxxxx" 0xF800#16 0x4800#16 rfl,
    insnEqual_half "10100xxxxxxxxxxx" 0xF800#16 0xA000#16 rfl,
    insnEqual_half "1101xxxxxxxxxxxx" 0xF000#16 0xD000#16 rfl,
    insnEqual_half "11100xxxxxxxxxxx" 0xF800#16 0xE000#16 rfl]

/-- The answers for a 32-bit instruction. -/
theorem getTHUMBInsnType_wide (h : isThumb32 w = true) :
    getTHUMBInsnType w w2 =
      if w &&& 0xFF7F#16 = 0xF85F#16 then .ldrLiteralT2
      else if w &&& 0xFBFF#16 = 0xF2AF#16 ∧ w2 &&& 0x8000#16 = 0x0000#16 then .adrT2
      else if w &&& 0xFBFF#16 = 0xF20F#16 ∧ w2 &&& 0x8000#16 = 0x0000#16 then .adrT3
      else if w &&& 0xF800#16 = 0xF000#16 ∧ w2 &&& 0xD000#16 = 0x8000#16 then .bT3
      else if w &&& 0xF800#16 = 0xF000#16 ∧ w2 &&& 0xD000#16 = 0x9000#16 then .bT4
      else if w &&& 0xF800#16 = 0xF000#16 ∧ w2 &&& 0xD000#16 = 0xD000#16 then .blblxImmediateT1
      else if w &&& 0xF800#16 = 0xF000#16 ∧ w2 &&& 0xD000#16 = 0xC000#16 then .blblxImmediateT2
      else .undef := by
  have hx : insnEqual (w2.setWidth 32) "xxxxxxxxxxxxxxxx" = true := by
    rw [insnEqual_half "xxxxxxxxxxxxxxxx" 0#16 0#16 rfl, BitVec.and_zero]
  unfold getTHUMBInsnType
  simp only [insnIsThumb2_eq, h, hx, not_true_eq_false, true_and, false_and, and_true, if_false,
    insnEqual_half "11111000x1011111" 0xFF7F#16 0xF85F#16 rfl,
    insnEqual_half "11110x1010101111" 0xFBFF#16 0xF2AF#16 rfl,
    insnEqual_half "11110x1000001111" 0xFBFF#16 0xF20F#16 rfl,
    insnEqual_half "11110xxxxxxxxxxx" 0xF800#16 0xF000#16 rfl,
    insnEqual_half "0xxxxxxxxxxxxxxx" 0x8000#16 0x0000#16 rfl,
    insnEqual_half "10x0xxxxxxxxxxxx" 0xD000#16 0x8000#16 rfl,
    insnEqual_half "10x1xxxxxxxxxxxx" 0xD000#16 0x9000#16 rfl,
    insnEqual_half "11x1xxxxxxxxxxxx" 0xD000#16 0xD000#16 rfl,
    insnEqual_half "11x0xxxxxxxxxxxx" 0xD000#16 0xC000#16 rfl]

/-- The answers for an ARM word. -/
theorem getARMInsnType_eq (insn : Word) :
    getARMInsnType insn =
      if insn &&& 0x0FE00010#32 = 0x00800000#32 ∧ getInsnSub insn 28 4 ≠ 0xF#32 then
        .addRegisterA1
      else if insn &&& 0x0F7F0000#32 = 0x051F0000#32 ∧ getInsnSub insn 28 4 ≠ 0xF#32 then
        .ldrLiteralA1
      else if insn &&& 0x0FFF0000#32 = 0x028F0000#32 ∧ getInsnSub insn 28 4 ≠ 0xF#32 then .adrA1
      else if insn &&& 0x0FFF0000#32 = 0x024F0000#32 ∧ getInsnSub insn 28 4 ≠ 0xF#32 then .adrA2
      else if insn &&& 0x0F000000#32 = 0x0A000000#32 ∧ getInsnSub insn 28 4 ≠ 0xF#32 then .bA1
      else if insn &&& 0x0F000000#32 = 0x0B000000#32 ∧ getInsnSub insn 28 4 ≠ 0xF#32 then
        .blblxImmediateA1
      else if insn &&& 0xFE000000#32 = 0xFA000000#32 then .blblxImmediateA2
      else .undef := by
  unfold getARMInsnType
  simp only [insnEqual_iff "xxxx0000100xxxxxxxxxxxxxxxx0xxxx" 0x0FE00010#32 0x00800000#32 rfl,
    insnEqual_iff "xxxx0101x0011111xxxxxxxxxxxxxxxx" 0x0F7F0000#32 0x051F0000#32 rfl,
    insnEqual_iff "xxxx001010001111xxxxxxxxxxxxxxxx" 0x0FFF0000#32 0x028F0000#32 rfl,
    insnEqual_iff "xxxx001001001111xxxxxxxxxxxxxxxx" 0x0FFF0000#32 0x024F0000#32 rfl,
    insnEqual_iff "xxxx1010xxxxxxxxxxxxxxxxxxxxxxxx" 0x0F000000#32 0x0A000000#32 rfl,
    insnEqual_iff "xxxx1011xxxxxxxxxxxxxxxxxxxxxxxx" 0x0F000000#32 0x0B000000#32 rfl,
    insnEqual_iff "1111101xxxxxxxxxxxxxxxxxxxxxxxxx" 0xFE000000#32 0xFA000000#32 rfl]

end Classifiers

end HookZz
