import AndroidReverse.HookZzWriter

/-!
# What the Thumb writer's instructions decode to

The encoders of `writer-thumb.c` against the encodings of the architecture.

A branch is decoded by the table the rest of the development uses. The writer
halves the displacement and spreads it over two halfwords, with two bits
XOR-ed with the sign, and the decoder puts it together again
(`decode_thumbPutBranchImm`).

A transfer or a sum has up to four forms, and the writer takes the first one
whose range the constant is in. The range is all it asks about: a short form
has no room for the two low bits of an offset and drops them, where the next
form would have kept them, and a transfer on the program counter is written a
second time behind the literal load it should have been. `Encodable` is what
remains, and `EncoderCall.does_eq_iff` says that this is right and nothing else.

A word is proved equal to its *form*, the concatenation of its fields, and the
form is decoded; no word is decoded twice.
-/

namespace HookZz

open Arm AssemblerWriter

/-! ## Branches -/

/-- The kinds of branch `zz_thumb_writer_put_branch_imm` writes. -/
inductive BranchKind where
  /-- `B.W`. -/
  | b
  /-- `BL`. -/
  | bl
  /-- `BLX`. -/
  | blx
deriving DecidableEq, Repr

namespace BranchKind

/-- The flag `link`. -/
def link : BranchKind → Bool
  | b => false
  | bl | blx => true

/-- The flag `thumb`. -/
def thumb : BranchKind → Bool
  | b | bl => true
  | blx => false

/-- What a displacement is a multiple of. -/
def align : BranchKind → ℤ
  | b | bl => 2
  | blx => 4

/-- The instruction. -/
def op (off : Word) : BranchKind → Op
  | b => .b off
  | bl => .bl off
  | blx => .blx off

end BranchKind

/-- The first halfword of a branch: `11110:S:imm10`. -/
def branchHigh (distance : Word) : Half :=
  0b11110#5 ++ (distance.extractLsb' 31 1 ++ distance.extractLsb' 11 10)

/-- The second one: `1:link:J1:thumb:J2:imm11`. -/
def branchLow (distance : Word) (link thumb : Bool) : Half :=
  0b1#1 ++ (BitVec.ofBool link
    ++ (BitVec.ofBool (!(distance.getLsbD 22 ^^ distance.getLsbD 31)) ++ (BitVec.ofBool thumb
    ++ (BitVec.ofBool (!(distance.getLsbD 21 ^^ distance.getLsbD 31))
    ++ distance.extractLsb' 0 11))))

theorem branchHigh_eq (distance : Word) :
    (0xf000#32 ||| (((distance >>> 31) &&& 1#32) <<< 10)
      ||| ((distance >>> 11) &&& 0x3ff#32)).setWidth 16 = branchHigh distance := by
  unfold branchHigh
  refine BitVec.eq_of_getLsbD_eq (fun i hi => ?_)
  simp only [BitVec.getLsbD_setWidth, BitVec.getLsbD_or, BitVec.getLsbD_and,
    BitVec.getLsbD_shiftLeft, BitVec.getLsbD_ushiftRight, BitVec.getLsbD_append,
    BitVec.getLsbD_extractLsb']
  interval_cases i <;> simp

theorem branchLow_eq (distance : Word) (link thumb : Bool) :
    (0x8000#32 ||| flag link 14
      ||| ((~~~((distance >>> 22) ^^^ ((distance >>> 31) &&& 1#32)) &&& 1#32) <<< 13)
      ||| flag thumb 12
      ||| ((~~~((distance >>> 21) ^^^ ((distance >>> 31) &&& 1#32)) &&& 1#32) <<< 11)
      ||| (distance &&& 0x7ff#32)).setWidth 16 = branchLow distance link thumb := by
  unfold branchLow flag
  refine BitVec.eq_of_getLsbD_eq (fun i hi => ?_)
  simp only [BitVec.getLsbD_setWidth, BitVec.getLsbD_or, BitVec.getLsbD_and,
    BitVec.getLsbD_shiftLeft, BitVec.getLsbD_ushiftRight, BitVec.getLsbD_append,
    BitVec.getLsbD_extractLsb', BitVec.getLsbD_not, BitVec.getLsbD_xor, BitVec.getLsbD_ofBool]
  interval_cases i <;> simp

/-- What `put_branch_imm` writes. -/
theorem thumbPutBranchImm_eq (self : AssemblerWriter) (imm : Word) (link thumb : Bool) :
    self.thumbPutBranchImm imm link thumb
      = self.emit [.thumb (branchHigh (BitVec.ofInt 32 (imm.toInt.tdiv 2))),
          .thumb (branchLow (BitVec.ofInt 32 (imm.toInt.tdiv 2)) link thumb)] := by
  rw [← branchHigh_eq, ← branchLow_eq]
  rfl

/-- A distance of 24 bits: the bits above are its sign. -/
theorem getLsbD_distance {e : ℤ} (hlo : -2 ^ 23 ≤ e) (hhi : e < 2 ^ 23) {i : ℕ} (hi : 23 ≤ i)
    (hi' : i < 32) : (BitVec.ofInt 32 e).getLsbD i = (BitVec.ofInt 32 e).getLsbD 31 := by
  have hext : BitVec.ofInt 32 e = (BitVec.ofInt 24 e).signExtend 32 := by
    refine BitVec.eq_of_toInt_eq ?_
    rw [BitVec.toInt_signExtend_of_le (by decide), BitVec.toInt_ofInt, BitVec.toInt_ofInt,
      Int.bmod_eq_of_le (by omega) (by omega), Int.bmod_eq_of_le (by omega) (by omega)]
  have hmsb : ∀ j, 23 ≤ j → j < 32 → (BitVec.ofInt 32 e).getLsbD j = (BitVec.ofInt 24 e).msb := by
    intro j hj hj'
    rw [hext, BitVec.getLsbD_signExtend, decide_eq_true hj', Bool.true_and]
    rcases Nat.eq_or_lt_of_le hj with rfl | hj
    · exact (if_pos (by decide)).trans (BitVec.msb_eq_getLsbD_last _).symm
    · exact if_neg (Nat.not_lt.mpr hj)
  rw [hmsb i hi hi', hmsb 31 (by decide) (by decide)]

/-- **The offset a branch decodes to** is twice its distance. -/
theorem thumbBranchOffset_branch {distance : Word} (link thumb : Bool)
    (h : ∀ i, 23 ≤ i → i < 32 → distance.getLsbD i = distance.getLsbD 31) :
    thumbBranchOffset (branchHigh distance ++ branchLow distance link thumb)
      = distance <<< 1 := by
  unfold thumbBranchOffset thumbSII branchHigh branchLow
  refine BitVec.eq_of_getLsbD_eq (fun i hi => ?_)
  simp only [BitVec.getLsbD_signExtend, BitVec.msb_eq_getLsbD_last, BitVec.getLsbD_shiftLeft,
    BitVec.getLsbD_append, BitVec.getLsbD_extractLsb', BitVec.getLsbD_ofBool]
  rcases Nat.lt_or_ge i 24 with hlt | hge
  · interval_cases i <;> simp
  · have hs := h (i - 1) (by omega) (by omega)
    interval_cases i <;> simpa using hs.symm

/-- The offset of a `BLX`, whose distance is even as well. -/
theorem thumbBlxOffset_branch {distance : Word} (link thumb : Bool)
    (h : ∀ i, 23 ≤ i → i < 32 → distance.getLsbD i = distance.getLsbD 31)
    (h0 : distance.getLsbD 0 = false) :
    thumbBlxOffset (branchHigh distance ++ branchLow distance link thumb) = distance <<< 1 := by
  unfold thumbBlxOffset thumbSII branchHigh branchLow
  refine BitVec.eq_of_getLsbD_eq (fun i hi => ?_)
  simp only [BitVec.getLsbD_signExtend, BitVec.msb_eq_getLsbD_last, BitVec.getLsbD_shiftLeft,
    BitVec.getLsbD_append, BitVec.getLsbD_extractLsb', BitVec.getLsbD_ofBool]
  rcases Nat.lt_or_ge i 24 with hlt | hge
  · rcases Nat.eq_or_lt_of_le (show 0 ≤ i from Nat.zero_le i) with rfl | hpos
    · simp
    rcases Nat.eq_or_lt_of_le hpos with rfl | hpos
    · simpa using h0.symm
    · interval_cases i <;> simp
  · have hs := h (i - 1) (by omega) (by omega)
    interval_cases i <;> simpa using hs.symm

/-- The fixed bits of a branch. -/
theorem branch_mask (distance : Word) (link thumb : Bool) :
    (branchHigh distance ++ branchLow distance link thumb) &&& 0xF800D000#32
      = 0xF0008000#32 ||| flag link 14 ||| flag thumb 12 := by
  unfold branchHigh branchLow flag
  refine BitVec.eq_of_getLsbD_eq (fun i hi => ?_)
  simp only [BitVec.getLsbD_and, BitVec.getLsbD_or, BitVec.getLsbD_shiftLeft,
    BitVec.getLsbD_setWidth, BitVec.getLsbD_append, BitVec.getLsbD_extractLsb',
    BitVec.getLsbD_ofBool]
  interval_cases i <;> simp

/-- A branch is a 32-bit instruction. -/
theorem isThumb32_branchHigh (distance : Word) : isThumb32 (branchHigh distance) = true := by
  have hm : branchHigh distance &&& 0xF800#16 = 0xF000#16 := by
    unfold branchHigh
    refine BitVec.eq_of_getLsbD_eq (fun i hi => ?_)
    simp only [BitVec.getLsbD_and, BitVec.getLsbD_append, BitVec.getLsbD_extractLsb']
    interval_cases i <;> simp
  rw [isThumb32_of_mask hm]
  rfl

/-- **What a branch decodes to.** -/
theorem decodeThumb32_branch (kind : BranchKind) {distance : Word}
    (h : ∀ i, 23 ≤ i → i < 32 → distance.getLsbD i = distance.getLsbD 31)
    (h0 : kind = .blx → distance.getLsbD 0 = false) :
    decodeThumb32 (branchHigh distance ++ branchLow distance kind.link kind.thumb)
      = some ⟨always, kind.op (distance <<< 1)⟩ := by
  have hm := branch_mask distance kind.link kind.thumb
  cases kind with
  | b =>
    refine (decodeBy_of_mask thumb32Rows 3 rfl hm rfl rfl (by decide)).trans ?_
    exact congrArg (fun off => some (⟨always, .b off⟩ : Insn)) (thumbBranchOffset_branch _ _ h)
  | bl =>
    refine (decodeBy_of_mask thumb32Rows 1 rfl hm rfl rfl (by decide)).trans ?_
    exact congrArg (fun off => some (⟨always, .bl off⟩ : Insn)) (thumbBranchOffset_branch _ _ h)
  | blx =>
    -- the bit that tells a `BLX` from an instruction that is none
    have hbit : (branchHigh distance ++ branchLow distance true false) &&& 1#32 = 0#32 := by
      have hd := h0 rfl
      unfold branchLow
      refine BitVec.eq_of_getLsbD_eq (fun i hi => ?_)
      rw [BitVec.getLsbD_and, BitVec.getLsbD_zero, BitVec.getLsbD_one]
      rcases Nat.eq_zero_or_pos i with rfl | hpos
      · simp only [BitVec.getLsbD_append, BitVec.getLsbD_extractLsb']
        simpa using hd
      · rw [decide_eq_false (Nat.pos_iff_ne_zero.mp hpos), Bool.and_false, Bool.and_false]
    refine (decodeBy_of_mask thumb32Rows 0 rfl (mask_union hm hbit) rfl rfl (by decide)).trans ?_
    exact congrArg (fun off => some (⟨always, .blx off⟩ : Insn))
      (thumbBlxOffset_branch _ _ h (h0 rfl))

/-- Doubling a displacement shifts it. -/
theorem ofInt_two_mul (e : ℤ) : BitVec.ofInt 32 (2 * e) = BitVec.ofInt 32 e <<< 1 := by
  rw [BitVec.shiftLeft_eq_mul_twoPow, BitVec.ofInt_mul, BitVec.mul_comm]
  rfl

/-- **The branch encoder is right**: in its range the two halfwords are a branch
of the kind that was asked for, by the displacement that was asked for. -/
theorem decode_thumbPutBranchImm (self : AssemblerWriter) (kind : BranchKind) {d : ℤ}
    (hlo : -2 ^ 24 ≤ d) (hhi : d < 2 ^ 24) (ha : kind.align ∣ d) :
    ∃ w w' : Half, self.thumbPutBranchImm (BitVec.ofInt 32 d) kind.link kind.thumb
        = self.emit [.thumb w, .thumb w']
      ∧ isThumb32 w = true
      ∧ ∃ off : Word, off.toInt = d ∧ decodeThumb32 (w ++ w') = some ⟨always, kind.op off⟩ := by
  have h2 : (2 : ℤ) ∣ d := by
    cases kind with
    | b => exact ha
    | bl => exact ha
    | blx => exact dvd_trans (by decide) ha
  obtain ⟨e, rfl⟩ := h2
  have hd : (BitVec.ofInt 32 (2 * e)).toInt = 2 * e := by
    rw [BitVec.toInt_ofInt]
    exact Int.bmod_eq_of_le (by omega) (by omega)
  have hhalf : (2 * e).tdiv 2 = e := Int.mul_tdiv_cancel_left e (by decide)
  have hsign : ∀ i, 23 ≤ i → i < 32 →
      (BitVec.ofInt 32 e).getLsbD i = (BitVec.ofInt 32 e).getLsbD 31 :=
    fun i hi hi' => getLsbD_distance (by omega) (by omega) hi hi'
  have heven : kind = .blx → (BitVec.ofInt 32 e).getLsbD 0 = false := by
    rintro rfl
    obtain ⟨f, rfl⟩ : (2 : ℤ) ∣ e := Int.dvd_of_mul_dvd_mul_left (by decide) ha
    rw [ofInt_two_mul, BitVec.getLsbD_shiftLeft]
    rfl
  refine ⟨_, _, thumbPutBranchImm_eq self _ kind.link kind.thumb, isThumb32_branchHigh _,
    BitVec.ofInt 32 (2 * e), hd, ?_⟩
  rw [hd, hhalf, ofInt_two_mul]
  exact decodeThumb32_branch kind hsign heven

/-- The longest branch backwards, with link and with exchange. -/
theorem decode_thumbPutBranchImm_back :
    ∃ w w' : Half, (thumbReset 0#32 0#32).thumbPutBranchImm (BitVec.ofInt 32 (-16777216))
        BranchKind.blx.link BranchKind.blx.thumb = (thumbReset 0#32 0#32).emit [.thumb w, .thumb w']
      ∧ isThumb32 w = true
      ∧ ∃ off : Word, off.toInt = -16777216
        ∧ decodeThumb32 (w ++ w') = some ⟨always, BranchKind.blx.op off⟩ :=
  decode_thumbPutBranchImm (thumbReset 0#32 0#32) .blx (by decide) (by decide) (by decide)

/-! ## Transfers and additions -/

/-- The 16-bit instructions of the writer that `thumb16Rows` does not read:
the store, and the additions and subtractions of three bits and of eight. A
subtraction is the addition of the negated constant, but for the carry of a
subtraction of zero. -/
def writerRows16 : List (Row 16) :=
  [thumbRow 0xF800 0x6000 (fun _ => false) (fun w => .str .word true true false (lowReg w 0)
      (lowReg w 3) ((w.extractLsb' 6 5 ++ 0b00#2).setWidth 32)),
    thumbRow 0xFE00 0x1C00 (fun _ => false)
      (fun w => .addImm true (lowReg w 0) (lowReg w 3) ((w.extractLsb' 6 3).setWidth 32)),
    thumbRow 0xFE00 0x1E00 (fun w => w.extractLsb' 6 3 == 0#3)
      (fun w => .addImm true (lowReg w 0) (lowReg w 3) (-(w.extractLsb' 6 3).setWidth 32)),
    thumbRow 0xF800 0x3800 (fun w => w.extractLsb' 0 8 == 0#8)
      (fun w => .addImm true (lowReg w 8) (lowReg w 8) (-thumbImm8 w))]

/-- The 32-bit ones: the two stores, `ADDW` and `SUBW`. -/
def writerRows32 : List (Row 32) :=
  [thumbRow 0xFFF00000 0xF8C00000 (fun w => armReg w 16 == PC || armReg w 12 == PC)
      (fun w => .str .word true true false (armReg w 12) (armReg w 16)
        ((w.extractLsb' 0 12).setWidth 32)),
    thumbRow 0xFFF00800 0xF8400800
      (fun w => thumbTransferExcluded w || armReg w 16 == PC || armReg w 12 == PC)
      (fun w => .str .word (w.getLsbD 10) (w.getLsbD 9) (w.getLsbD 8) (armReg w 12) (armReg w 16)
        ((w.extractLsb' 0 8).setWidth 32)),
    thumbRow 0xFBF08000 0xF2000000 (fun w => badReg (armReg w 8))
      (fun w => .addImm false (armReg w 8) (armReg w 16) (thumbImm12 w)),
    thumbRow 0xFBF08000 0xF2A00000 (fun w => badReg (armReg w 8))
      (fun w => .addImm false (armReg w 8) (armReg w 16) (-thumbImm12 w))]

/-- **Decode halfwords that are one instruction.** -/
def decodeOne : List Half → Option Insn
  | [w] => if isThumb32 w then none else decodeBy (thumb16Rows ++ writerRows16) w
  | [w, w'] => if isThumb32 w then decodeBy (thumb32Rows ++ writerRows32) (w ++ w') else none
  | _ => none

/-- What a caller of these functions asks for. -/
inductive Requested where
  /-- A load or a store of a word, at a signed offset. -/
  | transfer (operation : ThumbMemoryOperation) (index wback : Bool) (rt rn : Reg) (offset : Word)
  /-- A sum of a register and a signed constant. -/
  | add (rd rn : Reg) (value : Word)
deriving DecidableEq, Repr

/-- What an instruction does, in the caller's terms. A literal load is the load
at the program counter, and `ADR` the sum with it. -/
def Requested.ofOp : Op → Option Requested
  | .ldr .word index up wback rt rn imm =>
    some (.transfer .load index wback rt rn (if up then imm else -imm))
  | .str .word index up wback rt rn imm =>
    some (.transfer .store index wback rt rn (if up then imm else -imm))
  | .ldrLit up rt imm => some (.transfer .load true false rt PC (if up then imm else -imm))
  | .addImm _ rd rn imm => some (.add rd rn imm)
  | .adr up rd imm => some (.add rd PC (if up then imm else -imm))
  | _ => none

/-- What an instruction does that is executed whatever the flags. -/
def Requested.ofInsn (x : Insn) : Option Requested :=
  if x.cond = always then Requested.ofOp x.op else none

/-- **A call** of one of these functions. -/
inductive EncoderCall where
  /-- `zz_thumb_writer_put_ldr_reg_reg_offset`. -/
  | ldrRegRegOffset (dstReg srcReg : Reg) (srcOffset : ℤ)
  /-- `zz_thumb_writer_put_str_reg_reg_offset`. -/
  | strRegRegOffset (srcReg dstReg : Reg) (dstOffset : ℤ)
  /-- `zz_thumb_writer_put_ldr_index_reg_reg_offset`. -/
  | ldrIndexRegRegOffset (dstReg srcReg : Reg) (srcOffset : ℤ) (index : Bool)
  /-- `zz_thumb_writer_put_str_index_reg_reg_offset`. -/
  | strIndexRegRegOffset (srcReg dstReg : Reg) (dstOffset : ℤ) (index : Bool)
  /-- `zz_thumb_writer_put_add_reg_imm`. -/
  | addRegImm (dstReg : Reg) (imm : ℤ)
  /-- `zz_thumb_writer_put_add_reg_reg_imm`. -/
  | addRegRegImm (dstReg leftReg : Reg) (rightValue : ℤ)
deriving DecidableEq, Repr

namespace EncoderCall

/-- What the call does to the writer. -/
def put (self : AssemblerWriter) : EncoderCall → AssemblerWriter
  | ldrRegRegOffset dst src off => self.thumbPutLdrRegRegOffset dst src off
  | strRegRegOffset src dst off => self.thumbPutStrRegRegOffset src dst off
  | ldrIndexRegRegOffset dst src off index => self.thumbPutLdrIndexRegRegOffset dst src off index
  | strIndexRegRegOffset src dst off index => self.thumbPutStrIndexRegRegOffset src dst off index
  | addRegImm dst imm => self.thumbPutAddRegImm dst imm
  | addRegRegImm dst left v => self.thumbPutAddRegRegImm dst left v

/-- The halfwords the call writes. -/
def written (self : AssemblerWriter) (r : EncoderCall) : List Half :=
  (r.put { self with buffer := [] }).buffer

/-- What the call asks for. -/
def requested : EncoderCall → Requested
  | ldrRegRegOffset dst src off => .transfer .load true false dst src (BitVec.ofInt 32 off)
  | strRegRegOffset src dst off => .transfer .store true false src dst (BitVec.ofInt 32 off)
  | ldrIndexRegRegOffset dst src off index =>
    .transfer .load index true dst src (BitVec.ofInt 32 off)
  | strIndexRegRegOffset src dst off index =>
    .transfer .store index true src dst (BitVec.ofInt 32 off)
  | addRegImm dst imm => .add dst dst (BitVec.ofInt 32 imm)
  | addRegRegImm dst left v => .add dst left (BitVec.ofInt 32 v)

/-- **What the call's halfwords do**: they are to be one instruction. -/
def does (self : AssemblerWriter) (r : EncoderCall) : Option Requested :=
  (decodeOne (r.written self)).bind Requested.ofInsn

/-- A base the functions are made for. -/
def IsBase (rn : Reg) : Prop := rn ≤ 7#4 ∨ rn = SP ∨ rn = PC

/-- **What a caller may ask for**: a low register, a base, and a constant in the
range of the form. -/
def InRange : EncoderCall → Prop
  | ldrRegRegOffset rt rn off | strRegRegOffset rt rn off =>
    rt ≤ 7#4 ∧ IsBase rn ∧ 0 ≤ off ∧ off < 4096
  | ldrIndexRegRegOffset rt rn off _ | strIndexRegRegOffset rt rn off _ =>
    rt ≤ 7#4 ∧ IsBase rn ∧ off.natAbs < 256
  | addRegImm rd imm => IsBase rd ∧ imm.natAbs < (if rd = SP then 512 else 256)
  | addRegRegImm rd rn v => rd ≤ 7#4 ∧ IsBase rn ∧ v.natAbs < 4096

/-- **When the encoders are right.** An offset that a short form cuts off has to
be a multiple of four, nothing is transferred on or added to the program
counter, a base that is written back is not transferred, and a sum with the
register itself has eight bits. -/
def Encodable : EncoderCall → Prop
  | ldrRegRegOffset _ rn off | strRegRegOffset _ rn off =>
    rn ≠ PC ∧ (4 ∣ off ∨ (if rn = SP then 1024 else 128) ≤ off)
  | ldrIndexRegRegOffset rt rn _ _ | strIndexRegRegOffset rt rn _ _ => rn ≠ PC ∧ rn ≠ rt
  | addRegImm rd imm => rd ≠ PC ∧ (rd = SP → 4 ∣ imm)
  | addRegRegImm rd rn v => rn = rd → v.natAbs < 256

instance : DecidablePred Encodable
  | ldrRegRegOffset _ rn off | strRegRegOffset _ rn off =>
    inferInstanceAs (Decidable (rn ≠ PC ∧ (4 ∣ off ∨ (if rn = SP then 1024 else 128) ≤ off)))
  | ldrIndexRegRegOffset rt rn _ _ | strIndexRegRegOffset rt rn _ _ =>
    inferInstanceAs (Decidable (rn ≠ PC ∧ rn ≠ rt))
  | addRegImm rd imm => inferInstanceAs (Decidable (rd ≠ PC ∧ (rd = SP → 4 ∣ imm)))
  | addRegRegImm rd rn v => inferInstanceAs (Decidable (rn = rd → v.natAbs < 256))

end EncoderCall

/-! ### Fields -/

/-- A low register has three bits. -/
theorem exists_low {r : Reg} (h : r ≤ 7#4) : ∃ a : BitVec 3, r = a.setWidth 4 := by
  revert r
  decide

/-- A halfword of four fixed bits, a flag, a low register and eight bits. -/
def form8 (top : BitVec 4) (b : Bool) (a : BitVec 3) (k : BitVec 8) : Half :=
  top ++ (BitVec.ofBool b ++ (a ++ k))

/-- A transfer of five bits between two low registers. -/
def form5 (b : Bool) (k : BitVec 5) (c a : BitVec 3) : Half :=
  0b0110#4 ++ (BitVec.ofBool b ++ (k ++ (c ++ a)))

/-- A sum of three bits between two low registers. -/
def form3 (b : Bool) (k c a : BitVec 3) : Half :=
  0b000111#6 ++ (BitVec.ofBool b ++ (k ++ (c ++ a)))

/-- A sum of seven bits on the stack pointer. -/
def form7 (b : Bool) (k : BitVec 7) : Half := 0b10110000#8 ++ (BitVec.ofBool b ++ k)

section Fields

variable (top : BitVec 4) (b : Bool) (a c : BitVec 3) (k : BitVec 8)

theorem form8_mask : form8 top b a k &&& 0xF800#16 = top ++ (BitVec.ofBool b ++ 0#11) := by
  unfold form8
  refine BitVec.eq_of_getLsbD_eq (fun i hi => ?_)
  simp only [BitVec.getLsbD_and, BitVec.getLsbD_append, BitVec.getLsbD_ofBool]
  interval_cases i <;> simp

theorem lowReg_form8 : lowReg (form8 top b a k) 8 = a.setWidth 4 := by
  unfold form8 lowReg
  refine BitVec.eq_of_getLsbD_eq (fun i hi => ?_)
  simp only [BitVec.getLsbD_setWidth, BitVec.getLsbD_extractLsb', BitVec.getLsbD_append]
  interval_cases i <;> simp

theorem extract_form8 : (form8 top b a k).extractLsb' 0 8 = k := by
  unfold form8
  refine BitVec.eq_of_getLsbD_eq (fun i hi => ?_)
  simp only [BitVec.getLsbD_extractLsb', BitVec.getLsbD_append]
  interval_cases i <;> simp

/-- How the writer puts the form together. -/
theorem form8_eq : ((top.setWidth 32 <<< 12) ||| flag b 11 ||| regAt (a.setWidth 4) 8
    ||| k.setWidth 32).setWidth 16 = form8 top b a k := by
  unfold form8 flag regAt
  refine BitVec.eq_of_getLsbD_eq (fun i hi => ?_)
  simp only [BitVec.getLsbD_setWidth, BitVec.getLsbD_or, BitVec.getLsbD_shiftLeft,
    BitVec.getLsbD_append, BitVec.getLsbD_ofBool]
  interval_cases i <;> simp

theorem form5_mask (k : BitVec 5) :
    form5 b k c a &&& 0xF800#16 = 0b0110#4 ++ (BitVec.ofBool b ++ 0#11) := by
  unfold form5
  refine BitVec.eq_of_getLsbD_eq (fun i hi => ?_)
  simp only [BitVec.getLsbD_and, BitVec.getLsbD_append, BitVec.getLsbD_ofBool]
  interval_cases i <;> simp

theorem fields_form5 (k : BitVec 5) : lowReg (form5 b k c a) 0 = a.setWidth 4
    ∧ lowReg (form5 b k c a) 3 = c.setWidth 4 ∧ (form5 b k c a).extractLsb' 6 5 = k := by
  unfold form5 lowReg
  refine ⟨?_, ?_, ?_⟩ <;> refine BitVec.eq_of_getLsbD_eq (fun i hi => ?_) <;>
    simp only [BitVec.getLsbD_setWidth, BitVec.getLsbD_extractLsb', BitVec.getLsbD_append] <;>
    interval_cases i <;> simp

theorem form5_eq (k : BitVec 5) : ((0x6000#32 ||| (k.setWidth 32 <<< 6) ||| regAt (c.setWidth 4) 3
    ||| regAt (a.setWidth 4) 0) ||| flag b 11).setWidth 16 = form5 b k c a := by
  unfold form5 flag regAt
  refine BitVec.eq_of_getLsbD_eq (fun i hi => ?_)
  simp only [BitVec.getLsbD_setWidth, BitVec.getLsbD_or, BitVec.getLsbD_shiftLeft,
    BitVec.getLsbD_append, BitVec.getLsbD_ofBool]
  interval_cases i <;> simp

theorem form3_mask (k : BitVec 3) :
    form3 b k c a &&& 0xFE00#16 = 0b000111#6 ++ (BitVec.ofBool b ++ 0#9) := by
  unfold form3
  refine BitVec.eq_of_getLsbD_eq (fun i hi => ?_)
  simp only [BitVec.getLsbD_and, BitVec.getLsbD_append, BitVec.getLsbD_ofBool]
  interval_cases i <;> simp

theorem fields_form3 (k : BitVec 3) : lowReg (form3 b k c a) 0 = a.setWidth 4
    ∧ lowReg (form3 b k c a) 3 = c.setWidth 4 ∧ (form3 b k c a).extractLsb' 6 3 = k := by
  unfold form3 lowReg
  refine ⟨?_, ?_, ?_⟩ <;> refine BitVec.eq_of_getLsbD_eq (fun i hi => ?_) <;>
    simp only [BitVec.getLsbD_setWidth, BitVec.getLsbD_extractLsb', BitVec.getLsbD_append] <;>
    interval_cases i <;> simp

theorem form3_eq (k : BitVec 3) : (0x1c00#32 ||| flag b 9 ||| (k.setWidth 32 <<< 6)
    ||| regAt (c.setWidth 4) 3 ||| regAt (a.setWidth 4) 0).setWidth 16 = form3 b k c a := by
  unfold form3 flag regAt
  refine BitVec.eq_of_getLsbD_eq (fun i hi => ?_)
  simp only [BitVec.getLsbD_setWidth, BitVec.getLsbD_or, BitVec.getLsbD_shiftLeft,
    BitVec.getLsbD_append, BitVec.getLsbD_ofBool]
  interval_cases i <;> simp

theorem form7_mask (k : BitVec 7) :
    form7 b k &&& 0xFF80#16 = 0b10110000#8 ++ (BitVec.ofBool b ++ 0#7) := by
  unfold form7
  refine BitVec.eq_of_getLsbD_eq (fun i hi => ?_)
  simp only [BitVec.getLsbD_and, BitVec.getLsbD_append, BitVec.getLsbD_ofBool]
  interval_cases i <;> simp

theorem extract_form7 (k : BitVec 7) : (form7 b k).extractLsb' 0 7 = k := by
  unfold form7
  refine BitVec.eq_of_getLsbD_eq (fun i hi => ?_)
  simp only [BitVec.getLsbD_extractLsb', BitVec.getLsbD_append]
  interval_cases i <;> simp

theorem form7_eq (k : BitVec 7) :
    (0xb000#32 ||| flag b 7 ||| k.setWidth 32).setWidth 16 = form7 b k := by
  unfold form7 flag
  refine BitVec.eq_of_getLsbD_eq (fun i hi => ?_)
  simp only [BitVec.getLsbD_setWidth, BitVec.getLsbD_or, BitVec.getLsbD_shiftLeft,
    BitVec.getLsbD_append, BitVec.getLsbD_ofBool]
  interval_cases i <;> simp

end Fields

section WideFields

variable (top : BitVec 12) (rn rt : Reg) (imm : BitVec 12)

/-- Two halfwords with two registers and twelve bits. -/
def formWide : Word := (top ++ rn) ++ (rt ++ imm)

theorem fields_formWide : armReg (formWide top rn rt imm) 16 = rn
    ∧ armReg (formWide top rn rt imm) 12 = rt
    ∧ (formWide top rn rt imm).extractLsb' 0 12 = imm := by
  unfold formWide armReg
  refine ⟨?_, ?_, ?_⟩ <;> refine BitVec.eq_of_getLsbD_eq (fun i hi => ?_) <;>
    simp only [BitVec.getLsbD_extractLsb', BitVec.getLsbD_append] <;>
    interval_cases i <;> simp

theorem formHigh_eq : ((top.setWidth 32 <<< 4) ||| regAt rn 0).setWidth 16 = top ++ rn := by
  unfold regAt
  refine BitVec.eq_of_getLsbD_eq (fun i hi => ?_)
  simp only [BitVec.getLsbD_setWidth, BitVec.getLsbD_or, BitVec.getLsbD_shiftLeft,
    BitVec.getLsbD_append]
  interval_cases i <;> simp

theorem formLow_eq : (regAt rt 12 ||| imm.setWidth 32).setWidth 16 = rt ++ imm := by
  unfold regAt
  refine BitVec.eq_of_getLsbD_eq (fun i hi => ?_)
  simp only [BitVec.getLsbD_setWidth, BitVec.getLsbD_or, BitVec.getLsbD_shiftLeft,
    BitVec.getLsbD_append]
  interval_cases i <;> simp

end WideFields


/-! ### Constants -/

section Constants

variable {n : ℕ}

/-- A constant that fits a field. -/
theorem ofInt_natCast_eq {q : ℕ} (hn : n ≤ 32) (hq : q < 2 ^ n) :
    BitVec.ofInt 32 (q : ℤ) = (BitVec.ofNat n q).setWidth 32 := by
  rw [BitVec.ofInt_natCast, ← BitVec.toNat_inj, BitVec.toNat_ofNat,
    BitVec.toNat_setWidth_of_le hn, BitVec.toNat_ofNat, Nat.mod_eq_of_lt hq,
    Nat.mod_eq_of_lt (lt_of_lt_of_le hq (Nat.pow_le_pow_right Nat.two_pos hn))]

theorem absWord_eq_ofInt (v : ℤ) : absWord v = BitVec.ofInt 32 (v.natAbs : ℤ) := by
  unfold absWord
  by_cases h : v < 0
  · rw [if_pos h, Int.ofNat_natAbs_of_nonpos h.le]
  · rw [if_neg h, Int.natAbs_of_nonneg (not_lt.mp h)]

/-- An absolute value that fits a field. -/
theorem absWord_eq {v : ℤ} (hn : n ≤ 32) (hv : v.natAbs < 2 ^ n) :
    absWord v = (BitVec.ofNat n v.natAbs).setWidth 32 := by
  rw [absWord_eq_ofInt, ofInt_natCast_eq hn hv]

/-- An absolute value with its sign. -/
theorem signed_absWord (v : ℤ) :
    (if v < 0 then -absWord v else absWord v) = BitVec.ofInt 32 v := by
  unfold absWord
  by_cases h : v < 0
  · rw [if_pos h, if_pos h, BitVec.ofInt_neg, BitVec.neg_neg]
  · rw [if_neg h, if_neg h]

/-- A constant that is not zero is none in its field. -/
theorem ofNat_ne_zero {v : ℤ} (hv : v.natAbs < 2 ^ n) (h0 : v ≠ 0) :
    BitVec.ofNat n v.natAbs ≠ 0#n := by
  intro h
  have h' := congrArg BitVec.toNat h
  rw [BitVec.toNat_ofNat, BitVec.toNat_zero, Nat.mod_eq_of_lt hv] at h'
  exact h0 (Int.natAbs_eq_zero.mp h')

/-- Words of constants as small as these differ if the constants do. -/
theorem ofInt_inj {u v : ℤ} (hu : u.natAbs < 2 ^ 31) (hv : v.natAbs < 2 ^ 31) :
    BitVec.ofInt 32 u = BitVec.ofInt 32 v ↔ u = v := by
  refine ⟨fun h => ?_, congrArg _⟩
  have h' := congrArg BitVec.toInt h
  rwa [BitVec.toInt_ofInt, BitVec.toInt_ofInt, Int.bmod_eq_of_le (by omega) (by omega),
    Int.bmod_eq_of_le (by omega) (by omega)] at h'

/-- A field of words is a multiple of four. -/
theorem shiftLeft_two_ofInt (q : ℤ) : BitVec.ofInt 32 q <<< 2 = BitVec.ofInt 32 (4 * q) := by
  rw [BitVec.shiftLeft_eq_mul_twoPow, BitVec.ofInt_mul, BitVec.mul_comm]
  rfl

/-- **What is cut off.** The offset of a field of words is the offset that was
asked for if it is a multiple of four. -/
theorem rounded_iff {v : ℤ} (hv : v.natAbs < 4096) :
    BitVec.ofInt 32 (4 * v.tdiv 4) = BitVec.ofInt 32 v ↔ 4 ∣ v := by
  have hle : (4 * v.tdiv 4).natAbs ≤ v.natAbs := by
    rw [Int.natAbs_mul, Int.natAbs_tdiv]
    exact Nat.mul_div_le v.natAbs 4
  rw [ofInt_inj (by omega) (by omega)]
  constructor
  · intro h
    exact ⟨v.tdiv 4, h.symm⟩
  · rintro ⟨q, rfl⟩
    rw [Int.mul_tdiv_cancel_left q (by decide)]

end Constants

/-! ### What the forms decode to -/

/-- A 16-bit instruction of a pattern. -/
theorem decodeOne_narrow (k : ℕ) {r : Row 16} {w m v : Half}
    (hr : (thumb16Rows ++ writerRows16)[k]? = some r) (h : w &&& m = v)
    (hrow : m &&& r.mask = r.mask ∧ v &&& r.mask = r.value
      ∧ ∀ r' ∈ (thumb16Rows ++ writerRows16).take k, v &&& r'.mask ≠ r'.value &&& m)
    (hn : m &&& 0xF800#16 = 0xF800#16 ∧ isThumb32 (v &&& 0xF800#16) = false) :
    decodeOne [w] = if r.excluded w then none else some ⟨r.cond w, r.op w⟩ := by
  have hw : isThumb32 w = false := (isThumb32_of_mask (mask_trans 0xF800#16 h hn.1)).trans hn.2
  rw [decodeOne, hw, if_neg Bool.false_ne_true]
  exact decodeBy_of_mask _ k hr h hrow.1 hrow.2.1 hrow.2.2

/-- Whether an operation is a load. -/
def AssemblerWriter.ThumbMemoryOperation.loads : ThumbMemoryOperation → Bool
  | .load => true
  | .store => false

/-- The instruction of a transfer. -/
def transferOp (operation : ThumbMemoryOperation) (index up wback : Bool) (rt rn : Reg)
    (imm : Word) : Op :=
  match operation with
  | .load => .ldr .word index up wback rt rn imm
  | .store => .str .word index up wback rt rn imm

theorem decodeOne_form5 (operation : ThumbMemoryOperation) (k : BitVec 5) (c a : BitVec 3) :
    decodeOne [form5 operation.loads k c a] = some ⟨always, transferOp operation true true false
      (a.setWidth 4) (c.setWidth 4) ((k ++ 0b00#2).setWidth 32)⟩ := by
  obtain ⟨ha, hc, hk⟩ := fields_form5 operation.loads a c k
  cases operation with
  | load =>
    refine (decodeOne_narrow 14 rfl (form5_mask _ a c k) (by decide) (by decide)).trans ?_
    simp only [thumbRow, Bool.false_eq_true, if_false, ha, hc, hk]
    rfl
  | store =>
    refine (decodeOne_narrow 21 rfl (form5_mask _ a c k) (by decide) (by decide)).trans ?_
    simp only [thumbRow, Bool.false_eq_true, if_false, ha, hc, hk]
    rfl

theorem decodeOne_form8_sp (operation : ThumbMemoryOperation) (a : BitVec 3) (k : BitVec 8) :
    decodeOne [form8 0b1001#4 operation.loads a k] = some ⟨always,
      transferOp operation true true false (a.setWidth 4) SP (k.setWidth 32 <<< 2)⟩ := by
  have ha := lowReg_form8 0b1001#4 operation.loads a k
  have hk := extract_form8 0b1001#4 operation.loads a k
  cases operation with
  | load =>
    refine (decodeOne_narrow 16 rfl (form8_mask _ _ a k) (by decide) (by decide)).trans ?_
    simp only [thumbRow, thumbImm8, Bool.false_eq_true, if_false, ha, hk]
    rfl
  | store =>
    refine (decodeOne_narrow 15 rfl (form8_mask _ _ a k) (by decide) (by decide)).trans ?_
    simp only [thumbRow, thumbImm8, Bool.false_eq_true, if_false, ha, hk]
    rfl

/-- A literal load, whatever its field. -/
theorem decodeOne_form8_literal (a : BitVec 3) (k : BitVec 8) :
    decodeOne [form8 0b0100#4 true a k]
      = some ⟨always, .ldrLit true (a.setWidth 4) (k.setWidth 32 <<< 2)⟩ := by
  refine (decodeOne_narrow 6 rfl (form8_mask _ _ a k) (by decide) (by decide)).trans ?_
  simp only [thumbRow, thumbImm8, Bool.false_eq_true, if_false, lowReg_form8, extract_form8]

/-- A sum of eight bits with the register itself. -/
theorem decodeOne_form8_add (a : BitVec 3) (k : BitVec 8) :
    decodeOne [form8 0b0011#4 false a k]
      = some ⟨always, .addImm true (a.setWidth 4) (a.setWidth 4) (k.setWidth 32)⟩ := by
  refine (decodeOne_narrow 8 rfl (form8_mask _ _ a k) (by decide) (by decide)).trans ?_
  simp only [thumbRow, thumbImm8, Bool.false_eq_true, if_false, lowReg_form8, extract_form8]

theorem decodeOne_form8_sub (a : BitVec 3) (k : BitVec 8) :
    decodeOne [form8 0b0011#4 true a k] = if k = 0#8 then none else
      some ⟨always, .addImm true (a.setWidth 4) (a.setWidth 4) (-k.setWidth 32)⟩ := by
  refine (decodeOne_narrow 24 rfl (form8_mask _ _ a k) (by decide) (by decide)).trans ?_
  simp only [thumbRow, thumbImm8, lowReg_form8, extract_form8, beq_iff_eq]

/-- A sum of eight bits of words with the stack pointer. -/
theorem decodeOne_form8_addSp (a : BitVec 3) (k : BitVec 8) :
    decodeOne [form8 0b1010#4 true a k]
      = some ⟨always, .addImm false (a.setWidth 4) SP (k.setWidth 32 <<< 2)⟩ := by
  refine (decodeOne_narrow 17 rfl (form8_mask _ _ a k) (by decide) (by decide)).trans ?_
  simp only [thumbRow, thumbImm8, Bool.false_eq_true, if_false, lowReg_form8, extract_form8]

/-- And with the program counter. -/
theorem decodeOne_form8_adr (a : BitVec 3) (k : BitVec 8) :
    decodeOne [form8 0b1010#4 false a k]
      = some ⟨always, .adr true (a.setWidth 4) (k.setWidth 32 <<< 2)⟩ := by
  refine (decodeOne_narrow 5 rfl (form8_mask _ _ a k) (by decide) (by decide)).trans ?_
  simp only [thumbRow, thumbImm8, Bool.false_eq_true, if_false, lowReg_form8, extract_form8]

theorem decodeOne_form3_add (k c a : BitVec 3) :
    decodeOne [form3 false k c a]
      = some ⟨always, .addImm true (a.setWidth 4) (c.setWidth 4) (k.setWidth 32)⟩ := by
  obtain ⟨ha, hc, hk⟩ := fields_form3 false a c k
  refine (decodeOne_narrow 22 rfl (form3_mask _ a c k) (by decide) (by decide)).trans ?_
  simp only [thumbRow, Bool.false_eq_true, if_false, ha, hc, hk]

theorem decodeOne_form3_sub {k : BitVec 3} (c a : BitVec 3) (hk0 : k ≠ 0#3) :
    decodeOne [form3 true k c a]
      = some ⟨always, .addImm true (a.setWidth 4) (c.setWidth 4) (-k.setWidth 32)⟩ := by
  obtain ⟨ha, hc, hk⟩ := fields_form3 true a c k
  refine (decodeOne_narrow 23 rfl (form3_mask _ a c k) (by decide) (by decide)).trans ?_
  simp only [thumbRow, ha, hc, hk, beq_iff_eq, if_neg hk0]

theorem decodeOne_form7 (b : Bool) (k : BitVec 7) :
    decodeOne [form7 b k] = some ⟨always,
      .addImm false SP SP (if b then -(k.setWidth 32 <<< 2) else k.setWidth 32 <<< 2)⟩ := by
  have hk := extract_form7 b k
  cases b with
  | false =>
    refine (decodeOne_narrow 18 rfl (form7_mask _ k) (by decide) (by decide)).trans ?_
    simp only [thumbRow, thumbImm7, Bool.false_eq_true, if_false, hk]
  | true =>
    refine (decodeOne_narrow 19 rfl (form7_mask _ k) (by decide) (by decide)).trans ?_
    simp only [thumbRow, thumbImm7, Bool.false_eq_true, if_false, if_true, hk]

/-- A 32-bit instruction of a pattern: the whole first halfword, and some of
the second one. -/
theorem decodeOne_wide (k : ℕ) {r : Row 32} {top : BitVec 12} {rn rt : Reg} {imm : BitVec 12}
    {m v : Half} (hr : (thumb32Rows ++ writerRows32)[k]? = some r) (h : (rt ++ imm) &&& m = v)
    (hrow : (0xFFFF#16 ++ m) &&& r.mask = r.mask ∧ ((top ++ rn) ++ v) &&& r.mask = r.value
      ∧ ∀ r' ∈ (thumb32Rows ++ writerRows32).take k,
        ((top ++ rn) ++ v) &&& r'.mask ≠ r'.value &&& (0xFFFF#16 ++ m))
    (hn : isThumb32 (top ++ rn) = true) :
    decodeOne [top ++ rn, rt ++ imm] = if r.excluded (formWide top rn rt imm) then none
      else some ⟨r.cond (formWide top rn rt imm), r.op (formWide top rn rt imm)⟩ := by
  have hm : formWide top rn rt imm &&& (0xFFFF#16 ++ m) = (top ++ rn) ++ v := by
    show ((top ++ rn) ++ (rt ++ imm)) &&& (0xFFFF#16 ++ m) = _
    rw [BitVec.and_append, h]
    exact congrArg (· ++ v) (BitVec.and_allOnes (x := top ++ rn))
  rw [decodeOne, hn, if_pos rfl]
  exact decodeBy_of_mask _ k hr hm hrow.1 hrow.2.1 hrow.2.2

/-- The first twelve bits of a transfer. -/
def transferTop (top : BitVec 11) (operation : ThumbMemoryOperation) : BitVec 12 :=
  top ++ BitVec.ofBool operation.loads

/-- The first halfword of a transfer. -/
def transferHigh (top : BitVec 11) (operation : ThumbMemoryOperation) (rn : Reg) : Half :=
  transferTop top operation ++ rn

/-- The constant of an indexed transfer, with its flags. -/
def immIndex (index up wback : Bool) (k : BitVec 8) : BitVec 12 :=
  0b1#1 ++ (BitVec.ofBool index ++ (BitVec.ofBool up ++ (BitVec.ofBool wback ++ k)))

theorem fields_immIndex (top : BitVec 12) (rn rt : Reg) (index up wback : Bool) (k : BitVec 8) :
    (formWide top rn rt (immIndex index up wback k)).getLsbD 10 = index
      ∧ (formWide top rn rt (immIndex index up wback k)).getLsbD 9 = up
      ∧ (formWide top rn rt (immIndex index up wback k)).getLsbD 8 = wback
      ∧ (formWide top rn rt (immIndex index up wback k)).extractLsb' 0 8 = k
      ∧ (rt ++ immIndex index up wback k) &&& 0x0800#16 = 0x0800#16 := by
  unfold formWide immIndex
  refine ⟨?_, ?_, ?_, ?_, ?_⟩
  · simp only [BitVec.getLsbD_append]
    simp
  · simp only [BitVec.getLsbD_append]
    simp
  · simp only [BitVec.getLsbD_append]
    simp
  · refine BitVec.eq_of_getLsbD_eq (fun i hi => ?_)
    simp only [BitVec.getLsbD_extractLsb', BitVec.getLsbD_append]
    interval_cases i <;> simp
  · refine BitVec.eq_of_getLsbD_eq (fun i hi => ?_)
    simp only [BitVec.getLsbD_and, BitVec.getLsbD_append]
    interval_cases i <;> simp

theorem immIndex_eq (index up wback : Bool) (k : BitVec 8) :
    0x0800#32 ||| flag index 10 ||| flag up 9 ||| flag wback 8 ||| k.setWidth 32
      = (immIndex index up wback k).setWidth 32 := by
  unfold immIndex flag
  refine BitVec.eq_of_getLsbD_eq (fun i hi => ?_)
  simp only [BitVec.getLsbD_setWidth, BitVec.getLsbD_or, BitVec.getLsbD_shiftLeft,
    BitVec.getLsbD_append, BitVec.getLsbD_ofBool]
  interval_cases i <;> simp

section Wide

variable (operation : ThumbMemoryOperation) {rn rt : Reg}

/-- **A transfer of twelve bits.** -/
theorem decodeOne_offset (imm : BitVec 12) (hn : rn ≠ PC) (ht : rt ≠ PC) :
    decodeOne [transferHigh 0b11111000110#11 operation rn, rt ++ imm]
      = some ⟨always, transferOp operation true true false rt rn (imm.setWidth 32)⟩ := by
  cases operation with
  | load =>
    refine (decodeOne_wide 9 rfl BitVec.and_zero ?_ ?_).trans ?_
    · revert rn
      decide
    · revert rn
      decide
    · obtain ⟨h16, h12, h0⟩ := fields_formWide (transferTop 0b11111000110#11 .load) rn rt imm
      simp only [thumbRow, Bool.false_eq_true,
        if_false, h16, h12, h0]
      rfl
  | store =>
    refine (decodeOne_wide 11 rfl BitVec.and_zero ?_ ?_).trans ?_
    · revert rn
      decide
    · revert rn
      decide
    · obtain ⟨h16, h12, h0⟩ := fields_formWide (transferTop 0b11111000110#11 .store) rn rt imm
      simp only [thumbRow, h16, h12, h0,
        beq_eq_false_iff_ne.mpr hn, beq_eq_false_iff_ne.mpr ht, Bool.or_false, Bool.false_eq_true,
        if_false]
      rfl

theorem thumbTransferExcluded_index (top : BitVec 12) (rn rt : Reg) (index up : Bool)
    (k : BitVec 8) :
    thumbTransferExcluded (formWide top rn rt (immIndex index up true k)) = decide (rn = rt) := by
  obtain ⟨h16, h12, -⟩ := fields_formWide top rn rt (immIndex index up true k)
  obtain ⟨h10, h9, h8, -, -⟩ := fields_immIndex top rn rt index up true k
  rw [thumbTransferExcluded, h10, h9, h8, h16, h12]
  cases index <;> cases up <;> rfl

/-- **An indexed transfer** that writes back: the base is not transferred. -/
theorem decodeOne_index (index up : Bool) (k : BitVec 8) (hn : rn ≠ PC) (ht : rt ≠ PC) :
    decodeOne [transferHigh 0b11111000010#11 operation rn, rt ++ immIndex index up true k]
      = if rn = rt then none else
        some ⟨always, transferOp operation index up true rt rn (k.setWidth 32)⟩ := by
  have hz := (fields_immIndex 0#12 0#4 rt index up true k).2.2.2.2
  cases operation with
  | load =>
    refine (decodeOne_wide 10 rfl hz ?_ ?_).trans ?_
    · revert rn
      decide
    · revert rn
      decide
    · obtain ⟨h16, h12, -⟩ := fields_formWide (transferTop 0b11111000010#11 .load) rn rt
        (immIndex index up true k)
      obtain ⟨h10, h9, h8, h0, -⟩ :=
        fields_immIndex (transferTop 0b11111000010#11 .load) rn rt index up true k
      simp only [thumbRow, thumbTransferExcluded_index, decide_eq_true_eq, h16, h12, h10, h9, h8,
        h0]
      rfl
  | store =>
    refine (decodeOne_wide 12 rfl hz ?_ ?_).trans ?_
    · revert rn
      decide
    · revert rn
      decide
    · obtain ⟨h16, h12, -⟩ := fields_formWide (transferTop 0b11111000010#11 .store) rn rt
        (immIndex index up true k)
      obtain ⟨h10, h9, h8, h0, -⟩ :=
        fields_immIndex (transferTop 0b11111000010#11 .store) rn rt index up true k
      simp only [thumbRow, thumbTransferExcluded_index, beq_eq_false_iff_ne.mpr hn,
        beq_eq_false_iff_ne.mpr ht, Bool.or_false, decide_eq_true_eq, h16, h12, h10, h9, h8, h0]
      rfl

/-- A wide literal load below the program counter. -/
theorem decodeOne_wideLiteral (rt : Reg) (imm : BitVec 12) :
    decodeOne [0xF85#12 ++ PC, rt ++ imm] = some ⟨always, .ldrLit false rt (imm.setWidth 32)⟩ := by
  refine (decodeOne_wide 6 rfl BitVec.and_zero (by decide) (by decide)).trans ?_
  obtain ⟨-, h12, h0⟩ := fields_formWide 0xF85#12 PC rt imm
  have h23 : (formWide 0xF85#12 PC rt imm).getLsbD 23 = false := by
    simp only [formWide, BitVec.getLsbD_append]
    simp
  simp only [thumbRow, Bool.false_eq_true, if_false, h12, h0, h23]

/-- The first twelve bits of a wide sum. -/
def addTop (sub : Bool) (i : BitVec 1) : BitVec 12 :=
  0b11110#5 ++ (i ++ (if sub then 0b101010#6 else 0b100000#6))

theorem fields_add (sub : Bool) (rn rd : Reg) (k : BitVec 12) :
    armReg (formWide (addTop sub (k.extractLsb' 11 1)) rn (0b0#1 ++ k.extractLsb' 8 3)
        (rd ++ k.extractLsb' 0 8)) 8 = rd
      ∧ thumbImm12 (formWide (addTop sub (k.extractLsb' 11 1)) rn (0b0#1 ++ k.extractLsb' 8 3)
        (rd ++ k.extractLsb' 0 8)) = k.setWidth 32 := by
  unfold formWide addTop armReg thumbImm12
  refine ⟨?_, ?_⟩ <;> refine BitVec.eq_of_getLsbD_eq (fun i hi => ?_) <;>
    simp only [BitVec.getLsbD_extractLsb', BitVec.getLsbD_append, BitVec.getLsbD_setWidth] <;>
    interval_cases i <;> simp

/-- **A sum of twelve bits**, which is an `ADR` with the program counter. -/
theorem decodeOne_addWide (sub : Bool) (rn : Reg) {rd : Reg} (hd : badReg rd = false)
    (k : BitVec 12) :
    decodeOne [addTop sub (k.extractLsb' 11 1) ++ rn,
        (0b0#1 ++ k.extractLsb' 8 3) ++ (rd ++ k.extractLsb' 0 8)]
      = some ⟨always, if rn = PC then .adr (!sub) rd (k.setWidth 32)
          else .addImm false rd rn (if sub then -k.setWidth 32 else k.setWidth 32)⟩ := by
  have hz : ((0b0#1 ++ k.extractLsb' 8 3) ++ (rd ++ k.extractLsb' 0 8) : Half) &&& 0x8000#16
      = 0#16 := by
    refine BitVec.eq_of_getLsbD_eq (fun i hi => ?_)
    simp only [BitVec.getLsbD_and, BitVec.getLsbD_append]
    interval_cases i <;> simp
  have hrows : ∀ (i : BitVec 1) (r : Reg), isThumb32 (addTop sub i ++ r) = true := by
    cases sub <;> decide
  obtain ⟨h8, himm⟩ := fields_add sub rn rd k
  obtain ⟨h16, -, -⟩ := fields_formWide (addTop sub (k.extractLsb' 11 1)) rn
    (0b0#1 ++ k.extractLsb' 8 3) (rd ++ k.extractLsb' 0 8)
  by_cases hn : rn = PC
  · subst hn
    cases sub with
    | false =>
      refine (decodeOne_wide 5 rfl hz ?_ (hrows _ _)).trans ?_
      · generalize k.extractLsb' 11 1 = i
        revert i
        decide
      · simp only [thumbRow, h8, himm, hd, Bool.false_eq_true, if_false, if_true, Bool.not_false]
    | true =>
      refine (decodeOne_wide 4 rfl hz ?_ (hrows _ _)).trans ?_
      · generalize k.extractLsb' 11 1 = i
        revert i
        decide
      · simp only [thumbRow, h8, himm, hd, Bool.false_eq_true, if_false, if_true, Bool.not_true]
  · rw [if_neg hn]
    cases sub with
    | false =>
      refine (decodeOne_wide 13 rfl hz ?_ (hrows _ _)).trans ?_
      · clear h8 himm h16
        generalize k.extractLsb' 11 1 = i
        revert i rn
        decide
      · simp only [thumbRow, h8, himm, h16, hd, Bool.false_eq_true, if_false]
    | true =>
      refine (decodeOne_wide 14 rfl hz ?_ (hrows _ _)).trans ?_
      · clear h8 himm h16
        generalize k.extractLsb' 11 1 = i
        revert i rn
        decide
      · simp only [thumbRow, h8, himm, h16, hd, Bool.false_eq_true, if_false, if_true]

end Wide

/-! ### What the writer writes -/

theorem bits_eq (operation : ThumbMemoryOperation) (k : ℕ) :
    operation.bits (1#32 <<< k) = flag operation.loads k := by
  cases operation with
  | load => rfl
  | store => exact (BitVec.zero_shiftLeft k).symm

section Written

variable (self : AssemblerWriter) (operation : ThumbMemoryOperation) (a c : BitVec 3) {n : ℕ}

/-- The first form of a transfer cuts two bits off. -/
theorem thumbPutTransferT1_eq (hn : n < 128) :
    (self.thumbPutTransferT1 operation (a.setWidth 4) (c.setWidth 4) n).1
      = self.emit [.thumb (form5 operation.loads (BitVec.ofNat 5 (n / 4)) c a)] := by
  have hlow : ∀ b : BitVec 3, b.setWidth 4 ≤ 7#4 := by decide
  have hq : n / 4 < 2 ^ 5 := by omega
  rw [thumbPutTransferT1, if_neg (not_lt.mpr (Int.natCast_nonneg n)),
    if_pos ⟨hlow a, hlow c, by omega⟩, show (n : ℤ).tdiv 4 = ((n / 4 : ℕ) : ℤ) from rfl,
    ofInt_natCast_eq (by decide) hq, ← form5_eq, ← bits_eq]
  rfl

/-- So does the second one, on the stack pointer. -/
theorem thumbPutTransferT2_eq (hn : n < 1024) :
    (self.thumbPutTransferT2 operation (a.setWidth 4) SP n).1
      = self.emit [.thumb (form8 0b1001#4 operation.loads a (BitVec.ofNat 8 (n / 4)))] := by
  have hlow : ∀ b : BitVec 3, b.setWidth 4 ≤ 7#4 := by decide
  have hq : n / 4 < 2 ^ 8 := by omega
  have hor : ∀ w x y z : Word, w ||| x ||| y ||| z = w ||| z ||| x ||| y := by
    intros
    ac_rfl
  rw [thumbPutTransferT2, if_neg (not_lt.mpr (Int.natCast_nonneg n)),
    if_pos ⟨rfl, hlow a, by omega⟩, show (n : ℤ).tdiv 4 = ((n / 4 : ℕ) : ℤ) from rfl,
    ofInt_natCast_eq (by decide) hq, ← form8_eq, ← bits_eq, hor]
  rfl

/-- The third one takes any offset. -/
theorem thumbPutTransferT3_eq (rt : Reg) {rn : Reg} (hr : rn ≠ PC) (hn : n < 4096) :
    (self.thumbPutTransferT3 operation rt rn n).1
      = self.emit [.thumb (transferHigh 0b11111000110#11 operation rn),
          .thumb (rt ++ BitVec.ofNat 12 n)] := by
  have hq : n < 2 ^ 12 := hn
  rw [thumbPutTransferT3, if_neg (not_lt.mpr (Int.natCast_nonneg n)), if_pos (by omega),
    if_neg hr, ofInt_natCast_eq (by decide) hq, transferHigh, ← formHigh_eq, ← formLow_eq]
  cases operation <;> rfl

/-- The fourth one, with a sign and write-back. -/
theorem thumbPutTransferT4_eq (rt : Reg) {rn : Reg} {v : ℤ} (index : Bool) (hr : rn ≠ PC)
    (hv : v.natAbs < 256) :
    (self.thumbPutTransferT4 operation rt rn v index true).1
      = self.emit [.thumb (transferHigh 0b11111000010#11 operation rn),
          .thumb (rt ++ immIndex index (0 < v) true (BitVec.ofNat 8 v.natAbs))] := by
  have hq : v.natAbs < 2 ^ 8 := hv
  have hor : ∀ u w x y z t : Word, u ||| w ||| x ||| y ||| z ||| t
      = w ||| (u ||| x ||| y ||| z ||| t) := by
    intros
    ac_rfl
  rw [thumbPutTransferT4, if_pos hv, if_neg hr, absWord_eq (by decide) hq, hor, immIndex_eq,
    transferHigh, ← formHigh_eq, ← formLow_eq]
  cases operation <;> rfl

/-- On the program counter it is a literal load. -/
theorem thumbPutTransferT4_pc {v : ℤ} (index : Bool) (hv : v.natAbs < 256) :
    (self.thumbPutTransferT4 operation (a.setWidth 4) PC v index true).1
      = if 0 ≤ v then self.emit [.thumb (form8 0b0100#4 true a (BitVec.ofNat 8 (v.natAbs / 4)))]
        else self.emit [.thumb (0xF85#12 ++ PC),
          .thumb (a.setWidth 4 ++ BitVec.ofNat 12 v.natAbs)] := by
  have hlow : ∀ b : BitVec 3, b.setWidth 4 ≤ 7#4 := by decide
  rw [thumbPutTransferT4, if_pos hv, if_pos rfl]
  by_cases h0 : 0 ≤ v
  · obtain ⟨n, rfl⟩ := Int.eq_ofNat_of_zero_le h0
    have hq : n / 4 < 2 ^ 8 := by omega
    have hmask : (BitVec.ofNat 8 (n / 4)).setWidth 32 &&& 0xff#32
        = (BitVec.ofNat 8 (n / 4)).setWidth 32 := by
      generalize BitVec.ofNat 8 (n / 4) = k
      revert k
      decide
    rw [if_pos h0, thumbPutLdrRegImm, if_pos ⟨hlow a, h0, by omega⟩,
      show (n : ℤ).tdiv 4 = ((n / 4 : ℕ) : ℤ) from rfl, ofInt_natCast_eq (by decide) hq, hmask,
      Int.natAbs_natCast, ← form8_eq]
    rfl
  · have hq : v.natAbs < 2 ^ 12 := lt_trans hv (by decide)
    rw [if_neg h0, thumbPutLdrRegImm, if_neg (fun h => h0 h.2.1), if_pos (by omega),
      absWord_eq (by decide) hq, ← formLow_eq, decide_eq_false h0]
    rfl

theorem flag_eq_ite (p : Prop) [Decidable p] (k : ℕ) :
    (if p then 1#32 <<< k else 0#32) = flag p k := by
  by_cases h : p
  · rw [if_pos h, decide_eq_true h]
    rfl
  · rw [if_neg h, decide_eq_false h]
    exact (BitVec.zero_shiftLeft k).symm

/-- A sum of eight bits with the register itself. -/
theorem thumbPutAddRegImm_low {v : ℤ} (hv : v.natAbs < 256) :
    self.thumbPutAddRegImm (a.setWidth 4) v
      = self.emit [.thumb (form8 0b0011#4 (v < 0) a (BitVec.ofNat 8 v.natAbs))] := by
  have hsp : ∀ b : BitVec 3, b.setWidth 4 ≠ SP := by decide
  have hq : v.natAbs < 2 ^ 8 := hv
  rw [thumbPutAddRegImm, if_neg (hsp a), absWord_eq (by decide) hq, ← form8_eq, ← flag_eq_ite]
  rfl

/-- A sum of seven bits of words with the stack pointer. -/
theorem thumbPutAddRegImm_sp {v : ℤ} (hv : v.natAbs < 512) :
    self.thumbPutAddRegImm SP v
      = self.emit [.thumb (form7 (v < 0) (BitVec.ofNat 7 (v.natAbs / 4)))] := by
  have hq : (v.tdiv 4).natAbs < 2 ^ 7 := by
    rw [Int.natAbs_tdiv]
    show v.natAbs / 4 < 128
    omega
  rw [thumbPutAddRegImm, if_pos rfl, absWord_eq (by decide) hq, ← form7_eq, ← flag_eq_ite,
    Int.natAbs_tdiv]
  rfl

/-- Where the register or the constant does not fit, what is written is a sum
of eight bits still. -/
theorem thumbPutAddRegImm_other {r : Reg} (hr : r ≠ SP) {v : ℤ} (hv : v.natAbs < 4096) :
    ∃ b a' k, ∀ self : AssemblerWriter,
      self.thumbPutAddRegImm r v = self.emit [.thumb (form8 0b0011#4 b a' k)] := by
  have hq : v.natAbs < 2 ^ 12 := hv
  have hform : ∀ (s : Bool) (k : BitVec 12),
      (0x3000#32 ||| flag s 11 ||| regAt r 8 ||| k.setWidth 32).setWidth 16
        = form8 0b0011#4 (s || r.getLsbD 3 || k.getLsbD 11)
          (r.extractLsb' 0 3 ||| k.extractLsb' 8 3) (k.extractLsb' 0 8) := by
    intro s k
    unfold form8 flag regAt
    refine BitVec.eq_of_getLsbD_eq (fun i hi => ?_)
    simp only [BitVec.getLsbD_setWidth, BitVec.getLsbD_or, BitVec.getLsbD_shiftLeft,
      BitVec.getLsbD_append, BitVec.getLsbD_ofBool, BitVec.getLsbD_extractLsb']
    interval_cases i <;> simp
  have hput : ∀ self : AssemblerWriter, self.thumbPutAddRegImm r v
      = self.put (.thumb ((0x3000#32 ||| flag (v < 0) 11 ||| regAt r 8
        ||| (BitVec.ofNat 12 v.natAbs).setWidth 32).setWidth 16)) := by
    intro self
    rw [thumbPutAddRegImm, if_neg hr, absWord_eq (by decide) hq, ← flag_eq_ite]
    rfl
  exact ⟨_, _, _, fun self => (hput self).trans
    (congrArg (fun w => self.put (.thumb w)) (hform _ _))⟩

/-- A sum of three bits. -/
theorem thumbPutAddRegRegImm_three (hca : c ≠ a) {v : ℤ} (hv : v.natAbs < 8) :
    self.thumbPutAddRegRegImm (a.setWidth 4) (c.setWidth 4) v
      = self.emit [.thumb (form3 (v < 0) (BitVec.ofNat 3 v.natAbs) c a)] := by
  have hlow : ∀ b : BitVec 3, b.setWidth 4 ≤ 7#4 := by decide
  have hinj : ∀ b b' : BitVec 3, b.setWidth 4 = b'.setWidth 4 → b = b' := by decide
  have hq : v.natAbs < 2 ^ 3 := hv
  rw [thumbPutAddRegRegImm, if_neg (fun h => hca (hinj c a h)), if_pos ⟨hlow a, hlow c, hv⟩,
    absWord_eq (by decide) hq, ← form3_eq, ← flag_eq_ite]
  rfl

/-- A sum of eight bits of words with the stack pointer or the program
counter. -/
theorem thumbPutAddRegRegImm_base {rn : Reg} (hr : rn = SP ∨ rn = PC) (hn : 0 < n ∧ n < 256)
    (h4 : n % 4 = 0) :
    self.thumbPutAddRegRegImm (a.setWidth 4) rn n
      = self.emit [.thumb (form8 0b1010#4 (rn = SP) a (BitVec.ofNat 8 (n / 4)))] := by
  have hlow : ∀ b : BitVec 3, b.setWidth 4 ≤ 7#4 := by decide
  have hne : rn ≠ a.setWidth 4 := by
    rcases hr with rfl | rfl <;> revert a <;> decide
  have hhigh : ¬ rn ≤ 7#4 := by
    rcases hr with rfl | rfl <;> decide
  have hq : n / 4 < 2 ^ 8 := by omega
  rw [thumbPutAddRegRegImm, if_neg hne, if_neg (fun h => hhigh h.2.1),
    if_pos ⟨hr, hlow a, by omega, by omega, by omega⟩,
    show (n : ℤ).tdiv 4 = ((n / 4 : ℕ) : ℤ) from rfl, ofInt_natCast_eq (by decide) hq, ← form8_eq,
    ← flag_eq_ite]
  rfl

/-- **A sum of twelve bits**, which takes any constant. -/
theorem thumbPutAddRegRegImm_wide {rn : Reg} {v : ℤ} (hv : v.natAbs < 4096)
    (h0 : rn ≠ a.setWidth 4) (h3 : ¬ (rn ≤ 7#4 ∧ v.natAbs < 8))
    (h8 : ¬ ((rn = SP ∨ rn = PC) ∧ 0 < v ∧ v % 4 = 0 ∧ v < 256)) :
    self.thumbPutAddRegRegImm (a.setWidth 4) rn v
      = self.emit [.thumb (addTop (v < 0) ((BitVec.ofNat 12 v.natAbs).extractLsb' 11 1) ++ rn),
          .thumb ((0b0#1 ++ (BitVec.ofNat 12 v.natAbs).extractLsb' 8 3)
            ++ (a.setWidth 4 ++ (BitVec.ofNat 12 v.natAbs).extractLsb' 0 8))] := by
  have hq : v.natAbs < 2 ^ 12 := hv
  have hhigh : ∀ (s : Bool) (k : BitVec 12),
      ((if s then 0b1111001010100000#32 else 0b1111001000000000#32)
        ||| (((k.setWidth 32 >>> 11) &&& 0x1#32) <<< 10) ||| regAt rn 0).setWidth 16
        = addTop s (k.extractLsb' 11 1) ++ rn := by
    intro s k
    unfold addTop regAt
    refine BitVec.eq_of_getLsbD_eq (fun i hi => ?_)
    cases s <;> simp only [BitVec.getLsbD_setWidth, BitVec.getLsbD_or, BitVec.getLsbD_and,
      BitVec.getLsbD_shiftLeft, BitVec.getLsbD_ushiftRight, BitVec.getLsbD_append,
      BitVec.getLsbD_extractLsb', if_true, Bool.false_eq_true, if_false] <;>
      interval_cases i <;> simp
  have hlow : ∀ k : BitVec 12,
      (0b0#32 ||| (((k.setWidth 32 >>> 8) &&& 0b111#32) <<< 12) ||| regAt (a.setWidth 4) 8
        ||| (k.setWidth 32 &&& 0b11111111#32)).setWidth 16
        = (0b0#1 ++ k.extractLsb' 8 3) ++ (a.setWidth 4 ++ k.extractLsb' 0 8) := by
    intro k
    unfold regAt
    refine BitVec.eq_of_getLsbD_eq (fun i hi => ?_)
    simp only [BitVec.getLsbD_setWidth, BitVec.getLsbD_or, BitVec.getLsbD_and,
      BitVec.getLsbD_shiftLeft, BitVec.getLsbD_ushiftRight, BitVec.getLsbD_append,
      BitVec.getLsbD_extractLsb']
    interval_cases i <;> simp
  rw [thumbPutAddRegRegImm, if_neg h0, if_neg (fun h => h3 h.2), if_neg (fun h => h8 ⟨h.1, h.2.2⟩),
    absWord_eq (by decide) hq, ← hhigh, ← hlow]
  simp only [decide_eq_true_eq]
  rfl

end Written

/-! ### The calls -/

theorem ofOp_transferOp (operation : ThumbMemoryOperation) (index up wback : Bool) (rt rn : Reg)
    (imm : Word) : Requested.ofOp (transferOp operation index up wback rt rn imm)
      = some (.transfer operation index wback rt rn (if up then imm else -imm)) := by
  cases operation <;> rfl

/-- A sum of eight bits has a low register and a constant of eight bits. -/
theorem sum_form8 {b : Bool} {a : BitVec 3} {k : BitVec 8} {rd rn : Reg} {w : Word}
    (h : (decodeOne [form8 0b0011#4 b a k]).bind Requested.ofInsn = some (.add rd rn w)) :
    rd = a.setWidth 4 ∧ ∃ u : ℤ, u.natAbs < 256 ∧ w = BitVec.ofInt 32 u := by
  have hk : k.setWidth 32 = BitVec.ofInt 32 (k.toNat : ℤ) := by
    rw [ofInt_natCast_eq (by decide) k.isLt, BitVec.ofNat_toNat, BitVec.setWidth_eq]
  cases b with
  | false =>
    rw [decodeOne_form8_add] at h
    cases h
    exact ⟨rfl, k.toNat, k.isLt, hk⟩
  | true =>
    rw [decodeOne_form8_sub] at h
    by_cases h0 : k = 0#8
    · rw [if_pos h0] at h
      cases h
    · rw [if_neg h0] at h
      cases h
      refine ⟨rfl, -k.toNat, ?_, ?_⟩
      · rw [Int.natAbs_neg]
        exact k.isLt
      · rw [BitVec.ofInt_neg, hk]

namespace EncoderCall

variable {r : EncoderCall} (self : AssemblerWriter)

/-- A call that emits one thing whatever the writer. -/
theorem does_eq {es : List Emission} (h : ∀ self, r.put self = self.emit es) :
    r.does self = (decodeOne (es.flatMap Emission.halves)).bind Requested.ofInsn := by
  rw [does, written, h, emit_buffer]
  rfl

/-- A field of eight bits of words, or of five or seven. -/
theorem words_eq {n q : ℕ} (hn : n ≤ 32) (hq : q / 4 < 2 ^ n) :
    (BitVec.ofNat n (q / 4)).setWidth 32 <<< 2 = BitVec.ofInt 32 (4 * (q : ℤ).tdiv 4) := by
  rw [← ofInt_natCast_eq hn hq, shiftLeft_two_ofInt]
  rfl

theorem append_zeros (k : BitVec 5) : (k ++ 0b00#2).setWidth 32 = k.setWidth 32 <<< 2 := by
  revert k
  decide

/-- A transfer whose offset lost its low bits. -/
theorem rounded_transfer_iff (operation : ThumbMemoryOperation) (rt rn : Reg) {v : ℤ}
    (hv : v.natAbs < 4096) :
    some (Requested.transfer operation true false rt rn (BitVec.ofInt 32 (4 * v.tdiv 4)))
      = some (.transfer operation true false rt rn (BitVec.ofInt 32 v)) ↔ 4 ∣ v := by
  rw [← rounded_iff hv]
  refine ⟨fun h => ?_, fun h => by rw [h]⟩
  injection h with h
  injection h

/-- On the program counter the third form is more than one instruction. -/
theorem thumbPutTransferT3_pc (operation : ThumbMemoryOperation) (rt : Reg) {n : ℕ}
    (hn : n < 4096) :
    (∃ x y z, ∀ self : AssemblerWriter, (self.thumbPutTransferT3 operation rt PC n).1
        = self.emit [.thumb x, .thumb y, .thumb z])
      ∨ ∃ x y z u, ∀ self : AssemblerWriter, (self.thumbPutTransferT3 operation rt PC n).1
        = self.emit [.thumb x, .thumb y, .thumb z, .thumb u] := by
  have h0 : ¬ (n : ℤ) < 0 := not_lt.mpr (Int.natCast_nonneg n)
  have h1 : (n : ℤ) < 4096 := by omega
  by_cases h : rt ≤ 7#4 ∧ 0 ≤ (n : ℤ) ∧ (n : ℤ) < 1024
  · simp only [thumbPutTransferT3, if_neg h0, if_pos h1, if_true, thumbPutLdrRegImm, if_pos h]
    exact Or.inl ⟨_, _, _, fun self => rfl⟩
  · simp only [thumbPutTransferT3, if_neg h0, if_pos h1, if_true, thumbPutLdrRegImm, if_neg h]
    exact Or.inr ⟨_, _, _, _, fun self => rfl⟩

/-- **When an offset form is right.** -/
theorem offset_iff (operation : ThumbMemoryOperation) {rt rn : Reg} {off : ℤ} (ht : rt ≤ 7#4)
    (hn : IsBase rn) (h0 : 0 ≤ off) (hlt : off < 4096)
    (hput : ∀ self, r.put self = self.thumbPutTransfer operation rt rn off) :
    r.does self = some (.transfer operation true false rt rn (BitVec.ofInt 32 off))
      ↔ rn ≠ PC ∧ (4 ∣ off ∨ (if rn = SP then 1024 else 128) ≤ off) := by
  have hlow : ∀ b : BitVec 3, b.setWidth 4 ≤ 7#4 ∧ b.setWidth 4 ≠ SP ∧ b.setWidth 4 ≠ PC := by
    decide
  have hhigh : ¬ SP ≤ 7#4 ∧ ¬ PC ≤ 7#4 ∧ SP ≠ PC := by decide
  obtain ⟨a, rfl⟩ := exists_low ht
  obtain ⟨n, rfl⟩ := Int.eq_ofNat_of_zero_le h0
  have hn4096 : n < 4096 := by omega
  -- the form that is taken
  have hform : ∀ self, r.put self = _ := fun self => (hput self).trans (thumbPutTransfer_eq ..)
  -- the third form is exact
  have hthird : rn ≠ PC → (∀ self : AssemblerWriter, r.put self
      = (self.thumbPutTransferT3 operation (a.setWidth 4) rn n).1) →
      r.does self = some (.transfer operation true false (a.setWidth 4) rn
        (BitVec.ofInt 32 (n : ℤ))) := by
    intro hpc h
    rw [does_eq self (fun self => (h self).trans
      (thumbPutTransferT3_eq self operation (a.setWidth 4) hpc hn4096))]
    refine (congrArg (Option.bind · _)
      (decodeOne_offset operation _ hpc (hlow a).2.2)).trans ?_
    rw [ofInt_natCast_eq (n := 12) (by decide) hn4096]
    exact ofOp_transferOp _ _ _ _ _ _ _
  rcases hn with hc | rfl | rfl
  · obtain ⟨c, rfl⟩ := exists_low hc
    rw [if_neg (hlow c).2.1]
    by_cases h : n < 128
    · have hd : r.does self = some (.transfer operation true false (a.setWidth 4) (c.setWidth 4)
          (BitVec.ofInt 32 (4 * (n : ℤ).tdiv 4))) := by
        rw [does_eq self (fun self => (hform self).trans ((if_pos
          ⟨h0, (hlow a).1, (hlow c).1, by omega⟩).trans
            (thumbPutTransferT1_eq self operation a c h)))]
        refine (congrArg (Option.bind · _) (decodeOne_form5 operation _ c a)).trans ?_
        rw [append_zeros, words_eq (by decide) (by omega)]
        exact ofOp_transferOp _ _ _ _ _ _ _
      rw [hd, rounded_transfer_iff _ _ _ (by omega)]
      refine ⟨fun hdvd => ⟨(hlow c).2.2, Or.inl hdvd⟩, fun hdvd => hdvd.2.resolve_right (by omega)⟩
    · refine iff_of_true (hthird (hlow c).2.2 (fun self => ?_)) ⟨(hlow c).2.2, Or.inr (by omega)⟩
      rw [hform, if_neg (fun h' => h (by omega)), if_neg (fun h' => (hlow c).2.1 h'.2.1),
        if_pos ⟨h0, hlt⟩]
  · rw [if_pos rfl]
    by_cases h : n < 1024
    · have hd : r.does self = some (.transfer operation true false (a.setWidth 4) SP
          (BitVec.ofInt 32 (4 * (n : ℤ).tdiv 4))) := by
        rw [does_eq self (fun self => (hform self).trans ((if_neg
          (fun h' => hhigh.1 h'.2.2.1)).trans ((if_pos ⟨h0, rfl, (hlow a).1, by omega⟩).trans
            (thumbPutTransferT2_eq self operation a h))))]
        refine (congrArg (Option.bind · _) (decodeOne_form8_sp operation a _)).trans ?_
        rw [words_eq (by decide) (by omega)]
        exact ofOp_transferOp _ _ _ _ _ _ _
      rw [hd, rounded_transfer_iff _ _ _ (by omega)]
      refine ⟨fun hdvd => ⟨hhigh.2.2, Or.inl hdvd⟩, fun hdvd => hdvd.2.resolve_right (by omega)⟩
    · refine iff_of_true (hthird hhigh.2.2 (fun self => ?_)) ⟨hhigh.2.2, Or.inr (by omega)⟩
      rw [hform, if_neg (fun h' => hhigh.1 h'.2.2.1), if_neg (fun h' => h (by omega)),
        if_pos ⟨h0, hlt⟩]
  · refine iff_of_false (fun hd => ?_) (fun h => h.1 rfl)
    have hpc : ∀ self, r.put self
        = (self.thumbPutTransferT3 operation (a.setWidth 4) PC n).1 := by
      intro self
      rw [hform, if_neg (fun h' => hhigh.2.1 h'.2.2.1), if_neg (fun h' => hhigh.2.2 h'.2.1.symm),
        if_pos ⟨h0, hlt⟩]
    rcases thumbPutTransferT3_pc operation (a.setWidth 4) hn4096 with ⟨x, y, z, h⟩ | ⟨x, y, z, u, h⟩
    · rw [does_eq self (fun self => (hpc self).trans (h self))] at hd
      cases hd
    · rw [does_eq self (fun self => (hpc self).trans (h self))] at hd
      cases hd

/-- An absolute value under the sign of what it is of. -/
theorem signed_pos (v : ℤ) :
    (if 0 < v then absWord v else -absWord v) = BitVec.ofInt 32 v := by
  rcases lt_trichotomy v 0 with h | rfl | h
  · rw [if_neg (not_lt.mpr h.le), ← signed_absWord, if_pos h]
  · rfl
  · rw [if_pos h, ← signed_absWord v, if_neg (not_lt.mpr h.le)]

/-- **When an indexed form is right.** -/
theorem index_iff (operation : ThumbMemoryOperation) {rt rn : Reg} {off : ℤ} (index : Bool)
    (ht : rt ≤ 7#4) (hoff : off.natAbs < 256)
    (hput : ∀ self, r.put self = (self.thumbPutTransferT4 operation rt rn off index true).1) :
    r.does self = some (.transfer operation index true rt rn (BitVec.ofInt 32 off))
      ↔ rn ≠ PC ∧ rn ≠ rt := by
  have hlow : ∀ b : BitVec 3, b.setWidth 4 ≠ PC := by decide
  obtain ⟨a, rfl⟩ := exists_low ht
  by_cases hpc : rn = PC
  · subst hpc
    refine iff_of_false (fun hd => ?_) (fun h => h.1 rfl)
    have hpc : ∀ self, r.put self = _ :=
      fun self => (hput self).trans (thumbPutTransferT4_pc self operation a index hoff)
    by_cases h0 : 0 ≤ off
    · rw [does_eq self (fun self => (hpc self).trans (if_pos h0))] at hd
      have hd' := (congrArg (Option.bind · Requested.ofInsn)
        (decodeOne_form8_literal a (BitVec.ofNat 8 (off.natAbs / 4)))).symm.trans hd
      cases hd'
    · rw [does_eq self (fun self => (hpc self).trans (if_neg h0))] at hd
      have hd' := (congrArg (Option.bind · Requested.ofInsn)
        (decodeOne_wideLiteral (a.setWidth 4) (BitVec.ofNat 12 off.natAbs))).symm.trans hd
      cases hd'
  · rw [does_eq self (fun self => (hput self).trans
      (thumbPutTransferT4_eq self operation (a.setWidth 4) index hpc hoff))]
    have hdec := congrArg (Option.bind · Requested.ofInsn) (decodeOne_index operation index
      (0 < off) (BitVec.ofNat 8 off.natAbs) hpc (hlow a))
    refine Iff.trans (Eq.congr_left hdec) ?_
    by_cases heq : rn = a.setWidth 4
    · rw [if_pos heq]
      exact iff_of_false (fun h => nomatch h) (fun h => h.2 heq)
    · rw [if_neg heq]
      refine iff_of_true ?_ ⟨hpc, heq⟩
      refine (ofOp_transferOp _ _ _ _ _ _ _).trans ?_
      rw [← absWord_eq (n := 8) (by decide) hoff]
      simp only [decide_eq_true_eq, signed_pos]

/-- **A sum with the register itself** is right if the constant has eight
bits. -/
theorem does_addRegImm_low (a : BitVec 3) {v : ℤ} (hv : v.natAbs < 256)
    (hput : ∀ self, r.put self = self.thumbPutAddRegImm (a.setWidth 4) v) :
    r.does self = some (.add (a.setWidth 4) (a.setWidth 4) (BitVec.ofInt 32 v)) := by
  have hq : v.natAbs < 2 ^ 8 := hv
  rw [does_eq self (fun self => (hput self).trans (thumbPutAddRegImm_low self a hv)),
    ← signed_absWord v, absWord_eq (by decide) hq]
  by_cases h : v < 0
  · have hk : BitVec.ofNat 8 v.natAbs ≠ 0#8 := ofNat_ne_zero hq h.ne
    rw [if_pos h, decide_eq_true h]
    refine (congrArg (Option.bind · Requested.ofInsn) (decodeOne_form8_sub a _)).trans ?_
    rw [if_neg hk]
    rfl
  · rw [if_neg h, decide_eq_false h]
    exact congrArg (Option.bind · Requested.ofInsn) (decodeOne_form8_add a _)

/-- It is wrong where the register or the constant does not fit. -/
theorem does_addRegImm_other {rd : Reg} (hr : rd ≠ SP) {v : ℤ} (hv : v.natAbs < 4096)
    (hbad : rd = PC ∨ 256 ≤ v.natAbs)
    (hput : ∀ self, r.put self = self.thumbPutAddRegImm rd v) :
    r.does self ≠ some (.add rd rd (BitVec.ofInt 32 v)) := by
  have hpc : ∀ a : BitVec 3, PC ≠ a.setWidth 4 := by decide
  obtain ⟨b, a, k, h⟩ := thumbPutAddRegImm_other hr hv
  intro hd
  rw [does_eq self (fun self => (hput self).trans (h self))] at hd
  obtain ⟨ha, u, hu, huv⟩ := sum_form8 hd
  rcases hbad with rfl | hbig
  · exact hpc a ha
  · rw [ofInt_inj (by omega) (by omega)] at huv
    omega

/-- **A sum with the stack pointer** loses its low bits. -/
theorem does_addRegImm_sp {v : ℤ} (hv : v.natAbs < 512)
    (hput : ∀ self, r.put self = self.thumbPutAddRegImm SP v) :
    r.does self = some (.add SP SP (BitVec.ofInt 32 (4 * v.tdiv 4))) := by
  rw [does_eq self (fun self => (hput self).trans (thumbPutAddRegImm_sp self hv))]
  refine (congrArg (Option.bind · Requested.ofInsn) (decodeOne_form7 _ _)).trans ?_
  rw [words_eq (by decide) (show v.natAbs / 4 < 2 ^ 7 by omega)]
  by_cases h : v < 0
  · have htdiv : v.tdiv 4 = -(v.natAbs : ℤ).tdiv 4 := by
      rw [← Int.neg_tdiv, Int.ofNat_natAbs_of_nonpos h.le, Int.neg_neg]
    rw [decide_eq_true h, htdiv, Int.mul_neg, BitVec.ofInt_neg]
    rfl
  · rw [decide_eq_false h, Int.natAbs_of_nonneg (not_lt.mp h)]
    rfl

/-- **When a sum in place is right.** -/
theorem addRegImm_iff {rd : Reg} {v : ℤ} (hr : IsBase rd)
    (hv : v.natAbs < (if rd = SP then 512 else 256))
    (hput : ∀ self, r.put self = self.thumbPutAddRegImm rd v) :
    r.does self = some (.add rd rd (BitVec.ofInt 32 v)) ↔ rd ≠ PC ∧ (rd = SP → 4 ∣ v) := by
  have hlow : ∀ b : BitVec 3, b.setWidth 4 ≠ SP ∧ b.setWidth 4 ≠ PC := by decide
  have hne : PC ≠ SP := by decide
  rcases hr with ha | rfl | rfl
  · obtain ⟨a, rfl⟩ := exists_low ha
    rw [if_neg (hlow a).1] at hv
    exact iff_of_true (does_addRegImm_low self a hv hput)
      ⟨(hlow a).2, fun h => absurd h (hlow a).1⟩
  · rw [if_pos rfl] at hv
    rw [does_addRegImm_sp self hv hput, ← rounded_iff (show v.natAbs < 4096 by omega)]
    refine ⟨fun h => ⟨hne.symm, fun _ => ?_⟩, fun h => by rw [h.2 rfl]⟩
    injection h with h
    injection h
  · rw [if_neg hne] at hv
    exact iff_of_false (does_addRegImm_other self hne (by omega) (Or.inl rfl) hput)
      (fun h => h.1 rfl)

/-- **When a sum is right.** -/
theorem addRegRegImm_iff {rd rn : Reg} {v : ℤ} (hd : rd ≤ 7#4) (hn : IsBase rn)
    (hv : v.natAbs < 4096) (hput : ∀ self, r.put self = self.thumbPutAddRegRegImm rd rn v) :
    r.does self = some (.add rd rn (BitVec.ofInt 32 v)) ↔ (rn = rd → v.natAbs < 256) := by
  have hlow : ∀ b : BitVec 3, b.setWidth 4 ≠ SP ∧ badReg (b.setWidth 4) = false := by decide
  obtain ⟨a, rfl⟩ := exists_low hd
  by_cases heq : rn = a.setWidth 4
  · subst heq
    have hput' : ∀ self, r.put self = self.thumbPutAddRegImm (a.setWidth 4) v := by
      intro self
      rw [hput, thumbPutAddRegRegImm, if_pos rfl]
    by_cases h : v.natAbs < 256
    · exact iff_of_true (does_addRegImm_low self a h hput') (fun _ => h)
    · exact iff_of_false
        (does_addRegImm_other self (hlow a).1 hv (Or.inr (not_lt.mp h)) hput')
        (fun h' => h (h' rfl))
  refine iff_of_true ?_ (fun h => absurd h heq)
  by_cases h3 : rn ≤ 7#4 ∧ v.natAbs < 8
  · obtain ⟨c, rfl⟩ := exists_low h3.1
    have hq : v.natAbs < 2 ^ 3 := h3.2
    have hca : c ≠ a := fun h => heq (by rw [h])
    rw [does_eq self (fun self => (hput self).trans
      (thumbPutAddRegRegImm_three self a c hca h3.2)), ← signed_absWord v,
      absWord_eq (by decide) hq]
    by_cases h : v < 0
    · have hk : BitVec.ofNat 3 v.natAbs ≠ 0#3 := ofNat_ne_zero hq h.ne
      rw [if_pos h, decide_eq_true h]
      exact congrArg (Option.bind · Requested.ofInsn) (decodeOne_form3_sub c a hk)
    · rw [if_neg h, decide_eq_false h]
      exact congrArg (Option.bind · Requested.ofInsn) (decodeOne_form3_add _ c a)
  by_cases h8 : (rn = SP ∨ rn = PC) ∧ 0 < v ∧ v % 4 = 0 ∧ v < 256
  · obtain ⟨n, rfl⟩ := Int.eq_ofNat_of_zero_le h8.2.1.le
    have h4 : BitVec.ofInt 32 (4 * (n : ℤ).tdiv 4) = BitVec.ofInt 32 (n : ℤ) :=
      (rounded_iff (by omega)).mpr (Int.dvd_of_emod_eq_zero h8.2.2.1)
    rw [does_eq self (fun self => (hput self).trans
      (thumbPutAddRegRegImm_base self a h8.1 (by omega) (by omega))), ← h4,
      ← words_eq (n := 8) (by decide) (by omega)]
    rcases h8.1 with rfl | rfl
    · exact congrArg (Option.bind · Requested.ofInsn) (decodeOne_form8_addSp a _)
    · exact congrArg (Option.bind · Requested.ofInsn) (decodeOne_form8_adr a _)
  · have hq : v.natAbs < 2 ^ 12 := hv
    rw [does_eq self (fun self => (hput self).trans
      (thumbPutAddRegRegImm_wide self a hv heq h3 h8)), ← signed_absWord v,
      absWord_eq (by decide) hq]
    refine (congrArg (Option.bind · Requested.ofInsn)
      (decodeOne_addWide _ rn (hlow a).2 _)).trans ?_
    by_cases hpc : rn = PC
    · rw [hpc, if_pos rfl]
      by_cases h : v < 0
      · rw [if_pos h, decide_eq_true h]
        rfl
      · rw [if_neg h, decide_eq_false h]
        rfl
    · rw [if_neg hpc]
      simp only [decide_eq_true_eq]
      rfl

/-- **The encoders are right exactly where they can encode.** -/
theorem does_eq_iff (r : EncoderCall) (h : r.InRange) :
    r.does self = some r.requested ↔ r.Encodable := by
  cases r with
  | ldrRegRegOffset rt rn off =>
    exact offset_iff self .load h.1 h.2.1 h.2.2.1 h.2.2.2 (fun _ => rfl)
  | strRegRegOffset rt rn off =>
    exact offset_iff self .store h.1 h.2.1 h.2.2.1 h.2.2.2 (fun _ => rfl)
  | ldrIndexRegRegOffset rt rn off index =>
    exact index_iff self .load index h.1 h.2.2 (fun _ => rfl)
  | strIndexRegRegOffset rt rn off index =>
    exact index_iff self .store index h.1 h.2.2 (fun _ => rfl)
  | addRegImm rd imm => exact addRegImm_iff self h.1 h.2 (fun _ => rfl)
  | addRegRegImm rd rn v => exact addRegRegImm_iff self h.1 h.2.1 h.2.2 (fun _ => rfl)

/-- `LDR R0, [R1, #4]`. -/
theorem does_eq_iff_word :
    (ldrRegRegOffset 0#4 1#4 4).does (thumbReset 0#32 0#32)
        = some (ldrRegRegOffset 0#4 1#4 4).requested ↔ (ldrRegRegOffset 0#4 1#4 4).Encodable :=
  does_eq_iff (thumbReset 0#32 0#32) (ldrRegRegOffset 0#4 1#4 4)
    ⟨by decide, Or.inl (by decide), by decide, by decide⟩

/-- **An offset that is not a multiple of four is cut off**: `LDR R0, [R1, #2]`
is written as `LDR R0, [R1]`. -/
theorem not_does_eq_requested :
    ¬ ∀ (self : AssemblerWriter) (r : EncoderCall), r.InRange → r.does self = some r.requested := by
  intro h
  have h2 := h (thumbReset 0#32 0#32) (ldrRegRegOffset 0#4 1#4 2)
    ⟨by decide, Or.inl (by decide), by decide, by decide⟩
  exact absurd h2 (by decide)

end EncoderCall

end HookZz
