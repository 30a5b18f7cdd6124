import AndroidReverse.HookZzRelocator

/-!
# What the relocators write

Every rewriter of a relocator writes a block, and a block is a list of pieces:
emissions, and literals with the number of times they are registered. Writing
a list of pieces has a closed form (`Relocator.items_eq`), so a rewriter is
understood as soon as its list is known.

`thumbItems` and `armItems` are these lists, and `thumbWriteOne_eq` and
`armWriteOne_eq` say that the relocators write them. The list of a Thumb
instruction depends on where it is written only through the word phase of the
output, which a literal in the middle of a block restores.
-/

namespace HookZz

open Arm

namespace Relocator

/-! ## Blocks -/

/-- **A piece of a block**: an emission, or a literal with the number of times
it is registered. -/
inductive Item where
  /-- An emission that is not registered. -/
  | code (e : Emission)
  /-- A literal. -/
  | literal (v : Word) (registered : ℕ)
deriving DecidableEq, Repr

namespace Item

/-- What is written. -/
def emission : Item → Emission
  | code e => e
  | literal v _ => .bytes (addressBytes v)

/-- How often it is registered. -/
def registered : Item → ℕ
  | code _ => 0
  | literal _ k => k

end Item

/-- Writing one piece. -/
def item (self : Relocator) (i : Item) : Relocator :=
  registerLiteralInsn^[i.registered] (self.write (·.put i.emission))

/-- **Writing a block**, piece by piece. -/
def items (self : Relocator) (is : List Item) : Relocator := is.foldl item self

/-- Code without literals. -/
def codeItems (es : List Emission) : List Item := es.map Item.code

section Items

variable (self : Relocator) (is is' : List Item)

theorem items_cons (i : Item) : self.items (i :: is) = (self.item i).items is := rfl

theorem items_append : self.items (is ++ is') = (self.items is).items is' := List.foldl_append

theorem registerLiteralInsn_iterate (k : ℕ) :
    registerLiteralInsn^[k] self
      = { self with literalInsns := self.literalInsns
            ++ (List.replicate k self.output.insns.getLast?.toList).flatten } := by
  induction k with
  | zero => simp
  | succ k ih =>
    rw [Function.iterate_succ_apply', ih, List.replicate_succ', List.flatten_append]
    simp [registerLiteralInsn]

/-- The literals a block registers, with their records. -/
def registeredRecords (pc address : Word) : List Item → List ARMInstruction
  | [] => []
  | i :: is => List.replicate i.registered (i.emission.record pc address)
      ++ registeredRecords (pc + BitVec.ofNat 32 i.emission.size)
        (address + BitVec.ofNat 32 i.emission.size) is

theorem item_eq (i : Item) :
    self.item i = { self with
      output := self.output.put i.emission
      literalInsns := self.literalInsns
        ++ List.replicate i.registered
          (i.emission.record self.output.currentPc self.output.wCurrentAddress) } := by
  have hlast : (self.output.put i.emission).insns.getLast?
      = some (i.emission.record self.output.currentPc self.output.wCurrentAddress) :=
    List.getLast?_concat
  have hflat : ∀ (k : ℕ) (r : ARMInstruction),
      (List.replicate k [r]).flatten = List.replicate k r := by
    intro k r
    rw [List.flatten_replicate_singleton]
  unfold item write
  rw [registerLiteralInsn_iterate, hlast, Option.toList_some, hflat]

/-- **What a block does to its relocator**: the output gains the emissions and
the registry the literals; nothing else changes. -/
theorem items_eq :
    self.items is = { self with
      output := self.output.emit (is.map Item.emission)
      literalInsns := self.literalInsns
        ++ registeredRecords self.output.currentPc self.output.wCurrentAddress is } := by
  induction is generalizing self with
  | nil => simp [items, registeredRecords, AssemblerWriter.emit]
  | cons i is ih =>
    rw [items_cons, ih, item_eq, registeredRecords, List.map_cons, AssemblerWriter.emit_cons,
      ← List.append_assoc]
    rfl

theorem write_emit (es : List Emission) :
    self.write (·.emit es) = self.items (codeItems es) := by
  rw [items_eq]
  have hr : ∀ pc address, registeredRecords pc address (codeItems es) = [] := by
    induction es with
    | nil => exact fun _ _ => rfl
    | cons e es ih => exact fun _ _ => ih _ _
  rw [hr, List.append_nil, codeItems, List.map_map]
  rw [show (Item.emission ∘ Item.code) = id from rfl, List.map_id]
  rfl

end Items

/-! ## The word phase -/

end Relocator

namespace AssemblerWriter

/-- An emission of an odd number of halfwords changes the phase. -/
theorem offWord_emit (self : AssemblerWriter) (h : self.currentPc.toNat % 2 = 0)
    (es : List Emission) :
    (self.emit es).offWord
      = (self.offWord ^^ decide ((es.flatMap Emission.halves).length % 2 = 1)) := by
  unfold offWord
  rw [emit_currentPc, bytesOf, BitVec.toNat_add, BitVec.toNat_ofNat]
  generalize (es.flatMap Emission.halves).length = n
  generalize self.currentPc.toNat = c at h
  have hc : (c + 2 * n % 2 ^ 32) % 2 ^ 32 % 4 = (c % 4 + 2 * (n % 2)) % 4 := by omega
  have h4 : c % 4 = 0 ∨ c % 4 = 2 := by omega
  rw [hc]
  rcases h4 with h4 | h4 <;> rcases Nat.mod_two_eq_zero_or_one n with hn | hn <;> rw [h4, hn] <;>
    rfl

theorem even_emit (self : AssemblerWriter) (h : self.currentPc.toNat % 2 = 0)
    (es : List Emission) : (self.emit es).currentPc.toNat % 2 = 0 := by
  rw [emit_currentPc, bytesOf, BitVec.toNat_add, BitVec.toNat_ofNat]
  omega

end AssemblerWriter

namespace Relocator

/-! ## The pieces of the Thumb blocks -/

/-- A `NOP`, if one is needed. -/
def padItems (pad : Bool) : List Item := if pad then [.code (.thumb 0x46C0#16)] else []

/-- A jump to a literal. -/
def jumpItems (offWord : Bool) (v : Word) (registered : ℕ) : List Item :=
  codeItems (AssemblerWriter.ldrPcCode offWord) ++ [.literal v registered]

/-- A literal loaded into a register. -/
def valueItems (offWord : Bool) (reg : Reg) (v : Word) (registered : ℕ) : List Item :=
  codeItems (AssemblerWriter.ldrBCode offWord reg) ++ [.literal v registered]

/-- A jump to a literal behind a guard that branches to it, with the branch
over it. -/
def guardedItems (pad : Bool) (guard : List Emission) (v : Word) (registered : ℕ) : List Item :=
  padItems pad ++ codeItems (guard ++ [.thumb 0xE003#16]) ++ jumpItems false v registered

/-- `LDR reg, [reg]` in the form the writer chooses. -/
def ldrSelfCode (reg : Reg) : List Emission :=
  if reg ≤ 7#4 then
    [.thumb ((0x6000#32 ||| (0#32 <<< 6) ||| AssemblerWriter.regAt reg 3
      ||| AssemblerWriter.regAt reg 0 ||| 0x0800#32).setWidth 16)]
  else
    (if reg = PC then AssemblerWriter.ldrWide reg 0#32 else [])
      ++ [.thumb ((0xF8C0#32 ||| 0x0010#32 ||| AssemblerWriter.regAt reg 0).setWidth 16),
        .thumb ((AssemblerWriter.regAt reg 12 ||| 0#32).setWidth 16)]

/-- A copied instruction. -/
def copyItems (c : ARMInstruction) : List Item := [.code (.bytes (insnBytes c))]

/-- A register field of an instruction. -/
def regField (insn : Word) (start length : ℕ) : Reg := (getInsnSub insn start length).setWidth 4

/-- **The block of a Thumb instruction**, written at a word phase. -/
def thumbItems (offWord : Bool) (c : ARMInstruction) : List Item :=
  let i1 : Word := c.insn1.setWidth 32
  let i2 : Word := c.insn2.setWidth 32
  match getTHUMBInsnType c.insn1 c.insn2 with
  | .cbnzCbz =>
    guardedItems offWord [.thumb (((i1 &&& 0xFD07#32) ||| 0#32).setWidth 16)]
      (c.pc + cbImm32 i1 + 1#32) 1
  | .addRegisterT2 =>
    if getInsnSub i1 3 4 ≠ 15#32 then copyItems c
    else
      codeItems [.thumb 0xB480#16] ++ valueItems (!offWord) 7#4 c.pc 0
        ++ codeItems [.thumb (((i1 &&& 0xFF87#32) ||| (7#32 <<< 3)).setWidth 16), .thumb 0xBC80#16]
  | .ldrLiteralT1 =>
    valueItems offWord (regField i1 8 3) (align4 c.pc + (getInsnSub i1 0 8 <<< 2)) 1
      ++ codeItems (ldrSelfCode (regField i1 8 3))
  | .ldrLiteralT2 =>
    valueItems offWord (regField i2 12 4)
        (if getInsnSub i1 7 1 = 1#32 then align4 c.pc + getInsnSub i2 0 12
          else align4 c.pc - getInsnSub i2 0 12) 1
      ++ codeItems (ldrSelfCode (regField i2 12 4))
  | .adrT1 => valueItems offWord (regField i1 8 3) (c.pc + (getInsnSub i1 0 8 <<< 2)) 0
  | .adrT2 => valueItems offWord (regField i2 8 4) (c.pc - adrImm32 i1 i2) 0
  | .adrT3 => valueItems offWord (regField i2 8 4) (c.pc + adrImm32 i1 i2) 0
  | .bT1 =>
    guardedItems offWord [.thumb (((i1 &&& 0xFF00#32) ||| 0#32).setWidth 16)]
      (c.pc + (getInsnSub i1 0 8 <<< 1) + 1#32) 1
  | .bT2 => jumpItems offWord (c.pc + (getInsnSub i1 0 11 <<< 1) + 1#32) 1
  | .bT3 =>
    guardedItems (!offWord) [.thumb ((i1 &&& 0xFBC0#32).setWidth 16),
        .thumb (((i2 &&& 0xD000#32) ||| 1#32).setWidth 16)]
      (c.pc + bT3Imm32 i1 i2 + 1#32) 0
  | .bT4 => jumpItems offWord (c.pc + branchImm32 (10 + 16) i1 i2 + 1#32) 1
  | .blblxImmediateT1 =>
    valueItems offWord LR (c.pc + 1#32) 2
      ++ jumpItems false (c.pc + branchImm32 10 i1 i2 + 1#32) 0
  | .blblxImmediateT2 =>
    valueItems offWord LR (c.pc + 1#32) 1 ++ jumpItems false (align4 c.pc + blxImm32 i1 i2) 1
  | .undef => copyItems c

/-! ## The Thumb relocator writes them -/

section Thumb

variable (self : Relocator) (is : List Item)

theorem items_output : (self.items is).output = self.output.emit (is.map Item.emission) := by
  rw [items_eq]

/-- The halfwords of a block. -/
def itemHalves (is : List Item) : List Half := (is.map Item.emission).flatMap Emission.halves

theorem itemHalves_append (is is' : List Item) :
    itemHalves (is ++ is') = itemHalves is ++ itemHalves is' := by
  rw [itemHalves, List.map_append, List.flatMap_append]
  rfl

theorem itemHalves_codeItems (es : List Emission) :
    itemHalves (codeItems es) = es.flatMap Emission.halves := by
  rw [itemHalves, codeItems, List.map_map, show (Item.emission ∘ Item.code) = id from rfl,
    List.map_id]

/-- The phase behind a block. -/
theorem offWord_items (he : self.output.currentPc.toNat % 2 = 0) :
    (self.items is).output.offWord
      = (self.output.offWord ^^ decide ((itemHalves is).length % 2 = 1)) := by
  rw [items_output, AssemblerWriter.offWord_emit _ he]
  rfl

theorem even_items (he : self.output.currentPc.toNat % 2 = 0) :
    (self.items is).output.currentPc.toNat % 2 = 0 := by
  rw [items_output]
  exact AssemblerWriter.even_emit _ he _

/-- Registering the literal a block ends with. -/
theorem registerLiteralInsn_items (v : Word) (k : ℕ) :
    (self.items (is ++ [.literal v k])).registerLiteralInsn
      = self.items (is ++ [.literal v (k + 1)]) := by
  rw [items_append, items_append]
  exact (Function.iterate_succ_apply' registerLiteralInsn k _).symm

theorem write_ldrPc (v : Word) :
    self.write (·.thumbPutLdrRegAddress PC v) = self.items (jumpItems self.output.offWord v 0) := by
  rw [jumpItems, items_append, ← write_emit]
  unfold write
  simp only [AssemblerWriter.thumbPutLdrRegAddress_pc, AssemblerWriter.emit_append]
  rfl

theorem write_ldrB (reg : Reg) (v : Word) :
    self.write (·.thumbPutLdrBRegAddress reg v)
      = self.items (valueItems self.output.offWord reg v 0) := by
  rw [valueItems, items_append, ← write_emit]
  unfold write
  simp only [AssemblerWriter.thumbPutLdrBRegAddress_eq, AssemblerWriter.emit_append]
  rfl

theorem write_pad (pad : Bool) :
    (if pad then self.write (·.thumbPutNop) else self) = self.items (padItems pad) := by
  cases pad <;> rfl

theorem write_ldrSelf (reg : Reg) :
    self.write (·.thumbPutLdrRegRegOffset reg reg 0)
        = self.items (codeItems (ldrSelfCode reg)) := by
  rw [← write_emit]
  unfold write ldrSelfCode AssemblerWriter.thumbPutLdrRegRegOffset AssemblerWriter.thumbPutTransfer
    AssemblerWriter.thumbPutTransferT1
  by_cases hr : reg ≤ 7#4
  · simp only [hr]
    rfl
  · have hT2 : ∀ w : AssemblerWriter, w.thumbPutTransferT2 .load reg reg 0 = (w, false) := by
      intro w
      unfold AssemblerWriter.thumbPutTransferT2
      rw [if_neg (by decide), if_neg (fun h => hr h.2.1)]
    simp only [hr, hT2]
    by_cases hpc : reg = PC
    · rw [hpc]
      rfl
    · unfold AssemblerWriter.thumbPutTransferT3
      simp only [hpc]
      rfl

/-- The jump of a guarded block stands at a word boundary. -/
theorem write_guarded (he : self.output.currentPc.toNat % 2 = 0) (pad : Bool)
    (guard : List Emission) (v : Word)
    (hp : (self.output.offWord ^^ pad ^^ decide ((guard.flatMap Emission.halves).length % 2 = 1))
      = true) :
    ((self.items (padItems pad)).items (codeItems (guard ++ [.thumb 0xE003#16]))).write
        (·.thumbPutLdrRegAddress PC v)
      = self.items (guardedItems pad guard v 0) := by
  have hoff : ((self.items (padItems pad)).items
      (codeItems (guard ++ [.thumb 0xE003#16]))).output.offWord = false := by
    have hlen : decide ((itemHalves (codeItems (guard ++ [.thumb 0xE003#16]))).length % 2 = 1)
        = !decide ((guard.flatMap Emission.halves).length % 2 = 1) := by
      rw [itemHalves_codeItems, List.flatMap_append, List.length_append,
        show ([Emission.thumb 0xE003#16].flatMap Emission.halves).length = 1 from rfl,
        ← decide_not]
      refine decide_eq_decide.mpr ?_
      omega
    have hpad : decide ((itemHalves (padItems pad)).length % 2 = 1) = pad := by cases pad <;> rfl
    rw [offWord_items _ _ (even_items _ _ he), offWord_items _ _ he, hlen, hpad, Bool.xor_not, hp]
    rfl
  rw [write_ldrPc, hoff, guardedItems, items_append, items_append]

/-- A guarded jump whose literal is registered. -/
theorem registerLiteralInsn_guarded (pad : Bool) (guard : List Emission) (v : Word) (k : ℕ) :
    (self.items (guardedItems pad guard v k)).registerLiteralInsn
      = self.items (guardedItems pad guard v (k + 1)) := by
  unfold guardedItems jumpItems
  rw [← List.append_assoc, ← List.append_assoc, registerLiteralInsn_items]

theorem ldrBCode_length (offWord : Bool) (reg : Reg) :
    ((AssemblerWriter.ldrBCode offWord reg).flatMap Emission.halves).length
      = if offWord then 3 else if reg ≤ 7#4 then 2 else 4 := by
  unfold AssemblerWriter.ldrBCode
  by_cases hr : reg ≤ 7#4 <;> cases offWord <;>
    simp only [hr, if_true, if_false, Bool.false_eq_true] <;> rfl

/-- The literal of a value block ends at a word boundary. -/
theorem offWord_valueItems (he : self.output.currentPc.toNat % 2 = 0) (reg : Reg) (v : Word)
    (k : ℕ) : (self.items (valueItems self.output.offWord reg v k)).output.offWord = false := by
  rw [offWord_items _ _ he, valueItems, itemHalves_append, itemHalves_codeItems, List.length_append,
    ldrBCode_length, show (itemHalves [Item.literal v k]).length = 2 from rfl]
  by_cases hr : reg ≤ 7#4 <;> cases self.output.offWord <;> simp [hr]

/-- **A Thumb instruction is rewritten to its block.** -/
theorem thumbRewrite_eq (he : self.output.currentPc.toNat % 2 = 0) (c : ARMInstruction) :
    (self.thumbRewrite c).getD (self.write (·.thumbPutBytes (insnBytes c)))
      = self.items (thumbItems self.output.offWord c) := by
  have hjump : ∀ (r : Relocator) (v : Word),
      (r.write (·.thumbPutLdrRegAddress PC v)).registerLiteralInsn
        = r.items (jumpItems r.output.offWord v 1) := by
    intro r v
    rw [write_ldrPc, jumpItems, registerLiteralInsn_items]
    rfl
  have hvalue : ∀ (r : Relocator) (reg : Reg) (v : Word),
      (r.write (·.thumbPutLdrBRegAddress reg v)).registerLiteralInsn
        = r.items (valueItems r.output.offWord reg v 1) := by
    intro r reg v
    rw [write_ldrB, valueItems, registerLiteralInsn_items]
    rfl
  unfold thumbRewrite thumbItems
  cases getTHUMBInsnType c.insn1 c.insn2 with
  | cbnzCbz =>
    have h := write_guarded self he self.output.offWord
      [.thumb (((c.insn1.setWidth 32 &&& 0xFD07#32) ||| 0#32).setWidth 16)]
      (c.pc + cbImm32 (c.insn1.setWidth 32) + 1#32) (by cases self.output.offWord <;> rfl)
    unfold thumbRewriteCbnzCbz
    simp only [Option.getD_some, write_pad]
    exact (congrArg registerLiteralInsn h).trans (registerLiteralInsn_guarded _ _ _ _ _)
  | bT1 =>
    have h := write_guarded self he self.output.offWord
      [.thumb (((c.insn1.setWidth 32 &&& 0xFF00#32) ||| 0#32).setWidth 16)]
      (c.pc + (getInsnSub (c.insn1.setWidth 32) 0 8 <<< 1) + 1#32)
      (by cases self.output.offWord <;> rfl)
    unfold thumbRewriteBT1
    simp only [Option.getD_some, write_pad]
    exact (congrArg registerLiteralInsn h).trans (registerLiteralInsn_guarded _ _ _ _ _)
  | bT3 =>
    have h := write_guarded self he (!self.output.offWord)
      [.thumb ((c.insn1.setWidth 32 &&& 0xFBC0#32).setWidth 16),
        .thumb (((c.insn2.setWidth 32 &&& 0xD000#32) ||| 1#32).setWidth 16)]
      (c.pc + bT3Imm32 (c.insn1.setWidth 32) (c.insn2.setWidth 32) + 1#32)
      (by cases self.output.offWord <;> simp [Emission.halves])
    have hpad : (if self.output.offWord then self else self.write (·.thumbPutNop))
        = self.items (padItems !self.output.offWord) := by
      cases self.output.offWord <;> rfl
    unfold thumbRewriteBT3
    simp only [Option.getD_some, hpad]
    exact h
  | addRegisterT2 =>
    unfold thumbRewriteAddRegisterT2
    by_cases hrm : getInsnSub (c.insn1.setWidth 32) 3 4 ≠ 15#32
    · simp only [hrm, if_true, ne_eq, not_false_eq_true]
      rfl
    · simp only [hrm, if_false, Option.getD_some]
      have hoff : (self.items (codeItems [.thumb 0xB480#16])).output.offWord
          = !self.output.offWord := by
        rw [offWord_items _ _ he]
        cases self.output.offWord <;> rfl
      rw [items_append, items_append, ← hoff, ← write_ldrB]
      rfl
  | ldrLiteralT1 =>
    unfold thumbRewriteLdrLiteralT1
    simp only [Option.getD_some, hvalue, write_ldrSelf]
    exact (items_append _ _ _).symm
  | ldrLiteralT2 =>
    unfold thumbRewriteLdrLiteralT2
    simp only [Option.getD_some, hvalue, write_ldrSelf]
    exact (items_append _ _ _).symm
  | adrT1 => exact write_ldrB _ _ _
  | adrT2 => exact write_ldrB _ _ _
  | adrT3 => exact write_ldrB _ _ _
  | bT2 => exact hjump _ _
  | bT4 => exact hjump _ _
  | blblxImmediateT1 =>
    unfold thumbRewriteBlblxImmediateT1
    simp only [Option.getD_some, hvalue]
    rw [valueItems, registerLiteralInsn_items, write_ldrPc, ← valueItems, offWord_valueItems _ he]
    exact (items_append _ _ _).symm
  | blblxImmediateT2 =>
    unfold thumbRewriteBlblxT2
    simp only [Option.getD_some, hvalue, hjump]
    rw [offWord_valueItems _ he]
    exact (items_append _ _ _).symm
  | undef => rfl

end Thumb

/-! ## The ARM blocks -/

/-- A jump to a literal. -/
def armJumpItems (v : Word) (registered : ℕ) : List Item :=
  codeItems [.arm 0xE51FF004#32] ++ [.literal v registered]

/-- A literal loaded into a register, and the branch over it. -/
def armValueItems (reg : Reg) (v : Word) (registered : ℕ) : List Item :=
  codeItems [.arm (0xE59F0000#32 ||| AssemblerWriter.regAt reg 12 ||| 0#32), .arm 0xEA000000#32]
    ++ [.literal v registered]

/-- `LDR reg, [reg]` in the form the writer chooses. -/
def armLdrSelf (reg : Reg) : Word :=
  if reg = PC then 0xE59F0000#32 ||| AssemblerWriter.regAt reg 12 ||| 0#32
  else 0xE5900000#32 ||| AssemblerWriter.regAt reg 12 ||| AssemblerWriter.regAt reg 16

/-- **The block of an ARM instruction.** -/
def armItems (c : ARMInstruction) : List Item :=
  match getARMInsnType c.insn with
  | .addRegisterA1 =>
    if getInsnSub c.insn 16 4 ≠ 15#32 then copyItems c
    else
      codeItems [.arm 0xE52D7004#32] ++ armValueItems 7#4 c.pc 0
        ++ codeItems [.arm ((c.insn &&& 0xFFF0FFFF#32) ||| (7#32 <<< 16)), .arm 0xE49D7004#32]
  | .ldrLiteralA1 =>
    armValueItems (regField c.insn 12 4)
        (if getInsnSub c.insn (7 + 16) 1 = 1#32 then c.pc + getInsnSub c.insn 0 12
          else c.pc - getInsnSub c.insn 0 12) 1
      ++ codeItems [.arm (armLdrSelf (regField c.insn 12 4))]
  | .adrA1 => armValueItems (regField c.insn 12 4) (c.pc + getInsnSub c.insn 0 12) 0
  | .adrA2 => armValueItems (regField c.insn 12 4) (c.pc - getInsnSub c.insn 0 12) 0
  | .bA1 =>
    codeItems [.arm ((c.insn &&& 0xFF000000#32) ||| 0#32), .arm 0xEA000001#32]
      ++ armJumpItems (c.pc + (getInsnSub c.insn 0 24 <<< 2)) 1
  | .blblxImmediateA1 =>
    codeItems [.arm ((c.insn &&& 0xF0000000#32) ||| (0b1010#32 <<< 24) ||| 0#32),
        .arm 0xEA000000#32]
      ++ armValueItems LR (c.pc - 4#32) 1
      ++ armJumpItems (align4 c.pc + (getInsnSub c.insn 0 24 <<< 2)) 1
  | .blblxImmediateA2 =>
    armValueItems LR (c.pc - 4#32) 1
      ++ armJumpItems (c.pc + ((getInsnSub c.insn 0 24 <<< 2) ||| (getInsnSub c.insn 24 1 <<< 1))) 1
  | .undef => copyItems c

section Arm

variable (self : Relocator) (is : List Item)

theorem write_armLdrPc (v : Word) :
    self.write (·.armPutLdrRegAddress PC v) = self.items (armJumpItems v 0) := rfl

theorem write_armLdrB (reg : Reg) (v : Word) :
    self.write (·.armPutLdrBRegAddress reg v) = self.items (armValueItems reg v 0) := rfl

theorem write_armLdrSelf (reg : Reg) :
    self.write (·.armPutLdrRegRegImm reg reg 0)
        = self.items (codeItems [.arm (armLdrSelf reg)]) := by
  unfold armLdrSelf AssemblerWriter.armPutLdrRegRegImm
  by_cases hr : reg = PC
  · rw [hr]
    rfl
  · simp only [hr, if_false]
    refine congrArg (fun w => self.items (codeItems [.arm w])) ?_
    exact (by decide : ∀ reg : Reg,
      0xe4100000#32 ||| AssemblerWriter.regAt reg 12 ||| AssemblerWriter.regAt reg 16
        ||| AssemblerWriter.flag true 24 ||| AssemblerWriter.flag (0 ≤ (0 : ℤ)) 23
        ||| AssemblerWriter.flag false 21 ||| (AssemblerWriter.absWord 0 &&& 0xfff#32)
        = 0xE5900000#32 ||| AssemblerWriter.regAt reg 12 ||| AssemblerWriter.regAt reg 16) reg

/-- **An ARM instruction is rewritten to its block.** -/
theorem armRewrite_eq (c : ARMInstruction) :
    (self.armRewrite c).getD (self.write (·.armPutBytes (insnBytes c)))
      = self.items (armItems c) := by
  have hjump : ∀ (r : Relocator) (v : Word),
      (r.write (·.armPutLdrRegAddress PC v)).registerLiteralInsn = r.items (armJumpItems v 1) := by
    intro r v
    rw [write_armLdrPc, armJumpItems, registerLiteralInsn_items]
    rfl
  have hvalue : ∀ (r : Relocator) (reg : Reg) (v : Word),
      (r.write (·.armPutLdrBRegAddress reg v)).registerLiteralInsn
        = r.items (armValueItems reg v 1) := by
    intro r reg v
    rw [write_armLdrB, armValueItems, registerLiteralInsn_items]
    rfl
  unfold armRewrite armItems
  cases getARMInsnType c.insn with
  | addRegisterA1 =>
    unfold armRewriteAddRegisterA1
    by_cases hrn : getInsnSub c.insn 16 4 ≠ 15#32
    · simp only [hrn, if_true, ne_eq, not_false_eq_true]
      rfl
    · simp only [hrn, if_false, Option.getD_some, write_armLdrB]
      rw [items_append, items_append]
      rfl
  | ldrLiteralA1 =>
    unfold armRewriteLdrLiteralA1
    simp only [Option.getD_some, hvalue, write_armLdrSelf]
    exact (items_append _ _ _).symm
  | adrA1 => rfl
  | adrA2 => rfl
  | bA1 =>
    unfold armRewriteBA1
    simp only [Option.getD_some, hjump]
    rw [items_append]
    rfl
  | blblxImmediateA1 =>
    unfold armRewriteBlblxImmediateA1
    simp only [Option.getD_some, hjump, hvalue]
    rw [items_append, items_append]
    rfl
  | blblxImmediateA2 =>
    unfold armRewriteBlblxImmediateA2
    simp only [Option.getD_some, hjump, hvalue]
    exact (items_append _ _ _).symm
  | undef => rfl

end Arm

/-! ## One instruction written -/

/-- The record of a block of `n` emissions that begins with emission
`start`. -/
def blockRecord (c : ARMInstruction) (start n size : ℕ) : RelocatorInstruction where
  originInsn := c
  relocatedInsns := start
  outputIndexStart := start
  ouputIndexEnd := start + n
  relocatedInsnSize := n
  size := size

/-- **A block written and recorded.** -/
def writeBlock (self : Relocator) (c : ARMInstruction) (is : List Item) (size : ℕ) : Relocator :=
  { self.items is with
    outpos := self.outpos + 1
    relocatorInsns := self.relocatorInsns
      ++ [blockRecord c self.output.insns.length is.length size] }

section Write

variable {self : Relocator} {c : ARMInstruction}

theorem length_items (self : Relocator) (is : List Item) :
    (self.items is).output.insns.length = self.output.insns.length + is.length := by
  rw [items_output, AssemblerWriter.emit_insns, List.length_append, AssemblerWriter.length_records,
    List.length_map]

theorem thumbWriteOne_eq (hne : self.inpos ≠ self.outpos)
    (hc : self.input.insns[self.outpos]? = some c) (he : self.output.currentPc.toNat % 2 = 0) :
    self.thumbWriteOne = some (self.writeBlock c (thumbItems self.output.offWord c) 0) := by
  have hw := thumbRewrite_eq { self with outpos := self.outpos + 1 } he c
  have hl := length_items { self with outpos := self.outpos + 1 } (thumbItems self.output.offWord c)
  unfold thumbWriteOne
  rw [if_neg hne, hc, Option.map_some]
  simp only [hw, hl, Nat.add_sub_cancel_left, writeBlock]
  simp only [items_eq, blockRecord]

theorem armWriteOne_eq (hne : self.inpos ≠ self.outpos)
    (hc : self.input.insns[self.outpos]? = some c) :
    self.armWriteOne
      = some (self.writeBlock c (armItems c)
          (AssemblerWriter.bytesOf ((armItems c).map Item.emission))) := by
  have hw := armRewrite_eq { self with outpos := self.outpos + 1 } c
  have hl := length_items { self with outpos := self.outpos + 1 } (armItems c)
  have hs : ({ self with outpos := self.outpos + 1 }.items (armItems c)).output.size
      = self.output.size + AssemblerWriter.bytesOf ((armItems c).map Item.emission) := by
    rw [items_output, AssemblerWriter.emit_size]
  unfold armWriteOne
  rw [if_neg hne, hc, Option.map_some]
  simp only [hw, hl, hs, Nat.add_sub_cancel_left, writeBlock]
  simp only [items_eq, blockRecord]

end Write

end Relocator

end HookZz
