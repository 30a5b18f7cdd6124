import AndroidReverse.HookZzEffect

/-!
# The literal loads of the writers

Everything HookZz writes that refers to an address of 32 bits refers to it
through four functions, two for each instruction set: a load of a literal that
stands behind it, and the same with a branch over the literal (the `_b_`
forms). In Thumb state the literal has to be on a word boundary, and the load
counts from the word the program counter is in. The functions therefore look at
where they are: they choose the offset, and the padding, by the remainder of
the program counter and by whether the register fits a 16-bit load.

`putLiteral_loads` is that all of the choices come out right, for the four
functions at once: wherever the code is copied to with the same remainder, its
first instruction loads the value, and the `_b_` forms continue behind the
literal with nothing else changed.
-/

namespace HookZz

open Arm Relocate Relocator

namespace AssemblerWriter

/-- **The four functions** that write the load of a literal: of either
instruction set, with a branch over the literal or without. -/
def putLiteral (thumb behind : Bool) (reg : Reg) (address : Word) (self : AssemblerWriter) :
    AssemblerWriter :=
  match thumb, behind with
  | true, false => self.thumbPutLdrRegAddress reg address
  | true, true => self.thumbPutLdrBRegAddress reg address
  | false, false => self.armPutLdrRegAddress reg address
  | false, true => self.armPutLdrBRegAddress reg address

/-- What a function of the writers writes. -/
def codeOf (f : AssemblerWriter → AssemblerWriter) (self : AssemblerWriter) : List Half :=
  (f self).buffer.drop self.buffer.length

theorem codeOf_emit {f : AssemblerWriter → AssemblerWriter} {self : AssemblerWriter}
    {es : List Emission} (h : f self = self.emit es) : codeOf f self
        = es.flatMap Emission.halves := by
  rw [codeOf, h, emit_buffer, List.drop_left]

/-- The emissions in front of the literal that `put_ldr_reg_address` loads. -/
def ldrCode (offWord : Bool) (reg : Reg) : List Emission :=
  if offWord then
    if reg ≤ 7#4 then [.thumb ((0x4800#32 ||| regAt reg 8 ||| 0#32).setWidth 16)]
    else ldrWide reg 4#32 ++ [.thumb 0x46C0#16]
  else
    if reg ≤ 7#4 then
      [.thumb ((0x4800#32 ||| regAt reg 8 ||| 0#32).setWidth 16), .thumb 0x46C0#16]
    else ldrWide reg 0#32

theorem thumbPutLdrRegAddress_eq (self : AssemblerWriter) (reg : Reg) (address : Word) :
    self.thumbPutLdrRegAddress reg address
      = self.emit (ldrCode self.offWord reg ++ [.bytes (addressBytes address)]) := by
  unfold thumbPutLdrRegAddress ldrCode thumbPutLdrRegImm
  by_cases hr : reg ≤ 7#4
  · cases self.offWord <;> simp only [hr, true_and, if_true, Bool.false_eq_true, if_false] <;> rfl
  · cases self.offWord <;> simp only [hr, false_and, if_true, Bool.false_eq_true, if_false] <;> rfl

theorem armPutLdrRegAddress_eq (self : AssemblerWriter) (reg : Reg) (address : Word) :
    self.armPutLdrRegAddress reg address
      = self.emit [.arm (0xE51F0000#32 ||| 0#32 ||| regAt reg 12 ||| 4#32),
          .bytes (addressBytes address)] :=
  rfl

end AssemblerWriter

open AssemblerWriter

/-- **The loads without a branch**, by their parts. -/
theorem ldrCode_parts (off : Bool) (reg : Reg) :
    ∃ (L : List Half) (pad : Bool) (imm : Word), (ldrCode off reg).flatMap Emission.halves
        = L ++ (if pad then [0x46C0#16] else [])
      ∧ Encodes true L ⟨always, .ldrLit true reg imm⟩ ∧ imm.toNat % 4 = 0
      ∧ ∀ a : Word, a.toNat % 4 = (if off then 2 else 0) →
        align4 (a + 4#32) + imm
          = a + BitVec.ofNat 32 (2 * L.length) + BitVec.ofNat 32 (2 * (if pad then 1 else 0)) := by
  unfold ldrCode
  by_cases hr : reg ≤ 7#4
  · obtain ⟨hn, hd⟩ := decodeThumb16_load reg hr false
    refine ⟨_, !off, _, ?_, encodes_thumb16 hn hd, rfl, fun a ha => ?_⟩
    · simp only [hr, if_true]
      cases off <;> rfl
    · rw [literal_address ha]
      cases off <;> rw [BitVec.add_assoc, BitVec.add_assoc] <;> rfl
  · refine ⟨[0xF8DF#16, (regAt reg 12 ||| if off then 4#32 else 0#32).setWidth 16], off, _, ?_,
      encodes_thumb32 (by decide) (decodeThumb32_load reg off), by cases off <;> rfl,
      fun a ha => ?_⟩
    · simp only [hr, if_false]
      cases off <;> rfl
    · rw [literal_address ha]
      cases off <;> rw [BitVec.add_assoc, BitVec.add_assoc] <;> rfl

theorem decodeArm_loadBack : ∀ reg : Reg,
    decodeArm (0xE51F0000#32 ||| 0#32 ||| regAt reg 12 ||| 4#32)
      = some ⟨always, .ldrLit false reg 4#32⟩ := by
  decide

/-! ## One step -/

section Step

variable {s : State} {off : Bool} {reg : Reg} {v : Word}

/-- The load of the Thumb writer. -/
theorem step_ldrCode
    (hat : AtBlock true (if off then 2 else 0)
      ((ldrCode off reg).flatMap Emission.halves ++ addressBytes v) s) :
    ∃ next, step s = s.writeValue next reg v := by
  obtain ⟨L, pad, imm, he, hL, himm, hlit⟩ := ldrCode_parts off reg
  have hc := hat.code
  rw [he, List.append_assoc] at hc
  exact ⟨_, step_literal hL hat.state hc (by cases pad <;> rfl) (by cases pad <;> rfl)
    (fun _ => himm) (hlit _ hat.phase)⟩

/-- The load of the ARM writer. -/
theorem step_armLoad
    (hat : AtBlock false 0
      ([0xE51F0000#32 ||| 0#32 ||| regAt reg 12 ||| 4#32, v].flatMap addressBytes) s) :
    ∃ next, step s = s.writeValue next reg v :=
  ⟨_, @WordsAt.step_ldrBack _ _ _ _ 0 _ reg (wordsAt_of_halves hat.code) hat.phase hat.state
    (BitVec.add_zero _).symm rfl (decodeArm_loadBack reg) rfl⟩

end Step

/-! ## The four functions -/

/-- **The literal loads load their literal**, at any address of the remainder
the writer has counted to. Without a branch the first instruction puts the
value into the register, or jumps to it; with one, the code runs to the first
byte behind the literal, and the register is all that has changed. -/
theorem putLiteral_loads (thumb behind : Bool) (reg : Reg) (address : Word)
    (self : AssemblerWriter)
    (hpos : self.currentPc.toNat % (if thumb then 2 else 4) = 0) (s : State)
    (hat : AtBlock thumb (self.currentPc.toNat % 4)
      (codeOf (putLiteral thumb behind reg address) self) s) :
    (behind = false → ∃ next, step s = s.writeValue next reg address)
      ∧ (behind = true → reg ≠ PC →
        RunsWithin s.pc (2 * (codeOf (putLiteral thumb behind reg address) self).length) s
          ((s.setReg reg address).goto
            (blockEnd (codeOf (putLiteral thumb behind reg address) self) s))) := by
  cases thumb with
  | true =>
    rw [phase_of_offWord hpos] at hat
    cases behind with
    | false =>
      refine ⟨fun _ => ?_, fun h => Bool.noConfusion h⟩
      rw [codeOf_emit (f := putLiteral true false reg address)
        (thumbPutLdrRegAddress_eq self reg address), List.flatMap_append] at hat
      exact step_ldrCode hat
    | true =>
      refine ⟨fun h => Bool.noConfusion h, fun _ hreg => ?_⟩
      have hcode : codeOf (putLiteral true true reg address) self
          = itemHalves (valueItems self.offWord reg address 0) := by
        rw [codeOf_emit (f := putLiteral true true reg address)
          (thumbPutLdrBRegAddress_eq self reg address), valueItems, itemHalves_append,
          itemHalves_codeItems, List.flatMap_append]
        rfl
      rw [hcode] at hat ⊢
      exact (loadsValue_thumb self.offWord reg address 0).run s hat hreg
  | false =>
    rw [show self.currentPc.toNat % 4 = 0 from hpos] at hat
    cases behind with
    | false =>
      refine ⟨fun _ => ?_, fun h => Bool.noConfusion h⟩
      rw [codeOf_emit (f := putLiteral false false reg address)
        (armPutLdrRegAddress_eq self reg address)] at hat
      exact step_armLoad hat
    | true =>
      refine ⟨fun h => Bool.noConfusion h, fun _ hreg => ?_⟩
      have hcode : codeOf (putLiteral false true reg address) self
          = itemHalves (armValueItems reg address 0) :=
        codeOf_emit (f := putLiteral false true reg address)
          (armPutLdrBRegAddress_eq self reg address)
      rw [hcode] at hat ⊢
      exact (loadsValue_arm reg address 0).run s hat hreg

/-- R9 from an address that is off a word boundary. -/
theorem putLiteral_loads_r9 :
    let self := thumbReset 0x1000#32 0x2002#32
    let code := codeOf (putLiteral true true 9#4 0xDEADBEEF#32) self
    let s : State := ⟨fun _ => 0#32, 0x8002#32, true, ⟨false, false, false, false⟩,
      Mem.place (fun _ => 0#8) 2 0x8002#32 code⟩
    RunsWithin s.pc (2 * code.length) s ((s.setReg 9#4 0xDEADBEEF#32).goto (blockEnd code s)) := by
  intro self code s
  exact (putLiteral_loads true true 9#4 0xDEADBEEF#32 self (by decide) s
    ⟨by decide, rfl, halvesAt_place _ _ code (by decide)⟩).2 rfl (by decide)

end HookZz
