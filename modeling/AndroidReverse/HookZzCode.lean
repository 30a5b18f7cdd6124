import AndroidReverse.HookZzTargets
import AndroidReverse.RelocateTable

/-!
# Written blocks as code

A block is executed where it is copied to, which is anywhere with the word
phase it was written for. `AtBlock` is a processor at its start, and what
follows runs the pieces the blocks are made of from there: the ones of
`AndroidReverse.ArmBlocks` start at word boundaries, and a block of HookZz may
begin between two.
-/

namespace HookZz

open Arm Relocate Relocator

/-- What a relocator has written since an earlier state of it. -/
def written (self r : Relocator) : List Half := r.output.buffer.drop self.output.buffer.length

theorem written_writeBlock (self : Relocator) (c : ARMInstruction) (is : List Item) (size : ℕ) :
    written self (self.writeBlock c is size) = itemHalves is := by
  have h : (self.writeBlock c is size).output = self.output.emit (is.map Item.emission) :=
    items_output self is
  rw [written, h, AssemblerWriter.emit_buffer, List.drop_left]
  rfl

/-- **The processor is at the start of a block** that is in memory, at an
address of a given word phase. -/
structure AtBlock (thumb : Bool) (phase : ℕ) (block : List Half) (s : State) : Prop where
  /-- The phase of the block. -/
  phase : s.pc.toNat % 4 = phase
  /-- The instruction set. -/
  state : s.thumb = thumb
  /-- The block is at the program counter. -/
  code : HalvesAt s.mem s.pc block

/-- The phase of the output, which the padding depends on. -/
theorem phase_of_offWord {self : AssemblerWriter} (he : self.currentPc.toNat % 2 = 0) :
    self.currentPc.toNat % 4 = if self.offWord then 2 else 0 := by
  unfold AssemblerWriter.offWord
  by_cases h : self.currentPc.toNat % 4 = 0
  · rw [h]
    rfl
  · rw [if_pos (by simpa using h)]
    omega

/-- **There is room for a block** of either phase away from finitely many
addresses. -/
theorem exists_atBlock (thumb : Bool) {phase : ℕ} (hp : phase = 0 ∨ phase = 2)
    (block : List Half) (hlen : block.length ≤ 100) (m₀ : Mem) (g : Reg → Word) (f : Flags)
    (avoid : List Word) (hav : avoid.length < 2 ^ 24) :
    ∃ base : Word, AtBlock thumb phase block ⟨g, base, thumb, f, m₀.place 2 base block⟩
      ∧ ∀ a ∈ avoid, ¬ InBlock base (2 * block.length + 4) a := by
  obtain ⟨base, hal, hout⟩ := exists_base (2 * block.length + 6) (by omega) avoid hav
  refine ⟨base + BitVec.ofNat 32 phase, ⟨?_, rfl, halvesAt_place m₀ _ block (by omega)⟩,
    fun a ha => not_inBlock_part (hout a ha) (by omega)⟩
  show (base + BitVec.ofNat 32 phase).toNat % 4 = phase
  rw [toNat_offset_mod (by decide) hal]
  omega

/-! ## Thumb pieces at either phase -/

section Thumb

variable {s : State} {base : Word} {hs : List Half} {i : ℕ} {v : Word}

/-- The address of an offset is another for another offset. -/
theorem offset_ne (base : Word) {j k : ℕ} (hj : j < 2 ^ 32) (hk : k < 2 ^ 32) (h : j ≠ k) :
    base + BitVec.ofNat 32 j ≠ base + BitVec.ofNat 32 k := by
  rw [Ne, BitVec.add_right_inj, ← BitVec.toNat_inj, BitVec.toNat_ofNat, BitVec.toNat_ofNat,
    Nat.mod_eq_of_lt hj, Nat.mod_eq_of_lt hk]
  exact h

/-- The `NOP` of HookZz, which moves a register to itself. -/
theorem step_nop (hc : HalvesAt s.mem base hs) (ht : s.thumb = true)
    (hpc : s.pc = base + BitVec.ofNat 32 (2 * i)) (hw : hs[i]? = some 0x46C0#16) :
    step s = some (s.goto (base + BitVec.ofNat 32 (2 * i + 2))) := by
  rw [hc.step16 ht hpc hw (x := ⟨always, .movReg false 8#4 8#4 0 0⟩) (by decide) (by decide),
    Insn.exec_always]
  show some ((s.setReg 8#4 (s.gpr 8#4)).goto _) = _
  rw [State.setReg, Function.update_eq_self]

/-- `LDR.W PC, [PC]` at a word boundary, its literal behind it. -/
theorem step_jump (hc : HalvesAt s.mem base hs) (ht : s.thumb = true)
    (hpc : s.pc = base + BitVec.ofNat 32 (2 * i))
    (hal : (base + BitVec.ofNat 32 (2 * i)).toNat % 4 = 0) (h0 : hs[i]? = some 0xF8DF#16)
    (h1 : hs[i + 1]? = some 0xF000#16) (h2 : hs[i + 2]? = some (lowHalf v))
    (h3 : hs[i + 3]? = some (highHalf v)) : step s = s.bxWritePC v := by
  have h4 : (base + BitVec.ofNat 32 (2 * (i + 2))).toNat % 4 = 0 := by
    rw [show 2 * (i + 2) = 2 * i + 4 from rfl, BitVec.ofNat_add, ← BitVec.add_assoc]
    exact aligned_offset (k := 4) hal (by decide)
  have hl : align4 (base + BitVec.ofNat 32 (2 * i + 4)) + 0#32
      = base + BitVec.ofNat 32 (2 * (i + 2)) := by
    exact (congrArg (· + 0#32) (align4_of_aligned h4)).trans (BitVec.add_zero _)
  rw [hc.step32 ht hpc h0 h1 (x := ⟨always, .ldrLit true PC 0#32⟩) (by decide) (by decide),
    Insn.exec_always]
  show s.writeLoaded _ PC (align4 _ + 0#32) (s.mem.read32 (align4 _ + 0#32)) = _
  rw [hl, hc.literal h2 h3, State.writeLoaded, if_pos rfl, if_pos (align4_of_aligned h4)]

/-- A branch forward that is always taken. -/
theorem step_skipHalf (hc : HalvesAt s.mem base hs) (he : base.toNat % 2 = 0) (ht : s.thumb = true)
    (hpc : s.pc = base + BitVec.ofNat 32 (2 * i)) {d : ℕ} (hd : d % 2 = 0) {w : Half}
    (hw : hs[i]? = some w) (hn : isThumb32 w = false)
    (hx : decodeThumb16 w = some ⟨always, .b (BitVec.ofNat 32 d)⟩) :
    step s = some (s.goto (base + BitVec.ofNat 32 (2 * i + 4 + d))) := by
  rw [hc.step16 ht hpc hw hn hx, Insn.exec_always]
  show some (s.branchWritePC (base + _ + _)) = _
  rw [BitVec.add_assoc, ← BitVec.ofNat_add, State.branchWritePC_thumb ht]
  rw [toNat_offset_mod (by decide) he]
  omega

end Thumb

/-! ## ARM words in a list of halfwords -/

theorem getElem?_words {ws : List Word} {i : ℕ} {w : Word} (h : ws[i]? = some w) :
    (ws.flatMap addressBytes)[2 * i]? = some (lowHalf w)
      ∧ (ws.flatMap addressBytes)[2 * i + 1]? = some (highHalf w) := by
  induction ws generalizing i with
  | nil => cases h
  | cons v ws ih =>
    cases i with
    | zero =>
      rw [List.getElem?_cons_zero, Option.some_inj] at h
      rw [h]
      exact ⟨rfl, rfl⟩
    | succ i => exact ih h

/-- Words written as halfwords are words in memory. -/
theorem wordsAt_of_halves {m : Mem} {base : Word} {ws : List Word}
    (h : HalvesAt m base (ws.flatMap addressBytes)) : WordsAt m base ws := by
  intro i w hw
  have hl := h.literal (getElem?_words hw).1 (getElem?_words hw).2
  rwa [← Nat.mul_assoc] at hl

/-- An instruction as the ARM reader finds it. -/
def armInsnAt (mem : Mem) (addr : Word) : ARMInstruction := armReaderInsn mem (armReaderReset addr)

@[simp] theorem armInsnAt_pc (mem : Mem) (addr : Word) :
    (armInsnAt mem addr).pc = addr + 8#32 := rfl

@[simp] theorem armInsnAt_insn (mem : Mem) (addr : Word) :
    (armInsnAt mem addr).insn = mem.read32 addr := rfl

section Arm

variable {s : State} {base : Word} {ws : List Word} {i : ℕ} {v w : Word}

/-- A branch inside a block, taken or not. -/
theorem step_branchWord (hc : WordsAt s.mem base ws) (hal : base.toNat % 4 = 0)
    (ht : s.thumb = false) (hpc : s.pc = base + BitVec.ofNat 32 (4 * i)) {c : BitVec 4} {off : ℕ}
    (hoff : off % 4 = 0) (hw : ws[i]? = some w)
    (hd : decodeArm w = some ⟨c, .b (BitVec.ofNat 32 off)⟩) :
    step s = some (s.goto (base + BitVec.ofNat 32 (4 * i
      + if conditionPassed c s.flags then 8 + off else 4))) := by
  rw [hc.step ht hpc hw hd]
  by_cases h : conditionPassed c s.flags = true
  · rw [Insn.exec_of_passed h, if_pos h]
    show some (s.branchWritePC (base + _ + _)) = _
    rw [BitVec.add_assoc, ← BitVec.ofNat_add,
      State.branchWritePC_arm ht (aligned_offset hal (by omega)), Nat.add_assoc]
  · rw [Insn.exec_of_failed (Bool.eq_false_iff.mpr h), if_neg h]

/-- A branch that is always taken. -/
theorem step_skipWord (hc : WordsAt s.mem base ws) (hal : base.toNat % 4 = 0)
    (ht : s.thumb = false) (hpc : s.pc = base + BitVec.ofNat 32 (4 * i)) {off : ℕ}
    (hoff : off % 4 = 0) (hw : ws[i]? = some w)
    (hd : decodeArm w = some ⟨always, .b (BitVec.ofNat 32 off)⟩) :
    step s = some (s.goto (base + BitVec.ofNat 32 (4 * i + 8 + off))) := by
  rw [step_branchWord hc hal ht hpc hoff hw hd, if_pos (conditionPassed_always _), Nat.add_assoc]

/-- The load in front of a literal and a branch over it. -/
theorem step_loadWord (hc : WordsAt s.mem base ws) (hal : base.toNat % 4 = 0)
    (ht : s.thumb = false) (hpc : s.pc = base + BitVec.ofNat 32 (4 * i)) {reg : Reg}
    (hw : ws[i]? = some w) (hd : decodeArm w = some ⟨always, .ldrLit true reg 0#32⟩)
    (hv : ws[i + 2]? = some v) :
    step s = s.writeLoaded (base + BitVec.ofNat 32 (4 * i + 4)) reg
      (base + BitVec.ofNat 32 (4 * (i + 2))) v := by
  have hl : align4 (base + BitVec.ofNat 32 (4 * i + 8)) + 0#32
      = base + BitVec.ofNat 32 (4 * (i + 2)) := by
    rw [align4_of_aligned (aligned_offset hal (by omega)), BitVec.add_zero]
    rfl
  rw [hc.step ht hpc hw hd, Insn.exec_always]
  show s.writeLoaded _ reg (align4 _ + 0#32) (s.mem.read32 (align4 _ + 0#32)) = _
  rw [hl, hc _ _ hv]

theorem decodeArm_loadWord : ∀ reg : Reg,
    decodeArm (0xE59F0000#32 ||| AssemblerWriter.regAt reg 12 ||| 0#32)
      = some ⟨always, .ldrLit true reg 0#32⟩ := by
  decide

/-- **The words that load a literal** leave it in the register and continue
behind it. -/
theorem run_loadWord {len : ℕ} (hc : WordsAt s.mem base ws) (hal : base.toNat % 4 = 0)
    (ht : s.thumb = false) (hpc : s.pc = base + BitVec.ofNat 32 (4 * i)) {reg : Reg}
    (hreg : reg ≠ PC)
    (h0 : ws[i]? = some (0xE59F0000#32 ||| AssemblerWriter.regAt reg 12 ||| 0#32))
    (h1 : ws[i + 1]? = some 0xEA000000#32) (h2 : ws[i + 2]? = some v)
    (hlen : 4 * i + 12 ≤ len) (hl : len < 2 ^ 32) :
    RunsWithin base len s ((s.setReg reg v).goto (base + BitVec.ofNat 32 (4 * i + 12))) := by
  have hst : step s = some ((s.setReg reg v).goto (base + BitVec.ofNat 32 (4 * i + 4))) := by
    rw [step_loadWord hc hal ht hpc h0 (decodeArm_loadWord reg) h2, State.writeLoaded, if_neg hreg]
  have hst' : step ((s.setReg reg v).goto (base + BitVec.ofNat 32 (4 * i + 4)))
      = some ((s.setReg reg v).goto (base + BitVec.ofNat 32 (4 * i + 12))) :=
    @step_skipWord ((s.setReg reg v).goto _) _ _ (i + 1) _ hc hal ht rfl 0 rfl h1
      (by decide)
  refine RunsWithin.head ?_ hst (RunsWithin.head ?_ hst' (RunsWithin.refl _))
  · rw [hpc]
    exact inBlock_offset (by omega) (by omega)
  · exact inBlock_offset (by omega) (by omega)

end Arm

end HookZz
