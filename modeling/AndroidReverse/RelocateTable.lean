import AndroidReverse.RelocateThumb32

/-!
# Relocated table branches

`TBB` and `TBH` read a table behind themselves and branch by twice the entry.
The block that `relocateInstructionInThumb32` emits for them computes the same
target in two scratch registers: `r`, which ends up in the jump, and `rx`,
which is saved on the stack and restored.

The run of its eleven instructions is `tableBlock_runs`. It ends at the right
place, but with the target in `r` and the flags of the last addition, so the
block leaves the registers and the flags alone only where they held these
values already (`tableBranch_iff`).

The block uses the word below the stack pointer. What is said here is for an
aligned stack whose word below the stack pointer holds neither the block nor
the table entry.
-/

namespace Relocate

open Arm

/-! ## The scratch registers -/

/-- The register the target is computed in: the highest low register that is
not the index. -/
def tableR (rm : Reg) : Reg := if rm = 7#4 then 6#4 else 7#4

/-- The register that is saved: the highest low register that is neither. -/
def tableRx (rm : Reg) : Reg := if rm = 7#4 ∨ rm = 6#4 then 5#4 else 6#4

theorem scratchReg_table : ∀ rm : Reg,
    scratchReg [rm.setWidth 32] 7 = (tableR rm).setWidth 32
      ∧ scratchReg [rm.setWidth 32, (tableR rm).setWidth 32] 7 = (tableRx rm).setWidth 32 := by
  decide

/-- The scratch registers are neither the index nor each other, and not one of
the special registers. -/
structure ScratchRegs (rm r rx : Reg) : Prop where
  r_ne_rx : r ≠ rx
  rm_ne_r : rm ≠ r
  rm_ne_rx : rm ≠ rx
  r_ne_sp : r ≠ SP
  rx_ne_sp : rx ≠ SP
  r_ne_pc : r ≠ PC
  rx_ne_pc : rx ≠ PC

theorem scratchRegs (rm : Reg) : ScratchRegs rm (tableR rm) (tableRx rm) where
  r_ne_rx := by revert rm; decide
  rm_ne_r := by revert rm; decide
  rm_ne_rx := by revert rm; decide
  r_ne_sp := by revert rm; decide
  rx_ne_sp := by revert rm; decide
  r_ne_pc := by revert rm; decide
  rx_ne_pc := by revert rm; decide

/-! ## The block -/

section Block

variable (wide : Bool) (rm : Reg) (v : Word)

/-- **The block of a table branch** on index `rm` whose literal is `v`. -/
def tableBlock : List Half :=
  let r : Word := (tableR rm).setWidth 32
  let rx : Word := (tableRx rm).setWidth 32
  let m : Word := rm.setWidth 32
  [store16 (0xB400#32 ||| (1#32 <<< rx)), store16 (0x4805#32 ||| (r <<< 8)),
    store16 (0x4600#32 ||| (m <<< 3) ||| rx), store16 (0xEB00#32 ||| r),
    store16 ((if wide then 0x0040#32 else 0x0000#32) ||| (rx <<< 8) ||| rx),
    store16 ((if wide then 0x8800#32 else 0x7800#32) ||| (rx <<< 3) ||| rx),
    store16 (0xEB00#32 ||| r), store16 (0x0040#32 ||| (r <<< 8) ||| rx),
    store16 (0x3001#32 ||| (r <<< 8)), store16 (0xBC00#32 ||| (1#32 <<< rx)),
    store16 (0x4700#32 ||| (r <<< 3)), 0xBF00#16, lowHalf v, highHalf v]

variable {wide rm v} {high low : Half}

theorem tableBranch_cases {x : Insn} (hx : decodeThumb32 (high ++ low) = some x)
    (hop : x.op = .tb wide PC rm) :
    (high ++ low : BitVec 32) &&& 0xFFFFFFE0#32 = 0xE8DFF000#32
      ∧ armReg (high ++ low) 0 = rm ∧ (high ++ low : BitVec 32).getLsbD 4 = wide
      ∧ rm ≠ SP ∧ rm ≠ PC ∧ x = ⟨always, .tb wide PC rm⟩ := by
  obtain ⟨r, hr, hm, he, rfl⟩ := exists_row hx
  simp only [thumb32Rows, thumbRow, thumbCondRow, List.mem_cons, List.not_mem_nil, or_false] at hr
  rcases hr with rfl | rfl | rfl | rfl | rfl | rfl | rfl | rfl | rfl | rfl | rfl
  case inr.inr.inr.inr.inr.inr.inr.inl =>
    obtain ⟨hw, hn, hrm⟩ : (high ++ low : BitVec 32).getLsbD 4 = wide
        ∧ armReg (high ++ low) 16 = PC ∧ armReg (high ++ low) 0 = rm := by
      injection hop with h1 h2 h3
      exact ⟨h1, h2, h3⟩
    have hbad : armReg (high ++ low) 0 ≠ SP ∧ armReg (high ++ low) 0 ≠ PC :=
      (by simpa [badReg] using he : _ ∧ _ ∧ _).2
    rw [hrm] at hbad
    refine ⟨mask_union hm (mask_of_extract 16 4 hn), hrm, hw, hbad.1, hbad.2, ?_⟩
    show Insn.mk always (.tb _ (armReg (high ++ low) 16) (armReg (high ++ low) 0)) = _
    rw [hw, hn, hrm]
  all_goals cases hop

theorem relocateInstructionInThumb32_tbb (mem : Mem) (pc : Word)
    (ht : getTypeInThumb32 (high ++ low) = .tbbThumb32) :
    relocateInstructionInThumb32 mem pc high low = tableBlock false (low.extractLsb' 0 4) pc := by
  have hm : low.setWidth 32 &&& 0xF#32 = (low.extractLsb' 0 4).setWidth 32 :=
    maskLow low (by omega) 4 (by omega)
  unfold relocateInstructionInThumb32
  simp only [instructionWord, ht, hm, (scratchReg_table _).1, (scratchReg_table _).2, literal_eq]
  rfl

theorem relocateInstructionInThumb32_tbh (mem : Mem) (pc : Word)
    (ht : getTypeInThumb32 (high ++ low) = .tbhThumb32) :
    relocateInstructionInThumb32 mem pc high low = tableBlock true (low.extractLsb' 0 4) pc := by
  have hm : low.setWidth 32 &&& 0xF#32 = (low.extractLsb' 0 4).setWidth 32 :=
    maskLow low (by omega) 4 (by omega)
  unfold relocateInstructionInThumb32
  simp only [instructionWord, ht, hm, (scratchReg_table _).1, (scratchReg_table _).2, literal_eq]
  rfl

theorem relocateInstructionInThumb32_table (mem : Mem) (pc : Word)
    (h : (high ++ low : BitVec 32) &&& 0xFFFFFFE0#32 = 0xE8DFF000#32)
    (hrm : armReg (high ++ low) 0 = rm) (hw : (high ++ low : BitVec 32).getLsbD 4 = wide) :
    relocateInstructionInThumb32 mem pc high low = tableBlock wide rm pc := by
  have hm : low.extractLsb' 0 4 = rm := by rw [← hrm, armReg, extract_low high low (by omega)]
  have hbit : (high ++ low : BitVec 32).extractLsb' 4 1 = BitVec.ofBool wide := by
    rw [← hw]
    refine BitVec.eq_of_getLsbD_eq (fun i hi => ?_)
    obtain rfl : i = 0 := by omega
    simp
  have h' := mask_union h (mask_of_extract 4 1 hbit)
  cases wide with
  | false =>
    have ht : getTypeInThumb32 (high ++ low) = .tbbThumb32 := by
      unfold getTypeInThumb32
      iterate 7 rw [if_neg (mask_conflict h (by decide))]
      rw [if_pos ((mask_trans _ h' (by decide)).trans (by decide))]
    rw [relocateInstructionInThumb32_tbb mem pc ht, hm]
  | true =>
    have ht : getTypeInThumb32 (high ++ low) = .tbhThumb32 := by
      unfold getTypeInThumb32
      iterate 7 rw [if_neg (mask_conflict h (by decide))]
      rw [if_neg (mask_conflict h' (by decide)),
        if_pos ((mask_trans _ h' (by decide)).trans (by decide))]
    rw [relocateInstructionInThumb32_tbh mem pc ht, hm]

/-! ## The instructions of the block -/

theorem table_push : ∀ rm : Reg,
    isThumb32 (store16 (0xB400#32 ||| (1#32 <<< ((tableRx rm).setWidth 32 : Word)))) = false
      ∧ decodeThumb16 (store16 (0xB400#32 ||| (1#32 <<< ((tableRx rm).setWidth 32 : Word))))
        = some ⟨always, .push [tableRx rm]⟩ := by
  decide

theorem table_ldr : ∀ rm : Reg,
    isThumb32 (store16 (0x4805#32 ||| ((tableR rm).setWidth 32 <<< 8))) = false
      ∧ decodeThumb16 (store16 (0x4805#32 ||| ((tableR rm).setWidth 32 <<< 8)))
        = some ⟨always, .ldrLit true (tableR rm) 20#32⟩ := by
  decide

theorem table_mov : ∀ rm : Reg,
    isThumb32 (store16 (0x4600#32 ||| (rm.setWidth 32 <<< 3) ||| (tableRx rm).setWidth 32)) = false
      ∧ decodeThumb16 (store16 (0x4600#32 ||| (rm.setWidth 32 <<< 3) ||| (tableRx rm).setWidth 32))
        = some ⟨always, .movReg false (tableRx rm) rm 0 0⟩ := by
  decide

theorem table_index : ∀ (wide : Bool) (rm : Reg),
    isThumb32 (store16 (0xEB00#32 ||| (tableR rm).setWidth 32)) = true
      ∧ decodeThumb32 (store16 (0xEB00#32 ||| (tableR rm).setWidth 32)
          ++ store16 ((if wide then 0x0040#32 else 0x0000#32) ||| ((tableRx rm).setWidth 32 <<< 8)
            ||| (tableRx rm).setWidth 32))
        = some ⟨always, .addReg false (tableRx rm) (tableR rm) (tableRx rm) 0
            (if wide then 1 else 0)⟩ := by
  decide

theorem table_load : ∀ (wide : Bool) (rm : Reg),
    isThumb32 (store16 ((if wide then 0x8800#32 else 0x7800#32) ||| ((tableRx rm).setWidth 32 <<< 3)
        ||| (tableRx rm).setWidth 32)) = false
      ∧ decodeThumb16 (store16 ((if wide then 0x8800#32 else 0x7800#32)
          ||| ((tableRx rm).setWidth 32 <<< 3) ||| (tableRx rm).setWidth 32))
        = some ⟨always, .ldr (if wide then .half else .byte) true true false (tableRx rm)
            (tableRx rm) 0⟩ := by
  decide

theorem table_add : ∀ rm : Reg,
    decodeThumb32 (store16 (0xEB00#32 ||| (tableR rm).setWidth 32)
        ++ store16 (0x0040#32 ||| ((tableR rm).setWidth 32 <<< 8) ||| (tableRx rm).setWidth 32))
      = some ⟨always, .addReg false (tableR rm) (tableR rm) (tableRx rm) 0 1⟩ := by
  decide

theorem table_adds : ∀ rm : Reg,
    isThumb32 (store16 (0x3001#32 ||| ((tableR rm).setWidth 32 <<< 8))) = false
      ∧ decodeThumb16 (store16 (0x3001#32 ||| ((tableR rm).setWidth 32 <<< 8)))
        = some ⟨always, .addImm true (tableR rm) (tableR rm) 1#32⟩ := by
  decide

theorem table_pop : ∀ rm : Reg,
    isThumb32 (store16 (0xBC00#32 ||| (1#32 <<< ((tableRx rm).setWidth 32 : Word)))) = false
      ∧ decodeThumb16 (store16 (0xBC00#32 ||| (1#32 <<< ((tableRx rm).setWidth 32 : Word))))
        = some ⟨always, .pop [tableRx rm]⟩ := by
  decide

theorem table_bx : ∀ rm : Reg,
    isThumb32 (store16 (0x4700#32 ||| ((tableR rm).setWidth 32 <<< 3))) = false
      ∧ decodeThumb16 (store16 (0x4700#32 ||| ((tableR rm).setWidth 32 <<< 3)))
        = some ⟨always, .bx (tableR rm)⟩ := by
  decide

end Block

/-! ## The stack and the table -/

section Stack

variable {wide : Bool} {s : State} {pc next : Word} {q : Reg}

/-- `PUSH` of one register. -/
theorem exec_push_one (h : (s.gpr SP).toNat % 4 = 0) :
    Op.exec pc next s (.push [q])
      = some ({ s.setReg SP (s.gpr SP - 4#32) with
          mem := s.mem.write 4 (s.gpr SP - 4#32) (s.gpr q) }.goto next) := by
  have hal : align4 (s.gpr SP - 4#32) = s.gpr SP - 4#32 := by
    refine align4_of_aligned ?_
    rw [BitVec.toNat_sub, BitVec.toNat_ofNat]
    omega
  show (if align4 (s.gpr SP - 4#32) = s.gpr SP - 4#32 then _ else _) = _
  rw [if_pos hal]
  rfl

/-- `POP` of one register other than the program counter. -/
theorem exec_pop_one (hq : q ≠ PC) (h : (s.gpr SP).toNat % 4 = 0) :
    Op.exec pc next s (.pop [q])
      = some (((s.setReg q (s.mem.read32 (s.gpr SP))).setReg SP (s.gpr SP + 4#32)).goto next) := by
  have hmem : PC ∉ [q] := fun h => hq (List.mem_singleton.mp h).symm
  show (if align4 (s.gpr SP) = s.gpr SP then _ else _) = _
  rw [if_pos (align4_of_aligned h), if_neg hmem]
  show some (State.goto (State.setReg (if q = 15#4 then s else _) _ _) _) = _
  rw [if_neg hq]
  rfl

/-- The table entry is apart from the word below the stack pointer. -/
def EntryApart (wide : Bool) (pc idx sp : Word) : Prop :=
  ¬ InBlock (sp - 4#32) 4 (tableAddr wide pc idx)
    ∧ (wide = true → ¬ InBlock (sp - 4#32) 4 (tableAddr wide pc idx + 1#32))

instance (wide : Bool) (pc idx sp : Word) : Decidable (EntryApart wide pc idx sp) :=
  inferInstanceAs (Decidable (_ ∧ _))

/-- A store below the stack pointer leaves such an entry alone. -/
theorem EntryApart.tableEntry_write {m : Mem} {idx sp x : Word} (h : EntryApart wide pc idx sp) :
    tableEntry (m.write 4 (sp - 4#32) x) wide pc idx = tableEntry m wide pc idx := by
  unfold tableEntry
  cases wide with
  | false =>
    show ((m.write 4 (sp - 4#32) x) _).setWidth 32 = (m _).setWidth 32
    rw [Mem.write_of_out m h.1]
  | true =>
    show ((m.write 4 (sp - 4#32) x).read16 _).setWidth 32 = (m.read16 _).setWidth 32
    rw [Mem.read16, Mem.read16, Mem.write_of_out m h.1, Mem.write_of_out m (h.2 rfl)]

/-- Where a table branch goes. -/
def tableTarget (m : Mem) (wide : Bool) (pc idx : Word) : Word :=
  pc + tableEntry m wide pc idx <<< 1

theorem tableTarget_congr {m m' : Mem} {idx : Word}
    (h : tableEntry m wide pc idx = tableEntry m' wide pc idx) :
    tableTarget m wide pc idx = tableTarget m' wide pc idx := by
  rw [tableTarget, h, tableTarget]

theorem tableTarget_even {m : Mem} {idx : Word} (h : pc.toNat % 2 = 0) :
    (tableTarget m wide pc idx).toNat % 2 = 0 := by
  refine add_even h (toNat_mod_two ?_)
  rw [BitVec.getLsbD_shiftLeft]
  rfl

end Stack

/-! ## The run of the block -/

section Steps

variable {wide : Bool} {rm : Reg} {v base : Word} {u : State}

/-- The aligned address below a halfword. -/
theorem align4_offset_two {k : ℕ} (h : base.toNat % 4 = 0) (hk : k % 4 = 2) :
    align4 (base + BitVec.ofNat 32 k) = base + BitVec.ofNat 32 (k - 2) := by
  rw [← BitVec.toNat_inj, toNat_align4, BitVec.toNat_add, BitVec.toNat_add, BitVec.toNat_ofNat,
    BitVec.toNat_ofNat]
  have := base.isLt
  omega

theorem step_push (hc : HalvesAt u.mem base (tableBlock wide rm v)) (ht : u.thumb = true)
    (hpc : u.pc = base) (hsp : (u.gpr SP).toNat % 4 = 0) :
    step u = some ({ u.setReg SP (u.gpr SP - 4#32) with
      mem := u.mem.write 4 (u.gpr SP - 4#32) (u.gpr (tableRx rm)) }.goto (base + 2#32)) := by
  rw [hc.step16 (i := 0) ht (hpc.trans (BitVec.add_zero base).symm) rfl (table_push rm).1
    (table_push rm).2, Insn.exec_always, exec_push_one hsp]

theorem step_literal (hc : HalvesAt u.mem base (tableBlock wide rm v)) (ht : u.thumb = true)
    (hpc : u.pc = base + 2#32) (hal : base.toNat % 4 = 0) :
    step u = some ((u.setReg (tableR rm) v).goto (base + 4#32)) := by
  have hl : align4 (base + 6#32) + 20#32 = base + BitVec.ofNat 32 (2 * 12) := by
    rw [align4_offset_two (k := 6) hal rfl, BitVec.add_assoc]
    rfl
  rw [hc.step16 (i := 1) ht hpc rfl (table_ldr rm).1 (table_ldr rm).2, Insn.exec_always]
  show u.writeLoaded (base + 4#32) (tableR rm) (align4 (base + 6#32) + 20#32)
    (u.mem.read32 (align4 (base + 6#32) + 20#32)) = _
  rw [hl, hc.literal (i := 12) (v := v) rfl rfl, State.writeLoaded,
    if_neg (scratchRegs rm).r_ne_pc]

theorem step_mov (hc : HalvesAt u.mem base (tableBlock wide rm v)) (ht : u.thumb = true)
    (hpc : u.pc = base + 4#32) (hrm : rm ≠ PC) :
    step u = some ((u.setReg (tableRx rm) (u.gpr rm)).goto (base + 6#32)) := by
  rw [hc.step16 (i := 2) ht hpc rfl (table_mov rm).1 (table_mov rm).2, Insn.exec_always]
  show u.writeResult (base + 6#32) (tableRx rm) (u.readReg _ rm) = _
  rw [State.readReg, if_neg hrm, State.writeResult, if_neg (scratchRegs rm).rx_ne_pc]

theorem step_index (hc : HalvesAt u.mem base (tableBlock wide rm v)) (ht : u.thumb = true)
    (hpc : u.pc = base + 6#32) :
    step u = some ((u.setReg (tableRx rm)
      (tableAddr wide (u.gpr (tableR rm)) (u.gpr (tableRx rm)))).goto (base + 10#32)) := by
  rw [hc.step32 (i := 3) ht hpc rfl rfl (table_index wide rm).1 (table_index wide rm).2,
    Insn.exec_always]
  show u.writeResult (base + 10#32) (tableRx rm) (u.readReg _ (tableR rm)
    + (shiftC (u.readReg _ (tableRx rm)) 0 (if wide then 1 else 0) u.flags.c).1) = _
  rw [State.readReg, State.readReg, if_neg (scratchRegs rm).r_ne_pc,
    if_neg (scratchRegs rm).rx_ne_pc, State.writeResult, if_neg (scratchRegs rm).rx_ne_pc]
  cases wide <;> rfl

theorem step_load (hc : HalvesAt u.mem base (tableBlock wide rm v)) (ht : u.thumb = true)
    (hpc : u.pc = base + 10#32) :
    step u = some ((u.setReg (tableRx rm)
      (u.mem.load (u.gpr (tableRx rm)) (if wide then .half else .byte))).goto (base + 12#32)) := by
  rw [hc.step16 (i := 5) ht hpc rfl (table_load wide rm).1 (table_load wide rm).2,
    Insn.exec_always]
  show u.writeLoaded (base + 12#32) (tableRx rm) _
    (u.mem.load (u.readReg _ (tableRx rm) + 0#32) (if wide then .half else .byte)) = _
  rw [State.readReg, if_neg (scratchRegs rm).rx_ne_pc, BitVec.add_zero, State.writeLoaded,
    if_neg (scratchRegs rm).rx_ne_pc]

theorem step_double (hc : HalvesAt u.mem base (tableBlock wide rm v)) (ht : u.thumb = true)
    (hpc : u.pc = base + 12#32) :
    step u = some ((u.setReg (tableR rm)
      (u.gpr (tableR rm) + u.gpr (tableRx rm) <<< 1)).goto (base + 16#32)) := by
  rw [hc.step32 (i := 6) ht hpc rfl rfl (table_index wide rm).1 (table_add rm), Insn.exec_always]
  show u.writeResult (base + 16#32) (tableR rm) (u.readReg _ (tableR rm)
    + (shiftC (u.readReg _ (tableRx rm)) 0 1 u.flags.c).1) = _
  rw [State.readReg, State.readReg, if_neg (scratchRegs rm).r_ne_pc,
    if_neg (scratchRegs rm).rx_ne_pc, State.writeResult, if_neg (scratchRegs rm).r_ne_pc]
  rfl

theorem step_increment (hc : HalvesAt u.mem base (tableBlock wide rm v)) (ht : u.thumb = true)
    (hpc : u.pc = base + 16#32) :
    step u = some (State.goto (State.setReg { u with flags := addFlags (u.gpr (tableR rm)) 1#32 }
      (tableR rm) (u.gpr (tableR rm) + 1#32)) (base + 18#32)) := by
  rw [hc.step16 (i := 8) ht hpc rfl (table_adds rm).1 (table_adds rm).2, Insn.exec_always]
  show State.writeResult { u with flags := addFlags (u.readReg _ (tableR rm)) 1#32 }
    (base + 18#32) (tableR rm) (u.readReg _ (tableR rm) + 1#32) = _
  rw [State.readReg, if_neg (scratchRegs rm).r_ne_pc, State.writeResult,
    if_neg (scratchRegs rm).r_ne_pc]

theorem step_pop (hc : HalvesAt u.mem base (tableBlock wide rm v)) (ht : u.thumb = true)
    (hpc : u.pc = base + 18#32) (hsp : (u.gpr SP).toNat % 4 = 0) :
    step u = some (((u.setReg (tableRx rm) (u.mem.read32 (u.gpr SP))).setReg SP
      (u.gpr SP + 4#32)).goto (base + 20#32)) := by
  rw [hc.step16 (i := 9) ht hpc rfl (table_pop rm).1 (table_pop rm).2, Insn.exec_always,
    exec_pop_one (scratchRegs rm).rx_ne_pc hsp]

theorem step_bx (hc : HalvesAt u.mem base (tableBlock wide rm v)) (ht : u.thumb = true)
    (hpc : u.pc = base + 20#32) : step u = u.bxWritePC (u.gpr (tableR rm)) := by
  rw [hc.step16 (i := 10) ht hpc rfl (table_bx rm).1 (table_bx rm).2, Insn.exec_always]
  show u.bxWritePC (u.readReg _ (tableR rm)) = _
  rw [State.readReg, if_neg (scratchRegs rm).r_ne_pc]

end Steps

section Run

variable {wide : Bool} {rm : Reg} {v : Word} {s : State}

/-- **What the block needs of the stack**: an aligned stack pointer, and
neither the block nor the table entry in the word below it. -/
structure StackReady (wide : Bool) (rm : Reg) (v : Word) (s : State) : Prop where
  /-- The stack pointer is word-aligned. -/
  aligned : (s.gpr SP).toNat % 4 = 0
  /-- The table entry is apart from the word below. -/
  entry : EntryApart wide v (s.gpr rm) (s.gpr SP)
  /-- The block is apart from the word below. -/
  block : ∀ k, k < 28 → ¬ InBlock (s.gpr SP - 4#32) 4 (s.pc + BitVec.ofNat 32 k)

/-- **The state the block ends in**: at the target, with the odd target in the
scratch register, the flags of its last addition, and the other scratch
register in the word below the stack pointer. -/
def tableResult (wide : Bool) (rm : Reg) (v : Word) (s : State) : State where
  gpr := Function.update s.gpr (tableR rm) (tableTarget s.mem wide v (s.gpr rm) + 1#32)
  pc := tableTarget s.mem wide v (s.gpr rm)
  thumb := true
  flags := addFlags (tableTarget s.mem wide v (s.gpr rm)) 1#32
  mem := s.mem.write 4 (s.gpr SP - 4#32) (s.gpr (tableRx rm))

/-- **The run of a table block.** -/
theorem tableBlock_runs (hrm : rm ≠ SP) (hpc : rm ≠ PC)
    (hat : AtThumbBlock (tableBlock wide rm v) s) (hst : StackReady wide rm v s)
    (hv : v.toNat % 2 = 0) : RunsWithin s.pc 28 s (tableResult wide rm v s) := by
  have hreg := scratchRegs rm
  set r := tableR rm
  set rx := tableRx rm
  set sp := s.gpr SP
  set idx := s.gpr rm
  set target := tableTarget s.mem wide v idx with htarget
  let m := s.mem.write 4 (sp - 4#32) (s.gpr rx)
  have hc : HalvesAt m s.pc (tableBlock wide rm v) :=
    hat.code.congr (fun k hk => Mem.write_of_out _ (hst.block k hk))
  have hentry : m.load (tableAddr wide v idx) (if wide then .half else .byte)
      = tableEntry s.mem wide v idx := hst.entry.tableEntry_write
  have hin : ∀ k, k < 28 → InBlock s.pc 28 (s.pc + BitVec.ofNat 32 k) :=
    fun k hk => inBlock_offset hk (by omega)
  -- the states the run passes, one for each instruction
  let s₁ : State := ⟨Function.update s.gpr SP (sp - 4#32), s.pc + 2#32, s.thumb, s.flags, m⟩
  let s₂ : State := ⟨Function.update s₁.gpr r v, s.pc + 4#32, s.thumb, s.flags, m⟩
  let s₃ : State := ⟨Function.update s₂.gpr rx idx, s.pc + 6#32, s.thumb, s.flags, m⟩
  let s₄ : State :=
    ⟨Function.update s₃.gpr rx (tableAddr wide v idx), s.pc + 10#32, s.thumb, s.flags, m⟩
  let s₅ : State :=
    ⟨Function.update s₄.gpr rx (tableEntry s.mem wide v idx), s.pc + 12#32, s.thumb, s.flags, m⟩
  let s₆ : State := ⟨Function.update s₅.gpr r target, s.pc + 16#32, s.thumb, s.flags, m⟩
  let s₇ : State :=
    ⟨Function.update s₆.gpr r (target + 1#32), s.pc + 18#32, s.thumb, addFlags target 1#32, m⟩
  let s₈ : State :=
    ⟨Function.update (Function.update s₇.gpr rx (s.gpr rx)) SP sp, s.pc + 20#32, s.thumb,
      addFlags target 1#32, m⟩
  have h₁ : step s = some s₁ := step_push hat.code hat.thumb rfl hst.aligned
  have h₂ : step s₁ = some s₂ := step_literal (u := s₁) hc hat.thumb rfl hat.aligned
  have h₃ : step s₂ = some s₃ := by
    have hg : s₂.gpr rm = idx := by
      show Function.update (Function.update s.gpr SP _) r v rm = _
      rw [Function.update_of_ne hreg.rm_ne_r, Function.update_of_ne hrm]
    rw [step_mov (u := s₂) hc hat.thumb rfl hpc, hg]
    rfl
  have h₄ : step s₃ = some s₄ := by
    have hgr : s₃.gpr r = v := by
      show Function.update (Function.update s₁.gpr r v) rx idx r = v
      rw [Function.update_of_ne hreg.r_ne_rx, Function.update_self]
    rw [step_index (u := s₃) hc hat.thumb rfl, hgr,
      show s₃.gpr rx = idx from Function.update_self _ _ _]
    rfl
  have h₅ : step s₄ = some s₅ := by
    rw [step_load (u := s₄) hc hat.thumb rfl,
      show s₄.gpr rx = tableAddr wide v idx from Function.update_self _ _ _,
      show s₄.mem.load _ _ = _ from hentry]
    rfl
  have h₆ : step s₅ = some s₆ := by
    have hgr : s₅.gpr r = v := by
      show Function.update (Function.update (Function.update (Function.update s₁.gpr r v) rx _)
        rx _) rx _ r = v
      rw [Function.update_of_ne hreg.r_ne_rx, Function.update_of_ne hreg.r_ne_rx,
        Function.update_of_ne hreg.r_ne_rx, Function.update_self]
    rw [step_double (u := s₅) hc hat.thumb rfl, hgr,
      show s₅.gpr rx = tableEntry s.mem wide v idx from Function.update_self _ _ _]
    rfl
  have h₇ : step s₆ = some s₇ := by
    rw [step_increment (u := s₆) hc hat.thumb rfl,
      show s₆.gpr r = target from Function.update_self _ _ _]
    rfl
  have h₈ : step s₇ = some s₈ := by
    have hgsp : s₇.gpr SP = sp - 4#32 := by
      show Function.update (Function.update (Function.update (Function.update (Function.update
        (Function.update (Function.update s.gpr SP _) r _) rx _) rx _) rx _) r _) r _ SP = _
      rw [Function.update_of_ne hreg.r_ne_sp.symm, Function.update_of_ne hreg.r_ne_sp.symm,
        Function.update_of_ne hreg.rx_ne_sp.symm, Function.update_of_ne hreg.rx_ne_sp.symm,
        Function.update_of_ne hreg.rx_ne_sp.symm, Function.update_of_ne hreg.r_ne_sp.symm]
      exact Function.update_self _ _ _
    have hal : (s₇.gpr SP).toNat % 4 = 0 := by
      have hal : sp.toNat % 4 = 0 := hst.aligned
      rw [hgsp, BitVec.toNat_sub, BitVec.toNat_ofNat]
      omega
    rw [step_pop (u := s₇) hc hat.thumb rfl hal, hgsp, BitVec.sub_add_cancel,
      show s₇.mem.read32 (sp - 4#32) = s.gpr rx from Mem.read32_write _ _ _]
    rfl
  have hg₈ : s₈.gpr = Function.update s.gpr r (target + 1#32) := by
    funext q
    show Function.update (Function.update (Function.update (Function.update (Function.update
      (Function.update (Function.update (Function.update (Function.update s.gpr SP _) r _) rx _)
        rx _) rx _) r _) r _) rx _) SP _ q = _
    simp only [Function.update_apply]
    by_cases hsp : q = SP
    · rw [if_pos hsp, hsp, if_neg hreg.r_ne_sp.symm]
    · by_cases hrx : q = rx
      · rw [if_neg hsp, if_pos hrx, hrx, if_neg hreg.r_ne_rx.symm]
      · simp only [if_neg hsp, if_neg hrx]
        by_cases hr : q = r <;> simp only [hr, if_true, if_false]
  have h₉ : step s₈ = some (tableResult wide rm v s) := by
    rw [step_bx (u := s₈) hc hat.thumb rfl, hg₈, Function.update_self,
      State.bxWritePC_thumb _ (tableTarget_even hv), hg₈]
    rfl
  exact .head (inBlock_base (by omega)) h₁ (.head (hin 2 (by omega)) h₂
    (.head (hin 4 (by omega)) h₃ (.head (hin 6 (by omega)) h₄ (.head (hin 10 (by omega)) h₅
    (.head (hin 12 (by omega)) h₆ (.head (hin 16 (by omega)) h₇ (.head (hin 18 (by omega)) h₈
    (.head (hin 20 (by omega)) h₉ (.refl _)))))))))

end Run

/-! ## The comparison -/

section Comparison

variable {wide : Bool} {rm : Reg} {pc : Word} {m₀ : Mem} {g : Reg → Word} {f : Flags}

/-- **A block stands for a table branch** on index `rm` at a place where the
program counter reads as `pc`: entered with the registers `g` and the flags
`f`, and with the table entry as it was in `m₀`, it continues where the branch
does, with the registers, the flags and the memory the branch leaves, but for
the word below the stack pointer. -/
def TableReproduces (m₀ : Mem) (block : List Half) (wide : Bool) (rm : Reg) (pc : Word)
    (g : Reg → Word) (f : Flags) : Prop :=
  ∀ s, AtThumbBlock block s → s.gpr = g → s.flags = f →
    tableEntry s.mem wide pc (g rm) = tableEntry m₀ wide pc (g rm) → StackReady wide rm pc s →
    ∀ t, (Insn.mk always (.tb wide PC rm)).exec pc (blockEnd block s) s = some t →
      ∃ u, RunsWithin s.pc (2 * block.length) s u ∧ u.gpr = t.gpr ∧ u.pc = t.pc
        ∧ u.thumb = t.thumb ∧ u.flags = t.flags
        ∧ ∀ a, ¬ InBlock (g SP - 4#32) 4 a → u.mem a = t.mem a

/-- The table branch itself. -/
theorem exec_tb {s : State} {next : Word} (hs : s.thumb = true) (hpc : pc.toNat % 2 = 0) :
    (Insn.mk always (.tb wide PC rm)).exec pc next s
      = some (s.goto (tableTarget s.mem wide pc (s.gpr rm))) := by
  rw [Insn.exec_always]
  exact congrArg some (State.branchWritePC_thumb hs (tableTarget_even hpc))

/-- Memories that agree on the bytes of an entry agree on the entry. -/
theorem tableEntry_congr {m m' : Mem} {idx : Word}
    (h : ∀ a ∈ [tableAddr wide pc idx, tableAddr wide pc idx + 1#32], m a = m' a) :
    tableEntry m wide pc idx = tableEntry m' wide pc idx := by
  have h0 := h _ List.mem_cons_self
  have h1 := h _ (List.mem_cons_of_mem _ List.mem_cons_self)
  unfold tableEntry
  cases wide with
  | false =>
    show (m _).setWidth 32 = (m' _).setWidth 32
    rw [h0]
  | true =>
    show (m.read16 _).setWidth 32 = (m'.read16 _).setWidth 32
    rw [Mem.read16, Mem.read16, h0, h1]

/-- A block apart from every byte of a word has no byte in the word. -/
theorem not_inBlock_word {base a : Word} {len k : ℕ} (hk : k < len) (hlen : len < 2 ^ 32)
    (h : ∀ b ∈ wordBytes a, ¬ InBlock base len b) :
    ¬ InBlock a 4 (base + BitVec.ofNat 32 k) := by
  intro hin
  obtain ⟨j, hj, hjk⟩ : ∃ j, j < 4 ∧ base + BitVec.ofNat 32 k = a + BitVec.ofNat 32 j := by
    refine ⟨_, hin, ?_⟩
    rw [BitVec.ofNat_toNat, BitVec.setWidth_eq, BitVec.add_comm a, BitVec.sub_add_cancel]
  refine h (a + BitVec.ofNat 32 j) ?_ (hjk ▸ inBlock_offset hk (by omega))
  unfold wordBytes
  interval_cases j <;> simp

/-- Where the block stands for the branch, it left nothing behind: the scratch
register and the flags were what it makes them. -/
theorem TableReproduces.left_alone (hrm : rm ≠ SP) (hrpc : rm ≠ PC) (hpc : pc.toNat % 2 = 0)
    (hsp : (g SP).toNat % 4 = 0) (hentry : EntryApart wide pc (g rm) (g SP))
    (h : TableReproduces m₀ (tableBlock wide rm pc) wide rm pc g f) :
    g (tableR rm) = tableTarget m₀ wide pc (g rm) + 1#32
      ∧ f = addFlags (tableTarget m₀ wide pc (g rm)) 1#32 := by
  let entry := [tableAddr wide pc (g rm), tableAddr wide pc (g rm) + 1#32]
  obtain ⟨base, hal, hav⟩ := exists_base 28 (by omega)
    (tableTarget m₀ wide pc (g rm) :: (entry ++ wordBytes (g SP - 4#32)))
        (by simp [entry, wordBytes])
  let s : State := ⟨g, base, true, f, m₀.place 2 base (tableBlock wide rm pc)⟩
  have hat : AtThumbBlock (tableBlock wide rm pc) s :=
    ⟨hal, rfl, halvesAt_place m₀ base _ (by simp [tableBlock])⟩
  have hmem : tableEntry s.mem wide pc (g rm) = tableEntry m₀ wide pc (g rm) := by
    refine tableEntry_congr (fun a ha => Mem.place_of_out (by omega) ?_)
    exact Nat.not_lt.mp (hav a (List.mem_cons_of_mem _ (List.mem_append_left _ ha)))
  have htarget : tableTarget s.mem wide pc (g rm) = tableTarget m₀ wide pc (g rm) :=
    tableTarget_congr hmem
  have hst : StackReady wide rm pc s := by
    refine ⟨hsp, hentry, fun k hk => not_inBlock_word hk (by omega) (fun b hb => ?_)⟩
    exact hav b (List.mem_cons_of_mem _ (List.mem_append_right _ hb))
  obtain ⟨u, hu, hgpr, hupc, -, hflags, -⟩ := h s hat rfl rfl hmem hst _ (exec_tb rfl hpc)
  have hout : ¬ InBlock base 28 (tableTarget s.mem wide pc (g rm)) := by
    rw [htarget]
    exact hav _ List.mem_cons_self
  have hres := tableBlock_runs hrm hrpc hat hst hpc
  have hue : u = tableResult wide rm pc s := by
    refine RunsWithin.left_unique hres hout hu ?_
    rw [hupc]
    exact hout
  rw [hue] at hgpr hflags
  constructor
  · have hg : Function.update g (tableR rm) (tableTarget s.mem wide pc (g rm) + 1#32) (tableR rm)
        = g (tableR rm) := congrFun hgpr (tableR rm)
    rw [Function.update_self, htarget] at hg
    exact hg.symm
  · rw [← htarget]
    exact hflags.symm

end Comparison

end Relocate
