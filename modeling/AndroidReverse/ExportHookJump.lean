import AndroidReverse.ArmBlocks
import AndroidReverse.ArmFrame
import AndroidReverse.ExportHook

/-!
# What the Thumb jump of the export hook does

The jump loads the address of the hook into R5, puts it on the stack and pops it
into the program counter, and R5 with it. So the hook is entered with the registers
as they were. But the literal is sixteen bytes into the jump, and `add r5, pc, #12`
is aligned: where the jump starts between two words the load is two bytes off.
`thumbJump_transfers_iff` says for which functions and hooks it is right.
-/

namespace ExportHook

open Arm

/-! ## The jump -/

/-- The instructions of the jump. -/
def jumpHalves : List Half :=
  [0xB460#16, 0xA503#16, 0x682D#16, 0xB002#16, 0xB420#16, 0xB081#16, 0xBD20#16, 0x46AF#16]

/-- What they are. -/
def jumpOps : List Op :=
  [.push [5#4, 6#4], .adr true 5#4 12#32, .ldr .word true true false 5#4 5#4 0#32,
    .addImm false SP SP 8#32, .push [5#4], .addImm false SP SP (-4#32), .pop [5#4, PC],
    .movReg false PC 5#4 0 0]

theorem decode_jumpHalves :
    jumpHalves.map decodeThumb16 = jumpOps.map fun op => some ⟨always, op⟩ := by
  decide

theorem isThumb32_jumpHalves {w : Half} (hw : w ∈ jumpHalves) : isThumb32 w = false := by
  have hall : jumpHalves.all (fun w => isThumb32 w == false) = true := by
    decide
  exact beq_iff_eq.mp (List.all_eq_true.mp hall w hw)

/-- The machine for some instructions. -/
def runFor : ℕ → State → Option State
  | 0, s => some s
  | n + 1, s => (step s).bind (runFor n)

theorem runFor_succ {n : ℕ} {s t : State} (h : step s = some t) :
    runFor (n + 1) s = runFor n t := by
  rw [runFor, h, Option.bind_some]

/-- Where the jump looks for its literal: `add r5, pc, #12` at the second
instruction. -/
def literalAddr (base : Word) : Word := align4 (base + 6#32) + 12#32

/-- **The stack is one to push to**: it is aligned, and the two words below the
stack pointer are not in the jump. -/
def ValidStack (base : Word) (s : State) : Prop :=
  (s.gpr SP).toNat % 4 = 0 ∧ ∀ x, InBlock (s.gpr SP - 8#32) 8 x → ¬ InBlock base 20 x

/-! ## The two words on the stack -/

/-- A memory with two words on top of the stack. -/
def stacked (m : Mem) (b v w : Word) : Mem :=
  (m.write 4 (slotAddr b 0) v).write 4 (slotAddr b 1) w

section Stacked

variable {m : Mem} {b v w x : Word}

theorem stacked_slot_zero : (stacked m b v w).read32 (slotAddr b 0) = v := by
  rw [stacked, read32_write_slot (n := 2) (by decide) (by decide) (by decide),
    Function.update_of_ne (by decide), Mem.read32_write]

theorem stacked_slot_one : (stacked m b v w).read32 (slotAddr b 1) = w := by
  rw [stacked, Mem.read32_write]

/-- The rest of the memory is as it was. -/
theorem stacked_of_out (h : ¬ InBlock b 8 x) : stacked m b v w x = m x := by
  rw [stacked, Mem.write_of_out _ (not_inBlock_of_frame (n := 2) (by decide) h),
    Mem.write_of_out _ (not_inBlock_of_frame (n := 2) (by decide) h)]

/-- The upper word is written once more. -/
theorem stacked_write (w' : Word) :
    (stacked m b v w).write 4 (slotAddr b 1) w' = stacked m b v w' := by
  funext x
  unfold stacked Mem.write
  split <;> rfl

end Stacked

/-! ## The run -/

/-- A state in the middle of the jump, at instruction `i`. -/
def inJump (s : State) (i : ℕ) (g : Reg → Word) (m : Mem) : State :=
  { s with gpr := g, mem := m, pc := s.pc + BitVec.ofNat 32 (2 * i) }

/-- The registers on the way: R5 and the stack pointer are all that changes. -/
def jumpRegs (s : State) (r5 sp : Word) : Reg → Word :=
  Function.update (Function.update s.gpr 5#4 r5) SP sp

theorem update_jumpRegs_r5 (s : State) (x y z : Word) :
    Function.update (jumpRegs s x y) 5#4 z = jumpRegs s z y := by
  rw [jumpRegs, Function.update_comm (by decide), Function.update_idem, jumpRegs]

theorem update_jumpRegs_sp (s : State) (x y z : Word) :
    Function.update (jumpRegs s x y) SP z = jumpRegs s x z :=
  Function.update_idem _ _ _

/-- In the end they are what they were. -/
theorem jumpRegs_self (s : State) : jumpRegs s (s.gpr 5#4) (s.gpr SP) = s.gpr := by
  rw [jumpRegs, Function.update_eq_self, Function.update_eq_self]

/-- The state when the last instruction has popped what it pops. -/
def popped (s : State) (v : Word) : State :=
  { s with mem := stacked s.mem (s.gpr SP - 8#32) (s.gpr 5#4) v }

/-- A jump does not depend on where it is made. -/
theorem bxWritePC_goto (s : State) (a v : Word) : (s.goto a).bxWritePC v = s.bxWritePC v := by
  unfold State.bxWritePC
  split <;> rfl

section Run

variable {s : State} {i : ℕ} {g : Reg → Word} {m : Mem}

/-- One instruction of the jump. -/
theorem step_inJump {op : Op} (ht : s.thumb = true) (hcode : HalvesAt m s.pc jumpHalves)
    (hop : jumpOps[i]? = some op) :
    step (inJump s i g m)
      = op.exec (s.pc + BitVec.ofNat 32 (2 * i + 4)) (s.pc + BitVec.ofNat 32 (2 * (i + 1)))
          (inJump s i g m) := by
  have hdecode := congrArg (·[i]?) decode_jumpHalves
  simp only [List.getElem?_map, hop, Option.map_some] at hdecode
  obtain ⟨w, hw, hd⟩ := Option.map_eq_some_iff.mp hdecode
  rw [HalvesAt.step16 (s := inJump s i g m) hcode ht rfl hw
    (isThumb32_jumpHalves (List.mem_of_getElem? hw)) hd, Insn.exec_always]
  rfl

/-- The stack is not in the jump, so that the jump stays what it is. -/
theorem halvesAt_stacked {b v w : Word} (hcode : HalvesAt m s.pc jumpHalves)
    (hout : ∀ x, InBlock b 8 x → ¬ InBlock s.pc 20 x) :
    HalvesAt (stacked m b v w) s.pc jumpHalves :=
  hcode.congr fun k hk => stacked_of_out fun hin =>
    hout _ hin (inBlock_offset (lt_of_lt_of_le hk (by decide)) (lt_of_lt_of_le hk (by decide)))

/-- The literal is the word sixteen or eighteen bytes into the jump. -/
theorem literalAddr_eq {base : Word} (h : base.toNat % 2 = 0) :
    literalAddr base = if base.toNat % 4 = 0 then base + 16#32 else base + 18#32 := by
  rw [literalAddr, ← BitVec.toNat_inj]
  have halign := toNat_align4 (base + 6#32)
  split <;> bv_omega

/-- It is not on the stack either: its word starts in the jump. -/
theorem read32_literal {base b v w : Word} (h : base.toNat % 2 = 0) (hb : b.toNat % 4 = 0)
    (hout : ∀ x, InBlock b 8 x → ¬ InBlock base 20 x) :
    (stacked m b v w).read32 (literalAddr base) = m.read32 (literalAddr base) := by
  have haddr := literalAddr_eq h
  have hlit : (literalAddr base).toNat % 4 = 0 := by
    have halign := toNat_align4 (base + 6#32)
    unfold literalAddr
    bv_omega
  have hin : InBlock base 20 (literalAddr base) := by
    rw [haddr]
    split
    · exact inBlock_offset (k := 16) (by decide) (by decide)
    · exact inBlock_offset (k := 18) (by decide) (by decide)
  refine Mem.read32_congr fun x hx => stacked_of_out fun hx8 => hout _ ?_ hin
  obtain ⟨i, hi, rfl⟩ := exists_of_mem_wordBytes hx
  unfold InBlock at hx8 ⊢
  bv_omega

/-- **What the seven instructions of the jump do**: they continue at what the
literal is taken to be, with the registers as they were. -/
theorem runFor_jump (ht : s.thumb = true) (heven : s.pc.toNat % 2 = 0)
    (hcode : HalvesAt s.mem s.pc jumpHalves) (hstack : ValidStack s.pc s) :
    runFor 7 s = (popped s (s.mem.read32 (literalAddr s.pc))).bxWritePC
      (s.mem.read32 (literalAddr s.pc)) := by
  obtain ⟨hsp, hout⟩ := hstack
  let b := s.gpr SP - 8#32
  let v := s.mem.read32 (literalAddr s.pc)
  have hb : b.toNat % 4 = 0 := by
    show (s.gpr SP - 8#32).toNat % 4 = 0
    bv_omega
  have hcode' : ∀ u w, HalvesAt (stacked s.mem b u w) s.pc jumpHalves :=
    fun u w => halvesAt_stacked hcode hout
  let m₁ := stacked s.mem b (s.gpr 5#4) (s.gpr 6#4)
  let m₂ := stacked s.mem b (s.gpr 5#4) v
  have hslot0 : slotAddr b 0 = b := BitVec.add_zero b
  have htop : b + 8#32 = s.gpr SP := BitVec.sub_add_cancel _ _
  have hslot1 : slotAddr b 1 = s.gpr SP - 4#32 := by
    show b + 4#32 = s.gpr SP - 4#32
    rw [← htop]
    bv_omega
  have h0 : step s = some (inJump s 1 (jumpRegs s (s.gpr 5#4) b) m₁) := by
    have hs : inJump s 0 s.gpr s.mem = s := by
      unfold inJump
      rw [BitVec.add_zero]
    have hm : storeRegs s s.mem b [5#4, 6#4] = m₁ := by
      show _ = stacked s.mem b (s.gpr 5#4) (s.gpr 6#4)
      rw [stacked, hslot0]
      rfl
    rw [← hs, step_inJump ht hcode rfl, hs, ← update_jumpRegs_sp s _ (s.gpr SP) b,
      jumpRegs_self, ← hm]
    exact if_pos (align4_of_aligned hb)
  have h1 : step (inJump s 1 (jumpRegs s (s.gpr 5#4) b) m₁)
      = some (inJump s 2 (jumpRegs s (literalAddr s.pc) b) m₁) := by
    rw [step_inJump ht (hcode' _ _) rfl, ← update_jumpRegs_r5 s (s.gpr 5#4) b
      (literalAddr s.pc)]
    rfl
  have h2 : step (inJump s 2 (jumpRegs s (literalAddr s.pc) b) m₁)
      = some (inJump s 3 (jumpRegs s v b) m₁) := by
    have hv : m₁.read32 (literalAddr s.pc + 0#32) = v := by
      rw [BitVec.add_zero]
      exact read32_literal heven hb hout
    rw [step_inJump ht (hcode' _ _) rfl, ← update_jumpRegs_r5 s (literalAddr s.pc) b v, ← hv]
    rfl
  have h3 : step (inJump s 3 (jumpRegs s v b) m₁)
      = some (inJump s 4 (jumpRegs s v (s.gpr SP)) m₁) := by
    rw [step_inJump ht (hcode' _ _) rfl, ← update_jumpRegs_sp s v b (s.gpr SP), ← htop]
    rfl
  have h4 : step (inJump s 4 (jumpRegs s v (s.gpr SP)) m₁)
      = some (inJump s 5 (jumpRegs s v (slotAddr b 1)) m₂) := by
    have hm : m₁.write 4 (slotAddr b 1) v = m₂ := stacked_write v
    have halign : (slotAddr b 1).toNat % 4 = 0 := aligned_offset hb rfl
    rw [step_inJump ht (hcode' _ _) rfl, ← update_jumpRegs_sp s v (s.gpr SP)
      (slotAddr b 1), ← hm]
    rw [hslot1] at halign ⊢
    exact if_pos (align4_of_aligned halign)
  have h5 : step (inJump s 5 (jumpRegs s v (slotAddr b 1)) m₂)
      = some (inJump s 6 (jumpRegs s v b) m₂) := by
    have hdown : slotAddr b 1 + -4#32 = b := by
      rw [slotAddr, BitVec.add_assoc]
      exact BitVec.add_zero b
    rw [step_inJump ht (hcode' _ _) rfl, ← update_jumpRegs_sp s v (slotAddr b 1) b]
    exact congrArg (fun x => some (inJump s 6 (Function.update _ SP x) m₂)) hdown
  have h6 : step (inJump s 6 (jumpRegs s v b) m₂) = (popped s v).bxWritePC v := by
    have hr5 : m₂.read32 b = s.gpr 5#4 := by
      rw [← hslot0]
      exact stacked_slot_zero
    have hlast : m₂.read32 (slotAddr b 1) = v := stacked_slot_one
    have hg : Function.update (Function.update (jumpRegs s v b) 5#4 (m₂.read32 b)) SP (b + 8#32)
        = s.gpr := by
      rw [update_jumpRegs_r5, update_jumpRegs_sp, hr5, htop, jumpRegs_self]
    have hstate : ((inJump s 6 (jumpRegs s v b) m₂).setReg 5#4 (m₂.read32 b)).setReg SP (b + 8#32)
        = (popped s v).goto (s.pc + 12#32) :=
      congrArg (inJump s 6 · m₂) hg
    rw [step_inJump ht (hcode' _ _) rfl, ← bxWritePC_goto _ (s.pc + 12#32), ← hstate]
    show (if align4 b = b then if PC ∈ [5#4, PC] then
      State.bxWritePC _ (m₂.read32 (slotAddr b 1)) else _ else _) = _
    rw [if_pos (align4_of_aligned hb), if_pos (List.mem_cons_of_mem _ List.mem_cons_self), hlast]
    rfl
  rw [runFor_succ h0, runFor_succ h1, runFor_succ h2, runFor_succ h3, runFor_succ h4,
    runFor_succ h5, runFor, h6]
  cases (popped s v).bxWritePC v <;> rfl

end Run

/-! ## The hook -/

/-- **Control gets to the hook**: the jump is executed, and the hook is entered in
Thumb state with R0 to R12, the stack pointer and the link register as they were. -/
def TransfersTo (hook_thumb : Word) (s : State) : Prop :=
  ∃ t, runFor 7 s = some t ∧ t.pc = codeAddr hook_thumb ∧ t.thumb = true ∧
    ∀ r, r ≠ PC → t.gpr r = s.gpr r

/-- It does if the literal is the address of the hook. -/
theorem transfersTo_iff_literal {s : State} {hook_thumb : Word} (hhook : hook_thumb.toNat % 2 = 1)
    (ht : s.thumb = true) (heven : s.pc.toNat % 2 = 0) (hcode : HalvesAt s.mem s.pc jumpHalves)
    (hstack : ValidStack s.pc s) :
    TransfersTo hook_thumb s ↔ s.mem.read32 (literalAddr s.pc) = hook_thumb := by
  unfold TransfersTo
  rw [runFor_jump ht heven hcode hstack]
  generalize s.mem.read32 (literalAddr s.pc) = v
  constructor
  · rintro ⟨t, hjump, hpc, hthumb, -⟩
    rw [State.bxWritePC_eq_some hjump] at hpc hthumb
    have hbit : v.getLsbD 0 = true := hthumb
    have hodd : v.toNat % 2 = 1 := by
      rw [getLsbD_eq_decide] at hbit
      simpa using hbit
    have haddr : codeAddr v = codeAddr hook_thumb := by
      rw [← hpc]
      exact (if_pos hbit).symm
    rw [codeAddr_thumb hodd, codeAddr_thumb hhook] at haddr
    exact (BitVec.sub_left_inj _).mp haddr
  · rintro rfl
    have hbit : v.getLsbD 0 = true := by
      rw [getLsbD_eq_decide]
      simpa using hhook
    exact ⟨_, if_pos hbit, rfl, rfl, fun _ _ => rfl⟩

/-- **When the literal is the address of the hook**: the function is at a multiple of
four. Elsewhere the load reads the upper half of the address and the halfword behind
the jump, which have to be the two halves of the address by chance. -/
def LiteralFound (addr hook_thumb : Word) (m : Mem) : Prop :=
  (codeAddr addr).toNat % 4 = 0 ∨
    (m.read16 (codeAddr addr + 20#32) = highHalf hook_thumb ∧
      highHalf hook_thumb = lowHalf hook_thumb)

instance (addr hook_thumb : Word) (m : Mem) : Decidable (LiteralFound addr hook_thumb m) :=
  inferInstanceAs (Decidable (_ ∨ _))

theorem highHalf_append (x y : Half) : highHalf (x ++ y) = x := by
  refine BitVec.eq_of_getLsbD_eq fun i hi => ?_
  simp only [highHalf, BitVec.getLsbD_extractLsb', BitVec.getLsbD_append, hi, decide_true,
    Bool.true_and, show ¬ 16 + i < 16 by omega, if_false, Nat.add_sub_cancel_left]

theorem lowHalf_append (x y : Half) : lowHalf (x ++ y) = y := by
  refine BitVec.eq_of_getLsbD_eq fun i hi => ?_
  simp only [lowHalf, BitVec.getLsbD_extractLsb', BitVec.getLsbD_append, hi, decide_true,
    Bool.true_and, Nat.zero_add, if_true]

/-- A word by its halves. -/
theorem append_eq_iff {x y : Half} {v : Word} : x ++ y = v ↔ x = highHalf v ∧ y = lowHalf v := by
  constructor
  · rintro rfl
    exact ⟨(highHalf_append x y).symm, (lowHalf_append x y).symm⟩
  · rintro ⟨rfl, rfl⟩
    exact highHalf_append_lowHalf v

section Function

variable {addr hook_arm hook_thumb : Word} {funcname : List Byte} {p : Process}

/-- What `exporthook` leaves at a Thumb function. -/
theorem exporthook_jumpHalves (hthumb : addr.toNat % 2 = 1) :
    HalvesAt (exporthook (some addr) funcname hook_arm hook_thumb p).2.mem (codeAddr addr)
        jumpHalves ∧
      WordsAt (exporthook (some addr) funcname hook_arm hook_thumb p).2.mem
        (codeAddr addr + 16#32) [hook_thumb] := by
  have hjump := exporthook_jumpAt addr funcname hook_arm hook_thumb p (Or.inr hthumb)
  rw [JumpAt, if_neg (by omega)] at hjump
  exact hjump

theorem literal_exporthook_iff (hthumb : addr.toNat % 2 = 1) :
    (exporthook (some addr) funcname hook_arm hook_thumb p).2.mem.read32
        (literalAddr (codeAddr addr)) = hook_thumb ↔ LiteralFound addr hook_thumb p.mem := by
  let m := (exporthook (some addr) funcname hook_arm hook_thumb p).2.mem
  show m.read32 _ = _ ↔ _
  have heven : (codeAddr addr).toNat % 2 = 0 := by
    rw [codeAddr_thumb hthumb]
    bv_omega
  have hword : m.read32 (codeAddr addr + 16#32) = hook_thumb := by
    have hat : WordsAt m (codeAddr addr + 16#32) [hook_thumb] := (exporthook_jumpHalves hthumb).2
    have hread := hat 0 _ rfl
    rwa [show BitVec.ofNat 32 (4 * 0) = 0#32 from rfl, BitVec.add_zero] at hread
  unfold LiteralFound
  rw [literalAddr_eq heven]
  by_cases halign : (codeAddr addr).toNat % 4 = 0
  · rw [if_pos halign]
    exact iff_of_true hword (Or.inl halign)
  · have hbehind : m.read16 (codeAddr addr + 20#32) = p.mem.read16 (codeAddr addr + 20#32) := by
      have hout : Set.EqOn m p.mem (window addr)ᶜ :=
        exporthook_outside addr funcname hook_arm hook_thumb p (Or.inr hthumb)
      have hk : ∀ k, 20 ≤ k → k < 2 ^ 32 →
          codeAddr addr + BitVec.ofNat 32 k ∈ (window addr)ᶜ := by
        intro k hle hlt hin
        have hin : InBlock (codeAddr addr) 20 (codeAddr addr + BitVec.ofNat 32 k) := by
          have hsize : patchSize addr = 20 := if_neg (by omega)
          exact hsize ▸ hin
        rw [InBlock, BitVec.add_comm, BitVec.add_sub_cancel, BitVec.toNat_ofNat,
          Nat.mod_eq_of_lt hlt] at hin
        omega
      have hnext : codeAddr addr + 20#32 + 1#32 = codeAddr addr + BitVec.ofNat 32 21 := by
        rw [BitVec.add_assoc]
        rfl
      rw [Mem.read16, Mem.read16, hnext, hout (hk 21 (by decide) (by decide)),
        hout (hk 20 (by decide) (by decide))]
    have hupper : m.read16 (codeAddr addr + 18#32) = highHalf hook_thumb := by
      rw [← hword, Mem.read32, highHalf_append, BitVec.add_assoc]
      rfl
    have hread : m.read32 (codeAddr addr + 18#32)
        = p.mem.read16 (codeAddr addr + 20#32) ++ highHalf hook_thumb := by
      rw [Mem.read32, hupper, BitVec.add_assoc, ← hbehind]
      rfl
    rw [if_neg halign, hread, append_eq_iff, or_iff_right halign]

/-- **The Thumb jump is transparent** exactly if the function is at a multiple of
four, or the bytes around the address of the hook repeat it by chance. -/
theorem thumbJump_transfers_iff (funcname : List Byte) (hook_arm : Word) {s : State}
    (hthumb : addr.toNat % 2 = 1) (hhook : hook_thumb.toNat % 2 = 1)
    (hmem : s.mem = (exporthook (some addr) funcname hook_arm hook_thumb p).2.mem)
    (hpc : s.pc = codeAddr addr) (ht : s.thumb = true) (hstack : ValidStack s.pc s) :
    TransfersTo hook_thumb s ↔ LiteralFound addr hook_thumb p.mem := by
  have heven : s.pc.toNat % 2 = 0 := by
    rw [hpc, codeAddr_thumb hthumb]
    bv_omega
  have hcode : HalvesAt s.mem s.pc jumpHalves := by
    rw [hmem, hpc]
    exact (exporthook_jumpHalves hthumb).1
  rw [transfersTo_iff_literal hhook ht heven hcode hstack, hmem, hpc,
    literal_exporthook_iff hthumb]

end Function

/-- A process with a hook record that is not filled in. -/
def emptyProcess : Process :=
  ⟨fun a => a.setWidth 8,
    ⟨.replicate 3 0, .replicate 3 0, .replicate 20 0, .replicate 20 0, 0, 0, 0, .replicate 128 0⟩⟩

/-- The start of a hooked function, with the stack at `0x8000`. -/
def atFunction (addr hook_arm hook_thumb : Word) : State :=
  ⟨fun _ => 0x8000#32, codeAddr addr, true, ⟨false, false, false, false⟩,
    (exporthook (some addr) [0x66#8] hook_arm hook_thumb emptyProcess).2.mem⟩

theorem validStack_atFunction {addr hook_arm hook_thumb : Word} (h : addr.toNat < 0x4000) :
    ValidStack (codeAddr addr) (atFunction addr hook_arm hook_thumb) := by
  refine ⟨show (0x8000#32).toNat % 4 = 0 by decide, fun x hx hin => ?_⟩
  have hcode : (codeAddr addr).toNat ≤ addr.toNat := by
    rw [codeAddr, toNat_align2]
    omega
  have hx : (x - (0x8000#32 - 8#32)).toNat < 8 := hx
  unfold InBlock at hin
  bv_omega

/-- A function at `0x1000`. -/
theorem thumbJump_transfers_aligned : TransfersTo 0x3001#32 (atFunction 0x1001#32 0#32 0x3001#32) :=
  (thumbJump_transfers_iff [0x66#8] 0#32 rfl rfl rfl rfl rfl
    (validStack_atFunction (by decide))).mpr (Or.inl rfl)

/-- A function at `0x1002`. -/
theorem not_thumbJump_transfers_unaligned :
    ¬ TransfersTo 0x3001#32 (atFunction 0x1003#32 0#32 0x3001#32) := by
  have heven : (atFunction 0x1003#32 0#32 0x3001#32).pc.toNat % 2 = 0 := by
    decide
  rw [transfersTo_iff_literal rfl rfl heven (exporthook_jumpHalves rfl).1
    (validStack_atFunction (by decide))]
  exact fun h => absurd ((literal_exporthook_iff rfl).mp h) (by decide)

end ExportHook
