import AndroidReverse.HookZzEffect
import AndroidReverse.HookZzArmBranch

/-!
# Relocated data instructions

`ADR`, the literal loads and the additions of the program counter, as
`zz_thumb_relocator_write_one` and `zz_arm_relocator_write_one` rewrite them,
compared with the instructions for every register file and every flag state.

The blocks carry the value the program counter had, or an address computed from
it, and there are four ways for them to go wrong. The rewriters of the Thumb
`ADR` add to the program counter without aligning it; those of the ARM `ADR`
take the constant as it is encoded. A block loads its address into the
register the instruction loads, which is a jump if that is the program
counter. An ARM block is not conditional. And an addition takes R7 for the
program counter: it is wrong where R7 is itself an operand, since R7 is then
restored over the result, or read after it has been overwritten.
`thumbData_reproduced_iff` and `armData_reproduced_iff` say exactly when.
-/

namespace HookZz

open Arm Relocate Relocator

/-! ## Effects that leave the memory alone -/

section Effects

variable {thumb : Bool} {phase : ℕ} {block : List Half} {x : Insn} {pc : Word} {m₀ : Mem}
  {f : Flags} {targets : List Word} {effect : State → Word → Option State} {c : BitVec 4}
  {add : Bool} {rd : Reg} {imm v : Word}

theorem SameBut.eq {sp : Word} {t u : State} (h : SameBut sp t u) (hm : u.mem = t.mem) : u = t := by
  rw [h.state, hm]

/-- A word-aligned value other than a given one. -/
theorem exists_other (v : Word) : ∃ w : Word, w ≠ v ∧ w.toNat % 4 = 0 := by
  by_cases h : v = 0#32
  · exact ⟨4#32, by rw [h]; decide, rfl⟩
  · exact ⟨0#32, Ne.symm h, rfl⟩

theorem bxWritePC_mem {s t : State} {a : Word} (h : s.bxWritePC a = some t) : t.mem = s.mem := by
  rw [State.bxWritePC_eq_some h]

theorem writeValue_mem {s t : State} {next : Word} (h : s.writeValue next rd v = some t) :
    t.mem = s.mem := by
  unfold State.writeValue at h
  by_cases hrd : rd = PC
  · rw [if_pos hrd] at h
    exact bxWritePC_mem h
  · rw [if_neg hrd] at h
    rw [← Option.some.inj h]
    rfl

theorem loadEffect_mem {s t : State} {next : Word} (h : loadEffect rd v s next = some t) :
    t.mem = s.mem := by
  unfold loadEffect at h
  by_cases hrd : rd = PC
  · rw [if_pos hrd] at h
    exact bxWritePC_mem h
  · rw [if_neg hrd] at h
    rw [← Option.some.inj h]
    rfl

/-- **A block whose effect leaves the memory alone** and that stands for an
instruction that does has the effect of the instruction, for registers that are
all the same. -/
theorem DataReproduced.exists_same (h : DataReproduced thumb phase block x pc m₀ f)
    (hb : BlockEffect thumb phase block (StackFit (2 * block.length) x.op) targets effect)
    (hm : ∀ s next u, effect s next = some u → u.mem = s.mem) (hp : phase = 0 ∨ phase = 2)
    (hlen : block.length ≤ 100) {a : Word} (ha : a.toNat % 4 = 0) (others : List Word)
    (ht : targets.length < 2 ^ 16) (ho : others.length < 2 ^ 16) :
    ∃ s next, s.thumb = thumb ∧ s.flags = f ∧ s.gpr = (fun _ => a)
      ∧ LiteralKept m₀ x.op pc s.mem ∧ next ∉ targets
      ∧ ∀ t, x.exec pc next s = some t → t.pc = next ∨ t.pc ∈ others → t.mem = s.mem →
        effect s next = some t := by
  obtain ⟨s, next, hs, hf, hg, hk, hn, hw⟩ :=
    h.exists_effect hb hp hlen (fun _ => a) ha others ht ho
  refine ⟨s, next, hs, hf, hg, hk, hn, fun t hx hpc hmem => ?_⟩
  obtain ⟨u, hu, hsame⟩ := hw t hx hpc
  rw [hu, hsame.eq ((hm s next u hu).trans hmem.symm)]

/-- **An unconditional block** that never does nothing stands for an
instruction only if its condition passes. -/
theorem DataReproduced.passed (h : DataReproduced thumb phase block x pc m₀ f)
    (hb : BlockEffect thumb phase block (StackFit (2 * block.length) x.op) targets effect)
    (hm : ∀ s next u, effect s next = some u → u.mem = s.mem) (hp : phase = 0 ∨ phase = 2)
    (hlen : block.length ≤ 100) (ht : targets.length < 2 ^ 16) (a : Word) (ha : a.toNat % 4 = 0)
    (hne : ∀ s next, s.gpr = (fun _ => a) → LiteralKept m₀ x.op pc s.mem → next ∉ targets →
      effect s next ≠ some (s.goto next)) :
    conditionPassed x.cond f = true := by
  by_contra hc
  obtain ⟨s, next, -, hf, hg, hk, hn, hw⟩ :=
    h.exists_same hb hm hp hlen ha [] ht (by decide)
  refine hne s next hg hk hn (hw (s.goto next) ?_ (Or.inl rfl) rfl)
  rw [Insn.exec_of_failed (by rw [hf]; exact Bool.eq_false_iff.mpr hc)]

/-! ## The comparisons -/

/-- **A value block stands for an `ADR`** exactly if the condition passes and
the value is the one of the instruction. -/
theorem adr_iff (hb : ∀ fit, BlockEffect thumb phase block fit (jumpTargets v)
      (fun s next => s.writeValue next rd v))
    (hrd : rd ≠ PC ∨ thumb = false) (hp : phase = 0 ∨ phase = 2) (hlen : block.length ≤ 100) :
    DataReproduced thumb phase block ⟨c, .adr add rd imm⟩ pc m₀ f
      ↔ conditionPassed c f = true ∧ (v = offset add (align4 pc) imm
          ∨ (rd = PC ∧ (offset add (align4 pc) imm).toNat % 4 = 2)) := by
  set v' := offset add (align4 pc) imm with hv'
  have hex : ∀ s next, s.thumb = thumb → s.flags = f → conditionPassed c f = true →
      (Insn.mk c (.adr add rd imm)).exec pc next s = s.writeValue next rd v' := by
    intro s next hs hf hc
    rw [Insn.exec_of_passed (by rw [hf]; exact hc)]
    show s.writeResult next rd v' = _
    rcases hrd with hrd | hrd
    · rw [State.writeResult, State.writeValue, if_neg hrd, if_neg hrd]
    · exact State.writeResult_eq_writeValue (hs.trans hrd)
  have hm : ∀ (s : State) next u, s.writeValue next rd v = some u → u.mem = s.mem :=
    fun s next u h => writeValue_mem h
  have ht : (jumpTargets v).length < 2 ^ 16 := by
    rw [jumpTargets_length]
    decide
  constructor
  · intro h
    obtain ⟨a, hav, ha⟩ := exists_other v
    have hc := h.passed (hb _) hm hp hlen ht a ha (fun s next hg _ hn =>
      State.writeValue_ne_goto (by rw [hg]; exact hav) hn)
    refine ⟨hc, ?_⟩
    obtain ⟨s, next, hs, hf, -, -, -, hw⟩ := h.exists_same (hb _) hm hp hlen ha (jumpTargets v') ht
      (by rw [jumpTargets_length]; decide)
    have hex' := hex s next hs hf hc
    -- without an effect of the instruction there is nothing to agree with
    cases hres : s.writeValue next rd v' with
    | some t =>
      refine Or.inl (State.writeValue_injective
        (hw t (hex'.trans hres) ?_ (writeValue_mem hres)) hres)
      unfold State.writeValue at hres
      by_cases hrd : rd = PC
      · rw [if_pos hrd] at hres
        exact Or.inr (pc_mem_jumpTargets hres)
      · rw [if_neg hrd] at hres
        rw [← Option.some.inj hres]
        exact Or.inl rfl
    | none =>
      unfold State.writeValue at hres
      by_cases hrd : rd = PC
      · rw [if_pos hrd] at hres
        exact Or.inr ⟨hrd, State.bxWritePC_eq_none hres⟩
      · rw [if_neg hrd] at hres
        cases hres
  · rintro ⟨hc, hvv⟩
    refine (hb _).reproduces (fun s t next hs hf _ _ ht => ?_)
    rw [hex s next hs hf hc] at ht
    rcases hvv with hvv | ⟨hrd, hmod⟩
    · exact ⟨t, by rw [hvv]; exact ht, SameBut.refl _ _⟩
    · rw [State.writeValue, if_pos hrd, State.bxWritePC_unaligned s hmod] at ht
      cases ht

/-- **When a load through the register itself is the load of a literal**: the
register is not the program counter, or what the program counter is loaded with
is no address, or the address it is loaded from. -/
def loadExact (m₀ : Mem) (rt : Reg) (a : Word) : Prop :=
  rt ≠ PC ∨ (align4 a = a → (m₀.read32 a).toNat % 4 = 2 ∨ m₀.read32 a = a)

/-- **A load block stands for a literal load** exactly if the condition passes
and the load is one of these. -/
theorem ldr_iff {rt : Reg} {a : Word} (ha : a = offset add (align4 pc) imm)
    (hb : ∀ fit, BlockEffect thumb phase block fit (jumpTargets a) (loadEffect rt a))
    (hp : phase = 0 ∨ phase = 2) (hlen : block.length ≤ 100) :
    DataReproduced thumb phase block ⟨c, .ldrLit add rt imm⟩ pc m₀ f
      ↔ conditionPassed c f = true ∧ loadExact m₀ rt a := by
  have hlit : ∀ s : State, LiteralKept m₀ (.ldrLit add rt imm) pc s.mem →
      s.mem.read32 a = m₀.read32 a := by
    intro s hk
    rw [ha]
    exact hk _ rfl
  have hex : ∀ s next, s.flags = f → conditionPassed c f = true →
      LiteralKept m₀ (.ldrLit add rt imm) pc s.mem →
      (Insn.mk c (.ldrLit add rt imm)).exec pc next s
        = s.writeLoaded next rt a (m₀.read32 a) := by
    intro s next hf hc hk
    rw [Insn.exec_of_passed (by rw [hf]; exact hc), ← hlit s hk, ha]
    rfl
  have hm : ∀ (s : State) next u, loadEffect rt a s next = some u → u.mem = s.mem :=
    fun s next u h => loadEffect_mem h
  have ht : (jumpTargets a).length < 2 ^ 16 := by
    rw [jumpTargets_length]
    decide
  constructor
  · intro h
    obtain ⟨b, hba, hb4⟩ := exists_other (m₀.read32 a)
    have hc : conditionPassed c f = true := by
      refine h.passed (hb _) hm hp hlen ht b hb4 (fun s next hg hk hn he => ?_)
      unfold loadEffect at he
      by_cases hrt : rt = PC
      · rw [if_pos hrt] at he
        exact hn (pc_mem_jumpTargets he)
      · rw [if_neg hrt, hlit s hk] at he
        have hgpr := congrArg (fun u => State.gpr u rt) (Option.some.inj he)
        simp only [State.goto_gpr, State.setReg_gpr, Function.update_self, hg] at hgpr
        exact hba hgpr.symm
    refine ⟨hc, or_iff_not_imp_left.mpr (fun hrt hal => ?_)⟩
    rw [not_not] at hrt
    subst hrt
    obtain ⟨s, next, -, hf, -, hk, -, hw⟩ := h.exists_same (hb _) hm hp hlen hb4
      (jumpTargets (m₀.read32 a)) ht (by rw [jumpTargets_length]; decide)
    have hex' := hex s next hf hc hk
    rw [State.writeLoaded, if_pos rfl, if_pos hal] at hex'
    cases hres : s.bxWritePC (m₀.read32 a) with
    | none => exact Or.inl (State.bxWritePC_eq_none hres)
    | some t =>
      refine Or.inr (State.bxWritePC_injective hres ?_)
      have he := hw t (hex'.trans hres) (Or.inr (pc_mem_jumpTargets hres)) (bxWritePC_mem hres)
      rwa [loadEffect, if_pos rfl] at he
  · rintro ⟨hc, hload⟩
    refine (hb _).reproduces (fun s t next _ hf hk _ ht => ⟨t, ?_, SameBut.refl _ _⟩)
    rw [hex s next hf hc hk] at ht
    unfold State.writeLoaded at ht
    unfold loadEffect
    by_cases hrt : rt = PC
    · rw [if_pos hrt] at ht ⊢
      by_cases hal : align4 a = a
      · rw [if_pos hal] at ht
        rcases hload.resolve_left (not_not_intro hrt) hal with h2 | h2
        · rw [State.bxWritePC_unaligned s h2] at ht
          cases ht
        · rwa [h2] at ht
      · rw [if_neg hal] at ht
        cases ht
    · rw [if_neg hrt] at ht ⊢
      rw [hlit s hk]
      exact ht

end Effects

/-! ## Additions -/

section Add

variable {thumb : Bool} {phase : ℕ} {block A : List Half} {pc : Word} {m₀ : Mem} {f : Flags}
  {c : BitVec 4} {setflags : Bool} {rd rn rm r : Reg} {ty : BitVec 2} {imm5 : BitVec 5}

/-- The registers an addition leaves, as a function of those it finds. -/
def addRegs (c : BitVec 4) (rd rn rm : Reg) (ty : BitVec 2) (imm5 : BitVec 5) (f : Flags)
    (g : Reg → Word) : Reg → Word :=
  addedRegs c rd (g rn) (shiftC (g rm) ty imm5 f.c).1 f g

/-- And the flags. -/
def addedFlagsOf (c : BitVec 4) (setflags : Bool) (rn rm : Reg) (ty : BitVec 2) (imm5 : BitVec 5)
    (f : Flags) (g : Reg → Word) : Flags :=
  addedFlags c setflags (g rn) (shiftC (g rm) ty imm5 f.c).1 f

theorem alters_add (hA : Encodes thumb A ⟨c, .addReg setflags rd rn rm ty imm5⟩) (hrd : rd ≠ PC)
    (hrn : rn ≠ PC) (hrm : rm ≠ PC) :
    Alters thumb A (addRegs c rd rn rm ty imm5) (addedFlagsOf c setflags rn rm ty imm5) := by
  intro s ht hc
  rw [hA s ht hc, exec_addReg hrd hrm, State.readReg, if_neg hrn]
  rfl

/-- An addition to a register other than the stack pointer keeps that. -/
theorem addRegs_sp (hsp : rd ≠ SP) (f : Flags) (g : Reg → Word) :
    addRegs c rd rn rm ty imm5 f g SP = g SP := by
  unfold addRegs addedRegs
  split
  · exact Function.update_of_ne hsp.symm _ _
  · rfl

/-- The block with its state restored. -/
def restored (r : Reg) (v : Word) (regs : Flags → (Reg → Word) → Reg → Word) (f : Flags)
    (g : Reg → Word) : Reg → Word :=
  Function.update (Function.update (regs f (spilledRegs r v g)) r (g r)) SP (g SP)

/-- **A block that saves a register stands for an addition** exactly if the
registers and flags it restores are those of the addition. -/
theorem spill_iff {regs : Flags → (Reg → Word) → Reg → Word}
    {flags : Flags → (Reg → Word) → Flags} {R : (Reg → Word) → Reg → Word}
    {F : (Reg → Word) → Flags}
    (hb : BlockEffect thumb phase block (StackApart (2 * block.length)) []
      (fun s next => some (spillEffect r pc regs flags s next)))
    (hex : ∀ s next, s.flags = f →
      (Insn.mk c (.addReg setflags rd rn rm ty imm5)).exec pc next s
        = some ⟨R s.gpr, next, s.thumb, F s.gpr, s.mem⟩)
    (hp : phase = 0 ∨ phase = 2) (hlen : block.length ≤ 100) :
    DataReproduced thumb phase block ⟨c, .addReg setflags rd rn rm ty imm5⟩ pc m₀ f
      ↔ ∀ g : Reg → Word, (g SP).toNat % 4 = 0 →
        restored r pc regs f g = R g ∧ flags f (spilledRegs r pc g) = F g := by
  have hb' : BlockEffect thumb phase block
      (StackFit (2 * block.length) (.addReg setflags rd rn rm ty imm5)) []
      (fun s next => some (spillEffect r pc regs flags s next)) := hb
  constructor
  · intro h g hsp
    obtain ⟨s, next, -, hf, hg, -, -, hw⟩ :=
      h.exists_effect hb' hp hlen g hsp [] (by decide) (by decide)
    obtain ⟨u, hu, hsame⟩ := hw _ (hex s next hf) (Or.inl rfl)
    have hu := Option.some.inj hu
    have hgpr : u.gpr = R g := by
      rw [← hg, hsame.state]
    have hflags : u.flags = F g := by
      rw [← hg, hsame.state]
    rw [← hu] at hgpr hflags
    rw [← hgpr, ← hflags, ← hf, ← hg]
    exact ⟨rfl, rfl⟩
  · intro h
    refine hb'.reproduces (fun s t next _ hf _ hfit ht => ⟨_, rfl, ?_⟩)
    obtain ⟨hregs, hflags⟩ := h s.gpr (StackApart.aligned hfit)
    rw [hex s next hf] at ht
    rw [← Option.some.inj ht, ← hregs, ← hflags]
    refine ⟨?_, fun a ha => Mem.write_of_out _ ha⟩
    rw [← hf]
    rfl

/-- A register file inside the block. -/
theorem spilledRegs_self (v : Word) (g : Reg → Word) : spilledRegs r v g r = v :=
  Function.update_self _ _ _

theorem spilledRegs_of_ne {q : Reg} (hq : q ≠ r) (hsp : q ≠ SP) (v : Word) (g : Reg → Word) :
    spilledRegs r v g q = g q := by
  rw [spilledRegs, Function.update_of_ne hq, Function.update_of_ne hsp]

/-- If nothing is added nothing is left. -/
theorem restored_failed (hc : conditionPassed c f = false) (g : Reg → Word) (v : Word) :
    restored r v (addRegs c rd rn rm ty imm5) f g = g := by
  unfold restored addRegs addedRegs
  rw [if_neg (by rw [hc]; exact Bool.false_ne_true)]
  exact spill_restore

/-- A result in another register is what is left. -/
theorem restored_passed (hc : conditionPassed c f = true) (hrd : rd ≠ r) (hsp : rd ≠ SP)
    (g : Reg → Word) (v : Word) :
    restored r v (addRegs c rd rn rm ty imm5) f g
      = Function.update g rd (spilledRegs r v g rn
          + (shiftC (spilledRegs r v g rm) ty imm5 f.c).1) := by
  unfold restored addRegs addedRegs
  rw [if_pos hc]
  exact spill_restore_result hrd hsp

/-- A result in the saved register is lost. -/
theorem restored_lost (hc : conditionPassed c f = true) (g : Reg → Word) (v : Word) :
    restored r v (addRegs c r rn rm ty imm5) f g = g := by
  unfold restored addRegs addedRegs
  rw [if_pos hc, Function.update_idem]
  exact spill_restore

/-! ### The pieces -/

theorem saves_thumb : Saves true [0xB480#16] 7#4 := by
  intro s ht hc hsp
  rw [encodes_thumb16 (x := ⟨always, .push [7#4]⟩) (by decide) (by decide) s ht hc,
    Insn.exec_always, exec_push_one hsp]

theorem restores_thumb : Restores true [0xBC80#16] 7#4 := by
  intro s ht hc hsp
  rw [encodes_thumb16 (x := ⟨always, .pop [7#4]⟩) (by decide) (by decide) s ht hc,
    Insn.exec_always, exec_pop_one (by decide) hsp]

theorem saves_arm : Saves false (addressBytes 0xE52D7004#32) 7#4 := by
  intro s ht hc _
  rw [encodes_arm (x := ⟨always, .str .word true false true 7#4 SP 4#32⟩) (by decide) s ht hc,
    Insn.exec_always]
  rfl

theorem restores_arm : Restores false (addressBytes 0xE49D7004#32) 7#4 := by
  intro s ht hc _
  rw [encodes_arm (x := ⟨always, .ldr .word false true true 7#4 SP 4#32⟩) (by decide) s ht hc,
    Insn.exec_always]
  show some (State.goto { s with gpr := Function.update (Function.update s.gpr SP _) 7#4 _ } _) = _
  rw [Function.update_comm (by decide)]
  rfl

/-! ### The comparisons -/

/-- A shift that adds one to 1 is none. -/
theorem shift_id_iff : ∀ (ty : BitVec 2) (imm5 : BitVec 5) (carry : Bool),
    (shiftC 1#32 ty imm5 carry).1 - (shiftC 0#32 ty imm5 carry).1 = 1#32 ↔ ty = 0 ∧ imm5 = 0 := by
  decide

/-- A shift that forgets its operand is the logical one by 32. -/
theorem shift_const_iff : ∀ (ty : BitVec 2) (imm5 : BitVec 5) (carry : Bool),
    (shiftC 0#32 ty imm5 carry).1 = (shiftC (BitVec.allOnes 32) ty imm5 carry).1
      ↔ ty = 1 ∧ imm5 = 0 := by
  decide

/-- **When the block of a Thumb addition is right**: its register is not the
one the block restores, or the program counter adds nothing. -/
theorem thumbAdd_iff {rdn : Reg} (hsp : rdn ≠ SP) (pc : Word) (f : Flags) :
    (∀ g : Reg → Word, (g SP).toNat % 4 = 0 →
        restored 7#4 pc (addRegs always rdn rdn 7#4 0 0) f g = Function.update g rdn (g rdn + pc)
          ∧ addedFlagsOf always false rdn 7#4 0 0 f (spilledRegs 7#4 pc g) = f)
      ↔ rdn ≠ 7#4 ∨ pc = 0#32 := by
  have hflags : ∀ g, addedFlagsOf always false rdn 7#4 0 0 f g = f := fun g => by
    simp [addedFlagsOf, addedFlags]
  constructor
  · intro h
    refine or_iff_not_imp_left.mpr (fun h7 => ?_)
    rw [not_not] at h7
    subst h7
    have h0 := congrFun (h (fun _ => 0#32) rfl).1 7#4
    rw [restored_lost rfl, Function.update_self, BitVec.zero_add] at h0
    exact h0.symm
  · intro h g _
    refine ⟨?_, hflags _⟩
    by_cases h7 : rdn = 7#4
    · subst h7
      rw [restored_lost rfl, h.resolve_left (not_not_intro rfl), BitVec.add_zero,
        Function.update_eq_self]
    · rw [restored_passed rfl h7 hsp, spilledRegs_of_ne h7 hsp, spilledRegs_self]
      rfl

/-- **When the block of an ARM addition is right**, if it adds at all. -/
def armAddExact (pc : Word) (setflags : Bool) (rd rm : Reg) (ty : BitVec 2) (imm5 : BitVec 5) :
    Prop :=
  (rd ≠ 7#4 ∧ (rm ≠ 7#4 ∨ (ty = 1 ∧ imm5 = 0)))
    ∨ (rd = 7#4 ∧ rm = 7#4 ∧ pc = 0#32 ∧ ty = 0 ∧ imm5 = 0 ∧ setflags = false)

theorem armAdd_iff {rd rm : Reg} (hrd : rd ≠ SP) (hrm : rm ≠ SP) (c : BitVec 4) (setflags : Bool)
    (ty : BitVec 2) (imm5 : BitVec 5) (pc : Word) (f : Flags) :
    (∀ g : Reg → Word, (g SP).toNat % 4 = 0 →
        restored 7#4 pc (addRegs c rd 7#4 rm ty imm5) f g
            = addedRegs c rd pc (shiftC (g rm) ty imm5 f.c).1 f g
          ∧ addedFlagsOf c setflags 7#4 rm ty imm5 f (spilledRegs 7#4 pc g)
            = addedFlags c setflags pc (shiftC (g rm) ty imm5 f.c).1 f)
      ↔ (conditionPassed c f = true → armAddExact pc setflags rd rm ty imm5) := by
  set sh : Word → Word := fun x => (shiftC x ty imm5 f.c).1 with hsh
  by_cases hc : conditionPassed c f = true
  · rw [forall_prop_of_true hc]
    have hregs : ∀ (g : Reg → Word) y, addedRegs c rd pc y f g = Function.update g rd (pc + y) :=
      fun g y => if_pos hc
    by_cases hrd7 : rd = 7#4
    · subst hrd7
      constructor
      · intro h
        -- the register the block restores would have to be the result already
        have hfix : ∀ g : Reg → Word, (g SP).toNat % 4 = 0 → g 7#4 = pc + sh (g rm) := by
          intro g hg
          have h7 := congrFun (h g hg).1 7#4
          rwa [restored_lost hc, hregs, Function.update_self] at h7
        have hrm7 : rm = 7#4 := by
          by_contra hrm7
          have h0 := hfix (Function.update (fun _ => 0#32) 7#4 (pc + sh 0#32 + 1#32)) rfl
          rw [Function.update_self, Function.update_of_ne hrm7] at h0
          exact add_ofNat_ne (pc + sh 0#32) (k := 1) (by omega) (by omega) h0
        subst hrm7
        have h0 := hfix (fun _ => 0#32) rfl
        have h1 := hfix (Function.update (fun _ => 0#32) 7#4 1#32) rfl
        rw [Function.update_self] at h1
        obtain ⟨hty, himm⟩ := (shift_id_iff ty imm5 f.c).mp (by
          have hsub : sh 1#32 - sh 0#32 = (pc + sh 1#32) - (pc + sh 0#32) := by
            rw [add_sub_add_left_eq_sub]
          exact hsub.trans (by rw [← h1, ← h0]; rfl))
        have hpc : pc = 0#32 := by
          have hs0 : sh 0#32 = 0#32 := by
            rw [hsh, hty, himm]
            rfl
          rw [hs0, BitVec.add_zero] at h0
          exact h0.symm
        refine Or.inr ⟨rfl, rfl, hpc, hty, himm, ?_⟩
        by_contra hS
        rw [Bool.not_eq_false] at hS
        have hf := (h (Function.update (fun _ => 0#32) 7#4 1#32) rfl).2
        rw [addedFlagsOf, spilledRegs_self, addedFlags, if_pos ⟨hc, hS⟩, addedFlags,
          if_pos ⟨hc, hS⟩, Function.update_self, hty, himm, hpc] at hf
        have hz : (addFlags 0#32 0#32).z = (addFlags 0#32 1#32).z := congrArg Flags.z hf
        exact absurd hz (by decide)
      · rintro (⟨h7, -⟩ | ⟨-, rfl, rfl, rfl, rfl, rfl⟩) g -
        · exact absurd rfl h7
        · refine ⟨?_, ?_⟩
          · rw [restored_lost hc, hregs, BitVec.zero_add]
            exact (Function.update_eq_self _ _).symm
          · simp [addedFlagsOf, addedFlags]
    · have hres : ∀ g : Reg → Word, restored 7#4 pc (addRegs c rd 7#4 rm ty imm5) f g
          = Function.update g rd (pc + sh (spilledRegs 7#4 pc g rm)) := by
        intro g
        rw [restored_passed hc hrd7 hrd, spilledRegs_self]
      constructor
      · intro h
        refine Or.inl ⟨hrd7, or_iff_not_imp_left.mpr (fun hrm7 => ?_)⟩
        rw [not_not] at hrm7
        subst hrm7
        -- what the shift leaves does not depend on the register
        have hconst : ∀ x, sh pc = sh x := by
          intro x
          have hx := congrFun (h (Function.update (fun _ => 0#32) 7#4 x) rfl).1 rd
          rw [hres, hregs, Function.update_self, Function.update_self, Function.update_self,
            spilledRegs_self, BitVec.add_right_inj] at hx
          exact hx
        exact (shift_const_iff ty imm5 f.c).mp ((hconst _).symm.trans (hconst _))
      · rintro (⟨-, h⟩ | ⟨h7, -⟩) g -
        · have hval : sh (spilledRegs 7#4 pc g rm) = sh (g rm) := by
            rcases h with h | ⟨rfl, rfl⟩
            · rw [spilledRegs_of_ne h hrm]
            · rfl
          refine ⟨?_, ?_⟩
          · rw [hres, hregs, hval]
          · rw [addedFlagsOf, spilledRegs_self]
            exact congrArg (addedFlags c setflags pc · f) hval
        · exact absurd h7 hrd7
  · have hc' : conditionPassed c f = false := Bool.eq_false_iff.mpr hc
    refine iff_of_true (fun g _ => ⟨?_, ?_⟩) (fun h => absurd h hc)
    · rw [restored_failed hc', addedRegs, if_neg hc]
    · rw [addedFlagsOf, addedFlags, if_neg (fun h => hc h.1), addedFlags, if_neg (fun h => hc h.1)]

end Add

/-! ## The instructions -/

/-- The Thumb instructions that read the program counter as data. -/
def isThumbData : Op → Bool
  | .ldrLit _ _ _ => true
  | .adr _ _ _ => true
  | .addReg _ rd _ rm _ _ => rm == PC && !badReg rd
  | _ => false

/-- The ARM instructions that do. -/
def isArmData : Op → Bool
  | .ldrLit _ _ _ => true
  | .adr _ _ _ => true
  | .addReg _ rd rn rm _ _ => rn == PC && !badReg rd && !badReg rm
  | _ => false

/-- **The Thumb instructions, by the answers of the classifier.** -/
inductive IsThumbData (insn1 insn2 : Half) : THUMBInsnType → Insn → Prop where
  | ldrT1 : IsThumbData insn1 insn2 .ldrLiteralT1
      ⟨always, .ldrLit true (lowReg insn1 8) (thumbImm8 insn1 <<< 2)⟩
  | ldrT2 : IsThumbData insn1 insn2 .ldrLiteralT2
      ⟨always, .ldrLit ((insn1 ++ insn2 : BitVec 32).getLsbD 23) (armReg (insn1 ++ insn2) 12)
        (((insn1 ++ insn2 : BitVec 32).extractLsb' 0 12).setWidth 32)⟩
  | adrT1 : IsThumbData insn1 insn2 .adrT1
      ⟨always, .adr true (lowReg insn1 8) (thumbImm8 insn1 <<< 2)⟩
  | adrT2 (hrd : armReg (insn1 ++ insn2) 8 ≠ PC) : IsThumbData insn1 insn2 .adrT2
      ⟨always, .adr false (armReg (insn1 ++ insn2) 8) (thumbImm12 (insn1 ++ insn2))⟩
  | adrT3 (hrd : armReg (insn1 ++ insn2) 8 ≠ PC) : IsThumbData insn1 insn2 .adrT3
      ⟨always, .adr true (armReg (insn1 ++ insn2) 8) (thumbImm12 (insn1 ++ insn2))⟩
  | add {rdn : Reg} (hw : insn1 = addPcHalf rdn) (hsp : rdn ≠ SP) (hpc : rdn ≠ PC) :
      IsThumbData insn1 insn2 .addRegisterT2 ⟨always, .addReg false rdn rdn PC 0 0⟩

/-- **The ARM instructions, by the answers of the classifier.** -/
inductive IsArmData (w : Word) : ARMInsnType → Insn → Prop where
  | ldr : IsArmData w .ldrLiteralA1
      ⟨armReg w 28, .ldrLit (w.getLsbD 23) (armReg w 12) ((w.extractLsb' 0 12).setWidth 32)⟩
  | adrA1 : IsArmData w .adrA1
      ⟨armReg w 28, .adr true (armReg w 12) (armExpandImm (w.extractLsb' 0 12))⟩
  | adrA2 : IsArmData w .adrA2
      ⟨armReg w 28, .adr false (armReg w 12) (armExpandImm (w.extractLsb' 0 12))⟩
  | add {c : BitVec 4} {setflags : Bool} {rd rm : Reg} {ty : BitVec 2} {imm5 : BitVec 5}
      (hx : decodeArm w = some ⟨c, .addReg setflags rd PC rm ty imm5⟩)
      (hrd : rd ≠ SP ∧ rd ≠ PC) (hrm : rm ≠ SP ∧ rm ≠ PC) :
      IsArmData w .addRegisterA1 ⟨c, .addReg setflags rd PC rm ty imm5⟩

theorem not_badReg {r : Reg} (h : (!badReg r) = true) : r ≠ SP ∧ r ≠ PC := by
  rw [badReg, Bool.not_eq_true', Bool.or_eq_false_iff] at h
  exact ⟨by simpa using h.1, by simpa using h.2⟩

/-- **An ARM instruction that reads the program counter as data is one of
these.** -/
theorem isArmData_of_decode {w : Word} {x : Insn} (hx : decodeArm w = some x)
    (hd : isArmData x.op = true) : IsArmData w (getARMInsnType w) x := by
  have hx' := hx
  obtain ⟨r, hr, hm, he, rfl⟩ := exists_row hx
  simp only [armRows, armRow, List.mem_cons, List.not_mem_nil, or_false] at hr
  rcases hr with rfl | rfl | rfl | rfl | rfl | rfl | rfl | rfl | rfl | rfl | rfl | rfl | rfl
  case inr.inr.inr.inr.inl =>
    have hm : w &&& 0x0FE00010#32 = 0x00800000#32 := hm
    obtain ⟨hc, -⟩ : armReg w 28 ≠ 0b1111#4 ∧ exceptionReturn w = false := by simpa using he
    obtain ⟨⟨hrn, hrd⟩, hrm⟩ : (armReg w 16 = PC ∧ (!badReg (armReg w 12)) = true)
        ∧ (!badReg (armReg w 0)) = true := by
      simpa only [isArmData, Bool.and_eq_true, beq_iff_eq] using hd
    rw [getARMInsnType_eq, if_pos ⟨hm, (armCond_ne_iff w).mpr hc⟩]
    simp only [hrn] at hx' ⊢
    exact IsArmData.add hx' (not_badReg hrd) (not_badReg hrm)
  case inr.inr.inr.inr.inr.inr.inl =>
    have hm : w &&& 0x0FFF0000#32 = 0x028F0000#32 := hm
    have hc : armReg w 28 ≠ 0b1111#4 := by simpa using he
    rw [getARMInsnType_eq]
    iterate 2 rw [if_neg (fun h => mask_conflict hm (by decide) h.1)]
    rw [if_pos ⟨hm, (armCond_ne_iff w).mpr hc⟩]
    exact IsArmData.adrA1
  case inr.inr.inr.inr.inr.inr.inr.inl =>
    have hm : w &&& 0x0FFF0000#32 = 0x024F0000#32 := hm
    have hc : armReg w 28 ≠ 0b1111#4 := by simpa using he
    rw [getARMInsnType_eq]
    iterate 3 rw [if_neg (fun h => mask_conflict hm (by decide) h.1)]
    rw [if_pos ⟨hm, (armCond_ne_iff w).mpr hc⟩]
    exact IsArmData.adrA2
  case inr.inr.inr.inr.inr.inr.inr.inr.inr.inl =>
    have hm : w &&& 0x0F7F0000#32 = 0x051F0000#32 := hm
    have hc : armReg w 28 ≠ 0b1111#4 := by simpa using he
    rw [getARMInsnType_eq, if_neg (fun h => mask_conflict hm (by decide) h.1),
      if_pos ⟨hm, (armCond_ne_iff w).mpr hc⟩]
    exact IsArmData.ldr
  all_goals cases hd

/-- **A Thumb instruction that reads the program counter as data is one of
these.** -/
theorem isThumbData_of_decode {insn1 insn2 : Half} {x : Insn}
    (hx : decodeThumb insn1 insn2 = some x) (hd : isThumbData x.op = true) :
    IsThumbData insn1 insn2 (getTHUMBInsnType insn1 insn2) x := by
  unfold decodeThumb at hx
  by_cases hw : isThumb32 insn1 = true
  · rw [if_pos hw] at hx
    rw [getTHUMBInsnType_wide hw]
    obtain ⟨r, hr, hm, he, rfl⟩ := exists_row hx
    simp only [thumb32Rows, thumbRow, thumbCondRow, List.mem_cons, List.not_mem_nil, or_false]
      at hr
    rcases hr with rfl | rfl | rfl | rfl | rfl | rfl | rfl | rfl | rfl | rfl | rfl
    case inr.inr.inr.inr.inl =>
      have hm' := @append_mask _ _ 0xFBFF#16 0x8000#16 0xF2AF#16 0x0000#16 hm
      rw [if_neg (mask_conflict hm'.1 (by decide)), if_pos hm']
      exact IsThumbData.adrT2 (not_badReg (by rw [Bool.not_eq_true']; exact he)).2
    case inr.inr.inr.inr.inr.inl =>
      have hm' := @append_mask _ _ 0xFBFF#16 0x8000#16 0xF20F#16 0x0000#16 hm
      rw [if_neg (mask_conflict hm'.1 (by decide)),
        if_neg (fun h => mask_conflict hm'.1 (by decide) h.1), if_pos hm']
      exact IsThumbData.adrT3 (not_badReg (by rw [Bool.not_eq_true']; exact he)).2
    case inr.inr.inr.inr.inr.inr.inl =>
      have hm' := @append_mask _ _ 0xFF7F#16 0x0000#16 0xF85F#16 0x0000#16 hm
      rw [if_pos hm'.1]
      exact IsThumbData.ldrT2
    case inr.inr.inr.inr.inr.inr.inr.inr.inl =>
      -- the wide addition has no form that reads the program counter
      have hbad : badReg (armReg (insn1 ++ insn2) 0) = false := by
        rw [Bool.or_eq_false_iff, Bool.or_eq_false_iff] at he
        exact he.1.1
      have hpc : armReg (insn1 ++ insn2) 0 = PC := by
        simp only [isThumbData, Bool.and_eq_true, beq_iff_eq] at hd
        exact hd.1
      rw [hpc] at hbad
      cases hbad
    all_goals cases hd
  · rw [if_neg hw] at hx
    rw [getTHUMBInsnType_narrow (Bool.eq_false_iff.mpr hw)]
    have hx' := hx
    obtain ⟨r, hr, hm, he, rfl⟩ := exists_row hx
    simp only [thumb16Rows, thumbRow, thumbCondRow, List.mem_cons, List.not_mem_nil, or_false]
      at hr
    rcases hr with rfl | rfl | rfl | rfl | rfl | rfl | rfl | rfl | rfl | rfl | rfl | rfl | rfl
      | rfl | rfl | rfl | rfl | rfl | rfl | rfl | rfl
    case inr.inr.inr.inl =>
      have hm : insn1 &&& 0xFF00#16 = 0x4400#16 := hm
      obtain ⟨hrm, hrd⟩ : insn1.extractLsb' 3 4 = PC ∧ (!badReg (highReg insn1)) = true := by
        simpa only [isThumbData, Bool.and_eq_true, beq_iff_eq] using hd
      rw [if_neg (mask_conflict hm (by decide)), if_pos hm]
      simp only [hrm] at hx' ⊢
      exact IsThumbData.add (addPcHalf_eq hx' rfl).1 (not_badReg hrd).1 (not_badReg hrd).2
    case inr.inr.inr.inr.inr.inl =>
      have hm : insn1 &&& 0xF800#16 = 0xA000#16 := hm
      iterate 3 rw [if_neg (mask_conflict hm (by decide))]
      rw [if_pos hm]
      exact IsThumbData.adrT1
    case inr.inr.inr.inr.inr.inr.inl =>
      have hm : insn1 &&& 0xF800#16 = 0x4800#16 := hm
      iterate 2 rw [if_neg (mask_conflict hm (by decide))]
      rw [if_pos hm]
      exact IsThumbData.ldrT1
    all_goals cases hd

/-! ## The fields -/

section Fields

variable (insn1 insn2 : Half) (w : Word)

theorem regField_low : regField (insn1.setWidth 32) 8 3 = lowReg insn1 8 := by
  rw [regField, getInsnSub_eq _ _ (by decide),
    BitVec.extractLsb'_setWidth_of_le (by decide), lowReg]
  generalize insn1.extractLsb' 8 3 = r
  revert r
  decide

theorem setWidth_reg : ∀ r : Reg, (r.setWidth 32).setWidth 4 = r := by decide

theorem regField_armReg {k : ℕ} : regField w k 4 = armReg w k := by
  rw [regField, getInsnSub_eq _ _ (by decide)]
  exact setWidth_reg _

theorem regField_high {k : ℕ} (h : k + 4 ≤ 16) :
    regField (insn2.setWidth 32) k 4 = armReg (insn1 ++ insn2) k := by
  rw [regField_armReg, armReg, armReg, extract_low insn1 insn2 h,
    BitVec.extractLsb'_setWidth_of_le (by omega)]

theorem immField_eight : getInsnSub (insn1.setWidth 32) 0 8 = thumbImm8 insn1 := by
  rw [getInsnSub_eq _ _ (by decide), BitVec.extractLsb'_setWidth_of_le (by decide)]
  rfl

theorem immField_twelve : getInsnSub (insn2.setWidth 32) 0 12
    = ((insn1 ++ insn2 : BitVec 32).extractLsb' 0 12).setWidth 32 := by
  rw [getInsnSub_eq _ _ (by decide), extract_low insn1 insn2 (by omega),
    BitVec.extractLsb'_setWidth_of_le (by decide)]

theorem bitField_iff (k : ℕ) : getInsnSub w k 1 = 1#32 ↔ w.getLsbD k = true := by
  rw [getInsnSub_bit]
  cases w.getLsbD k <;> decide

/-- The sign of an offset as the rewriters test it. -/
theorem ite_bitField (k : ℕ) (base imm : Word) :
    (if getInsnSub w k 1 = 1#32 then base + imm else base - imm)
      = offset (w.getLsbD k) base imm := by
  simp only [bitField_iff, offset]

theorem adrImm32_eq :
    adrImm32 (insn1.setWidth 32) (insn2.setWidth 32) = thumbImm12 (insn1 ++ insn2) := by
  unfold adrImm32 thumbImm12
  simp only [getInsnSub_eq _ _ (show 1 < 32 by decide), getInsnSub_eq _ _ (show 3 < 32 by decide),
    getInsnSub_eq _ _ (show 8 < 32 by decide)]
  refine BitVec.eq_of_getLsbD_eq (fun i hi => ?_)
  simp only [BitVec.getLsbD_or, BitVec.getLsbD_shiftLeft, BitVec.getLsbD_setWidth,
    BitVec.getLsbD_append, BitVec.getLsbD_extractLsb']
  interval_cases i <;> simp

end Fields

/-! ## The blocks -/

/-- `LDR reg, [reg]`, as the Thumb writer encodes it. -/
theorem encodes_ldrSelf (reg : Reg) (hreg : reg ≠ PC) :
    Encodes true ((ldrSelfCode reg).flatMap Emission.halves)
      ⟨always, .ldr .word true true false reg reg 0#32⟩ := by
  have h16 : ∀ reg : Reg, reg ≤ 7#4 →
      isThumb32 ((0x6000#32 ||| (0#32 <<< 6) ||| AssemblerWriter.regAt reg 3
          ||| AssemblerWriter.regAt reg 0 ||| 0x0800#32).setWidth 16) = false
        ∧ decodeThumb16 ((0x6000#32 ||| (0#32 <<< 6) ||| AssemblerWriter.regAt reg 3
            ||| AssemblerWriter.regAt reg 0 ||| 0x0800#32).setWidth 16)
          = some ⟨always, .ldr .word true true false reg reg 0#32⟩ := by
    decide
  have h32 : ∀ reg : Reg, reg ≠ PC →
      isThumb32 ((0xF8C0#32 ||| 0x0010#32 ||| AssemblerWriter.regAt reg 0).setWidth 16) = true
        ∧ decodeThumb32 ((0xF8C0#32 ||| 0x0010#32 ||| AssemblerWriter.regAt reg 0).setWidth 16
            ++ (AssemblerWriter.regAt reg 12 ||| 0#32).setWidth 16)
          = some ⟨always, .ldr .word true true false reg reg 0#32⟩ := by
    decide
  unfold ldrSelfCode
  by_cases hr : reg ≤ 7#4
  · rw [if_pos hr]
    exact encodes_thumb16 (h16 reg hr).1 (h16 reg hr).2
  · rw [if_neg hr, if_neg hreg]
    exact encodes_thumb32 (h32 reg hreg).1 (h32 reg hreg).2

theorem length_ldrSelf (reg : Reg) : 0 < ((ldrSelfCode reg).flatMap Emission.halves).length
    ∧ ((ldrSelfCode reg).flatMap Emission.halves).length ≤ 4 := by
  revert reg
  decide

/-- And as the ARM writer does. -/
theorem encodes_armLdrSelf (reg : Reg) (hreg : reg ≠ PC) :
    Encodes false (addressBytes (armLdrSelf reg))
      ⟨always, .ldr .word true true false reg reg 0#32⟩ := by
  refine encodes_arm ?_
  revert reg
  decide

/-- `ADD Rdn, R7` in the place of `ADD Rdn, PC`. -/
theorem addPcHalf_scratch : ∀ rdn : Reg, rdn ≠ PC →
    getInsnSub ((addPcHalf rdn).setWidth 32) 3 4 = 15#32
      ∧ isThumb32 ((((addPcHalf rdn).setWidth 32 &&& 0xFF87#32) ||| (7#32 <<< 3)).setWidth 16)
        = false
      ∧ decodeThumb16 ((((addPcHalf rdn).setWidth 32 &&& 0xFF87#32) ||| (7#32 <<< 3)).setWidth 16)
        = some ⟨always, .addReg false rdn rdn 7#4 0 0⟩ := by
  decide

section Blocks

variable {off : Bool} {reg : Reg} {v pc addr : Word} {fit : State → Prop} {k : ℕ}

theorem length_valueItems_le (off : Bool) (reg : Reg) (v : Word) (k : ℕ) :
    (itemHalves (valueItems off reg v k)).length ≤ 6 := (loadsValue_thumb off reg v k).short

/-- The Thumb block of a literal load. -/
theorem thumbLoad_effect (off : Bool) (reg : Reg) (v : Word) (k : ℕ) :
    BlockEffect true (if off then 2 else 0)
      (itemHalves (valueItems off reg v k ++ codeItems (ldrSelfCode reg))) fit (jumpTargets v)
      (loadEffect reg v) := by
  rw [itemHalves_append, itemHalves_codeItems]
  exact (loadsValue_thumb off reg v k).load_effect (length_ldrSelf reg).2 (length_ldrSelf reg).1
    (encodes_ldrSelf reg)

/-- The ARM block of a literal load. -/
theorem armLoad_effect (reg : Reg) (v : Word) (k : ℕ) :
    BlockEffect false 0 (itemHalves (armValueItems reg v k ++ codeItems [.arm (armLdrSelf reg)]))
      fit (jumpTargets v) (loadEffect reg v) := by
  rw [itemHalves_append, itemHalves_codeItems]
  exact (loadsValue_arm reg v k).load_effect (show 2 ≤ 4 by omega) (show 0 < 2 by omega)
    (encodes_armLdrSelf reg)

/-- The Thumb block of an addition. -/
theorem thumbAdd_effect {rdn : Reg} (hsp : rdn ≠ SP) (hpc : rdn ≠ PC) (off : Bool) (v : Word) :
    BlockEffect true (if off then 2 else 0)
      (itemHalves (codeItems [.thumb 0xB480#16] ++ valueItems (!off) 7#4 v 0
        ++ codeItems [.thumb ((((addPcHalf rdn).setWidth 32 &&& 0xFF87#32)
            ||| (7#32 <<< 3)).setWidth 16), .thumb 0xBC80#16]))
      (StackApart (2 * (itemHalves (codeItems [.thumb 0xB480#16] ++ valueItems (!off) 7#4 v 0
        ++ codeItems [.thumb ((((addPcHalf rdn).setWidth 32 &&& 0xFF87#32)
            ||| (7#32 <<< 3)).setWidth 16), .thumb 0xBC80#16])).length)) []
      (fun s next => some (spillEffect 7#4 v (addRegs always rdn rdn 7#4 0 0)
        (addedFlagsOf always false rdn 7#4 0 0) s next)) := by
  obtain ⟨-, hn, hd⟩ := addPcHalf_scratch rdn hpc
  have hV := loadsValue_thumb (!off) 7#4 v 0
  have hlen := hV.short
  have hphase : ((if off then 2 else 0) + 2 * [0xB480#16].length) % 4 = if !off then 2 else 0 := by
    cases off <;> rfl
  rw [← hphase] at hV
  rw [itemHalves_append, itemHalves_append, List.append_assoc]
  exact hV.spill_effect (by decide) (by decide) saves_thumb
    (alters_add (encodes_thumb16 hn hd) hpc hpc (by decide)) restores_thumb
    (addRegs_sp hsp) Nat.one_pos Nat.one_pos Nat.one_pos (by
      rw [List.length_append, List.length_append]
      show 1 + (_ + 2) ≤ 100
      omega)

/-- The ARM block of an addition. -/
theorem armAdd_effect {w : Word} {c : BitVec 4} {setflags : Bool} {rd rm : Reg} {ty : BitVec 2}
    {imm5 : BitVec 5} (hx : decodeArm w = some ⟨c, .addReg setflags rd PC rm ty imm5⟩)
    (hrd : rd ≠ SP ∧ rd ≠ PC) (hrm : rm ≠ PC) (v : Word) :
    BlockEffect false 0
      (itemHalves (codeItems [.arm 0xE52D7004#32] ++ armValueItems 7#4 v 0
        ++ codeItems [.arm ((w &&& 0xFFF0FFFF#32) ||| (7#32 <<< 16)), .arm 0xE49D7004#32]))
      (StackApart (2 * (itemHalves (codeItems [.arm 0xE52D7004#32] ++ armValueItems 7#4 v 0
        ++ codeItems [.arm ((w &&& 0xFFF0FFFF#32) ||| (7#32 <<< 16)),
          .arm 0xE49D7004#32])).length)) []
      (fun s next => some (spillEffect 7#4 v (addRegs c rd 7#4 rm ty imm5)
        (addedFlagsOf c setflags 7#4 rm ty imm5) s next)) := by
  have hV := loadsValue_arm 7#4 v 0
  rw [itemHalves_append, itemHalves_append, List.append_assoc]
  exact hV.spill_effect (P := addressBytes 0xE52D7004#32)
    (A := addressBytes (withFirstOperand w 7#4)) (Q := addressBytes 0xE49D7004#32) (by decide)
    (by decide) saves_arm
    (alters_add (encodes_arm (decodeArm_withFirstOperand hx 7#4)) hrd.2 (by decide) hrm)
    restores_arm (addRegs_sp hrd.1) two_pos two_pos two_pos (show 12 ≤ 100 by omega)

end Blocks

/-! ## The relocated instructions -/

/-- **The Thumb instructions that are relocated rightly.** -/
def thumbDataExact (m₀ : Mem) (pc : Word) : Op → Prop
  | .adr _ _ _ => align4 pc = pc
  | .ldrLit add rt imm => loadExact m₀ rt (offset add (align4 pc) imm)
  | .addReg _ rd _ _ _ _ => rd ≠ 7#4 ∨ pc = 0#32
  | _ => True

/-- **The ARM instructions that are relocated rightly**, for some flags. -/
def armDataExact (m₀ : Mem) (pc w : Word) (f : Flags) (x : Insn) : Prop :=
  match x.op with
  | .adr add rd imm => conditionPassed x.cond f = true
      ∧ (w.extractLsb' 8 4 = 0#4 ∨ (rd = PC ∧ (offset add pc imm).toNat % 4 = 2))
  | .ldrLit add rt imm => conditionPassed x.cond f = true ∧ loadExact m₀ rt (offset add pc imm)
  | .addReg setflags rd _ rm ty imm5 =>
    conditionPassed x.cond f = true → armAddExact pc setflags rd rm ty imm5
  | _ => True

theorem offset_base_inj (add : Bool) {base base' imm : Word} :
    offset add base imm = offset add base' imm ↔ base = base' := by
  cases add with
  | true => exact BitVec.add_left_inj imm
  | false => exact BitVec.sub_left_inj imm

section Relocated

variable {mem : Mem} {addr : Word} {x : Insn} {self : Relocator}

/-- A Thumb `ADR` is right exactly at a word boundary. -/
theorem thumbAdr_iff {off add : Bool} {rd : Reg} {imm pc v : Word} {k : ℕ} {f : Flags}
    (hv : v = offset add pc imm) (hrd : rd ≠ PC) :
    DataReproduced true (if off then 2 else 0) (itemHalves (valueItems off rd v k))
        ⟨always, .adr add rd imm⟩ pc mem f
      ↔ align4 pc = pc := by
  have hshort := length_valueItems_le off rd v k
  rw [adr_iff (fun fit => (loadsValue_thumb off rd v k).effect) (Or.inl hrd)
    (by cases off <;> simp) (by omega), hv, offset_base_inj]
  refine ⟨fun h => ?_, fun h => ⟨rfl, Or.inl h.symm⟩⟩
  exact (h.2.resolve_right (fun h => hrd h.1)).symm

/-- A Thumb literal load is right unless it loads the program counter. -/
theorem thumbLdr_iff {off add : Bool} {rt : Reg} {imm pc a : Word} {k : ℕ} {f : Flags}
    (ha : a = offset add (align4 pc) imm) :
    DataReproduced true (if off then 2 else 0)
        (itemHalves (valueItems off rt a k ++ codeItems (ldrSelfCode rt)))
        ⟨always, .ldrLit add rt imm⟩ pc mem f
      ↔ loadExact mem rt a := by
  have hshort := length_valueItems_le off rt a k
  have hself := (length_ldrSelf rt).2
  rw [ldr_iff ha (fun fit => thumbLoad_effect off rt a k) (by cases off <;> simp) (by
    rw [itemHalves_append, List.length_append, itemHalves_codeItems]
    omega)]
  exact and_iff_right rfl

/-- **A relocated Thumb data instruction.** -/
theorem thumbData_iff
    (hx : decodeThumb (mem.read16 addr) (mem.read16 (addr + 2#32)) = some x)
    (hd : isThumbData x.op = true) (hne : self.inpos ≠ self.outpos)
    (hc : self.input.insns[self.outpos]? = some (thumbInsnAt mem addr))
    (he : self.output.currentPc.toNat % 2 = 0) (f : Flags) :
    ∃ r, self.thumbWriteOne = some r
      ∧ (DataReproduced true (self.output.currentPc.toNat % 4) (written self r) x
          (addr + 4#32) mem f
        ↔ thumbDataExact mem (addr + 4#32) x.op) := by
  refine ⟨_, thumbWriteOne_eq hne hc he, ?_⟩
  rw [written_writeBlock, phase_of_offWord he]
  rw [← decodeThumb_insnAt] at hx
  have hdata := isThumbData_of_decode hx hd
  unfold thumbItems
  simp only [thumbInsnAt_pc]
  set i1 := (thumbInsnAt mem addr).insn1
  set i2 := (thumbInsnAt mem addr).insn2
  generalize getTHUMBInsnType i1 i2 = ty at hdata
  generalize self.output.offWord = off
  cases hdata with
  | ldrT1 =>
    simp only [regField_low, immField_eight]
    exact thumbLdr_iff rfl
  | ldrT2 =>
    simp only [regField_high i1 i2 (show 12 + 4 ≤ 16 by decide), ite_bitField, immField_twelve i1 i2,
      high_bit i1 i2 (show 7 < 16 by decide)]
    exact thumbLdr_iff rfl
  | adrT1 =>
    simp only [regField_low, immField_eight]
    exact thumbAdr_iff rfl (lowReg_ne_pc _)
  | adrT2 hrd =>
    simp only [regField_high i1 i2 (show 8 + 4 ≤ 16 by decide), adrImm32_eq]
    exact thumbAdr_iff rfl hrd
  | adrT3 hrd =>
    simp only [regField_high i1 i2 (show 8 + 4 ≤ 16 by decide), adrImm32_eq]
    exact thumbAdr_iff rfl hrd
  | @add rdn hw hsp hpc =>
    simp only [hw, (addPcHalf_scratch rdn hpc).1, ne_eq, not_true_eq_false, if_false]
    have hshort := length_valueItems_le (!off) 7#4 (addr + 4#32) 0
    rw [spill_iff (R := fun g => Function.update g rdn (g rdn + (addr + 4#32))) (F := fun _ => f)
      (thumbAdd_effect hsp hpc off _) (fun s next hf => by rw [exec_addPc hpc, ← hf]; rfl)
      (by cases off <;> simp) (by
        rw [itemHalves_append, itemHalves_append, List.length_append, List.length_append]
        show 1 + _ + 2 ≤ 100
        omega)]
    exact thumbAdd_iff hsp _ f

/-- An ARM `ADR` is right exactly if its condition passes and its constant is
not rotated. -/
theorem armAdr_value_iff {w pc : Word} {add : Bool} {c : BitVec 4} {rd : Reg} {f : Flags}
    (hpc : pc.toNat % 4 = 0) :
    DataReproduced false 0
        (itemHalves (armValueItems rd (offset add pc ((w.extractLsb' 0 12).setWidth 32)) 0))
        ⟨c, .adr add rd (armExpandImm (w.extractLsb' 0 12))⟩ pc mem f
      ↔ conditionPassed c f = true ∧ (w.extractLsb' 8 4 = 0#4
          ∨ (rd = PC ∧ (offset add pc (armExpandImm (w.extractLsb' 0 12))).toNat % 4 = 2)) := by
  rw [adr_iff (fun fit => (loadsValue_arm rd _ 0).effect) (Or.inr rfl) (Or.inl rfl)
    (show 6 ≤ 100 by omega), align4_of_aligned hpc, offset_inj, eq_comm (b := armExpandImm _),
    armExpandImm_eq_iff, extract_imm12]

/-- **A relocated ARM data instruction.** -/
theorem armData_iff (haddr : addr.toNat % 4 = 0) (hx : decodeArm (mem.read32 addr) = some x)
    (hd : isArmData x.op = true) (hne : self.inpos ≠ self.outpos)
    (hc : self.input.insns[self.outpos]? = some (armInsnAt mem addr)) (f : Flags) :
    ∃ r, self.armWriteOne = some r
      ∧ (DataReproduced false 0 (written self r) x (addr + 8#32) mem f
        ↔ armDataExact mem (addr + 8#32) (mem.read32 addr) f x) := by
  have h8 : (addr + 8#32).toNat % 4 = 0 := aligned_offset (k := 8) haddr (by decide)
  refine ⟨_, armWriteOne_eq hne hc, ?_⟩
  rw [written_writeBlock]
  have hdata := isArmData_of_decode hx hd
  have himm : getInsnSub (mem.read32 addr) 0 12
      = ((mem.read32 addr).extractLsb' 0 12).setWidth 32 := getInsnSub_eq _ _ (by decide)
  unfold armItems
  simp only [armInsnAt_insn, armInsnAt_pc]
  generalize getARMInsnType (mem.read32 addr) = ty at hdata
  cases hdata with
  | ldr =>
    simp only [regField_armReg, ite_bitField, himm]
    rw [ldr_iff (by rw [align4_of_aligned h8]) (fun fit => armLoad_effect _ _ 1) (Or.inl rfl)
      (show 8 ≤ 100 by omega)]
    rfl
  | adrA1 =>
    simp only [regField_armReg, himm]
    exact @armAdr_value_iff _ _ _ true _ _ _ h8
  | adrA2 =>
    simp only [regField_armReg, himm]
    exact @armAdr_value_iff _ _ _ false _ _ _ h8
  | @add c setflags rd rm ty imm5 hx hrd hrm =>
    have hrn : getInsnSub (mem.read32 addr) 16 4 = 15#32 := by
      have h16 : armReg (mem.read32 addr) 16 = PC := (armAdd_cases hx rfl).2.2.2.1
      rw [getInsnSub_eq _ _ (by decide)]
      exact congrArg (BitVec.setWidth 32) h16
    simp only [hrn, ne_eq, not_true_eq_false, if_false]
    rw [spill_iff (R := fun g => addedRegs c rd (addr + 8#32) (shiftC (g rm) ty imm5 f.c).1 f g)
      (F := fun g => addedFlags c setflags (addr + 8#32) (shiftC (g rm) ty imm5 f.c).1 f)
      (armAdd_effect hx hrd hrm.2 _) (fun s next hf => by
        rw [exec_addReg hrd.2 hrm.2, State.readReg, if_pos rfl, ← hf]) (Or.inl rfl)
      (show 12 ≤ 100 by omega)]
    exact armAdd_iff hrd.1 hrm.1 c setflags ty imm5 _ f

end Relocated

end HookZz
