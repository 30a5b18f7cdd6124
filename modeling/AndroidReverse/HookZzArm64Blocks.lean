import AndroidReverse.HookZzArm64

/-!
# What the blocks of the A64 relocator do

A block loads the address that the relocator has computed. Whether it does what
the instruction did depends on that address and on the register only, and
neither depends on where the block stands.
-/

namespace HookZz.Arm64

open A64

/-! ## The emitted words -/

/-- `ldr reg, #off` -/
def ldrLitWord (reg : Reg) (off : Word) : Word :=
  0x58000000#32 ||| (off >>> 2) <<< 5 ||| reg.setWidth 32

/-- `ldr reg, [reg]` -/
def ldrSelfWord (reg : Reg) : Word :=
  0x39000000#32 ||| 0b11#32 <<< 30 ||| 0b01#32 <<< 22 ||| 0#32 <<< 10 ||| reg.setWidth 32 <<< 5
    ||| reg.setWidth 32

/-- `b #off` -/
def bWord (off : Addr) : Word :=
  0x14000000#32 ||| 0b0#32 <<< 31 ||| ((off >>> 2) &&& 0x03ffffff#64).setWidth 32

/-- `b.cond #8` -/
def bCondWord (cond : BitVec 4) : Word :=
  0x54000000#32 ||| ((0x8#64 >>> 2) &&& 0x7ffff#64).setWidth 32 <<< 5 ||| cond.setWidth 32

/-- `br x17` -/
def brWord : Word := 0xd61f0000#32 ||| 0#32 <<< 21 ||| x17.setWidth 32 <<< 5

/-- `blr x17` -/
def blrWord : Word := 0xd63f0000#32 ||| 0b01#32 <<< 21 ||| x17.setWidth 32 <<< 5

theorem decode_ldrLitWord : ∀ reg : Reg,
    decode (ldrLitWord reg 0x8#32) = some (.ldrLit reg 8#64)
      ∧ decode (ldrLitWord reg 0xc#32) = some (.ldrLit reg 12#64) := by
  decide

theorem decode_ldrSelfWord : ∀ reg : Reg,
    decode (ldrSelfWord reg) = some (.ldr reg reg 0#64) := by
  decide

theorem decode_bCondWord : ∀ cond : BitVec 4,
    decode (bCondWord cond) = some (.bCond cond 8#64) := by
  decide

theorem decode_bWord : decode (bWord 0xc#64) = some (.b 12#64)
    ∧ decode (bWord 0x14#64) = some (.b 20#64) := by
  decide

theorem decode_brWord : decode brWord = some (.br x17) := by
  decide

theorem decode_blrWord : decode blrWord = some (.blr x17) := by
  decide

/-! ## The blocks -/

/-- A literal is loaded, and branched over. -/
def loadBlock (reg : Reg) (a : Addr) : List Word :=
  [ldrLitWord reg 0x8#32, bWord 0xc#64] ++ addressBytes a

/-- What is at an address is loaded. -/
def derefBlock (reg : Reg) (a : Addr) : List Word := loadBlock reg a ++ [ldrSelfWord reg]

/-- A jump. -/
def jumpBlock (a : Addr) : List Word := [ldrLitWord x17 0x8#32, brWord] ++ addressBytes a

/-- A call, and a jump behind it. -/
def callBlock (a back : Addr) : List Word :=
  [ldrLitWord x17 0xc#32, blrWord, bWord 0xc#64] ++ addressBytes a ++ jumpBlock back

/-- A jump if a condition holds. -/
def condBlock (cond : BitVec 4) (a : Addr) : List Word :=
  [bCondWord cond, bWord 0x14#64] ++ jumpBlock a

/-- No block is longer than nine words. -/
theorem size_le (reg : Reg) (cond : BitVec 4) (a back : Addr) :
    4 * (loadBlock reg a).length ≤ 64 ∧ 4 * (derefBlock reg a).length ≤ 64
      ∧ 4 * (jumpBlock a).length ≤ 64 ∧ 4 * (callBlock a back).length ≤ 64
      ∧ 4 * (condBlock cond a).length ≤ 64 := by
  simp [loadBlock, derefBlock, jumpBlock, callBlock, condBlock, addressBytes]

section Blocks

variable {base : Addr} {s : State} {reg : Reg} {a back : Addr} {cond : BitVec 4}

/-- The address in a block. -/
theorem read64_addressBytes {m : Mem} (k : ℕ) {ws : List Word} (h : WordsAt m base ws)
    (hlo : ws[k]? = some (a.extractLsb' 0 32)) (hhi : ws[k + 1]? = some (a.extractLsb' 32 32)) :
    m.read64 (base + BitVec.ofNat 64 (4 * k)) = a := by
  have hnext : base + BitVec.ofNat 64 (4 * k) + 4#64 = base + BitVec.ofNat 64 (4 * (k + 1)) := by
    rw [BitVec.add_assoc, ← BitVec.ofNat_add]
    rfl
  rw [Mem.read64, hnext, h _ _ hlo, h _ _ hhi]
  refine BitVec.eq_of_getLsbD_eq fun i hi => ?_
  simp only [BitVec.getLsbD_append, BitVec.getLsbD_extractLsb']
  by_cases h32 : i < 32
  · simp [h32]
  · simp [h32, show i - 32 < 32 by omega, show 32 + (i - 32) = i by omega]

/-- The first instruction of a block loads the literal two words on. -/
theorem ldrLit_runs {len : ℕ} {t : State} {ws : List Word} (hlen : 4 ≤ len ∧ len ≤ 2 ^ 64)
    (hpc : s.pc = base) (h : WordsAt s.mem base ws) (h0 : ws[0]? = some (ldrLitWord reg 0x8#32))
    (hlo : ws[2]? = some (a.extractLsb' 0 32)) (hhi : ws[3]? = some (a.extractLsb' 32 32))
    (ht : RunsWithin base len ((s.setReg reg a).goto (base + BitVec.ofNat 64 (4 * 1))) t) :
    RunsWithin base len s t := by
  refine RunsWithin.step_at (k := 0) (by rw [hpc]; exact (BitVec.add_zero base).symm) (by omega)
    hlen.2 (h 0 _ h0) (decode_ldrLitWord reg).1 ?_
  have hlit : s.mem.read64 (base + BitVec.ofNat 64 (4 * 0) + 8#64) = a := by
    rw [BitVec.add_assoc]
    exact read64_addressBytes 2 h hlo hhi
  rw [Op.exec, hlit]
  exact ht

/-- **A load of an address.** -/
theorem loadBlock_runs (h : WordsAt s.mem base (loadBlock reg a)) (hpc : s.pc = base) :
    RunsWithin base 16 s ((s.setReg reg a).goto (base + 16#64)) := by
  refine ldrLit_runs (by decide) hpc h rfl rfl rfl ?_
  refine RunsWithin.step_at (k := 1) rfl (by decide) (by decide) ?_ decode_bWord.1 ?_
  · rw [State.goto_mem, State.setReg_mem]
    exact h 1 _ rfl
  · rw [Op.exec, State.goto_goto, BitVec.add_assoc]
    exact RunsWithin.refl _

/-- **A load from an address**, through the register that is loaded. -/
theorem derefBlock_runs (h : WordsAt s.mem base (derefBlock reg a)) (hpc : s.pc = base)
    (hreg : reg ≠ 31#5) :
    RunsWithin base 20 s ((s.setReg reg (s.mem.read64 a)).goto (base + 20#64)) := by
  have hload := loadBlock_runs h.append_left hpc
  have hpart : RunsWithin base 20 s ((s.setReg reg a).goto (base + 16#64)) :=
    RunsWithin.part 0 16 (by decide) ((BitVec.add_zero base).symm ▸ hload)
  refine hpart.trans (RunsWithin.step_at (k := 4) rfl (by decide) (by decide) ?_
    (decode_ldrSelfWord reg) ?_)
  · rw [State.goto_mem, State.setReg_mem]
    exact h 4 _ rfl
  · have hbase : ((s.setReg reg a).goto (base + 16#64)).base reg = a := by
      rw [State.base, if_neg hreg]
      exact s.setReg_gpr a hreg
    rw [Op.exec, hbase, BitVec.add_zero, State.goto_mem, State.setReg_mem, State.setReg_goto,
      State.setReg_setReg, State.goto_goto]
    exact RunsWithin.refl _

/-- **A jump**, through X17. -/
theorem jumpBlock_runs (h : WordsAt s.mem base (jumpBlock a)) (hpc : s.pc = base) :
    RunsWithin base 16 s ((s.setReg x17 a).goto a) := by
  refine ldrLit_runs (by decide) hpc h rfl rfl rfl ?_
  refine RunsWithin.step_at (k := 1) rfl (by decide) (by decide) ?_ decode_brWord ?_
  · rw [State.goto_mem, State.setReg_mem]
    exact h 1 _ rfl
  · have htarget :
        ((s.setReg x17 a).goto (base + BitVec.ofNat 64 (4 * 1))).branchTarget x17 = a := by
      exact (if_neg (by decide)).trans (s.setReg_gpr a (r := x17) (by decide))
    rw [Op.exec, htarget, State.goto_goto]
    exact RunsWithin.refl _

/-- **A call**, through X17. The return address is in the block. -/
theorem callBlock_runs (h : WordsAt s.mem base (callBlock a back)) (hpc : s.pc = base) :
    RunsWithin base 36 s (((s.setReg x17 a).setReg 30#5 (base + 8#64)).goto a) := by
  refine RunsWithin.step_at (k := 0) (by rw [hpc]; exact (BitVec.add_zero base).symm)
    (by decide) (by decide) (h 0 _ rfl) (decode_ldrLitWord x17).2 ?_
  have hlit : s.mem.read64 (base + BitVec.ofNat 64 (4 * 0) + 12#64) = a := by
    rw [BitVec.add_assoc]
    exact read64_addressBytes 3 h rfl rfl
  rw [Op.exec, hlit]
  refine RunsWithin.step_at (k := 1) rfl (by decide) (by decide) ?_ decode_blrWord ?_
  · rw [State.goto_mem, State.setReg_mem]
    exact h 1 _ rfl
  · have htarget : ((s.setReg x17 a).goto (base + BitVec.ofNat 64 (4 * (0 + 1)))).branchTarget x17
        = a := by
      exact (if_neg (by decide)).trans (s.setReg_gpr a (r := x17) (by decide))
    rw [Op.exec, htarget, State.setReg_goto, State.goto_goto]
    exact RunsWithin.refl _

/-- From there it goes on behind the call. -/
theorem callBlock_returns (h : WordsAt s.mem base (callBlock a back))
    (hpc : s.pc = base + 8#64) :
    RunsWithin base 36 s ((s.setReg x17 back).goto back) := by
  refine RunsWithin.step_at (k := 2) hpc (by decide) (by decide) (h 2 _ rfl) decode_bWord.1 ?_
  have hws := WordsAt.append_right (show WordsAt s.mem base
    (([ldrLitWord x17 0xc#32, blrWord, bWord 0xc#64] ++ addressBytes a) ++ jumpBlock back) from h)
  rw [show 4 * ([ldrLitWord x17 0xc#32, blrWord, bWord 0xc#64] ++ addressBytes a).length = 20
    from rfl] at hws
  have hjump := jumpBlock_runs (s := s.goto (base + 20#64)) hws rfl
  rw [State.setReg_goto, State.goto_goto] at hjump
  rw [Op.exec, BitVec.add_assoc]
  exact RunsWithin.part 20 16 (by decide) hjump

/-- **A jump that is taken.** -/
theorem condBlock_taken (h : WordsAt s.mem base (condBlock cond a)) (hpc : s.pc = base)
    (hcond : Arm.conditionPassed cond s.flags = true) :
    RunsWithin base 24 s ((s.setReg x17 a).goto a) := by
  refine RunsWithin.step_at (k := 0) (by rw [hpc]; exact (BitVec.add_zero base).symm)
    (by decide) (by decide) (h 0 _ rfl) (decode_bCondWord cond) ?_
  have hws := WordsAt.append_right (show WordsAt s.mem base
    ([bCondWord cond, bWord 0x14#64] ++ jumpBlock a) from h)
  rw [show 4 * [bCondWord cond, bWord 0x14#64].length = 8 from rfl] at hws
  have hjump := jumpBlock_runs (s := s.goto (base + 8#64)) hws rfl
  rw [State.setReg_goto, State.goto_goto] at hjump
  rw [Op.exec, if_pos hcond, BitVec.add_assoc]
  exact RunsWithin.part 8 16 (by decide) hjump

/-- **A jump that is not taken.** -/
theorem condBlock_skipped (h : WordsAt s.mem base (condBlock cond a)) (hpc : s.pc = base)
    (hcond : Arm.conditionPassed cond s.flags = false) :
    RunsWithin base 24 s (s.goto (base + 24#64)) := by
  refine RunsWithin.step_at (k := 0) (by rw [hpc]; exact (BitVec.add_zero base).symm)
    (by decide) (by decide) (h 0 _ rfl) (decode_bCondWord cond) ?_
  rw [Op.exec, if_neg (by rw [hcond]; exact Bool.false_ne_true)]
  refine RunsWithin.step_at (k := 1) rfl (by decide) (by decide) (h 1 _ rfl) decode_bWord.2 ?_
  rw [Op.exec, State.goto_goto, BitVec.add_assoc]
  exact RunsWithin.refl _

end Blocks

/-! ## Standing for an instruction -/

/-- Two states are the same but for some registers. -/
structure AgreeOff (scratch : List Reg) (s t : State) : Prop where
  gpr : ∀ r, r ∉ scratch → t.gpr r = s.gpr r
  sp : t.sp = s.sp
  pc : t.pc = s.pc
  flags : t.flags = s.flags
  mem : t.mem = s.mem

/-- The registers that a block may change beside what the instruction changes:
X17, which a procedure call may change as well, where the block jumps, and the
return address of a call. -/
def scratch : Op → List Reg
  | .b _ | .bCond _ _ => [x17]
  | .bl _ => [x17, 30#5]
  | _ => []

/-- A call. -/
def isCall : Op → Bool
  | .bl _ => true
  | _ => false

/-- **The block stands for the instruction at `pc`**: executed from its start it
comes to where the instruction comes to, with the end of the block for what is
behind the instruction. What is called returns into the block, and from there it
goes on behind the instruction. -/
def Relocates (op : Op) (pc : Addr) (block : List Word) : Prop :=
  ∀ s : State, WordsAt s.mem s.pc block → ∃ t,
    RunsWithin s.pc (4 * block.length) s t ∧
      AgreeOff (scratch op)
        (op.exec pc (s.pc + BitVec.ofNat 64 (4 * block.length)) s) t ∧
      (isCall op = true → ∀ u : State, u.pc = t.gpr 30#5 → WordsAt u.mem s.pc block →
        ∃ v, RunsWithin s.pc (4 * block.length) u v ∧ AgreeOff [x17] (u.goto (pc + 4#64)) v)

section Relocates

variable {s t : State} {pc off a back : Addr} {r rt : Reg} {cond : BitVec 4}

theorem AgreeOff.refl (scratch : List Reg) (s : State) : AgreeOff scratch s s :=
  ⟨fun _ _ => rfl, rfl, rfl, rfl, rfl⟩

theorem AgreeOff.of_setReg {scratch : List Reg} (hr : r ∈ scratch)
    (h : AgreeOff scratch s t) (v : Addr) : AgreeOff scratch s (t.setReg r v) := by
  unfold State.setReg
  split
  · exact h
  · refine ⟨fun r' hr' => ?_, h.sp, h.pc, h.flags, h.mem⟩
    rw [← h.gpr r' hr']
    exact Function.update_of_ne (fun heq : r' = r => hr' (heq ▸ hr)) v t.gpr

theorem AgreeOff.symm {scratch : List Reg} (h : AgreeOff scratch s t) : AgreeOff scratch t s :=
  ⟨fun r hr => (h.gpr r hr).symm, h.sp.symm, h.pc.symm, h.flags.symm, h.mem.symm⟩

theorem AgreeOff.trans {scratch : List Reg} {u : State} (h : AgreeOff scratch s t)
    (h' : AgreeOff scratch t u) : AgreeOff scratch s u :=
  ⟨fun r hr => (h'.gpr r hr).trans (h.gpr r hr), h'.sp.trans h.sp, h'.pc.trans h.pc,
    h'.flags.trans h.flags, h'.mem.trans h.mem⟩

/-- Every condition holds for some flags. -/
theorem exists_conditionPassed : ∀ cond : BitVec 4,
    ∃ f ∈ [(⟨true, true, true, true⟩ : Arm.Flags), ⟨false, false, true, false⟩,
      ⟨false, false, false, true⟩], Arm.conditionPassed cond f = true := by
  decide

/-- A state at the start of a block. -/
def atBlock (m : Mem) (v : Addr) (f : Arm.Flags) (base : Addr) (block : List Word) : State :=
  ⟨fun _ => v, 0#64, base, f, m.place base block⟩

section Agree

variable {op : Op} {block : List Word} {base v : Addr} {m : Mem} {f : Arm.Flags}

theorem wordsAt_atBlock (hlen : 4 * block.length ≤ 64) :
    WordsAt (atBlock m v f base block).mem (atBlock m v f base block).pc block :=
  wordsAt_place m base (hlen.trans (by decide))

/-- **Where the block comes to** is where the instruction comes to, if the block
is left there. -/
theorem Relocates.agree (h : Relocates op pc block) (hlen : 4 * block.length ≤ 64)
    (ht : RunsWithin base (4 * block.length) (atBlock m v f base block) t)
    (hout : ¬ InBlock base (4 * block.length) t.pc)
    (hexec : ¬ InBlock base (4 * block.length) (op.exec pc
      (base + BitVec.ofNat 64 (4 * block.length)) (atBlock m v f base block)).pc) :
    AgreeOff (scratch op)
      (op.exec pc (base + BitVec.ofNat 64 (4 * block.length)) (atBlock m v f base block)) t := by
  obtain ⟨u, hu, hagree, -⟩ := h (atBlock m v f base block) (wordsAt_atBlock hlen)
  rw [ht.left_unique hout hu (by rw [hagree.pc]; exact hexec)] at hagree
  exact hagree

/-- The end of a block is where it is left. -/
theorem not_inBlock_size (hlen : 4 * block.length ≤ 64) :
    ¬ InBlock base (4 * block.length) (base + BitVec.ofNat 64 (4 * block.length)) :=
  not_inBlock_end base (lt_of_le_of_lt hlen (by decide))

end Agree

/-- The low byte of what is at an address. -/
theorem extractLsb'_read64 (m : Mem) (a : Addr) : (m.read64 a).extractLsb' 0 8 = m a := by
  refine BitVec.eq_of_getLsbD_eq fun i hi => ?_
  simp only [Mem.read64, Mem.read32, BitVec.getLsbD_extractLsb', BitVec.getLsbD_append, hi,
    decide_true, Bool.true_and, Nat.zero_add, show i < 32 by omega, show i < 16 by omega, if_true]

/-- What a write to a register says about the register and the value. -/
theorem eq_of_agree_setReg {n v w w' : Addr} (hr : r ≠ 31#5) (hv : s.gpr = fun _ => v)
    (hw : w' ≠ v)
    (h : AgreeOff [] ((s.setReg rt w).goto n) ((s.setReg r w').goto n)) : r = rt ∧ w' = w := by
  have hgpr := h.gpr r List.not_mem_nil
  rw [State.goto_gpr, State.goto_gpr, State.setReg_gpr s w' hr] at hgpr
  by_cases heq : r = rt
  · subst heq
    exact ⟨rfl, hgpr.trans (State.setReg_gpr s w hr)⟩
  · rw [State.setReg_gpr_of_ne s w heq, hv] at hgpr
    exact absurd hgpr hw

theorem ne_add_one (a : Addr) : a ≠ a + 1#64 := by
  bv_omega

/-- **A load of the literal's address and from there** is for the instruction
that loads from that address into that register. -/
theorem relocates_deref_iff (hr : r ≠ 31#5) :
    Relocates (.ldrLit rt off) pc (derefBlock r a) ↔ r = rt ∧ a = pc + off := by
  have hlen := (size_le r 0#4 a 0#64).2.1
  constructor
  · intro h
    -- no other address holds the value, and no other register
    obtain ⟨base, ha, hoff⟩ := exists_base a (pc + off)
    let m : Mem := fun x => if x = pc + off then 1#8 else 0#8
    let M := m.place base (derefBlock r a)
    let s := atBlock m (M.read64 a + 1#64) ⟨false, false, false, false⟩ base (derefBlock r a)
    have hagree := h.agree hlen (derefBlock_runs (s := s) (wordsAt_atBlock hlen) rfl hr)
      (not_inBlock_size hlen) (not_inBlock_size hlen)
    obtain ⟨hreg, hvalue⟩ := eq_of_agree_setReg hr rfl (ne_add_one (M.read64 a)) hagree
    refine ⟨hreg, ?_⟩
    have hbyte := congrArg (BitVec.extractLsb' 0 8) hvalue
    rw [extractLsb'_read64, extractLsb'_read64] at hbyte
    have hout : ∀ x, ¬ InBlock base 64 x → M x = m x := fun x hx =>
      Mem.place_of_out fun hin => hx (lt_of_lt_of_le hin hlen)
    have hbytes : m a = m (pc + off) := (hout a ha).symm.trans (hbyte.trans (hout _ hoff))
    by_contra hne
    rw [show m a = 0#8 from if_neg hne, show m (pc + off) = 1#8 from if_pos rfl] at hbytes
    exact absurd hbytes (by decide)
  · rintro ⟨rfl, rfl⟩ s hs
    exact ⟨_, derefBlock_runs hs rfl hr, AgreeOff.refl _ _, fun h => absurd h Bool.false_ne_true⟩

/-- **A load of an address** is for the instruction that computes it into that
register. -/
theorem relocates_load_iff {op : Op} {v : Addr} (hr : r ≠ 31#5)
    (hexec : ∀ next s, op.exec pc next s = (s.setReg rt v).goto next)
    (hop : scratch op = [] ∧ isCall op = false) :
    Relocates op pc (loadBlock r a) ↔ r = rt ∧ a = v := by
  have hlen := (size_le r 0#4 a 0#64).1
  constructor
  · intro h
    let s := atBlock (fun _ => 0#8) (a + 1#64) ⟨false, false, false, false⟩ 0#64 (loadBlock r a)
    have hagree := h.agree hlen (loadBlock_runs (s := s) (wordsAt_atBlock hlen) rfl)
      (not_inBlock_size hlen) (by rw [hexec]; exact not_inBlock_size hlen)
    rw [hexec, hop.1] at hagree
    exact eq_of_agree_setReg hr rfl (ne_add_one a) hagree
  · rintro ⟨rfl, rfl⟩ s hs
    refine ⟨_, loadBlock_runs hs rfl, ?_, fun h => absurd (hop.2.symm.trans h) Bool.false_ne_true⟩
    rw [hexec, hop.1]
    exact AgreeOff.refl _ _

/-- **A jump** is for the branch that leads there. -/
theorem relocates_jump_iff : Relocates (.b off) pc (jumpBlock a) ↔ a = pc + off := by
  have hlen := (size_le 0#5 0#4 a 0#64).2.2.1
  constructor
  · intro h
    obtain ⟨base, ha, hoff⟩ := exists_base a (pc + off)
    let s := atBlock (fun _ => 0#8) 0#64 ⟨false, false, false, false⟩ base (jumpBlock a)
    exact (h.agree hlen (jumpBlock_runs (s := s) (wordsAt_atBlock hlen) rfl)
      (fun hin => ha (lt_of_lt_of_le hin hlen)) fun hin => hoff (lt_of_lt_of_le hin hlen)).pc
  · rintro rfl s hs
    refine ⟨_, jumpBlock_runs hs rfl, ?_, fun h => absurd h Bool.false_ne_true⟩
    exact (AgreeOff.refl _ (s.goto (pc + off))).of_setReg List.mem_cons_self (pc + off)

/-- **A call** is for the one that calls there. -/
theorem relocates_call_iff :
    Relocates (.bl off) pc (callBlock a (pc + 4#64)) ↔ a = pc + off := by
  have hlen := (size_le 0#5 0#4 a (pc + 4#64)).2.2.2.1
  constructor
  · intro h
    obtain ⟨base, ha, hoff⟩ := exists_base a (pc + off)
    let s := atBlock (fun _ => 0#8) 0#64 ⟨false, false, false, false⟩ base
      (callBlock a (pc + 4#64))
    exact (h.agree hlen (callBlock_runs (s := s) (wordsAt_atBlock hlen) rfl)
      (fun hin => ha (lt_of_lt_of_le hin hlen)) fun hin => hoff (lt_of_lt_of_le hin hlen)).pc
  · rintro rfl s hs
    have hlink : (((s.setReg x17 (pc + off)).setReg 30#5 (s.pc + 8#64)).goto (pc + off)).gpr 30#5
        = s.pc + 8#64 := State.setReg_gpr (r := 30#5) (s.setReg x17 (pc + off)) _ (by decide)
    refine ⟨_, callBlock_runs hs rfl, ?_, fun _ u hu hcode => ?_⟩
    · have hcall := ((AgreeOff.refl [x17, 30#5] (s.goto (pc + off))).of_setReg
        List.mem_cons_self (pc + off)).of_setReg (List.mem_cons_of_mem x17 List.mem_cons_self)
        (s.pc + 8#64)
      have hlinked := (AgreeOff.refl [x17, 30#5] (s.goto (pc + off))).of_setReg
        (List.mem_cons_of_mem x17 List.mem_cons_self)
        (s.pc + BitVec.ofNat 64 (4 * (callBlock (pc + off) (pc + 4#64)).length))
      rw [State.setReg_goto, State.setReg_goto] at hcall
      rw [State.setReg_goto] at hlinked
      exact hlinked.symm.trans hcall
    · rw [hlink] at hu
      refine ⟨_, callBlock_returns hcode hu, ?_⟩
      exact (AgreeOff.refl _ (u.goto (pc + 4#64))).of_setReg List.mem_cons_self (pc + 4#64)

/-- **A conditional jump** is for the branch with the condition that leads
there. -/
theorem relocates_cond_iff :
    Relocates (.bCond cond off) pc (condBlock cond a) ↔ a = pc + off := by
  have hlen := (size_le 0#5 cond a 0#64).2.2.2.2
  constructor
  · intro h
    obtain ⟨base, ha, hoff⟩ := exists_base a (pc + off)
    obtain ⟨f, -, hf⟩ := exists_conditionPassed cond
    let s := atBlock (fun _ => 0#8) 0#64 f base (condBlock cond a)
    have hexec : (Op.bCond cond off).exec pc
        (base + BitVec.ofNat 64 (4 * (condBlock cond a).length)) s = s.goto (pc + off) :=
      congrArg s.goto (if_pos hf)
    have hagree := h.agree hlen (condBlock_taken (s := s) (wordsAt_atBlock hlen) rfl hf)
      (fun hin => ha (lt_of_lt_of_le hin hlen))
      (by rw [hexec]; exact fun hin => hoff (lt_of_lt_of_le hin hlen))
    rw [hexec] at hagree
    exact hagree.pc
  · rintro rfl s hs
    cases hcond : Arm.conditionPassed cond s.flags with
    | true =>
      refine ⟨_, condBlock_taken hs rfl hcond, ?_, fun h => absurd h Bool.false_ne_true⟩
      rw [Op.exec, if_pos hcond]
      exact (AgreeOff.refl _ (s.goto (pc + off))).of_setReg List.mem_cons_self (pc + off)
    | false =>
      refine ⟨_, condBlock_skipped hs rfl hcond, ?_, fun h => absurd h Bool.false_ne_true⟩
      rw [Op.exec, if_neg (by rw [hcond]; exact Bool.false_ne_true)]
      exact AgreeOff.refl _ _

end Relocates

end HookZz.Arm64
