import AndroidReverse.RelocateShapes

/-!
# The flow through a Thumb trampoline

The blocks of a Thumb trampoline are words, so a load of the aligned program counter finds
the literal it was given, and a branch over a literal lands behind it. All of this is
counted from where the block begins, and holds for every prologue.

What the relocator does not look at is whether its branches are taken. A prologue with an
`IT` makes instructions of the trampoline conditional, and not the same ones: the `NOP`
behind a copied 16-bit instruction has a slot too, and so has every instruction of a
generated block. A branch over a literal in such a slot does not keep the literal from
being executed, and neither does the jump back. `guarded` walks over the prologue with the
slots of the trampoline and says whether this happens.
-/

namespace Relocate

open Arm

/-! ## Guarded prologues -/

/-- **Whether a block keeps its literal from being executed**, entered with `it`, and the
rest of the trampoline does what `rest` says. -/
def BlockShape.guarded (stops : ThumbInsn → Bool) (it : ItState) (rest : ItState → Bool) :
    BlockShape → Bool
  | .jump => !mayFall it
  | .call => !mayFall (itAdvance it) && rest 0#8
  | .value _ => !mayFall (itAdvance it) && rest (itAdvance^[2] it)
  | .condBranch c =>
    if c.extractLsb' 1 3 = 0b111#3 then
      -- not a branch but `UDF` or `SVC`, behind which the branch to the end stands
      !((ThumbInsn.narrow (condGuard c)).flow stops).goesOn it
        || ((!mayFall (itAdvance it) || !mayFall (itAdvance^[2] it)) && rest (itAdvance^[2] it))
    else !mayFall (itAdvance it) && rest (itAdvance^[2] it)
  | .compareBranch _ _ => !mayFall (itAdvance it) && rest (itAdvance^[2] it)
  -- four instructions and more are behind every block
  | .add rdn => rdn != PC && rest 0#8
  | .table _ _ => true
  | .copy x =>
    let f := x.flow stops
    f != .computed && (!f.goesOn it || rest ((pad x).foldl (fun it y => y.itNext it) it))

/-- **Whether the trampoline of a prologue never executes a literal**, entered with `it`:
behind the prologue stands the jump back. -/
def guarded (stops : ThumbInsn → Bool) : List ThumbInsn → ItState → Bool
  | [], it => !mayFall it
  | x :: xs, it => (thumbShape x).guarded stops it (guarded stops xs)

/-! ## The way through a block -/

/-- **A block at a halfword of a code**: its instructions, with a literal that must not be
reached and something behind it. -/
structure BlockAt (stops : ThumbInsn → Bool) (ws : ℕ → Half) (bad : ℕ × ItState → Prop)
    (rest : ItState → Bool) (S : BlockShape) (s : ℕ) : Prop where
  even : s % 2 = 0
  code : HoldsCode ws s S.code
  clean : ∀ i it, i < codeHalves S.code → ¬ bad (s + i, it)
  literal : S.hasLiteral = true → ∀ it, bad (s + codeHalves S.code, it)
  rest : ∀ it, Avoids (FlowStep stops ws) bad (s + S.size, it) ↔ rest it = true

theorem itBits_condGuard : ∀ c, (ThumbInsn.narrow (condGuard c)).itBits = none := by decide

theorem itAdvance_four : ∀ it, itAdvance^[4] it = 0#8 := by decide

theorem mayFall_zero : mayFall 0#8 = false := by decide

section Way

variable {stops : ThumbInsn → Bool} {ws : ℕ → Half} {bad : ℕ × ItState → Prop}
  {rest : ItState → Bool} {s k d : ℕ} {x : ThumbInsn}

/-- A jump before a literal must not be skipped. -/
theorem avoids_jump {it : ItState} (hx : insnAt ws k = x) (hf : x.flow stops = .away)
    (hk : ¬ bad (k, it)) (hl : ∀ it, bad (k + x.halves, it)) :
    Avoids (FlowStep stops ws) bad (k, it) ↔ (!mayFall it) = true := by
  rw [avoids_away hx hf, and_iff_right hk, Bool.not_eq_true', ← Bool.not_eq_true]
  exact imp_congr_right fun _ => iff_false_intro (not_avoids_of_bad (hl _))

/-- Nor must a branch over one. -/
theorem avoids_over {it : ItState} {off : Word} (hx : insnAt ws k = x)
    (hf : x.flow stops = .branch false off) (hoff : off.toInt = 2 * (d : ℤ))
    (hk : ¬ bad (k, it)) (hl : ∀ it, bad (k + x.halves, it))
    (hrest : ∀ it, Avoids (FlowStep stops ws) bad (k + 2 + d, it) ↔ rest it = true) :
    Avoids (FlowStep stops ws) bad (k, it) ↔ (!mayFall it && rest (itAdvance it)) = true := by
  rw [avoids_branch hx hf hoff, and_iff_right hk, hrest, Bool.and_eq_true, Bool.false_or,
    Bool.not_eq_true', ← Bool.not_eq_true (mayFall it)]
  exact and_congr_left' (imp_congr_right fun _ => iff_false_intro (not_avoids_of_bad (hl _)))

/-- A branch over a jump and its literal. -/
theorem avoids_overJump {it : ItState} (hc : HoldsCode ws k [.narrow 0xE003#16, ldrPcInsn])
    (hok : ∀ i it, i < 3 → ¬ bad (k + i, it)) (hl : ∀ it, bad (k + 3, it))
    (hrest : ∀ it, Avoids (FlowStep stops ws) bad (k + 5, it) ↔ rest it = true) :
    Avoids (FlowStep stops ws) bad (k, it)
      ↔ ((!mayFall it || !mayFall (itAdvance it)) && rest (itAdvance it)) = true := by
  obtain ⟨hb, hj, -⟩ := hc
  have hflows : flows [.narrow 0xE003#16, ldrPcInsn] = [some (.branch false 6), some .away] := by
    decide
  have hb' := flow_of_flows stops hflows
  have hj' := flow_of_flows stops hb'.2
  have hjump : ∀ it, Avoids (FlowStep stops ws) bad (k + 1, it) ↔ (!mayFall it) = true := fun it =>
    avoids_jump hj hj'.1 (hok 1 it (by decide)) hl
  have h0 : ¬ bad (k, it) := hok 0 it (by decide)
  have hoff : (6#32).toInt = 2 * ((3 : ℕ) : ℤ) := by decide
  rw [avoids_branch hb hb'.1 hoff, and_iff_right h0, itNext_of_flows hflows]
  rw [show k + (ThumbInsn.narrow 0xE003#16).halves = k + 1 from rfl, hjump, hrest, Bool.and_eq_true,
    Bool.false_or, Bool.or_eq_true, Bool.not_eq_true' (mayFall it), ← Bool.not_eq_true (mayFall it),
    ← imp_iff_not_or]

/-- A guard before it: where the guard passes or is skipped the jump is executed, and must
not be skipped itself. -/
theorem avoids_guard {it : ItState} {w : Half}
    (hc : HoldsCode ws k [.narrow w, .narrow 0xE003#16, ldrPcInsn])
    (hf : flows [.narrow w] = [some (.branch true 0)])
    (hok : ∀ i it, i < 4 → ¬ bad (k + i, it)) (hl : ∀ it, bad (k + 4, it))
    (hrest : ∀ it, Avoids (FlowStep stops ws) bad (k + 6, it) ↔ rest it = true) :
    Avoids (FlowStep stops ws) bad (k, it)
      ↔ (!mayFall (itAdvance it) && rest (itAdvance^[2] it)) = true := by
  obtain ⟨hw, hc⟩ := hc
  have hjump : Avoids (FlowStep stops ws) bad (k + 2, itAdvance it)
      ↔ (!mayFall (itAdvance it)) = true := by
    have hflows : flows [ldrPcInsn] = [some .away] := flows_code .jump
    exact avoids_jump hc.2.1 (flow_of_flows _ hflows).1 (hok 2 _ (by decide)) hl
  have hover : Avoids (FlowStep stops ws) bad (k + 1, itAdvance it)
      ↔ ((!mayFall (itAdvance it) || !mayFall (itAdvance^[2] it)) && rest (itAdvance^[2] it))
        = true :=
    avoids_overJump hc (fun i it hi => by rw [Nat.add_right_comm]; exact hok (i + 1) it (by omega))
      hl hrest
  have h0 : ¬ bad (k, it) := hok 0 it (by decide)
  have hoff : (0#32).toInt = 2 * ((0 : ℕ) : ℤ) := by decide
  rw [avoids_branch hw (flow_of_flows _ hf).1 hoff, and_iff_right h0, itNext_of_flows hf]
  rw [show k + (ThumbInsn.narrow w).halves = k + 1 from rfl, Bool.true_or, hjump, hover]
  simp only [Bool.and_eq_true, Bool.or_eq_true, true_imp_iff]
  exact ⟨fun h => ⟨h.2, h.1.2⟩, fun h => ⟨⟨Or.inl h.1, h.2⟩, h.1⟩⟩

namespace BlockAt

variable {it : ItState}

theorem jump (h : BlockAt stops ws bad rest .jump s) :
    Avoids (FlowStep stops ws) bad (s, it) ↔ BlockShape.jump.guarded stops it rest = true :=
  avoids_jump h.code.1 (flow_of_flows _ (flows_code .jump)).1
      (h.clean 0 it (by decide)) (h.literal rfl)

theorem call (h : BlockAt stops ws bad rest .call s) :
    Avoids (FlowStep stops ws) bad (s, it) ↔ BlockShape.call.guarded stops it rest = true := by
  obtain ⟨hlink, hj, -⟩ := h.code
  have hl := flow_of_flows stops (flows_code .call)
  have hjump : Avoids (FlowStep stops ws) bad (s + 2, itAdvance it)
      ↔ (!mayFall (itAdvance it)) = true :=
    avoids_jump hj (flow_of_flows _ hl.2).1 (h.clean 2 _ (by decide)) (h.literal rfl)
  have h0 : ¬ bad (s, it) := h.clean 0 it (by decide)
  have himm : (9#32).toNat = 2 * 4 + 1 := by decide
  have hret : Avoids (FlowStep stops ws) bad (s + 2 + 4, 0#8) ↔ rest 0#8 = true := h.rest 0#8
  rw [avoids_link hlink hl.1 h.even himm, and_iff_right h0, itNext_of_flows (flows_code .call), hret,
    BlockShape.guarded, Bool.and_eq_true]
  exact and_congr_left' hjump

theorem value {r : BitVec 3} (h : BlockAt stops ws bad rest (.value r) s) :
    Avoids (FlowStep stops ws) bad (s, it)
      ↔ (BlockShape.value r).guarded stops it rest = true := by
  obtain ⟨hload, hb, -⟩ := h.code
  have hl := flow_of_flows stops (flows_code (.value r))
  have h0 : ¬ bad (s, it) := h.clean 0 it (Nat.zero_lt_succ _)
  rw [avoids_on hload hl.1, and_iff_right h0, itNext_of_flows (flows_code (.value r))]
  exact avoids_over hb (flow_of_flows _ hl.2).1 (d := 1) (by decide) (h.clean 1 _ Nat.one_lt_two)
    (h.literal rfl) h.rest

theorem condBranch {c : BitVec 4} (h : BlockAt stops ws bad rest (.condBranch c) s) :
    Avoids (FlowStep stops ws) bad (s, it)
      ↔ (BlockShape.condBranch c).guarded stops it rest = true := by
  have hflows : flows (BlockShape.condBranch c).code = [if _ then _ else _, _, _] :=
    flows_code (.condBranch c)
  rw [BlockShape.guarded]
  by_cases hc : c.extractLsb' 1 3 = 0b111#3
  · obtain ⟨hguard, hcode⟩ := h.code
    have hnone : (ThumbInsn.narrow (condGuard c)).decode = none := by
      rw [if_pos hc] at hflows
      exact Option.map_eq_none_iff.mp (List.cons.inj hflows).1
    have hflow : (ThumbInsn.narrow (condGuard c)).flow stops = .away
        ∨ (ThumbInsn.narrow (condGuard c)).flow stops = .on := by
      rw [ThumbInsn.flow, hnone]
      exact ite_eq_or_eq _ _ _
    have hplain : ((ThumbInsn.narrow (condGuard c)).flow stops).isPlain = true :=
      hflow.elim (fun hf => by rw [hf]; rfl) (fun hf => by rw [hf]; rfl)
    have hcomp : (ThumbInsn.narrow (condGuard c)).flow stops ≠ .computed :=
      hflow.elim (fun hf => by simp [hf]) (fun hf => by simp [hf])
    have hit : (ThumbInsn.narrow (condGuard c)).itNext it = itAdvance it := by
      rw [ThumbInsn.itNext, itBits_condGuard]
      rfl
    have h0 : ¬ bad (s, it) := h.clean 0 it (Nat.zero_lt_succ _)
    have hover : Avoids (FlowStep stops ws) bad
        (s + (ThumbInsn.narrow (condGuard c)).halves, itAdvance it) ↔ _ := avoids_overJump hcode
      (fun i it hi => by rw [Nat.add_assoc]; exact h.clean (1 + i) it (show 1 + i < 4 by omega))
      (h.literal rfl) h.rest
    rw [if_pos hc, avoids_plain hguard hplain hcomp, and_iff_right h0, hit, hover,
      Bool.or_eq_true, Bool.not_eq_true', ← Bool.not_eq_true, ← imp_iff_not_or]
    rfl
  · rw [if_neg hc] at hflows ⊢
    refine avoids_guard h.code ?_ h.clean (h.literal rfl) h.rest
    exact congrArg (List.take 1) hflows

theorem compareBranch {nonzero : Bool} {r : BitVec 3}
    (h : BlockAt stops ws bad rest (.compareBranch nonzero r) s) :
    Avoids (FlowStep stops ws) bad (s, it)
      ↔ (BlockShape.compareBranch nonzero r).guarded stops it rest = true :=
  avoids_guard h.code (congrArg (List.take 1) (flows_code (.compareBranch nonzero r))) h.clean
    (h.literal rfl) h.rest

theorem add {rdn : Reg} (h : BlockAt stops ws bad rest (.add rdn) s) :
    Avoids (FlowStep stops ws) bad (s, it)
      ↔ (BlockShape.add rdn).guarded stops it rest = true := by
  have hflows : flows (BlockShape.add rdn).code
      = [_, _, some (if _ then _ else _), _, _, _] := flows_code (.add rdn)
  rw [BlockShape.guarded]
  by_cases hpc : rdn = PC
  · rw [if_pos hpc] at hflows
    obtain ⟨hpush, hload, hadd, -⟩ := h.code
    have hp := flow_of_flows stops hflows
    have hl := flow_of_flows stops hp.2
    have ha := flow_of_flows stops hl.2
    rw [avoids_on hpush hp.1, avoids_on hload hl.1, hpc]
    refine iff_of_false (fun hav => ?_) Bool.false_ne_true
    exact not_avoids_computed hadd ha.1 (h.literal rfl 0#8) hav.2.2
  · rw [if_neg hpc] at hflows
    obtain ⟨hstraight, hb, -⟩ := holdsCode_append.mp
      (show HoldsCode ws s ((BlockShape.add rdn).code.take 4 ++ (BlockShape.add rdn).code.drop 4)
        from h.code)
    have hwalk : Avoids (FlowStep stops ws) bad (s, it)
        ↔ Avoids (FlowStep stops ws) bad (s + 4, itAdvance^[4] it) :=
      avoids_straight hstraight (congrArg (List.take 4) hflows)
        (fun i it hi => h.clean i it (hi.trans (show 4 < 6 by decide)))
    have hb' := flow_of_flows stops (congrArg (List.drop 4) hflows)
    have h4 : ¬ bad (s + 4, 0#8) := h.clean 4 _ (show 4 < 6 by decide)
    have hoff : (4#32).toInt = 2 * ((2 : ℕ) : ℤ) := by decide
    have hrest : Avoids (FlowStep stops ws) bad (s + 4 + 2 + 2, 0#8) ↔ rest 0#8 = true :=
      h.rest 0#8
    have hjump : Avoids (FlowStep stops ws) bad (s + 4, 0#8) ↔ _ := avoids_branch hb hb'.1 hoff
    rw [hwalk, itAdvance_four, hjump, and_iff_right h4, mayFall_zero, itAdvance_zero, hrest,
      bne_iff_ne.mpr hpc, Bool.true_and]
    exact and_iff_right nofun

theorem table {wide : Bool} {rm : Reg} (h : BlockAt stops ws bad rest (.table wide rm) s) :
    Avoids (FlowStep stops ws) bad (s, it)
      ↔ (BlockShape.table wide rm).guarded stops it rest = true := by
  have hflows : flows (BlockShape.table wide rm).code = _ ++ [_, _] := flows_code (.table wide rm)
  obtain ⟨hstraight, hbx, -⟩ := holdsCode_append.mp
    (show HoldsCode ws s
      ((BlockShape.table wide rm).code.take 8 ++
          (BlockShape.table wide rm).code.drop 8) from h.code)
  have hwalk : Avoids (FlowStep stops ws) bad (s, it)
      ↔ Avoids (FlowStep stops ws) bad (s + 10, itAdvance^[8] it) :=
    avoids_straight hstraight (congrArg (List.take 8) hflows)
      (fun i it hi => h.clean i it (hi.trans (show 10 < 12 by decide)))
  have hbx' := flow_of_flows stops (congrArg (List.drop 8) hflows)
  have h10 : ¬ bad (s + 10, 0#8) := h.clean 10 _ (show 10 < 12 by decide)
  have hjump : Avoids (FlowStep stops ws) bad (s + 10, 0#8) ↔ _ := avoids_away hbx hbx'.1
  have hit : itAdvance^[8] it = 0#8 := itAdvance_four (itAdvance^[4] it)
  rw [hwalk, hit, hjump, and_iff_right h10, mayFall_zero]
  exact iff_of_true nofun rfl

theorem copy {x : ThumbInsn} (h : BlockAt stops ws bad rest (.copy x) s)
    (hx : (x.flow stops).isPlain = true) (hbad : ∃ t, bad t) :
    Avoids (FlowStep stops ws) bad (s, it)
      ↔ (BlockShape.copy x).guarded stops it rest = true := by
  obtain ⟨t, ht⟩ := hbad
  rw [BlockShape.guarded]
  have hat : insnAt ws s = x := by
    cases x <;> exact h.code.1
  by_cases hc : x.flow stops = .computed
  · refine iff_of_false (not_avoids_computed hat hc ht) ?_
    rw [hc]
    exact Bool.false_ne_true
  have h0 : ¬ bad (s, it) := h.clean 0 it (by cases x <;> exact Nat.zero_lt_succ _)
  have hend : Avoids (FlowStep stops ws) bad (s + x.halves, x.itNext it)
      ↔ rest ((pad x).foldl (fun it y => y.itNext it) it) = true := by
    cases x with
    | narrow w =>
      have hnop : flows [.nop] = [some .on] := by decide
      have h1 : ¬ bad (s + 1, (ThumbInsn.narrow w).itNext it) := h.clean 1 _ Nat.one_lt_two
      exact (avoids_on h.code.2.1 (flow_of_flows _ hnop).1).trans
        ((and_iff_right h1).trans (h.rest _))
    | wide high low => exact h.rest _
  rw [avoids_plain hat hx hc, and_iff_right h0, hend, Bool.and_eq_true, Bool.or_eq_true,
    Bool.not_eq_true' , ← Bool.not_eq_true, ← imp_iff_not_or]
  exact (and_iff_right (bne_iff_ne.mpr hc)).symm

/-- **A block is left without its literal being reached exactly if it is guarded.** -/
theorem avoids_iff {S : BlockShape} (h : BlockAt stops ws bad rest S s)
    (hS : ∀ x, S = .copy x → (x.flow stops).isPlain = true) (hbad : ∃ t, bad t) :
    Avoids (FlowStep stops ws) bad (s, it) ↔ S.guarded stops it rest = true := by
  cases S with
  | jump => exact h.jump
  | call => exact h.call
  | value r => exact h.value
  | condBranch c => exact h.condBranch
  | compareBranch nonzero r => exact h.compareBranch
  | add rdn => exact h.add
  | table wide rm => exact h.table
  | copy x => exact h.copy (hS x rfl) hbad

end BlockAt

end Way

/-! ## The blocks of a trampoline -/

section Trampoline

variable (mem₀ : Mem) (target_addr : Word) (orig_instructions : ℕ → Half)

/-- Instruction `j` of a prologue. -/
def prologueInsn (j : ℕ) : ThumbInsn := insnAt orig_instructions (insnStart orig_instructions j)

/-- The number of instructions that are wholly in a prologue of twelve bytes. -/
def prologueCount : ℕ := wholeInsns orig_instructions 6

/-- These instructions. -/
def prologueInsns : List ThumbInsn :=
  (List.range (prologueCount orig_instructions)).map (prologueInsn orig_instructions)

/-- The halfword at which the block of instruction `j` begins. -/
def blockStart (j : ℕ) : ℕ := (thumbBlocks mem₀ target_addr orig_instructions j).length

/-- The halfwords of the trampoline. -/
def trampolineHalf (k : ℕ) : Half := (thumbTrampoline mem₀ target_addr orig_instructions).getD k 0

/-- **The code of a generated block**, from halfword `s` to its literal at halfword `e`: the
block of an instruction that is not copied, or the jump back. -/
def Generated (s e : ℕ) : Prop :=
  (∃ j < prologueCount orig_instructions, ¬ Verbatim (prologueInsn orig_instructions j)
      ∧ s = blockStart mem₀ target_addr orig_instructions j
      ∧ e + 2 = blockStart mem₀ target_addr orig_instructions (j + 1))
    ∨ (s = blockStart mem₀ target_addr orig_instructions (prologueCount orig_instructions)
      ∧ e = s + 2)

/-- A halfword of a literal. -/
def IsLiteral (k : ℕ) : Prop :=
  ∃ s e, Generated mem₀ target_addr orig_instructions s e ∧ e ≤ k ∧ k < e + 2

/-- **The layout of a trampoline.** -/
structure ThumbLayout (stops : ThumbInsn → Bool) : Prop where
  /-- The blocks stand one behind the other, and behind them the jump to the first
  instruction that has none. -/
  blocks : thumbTrampoline mem₀ target_addr orig_instructions
    = thumbBlocks mem₀ target_addr orig_instructions (prologueCount orig_instructions)
      ++ ldrPc (target_addr + BitVec.ofNat 32 (2 * insnStart orig_instructions
        (prologueCount orig_instructions)) + 1#32)
  /-- Each of them begins at a word, and so does the jump. -/
  aligned : ∀ j ≤ prologueCount orig_instructions,
    2 * blockStart mem₀ target_addr orig_instructions j % 4 = 0
  /-- A load of a generated block reads the literal of the block, in a word-aligned
  buffer. -/
  loads : ∀ s e, Generated mem₀ target_addr orig_instructions s e →
    ∀ base : Word, base.toNat % 4 = 0 →
    ∀ k, BeginsIn (trampolineHalf mem₀ target_addr orig_instructions) s e k →
    ∀ y a, (insnAt (trampolineHalf mem₀ target_addr orig_instructions) k).decode = some y →
      y.op.literalAddr (base + BitVec.ofNat 32 (2 * k) + 4#32) = some a →
      a = base + BitVec.ofNat 32 (2 * e)
  /-- A branch of a generated block goes to an instruction of the block or to what stands
  behind it. -/
  branches : ∀ s e, Generated mem₀ target_addr orig_instructions s e →
    ∀ k, BeginsIn (trampolineHalf mem₀ target_addr orig_instructions) s e k →
    ∀ t ∈ ((insnAt (trampolineHalf mem₀ target_addr orig_instructions) k).flow stops).targets k,
      ∃ i : ℕ, t = 2 * (i : ℤ)
        ∧ (i = e + 2 ∨ BeginsIn (trampolineHalf mem₀ target_addr orig_instructions) s e i)
  /-- No literal is ever executed. -/
  literals : Avoids (FlowStep stops (trampolineHalf mem₀ target_addr orig_instructions))
    (fun p => IsLiteral mem₀ target_addr orig_instructions p.1) (0, 0#8)
  /-- The trampoline stays in a page. -/
  page : 2 * (thumbTrampoline mem₀ target_addr orig_instructions).length ≤ 4096

/-- The shape of block `j`; the jump back is one too. -/
def trampolineShape (j : ℕ) : BlockShape :=
  if j < prologueCount orig_instructions then thumbShape (prologueInsn orig_instructions j)
  else .jump

theorem thumbBlock_emits (j : ℕ) : (thumbShape (prologueInsn orig_instructions j)).Emits
    (thumbBlock mem₀ target_addr orig_instructions j) :=
  thumbInsnBlock_shape mem₀ _ _

theorem thumbTrampoline_eq : thumbTrampoline mem₀ target_addr orig_instructions
    = thumbBlocks mem₀ target_addr orig_instructions (prologueCount orig_instructions)
      ++ ldrPc (target_addr + BitVec.ofNat 32 (2 * insnStart orig_instructions
        (prologueCount orig_instructions)) + 1#32) :=
  congrArg Prod.fst (relocateInstructionInThumb_eq (fun _ _ _ => ()) mem₀ target_addr
    orig_instructions (show 2 ≤ 12 by decide) ())

theorem blockStart_succ (j : ℕ) : blockStart mem₀ target_addr orig_instructions (j + 1)
    = blockStart mem₀ target_addr orig_instructions j
      + (thumbShape (prologueInsn orig_instructions j)).size := by
  rw [blockStart, thumbBlocks_succ, List.length_append, (thumbBlock_emits _ _ _ j).length]
  rfl

/-- A block is a whole number of words, and at most seven. -/
theorem blockStart_aligned (j : ℕ) : blockStart mem₀ target_addr orig_instructions j % 2 = 0
    ∧ blockStart mem₀ target_addr orig_instructions j ≤ 14 * j := by
  induction j with
  | zero => exact ⟨rfl, Nat.le_refl 0⟩
  | succ j ih =>
    obtain ⟨k, hk, h7⟩ := thumbInsnBlock_size mem₀
      (target_addr + BitVec.ofNat 32 (2 * insnStart orig_instructions j + 4))
      (prologueInsn orig_instructions j)
    have hsucc : blockStart mem₀ target_addr orig_instructions (j + 1)
        = blockStart mem₀ target_addr orig_instructions j + 2 * (k + 1) := by
      rw [blockStart, thumbBlocks_succ, List.length_append]
      exact congrArg _ hk
    omega

/-- **Every block stands at its start.** -/
theorem trampoline_block {j : ℕ} (hj : j ≤ prologueCount orig_instructions) :
    ∃ block rest, thumbTrampoline mem₀ target_addr orig_instructions
        = thumbBlocks mem₀ target_addr orig_instructions j ++ (block ++ rest)
      ∧ (trampolineShape orig_instructions j).Emits block := by
  rw [thumbTrampoline_eq, trampolineShape]
  rcases hj.lt_or_eq with hj | rfl
  · obtain ⟨rest, hr⟩ := thumbBlocks_split mem₀ target_addr orig_instructions hj
    rw [if_pos hj, hr, List.append_assoc, List.append_assoc]
    exact ⟨_, _, rfl, thumbBlock_emits _ _ _ j⟩
  · rw [if_neg (Nat.lt_irrefl _)]
    refine ⟨_, [], congrArg _ (List.append_nil _).symm, ?_⟩
    rw [ldrPc_eq]
    exact emits_jump _

theorem wellFormed_insnAt (ws : ℕ → Half) (k : ℕ) : (insnAt ws k).wellFormed = true := by
  by_cases hw : isThumb32 (ws k) = true
  · rw [insnAt_wide hw]
    exact hw
  · rw [Bool.not_eq_true] at hw
    rw [insnAt_narrow hw, ThumbInsn.wellFormed, hw]
    rfl

theorem wellFormed_of_mem {j : ℕ} {x : ThumbInsn}
    (hx : x ∈ (trampolineShape orig_instructions j).code) : x.wellFormed = true := by
  by_cases hl : (trampolineShape orig_instructions j).hasLiteral = true
  · exact List.all_eq_true.mp (Bool.and_eq_true_iff.mp (sound_of_hasLiteral hl)).1 x hx
  · have hj : j < prologueCount orig_instructions := by
      by_contra hj
      rw [trampolineShape, if_neg hj] at hl
      exact hl rfl
    rw [trampolineShape, if_pos hj] at hx hl
    rw [hasLiteral_thumbShape, not_not] at hl
    rw [thumbShape_of_verbatim hl, BlockShape.code] at hx
    have hat := wellFormed_insnAt orig_instructions (insnStart orig_instructions j)
    rw [prologueInsn] at hx
    cases hi : insnAt orig_instructions (insnStart orig_instructions j) with
    | narrow w =>
      rw [hi] at hx hat
      rcases List.mem_cons.mp hx with rfl | hx
      · exact hat
      · rw [List.mem_singleton.mp hx]
        decide
    | wide high low =>
      rw [hi] at hx hat
      rw [List.mem_singleton.mp hx]
      exact hat

/-- **The trampoline decodes to the instructions of its blocks.** -/
theorem holdsCode_trampoline {j : ℕ} (hj : j ≤ prologueCount orig_instructions) :
    HoldsCode (trampolineHalf mem₀ target_addr orig_instructions)
      (blockStart mem₀ target_addr orig_instructions j)
      (trampolineShape orig_instructions j).code := by
  obtain ⟨block, rest, ht, v, rfl⟩ := trampoline_block mem₀ target_addr orig_instructions hj
  generalize (if (trampolineShape orig_instructions j).hasLiteral = true
    then [lowHalf v, highHalf v] else []) = literal at ht
  rw [List.append_assoc] at ht
  refine @holdsCode_of_halves _ _ _ (literal ++ rest)
    (fun x hx => wellFormed_of_mem orig_instructions hx) fun i w hi => ?_
  rw [trampolineHalf, List.getD_eq_getElem?_getD, ht, blockStart,
    List.getElem?_append_right (Nat.le_add_right _ _), Nat.add_sub_cancel_left, hi,
        Option.getD_some]

/-! ## Where the literals are -/

/-- What a block begins behind. -/
theorem blockStart_add_size {j : ℕ} (hj : j < prologueCount orig_instructions) :
    blockStart mem₀ target_addr orig_instructions j + (trampolineShape orig_instructions j).size
      = blockStart mem₀ target_addr orig_instructions (j + 1) := by
  rw [blockStart_succ, trampolineShape, if_pos hj]

theorem blockStart_mono : Monotone (blockStart mem₀ target_addr orig_instructions) :=
  monotone_nat_of_le_succ fun j => by
    rw [blockStart_succ]
    exact Nat.le_add_right _ _

/-- The blocks do not overlap. -/
theorem blockStart_add_size_le {i j : ℕ} (hij : i < j) (hj : j ≤ prologueCount orig_instructions) :
    blockStart mem₀ target_addr orig_instructions i + (trampolineShape orig_instructions i).size
      ≤ blockStart mem₀ target_addr orig_instructions j := by
  rw [blockStart_add_size mem₀ target_addr orig_instructions (hij.trans_le hj)]
  exact blockStart_mono mem₀ target_addr orig_instructions hij

theorem size_of_hasLiteral {S : BlockShape} (h : S.hasLiteral = true) :
    S.size = codeHalves S.code + 2 := by
  rw [BlockShape.size, if_pos h]

/-- The generated blocks, by their shapes. -/
theorem generated_iff {s e : ℕ} : Generated mem₀ target_addr orig_instructions s e
    ↔ ∃ j ≤ prologueCount orig_instructions, (trampolineShape orig_instructions j).hasLiteral = true
      ∧ s = blockStart mem₀ target_addr orig_instructions j
      ∧ e = s + codeHalves (trampolineShape orig_instructions j).code := by
  have hlit : ∀ j < prologueCount orig_instructions,
      ((trampolineShape orig_instructions j).hasLiteral = true
        ↔ ¬ Verbatim (prologueInsn orig_instructions j)) := by
    intro j hj
    rw [trampolineShape, if_pos hj]
    exact hasLiteral_thumbShape _
  have hend : ∀ j < prologueCount orig_instructions,
      (trampolineShape orig_instructions j).hasLiteral = true →
      blockStart mem₀ target_addr orig_instructions (j + 1)
        = blockStart mem₀ target_addr orig_instructions j
          + codeHalves (trampolineShape orig_instructions j).code + 2 := by
    intro j hj hl
    rw [← blockStart_add_size mem₀ target_addr orig_instructions hj, size_of_hasLiteral hl,
      Nat.add_assoc]
  have hlast : trampolineShape orig_instructions (prologueCount orig_instructions) = .jump :=
    if_neg (Nat.lt_irrefl _)
  constructor
  · rintro (⟨j, hj, hv, rfl, he⟩ | ⟨rfl, rfl⟩)
    · have hl := (hlit j hj).mpr hv
      exact ⟨j, hj.le, hl, rfl, Nat.add_right_cancel (he.trans (hend j hj hl))⟩
    · exact ⟨_, le_rfl, by rw [hlast]; rfl, rfl, by rw [hlast]; rfl⟩
  · rintro ⟨j, hj, hl, rfl, rfl⟩
    rcases hj.lt_or_eq with hj | rfl
    · exact Or.inl ⟨j, hj, (hlit j hj).mp hl, rfl, (hend j hj hl).symm⟩
    · exact Or.inr ⟨rfl, by rw [hlast]; rfl⟩

/-- **The literals of a trampoline**, block by block. -/
theorem isLiteral_iff {i j : ℕ} (hj : j ≤ prologueCount orig_instructions)
    (hi : i < (trampolineShape orig_instructions j).size) :
    IsLiteral mem₀ target_addr orig_instructions
        (blockStart mem₀ target_addr orig_instructions j + i)
      ↔ (trampolineShape orig_instructions j).hasLiteral = true
        ∧ codeHalves (trampolineShape orig_instructions j).code ≤ i := by
  constructor
  · rintro ⟨s, e, hg, hle, hlt⟩
    obtain ⟨j', hj', hl, rfl, rfl⟩ := (generated_iff mem₀ target_addr orig_instructions).mp hg
    rw [Nat.add_assoc, ← size_of_hasLiteral hl] at hlt
    rcases Nat.lt_trichotomy j' j with h | rfl | h
    · have := blockStart_add_size_le mem₀ target_addr orig_instructions h hj
      omega
    · exact ⟨hl, Nat.le_of_add_le_add_left hle⟩
    · have := blockStart_add_size_le mem₀ target_addr orig_instructions h hj'
      omega
  · rintro ⟨hl, hle⟩
    rw [size_of_hasLiteral hl] at hi
    exact ⟨_, _, (generated_iff mem₀ target_addr orig_instructions).mpr ⟨j, hj, hl, rfl, rfl⟩,
      Nat.add_le_add_left hle _, by omega⟩

/-- The halfwords of a block that are not its literal, and the ones that are. -/
theorem not_isLiteral_code {i j : ℕ} (hj : j ≤ prologueCount orig_instructions)
    (hi : i < codeHalves (trampolineShape orig_instructions j).code) :
    ¬ IsLiteral mem₀ target_addr orig_instructions
      (blockStart mem₀ target_addr orig_instructions j + i) := by
  have hsize : i < (trampolineShape orig_instructions j).size := Nat.lt_add_right _ hi
  rw [isLiteral_iff mem₀ target_addr orig_instructions hj hsize]
  exact fun h => absurd hi (Nat.not_lt.mpr h.2)

theorem isLiteral_end {j : ℕ} (hj : j ≤ prologueCount orig_instructions)
    (hl : (trampolineShape orig_instructions j).hasLiteral = true) :
    IsLiteral mem₀ target_addr orig_instructions
      (blockStart mem₀ target_addr orig_instructions j
        + codeHalves (trampolineShape orig_instructions j).code) := by
  have hsize : codeHalves (trampolineShape orig_instructions j).code
      < (trampolineShape orig_instructions j).size := by
    rw [size_of_hasLiteral hl]
    exact Nat.lt_add_of_pos_right Nat.two_pos
  exact (isLiteral_iff mem₀ target_addr orig_instructions hj hsize).mpr ⟨hl, le_rfl⟩

/-! ## The way through a trampoline -/

variable (stops : ThumbInsn → Bool)

/-- **From a block on no literal is reached exactly if the rest of the prologue is
guarded**, by induction on the number of its instructions. -/
theorem avoids_block (n j : ℕ) (hj : j + n = prologueCount orig_instructions) (it : ItState) :
    Avoids (FlowStep stops (trampolineHalf mem₀ target_addr orig_instructions))
        (fun p => IsLiteral mem₀ target_addr orig_instructions p.1)
        (blockStart mem₀ target_addr orig_instructions j, it)
      ↔ guarded stops ((List.range' j n).map (prologueInsn orig_instructions)) it = true := by
  induction n generalizing j it with
  | zero =>
    obtain rfl : j = prologueCount orig_instructions := hj
    have hshape : trampolineShape orig_instructions (prologueCount orig_instructions) = .jump :=
      if_neg (Nat.lt_irrefl _)
    have hcode := holdsCode_trampoline mem₀ target_addr orig_instructions le_rfl
    have hclean := not_isLiteral_code (i := 0) mem₀ target_addr orig_instructions le_rfl
    have hend := isLiteral_end mem₀ target_addr orig_instructions le_rfl
    rw [hshape] at hcode hclean hend
    exact avoids_jump hcode.1 (flow_of_flows _ (flows_code .jump)).1 (hclean (by decide))
      (fun _ => hend rfl)
  | succ n ih =>
    have hlt : j < prologueCount orig_instructions := by omega
    have hshape : trampolineShape orig_instructions j
        = thumbShape (prologueInsn orig_instructions j) := if_pos hlt
    have hblock : BlockAt stops (trampolineHalf mem₀ target_addr orig_instructions)
        (fun p => IsLiteral mem₀ target_addr orig_instructions p.1)
        (guarded stops ((List.range' (j + 1) n).map (prologueInsn orig_instructions)))
        (trampolineShape orig_instructions j)
        (blockStart mem₀ target_addr orig_instructions j) :=
      { even := (blockStart_aligned mem₀ target_addr orig_instructions j).1
        code := holdsCode_trampoline mem₀ target_addr orig_instructions hlt.le
        clean := fun i _ hi => not_isLiteral_code mem₀ target_addr orig_instructions hlt.le hi
        literal := fun hl _ => isLiteral_end mem₀ target_addr orig_instructions hlt.le hl
        rest := fun it => by
          rw [blockStart_add_size mem₀ target_addr orig_instructions hlt]
          exact ih (j + 1) (by omega) it }
    rw [hshape] at hblock
    rw [List.range'_succ, List.map_cons, guarded]
    refine hblock.avoids_iff (fun x hx => ?_) ?_
    · have hv : Verbatim (prologueInsn orig_instructions j) := by
        by_contra hv
        rw [← hasLiteral_thumbShape, hx] at hv
        exact Bool.false_ne_true hv
      rw [thumbShape_of_verbatim hv] at hx
      rw [← BlockShape.copy.inj hx]
      exact isPlain_flow_of_verbatim stops hv
    · exact ⟨(_, 0#8), isLiteral_end mem₀ target_addr orig_instructions le_rfl
        (by rw [trampolineShape, if_neg (Nat.lt_irrefl _)]; rfl)⟩

/-- The whole trampoline. -/
theorem avoids_trampoline :
    Avoids (FlowStep stops (trampolineHalf mem₀ target_addr orig_instructions))
        (fun p => IsLiteral mem₀ target_addr orig_instructions p.1) (0, 0#8)
      ↔ guarded stops (prologueInsns orig_instructions) 0#8 = true := by
  rw [prologueInsns, List.range_eq_range']
  exact avoids_block mem₀ target_addr orig_instructions stops (prologueCount orig_instructions) 0
    (Nat.zero_add _) 0#8

/-! ## The layout -/

/-- A word-aligned address and a constant, aligned. -/
theorem align4_add_ofNat {base : Word} (h : base.toNat % 4 = 0) (n : ℕ) :
    align4 (base + BitVec.ofNat 32 n) = base + BitVec.ofNat 32 (n / 4 * 4) := by
  rw [← BitVec.toNat_inj, toNat_align4, BitVec.toNat_add, BitVec.toNat_add, BitVec.toNat_ofNat,
    BitVec.toNat_ofNat]
  have := base.isLt
  omega

/-- An instruction of a generated block, by its place in the shape. -/
theorem generated_insn {s e k : ℕ} (hg : Generated mem₀ target_addr orig_instructions s e)
    (hk : BeginsIn (trampolineHalf mem₀ target_addr orig_instructions) s e k) :
    ∃ S : BlockShape, S.sound = true ∧ s % 2 = 0 ∧ e = s + codeHalves S.code
      ∧ HoldsCode (trampolineHalf mem₀ target_addr orig_instructions) s S.code
      ∧ ∃ p ∈ placed 0 S.code, k = s + p.1
        ∧ insnAt (trampolineHalf mem₀ target_addr orig_instructions) k = p.2 := by
  obtain ⟨j, hj, hl, rfl, rfl⟩ := (generated_iff mem₀ target_addr orig_instructions).mp hg
  have hcode := holdsCode_trampoline mem₀ target_addr orig_instructions hj
  exact ⟨_, sound_of_hasLiteral hl, (blockStart_aligned mem₀ target_addr orig_instructions j).1, rfl,
    hcode, hcode.mem_placed hk⟩

theorem generated_load {s e k : ℕ} (hg : Generated mem₀ target_addr orig_instructions s e)
    {base : Word} (hbase : base.toNat % 4 = 0)
    (hk : BeginsIn (trampolineHalf mem₀ target_addr orig_instructions) s e k) {y : Insn} {a : Word}
    (hy : (insnAt (trampolineHalf mem₀ target_addr orig_instructions) k).decode = some y)
    (ha : y.op.literalAddr (base + BitVec.ofNat 32 (2 * k) + 4#32) = some a) :
    a = base + BitVec.ofNat 32 (2 * e) := by
  obtain ⟨S, hS, hs, rfl, -, p, hp, rfl, hat⟩ :=
    generated_insn mem₀ target_addr orig_instructions hg hk
  have hown := (Bool.and_eq_true_iff.mp
    (List.all_eq_true.mp (Bool.and_eq_true_iff.mp hS).2 p hp)).1
  rw [hat] at hy
  rw [ownLoad, hy] at hown
  obtain ⟨c, op⟩ := y
  cases op
  case ldrLit add rt imm =>
    obtain ⟨hadd, himm⟩ := Bool.and_eq_true_iff.mp hown
    have himm : (2 * p.1 + 4) / 4 * 4 + imm.toNat = 2 * codeHalves S.code := eq_of_beq himm
    have hword : imm = BitVec.ofNat 32 imm.toNat := by
      rw [BitVec.ofNat_toNat, BitVec.setWidth_eq]
    have hpc : base + BitVec.ofNat 32 (2 * (s + p.1)) + 4#32
        = base + BitVec.ofNat 32 (2 * (s + p.1) + 4) := by
      rw [BitVec.add_assoc, ← BitVec.ofNat_add]
    obtain rfl := Option.some.inj ha
    rw [hadd, offset, if_pos rfl, hpc, align4_add_ofNat hbase, hword, BitVec.add_assoc,
      ← BitVec.ofNat_add]
    refine congrArg (fun n => base + BitVec.ofNat 32 n) ?_
    omega
  all_goals cases ha

theorem generated_branch {s e k : ℕ} (hg : Generated mem₀ target_addr orig_instructions s e)
    (hk : BeginsIn (trampolineHalf mem₀ target_addr orig_instructions) s e k) {t : ℤ}
    (ht : t ∈ ((insnAt (trampolineHalf mem₀ target_addr orig_instructions) k).flow stops).targets k) :
    ∃ i : ℕ, t = 2 * (i : ℤ)
      ∧ (i = e + 2 ∨ BeginsIn (trampolineHalf mem₀ target_addr orig_instructions) s e i) := by
  obtain ⟨S, hS, hs, rfl, hcode, p, hp, rfl, hat⟩ :=
    generated_insn mem₀ target_addr orig_instructions hg hk
  have hown := (Bool.and_eq_true_iff.mp
    (List.all_eq_true.mp (Bool.and_eq_true_iff.mp hS).2 p hp)).2
  rw [hat, Flow.targets_add _ hs] at ht
  obtain ⟨u, hu, rfl⟩ := List.mem_map.mp ht
  rw [ThumbInsn.flow] at hu
  rw [BlockShape.ownTargets] at hown
  cases hd : p.2.decode with
  | none =>
    rw [hd] at hu
    dsimp only at hu
    split_ifs at hu <;> exact absurd hu List.not_mem_nil
  | some y =>
    rw [hd] at hu hown
    rcases Bool.or_eq_true_iff.mp (List.all_eq_true.mp hown u hu) with h | h
    · have h : u = 2 * ((codeHalves S.code : ℤ) + 2) := eq_of_beq h
      exact ⟨s + codeHalves S.code + 2, by rw [h]; omega, Or.inl rfl⟩
    · obtain ⟨q, hq, h⟩ := List.any_eq_true.mp h
      have h : u = 2 * (q.1 : ℤ) := eq_of_beq h
      exact ⟨s + q.1, by rw [h]; omega, Or.inr (hcode.beginsIn hq)⟩

/-- **The layout of a trampoline is what it should be exactly if its prologue is
guarded.** Only the execution of a literal depends on the prologue. -/
theorem thumbLayout_iff : ThumbLayout mem₀ target_addr orig_instructions stops
    ↔ guarded stops (prologueInsns orig_instructions) 0#8 = true := by
  rw [← avoids_trampoline mem₀ target_addr orig_instructions stops]
  refine ⟨fun h => h.literals, fun h => ?_⟩
  have haligned := blockStart_aligned mem₀ target_addr orig_instructions
  exact
    { blocks := thumbTrampoline_eq mem₀ target_addr orig_instructions
      aligned := fun j _ => by
        have := (haligned j).1
        omega
      loads := fun s e hg base hbase k hk y a hy ha =>
        generated_load mem₀ target_addr orig_instructions hg hbase hk hy ha
      branches := fun s e hg k hk t ht =>
        generated_branch mem₀ target_addr orig_instructions stops hg hk ht
      literals := h
      page := by
        have hlen : (thumbTrampoline mem₀ target_addr orig_instructions).length
            = blockStart mem₀ target_addr orig_instructions
                (prologueCount orig_instructions) + 4 := by
          rw [thumbTrampoline_eq, List.length_append, ldrPc_length, blockStart]
        have hcount : prologueCount orig_instructions ≤ 6 := by
          have hle := (wholeInsns_spec orig_instructions 6).1
          exact (insnStart_strictMono orig_instructions).le_apply.trans hle
        have := (haligned (prologueCount orig_instructions)).2
        omega }

end Trampoline

/-- `ITTT EQ`, a load of a literal and two additions, all three if equal, and two more
additions. -/
def itLoadPrologue : List Half := [0xBF02#16, 0x4801#16, 0x3001#16, 0x3101#16, 0x3201#16, 0x3301#16]

/-- The branch over the literal of the load is in the third slot of the block. -/
theorem not_thumbLayout_itLoad :
    ¬ ThumbLayout (fun _ => 0) 0x8000#32 (fun i => itLoadPrologue.getD i 0) (fun _ => false) := by
  intro h
  have hg := (avoids_trampoline _ _ _ _).mp h.literals
  exact absurd hg (by decide)

end Relocate
