import AndroidReverse.ThumbStream
import Mathlib.Logic.Relation

/-!
# The flow of Thumb code

Where the execution of a piece of Thumb code can get to, read off the code alone. A point
of the code is a halfword and the `ITSTATE` it is reached with; from it the instruction
that begins there goes on to the next, branches by a constant, or leaves the code. The
flags are not known here, so an instruction of an IT block may be skipped whenever its
condition is not AL.

A jump that is skipped goes on to what stands behind it, which need not be an instruction.
Whether a set of halfwords is ever reached is `Avoids`, and `avoids_iff` reads it off one
point after the other.
-/

namespace Arm

/-! ## Points that are never reached -/

section Avoids

variable {α : Type} {step : α → α → Prop} {bad : α → Prop} {a b : α}

/-- **From a point no bad one is ever reached.** -/
def Avoids (step : α → α → Prop) (bad : α → Prop) (a : α) : Prop :=
  ∀ b, Relation.ReflTransGen step a b → ¬ bad b

/-- A point avoids what it is not itself, if all its successors avoid it. -/
theorem avoids_iff :
    Avoids step bad a ↔ ¬ bad a ∧ ∀ b, step a b → Avoids step bad b := by
  constructor
  · intro h
    exact ⟨h a .refl, fun b hab c hbc => h c (hbc.head hab)⟩
  · rintro ⟨ha, hsucc⟩ b hab
    rcases hab.cases_head with rfl | ⟨c, hac, hcb⟩
    · exact ha
    · exact hsucc c hac b hcb

theorem not_avoids_of_bad (h : bad a) : ¬ Avoids step bad a := fun ha => ha a .refl h

end Avoids

/-! ## Single instructions -/

/-- How an instruction goes on. -/
inductive Flow where
  /-- With the next instruction. -/
  | on
  /-- Elsewhere, outside the code. -/
  | away
  /-- By a branch, or with the next instruction if it is conditional. -/
  | branch (cond : Bool) (off : Word)
  /-- With the next instruction, and later at an address it puts in the link register. -/
  | link (imm : Word)
  /-- At a place it computes from its own. -/
  | computed
deriving DecidableEq

/-- A flow that names no place. -/
def Flow.isPlain : Flow → Bool
  | .branch _ _ => false
  | .link _ => false
  | _ => true

/-- The flow of a decoded instruction. -/
def Insn.flow (x : Insn) : Flow :=
  match x.op with
  | .b off => .branch (x.cond != always) off
  | .cb _ _ off => .branch true off
  | .bx _ => .away
  | .tb _ _ _ => .computed
  | .adr true rd imm => if rd = LR then .link imm else .on
  | .addReg _ rd rn _ _ _ => if rd = PC then (if rn = PC then .computed else .away) else .on
  | .movReg _ rd _ _ _ => if rd = PC then .away else .on
  | .ldrLit _ rt _ => if rt = PC then .away else .on
  | .ldr _ _ _ _ rt _ _ => if rt = PC then .away else .on
  | .pop regs => if regs.contains PC then .away else .on
  | _ => .on

/-- The decoded instruction. -/
def ThumbInsn.decode : ThumbInsn → Option Insn
  | .narrow w => decodeThumb16 w
  | .wide high low => decodeThumb32 (high ++ low)

/-- **The flow of an instruction.** Of the ones the decoder does not read, `stops` says
which never go on; `IT` is not one of them. -/
def ThumbInsn.flow (stops : ThumbInsn → Bool) (x : ThumbInsn) : Flow :=
  match x.decode with
  | some y => y.flow
  | none => if stops x && x.itBits.isNone then .away else .on

/-- The `ITSTATE` behind an instruction. -/
def ThumbInsn.itNext (x : ThumbInsn) (it : ItState) : ItState := x.itBits.getD (itAdvance it)

/-- Whether an instruction may be skipped, or is a jump in a place where a jump is
UNPREDICTABLE: it is in an IT block, and not in its last slot under AL. -/
def mayFall (it : ItState) : Bool := inItBlock it && !(it == 0xE8#8)

/-- Whether an instruction may go on with the next. -/
def Flow.goesOn (it : ItState) : Flow → Bool
  | .away => mayFall it
  | .branch cond _ => cond || mayFall it
  | _ => true

/-- The bytes of a word-aligned code at which an instruction at halfword `k` of it goes on
otherwise: where it branches to, and where a call returns to. -/
def Flow.targets (k : ℕ) : Flow → List ℤ
  | .branch _ off => [2 * k + 4 + off.toInt]
  | .link imm => [((2 * k + 4) / 4 * 4 : ℕ) + imm.toNat - 1]
  | _ => []

/-- The places move with the code. -/
theorem Flow.targets_add (f : Flow) {s : ℕ} (hs : s % 2 = 0) (o : ℕ) :
    f.targets (s + o) = (f.targets o).map (fun t => 2 * (s : ℤ) + t) := by
  cases f with
  | branch cond off =>
    rw [Flow.targets, Flow.targets, List.map_singleton]
    refine congrArg (fun t => [t]) ?_
    omega
  | link imm =>
    rw [Flow.targets, Flow.targets, List.map_singleton]
    refine congrArg (fun t => [t]) ?_
    omega
  | _ => rfl

/-- The `ITSTATE` there: a call returns outside of a block. -/
def Flow.itTarget (it : ItState) : Flow → ItState
  | .link _ => 0#8
  | _ => itAdvance it

/-! ## The flow of a code -/

section Code

variable (stops : ThumbInsn → Bool) (ws : ℕ → Half)

/-- **One step through a code**, from a halfword and an `ITSTATE`. -/
def FlowStep (s t : ℕ × ItState) : Prop :=
  let x := insnAt ws s.1
  let f := x.flow stops
  (f.goesOn s.2 = true ∧ t = (s.1 + x.halves, x.itNext s.2))
    ∨ (2 * (t.1 : ℤ) ∈ f.targets s.1 ∧ t.2 = f.itTarget s.2)
    ∨ f = .computed

variable {stops ws} {bad : ℕ × ItState → Prop} {x : ThumbInsn} {k d : ℕ} {it : ItState}

/-- An instruction that goes on. -/
theorem avoids_on (hx : insnAt ws k = x) (hf : x.flow stops = .on) :
    Avoids (FlowStep stops ws) bad (k, it)
      ↔ ¬ bad (k, it) ∧ Avoids (FlowStep stops ws) bad (k + x.halves, x.itNext it) := by
  rw [avoids_iff]
  refine and_congr_right fun _ => ⟨fun h => h _ (Or.inl ?_), fun h t ht => ?_⟩
  · simp only [hx, hf, Flow.goesOn, and_self]
  · simp only [FlowStep, hx, hf, Flow.goesOn, Flow.targets, List.not_mem_nil, false_and, true_and,
      reduceCtorEq, or_false] at ht
    rw [ht]
    exact h

/-- A jump out of the code. -/
theorem avoids_away (hx : insnAt ws k = x) (hf : x.flow stops = .away) :
    Avoids (FlowStep stops ws) bad (k, it)
      ↔ ¬ bad (k, it)
        ∧ (mayFall it = true → Avoids (FlowStep stops ws) bad (k + x.halves, x.itNext it)) := by
  rw [avoids_iff]
  refine and_congr_right fun _ => ⟨fun h hm => h _ (Or.inl ?_), fun h t ht => ?_⟩
  · simp only [hx, hf, Flow.goesOn, hm, and_self]
  · simp only [FlowStep, hx, hf, Flow.goesOn, Flow.targets, List.not_mem_nil, false_and,
      reduceCtorEq, or_false] at ht
    rw [ht.2]
    exact h ht.1

/-- Either of them. -/
theorem avoids_plain (hx : insnAt ws k = x) (hp : (x.flow stops).isPlain = true)
    (hc : x.flow stops ≠ .computed) :
    Avoids (FlowStep stops ws) bad (k, it)
      ↔ ¬ bad (k, it) ∧ ((x.flow stops).goesOn it = true
        → Avoids (FlowStep stops ws) bad (k + x.halves, x.itNext it)) := by
  cases hf : x.flow stops with
  | on =>
    have hgo : Flow.on.goesOn it = true := rfl
    rw [avoids_on hx hf, forall_prop_of_true hgo]
  | away => exact avoids_away hx hf
  | branch cond off =>
    rw [hf] at hp
    cases hp
  | link imm =>
    rw [hf] at hp
    cases hp
  | computed => exact absurd hf hc

/-- A branch over `d` halfwords, counted from where the program counter reads. -/
theorem avoids_branch {cond : Bool} {off : Word} (hx : insnAt ws k = x)
    (hf : x.flow stops = .branch cond off) (hoff : off.toInt = 2 * (d : ℤ)) :
    Avoids (FlowStep stops ws) bad (k, it)
      ↔ ¬ bad (k, it)
        ∧ ((cond || mayFall it) = true
          → Avoids (FlowStep stops ws) bad (k + x.halves, x.itNext it))
        ∧ Avoids (FlowStep stops ws) bad (k + 2 + d, itAdvance it) := by
  rw [avoids_iff]
  refine and_congr_right fun _ => ⟨fun h => ⟨fun hm => h _ (Or.inl ?_), h _ (Or.inr (Or.inl ?_))⟩,
    fun h t ht => ?_⟩
  · simp only [hx, hf, Flow.goesOn, hm, and_self]
  · simp only [hx, hf, Flow.targets, Flow.itTarget, List.mem_singleton, and_true]
    omega
  · simp only [FlowStep, hx, hf, Flow.goesOn, Flow.targets, Flow.itTarget, List.mem_singleton,
      reduceCtorEq, or_false] at ht
    rcases ht with ⟨hm, rfl⟩ | ⟨htgt, hit⟩
    · exact h.1 hm
    · have hk : t = (k + 2 + d, itAdvance it) := Prod.ext (by dsimp only; omega) hit
      rw [hk]
      exact h.2

/-- An instruction that links `d` halfwords on, counted from where the aligned program
counter reads. -/
theorem avoids_link {imm : Word} (hx : insnAt ws k = x) (hf : x.flow stops = .link imm)
    (hk : k % 2 = 0) (himm : imm.toNat = 2 * d + 1) :
    Avoids (FlowStep stops ws) bad (k, it)
      ↔ ¬ bad (k, it) ∧ Avoids (FlowStep stops ws) bad (k + x.halves, x.itNext it)
        ∧ Avoids (FlowStep stops ws) bad (k + 2 + d, 0#8) := by
  rw [avoids_iff]
  refine and_congr_right fun _ => ⟨fun h => ⟨h _ (Or.inl ?_), h _ (Or.inr (Or.inl ?_))⟩,
    fun h t ht => ?_⟩
  · simp only [hx, hf, Flow.goesOn, and_self]
  · simp only [hx, hf, Flow.targets, Flow.itTarget, List.mem_singleton, and_true]
    omega
  · simp only [FlowStep, hx, hf, Flow.goesOn, Flow.targets, Flow.itTarget, List.mem_singleton,
      true_and, reduceCtorEq, or_false] at ht
    rcases ht with rfl | ⟨htgt, hit⟩
    · exact h.1
    · have hk' : t = (k + 2 + d, 0#8) := Prod.ext (by dsimp only; omega) hit
      rw [hk']
      exact h.2

/-- A jump to a computed place may go anywhere. -/
theorem not_avoids_computed (hx : insnAt ws k = x) (hf : x.flow stops = .computed)
    {t : ℕ × ItState} (ht : bad t) : ¬ Avoids (FlowStep stops ws) bad (k, it) := by
  intro h
  refine h t (.single ?_) ht
  simp only [FlowStep, hx, hf, or_true]

end Code

/-! ## Code that is known -/

/-- The halfwords of an instruction. -/
def ThumbInsn.toHalves : ThumbInsn → List Half
  | .narrow w => [w]
  | .wide high low => [high, low]

/-- Whether the first halfword says how long the instruction is. -/
def ThumbInsn.wellFormed : ThumbInsn → Bool
  | .narrow w => !isThumb32 w
  | .wide high _ => isThumb32 high

/-- **A stream holds given instructions** from a halfword on. -/
def HoldsCode (ws : ℕ → Half) : ℕ → List ThumbInsn → Prop
  | _, [] => True
  | k, x :: xs => insnAt ws k = x ∧ HoldsCode ws (k + x.halves) xs

/-- The instructions of a list, each with the halfword it begins at. -/
def placed : ℕ → List ThumbInsn → List (ℕ × ThumbInsn)
  | _, [] => []
  | o, x :: xs => (o, x) :: placed (o + x.halves) xs

/-- The number of halfwords of a list of instructions. -/
def codeHalves (xs : List ThumbInsn) : ℕ := (xs.map ThumbInsn.halves).sum

/-- An instruction begins at `k`, decoding from `s` on, before `e`. -/
def BeginsIn (ws : ℕ → Half) (s e k : ℕ) : Prop :=
  ∃ n, k = s + insnStart (fun i => ws (s + i)) n ∧ k < e

theorem ThumbInsn.length_toHalves (x : ThumbInsn) : x.toHalves.length = x.halves := by
  cases x <;> rfl

theorem length_flatMap_toHalves (xs : List ThumbInsn) :
    (xs.flatMap ThumbInsn.toHalves).length = codeHalves xs := by
  induction xs with
  | nil => rfl
  | cons x xs ih =>
    rw [List.flatMap_cons, List.length_append, ih, x.length_toHalves, codeHalves, codeHalves,
      List.map_cons, List.sum_cons]

/-- The halfwords of well-formed instructions decode to them. -/
theorem holdsCode_of_halves {ws : ℕ → Half} {k : ℕ} {xs : List ThumbInsn} {rest : List Half}
    (hwf : ∀ x ∈ xs, x.wellFormed = true)
    (h : ∀ i w, (xs.flatMap ThumbInsn.toHalves ++ rest)[i]? = some w → ws (k + i) = w) :
    HoldsCode ws k xs := by
  induction xs generalizing k with
  | nil => trivial
  | cons x xs ih =>
    obtain ⟨hx, hxs⟩ := List.forall_mem_cons.mp hwf
    rw [List.flatMap_cons, List.append_assoc] at h
    refine ⟨?_, ih hxs fun i w hi => ?_⟩
    · cases x with
      | narrow w =>
        have h0 : ws k = w := h 0 w rfl
        have hw : isThumb32 (ws k) = false := by
          rw [h0]
          exact Bool.not_eq_true' _ ▸ hx
        rw [insnAt_narrow hw, h0]
      | wide high low =>
        have h0 : ws k = high := h 0 high rfl
        have h1 : ws (k + 1) = low := h 1 low rfl
        rw [insnAt_wide (by rw [h0]; exact hx), h0, h1]
    · rw [Nat.add_assoc]
      refine h (x.halves + i) w ?_
      rw [← x.length_toHalves, List.getElem?_append_right (Nat.le_add_right _ _),
        Nat.add_sub_cancel_left]
      exact hi

/-- The starts of a stream, counted from the second instruction on. -/
theorem insnStart_shift (ws : ℕ → Half) (s n : ℕ) :
    insnStart (fun i => ws (s + i)) (n + 1) = (insnAt ws s).halves
      + insnStart (fun i => ws (s + (insnAt ws s).halves + i)) n := by
  induction n with
  | zero => exact Nat.zero_add _
  | succ n ih =>
    have hat : ∀ a k, insnAt (fun i => ws (a + i)) k = insnAt ws (a + k) := fun a k => rfl
    rw [insnStart_succ, ih, insnStart_succ, hat, hat, Nat.add_assoc, Nat.add_assoc]

/-- **The instructions found by decoding are the ones the code holds.** -/
theorem HoldsCode.mem_placed {ws : ℕ → Half} {s k : ℕ} {xs : List ThumbInsn}
    (h : HoldsCode ws s xs) (hk : BeginsIn ws s (s + codeHalves xs) k) :
    ∃ p ∈ placed 0 xs, k = s + p.1 ∧ insnAt ws k = p.2 := by
  have hgen : ∀ (xs : List ThumbInsn) (n s o : ℕ), HoldsCode ws s xs →
      insnStart (fun i => ws (s + i)) n < codeHalves xs →
      ∃ p ∈ placed o xs, o + insnStart (fun i => ws (s + i)) n = p.1
        ∧ insnAt ws (s + insnStart (fun i => ws (s + i)) n) = p.2 := by
    intro xs
    induction xs with
    | nil => exact fun n s o _ hn => absurd hn (Nat.not_lt_zero _)
    | cons x xs ih =>
      rintro n s o ⟨hx, hxs⟩ hn
      cases n with
      | zero => exact ⟨(o, x), List.mem_cons_self, rfl, hx⟩
      | succ n =>
        rw [insnStart_shift, hx] at hn ⊢
        have hlt : insnStart (fun i => ws (s + x.halves + i)) n < codeHalves xs := by
          rw [codeHalves, List.map_cons, List.sum_cons] at hn
          exact Nat.lt_of_add_lt_add_left hn
        obtain ⟨p, hp, ho, hi⟩ := ih n (s + x.halves) (o + x.halves) hxs hlt
        refine ⟨p, List.mem_cons_of_mem _ hp, by rw [← ho, Nat.add_assoc], ?_⟩
        rw [← Nat.add_assoc]
        exact hi
  obtain ⟨n, rfl, hlt⟩ := hk
  obtain ⟨p, hp, ho, hi⟩ := hgen xs n s 0 h (Nat.lt_of_add_lt_add_left hlt)
  exact ⟨p, hp, by rw [← ho, Nat.zero_add], hi⟩

/-- An instruction the code holds is found by decoding. -/
theorem HoldsCode.beginsIn {ws : ℕ → Half} {s : ℕ} {xs : List ThumbInsn} (h : HoldsCode ws s xs)
    {p : ℕ × ThumbInsn} (hp : p ∈ placed 0 xs) : BeginsIn ws s (s + codeHalves xs) (s + p.1) := by
  have hgen : ∀ (xs : List ThumbInsn) (s o : ℕ), HoldsCode ws s xs → p ∈ placed o xs →
      ∃ n, p.1 = o + insnStart (fun i => ws (s + i)) n
        ∧ insnStart (fun i => ws (s + i)) n < codeHalves xs := by
    intro xs
    induction xs with
    | nil => exact fun s o _ hp => absurd hp List.not_mem_nil
    | cons x xs ih =>
      rintro s o ⟨hx, hxs⟩ hp
      rw [codeHalves, List.map_cons, List.sum_cons]
      rcases List.mem_cons.mp hp with rfl | hp
      · exact ⟨0, rfl, Nat.lt_add_right _ x.halves_pos⟩
      · obtain ⟨n, hn, hlt⟩ := ih (s + x.halves) (o + x.halves) hxs hp
        refine ⟨n + 1, ?_, ?_⟩ <;> rw [insnStart_shift, hx]
        · rw [hn, Nat.add_assoc]
        · exact Nat.add_lt_add_left hlt _
  obtain ⟨n, hn, hlt⟩ := hgen xs s 0 h hp
  exact ⟨n, by rw [hn, Nat.zero_add], by omega⟩

/-- Which flow an instruction has that the decoder reads. -/
theorem ThumbInsn.flow_of_decode (stops : ThumbInsn → Bool) {x : ThumbInsn} {y : Insn}
    (h : x.decode = some y) : x.flow stops = y.flow := by
  rw [ThumbInsn.flow, h]

/-! ## Straight code -/

/-- The flows of decoded instructions. -/
def flows (xs : List ThumbInsn) : List (Option Flow) := xs.map fun x => x.decode.map Insn.flow

section Straight

variable {stops : ThumbInsn → Bool} {ws : ℕ → Half} {bad : ℕ × ItState → Prop} {x : ThumbInsn}
  {xs : List ThumbInsn} {k : ℕ} {it : ItState}

theorem flow_of_flows (stops : ThumbInsn → Bool) {f : Flow} {fs : List (Option Flow)}
    (h : flows (x :: xs) = some f :: fs) : x.flow stops = f ∧ flows xs = fs := by
  obtain ⟨hx, hxs⟩ := List.cons.inj h
  obtain ⟨y, hy, rfl⟩ := Option.map_eq_some_iff.mp hx
  exact ⟨x.flow_of_decode stops hy, hxs⟩

/-- `IT` is not an instruction that the decoder reads. -/
theorem itBits_of_decodeThumb16 {w : Half} {y : Insn} (h : decodeThumb16 w = some y) :
    (ThumbInsn.narrow w).itBits = none := by
  rw [ThumbInsn.itBits, if_neg]
  rintro ⟨hhigh, hlow⟩
  have hit := mask_of_extract 8 8 hhigh
  obtain ⟨r, hr, hm, he, rfl⟩ := exists_row h
  simp only [thumb16Rows, thumbRow, thumbCondRow, List.mem_cons, List.not_mem_nil, or_false] at hr
  rcases hr with rfl | rfl | rfl | rfl | rfl | rfl | rfl | rfl | rfl | rfl | rfl | rfl | rfl | rfl
    | rfl | rfl | rfl | rfl | rfl | rfl | rfl
  case inr.inr.inr.inr.inr.inr.inr.inr.inr.inr.inr.inr.inr.inl =>
    refine hlow ?_
    have hw : w = 0xBF00#16 := BitVec.and_allOnes.symm.trans hm
    rw [hw]
    rfl
  all_goals exact mask_conflict hm (by decide) hit

theorem itNext_of_flows {f : Flow} {fs : List (Option Flow)} (h : flows (x :: xs) = some f :: fs)
    (it : ItState) : x.itNext it = itAdvance it := by
  obtain ⟨y, hy, -⟩ := Option.map_eq_some_iff.mp (List.cons.inj h).1
  cases x with
  | narrow w =>
    rw [ThumbInsn.itNext, itBits_of_decodeThumb16 hy]
    rfl
  | wide high low => rfl

theorem holdsCode_append {xs ys : List ThumbInsn} :
    HoldsCode ws k (xs ++ ys) ↔ HoldsCode ws k xs ∧ HoldsCode ws (k + codeHalves xs) ys := by
  induction xs generalizing k with
  | nil => exact (and_iff_right trivial).symm
  | cons x xs ih =>
    rw [List.cons_append, HoldsCode, HoldsCode, ih, and_assoc, Nat.add_assoc]
    rfl

/-- **Straight code** is passed from its first halfword to its end. -/
theorem avoids_straight (hc : HoldsCode ws k xs)
    (hf : flows xs = List.replicate xs.length (some .on))
    (hok : ∀ i it, i < codeHalves xs → ¬ bad (k + i, it)) :
    Avoids (FlowStep stops ws) bad (k, it)
      ↔ Avoids (FlowStep stops ws) bad (k + codeHalves xs, itAdvance^[xs.length] it) := by
  induction xs generalizing k it with
  | nil => rfl
  | cons x xs ih =>
    obtain ⟨hx, hxs⟩ := hc
    have hsum : codeHalves (x :: xs) = x.halves + codeHalves xs := rfl
    have hflow := flow_of_flows stops hf
    have hrest : ∀ i it, i < codeHalves xs → ¬ bad (k + x.halves + i, it) := by
      intro i it hi
      rw [Nat.add_assoc]
      exact hok _ it (by omega)
    have hk : ¬ bad (k, it) := hok 0 it (by rw [hsum]; exact Nat.add_pos_left x.halves_pos _)
    rw [avoids_on hx hflow.1, and_iff_right hk, itNext_of_flows hf, ih hxs hflow.2 hrest, hsum,
      Nat.add_assoc]
    rfl

end Straight

end Arm
