import AndroidReverse.ArmItBlock
import AndroidReverse.Relocate

/-!
# Instructions that are copied

An instruction the Thumb relocator does not recognize is copied, and a 16-bit
one is followed by a `NOP` so that the next block is word-aligned. A `NOP` is
harmless between instructions that stand for themselves. Behind an `IT` it is
not: it takes up a slot of the block, and the instructions the slots were meant
for execute under the next condition, or under none.

A prologue of copied instructions therefore keeps its meaning exactly when
the added `NOP`s leave every instruction the condition it had (`verbatim_iff`),
whatever the instructions do. Without an `IT` they do.
-/

namespace Relocate

open Arm

/-! ## Copied instructions -/

/-- **An instruction that is copied**: the classifiers know nothing about it. -/
def Verbatim : ThumbInsn → Prop
  | .narrow w => getTypeInThumb16 w = .undefine
  | .wide high low => getTypeInThumb32 ((high.setWidth 32 <<< 16) ||| low.setWidth 32) = .undefine

instance : DecidablePred Verbatim
  | .narrow _ => inferInstanceAs (Decidable (_ = _))
  | .wide _ _ => inferInstanceAs (Decidable (_ = _))

/-- What a copied instruction becomes. -/
def pad : ThumbInsn → List ThumbInsn
  | .narrow w => [.narrow w, .nop]
  | .wide high low => [.wide high low]

/-- Its halfwords. -/
def padHalves : ThumbInsn → List Half
  | .narrow w => [w, 0xBF00#16]
  | .wide high low => [high, low]

theorem relocateInstructionInThumb16_verbatim (mem : Mem) (pc : Word) {w : Half}
    (h : Verbatim (.narrow w)) : relocateInstructionInThumb16 mem pc w = padHalves (.narrow w) := by
  have h' : getTypeInThumb16 w = .undefine := h
  unfold relocateInstructionInThumb16
  simp only [h']
  rfl

theorem relocateInstructionInThumb32_verbatim (mem : Mem) (pc : Word) {high low : Half}
    (h : Verbatim (.wide high low)) :
    relocateInstructionInThumb32 mem pc high low = padHalves (.wide high low) := by
  have h' : getTypeInThumb32 ((high.setWidth 32 <<< 16) ||| low.setWidth 32) = .undefine := h
  unfold relocateInstructionInThumb32
  simp only [h']
  rfl

/-! ## The slots of the copy -/

/-- The `IT` state of the copy is that of the prologue, some slots ahead. -/
def Ahead (it it' : ItState) : Prop := ∃ k, it' = itAdvance^[k] it

theorem Ahead.refl (it : ItState) : Ahead it it := ⟨0, rfl⟩

theorem Ahead.advance {it it' : ItState} (h : Ahead it it') :
    Ahead (itAdvance it) (itAdvance it') := by
  obtain ⟨k, rfl⟩ := h
  exact ⟨k, (Function.iterate_succ_apply' itAdvance k it).symm.trans
    (Function.iterate_succ_apply itAdvance k it)⟩

theorem Ahead.skip {it it' : ItState} (h : Ahead it it') : Ahead it (itAdvance it') := by
  obtain ⟨k, rfl⟩ := h
  exact ⟨k + 1, (Function.iterate_succ_apply' itAdvance k it).symm⟩

/-- Outside a block the copy is outside as well. -/
theorem Ahead.inItBlock {it it' : ItState} (h : Ahead it it') (hit : inItBlock it = false) :
    inItBlock it' = false := by
  obtain ⟨k, rfl⟩ := h
  induction k with
  | zero => exact hit
  | succ k ih =>
    rw [Function.iterate_succ_apply']
    by_contra hin
    have := inItBlock_of_itAdvance _ (Bool.not_eq_false _ ▸ hin)
    rw [ih] at this
    cases this

/-- The blocks of a prologue, one instruction at a time. -/
theorem flatMap_pad_cons (x : ThumbInsn) (xs : List ThumbInsn) :
    (x :: xs).flatMap pad = x :: xs.flatMap pad
      ∨ (x :: xs).flatMap pad = x :: .nop :: xs.flatMap pad := by
  cases x with
  | narrow w => exact Or.inr rfl
  | wide high low => exact Or.inl rfl

/-- The copy holds the same instructions. -/
theorem slots_pad_fst (xs : List ThumbInsn) (it it' : ItState) :
    (slots (xs.flatMap pad) it').map Prod.fst = (slots xs it).map Prod.fst := by
  induction xs generalizing it it' with
  | nil => rfl
  | cons x xs ih =>
    have hx : ∀ ys, (∀ it it', (slots ys it').map Prod.fst = (slots xs it).map Prod.fst) →
        (slots (x :: ys) it').map Prod.fst = (slots (x :: xs) it).map Prod.fst := by
      intro ys hys
      cases hb : x.itBits with
      | some b => rw [slots_it _ _ hb, slots_it _ _ hb, hys b b]
      | none =>
        by_cases hn : x = .nop
        · rw [hn, slots_nop, slots_nop, hys]
        · rw [slots_data _ _ hb hn, slots_data _ _ hb hn, List.map_cons, List.map_cons, hys]
    rcases flatMap_pad_cons x xs with h | h
    · rw [h]
      exact hx _ ih
    · rw [h]
      refine hx _ (fun it it' => ?_)
      rw [slots_nop]
      exact ih it _

/-- **The copy of a prologue whose `IT`s are predictable has predictable
`IT`s**: its slots are used up sooner. -/
theorem itDefined_pad {xs : List ThumbInsn} {it it' : ItState} (h : itDefined xs it = true)
    (ha : Ahead it it') : itDefined (xs.flatMap pad) it' = true := by
  induction xs generalizing it it' with
  | nil => rfl
  | cons x xs ih =>
    have hx : ∀ ys, (∀ it it', itDefined xs it = true → Ahead it it' → itDefined ys it' = true) →
        itDefined (x :: ys) it' = true := by
      intro ys hys
      cases hb : x.itBits with
      | some b =>
        rw [itDefined_it _ _ hb, Bool.and_eq_true, Bool.and_eq_true, Bool.not_eq_true',
          Bool.not_eq_true'] at h
        rw [itDefined_it _ _ hb, ha.inItBlock h.1.1, h.1.2, hys b b h.2 (.refl b)]
        rfl
      | none =>
        rw [itDefined_data _ _ hb] at h
        rw [itDefined_data _ _ hb]
        exact hys _ _ h ha.advance
    rcases flatMap_pad_cons x xs with h | h
    · rw [h]
      exact hx _ (fun it it' => ih)
    · rw [h]
      refine hx _ (fun it it' hd ha => ?_)
      rw [itDefined_data _ _ ThumbInsn.itBits_nop]
      exact ih hd ha.skip

/-- **A prologue without an `IT` keeps its slots.** -/
theorem slots_pad_of_forall_none {xs : List ThumbInsn} (h : ∀ x ∈ xs, x.itBits = none) :
    slots xs 0#8 = slots (xs.flatMap pad) 0#8 := by
  have hp : ∀ x ∈ xs.flatMap pad, x.itBits = none := by
    intro y hy
    obtain ⟨x, hx, hyx⟩ := List.mem_flatMap.mp hy
    cases x with
    | narrow w =>
      rcases List.mem_pair.mp hyx with rfl | rfl
      · exact h _ hx
      · exact ThumbInsn.itBits_nop
    | wide high low =>
      rw [List.mem_singleton.mp hyx]
      exact h _ hx
  rw [slots_of_forall_none h, slots_of_forall_none hp]
  have hfst := slots_pad_fst xs 0#8 0#8
  rw [slots_of_forall_none h, slots_of_forall_none hp, List.map_map, List.map_map] at hfst
  have hid : (Prod.fst ∘ fun x : ThumbInsn => (x, (none : Option (BitVec 4)))) = id := rfl
  rw [hid, List.map_id, List.map_id] at hfst
  rw [hfst]

/-! ## The trampoline -/

section Trampoline

variable {mem : Mem} {orig_instructions : ℕ → Half}

/-- The test of the loop for the first half of a 32-bit instruction. -/
theorem isThumb32_iff (w : Half) :
    (0x1D#16 ≤ w >>> 11 ∧ w >>> 11 ≤ 0x1F#16) ↔ isThumb32 w = true := by
  have hlt : (w >>> 11).toNat < 32 := by
    rw [BitVec.toNat_ushiftRight, Nat.shiftRight_eq_div_pow]
    have := w.isLt
    omega
  rw [isThumb32, decide_eq_true_iff, and_iff_left_iff_imp, BitVec.le_def]
  intro _
  exact Nat.lt_succ_iff.mp hlt

/-- Every instruction of a program is what its first halfword says. -/
theorem thumbProgram_pad {hs : List Half} {xs : List ThumbInsn} (h : thumbProgram hs = some xs) :
    thumbProgram (xs.flatMap padHalves) = some (xs.flatMap pad) := by
  induction hs using thumbProgram.induct generalizing xs with
  | case1 =>
    obtain rfl := Option.some.inj h
    rfl
  | case2 w hw => simp [thumbProgram, hw] at h
  | case3 w hw w' ws ih =>
    rw [thumbProgram_wide hw] at h
    obtain ⟨xs', hxs, rfl⟩ := Option.map_eq_some_iff.mp h
    show thumbProgram (w :: w' :: xs'.flatMap padHalves) = _
    rw [thumbProgram_wide hw, ih hxs]
    rfl
  | case4 w ws hw ih =>
    rw [Bool.not_eq_true] at hw
    rw [thumbProgram_narrow hw] at h
    obtain ⟨xs', hxs, rfl⟩ := Option.map_eq_some_iff.mp h
    show thumbProgram (w :: 0xBF00#16 :: xs'.flatMap padHalves) = _
    rw [thumbProgram_narrow hw, thumbProgram_narrow (by decide), ih hxs]
    rfl

/-- **The loop over copied instructions**: it copies them to the end. -/
theorem thumbLoop_verbatim (fuel left pos : ℕ) (hleft : 0 < left) (hfuel : left ≤ fuel)
    {xs : List ThumbInsn}
    (hxs : thumbProgram ((List.range' pos left).map orig_instructions) = some xs)
    (hv : ∀ x ∈ xs, Verbatim x) (pc : Word) (code : List Half) :
    thumbLoop (fun _ _ _ => ()) mem orig_instructions (pos + left) fuel pos pc code ()
      = (pos + left, code ++ xs.flatMap padHalves, ()) := by
  induction fuel generalizing left pos xs pc code with
  | zero => omega
  | succ fuel ih =>
    obtain ⟨left, rfl⟩ : ∃ k, left = k + 1 := ⟨left - 1, by omega⟩
    rw [List.range'_succ, List.map_cons] at hxs
    rw [thumbLoop]
    simp only [isThumb32_iff]
    by_cases hw : isThumb32 (orig_instructions pos) = true
    · cases left with
      | zero => simp [thumbProgram, hw] at hxs
      | succ left =>
        rw [List.range'_succ, List.map_cons, thumbProgram_wide hw] at hxs
        obtain ⟨xs', hxs', rfl⟩ := Option.map_eq_some_iff.mp hxs
        obtain ⟨hx, hv'⟩ := List.forall_mem_cons.mp hv
        rw [if_pos hw, if_neg (by omega), relocateInstructionInThumb32_verbatim mem pc hx]
        cases left with
        | zero =>
          obtain rfl := Option.some.inj hxs'
          rw [if_pos (by omega), List.flatMap_cons, List.flatMap_nil, List.append_nil]
        | succ left =>
          rw [if_neg (by omega), show pos + (left + 1 + 1 + 1) = pos + 2 + (left + 1) by omega,
            ih (left + 1) (pos + 2) (by omega) (by omega) hxs' hv', List.flatMap_cons,
            List.append_assoc]
    · rw [Bool.not_eq_true] at hw
      rw [thumbProgram_narrow hw] at hxs
      obtain ⟨xs', hxs', rfl⟩ := Option.map_eq_some_iff.mp hxs
      obtain ⟨hx, hv'⟩ := List.forall_mem_cons.mp hv
      rw [if_neg (by rw [hw]; exact Bool.false_ne_true),
        relocateInstructionInThumb16_verbatim mem pc hx]
      cases left with
      | zero =>
        obtain rfl := Option.some.inj hxs'
        rw [if_pos (by omega), List.flatMap_cons, List.flatMap_nil, List.append_nil]
      | succ left =>
        rw [if_neg (by omega), show pos + (left + 1 + 1) = pos + 1 + (left + 1) by omega,
          ih (left + 1) (pos + 1) (by omega) (by omega) hxs' hv', List.flatMap_cons,
          List.append_assoc]

end Trampoline

section Prologue

variable (mem₀ : Mem) (target_addr : Word) (orig_instructions : ℕ → Half)

/-- The prologue of a Thumb target, which is twelve bytes long. -/
def thumbPrologueHalves : List Half := (List.range' 0 6).map orig_instructions

/-- What `relocateInstructionInThumb` writes to the trampoline of a Thumb
target. -/
def thumbTrampoline : List Half :=
  (relocateInstructionInThumb (fun _ _ _ => ()) mem₀ target_addr orig_instructions 12 ()).1

/-- The trampoline up to its final jump, which is four halfwords long. -/
def thumbTrampolineBody : List Half :=
  (thumbTrampoline mem₀ target_addr orig_instructions).take
    ((thumbTrampoline mem₀ target_addr orig_instructions).length - 4)

/-- **The trampoline keeps the meaning of the prologue** `xs`: up to its final
jump it has the same effect on the registers, the flags and the memory. -/
def KeepsMeaning (xs : List ThumbInsn) : Prop :=
  ∃ ys, thumbProgram (thumbTrampolineBody mem₀ target_addr orig_instructions) = some ys
    ∧ SameEffect xs ys

variable {orig_instructions} {xs : List ThumbInsn}
  (hxs : thumbProgram (thumbPrologueHalves orig_instructions) = some xs)
  (hv : ∀ x ∈ xs, Verbatim x)

include hxs hv

/-- **The trampoline of copied instructions** is their copies and the jump to
the end of the prologue. -/
theorem thumbTrampoline_verbatim :
    thumbTrampoline mem₀ target_addr orig_instructions
      = xs.flatMap padHalves ++ ldrPc (target_addr + 12#32 + 1#32) := by
  have h : thumbLoop (fun _ _ _ => ()) mem₀ orig_instructions (12 / 2) (12 / 2 + 1) 0
      (target_addr + 4#32) [] () = (6, xs.flatMap padHalves, ()) :=
    thumbLoop_verbatim 7 6 0 (by omega) (by omega) hxs hv (target_addr + 4#32) []
  unfold thumbTrampoline relocateInstructionInThumb
  rw [h]
  rfl

theorem thumbTrampolineBody_verbatim :
    thumbTrampolineBody mem₀ target_addr orig_instructions = xs.flatMap padHalves := by
  unfold thumbTrampolineBody
  rw [thumbTrampoline_verbatim mem₀ target_addr hxs hv, List.length_append, ldrPc_length,
    Nat.add_sub_cancel, List.take_left']
  rfl

/-- **A prologue of copied instructions keeps its meaning exactly when the
`NOP`s leave every instruction the condition it had**, and the final jump goes
to its end. A prologue with an UNPREDICTABLE `IT` has no meaning to keep. -/
theorem verbatim_iff :
    thumbTrampoline mem₀ target_addr orig_instructions
        = thumbTrampolineBody mem₀ target_addr orig_instructions
          ++ ldrPc (target_addr + 12#32 + 1#32)
      ∧ (KeepsMeaning mem₀ target_addr orig_instructions xs
        ↔ (itDefined xs 0#8 = true → slots xs 0#8 = slots (xs.flatMap pad) 0#8)) := by
  have hbody := thumbTrampolineBody_verbatim mem₀ target_addr hxs hv
  refine ⟨by rw [hbody, thumbTrampoline_verbatim mem₀ target_addr hxs hv], ?_⟩
  have hkeeps : KeepsMeaning mem₀ target_addr orig_instructions xs
      ↔ SameEffect xs (xs.flatMap pad) := by
    rw [KeepsMeaning, hbody, thumbProgram_pad hxs]
    exact ⟨fun ⟨ys, hys, h⟩ => Option.some.inj hys ▸ h, fun h => ⟨_, rfl, h⟩⟩
  rw [hkeeps]
  by_cases hd : itDefined xs 0#8 = true
  · rw [sameEffect_iff hd (itDefined_pad hd (.refl _)) (slots_pad_fst xs _ _).symm]
    exact ⟨fun h _ => h, fun h => h hd⟩
  · refine ⟨fun _ h => absurd h hd, fun _ σ isa s t ht => ?_⟩
    exact absurd (isa.itDefined_of_run ht) hd

end Prologue

/-- `IT EQ; ADDEQ R0, #1` and four more additions. -/
def itPrologue : List Half := [0xBF08#16, 0x3001#16, 0x3101#16, 0x3201#16, 0x3301#16, 0x3401#16]

/-- A prologue without an `IT`: five additions behind a `NOP`. -/
theorem verbatim_iff_additions :
    thumbTrampoline (fun _ => 0) 0x8000#32 (fun i => (itPrologue.set 0 0xBF00#16).getD i 0)
        = thumbTrampolineBody (fun _ => 0) 0x8000#32
            (fun i => (itPrologue.set 0 0xBF00#16).getD i 0) ++ ldrPc (0x8000#32 + 12#32 + 1#32)
      ∧ (KeepsMeaning (fun _ => 0) 0x8000#32 (fun i => (itPrologue.set 0 0xBF00#16).getD i 0)
          ((itPrologue.set 0 0xBF00#16).map .narrow)
        ↔ (itDefined ((itPrologue.set 0 0xBF00#16).map .narrow) 0#8 = true →
          slots ((itPrologue.set 0 0xBF00#16).map .narrow) 0#8
            = slots (((itPrologue.set 0 0xBF00#16).map .narrow).flatMap pad) 0#8)) :=
  verbatim_iff _ _ (by decide) (by decide)

/-- **The `NOP` behind an `IT` takes the slot of the next instruction**: with
the zero flag clear the prologue leaves R0 alone, and the trampoline adds one
to it. -/
theorem verbatim_it_block :
    thumbProgram (thumbPrologueHalves (fun i => itPrologue.getD i 0))
        = some (itPrologue.map .narrow)
      ∧ (∀ x ∈ itPrologue.map .narrow, Verbatim x)
      ∧ ¬ KeepsMeaning (fun _ => 0) 0x8000#32 (fun i => itPrologue.getD i 0)
        (itPrologue.map .narrow) := by
  refine ⟨by decide, by decide, ?_⟩
  rintro ⟨ys, hys, h⟩
  let s : State := ⟨fun _ => 0, 0, true, ⟨false, false, false, false⟩, fun _ => 0⟩
  have hx : thumbProgram (thumbPrologueHalves (fun i => itPrologue.getD i 0))
      = some (itPrologue.map .narrow) := by decide
  rw [thumbTrampolineBody_verbatim _ _ hx (by decide), thumbProgram_pad hx] at hys
  obtain rfl := Option.some.inj hys
  obtain ⟨u, hu, heq⟩ := h State machineIsa s _ (machineIsa.run_eq (by decide) s)
  rw [machineIsa.run_eq (by decide) s] at hu
  obtain rfl := Option.some.inj hu
  exact absurd (congrArg (fun t : State => t.gpr 0#4) heq) (by decide)

end Relocate
