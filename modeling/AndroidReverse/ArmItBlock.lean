import AndroidReverse.ArmDecode

/-!
# IT blocks

A Thumb `IT` instruction makes up to four instructions behind it conditional.
Which condition an instruction executes under is not in its encoding but in
`ITSTATE`, which every instruction advances by one slot, so inserting an
instruction into a Thumb program changes what the instructions behind it mean.
This module says exactly when.

A program here is straight-line code: it neither reads the program counter nor
branches, and what its instructions do to the registers, the flags and the
memory is a parameter, a `DataIsa`. The architecture is one instance; what
holds of every instance holds whatever the instructions of a program are.

The effect of a program depends on its `slots` only – the instructions that do
something, each with the condition it executes under (`DataIsa.run_eq`) – and
two programs of the same instructions have the same effect under every
interpretation exactly when their slots agree (`sameEffect_iff`).
-/

namespace Arm

/-! ## Programs -/

/-- An instruction of a Thumb program, not decoded any further. -/
inductive ThumbInsn where
  /-- A 16-bit instruction. -/
  | narrow (w : Half)
  /-- A 32-bit instruction. -/
  | wide (high low : Half)
deriving DecidableEq, Repr

/-- The hint that does nothing. -/
def ThumbInsn.nop : ThumbInsn := .narrow 0xBF00#16

/-- **The instructions in a sequence of halfwords**; none if the last halfword
is the first half of an instruction. -/
def thumbProgram : List Half → Option (List ThumbInsn)
  | [] => some []
  | w :: ws =>
    if isThumb32 w then
      match ws with
      | [] => none
      | w' :: ws' => (thumbProgram ws').map (fun xs => .wide w w' :: xs)
    else (thumbProgram ws).map (fun xs => .narrow w :: xs)

theorem thumbProgram_narrow {w : Half} (hw : isThumb32 w = false) (ws : List Half) :
    thumbProgram (w :: ws) = (thumbProgram ws).map (fun xs => .narrow w :: xs) := by
  rw [thumbProgram.eq_def]
  simp only [hw, Bool.false_eq_true, if_false]

theorem thumbProgram_wide {w : Half} (hw : isThumb32 w = true) (w' : Half) (ws : List Half) :
    thumbProgram (w :: w' :: ws) = (thumbProgram ws).map (fun xs => .wide w w' :: xs) := by
  rw [thumbProgram, if_pos hw]

/-! ## ITSTATE -/

/-- `ITSTATE`: a condition in the high half, and in the low half what is left
of the block. -/
abbrev ItState := BitVec 8

/-- `InITBlock`. -/
def inItBlock (it : ItState) : Bool := it.extractLsb' 0 4 != 0#4

/-- The condition of the current slot; none outside a block. -/
def itCond (it : ItState) : Option (BitVec 4) :=
  if inItBlock it then some (it.extractLsb' 4 4) else none

/-- `ITAdvance`. -/
def itAdvance (it : ItState) : ItState :=
  if it.extractLsb' 0 3 = 0#3 then 0#8 else (it &&& 0xE0#8) ||| ((it <<< 1) &&& 0x1F#8)

/-- The `ITSTATE` that an `IT` instruction sets; none for every other
instruction. -/
def ThumbInsn.itBits : ThumbInsn → Option ItState
  | .narrow w =>
    if w.extractLsb' 8 8 = 0xBF#8 ∧ w.extractLsb' 0 4 ≠ 0#4 then some (w.extractLsb' 0 8) else none
  | .wide _ _ => none

@[simp] theorem ThumbInsn.itBits_nop : ThumbInsn.nop.itBits = none := by decide

/-- An `IT` with condition 1111, or with condition 1110 and more than one slot,
is UNPREDICTABLE. -/
def itUnpredictable (it : ItState) : Bool :=
  let mask := it.extractLsb' 0 4
  it.extractLsb' 4 4 == 0b1111#4
    || (it.extractLsb' 4 4 == 0b1110#4
      && !(mask == 1#4 || mask == 2#4 || mask == 4#4 || mask == 8#4))

/-- Advancing does not enter a block. -/
theorem inItBlock_of_itAdvance : ∀ it, inItBlock (itAdvance it) = true → inItBlock it = true := by
  decide

@[simp] theorem itAdvance_zero : itAdvance 0#8 = 0#8 := by decide

/-! ## Interpretations -/

/-- **An interpretation of the data instructions** over a state `σ` of
registers, flags and memory: when a condition passes, and what an instruction
does, which may depend on whether it is in an IT block. -/
structure DataIsa (σ : Type) where
  /-- `ConditionPassed`. -/
  passed : BitVec 4 → σ → Bool
  /-- The effect of an instruction, inside or outside an IT block. -/
  exec : ThumbInsn → Bool → σ → σ
  /-- `NOP` has none. -/
  nop : ∀ b s, exec .nop b s = s

namespace DataIsa

variable {σ : Type} (isa : DataIsa σ)

/-- Execute an instruction in a slot. -/
def perform (c : Option (BitVec 4)) (x : ThumbInsn) (s : σ) : σ :=
  match c with
  | none => isa.exec x false s
  | some c => if isa.passed c s then isa.exec x true s else s

/-- **One instruction**: an `IT` sets `ITSTATE`, and is UNPREDICTABLE in a
block; every other instruction executes in its slot and uses it up. -/
def step (s : ItState × σ) (x : ThumbInsn) : Option (ItState × σ) :=
  match x.itBits with
  | some it => if inItBlock s.1 || itUnpredictable it then none else some (it, s.2)
  | none => some (itAdvance s.1, isa.perform (itCond s.1) x s.2)

/-- **The run of a program.** -/
def run (xs : List ThumbInsn) (s : ItState × σ) : Option (ItState × σ) := xs.foldlM isa.step s

/-- The run of a list of instructions that know their slots. -/
def performAll (l : List (ThumbInsn × Option (BitVec 4))) (s : σ) : σ :=
  l.foldl (fun s x => isa.perform x.2 x.1 s) s

theorem perform_nop (c : Option (BitVec 4)) (s : σ) : isa.perform c .nop s = s := by
  cases c with
  | none => exact isa.nop false s
  | some c =>
    rw [perform, isa.nop]
    exact ite_self s

end DataIsa

/-! ## Slots -/

/-- **The slots of a program**: its instructions other than `IT` and `NOP`, each
with the condition it executes under. -/
def slots : List ThumbInsn → ItState → List (ThumbInsn × Option (BitVec 4))
  | [], _ => []
  | x :: xs, it =>
    match x.itBits with
    | some it' => slots xs it'
    | none =>
      if x = .nop then slots xs (itAdvance it) else (x, itCond it) :: slots xs (itAdvance it)

/-- Whether no `IT` of the program is UNPREDICTABLE. -/
def itDefined : List ThumbInsn → ItState → Bool
  | [], _ => true
  | x :: xs, it =>
    match x.itBits with
    | some it' => !inItBlock it && !itUnpredictable it' && itDefined xs it'
    | none => itDefined xs (itAdvance it)

/-- The `ITSTATE` a program ends with. -/
def itEnd : List ThumbInsn → ItState → ItState
  | [], it => it
  | x :: xs, it => itEnd xs (x.itBits.getD (itAdvance it))

section Cons

variable {x : ThumbInsn} {it' : ItState} (xs : List ThumbInsn) (it : ItState)

theorem slots_it (h : x.itBits = some it') : slots (x :: xs) it = slots xs it' := by
  rw [slots, h]

theorem slots_nop : slots (.nop :: xs) it = slots xs (itAdvance it) := by
  rw [slots, ThumbInsn.itBits_nop]
  exact if_pos rfl

theorem slots_data (h : x.itBits = none) (hn : x ≠ .nop) :
    slots (x :: xs) it = (x, itCond it) :: slots xs (itAdvance it) := by
  rw [slots, h]
  exact if_neg hn

theorem itDefined_it (h : x.itBits = some it') :
    itDefined (x :: xs) it = (!inItBlock it && !itUnpredictable it' && itDefined xs it') := by
  rw [itDefined, h]

theorem itDefined_data (h : x.itBits = none) :
    itDefined (x :: xs) it = itDefined xs (itAdvance it) := by
  rw [itDefined, h]

end Cons

/-- No slot holds a `NOP`. -/
theorem ne_nop_of_mem_slots {xs : List ThumbInsn} {it : ItState} :
    ∀ y ∈ slots xs it, y.1 ≠ ThumbInsn.nop := by
  induction xs generalizing it with
  | nil => exact List.forall_mem_nil _
  | cons x xs ih =>
    cases h : x.itBits with
    | some it' =>
      rw [slots_it xs it h]
      exact ih
    | none =>
      by_cases hn : x = .nop
      · rw [hn, slots_nop]
        exact ih
      · rw [slots_data xs it h hn]
        exact List.forall_mem_cons.mpr ⟨hn, ih⟩

namespace DataIsa

variable {σ : Type} (isa : DataIsa σ)

theorem run_cons (x : ThumbInsn) (xs : List ThumbInsn) (s : ItState × σ) :
    isa.run (x :: xs) s = (isa.step s x).bind (isa.run xs) :=
  List.foldlM_cons ..

theorem step_it {x : ThumbInsn} {it' : ItState} (h : x.itBits = some it') (s : ItState × σ) :
    isa.step s x = if inItBlock s.1 || itUnpredictable it' then none else some (it', s.2) := by
  rw [step, h]

theorem step_data {x : ThumbInsn} (h : x.itBits = none) (s : ItState × σ) :
    isa.step s x = some (itAdvance s.1, isa.perform (itCond s.1) x s.2) := by
  rw [step, h]

/-- **The run of a program is the run of its slots**, if no `IT` is
UNPREDICTABLE. -/
theorem run_eq {xs : List ThumbInsn} {it : ItState} (h : itDefined xs it = true) (s : σ) :
    isa.run xs (it, s) = some (itEnd xs it, isa.performAll (slots xs it) s) := by
  induction xs generalizing it s with
  | nil => rfl
  | cons x xs ih =>
    cases hx : x.itBits with
    | some it' =>
      rw [itDefined_it xs it hx, Bool.and_eq_true, Bool.and_eq_true, Bool.not_eq_true',
        Bool.not_eq_true'] at h
      rw [run_cons, step_it isa hx, if_neg (by rw [h.1.1, h.1.2]; exact Bool.false_ne_true),
        Option.bind_some, ih h.2 s, slots_it xs it hx, itEnd, hx, Option.getD_some]
    | none =>
      rw [itDefined_data xs it hx] at h
      rw [run_cons, step_data isa hx, Option.bind_some, ih h, itEnd, hx, Option.getD_none]
      by_cases hn : x = .nop
      · rw [hn, slots_nop, perform_nop]
      · rw [slots_data xs it hx hn]
        rfl

/-- A program that runs has no UNPREDICTABLE `IT`. -/
theorem itDefined_of_run {xs : List ThumbInsn} {it : ItState} {s : σ} {t : ItState × σ}
    (h : isa.run xs (it, s) = some t) : itDefined xs it = true := by
  induction xs generalizing it s with
  | nil => rfl
  | cons x xs ih =>
    rw [run_cons] at h
    cases hx : x.itBits with
    | some it' =>
      rw [step_it isa hx] at h
      by_cases hb : (inItBlock it || itUnpredictable it') = true
      · rw [if_pos hb] at h
        cases h
      · rw [if_neg hb] at h
        rw [Bool.not_eq_true, Bool.or_eq_false_iff] at hb
        rw [itDefined_it xs it hx, hb.1, hb.2, ih h]
        rfl
    | none =>
      rw [step_data isa hx] at h
      rw [itDefined_data xs it hx]
      exact ih h

end DataIsa

/-! ## Programs of the same instructions -/

/-- **Two programs have the same effect**, whatever their instructions mean:
entered outside an IT block, the second leaves the registers, the flags and the
memory as the first does. -/
def SameEffect (xs ys : List ThumbInsn) : Prop :=
  ∀ (σ : Type) (isa : DataIsa σ) (s : σ) (t : ItState × σ), isa.run xs (0#8, s) = some t →
    ∃ u, isa.run ys (0#8, s) = some u ∧ u.2 = t.2

/-- An interpretation that counts the instructions executed and lets every
condition pass, but for one condition after a given number of instructions. -/
def countIsa (n : ℕ) (bad : BitVec 4) : DataIsa ℕ where
  passed c k := !(k == n && c == bad)
  exec x _ k := if x = .nop then k else k + 1
  nop _ _ := if_pos rfl

section Count

variable {n k : ℕ} {bad : BitVec 4} {x : ThumbInsn}
  {l m : List (ThumbInsn × Option (BitVec 4))}

theorem countIsa_perform_le (c : Option (BitVec 4)) :
    (countIsa n bad).perform c x k ≤ k + 1 := by
  have h : (if x = .nop then k else k + 1) ≤ k + 1 := by split <;> omega
  cases c with
  | none => exact h
  | some c =>
    rw [DataIsa.perform]
    split
    · exact h
    · omega

theorem countIsa_le (l : List (ThumbInsn × Option (BitVec 4))) (k : ℕ) :
    (countIsa n bad).performAll l k ≤ k + l.length := by
  induction l generalizing k with
  | nil => exact Nat.le_refl k
  | cons y l ih =>
    have h : (countIsa n bad).perform y.2 y.1 k ≤ k + 1 := countIsa_perform_le y.2
    refine (ih _).trans ?_
    show (countIsa n bad).perform y.2 y.1 k + l.length ≤ k + (l.length + 1)
    omega

/-- A slot whose condition passes counts. -/
theorem countIsa_perform {c : Option (BitVec 4)} (hx : x ≠ .nop)
    (hc : ∀ b, c = some b → ¬ (k = n ∧ b = bad)) : (countIsa n bad).perform c x k = k + 1 := by
  cases c with
  | none => exact if_neg hx
  | some b =>
    have hp : (countIsa n bad).passed b k = true := by
      simp only [countIsa, Bool.not_eq_true', Bool.and_eq_false_iff, beq_eq_false_iff_ne]
      exact not_and_or.mp (hc b rfl)
    rw [DataIsa.perform, if_pos hp]
    exact if_neg hx

/-- Behind the given number every slot counts. -/
theorem countIsa_all (hl : ∀ y ∈ l, y.1 ≠ ThumbInsn.nop) (hk : n < k) :
    (countIsa n bad).performAll l k = k + l.length := by
  induction l generalizing k with
  | nil => rfl
  | cons y l ih =>
    obtain ⟨hy, hl⟩ := List.forall_mem_cons.mp hl
    show (countIsa n bad).performAll l ((countIsa n bad).perform y.2 y.1 k) = _
    rw [countIsa_perform hy (fun _ _ h => absurd h.1 (by omega)), ih hl (by omega),
      List.length_cons]
    omega

/-- A slot that does not pass costs an instruction. -/
theorem countIsa_lt {c c' : Option (BitVec 4)} (hx : x ≠ .nop)
    (hl : ∀ y ∈ l, y.1 ≠ ThumbInsn.nop) (hlm : l.length = m.length)
    (hc : ∀ b, c = some b → b ≠ bad) (hc' : c' = some bad) :
    (countIsa k bad).performAll ((x, c') :: m) k < (countIsa k bad).performAll ((x, c) :: l) k := by
  have hskip : (countIsa k bad).perform c' x k = k := by
    rw [hc']
    exact if_neg (by simp [countIsa])
  have hpass : (countIsa k bad).perform c x k = k + 1 :=
    countIsa_perform hx (fun b hb h => hc b hb h.2)
  show (countIsa k bad).performAll m ((countIsa k bad).perform c' x k)
    < (countIsa k bad).performAll l ((countIsa k bad).perform c x k)
  rw [hskip, hpass, countIsa_all hl (by omega)]
  have hle : (countIsa k bad).performAll m k ≤ k + m.length := countIsa_le m k
  omega

/-- **Different slots of the same instructions can be told apart** by the number
of instructions executed. -/
theorem exists_countIsa_ne (hl : ∀ y ∈ l, y.1 ≠ ThumbInsn.nop)
    (hm : ∀ y ∈ m, y.1 ≠ ThumbInsn.nop) (hfst : l.map Prod.fst = m.map Prod.fst) (hne : l ≠ m)
    (k : ℕ) :
    ∃ n bad, k ≤ n
      ∧ (countIsa n bad).performAll l k ≠ (countIsa n bad).performAll m k := by
  induction l generalizing m k with
  | nil =>
    cases m with
    | nil => exact absurd rfl hne
    | cons _ _ => cases hfst
  | cons y l ih =>
    cases m with
    | nil => cases hfst
    | cons z m =>
      obtain ⟨x, c⟩ := y
      obtain ⟨x', c'⟩ := z
      obtain ⟨rfl, htail⟩ : x = x' ∧ l.map Prod.fst = m.map Prod.fst := List.cons_eq_cons.mp hfst
      obtain ⟨hx, hl'⟩ := List.forall_mem_cons.mp hl
      obtain ⟨-, hm'⟩ := List.forall_mem_cons.mp hm
      have hlen : l.length = m.length := by
        have h := congrArg List.length htail
        rwa [List.length_map, List.length_map] at h
      by_cases hc : c = c'
      · -- the first slots agree: look behind them, one instruction later
        subst hc
        have hne' : l ≠ m := fun h => hne (by rw [h])
        obtain ⟨n, bad, hn, h⟩ := ih hl' hm' htail hne' (k + 1)
        refine ⟨n, bad, by omega, ?_⟩
        show (countIsa n bad).performAll l ((countIsa n bad).perform c x k)
          ≠ (countIsa n bad).performAll m ((countIsa n bad).perform c x k)
        rw [countIsa_perform hx (fun _ _ h => absurd h.1 (by omega))]
        exact h
      · cases c' with
        | some bad =>
          refine ⟨k, bad, Nat.le_refl k, (countIsa_lt hx hl' hlen ?_ rfl).ne'⟩
          rintro b rfl rfl
          exact hc rfl
        | none =>
          cases c with
          | none => exact absurd rfl hc
          | some bad =>
            exact ⟨k, bad, Nat.le_refl k,
              (countIsa_lt (c := none) hx hm' hlen.symm (fun b hb => by cases hb) rfl).ne⟩

end Count

/-- **Programs of the same instructions have the same effect under every
interpretation exactly when their slots agree.** -/
theorem sameEffect_iff {xs ys : List ThumbInsn} (hx : itDefined xs 0#8 = true)
    (hy : itDefined ys 0#8 = true)
    (hfst : (slots xs 0#8).map Prod.fst = (slots ys 0#8).map Prod.fst) :
    SameEffect xs ys ↔ slots xs 0#8 = slots ys 0#8 := by
  constructor
  · intro h
    by_contra hne
    obtain ⟨n, bad, -, hcount⟩ :=
      exists_countIsa_ne ne_nop_of_mem_slots ne_nop_of_mem_slots hfst hne 0
    obtain ⟨u, hu, heq⟩ := h ℕ (countIsa n bad) 0 _ ((countIsa n bad).run_eq hx 0)
    rw [(countIsa n bad).run_eq hy 0] at hu
    obtain rfl := Option.some.inj hu
    exact hcount heq.symm
  · intro h σ isa s t ht
    refine ⟨_, isa.run_eq hy s, ?_⟩
    rw [isa.run_eq hx s] at ht
    obtain rfl := Option.some.inj ht
    exact congrArg (fun l => isa.performAll l s) h.symm

/-- Without an `IT` every instruction executes outside a block. -/
theorem slots_of_forall_none {xs : List ThumbInsn} (h : ∀ x ∈ xs, x.itBits = none) :
    slots xs 0#8 = (xs.filter (fun x => x ≠ .nop)).map (fun x => (x, none)) := by
  induction xs with
  | nil => rfl
  | cons x xs ih =>
    obtain ⟨hx, hxs⟩ := List.forall_mem_cons.mp h
    by_cases hn : x = .nop
    · rw [hn, slots_nop, itAdvance_zero, ih hxs, List.filter_cons_of_neg (by simp)]
    · rw [slots_data xs _ hx hn, itAdvance_zero, ih hxs,
        List.filter_cons_of_pos (by simpa using hn)]
      rfl

/-! ## The machine as an interpretation -/

/-- A 16-bit data-processing instruction sets the flags outside IT blocks
only. -/
def Op.inIt : Op → Op
  | .addImm _ rd rn imm => .addImm false rd rn imm
  | .addReg _ rd rn rm ty imm5 => .addReg false rd rn rm ty imm5
  | .movReg _ rd rm ty imm5 => .movReg false rd rm ty imm5
  | op => op

/-- Execute a decoded instruction for its effect on the registers, the flags and
the memory; one that is not decoded, or UNPREDICTABLE, has none. -/
def Insn.effect (x : Option Insn) (s : State) : State :=
  match x with
  | none => s
  | some x => (x.exec s.pc s.pc s).getD s

/-- **The instructions of the library's decoder as an interpretation.** -/
def machineIsa : DataIsa State where
  passed c s := conditionPassed c s.flags
  exec x b s :=
    match x with
    | .narrow w =>
      Insn.effect ((decodeThumb16 w).map (fun y => if b then ⟨y.cond, y.op.inIt⟩ else y)) s
    | .wide high low => Insn.effect (decodeThumb32 (high ++ low)) s
  nop b s := by cases b <;> rfl

end Arm
