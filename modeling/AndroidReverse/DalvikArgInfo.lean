import AndroidReverse.CheckedRead
import AndroidReverse.DalvikParamTypes
import Mathlib.Data.BitVec
import Mathlib.Data.List.GetD
import Mathlib.Tactic.IntervalCases

/-!
# The argument information of a native method

`dvmComputeJniArgInfo` packs in one word what a call bridge has to know of the arguments of a
method: the type it returns, how many pairs of words go to the stack behind the first two, and
for each of the first words whether it only pads, as an argument of two words begins at an even
one. What is too large for that is marked as such. `argInfo_iff` says that the word is right for
every method, unless its arguments have so many words that their number is not an `int`.
-/

namespace DalvikHook

/-! ## The code -/

/-- `DALVIK_JNI_NO_ARG_INFO`. -/
def DALVIK_JNI_NO_ARG_INFO : BitVec 32 := 0x80000000#32

/-- `DALVIK_JNI_RETURN_MASK`. -/
def DALVIK_JNI_RETURN_MASK : BitVec 32 := 0x70000000#32

/-- `DALVIK_JNI_RETURN_SHIFT`. -/
def DALVIK_JNI_RETURN_SHIFT : ℕ := 28

/-- `DALVIK_JNI_COUNT_MASK`. -/
def DALVIK_JNI_COUNT_MASK : BitVec 32 := 0x0F000000#32

/-- `DALVIK_JNI_COUNT_SHIFT`. -/
def DALVIK_JNI_COUNT_SHIFT : ℕ := 24

/-- `DalvikJniReturnType`. -/
inductive DalvikJniReturnType where
  | DALVIK_JNI_RETURN_VOID | DALVIK_JNI_RETURN_FLOAT | DALVIK_JNI_RETURN_DOUBLE
  | DALVIK_JNI_RETURN_S8 | DALVIK_JNI_RETURN_S4 | DALVIK_JNI_RETURN_S2 | DALVIK_JNI_RETURN_U2
  | DALVIK_JNI_RETURN_S1
deriving DecidableEq

open DalvikJniReturnType

/-- The number of an enumerator, in the order of the declaration. -/
def DalvikJniReturnType.toNat : DalvikJniReturnType → ℕ
  | DALVIK_JNI_RETURN_VOID => 0
  | DALVIK_JNI_RETURN_FLOAT => 1
  | DALVIK_JNI_RETURN_DOUBLE => 2
  | DALVIK_JNI_RETURN_S8 => 3
  | DALVIK_JNI_RETURN_S4 => 4
  | DALVIK_JNI_RETURN_S2 => 5
  | DALVIK_JNI_RETURN_U2 => 6
  | DALVIK_JNI_RETURN_S1 => 7

/-- Where the code has no result. -/
inductive Stop where
  /-- An `int` overflows. -/
  | overflow
  /-- An `assert` fails. -/
  | assertion
  /-- The string is read behind its end. -/
  | outOfBounds
deriving DecidableEq

/-- A number is added to an `int` that is not negative. -/
def addInt (n : ℤ) (m : ℕ) : Except Stop ℤ :=
  if n + m < 2 ^ 31 then .ok (n + m) else .error .overflow

/-- `assert`. -/
def assert (p : Prop) [Decidable p] : Except Stop Unit :=
  if p then .ok () else .error .assertion

/-- The variables of the loop. -/
structure Hints where
  stackOffset : ℤ
  padFlags : BitVec 32
  padMask : BitVec 32

/-- The body of the loop. -/
def Hints.step (v : Hints) (sigByte : Char8) : Except Stop Hints :=
  if sigByte = chr 'D' ∨ sigByte = chr 'J' then do
    let v ←
      if v.stackOffset % 2 ≠ 0 then do
        let stackOffset ← addInt v.stackOffset 1
        pure ⟨stackOffset, v.padFlags ||| v.padMask, v.padMask <<< 1⟩
      else pure v
    let stackOffset ← addInt v.stackOffset 2
    pure ⟨stackOffset, v.padFlags, v.padMask <<< 2⟩
  else do
    let stackOffset ← addInt v.stackOffset 1
    pure ⟨stackOffset, v.padFlags, v.padMask <<< 1⟩

/-- `dvmPlatformInvokeHints`, where `shorty` is what stands in front of the end of the string. -/
def dvmPlatformInvokeHints (shorty : List Char8) : Except Stop (BitVec 32) :=
  match shorty with
  | [] => .error .outOfBounds
  | _ :: sig => do
    let v ← sig.foldlM Hints.step ⟨0, 0#32, 1#32⟩
    if v.stackOffset > DALVIK_JNI_COUNT_SHIFT then pure DALVIK_JNI_NO_ARG_INFO
    else do
      assert (v.padFlags &&& (0xFFFFFFFF#32 <<< DALVIK_JNI_COUNT_SHIFT) = 0#32)
      let stackOffset := v.stackOffset - 2
      let stackOffset := if stackOffset < 0 then 0 else stackOffset
      let jniHints := 0#32 ||| (BitVec.ofInt 32 ((stackOffset + 1) / 2) <<< DALVIK_JNI_COUNT_SHIFT)
      pure (jniHints ||| v.padFlags)

/-- The `switch` over the first character. -/
def returnType (c : Char8) : DalvikJniReturnType :=
  if c = chr 'V' then DALVIK_JNI_RETURN_VOID
  else if c = chr 'F' then DALVIK_JNI_RETURN_FLOAT
  else if c = chr 'D' then DALVIK_JNI_RETURN_DOUBLE
  else if c = chr 'J' then DALVIK_JNI_RETURN_S8
  else if c = chr 'Z' ∨ c = chr 'B' then DALVIK_JNI_RETURN_S1
  else if c = chr 'C' then DALVIK_JNI_RETURN_U2
  else if c = chr 'S' then DALVIK_JNI_RETURN_S2
  else DALVIK_JNI_RETURN_S4

/-- `dvmComputeJniArgInfo`. -/
def dvmComputeJniArgInfo (shorty : List Char8) : Except Stop (BitVec 32) := do
  -- of an empty string the first character is its end
  let jniArgInfo :=
    BitVec.ofNat 32 (returnType (shorty.headD 0#8)).toNat <<< DALVIK_JNI_RETURN_SHIFT
  let hints ← dvmPlatformInvokeHints shorty
  if hints &&& DALVIK_JNI_NO_ARG_INFO ≠ 0#32 then pure (jniArgInfo ||| DALVIK_JNI_NO_ARG_INFO)
  else do
    assert (hints &&& DALVIK_JNI_RETURN_MASK = 0#32)
    pure (jniArgInfo ||| hints)

/-! ## What it is for -/

/-- The words of some arguments and of one more: whether each of them only pads. -/
def addArg (ws : List Bool) (c : Char8) : List Bool :=
  if c = chr 'D' ∨ c = chr 'J' then
    (if ws.length % 2 = 1 then ws ++ [true] else ws) ++ [false, false]
  else ws ++ [false]

/-- **The words of the arguments.** -/
def argWords (args : List Char8) : List Bool := args.foldl addArg []

/-- **The argument information of a method**: the type it returns; nothing else but that there
is no more information where the arguments have more than 24 words; otherwise half the number
of the words behind the first two, rounded up, and the words that pad. -/
structure Encodes (ret : Char8) (args : List Char8) (info : BitVec 32) : Prop where
  return_eq : info &&& DALVIK_JNI_RETURN_MASK
    = BitVec.ofNat 32 (returnType ret).toNat <<< DALVIK_JNI_RETURN_SHIFT
  large : 24 < (argWords args).length →
    info &&& ~~~DALVIK_JNI_RETURN_MASK = DALVIK_JNI_NO_ARG_INFO
  small : (argWords args).length ≤ 24 → info &&& DALVIK_JNI_NO_ARG_INFO = 0#32
  count_eq : (argWords args).length ≤ 24 → info &&& DALVIK_JNI_COUNT_MASK
    = BitVec.ofNat 32 (((argWords args).length - 2 + 1) / 2) <<< DALVIK_JNI_COUNT_SHIFT
  pads : (argWords args).length ≤ 24 →
    ∀ k < 24, info.getLsbD k = true ↔ (argWords args)[k]? = some true

/-! ## The loop -/

section Loop

variable {ws : List Bool} {v : Hints} {c : Char8}

/-- **The variables after some words.** -/
structure Represents (ws : List Bool) (v : Hints) : Prop where
  stackOffset : v.stackOffset = ws.length
  padMask : v.padMask = 1#32 <<< ws.length
  padFlags : ∀ k < 32, v.padFlags.getLsbD k = ws.getD k false

theorem represents_nil : Represents [] ⟨0, 0#32, 1#32⟩ :=
  ⟨rfl, rfl, fun _ _ => BitVec.getLsbD_zero⟩

theorem shiftLeft_length (m : ℕ) : (1#32 <<< ws.length) <<< m = 1#32 <<< (ws.length + m) :=
  (BitVec.shiftLeft_add _ _ _).symm

/-- A word that does not pad. -/
theorem getD_append_false (k : ℕ) : (ws ++ [false]).getD k false = ws.getD k false := by
  rcases Nat.lt_or_ge k ws.length with hk | hk
  · rw [List.getD_append _ _ _ _ hk]
  · rw [List.getD_append_right _ _ _ _ hk, List.getD_eq_default ws _ hk]
    cases k - ws.length <;> rfl

/-- A word that pads. -/
theorem getD_append_true (k : ℕ) :
    (ws ++ [true]).getD k false = (ws.getD k false || decide (k = ws.length)) := by
  rcases Nat.lt_trichotomy k ws.length with hk | hk | hk
  · rw [List.getD_append _ _ _ _ hk, decide_eq_false hk.ne, Bool.or_false]
  · rw [List.getD_append_right _ _ _ _ hk.ge, hk, Nat.sub_self, decide_eq_true rfl, Bool.or_true]
    rfl
  · rw [List.getD_eq_default ws _ hk.le, decide_eq_false hk.ne', List.getD_eq_default]
    · rfl
    · rw [List.length_append]
      exact hk

/-- A word of an argument. -/
theorem Represents.append_false (h : Represents ws v) :
    Represents (ws ++ [false]) ⟨v.stackOffset + 1, v.padFlags, v.padMask <<< 1⟩ := by
  refine ⟨?_, ?_, fun k hk => ?_⟩
  · rw [h.stackOffset, List.length_append]
    rfl
  · rw [h.padMask, shiftLeft_length, List.length_append]
    rfl
  · rw [getD_append_false]
    exact h.padFlags k hk

/-- A word in front of an argument. -/
theorem Represents.append_true (h : Represents ws v) :
    Represents (ws ++ [true]) ⟨v.stackOffset + 1, v.padFlags ||| v.padMask, v.padMask <<< 1⟩ := by
  refine ⟨?_, ?_, fun k hk => ?_⟩
  · rw [h.stackOffset, List.length_append]
    rfl
  · rw [h.padMask, shiftLeft_length, List.length_append]
    rfl
  · rw [getD_append_true, BitVec.getLsbD_or, h.padFlags k hk, h.padMask]
    congr 1
    rw [← BitVec.twoPow_eq, BitVec.getLsbD_twoPow, Bool.eq_iff_iff, Bool.and_eq_true,
      decide_eq_true_iff, decide_eq_true_iff, decide_eq_true_iff]
    omega

/-- The two words of an argument. -/
theorem Represents.append_pair (h : Represents ws v) :
    Represents (ws ++ [false, false]) ⟨v.stackOffset + 2, v.padFlags, v.padMask <<< 2⟩ := by
  have htwo := h.append_false.append_false
  rw [List.append_assoc] at htwo
  rw [show v.stackOffset + 2 = v.stackOffset + 1 + 1 by omega,
    show v.padMask <<< 2 = v.padMask <<< 1 <<< 1 from BitVec.shiftLeft_add _ 1 1]
  exact htwo

theorem addInt_of_lt {n : ℤ} {m : ℕ} (h : n + m < 2 ^ 31) : addInt n m = .ok (n + m) := if_pos h

theorem addInt_of_le {n : ℤ} {m : ℕ} (h : 2 ^ 31 ≤ n + m) : addInt n m = .error .overflow :=
  if_neg (not_lt.mpr h)

theorem length_addArg : (addArg ws c).length = if c = chr 'D' ∨ c = chr 'J' then
    if ws.length % 2 = 1 then ws.length + 3 else ws.length + 2 else ws.length + 1 := by
  unfold addArg
  split
  · split <;> simp only [List.length_append, List.length_cons, List.length_nil]
  · rw [List.length_append, List.length_singleton]

/-- **An argument** whose words can be counted. -/
theorem step_of_lt (h : Represents ws v) (hlt : (addArg ws c).length < 2 ^ 31) :
    ∃ v', v.step c = .ok v' ∧ Represents (addArg ws c) v' := by
  have hoff := h.stackOffset
  rw [length_addArg] at hlt
  unfold addArg Hints.step
  by_cases hwide : c = chr 'D' ∨ c = chr 'J'
  · rw [if_pos hwide] at hlt
    rw [if_pos hwide, if_pos hwide]
    by_cases hodd : ws.length % 2 = 1
    · rw [if_pos hodd] at hlt
      have hone : addInt v.stackOffset 1 = .ok (v.stackOffset + 1) := addInt_of_lt (by omega)
      have htwo : addInt (v.stackOffset + 1) 2 = .ok (v.stackOffset + 1 + 2) :=
        addInt_of_lt (by omega)
      rw [if_pos hodd, if_pos (show v.stackOffset % 2 ≠ 0 by omega), hone]
      refine ⟨_, ?_, h.append_true.append_pair⟩
      simp only [bind, Except.bind, pure, Except.pure, htwo]
    · rw [if_neg hodd] at hlt
      have htwo : addInt v.stackOffset 2 = .ok (v.stackOffset + 2) := addInt_of_lt (by omega)
      rw [if_neg hodd, if_neg (show ¬ v.stackOffset % 2 ≠ 0 by omega)]
      refine ⟨_, ?_, h.append_pair⟩
      simp only [bind, Except.bind, pure, Except.pure, htwo]
  · rw [if_neg hwide] at hlt
    have hone : addInt v.stackOffset 1 = .ok (v.stackOffset + 1) := addInt_of_lt (by omega)
    rw [if_neg hwide, if_neg hwide, hone]
    exact ⟨_, rfl, h.append_false⟩

/-- **An argument** with which the counter overflows. -/
theorem step_of_le (h : Represents ws v) (hle : 2 ^ 31 ≤ (addArg ws c).length) :
    v.step c = .error .overflow := by
  have hoff := h.stackOffset
  rw [length_addArg] at hle
  unfold Hints.step
  by_cases hwide : c = chr 'D' ∨ c = chr 'J'
  · rw [if_pos hwide] at hle
    rw [if_pos hwide]
    by_cases hodd : ws.length % 2 = 1
    · rw [if_pos hodd] at hle
      rw [if_pos (show v.stackOffset % 2 ≠ 0 by omega)]
      rcases lt_or_ge (v.stackOffset + (1 : ℕ)) (2 ^ 31) with hone | hone
      · have htwo : addInt (v.stackOffset + (1 : ℕ)) 2 = .error .overflow := addInt_of_le (by omega)
        simp only [bind, Except.bind, pure, Except.pure, addInt_of_lt hone, htwo]
      · simp only [bind, Except.bind, addInt_of_le hone]
    · rw [if_neg hodd] at hle
      have htwo : addInt v.stackOffset 2 = .error .overflow := addInt_of_le (by omega)
      rw [if_neg (show ¬ v.stackOffset % 2 ≠ 0 by omega)]
      simp only [bind, Except.bind, pure, Except.pure, htwo]
  · rw [if_neg hwide] at hle
    have hone : addInt v.stackOffset 1 = .error .overflow := addInt_of_le (by omega)
    rw [if_neg hwide, hone]
    rfl

theorem argWords_append (args : List Char8) (c : Char8) :
    argWords (args ++ [c]) = addArg (argWords args) c := by
  rw [argWords, List.foldl_append]
  rfl

/-- **The loop over the arguments**: it represents their words, or the counter overflows. -/
theorem foldlM_step (args : List Char8) :
    if (argWords args).length < 2 ^ 31 then
      ∃ v, args.foldlM Hints.step ⟨0, 0#32, 1#32⟩ = .ok v ∧ Represents (argWords args) v
    else args.foldlM Hints.step ⟨0, 0#32, 1#32⟩ = .error .overflow := by
  induction args using List.reverseRecOn with
  | nil => exact (if_pos (show (0 : ℕ) < 2 ^ 31 by decide)).mpr ⟨_, rfl, represents_nil⟩
  | append_singleton args c ih =>
    have hlen := @length_addArg (argWords args) c
    rw [argWords_append]
    split at ih
    · obtain ⟨v, hv, hrep⟩ := ih
      rw [Checked.foldlM_concat_of_ok hv]
      split
      · next hlt => exact step_of_lt hrep hlt
      · next hle => exact step_of_le hrep (not_lt.mp hle)
    · next hle =>
      rw [if_neg (by rw [hlen]; split_ifs <;> omega)]
      exact Checked.foldlM_concat_of_error ih

end Loop

/-! ## The fields -/

theorem returnType_le (c : Char8) : (returnType c).toNat ≤ 7 := by
  cases returnType c <;> decide

/-- The type that is returned stands in its field. -/
theorem return_and : ∀ n ≤ 7,
    (BitVec.ofNat 32 n <<< DALVIK_JNI_RETURN_SHIFT) &&& DALVIK_JNI_RETURN_MASK
        = BitVec.ofNat 32 n <<< DALVIK_JNI_RETURN_SHIFT
      ∧ (BitVec.ofNat 32 n <<< DALVIK_JNI_RETURN_SHIFT) &&& ~~~DALVIK_JNI_RETURN_MASK = 0#32
      ∧ (BitVec.ofNat 32 n <<< DALVIK_JNI_RETURN_SHIFT) &&& DALVIK_JNI_NO_ARG_INFO = 0#32
      ∧ (BitVec.ofNat 32 n <<< DALVIK_JNI_RETURN_SHIFT) &&& DALVIK_JNI_COUNT_MASK = 0#32 := by
  decide

/-- The number of pairs stands in its field. -/
theorem count_and : ∀ n ≤ 11,
    (BitVec.ofNat 32 n <<< DALVIK_JNI_COUNT_SHIFT) &&& DALVIK_JNI_RETURN_MASK = 0#32
      ∧ (BitVec.ofNat 32 n <<< DALVIK_JNI_COUNT_SHIFT) &&& DALVIK_JNI_NO_ARG_INFO = 0#32
      ∧ (BitVec.ofNat 32 n <<< DALVIK_JNI_COUNT_SHIFT) &&& DALVIK_JNI_COUNT_MASK
        = BitVec.ofNat 32 n <<< DALVIK_JNI_COUNT_SHIFT := by
  decide

section Fields

variable {ws : List Bool} {v : Hints}

/-- **The flags of few words** leave the other fields alone. -/
theorem padFlags_and (h : Represents ws v) (hlen : ws.length ≤ 24) :
    v.padFlags &&& (0xFFFFFFFF#32 <<< DALVIK_JNI_COUNT_SHIFT) = 0#32 := by
  refine BitVec.eq_of_getLsbD_eq fun k hk => ?_
  rw [BitVec.getLsbD_and, BitVec.getLsbD_zero, BitVec.getLsbD_shiftLeft, h.padFlags k hk]
  rcases Nat.lt_or_ge k 24 with hk' | hk'
  · rw [show decide (k < DALVIK_JNI_COUNT_SHIFT) = true from decide_eq_true hk', Bool.not_true,
      Bool.and_false, Bool.false_and, Bool.and_false]
  · rw [List.getD_eq_default ws false (hlen.trans hk'), Bool.false_and]

theorem padFlags_and_mask (h : Represents ws v) (hlen : ws.length ≤ 24) {m : BitVec 32}
    (hm : (0xFFFFFFFF#32 <<< DALVIK_JNI_COUNT_SHIFT) &&& m = m) : v.padFlags &&& m = 0#32 := by
  rw [← hm, ← BitVec.and_assoc, padFlags_and h hlen, BitVec.zero_and]

/-- The hints of few words. -/
def hintsOf (ws : List Bool) (v : Hints) : BitVec 32 :=
  BitVec.ofNat 32 ((ws.length - 2 + 1) / 2) <<< DALVIK_JNI_COUNT_SHIFT ||| v.padFlags

/-- **What `dvmPlatformInvokeHints` answers.** -/
theorem dvmPlatformInvokeHints_eq {ret : Char8} {args : List Char8}
    (hrun : args.foldlM Hints.step ⟨0, 0#32, 1#32⟩ = .ok v) (h : Represents ws v) :
    dvmPlatformInvokeHints (ret :: args)
      = .ok (if 24 < ws.length then DALVIK_JNI_NO_ARG_INFO else hintsOf ws v) := by
  have hoff := h.stackOffset
  simp only [dvmPlatformInvokeHints, hrun, bind, Except.bind]
  by_cases hlarge : 24 < ws.length
  · have hgt : v.stackOffset > (DALVIK_JNI_COUNT_SHIFT : ℤ) := by
      rw [hoff, DALVIK_JNI_COUNT_SHIFT]
      omega
    rw [if_pos hgt, if_pos hlarge]
    rfl
  · have hle : ¬ v.stackOffset > (DALVIK_JNI_COUNT_SHIFT : ℤ) := by
      rw [hoff, DALVIK_JNI_COUNT_SHIFT]
      omega
    have hcount : ((if v.stackOffset - 2 < 0 then 0 else v.stackOffset - 2) + 1) / 2
        = (((ws.length - 2 + 1) / 2 : ℕ) : ℤ) := by
      split <;> omega
    rw [if_neg hle, if_neg hlarge, assert, if_pos (padFlags_and h (not_lt.mp hlarge)), hcount,
      BitVec.ofInt_natCast, BitVec.zero_or]
    rfl

/-- **The argument information is right** where the words can be counted. -/
theorem encodes_of_represents {ret : Char8} {args : List Char8}
    (hrun : args.foldlM Hints.step ⟨0, 0#32, 1#32⟩ = .ok v) (h : Represents (argWords args) v) :
    ∃ info, dvmComputeJniArgInfo (ret :: args) = .ok info ∧ Encodes ret args info := by
  obtain ⟨hret, hother, hflag, hcount⟩ := return_and _ (returnType_le ret)
  have heq : dvmPlatformInvokeHints (ret :: args) = _ := dvmPlatformInvokeHints_eq hrun h
  by_cases hlarge : 24 < (argWords args).length
  · rw [if_pos hlarge] at heq
    refine ⟨BitVec.ofNat 32 (returnType ret).toNat <<< DALVIK_JNI_RETURN_SHIFT
      ||| DALVIK_JNI_NO_ARG_INFO, ?_, ?_, fun _ => ?_, fun hle => absurd hle (not_le.mpr hlarge),
      fun hle => absurd hle (not_le.mpr hlarge), fun hle => absurd hle (not_le.mpr hlarge)⟩
    · simp only [dvmComputeJniArgInfo, heq, bind, Except.bind]
      exact if_pos (by decide)
    · rw [BitVec.and_or_distrib_right, hret]
      have hnone : DALVIK_JNI_NO_ARG_INFO &&& DALVIK_JNI_RETURN_MASK = 0#32 := by decide
      exact (congrArg _ hnone).trans BitVec.or_zero
    · rw [BitVec.and_or_distrib_right, hother, BitVec.zero_or]
      decide
  · have hle := not_lt.mp hlarge
    obtain ⟨hcret, hcflag, hccount⟩ :=
      count_and (((argWords args).length - 2 + 1) / 2) (by omega)
    have hpret := padFlags_and_mask h hle (m := DALVIK_JNI_RETURN_MASK) (by decide)
    have hpflag := padFlags_and_mask h hle (m := DALVIK_JNI_NO_ARG_INFO) (by decide)
    have hpcount := padFlags_and_mask h hle (m := DALVIK_JNI_COUNT_MASK) (by decide)
    rw [if_neg hlarge] at heq
    have hnone : hintsOf (argWords args) v &&& DALVIK_JNI_NO_ARG_INFO = 0#32 := by
      rw [hintsOf, BitVec.and_or_distrib_right, hcflag, hpflag, BitVec.or_zero]
    have hclear : hintsOf (argWords args) v &&& DALVIK_JNI_RETURN_MASK = 0#32 := by
      rw [hintsOf, BitVec.and_or_distrib_right, hcret, hpret, BitVec.or_zero]
    refine ⟨BitVec.ofNat 32 (returnType ret).toNat <<< DALVIK_JNI_RETURN_SHIFT
      ||| hintsOf (argWords args) v, ?_, ?_, fun hlt => absurd hlt hlarge, fun _ => ?_, fun _ => ?_,
      fun _ k hk => ?_⟩
    · simp only [dvmComputeJniArgInfo, heq, bind, Except.bind, hnone, assert, hclear]
      rfl
    · rw [BitVec.and_or_distrib_right, hret, hclear, BitVec.or_zero]
    · rw [BitVec.and_or_distrib_right, hflag, hnone, BitVec.or_zero]
    · rw [BitVec.and_or_distrib_right, hcount, hintsOf, BitVec.and_or_distrib_right, hccount,
        hpcount, BitVec.or_zero, BitVec.zero_or]
    · have hk28 : decide (k < DALVIK_JNI_RETURN_SHIFT) = true :=
        decide_eq_true (hk.trans (by decide))
      have hk24 : decide (k < DALVIK_JNI_COUNT_SHIFT) = true := decide_eq_true hk
      rw [hintsOf, BitVec.getLsbD_or, BitVec.getLsbD_or, BitVec.getLsbD_shiftLeft,
        BitVec.getLsbD_shiftLeft, hk28, hk24, h.padFlags k (hk.trans (by decide))]
      simp only [Bool.not_true, Bool.and_false, Bool.false_and, Bool.false_or]
      rw [List.getD_eq_getElem?_getD]
      cases (argWords args)[k]? with
      | none => exact iff_of_false Bool.false_ne_true (Option.some_ne_none true).symm
      | some b => exact Option.some_inj.symm

end Fields

/-- There is no result where the words cannot be counted. -/
theorem dvmComputeJniArgInfo_of_le (ret : Char8) {args : List Char8}
    (hle : 2 ^ 31 ≤ (argWords args).length) :
    dvmComputeJniArgInfo (ret :: args) = .error .overflow := by
  have hrun := foldlM_step args
  rw [if_neg (not_lt.mpr hle)] at hrun
  simp only [dvmComputeJniArgInfo, dvmPlatformInvokeHints, hrun, bind, Except.bind]

/-- The words of some arguments of two words each. -/
theorem length_argWords_replicate (n : ℕ) :
    (argWords (List.replicate n (chr 'D'))).length = 2 * n := by
  induction n with
  | zero => rfl
  | succ n ih =>
    rw [List.replicate_succ', argWords_append, length_addArg, ih, if_pos (Or.inl rfl),
      if_neg (by omega), Nat.mul_succ]

/-- Arguments of type `double` and an `int`. -/
theorem not_argInfo_replicate {n : ℕ} (hn : 2 ^ 31 ≤ 2 * n + 1) (ret : Char8) :
    ¬ ∃ info, dvmComputeJniArgInfo (ret :: (List.replicate n (chr 'D') ++ [chr 'I'])) = .ok info
      ∧ Encodes ret (List.replicate n (chr 'D') ++ [chr 'I']) info := by
  have hlen : 2 ^ 31 ≤ (argWords (List.replicate n (chr 'D') ++ [chr 'I'])).length := by
    rwa [argWords_append, length_addArg, length_argWords_replicate, if_neg (by decide)]
  rintro ⟨info, hinfo, -⟩
  rw [dvmComputeJniArgInfo_of_le ret hlen] at hinfo
  cases hinfo

end DalvikHook
