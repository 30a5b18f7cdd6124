import AndroidReverse.CheckedRead
import AndroidReverse.DalvikArgInfo

/-!
# The arguments of a hooked method

A hooked method is made native, and `setTargetMethodNative` sets the number of words that its
frame has for the arguments. `handleInvoker` gets these words and boxes them, with
`dvmBoxMethodArgs`. Both functions go through the shorty of the method, and each has its own
idea of the words that an argument takes. They agree on that, for any number of arguments
(`boxes_of_lt`); but the size of the frame is a `u2`, so there are words for all arguments if and
only if there are fewer than `2 ^ 16` (`reserves_iff`).
-/

namespace DalvikHook

open Checked

/-- A `u4`. -/
abbrev Word32 := BitVec 32

/-! ## The code -/

/-- The part of a `Method` that the functions read and write. -/
structure Method where
  accessFlags : Word32
  registersSize : BitVec 16
  outsSize : BitVec 16
  insSize : BitVec 16
  /-- What `dexProtoGetParameterCount` gives for the prototype. -/
  parameterCount : ℕ
  /-- The characters in front of the end of the string. -/
  shorty : List Char8
  jniArgInfo : Word32
deriving DecidableEq

/-- `ACC_STATIC`. -/
def ACC_STATIC : Word32 := 0x00000008#32

/-- `ACC_NATIVE`. -/
def ACC_NATIVE : Word32 := 0x00000100#32

/-- `dvmIsStaticMethod`. -/
def dvmIsStaticMethod (method : Method) : Bool := method.accessFlags &&& ACC_STATIC ≠ 0#32

/-- `calcMethodArgsSize`. -/
def calcMethodArgsSize (shorty : List Char8) : Except Stop ℤ :=
  match shorty with
  | [] => .error .outOfBounds
  | _ :: shorty =>
    shorty.foldlM (fun count c => addInt count (if c = chr 'D' ∨ c = chr 'J' then 2 else 1)) 0

/-- `setTargetMethodNative`. -/
def setTargetMethodNative (method : Option Method) : Except Stop (Option Method) :=
  match method with
  | none => .ok none
  | some method => do
    let argsSize ← calcMethodArgsSize method.shorty
    let argsSize ← (if !dvmIsStaticMethod method then addInt argsSize 1 else .ok argsSize)
    let jniArgInfo ← dvmComputeJniArgInfo method.shorty
    pure (some { method with
      accessFlags := method.accessFlags ||| ACC_NATIVE
      registersSize := BitVec.ofInt 16 argsSize
      insSize := BitVec.ofInt 16 argsSize
      outsSize := 0#16
      jniArgInfo := jniArgInfo })

/-- An element of the array: what is boxed, with the character by which its class is looked up,
or a reference. -/
inductive Boxed where
  /-- `dvmBoxPrimitive` of `value.i`. -/
  | word (descChar : Char8) (i : Word32)
  /-- `dvmBoxPrimitive` of `value.j`. -/
  | long (descChar : Char8) (j : BitVec 64)
  /-- An argument as it is. -/
  | object (l : Word32)
deriving DecidableEq

/-- The variables of the loop of `dvmBoxMethodArgs`. -/
structure BoxState where
  srcIndex : Word32
  /-- The elements of `argObjects` up to `dstIndex`. -/
  argObjects : List Boxed
deriving DecidableEq

/-- `dvmGetArgLong`, the first word of which is the lower one. -/
def dvmGetArgLong (args : List Word32) (elem : ℤ) : Except Stop (BitVec 64) :=
  if elem < 0 then .error .outOfBounds
  else do
    let low ← readAt .outOfBounds args elem.toNat
    let high ← readAt .outOfBounds args (elem.toNat + 1)
    pure (high ++ low)

/-- `argObjects[dstIndex++] = object`. -/
def BoxState.store (argCount : ℕ) (s : BoxState) (object : Boxed) : Except Stop BoxState :=
  if s.argObjects.length < argCount then .ok { s with argObjects := s.argObjects ++ [object] }
  else .error .outOfBounds

/-- The body of the loop. -/
def boxStep (args : List Word32) (argCount : ℕ) (s : BoxState) (descChar : Char8) :
    Except Stop BoxState :=
  if ("ZCFBSI".toList.map chr).contains descChar then do
    let i ← readAt .outOfBounds args s.srcIndex.toNat
    ({ s with srcIndex := s.srcIndex + 1#32 } : BoxState).store argCount (.word descChar i)
  else if ("DJ".toList.map chr).contains descChar then do
    -- the index is passed as an `int`
    let j ← dvmGetArgLong args s.srcIndex.toInt
    ({ s with srcIndex := s.srcIndex + 2#32 } : BoxState).store argCount (.long descChar j)
  else if ("[L".toList.map chr).contains descChar then do
    let l ← readAt .outOfBounds args s.srcIndex.toNat
    ({ s with srcIndex := s.srcIndex + 1#32 } : BoxState).store argCount (.object l)
  else .ok s

/-- `dvmBoxMethodArgs`: the variables at its end, and nothing where the array cannot be
allocated. -/
def dvmBoxMethodArgs (allocated : Bool) (method : Method) (args : List Word32) :
    Except Stop (Option BoxState) :=
  match method.shorty with
  | [] => .error .outOfBounds
  | _ :: desc =>
    if !allocated then .ok none
    else do
      let s ← desc.foldlM (boxStep args method.parameterCount) ⟨0#32, []⟩
      pure (some s)

/-- How `handleInvoker` has the arguments boxed: behind `this`, if there is one. -/
def boxInvokerArgs (allocated : Bool) (method originalMethod : Method) (args : List Word32) :
    Except Stop (Option BoxState) :=
  if !dvmIsStaticMethod method then do
    let _thisObject ← readAt .outOfBounds args 0
    dvmBoxMethodArgs allocated originalMethod (args.drop 1)
  else dvmBoxMethodArgs allocated originalMethod args

/-! ## Parameters -/

/-- What is passed for a parameter: a word, two words, or a reference. -/
inductive Kind where
  | word | long | object
deriving DecidableEq

/-- **The type of a parameter**, as a shorty has it. -/
inductive ParamType where
  | Z | B | C | S | I | F | J | D | L
deriving DecidableEq

namespace ParamType

/-- Its character. -/
def char : ParamType → Char8
  | Z => chr 'Z'
  | B => chr 'B'
  | C => chr 'C'
  | S => chr 'S'
  | I => chr 'I'
  | F => chr 'F'
  | J => chr 'J'
  | D => chr 'D'
  | L => chr 'L'

/-- What is passed for it. -/
def kind : ParamType → Kind
  | Z | B | C | S | I | F => .word
  | J | D => .long
  | L => .object

/-- The number of words that it takes. -/
def width (p : ParamType) : ℕ :=
  match p.kind with
  | .long => 2
  | .word | .object => 1

/-- **The object for an argument** whose words begin at an index. -/
def boxed (p : ParamType) (args : List Word32) (k : ℕ) : Option Boxed :=
  match p.kind with
  | .word => args[k]?.map (.word p.char)
  | .long => args[k]?.bind fun low => args[k + 1]?.map fun high => .long p.char (high ++ low)
  | .object => args[k]?.map .object

end ParamType

/-- The words of some parameters. -/
def words (params : List ParamType) : ℕ := (params.map ParamType.width).sum

/-- **A method has parameters**: its shorty says so, behind the type that is returned, and so
does its prototype. -/
structure HasParams (method : Method) (ret : Char8) (params : List ParamType) : Prop where
  shorty_eq : method.shorty = ret :: params.map ParamType.char
  count_eq : method.parameterCount = params.length

/-- **The arguments are boxed**: as many words are read as `calcMethodArgsSize` counts, and each
object is that of its parameter, from the words behind those of the parameters before it. -/
def Boxes (method : Method) (params : List ParamType) (args : List Word32) : Prop :=
  ∃ count s, calcMethodArgsSize method.shorty = .ok count
    ∧ dvmBoxMethodArgs true method args = .ok (some s)
    ∧ (s.srcIndex.toNat : ℤ) = count
    ∧ s.argObjects.length = params.length
    ∧ ∀ i (p : ParamType), params[i]? = some p →
      s.argObjects[i]? = p.boxed args (words (params.take i))

/-- **The frame has words for the arguments**: no word behind it is read when they are boxed. -/
def Reserves (method : Method) : Prop :=
  ∃ method', setTargetMethodNative (some method) = .ok (some method')
    ∧ ∀ frame : List Word32, frame.length = method'.insSize.toNat →
      ∃ s, boxInvokerArgs true method' method frame = .ok (some s)

/-! ## The sizes -/

section Sizes

variable {params : List ParamType} {p : ParamType}

theorem words_append (params : List ParamType) (p : ParamType) :
    words (params ++ [p]) = words params + p.width := by
  rw [words, List.map_append, List.sum_append, List.map_singleton, List.sum_singleton]
  rfl

theorem width_pos (p : ParamType) : 0 < p.width := by
  cases p <;> decide

/-- What `calcMethodArgsSize` adds for a parameter. -/
theorem width_char (p : ParamType) :
    (if p.char = chr 'D' ∨ p.char = chr 'J' then 2 else 1) = p.width := by
  cases p <;> decide

/-- **`calcMethodArgsSize` counts the words**, as long as an `int` can. -/
theorem calcMethodArgsSize_eq (ret : Char8) (params : List ParamType) :
    calcMethodArgsSize (ret :: params.map ParamType.char)
      = if words params < 2 ^ 31 then .ok (words params : ℤ) else .error .overflow := by
  rw [calcMethodArgsSize]
  induction params using List.reverseRecOn with
  | nil => exact (if_pos (show (0 : ℕ) < 2 ^ 31 by decide)).symm
  | append_singleton params p ih =>
    have hpos := width_pos p
    rw [List.map_append, List.map_singleton, words_append]
    split at ih
    · next hlt =>
      rw [foldlM_concat_of_ok ih, width_char]
      split
      · next hsum => exact addInt_of_lt (by omega)
      · next hsum => exact addInt_of_le (by omega)
    · next hle => rw [foldlM_concat_of_error ih, if_neg (by omega)]

end Sizes

/-! ## Boxing -/

section Boxing

variable {args : List Word32} {argCount k : ℕ} {s : BoxState} {p : ParamType}

/-- **An argument can be boxed** if its words are there. -/
theorem boxed_isSome_iff : (p.boxed args k).isSome = true ↔ k + p.width ≤ args.length := by
  have hone : args[k]?.isSome = true ↔ k + 1 ≤ args.length := by
    rw [← Nat.lt_iff_add_one_le, Option.isSome_iff_ne_none, ne_eq, List.getElem?_eq_none_iff,
      Nat.not_le]
  rw [ParamType.boxed, ParamType.width]
  cases p.kind with
  | word => rwa [Option.isSome_map]
  | object => rwa [Option.isSome_map]
  | long =>
    by_cases hk : k + 1 < args.length
    · rw [List.getElem?_eq_getElem (by omega), List.getElem?_eq_getElem hk]
      exact iff_of_true rfl hk
    · rw [List.getElem?_eq_none (Nat.not_lt.mp hk)]
      refine iff_of_false ?_ (by show ¬ k + 2 ≤ _; omega)
      cases args[k]? <;> exact Bool.false_ne_true

theorem boxStep_char : boxStep args argCount s p.char =
    (match p.kind with
    | .word => do
      let i ← readAt .outOfBounds args s.srcIndex.toNat
      BoxState.store argCount { s with srcIndex := s.srcIndex + 1#32 } (.word p.char i)
    | .long => do
      let j ← dvmGetArgLong args s.srcIndex.toInt
      BoxState.store argCount { s with srcIndex := s.srcIndex + 2#32 } (.long p.char j)
    | .object => do
      let l ← readAt .outOfBounds args s.srcIndex.toNat
      BoxState.store argCount { s with srcIndex := s.srcIndex + 1#32 } (.object l)) := by
  cases p <;> rfl

/-- An index that is an `int`. -/
theorem toInt_srcIndex (hidx : s.srcIndex.toNat = k) (hk : k < 2 ^ 31) :
    s.srcIndex.toInt = (k : ℤ) := by
  rw [BitVec.toInt_eq_toNat_of_lt (by omega), hidx]

theorem dvmGetArgLong_natCast (k : ℕ) : dvmGetArgLong args k = (do
    let low ← readAt .outOfBounds args k
    let high ← readAt .outOfBounds args (k + 1)
    pure (high ++ low)) :=
  if_neg (not_lt.mpr (Int.natCast_nonneg k))

/-- **The words of a parameter are read**, and its object stored. -/
theorem boxStep_of_some {o : Boxed} (hidx : s.srcIndex.toNat = k) (hk : k + p.width < 2 ^ 31)
    (hroom : s.argObjects.length < argCount) (ho : p.boxed args k = some o) :
    boxStep args argCount s p.char
      = .ok ⟨s.srcIndex + BitVec.ofNat 32 p.width, s.argObjects ++ [o]⟩ := by
  rw [ParamType.boxed] at ho
  rw [boxStep_char, ParamType.width]
  cases hkind : p.kind with
  | word =>
    rw [hkind] at ho
    obtain ⟨i, hi, rfl⟩ := Option.map_eq_some_iff.mp ho
    exact (bind_ok (readAt_eq_ok.mpr (hidx ▸ hi))).trans (if_pos hroom)
  | object =>
    rw [hkind] at ho
    obtain ⟨l, hl, rfl⟩ := Option.map_eq_some_iff.mp ho
    exact (bind_ok (readAt_eq_ok.mpr (hidx ▸ hl))).trans (if_pos hroom)
  | long =>
    rw [hkind] at ho
    obtain ⟨low, hlow, ho⟩ := Option.bind_eq_some_iff.mp ho
    obtain ⟨high, hhigh, rfl⟩ := Option.map_eq_some_iff.mp ho
    have hlong : dvmGetArgLong args s.srcIndex.toInt = .ok (high ++ low) := by
      rw [toInt_srcIndex hidx (by omega), dvmGetArgLong_natCast, bind_ok (readAt_eq_ok.mpr hlow),
        bind_ok (readAt_eq_ok.mpr hhigh)]
      rfl
    exact (bind_ok hlong).trans (if_pos hroom)

/-- **A word of a parameter is behind the end.** -/
theorem boxStep_of_none (hidx : s.srcIndex.toNat = k) (hk : k + p.width < 2 ^ 31)
    (ho : p.boxed args k = none) : boxStep args argCount s p.char = .error .outOfBounds := by
  have hread : ∀ {i : ℕ}, args[i]? = none →
      readAt Stop.outOfBounds args i = .error .outOfBounds := by
    intro i hi
    rw [readAt, hi]
  rw [ParamType.boxed] at ho
  rw [boxStep_char]
  cases hkind : p.kind with
  | word =>
    rw [hkind] at ho
    exact bind_error (hread (hidx ▸ Option.map_eq_none_iff.mp ho))
  | object =>
    rw [hkind] at ho
    exact bind_error (hread (hidx ▸ Option.map_eq_none_iff.mp ho))
  | long =>
    rw [hkind] at ho
    have hlong : dvmGetArgLong args s.srcIndex.toInt = .error .outOfBounds := by
      rw [toInt_srcIndex hidx (by omega), dvmGetArgLong_natCast]
      cases hlow : args[k]? with
      | none => exact bind_error (hread hlow)
      | some low =>
        dsimp only at ho
        rw [hlow, Option.bind_some, Option.map_eq_none_iff] at ho
        rw [bind_ok (readAt_eq_ok.mpr hlow)]
        exact bind_error (hread ho)
    exact bind_error hlong

/-- **The variables after some parameters.** -/
structure HasBoxed (args : List Word32) (params : List ParamType) (s : BoxState) : Prop where
  srcIndex : s.srcIndex.toNat = words params
  length_eq : s.argObjects.length = params.length
  objects : ∀ i (p : ParamType), params[i]? = some p →
    s.argObjects[i]? = p.boxed args (words (params.take i))

/-- One more parameter. -/
theorem HasBoxed.append {params : List ParamType} {o : Boxed} (h : HasBoxed args params s)
    (hk : words params + p.width < 2 ^ 31) (ho : p.boxed args (words params) = some o) :
    HasBoxed args (params ++ [p])
      ⟨s.srcIndex + BitVec.ofNat 32 p.width, s.argObjects ++ [o]⟩ := by
  have hlen := h.length_eq
  refine ⟨?_, ?_, fun i q hq => ?_⟩
  · rw [words_append, BitVec.toNat_add, BitVec.toNat_ofNat, h.srcIndex]
    omega
  · rw [List.length_append, List.length_append, hlen]
    rfl
  · rcases Nat.lt_or_ge i params.length with hi | hi
    · rw [List.getElem?_append_left hi] at hq
      rw [List.getElem?_append_left (hlen ▸ hi), List.take_append_of_le_length hi.le]
      exact h.objects i q hq
    · have hi' : i = params.length := by
        have := (List.getElem?_eq_some_iff.mp hq).1
        rw [List.length_append, List.length_singleton] at this
        omega
      subst hi'
      rw [List.getElem?_concat_length] at hq
      rw [← hlen, List.getElem?_concat_length, hlen, List.take_left' rfl, ← Option.some.inj hq, ho]

/-- **The loop over the parameters**: it boxes all of them if their words are there, and reads
behind the end otherwise. -/
theorem foldlM_boxStep (params : List ParamType) (hlt : words params < 2 ^ 31)
    (hcount : params.length ≤ argCount) :
    if words params ≤ args.length then
      ∃ s, (params.map ParamType.char).foldlM (boxStep args argCount) ⟨0#32, []⟩ = .ok s
        ∧ HasBoxed args params s
    else (params.map ParamType.char).foldlM (boxStep args argCount) ⟨0#32, []⟩
      = .error .outOfBounds := by
  induction params using List.reverseRecOn with
  | nil =>
    rw [if_pos (show words [] ≤ args.length from Nat.zero_le _)]
    exact ⟨_, rfl, rfl, rfl, fun i p hp => by rw [List.getElem?_nil] at hp; cases hp⟩
  | append_singleton params p ih =>
    rw [words_append] at hlt
    rw [List.length_append, List.length_singleton] at hcount
    rw [List.map_append, List.map_singleton, words_append]
    have ih := ih (by omega) (by omega)
    split at ih
    · obtain ⟨s, hs, hboxed⟩ := ih
      have hroom : s.argObjects.length < argCount := by
        rw [hboxed.length_eq]
        omega
      rw [foldlM_concat_of_ok hs]
      cases ho : p.boxed args (words params) with
      | some o =>
        rw [if_pos (boxed_isSome_iff.mp (by rw [ho]; rfl))]
        exact ⟨_, boxStep_of_some hboxed.srcIndex hlt hroom ho, hboxed.append hlt ho⟩
      | none =>
        have hle : ¬ words params + p.width ≤ args.length := fun h => by
          have := boxed_isSome_iff.mpr h
          rw [ho] at this
          cases this
        rw [if_neg hle]
        exact boxStep_of_none hboxed.srcIndex hlt ho
    · next hle =>
      rw [if_neg (by omega)]
      exact foldlM_concat_of_error ih

end Boxing

/-! ## A method and its frame -/

section Frame

variable {method method' : Method} {ret : Char8} {params : List ParamType} {args : List Word32}

/-- The words of the frame of a method: `this`, if there is one, and those of the parameters. -/
def frameWords (method : Method) (params : List ParamType) : ℕ :=
  words params + if dvmIsStaticMethod method then 0 else 1

/-- **The arguments are boxed** if there are words for them, and only then. -/
theorem dvmBoxMethodArgs_eq (hm : HasParams method ret params) (hlt : words params < 2 ^ 31) :
    if words params ≤ args.length then
      ∃ s, dvmBoxMethodArgs true method args = .ok (some s) ∧ HasBoxed args params s
    else dvmBoxMethodArgs true method args = .error .outOfBounds := by
  have hrun := @foldlM_boxStep args method.parameterCount params hlt hm.count_eq.ge
  have hbox : dvmBoxMethodArgs true method args = (do
      let s ← (params.map ParamType.char).foldlM (boxStep args method.parameterCount) ⟨0#32, []⟩
      pure (some s)) := by
    rw [dvmBoxMethodArgs, hm.shorty_eq]
    rfl
  rw [hbox]
  split at hrun
  · next hle =>
    obtain ⟨s, hs, hboxed⟩ := hrun
    rw [if_pos hle, hs]
    exact ⟨s, rfl, hboxed⟩
  · next hle =>
    rw [if_neg hle, hrun]
    rfl

/-- **Boxing agrees with the computation of the size**, as long as an `int` can count the
words. -/
theorem boxes_of_lt (hm : HasParams method ret params) (hlt : words params < 2 ^ 31)
    (hargs : words params ≤ args.length) : Boxes method params args := by
  have hbox := @dvmBoxMethodArgs_eq method ret params args hm hlt
  rw [if_pos hargs] at hbox
  obtain ⟨s, hs, hboxed⟩ := hbox
  refine ⟨words params, s, ?_, hs, congrArg Nat.cast hboxed.srcIndex, hboxed.length_eq,
    hboxed.objects⟩
  rw [hm.shorty_eq, calcMethodArgsSize_eq, if_pos hlt]

/-- **The size that `setTargetMethodNative` computes**, as long as an `int` can hold it. -/
theorem argsSize_eq (hm : HasParams method ret params) :
    (do
      let argsSize ← calcMethodArgsSize method.shorty
      if !dvmIsStaticMethod method then addInt argsSize 1 else .ok argsSize)
    = if frameWords method params < 2 ^ 31 then .ok (frameWords method params : ℤ)
      else .error .overflow := by
  have hcalc := calcMethodArgsSize_eq ret params
  rw [hm.shorty_eq, frameWords]
  split at hcalc
  · next hlt =>
    rw [bind_ok hcalc]
    cases dvmIsStaticMethod method with
    | true => rw [if_neg (by decide), if_pos rfl, Nat.add_zero, if_pos hlt]
    | false =>
      rw [if_pos (by decide), if_neg Bool.false_ne_true]
      split
      · next hone => exact addInt_of_lt (by omega)
      · next hone => exact addInt_of_le (by omega)
  · next hle =>
    rw [bind_error hcalc, if_neg (by omega)]

/-- The flag that a method is native is another one than that it is static. -/
theorem and_static (flags : Word32) :
    (flags ||| ACC_NATIVE) &&& ACC_STATIC = flags &&& ACC_STATIC := by
  have hflags : ACC_NATIVE &&& ACC_STATIC = 0#32 := by decide
  rw [BitVec.and_or_distrib_right, hflags, BitVec.or_zero]

/-- `setTargetMethodNative`, by the size that it computes. -/
theorem setTargetMethodNative_eq (hm : HasParams method ret params) :
    setTargetMethodNative (some method)
      = if frameWords method params < 2 ^ 31 then
          (dvmComputeJniArgInfo method.shorty).map fun jniArgInfo => some { method with
            accessFlags := method.accessFlags ||| ACC_NATIVE
            registersSize := BitVec.ofNat 16 (frameWords method params)
            insSize := BitVec.ofNat 16 (frameWords method params)
            outsSize := 0#16
            jniArgInfo := jniArgInfo }
        else .error .overflow := by
  have hsize := argsSize_eq hm
  rw [setTargetMethodNative, ← bind_assoc, hsize]
  split
  · cases dvmComputeJniArgInfo method.shorty with
    | error e => rfl
    | ok info => rw [← BitVec.ofInt_natCast]; rfl
  · rfl

/-- **The arguments of a call are boxed** if its frame has words for them, and only then. -/
theorem boxInvokerArgs_iff (hm : HasParams method ret params) (hlt : words params < 2 ^ 31)
    (hstatic : dvmIsStaticMethod method' = dvmIsStaticMethod method) :
    (∃ s, boxInvokerArgs true method' method args = .ok (some s))
      ↔ frameWords method params ≤ args.length := by
  have hbox : ∀ args, (∃ s, dvmBoxMethodArgs true method args = .ok (some s))
      ↔ words params ≤ args.length := by
    intro args
    have h := @dvmBoxMethodArgs_eq method ret params args hm hlt
    split at h
    · next hle =>
      obtain ⟨s, hs, -⟩ := h
      exact iff_of_true ⟨s, hs⟩ hle
    · next hle =>
      refine iff_of_false ?_ hle
      rintro ⟨s, hs⟩
      cases h.symm.trans hs
  rw [boxInvokerArgs, hstatic, frameWords]
  cases dvmIsStaticMethod method with
  | true => exact hbox args
  | false =>
    cases args with
    | nil =>
      refine iff_of_false ?_ (by simp)
      rintro ⟨s, hs⟩
      cases hs
    | cons w args => exact (hbox args).trans Nat.succ_le_succ_iff.symm

/-- The words that pad are no more than those that do not. -/
theorem length_argWords_le (params : List ParamType) :
    (argWords (params.map ParamType.char)).length ≤ 2 * words params := by
  induction params using List.reverseRecOn with
  | nil => exact Nat.zero_le _
  | append_singleton params p ih =>
    have hwidth := width_char p
    rw [List.map_append, List.map_singleton, argWords_append, length_addArg, words_append]
    split at hwidth
    · next hwide =>
      rw [if_pos hwide]
      split_ifs <;> omega
    · next hwide =>
      rw [if_neg hwide]
      omega

/-- **The frame has words for all arguments exactly if** their number, with `this`, is a
`u2`. -/
theorem reserves_iff (hm : HasParams method ret params) :
    Reserves method ↔ frameWords method params < 2 ^ 16 := by
  have hstatic : ∀ {a b c : BitVec 16} {info : Word32}, dvmIsStaticMethod
      { method with accessFlags := method.accessFlags ||| ACC_NATIVE, registersSize := a,
                    insSize := b, outsSize := c, jniArgInfo := info }
        = dvmIsStaticMethod method := by
    intro a b c info
    simp only [dvmIsStaticMethod, and_static]
  have hle : words params ≤ frameWords method params := Nat.le_add_right _ _
  rw [Reserves, setTargetMethodNative_eq hm]
  constructor
  · rintro ⟨method', hset, hframe⟩
    split at hset
    · next hlt =>
      cases hinfo : dvmComputeJniArgInfo method.shorty with
      | error e =>
        rw [hinfo] at hset
        cases hset
      | ok info =>
        rw [hinfo] at hset
        obtain rfl := Option.some.inj (Except.ok.inj hset)
        -- a frame of just the words that there are
        have hlen := (boxInvokerArgs_iff hm (hle.trans_lt hlt) hstatic).mp
          (hframe (List.replicate _ 0#32) List.length_replicate)
        rw [List.length_replicate, BitVec.toNat_ofNat] at hlen
        exact hlen.trans_lt (Nat.mod_lt _ (by decide))
    · cases hset
  · intro hsmall
    have hwords : (argWords (params.map ParamType.char)).length < 2 ^ 31 := by
      have := length_argWords_le params
      omega
    have hrun := foldlM_step (params.map ParamType.char)
    rw [if_pos hwords] at hrun
    obtain ⟨v, hv, hrep⟩ := hrun
    obtain ⟨info, hinfo, -⟩ := @encodes_of_represents v ret _ hv hrep
    rw [if_pos (by omega), hm.shorty_eq, hinfo]
    refine ⟨_, rfl, fun frame hframe => ?_⟩
    refine (boxInvokerArgs_iff hm (by omega) ?_).mpr ?_
    · exact hm.shorty_eq ▸ hstatic
    · rw [hframe]
      show _ ≤ (BitVec.ofNat 16 (frameWords method params)).toNat
      rw [BitVec.toNat_ofNat, Nat.mod_eq_of_lt hsmall]

/-- **The arguments of a hooked method**: with as many words as an `int` counts, they are boxed
from the words that `calcMethodArgsSize` counts, each from its own; and the frame that
`setTargetMethodNative` makes has these words if and only if their number, with `this`, is a
`u2`. -/
theorem boxes_reserves (hm : HasParams method ret params) (hlt : words params < 2 ^ 31) :
    (∀ args : List Word32, words params ≤ args.length → Boxes method params args)
      ∧ (Reserves method ↔ frameWords method params < 2 ^ 16) :=
  ⟨fun _ hargs => boxes_of_lt hm hlt hargs, reserves_iff hm⟩

end Frame

/-- A method of an object with a word, a `long` and a reference. -/
def objectMethod : Method :=
  ⟨0#32, 0#16, 0#16, 0#16, 3, [chr 'V', chr 'I', chr 'J', chr 'L'], 0#32⟩

/-- The arguments of that method. -/
theorem boxes_reserves_object :
    (∀ args : List Word32, words [.I, .J, .L] ≤ args.length →
        Boxes objectMethod [.I, .J, .L] args)
      ∧ (Reserves objectMethod ↔ frameWords objectMethod [.I, .J, .L] < 2 ^ 16) :=
  boxes_reserves ⟨rfl, rfl⟩ (show 4 < 2 ^ 31 by decide)

/-- A static method with some parameters of type `int`. -/
def staticMethod (n : ℕ) : Method :=
  ⟨ACC_STATIC, 0#16, 0#16, 0#16, n, chr 'V' :: List.replicate n (chr 'I'), 0#32⟩

theorem hasParams_staticMethod (n : ℕ) :
    HasParams (staticMethod n) (chr 'V') (List.replicate n .I) :=
  ⟨by rw [List.map_replicate]; rfl, List.length_replicate.symm⟩

theorem frameWords_staticMethod (n : ℕ) :
    frameWords (staticMethod n) (List.replicate n .I) = n := by
  have hwords : words (List.replicate n .I) = n := by
    rw [words, List.map_replicate, List.sum_replicate_nat]
    exact Nat.mul_one n
  have hflag : ACC_STATIC &&& ACC_STATIC ≠ 0#32 := by decide
  have hstatic : dvmIsStaticMethod (staticMethod n) = true := decide_eq_true hflag
  rw [frameWords, hwords, if_pos hstatic, Nat.add_zero]

/-- **The frame of a method with too many words** does not have all of them. -/
theorem not_reserves_staticMethod {n : ℕ} (hn : 2 ^ 16 ≤ n) : ¬ Reserves (staticMethod n) := by
  rw [reserves_iff (hasParams_staticMethod n), frameWords_staticMethod]
  exact Nat.not_lt.mpr hn

/-- **A static method with `2 ^ 16` parameters** of type `int` gets a frame without a word. -/
theorem not_boxes_reserves_static :
    HasParams (staticMethod (2 ^ 16)) (chr 'V') (List.replicate (2 ^ 16) .I)
      ∧ ¬ ((∀ args : List Word32, words (List.replicate (2 ^ 16) .I) ≤ args.length →
          Boxes (staticMethod (2 ^ 16)) (List.replicate (2 ^ 16) .I) args)
        ∧ Reserves (staticMethod (2 ^ 16))) :=
  ⟨hasParams_staticMethod (2 ^ 16), fun h => not_reserves_staticMethod le_rfl h.2⟩

end DalvikHook
