import Mathlib.Data.List.Forall2
import Mathlib.Data.List.Chain
import Mathlib.Data.List.TakeWhile

/-!
# The parameter types of a method

`dvmGetMethodParamTypes` goes through the descriptor of a method and looks up the class of each
parameter. A flag says that a `[` has been seen. It is not taken back behind an array of
primitives, so that the parameter behind one is taken for an array too, with a character that
belongs to the array; and of several `[` only the last one is looked up. The descriptor of a
class goes through a buffer of 128 characters. `resolves_iff` says for which methods that
makes no difference.
-/

namespace DalvikHook

/-- A character of a descriptor. -/
abbrev Char8 := BitVec 8

/-- A character as the byte it is. -/
def chr (c : Char) : Char8 := BitVec.ofNat 8 c.toNat

/-- The characters of the primitive types. -/
def primitives : List Char8 := "ZCFBSIDJ".toList.map chr

/-! ## `dvmGetMethodParamTypes` -/

/-- What is looked up, and by which function. -/
inductive Resolved where
  /-- `dvmFindPrimitiveClass`. -/
  | primitive (descChar : Char8)
  /-- `dvmFindSystemClass`. -/
  | system (descriptor : List Char8)
  /-- `dvmFindClass`. -/
  | named (descriptor : List Char8)
deriving DecidableEq

/-- The variables of the loop. -/
structure State where
  desc_index : ℕ
  /-- The elements of `argObjects` up to `arg_index`. -/
  argObjects : List Resolved
  isArray : Bool

/-- `argObjects[arg_index++] = object`; `none` where the array has no such element. -/
def State.store (argCount : ℕ) (s : State) (object : Resolved) : Option State :=
  if s.argObjects.length < argCount then some { s with argObjects := s.argObjects ++ [object] }
  else none

/-- The characters that `memcpy` copies. -/
def slice (desc : List Char8) (pos len : ℕ) : List Char8 := (desc.drop pos).take len

/-- `while (desc[++e_pos] != ';');`, and `none` where there is none. -/
def scanEnd (desc : List Char8) (e_pos : ℕ) : Option ℕ :=
  match _h : desc[e_pos + 1]? with
  | none => none
  | some c => if c = chr ';' then some (e_pos + 1) else scanEnd desc (e_pos + 1)
termination_by desc.length - e_pos
decreasing_by
  have := (List.getElem?_eq_some_iff.mp _h).1
  omega

/-- The body of the loop; `none` where it leaves an array. -/
def body (desc : List Char8) (argCount : ℕ) (s : State) (descChar : Char8) : Option State :=
  if descChar ∈ primitives then
    if s.isArray = false then
      ({ s with isArray := false, desc_index := s.desc_index + 1 } : State).store argCount
        (.primitive descChar)
    else
      ({ s with desc_index := s.desc_index + 1 } : State).store argCount
        (.system (slice desc (s.desc_index - 1) 2))
  else if descChar = chr '[' then some { s with isArray := true, desc_index := s.desc_index + 1 }
  else if descChar = chr 'L' then
    match scanEnd desc s.desc_index with
    | none => none
    | some e_pos =>
      let s_pos := if s.isArray then s.desc_index - 1 else s.desc_index
      let len := e_pos - s_pos + 1
      -- `buf` has 128 characters, and the last one ends the string
      if 128 ≤ len then none
      else ({ s with isArray := false, desc_index := e_pos + 1 } : State).store argCount
        (.named (slice desc s_pos len))
  else some s

/-- The loop over the characters, of some number of rounds at most. -/
def loop (desc : List Char8) (argCount : ℕ) : ℕ → State → Option (List Resolved)
  | 0, _ => none
  | n + 1, s =>
    match desc[s.desc_index]? with
    | none => none
    | some descChar =>
      if descChar = chr ')' then some s.argObjects
      else (body desc argCount s descChar).bind (loop desc argCount n)

/-- `dvmGetMethodParamTypes`, where `argCount` is the number of parameters of the prototype and
the array can be allocated: its elements. -/
def dvmGetMethodParamTypes (n argCount : ℕ) (methodsig : List Char8) : Option (List Resolved) :=
  let desc := (methodsig.dropWhile (· ≠ chr '(')).tail
  loop desc argCount n ⟨0, [], false⟩

/-! ## Descriptors -/

/-- **The element type of a parameter**: a primitive type, or a class with its name. -/
inductive Elem where
  | prim (c : Char8) (mem : c ∈ primitives)
  | cls (name : List Char8) (ne_nil : name ≠ []) (plain : ∀ c ∈ name, c ≠ chr ';' ∧ c ≠ 0#8)

/-- The characters of an element type. -/
def Elem.text : Elem → List Char8
  | .prim c _ => [c]
  | .cls name _ _ => chr 'L' :: (name ++ [chr ';'])

/-- **A parameter**: an element type, or an array of it with some number of dimensions. -/
structure Param where
  dim : ℕ
  elem : Elem

/-- The descriptor of a parameter. -/
def Param.text (p : Param) : List Char8 := List.replicate p.dim (chr '[') ++ p.elem.text

/-- A parameter of a primitive type. -/
def Param.IsPrimitive (p : Param) : Prop := p.dim = 0 ∧ ∃ c h, p.elem = .prim c h

/-- An array of a primitive type. -/
def Param.IsPrimitiveArray (p : Param) : Prop := p.dim ≠ 0 ∧ ∃ c h, p.elem = .prim c h

/-- The descriptor of a method, where `ret` is that of what it returns. -/
def methodText (params : List Param) (ret : List Char8) : List Char8 :=
  chr '(' :: (params.flatMap Param.text ++ chr ')' :: ret)

/-- What is looked up by. -/
def Resolved.descriptor : Resolved → List Char8
  | .primitive c => [c]
  | .system s => s
  | .named s => s

/-- **An element is the class of a parameter**: it is looked up by the descriptor of the
parameter, and as a primitive class if the parameter is of a primitive type. -/
structure IsClassOf (p : Param) (o : Resolved) : Prop where
  descriptor_eq : o.descriptor = p.text
  primitive_iff : (∃ c, o = .primitive c) ↔ p.IsPrimitive

/-- **The types of a method are resolved**: the loop ends, and has stored the class of each
parameter, without leaving an array. -/
def Resolves (params : List Param) (ret : List Char8) : Prop :=
  ∃ n os, dvmGetMethodParamTypes n params.length (methodText params ret) = some os
    ∧ List.Forall₂ IsClassOf params os

/-- **A method whose types make no difference to the flag and the buffer**: no parameter has
more than one dimension, behind an array of primitives there is an array, and the descriptor
of a class has 127 characters at most. -/
structure Plain (params : List Param) : Prop where
  dim_le : ∀ p ∈ params, p.dim ≤ 1
  array_behind : params.IsChain fun p q => p.IsPrimitiveArray → q.dim ≠ 0
  fits : ∀ p ∈ params, p.text.length ≤ 127

/-! ## The rounds of the loop -/

section Loop

variable {desc : List Char8} {argCount : ℕ} {s : State} {os : List Resolved}

/-- The loop ends with some elements. -/
def Halts (desc : List Char8) (argCount : ℕ) (s : State) (os : List Resolved) : Prop :=
  ∃ n, loop desc argCount n s = some os

theorem halts_end (hc : desc[s.desc_index]? = some (chr ')')) :
    Halts desc argCount s os ↔ s.argObjects = os := by
  have hrun (n : ℕ) : loop desc argCount (n + 1) s = some s.argObjects := by
    rw [loop, hc]
    exact if_pos rfl
  constructor
  · rintro ⟨n, hn⟩
    cases n with
    | zero => cases hn
    | succ n => exact Option.some.inj ((hrun n).symm.trans hn)
  · rintro rfl
    exact ⟨1, hrun 0⟩

/-- **A round of the loop.** -/
theorem halts_body {c : Char8} (hc : desc[s.desc_index]? = some c) (hne : c ≠ chr ')') :
    Halts desc argCount s os
      ↔ ∃ s', body desc argCount s c = some s' ∧ Halts desc argCount s' os := by
  have hrun (n : ℕ) : loop desc argCount (n + 1) s
      = (body desc argCount s c).bind (loop desc argCount n) := by
    rw [loop, hc]
    exact if_neg hne
  constructor
  · rintro ⟨n, hn⟩
    cases n with
    | zero => cases hn
    | succ n =>
      rw [hrun n] at hn
      obtain ⟨s', hs', hn⟩ := Option.bind_eq_some_iff.mp hn
      exact ⟨s', hs', n, hn⟩
  · rintro ⟨s', hs', n, hn⟩
    exact ⟨n + 1, by rw [hrun, hs', Option.bind_some, hn]⟩

theorem store_eq_some {object : Resolved} {s' : State} :
    s.store argCount object = some s'
      ↔ s.argObjects.length < argCount
        ∧ { s with argObjects := s.argObjects ++ [object] } = s' := by
  rw [State.store]
  split
  · next h => rw [Option.some_inj, and_iff_right h]
  · next h => exact iff_of_false (Option.some_ne_none _).symm fun h' => h h'.1

/-- What has been stored stays. -/
theorem prefix_of_body {c : Char8} {s' : State} (h : body desc argCount s c = some s') :
    s.argObjects <+: s'.argObjects := by
  have hstore {s₀ : State} {object : Resolved} (h : s₀.store argCount object = some s')
      (hs : s₀.argObjects = s.argObjects) : s.argObjects <+: s'.argObjects := by
    rw [← (store_eq_some.mp h).2, hs]
    exact List.prefix_append _ _
  unfold body at h
  split at h
  · split at h
    · exact hstore h rfl
    · exact hstore h rfl
  · split at h
    · exact Option.some.inj h ▸ List.prefix_rfl
    · split at h
      · split at h
        · cases h
        · dsimp only at h
          rw [Option.ite_none_left_eq_some] at h
          exact hstore h.2 rfl
      · exact Option.some.inj h ▸ List.prefix_rfl

theorem prefix_of_halts (h : Halts desc argCount s os) : s.argObjects <+: os := by
  obtain ⟨n, hn⟩ := h
  induction n generalizing s with
  | zero => cases hn
  | succ n ih =>
    rw [loop] at hn
    split at hn
    · cases hn
    · split at hn
      · exact Option.some.inj hn ▸ List.prefix_rfl
      · obtain ⟨s', hs', hn⟩ := Option.bind_eq_some_iff.mp hn
        exact (prefix_of_body hs').trans (ih hn)

end Loop

/-! ## A parameter -/

section Param

variable {pre rest name : List Char8} {x : Char8} {argCount : ℕ} {acc os : List Resolved} {b : Bool}

theorem getElem?_behind (pre rest : List Char8) (x : Char8) :
    (pre ++ x :: rest)[pre.length]? = some x := by
  rw [List.getElem?_append_right (le_refl _), Nat.sub_self, List.getElem?_cons_zero]

/-- The characters behind others. -/
theorem slice_behind (pre w rest : List Char8) :
    slice (pre ++ (w ++ rest)) pre.length w.length = w := by
  rw [slice, List.drop_left, List.take_left]

/-- The characters behind others, and the one in front of them. -/
theorem slice_before (w : List Char8) :
    slice ((pre ++ [x]) ++ (w ++ rest)) ((pre ++ [x]).length - 1) (w.length + 1) = x :: w := by
  have hlen : (pre ++ [x]).length - 1 = pre.length := by
    rw [List.length_append, List.length_singleton, Nat.add_sub_cancel]
  rw [hlen, List.append_assoc]
  exact slice_behind pre (x :: w) rest

/-- **The end of a class** is found. -/
theorem scanEnd_name (hname : ∀ c ∈ name, c ≠ chr ';') {desc : List Char8} {e_pos : ℕ}
    (hdesc : desc.drop (e_pos + 1) = name ++ chr ';' :: rest) :
    scanEnd desc e_pos = some (e_pos + 1 + name.length) := by
  have hhead : desc[e_pos + 1]? = (name ++ chr ';' :: rest).head? := by
    rw [← hdesc, List.head?_drop]
  induction name generalizing e_pos with
  | nil =>
    rw [scanEnd]
    split
    · next hnone => rw [hhead] at hnone; cases hnone
    · next c hsome =>
      rw [hhead] at hsome
      rw [if_pos (Option.some.inj hsome).symm]
      rfl
  | cons c name ih =>
    have htail : desc.drop (e_pos + 1 + 1) = name ++ chr ';' :: rest := by
      rw [← List.tail_drop, hdesc]
      rfl
    rw [scanEnd]
    split
    · next hnone => rw [hhead] at hnone; cases hnone
    · next d hsome =>
      rw [hhead] at hsome
      rw [if_neg (Option.some.inj hsome ▸ hname c List.mem_cons_self),
        ih (fun d hd => hname d (List.mem_cons_of_mem _ hd)) htail
          (by rw [← htail, List.head?_drop]), List.length_cons]
      congr 1
      omega

/-- **The brackets in front of an element type.** -/
theorem halts_brackets (d : ℕ) :
    Halts (pre ++ (List.replicate d (chr '[') ++ rest)) argCount ⟨pre.length, acc, b⟩ os
      ↔ Halts (pre ++ (List.replicate d (chr '[') ++ rest)) argCount
        ⟨pre.length + d, acc, b || decide (0 < d)⟩ os := by
  induction d generalizing pre b with
  | zero =>
    rw [decide_eq_false (lt_irrefl 0), Bool.or_false]
    rfl
  | succ d ih =>
    have hat : (pre ++ (List.replicate (d + 1) (chr '[') ++ rest))[pre.length]? = some (chr '[') :=
      getElem?_behind _ _ _
    have hbody : body (pre ++ (List.replicate (d + 1) (chr '[') ++ rest)) argCount
        ⟨pre.length, acc, b⟩ (chr '[') = some ⟨pre.length + 1, acc, true⟩ := by
      rw [body, if_neg (by decide), if_pos rfl]
    have hmove : pre ++ (List.replicate (d + 1) (chr '[') ++ rest)
        = (pre ++ [chr '[']) ++ (List.replicate d (chr '[') ++ rest) := by
      rw [List.replicate_succ, List.append_assoc, List.cons_append, List.singleton_append]
    have hnext := @ih (pre ++ [chr '[']) true
    rw [List.length_append, List.length_singleton, ← hmove] at hnext
    rw [halts_body hat (by decide), hbody]
    simp only [Option.some_inj, exists_eq_left', hnext, Bool.true_or, Nat.succ_pos, decide_true,
      Bool.or_true]
    rw [Nat.add_assoc, Nat.add_comm 1 d]

/-- What is looked up for an element type, where the flag is `b` and the character in front of
it is `x`. -/
def lookup (b : Bool) (x : Char8) : Elem → Option Resolved
  | .prim c _ => some (if b then .system [x, c] else .primitive c)
  | .cls name _ _ =>
    let w := (if b then [x] else []) ++ chr 'L' :: (name ++ [chr ';'])
    if 128 ≤ w.length then none else some (.named w)

/-- The flag behind an element type. -/
def flagBehind (b : Bool) : Elem → Bool
  | .prim _ _ => b
  | .cls _ _ _ => false

theorem ne_of_mem_primitives {c : Char8} (hc : c ∈ primitives) : c ≠ chr ')' := by
  rintro rfl
  exact absurd hc (by decide)

/-- **An element type.** -/
theorem halts_elem (e : Elem) (hpre : b = true → ∃ pre', pre = pre' ++ [x]) :
    Halts (pre ++ (e.text ++ rest)) argCount ⟨pre.length, acc, b⟩ os
      ↔ ∃ o, lookup b x e = some o ∧ acc.length < argCount
        ∧ Halts (pre ++ (e.text ++ rest)) argCount
          ⟨(pre ++ e.text).length, acc ++ [o], flagBehind b e⟩ os := by
  cases e with
  | prim c hc =>
    have hbody : body (pre ++ ([c] ++ rest)) argCount ⟨pre.length, acc, b⟩ c
        = State.store argCount ⟨pre.length + 1, acc, b⟩
          (if b then .system [x, c] else .primitive c) := by
      rw [body, if_pos hc]
      cases b with
      | false => rfl
      | true =>
        obtain ⟨pre', rfl⟩ := hpre rfl
        rw [if_neg Bool.true_eq_false.mp]
        exact congrArg (fun w => State.store argCount _ (.system w)) (@slice_before pre' rest x [c])
    rw [Elem.text, halts_body (getElem?_behind pre rest c) (ne_of_mem_primitives hc), hbody]
    simp only [store_eq_some, lookup, Option.some_inj, flagBehind, List.length_append,
      List.length_singleton, exists_eq_left', and_assoc]
    constructor
    · rintro ⟨s', hlt, rfl, h⟩
      exact ⟨hlt, h⟩
    · rintro ⟨hlt, h⟩
      exact ⟨_, hlt, rfl, h⟩
  | cls name hne hplain =>
    have hscan : scanEnd (pre ++ (chr 'L' :: (name ++ [chr ';']) ++ rest)) pre.length
        = some (pre.length + 1 + name.length) := by
      refine @scanEnd_name rest name (fun c hc => (hplain c hc).1) _ _ ?_
      rw [← List.tail_drop, List.drop_left, List.cons_append, List.tail_cons, List.append_assoc]
      rfl
    have hbody : body (pre ++ (chr 'L' :: (name ++ [chr ';']) ++ rest)) argCount
        ⟨pre.length, acc, b⟩ (chr 'L')
        = (lookup b x (.cls name hne hplain)).bind
          (State.store argCount ⟨pre.length + 1 + name.length + 1, acc, false⟩) := by
      have hw : (chr 'L' :: (name ++ [chr ';'])).length = name.length + 2 := by
        rw [List.length_cons, List.length_append, List.length_singleton]
      rw [body, if_neg (by decide), if_neg (by decide), if_pos rfl]
      dsimp only
      rw [hscan]
      dsimp only
      cases b with
      | false =>
        have hlen : pre.length + 1 + name.length - pre.length + 1
            = (chr 'L' :: (name ++ [chr ';'])).length := by omega
        rw [lookup, if_neg Bool.false_ne_true, if_neg Bool.false_ne_true, hlen, slice_behind,
          List.nil_append]
        split <;> rfl
      | true =>
        obtain ⟨pre', rfl⟩ := hpre rfl
        have hpos : (pre' ++ [x]).length = pre'.length + 1 := List.length_append
        have hlen : (pre' ++ [x]).length + 1 + name.length - ((pre' ++ [x]).length - 1) + 1
            = (chr 'L' :: (name ++ [chr ';'])).length + 1 := by omega
        rw [lookup, if_pos rfl, if_pos rfl, hlen, slice_before, List.singleton_append,
          List.length_cons (a := x)]
        split <;> rfl
    have hend : pre.length + 1 + name.length + 1
        = (pre ++ chr 'L' :: (name ++ [chr ';'])).length := by
      rw [List.length_append, List.length_cons, List.length_append, List.length_singleton]
      omega
    rw [Elem.text, halts_body (getElem?_behind pre _ (chr 'L')) (by decide), hbody, hend]
    simp only [Option.bind_eq_some_iff, store_eq_some, flagBehind]
    constructor
    · rintro ⟨s', ⟨o, ho, hlt, rfl⟩, h⟩
      exact ⟨o, ho, hlt, h⟩
    · rintro ⟨o, ho, hlt, h⟩
      exact ⟨_, ⟨o, ho, hlt, rfl⟩, h⟩

/-- The character in front of an element type. -/
def charBefore (x : Char8) (d : ℕ) : Char8 := if 0 < d then chr '[' else x

/-- **A parameter.** -/
theorem halts_param (p : Param) (hpre : b = true → ∃ pre', pre = pre' ++ [x]) :
    Halts (pre ++ (p.text ++ rest)) argCount ⟨pre.length, acc, b⟩ os
      ↔ ∃ o, lookup (b || decide (0 < p.dim)) (charBefore x p.dim) p.elem = some o
        ∧ acc.length < argCount
        ∧ Halts (pre ++ (p.text ++ rest)) argCount ⟨(pre ++ p.text).length, acc ++ [o],
          flagBehind (b || decide (0 < p.dim)) p.elem⟩ os := by
  have hmove : pre ++ (p.text ++ rest)
      = (pre ++ List.replicate p.dim (chr '[')) ++ (p.elem.text ++ rest) := by
    rw [Param.text, List.append_assoc, List.append_assoc]
  have hlen : pre.length + p.dim = (pre ++ List.replicate p.dim (chr '[')).length := by
    rw [List.length_append, List.length_replicate]
  have hend : (pre ++ p.text).length
      = ((pre ++ List.replicate p.dim (chr '[')) ++ p.elem.text).length := by
    rw [Param.text, List.append_assoc]
  have hbefore : (b || decide (0 < p.dim)) = true →
      ∃ pre', pre ++ List.replicate p.dim (chr '[') = pre' ++ [charBefore x p.dim] := by
    intro hb
    rw [charBefore]
    cases hd : p.dim with
    | zero =>
      rw [hd, decide_eq_false (lt_irrefl 0), Bool.or_false] at hb
      rw [List.replicate_zero, List.append_nil, if_neg (lt_irrefl 0)]
      exact hpre hb
    | succ d =>
      rw [List.replicate_succ', if_pos (Nat.succ_pos d)]
      exact ⟨pre ++ List.replicate d (chr '['), (List.append_assoc _ _ _).symm⟩
  have hbrackets := @halts_brackets pre (p.elem.text ++ rest) argCount acc os b p.dim
  rw [← List.append_assoc (List.replicate _ _)] at hbrackets
  rw [hend]
  rw [Param.text, hbrackets, ← Param.text, hmove, hlen]
  exact halts_elem p.elem hbefore

end Param

/-! ## A method -/

/-- What makes no difference where the flag is `b`. -/
def PlainFrom : Bool → List Param → Prop
  | _, [] => True
  | b, p :: ps =>
    (p.dim ≤ 1 ∧ (b = true → p.dim ≠ 0) ∧ p.text.length ≤ 127)
      ∧ PlainFrom (flagBehind (decide (0 < p.dim)) p.elem) ps

section Method

variable {p : Param} {b : Bool} {x : Char8} {o : Resolved}

theorem descriptor_lookup {e : Elem} (h : lookup b x e = some o) :
    o.descriptor = (if b then [x] else []) ++ e.text := by
  cases e with
  | prim c hc =>
    rw [← Option.some.inj h]
    cases b <;> rfl
  | cls name hne hplain =>
    rw [lookup, Option.ite_none_left_eq_some] at h
    rw [← Option.some.inj h.2]
    rfl

theorem length_lt_of_lookup {name : List Char8} {hne : name ≠ []}
    {hplain : ∀ c ∈ name, c ≠ chr ';' ∧ c ≠ 0#8} (h : lookup b x (.cls name hne hplain) = some o) :
    o.descriptor.length ≤ 127 := by
  rw [lookup, Option.ite_none_left_eq_some] at h
  rw [← Option.some.inj h.2]
  exact Nat.le_of_lt_succ (Nat.lt_of_not_le h.1)

/-- The character in front is the bracket of an array. -/
theorem bracket_eq (hdim : p.dim ≤ 1) (hb : b = true → p.dim ≠ 0) :
    (if b || decide (0 < p.dim) then [charBefore x p.dim] else [])
      = List.replicate p.dim (chr '[') := by
  rcases Nat.le_one_iff_eq_zero_or_eq_one.mp hdim with h | h
  · have hfalse : b = false := Bool.eq_false_iff.mpr fun hb' => hb hb' h
    rw [h, hfalse]
    rfl
  · rw [h, decide_eq_true Nat.one_pos, Bool.or_true, if_pos rfl, charBefore, if_pos Nat.one_pos]
    rfl

/-- **When a parameter is looked up by its descriptor.** -/
theorem lookup_iff :
    (∃ o, lookup (b || decide (0 < p.dim)) (charBefore x p.dim) p.elem = some o ∧ IsClassOf p o)
      ↔ p.dim ≤ 1 ∧ (b = true → p.dim ≠ 0) ∧ p.text.length ≤ 127 := by
  constructor
  · rintro ⟨o, ho, hcls⟩
    have hdesc := (descriptor_lookup ho).symm.trans hcls.descriptor_eq
    have hlen := congrArg List.length (List.append_cancel_right hdesc)
    rw [List.length_replicate] at hlen
    have hle : p.text.length ≤ 127 := by
      rw [← hcls.descriptor_eq]
      cases he : p.elem with
      | prim c hc =>
        rw [he] at ho
        rw [← Option.some.inj ho]
        split
        · exact show 2 ≤ 127 by decide
        · exact show 1 ≤ 127 by decide
      | cls name hne hplain =>
        rw [he] at ho
        exact length_lt_of_lookup ho
    refine ⟨?_, fun hb => ?_, hle⟩
    · rw [← hlen]
      split
      · exact Nat.le_refl 1
      · exact Nat.zero_le 1
    · rw [hb, Bool.true_or, if_pos rfl] at hlen
      rw [← hlen]
      exact Nat.one_ne_zero
  · rintro ⟨hdim, hb, hfits⟩
    have hbracket := @bracket_eq p b x hdim hb
    have hflag : (b || decide (0 < p.dim)) = decide (p.dim ≠ 0) := by
      cases b with
      | false => rw [Bool.false_or]; exact decide_eq_decide.mpr Nat.pos_iff_ne_zero
      | true => rw [decide_eq_true (hb rfl)]; rfl
    cases he : p.elem with
    | prim c hc =>
      have hlook : lookup (b || decide (0 < p.dim)) (charBefore x p.dim) (.prim c hc)
          = some (if b || decide (0 < p.dim) then .system [charBefore x p.dim, c]
            else .primitive c) := rfl
      refine ⟨_, hlook, (descriptor_lookup hlook).trans ?_, ?_⟩
      · rw [hbracket, Param.text, he]
      · rw [hflag, Param.IsPrimitive]
        by_cases hd : p.dim = 0
        · rw [decide_eq_false (not_not.mpr hd)]
          exact iff_of_true ⟨c, rfl⟩ ⟨hd, c, hc, he⟩
        · rw [decide_eq_true hd]
          exact iff_of_false (fun ⟨_, h⟩ => Resolved.noConfusion h) fun h => hd h.1
    | cls name hne hplain =>
      have htext : (if b || decide (0 < p.dim) then [charBefore x p.dim] else [])
          ++ chr 'L' :: (name ++ [chr ';']) = p.text := by
        rw [hbracket, Param.text, he]
        rfl
      refine ⟨.named p.text, ?_, rfl, ?_⟩
      · rw [lookup, htext]
        exact if_neg (Nat.not_le_of_lt (Nat.lt_succ_of_le hfits))
      · exact iff_of_false (fun ⟨_, h⟩ => Resolved.noConfusion h)
          fun ⟨_, c, hc, h⟩ => Elem.noConfusion (he.symm.trans h)

/-- Behind a parameter there is a character in front. -/
theorem exists_char_behind {pre : List Char8} : ∃ x', flagBehind b p.elem = true →
    ∃ pre', pre ++ p.text = pre' ++ [x'] := by
  cases he : p.elem with
  | prim c hc =>
    refine ⟨c, fun _ => ⟨pre ++ List.replicate p.dim (chr '['), ?_⟩⟩
    rw [Param.text, he, Elem.text, List.append_assoc]
  | cls name hne hplain => exact ⟨0#8, fun h => absurd h Bool.false_ne_true⟩

/-- **The parameters that are left.** -/
theorem resolves_from {ret : List Char8} {argCount : ℕ} (ps : List Param) {pre : List Char8}
    {acc : List Resolved} (hpre : b = true → ∃ pre', pre = pre' ++ [x])
    (hcount : acc.length + ps.length = argCount) :
    (∃ os, Halts (pre ++ (ps.flatMap Param.text ++ chr ')' :: ret)) argCount
          ⟨pre.length, acc, b⟩ (acc ++ os) ∧ List.Forall₂ IsClassOf ps os)
      ↔ PlainFrom b ps := by
  induction ps generalizing pre acc b x with
  | nil =>
    refine iff_of_true ⟨[], ?_, List.Forall₂.nil⟩ trivial
    rw [halts_end (getElem?_behind pre ret (chr ')')), List.append_nil]
  | cons p ps ih =>
    have hlt : acc.length < argCount := by
      rw [← hcount, List.length_cons]
      omega
    have hmove : pre ++ ((p :: ps).flatMap Param.text ++ chr ')' :: ret)
        = pre ++ (p.text ++ (ps.flatMap Param.text ++ chr ')' :: ret)) := by
      rw [List.flatMap_cons, List.append_assoc]
    have hmove' : pre ++ (p.text ++ (ps.flatMap Param.text ++ chr ')' :: ret))
        = (pre ++ p.text) ++ (ps.flatMap Param.text ++ chr ')' :: ret) :=
      (List.append_assoc _ _ _).symm
    have hcount' (o : Resolved) : (acc ++ [o]).length + ps.length = argCount := by
      rw [← hcount, List.length_append, List.length_singleton, List.length_cons]
      omega
    obtain ⟨x', hpre'⟩ := @exists_char_behind p (b || decide (0 < p.dim)) pre
    have hflag (hdim : b = true → p.dim ≠ 0) : flagBehind (b || decide (0 < p.dim)) p.elem
        = flagBehind (decide (0 < p.dim)) p.elem := by
      cases b with
      | false => rw [Bool.false_or]
      | true => rw [decide_eq_true (Nat.pos_of_ne_zero (hdim rfl)), Bool.or_true]
    rw [PlainFrom, ← @lookup_iff p b x]
    constructor
    · rintro ⟨os, hhalts, hforall⟩
      obtain ⟨o, os, hcls, hrest, rfl⟩ := List.forall₂_cons_left_iff.mp hforall
      rw [hmove] at hhalts
      obtain ⟨o', ho, -, hhalts⟩ := (halts_param p hpre).mp hhalts
      obtain ⟨rest, hprefix⟩ := prefix_of_halts hhalts
      have heq : o' = o := by
        rw [List.append_assoc] at hprefix
        exact List.head_eq_of_cons_eq (List.append_cancel_left hprefix)
      subst heq
      have hlook : ∃ o, lookup (b || decide (0 < p.dim)) (charBefore x p.dim) p.elem = some o
          ∧ IsClassOf p o := ⟨o', ho, hcls⟩
      refine ⟨hlook, ?_⟩
      rw [← hflag (lookup_iff.mp hlook).2.1, ← ih hpre' (hcount' o'), ← hmove']
      exact ⟨os, by rwa [List.append_assoc], hrest⟩
    · rintro ⟨hlook, hps⟩
      obtain ⟨o, ho, hcls⟩ := hlook
      rw [← hflag (lookup_iff.mp ⟨o, ho, hcls⟩).2.1, ← ih hpre' (hcount' o), ← hmove'] at hps
      obtain ⟨os, hhalts, hrest⟩ := hps
      refine ⟨o :: os, ?_, List.Forall₂.cons hcls hrest⟩
      rw [hmove]
      refine (halts_param p hpre).mpr ⟨o, ho, hlt, ?_⟩
      rwa [List.append_assoc] at hhalts

theorem flagBehind_iff :
    flagBehind (decide (0 < p.dim)) p.elem = true ↔ p.IsPrimitiveArray := by
  unfold Param.IsPrimitiveArray
  cases p.elem with
  | prim c hc =>
    rw [flagBehind, decide_eq_true_iff, Nat.pos_iff_ne_zero]
    exact (and_iff_left ⟨c, hc, rfl⟩).symm
  | cls name hne hplain =>
    exact iff_of_false Bool.false_ne_true fun ⟨_, c, hc, h⟩ => Elem.noConfusion h

theorem plainFrom_iff (ps : List Param) :
    PlainFrom b ps ↔ Plain ps ∧ (b = true → ∀ q ∈ ps.head?, q.dim ≠ 0) := by
  induction ps generalizing b with
  | nil =>
    refine iff_of_true trivial
      ⟨⟨?_, List.IsChain.nil, ?_⟩, fun _ q hq => absurd hq (Option.not_mem_none q)⟩
    · exact fun q hq => absurd hq List.not_mem_nil
    · exact fun q hq => absurd hq List.not_mem_nil
  | cons p ps ih =>
    rw [PlainFrom, ih, flagBehind_iff]
    constructor
    · rintro ⟨⟨hdim, hb, hfits⟩, hplain, hhead⟩
      refine ⟨⟨?_, ?_, ?_⟩, fun hb' q hq => ?_⟩
      · exact List.forall_mem_cons.mpr ⟨hdim, hplain.dim_le⟩
      · exact List.isChain_cons.mpr ⟨fun q hq hp => hhead hp q hq, hplain.array_behind⟩
      · exact List.forall_mem_cons.mpr ⟨hfits, hplain.fits⟩
      · rw [← Option.some.inj hq]
        exact hb hb'
    · rintro ⟨⟨hdim, hchain, hfits⟩, hhead⟩
      obtain ⟨hfirst, hchain⟩ := List.isChain_cons.mp hchain
      exact ⟨⟨(List.forall_mem_cons.mp hdim).1, fun hb => hhead hb p rfl,
          (List.forall_mem_cons.mp hfits).1⟩,
        ⟨(List.forall_mem_cons.mp hdim).2, hchain, (List.forall_mem_cons.mp hfits).2⟩,
        fun hp q hq => hfirst q hq hp⟩

end Method

/-- The loop over a method is that over its parameters from the first one on. -/
theorem resolves_iff_plainFrom (params : List Param) (ret : List Char8) :
    Resolves params ret ↔ PlainFrom false params := by
  have hdesc : ((methodText params ret).dropWhile (· ≠ chr '(')).tail
      = [] ++ (params.flatMap Param.text ++ chr ')' :: ret) := by
    rw [methodText, List.dropWhile_cons_of_neg (by simp), List.tail_cons, List.nil_append]
  have hfrom := @resolves_from false 0#8 ret params.length params [] []
    (fun h => absurd h Bool.false_ne_true) (Nat.zero_add _)
  rw [← hfrom, Resolves]
  unfold dvmGetMethodParamTypes
  rw [hdesc]
  constructor
  · rintro ⟨n, os, hn, hcls⟩
    exact ⟨os, ⟨n, hn⟩, hcls⟩
  · rintro ⟨os, ⟨n, hn⟩, hcls⟩
    exact ⟨n, os, hn, hcls⟩

/-- **The types of a method are resolved exactly if** it is plain: for every descriptor, the
loop ends with the class of each parameter, looked up by its own descriptor, and within its
arrays, if and only if no parameter has two dimensions or more, what is behind an array of
primitives is an array, and no descriptor has 128 characters or more. -/
theorem resolves_iff (params : List Param) (ret : List Char8) :
    Resolves params ret ↔ Plain params := by
  rw [resolves_iff_plainFrom, plainFrom_iff]
  exact and_iff_left fun h => absurd h Bool.false_ne_true

/-- **A parameter behind an array is taken for one**: of `([II)V` the second parameter is looked
up as `II`. -/
theorem not_resolves_behind_array :
    ¬ Resolves [⟨1, .prim (chr 'I') (by decide)⟩, ⟨0, .prim (chr 'I') (by decide)⟩] [chr 'V'] := by
  rw [resolves_iff_plainFrom]
  rintro ⟨-, ⟨-, hdim, -⟩, -⟩
  exact hdim rfl rfl

end DalvikHook
