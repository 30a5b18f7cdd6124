import AndroidReverse.ExportHookCopy
import AndroidReverse.ExportHookJump

/-!
# `and_hook`

`and_hook` replaces the first eight bytes of a function by a load of the program counter
and the address of the new function, and saves them in a trampoline that goes on behind
them. The function may be ARM or Thumb. The caller gets the address of the trampoline, or
would: `(void*)trampoline + thumb ? 1 : 0` is `1` for every trampoline, so that there is no
input for which the pointer is one to call (`not_usable`). The redirect itself is right at a
multiple of four (`andHook_redirects`).
-/

namespace AndHook

open Arm ExportHook

/-! ## The code -/

/-- `__memcpy`: byte by byte, upwards. -/
def memcpy (d s : Word) (n : ℕ) (m : Mem) : Mem :=
  (List.range n).foldl
    (fun m i => Function.update m (d + BitVec.ofNat 32 i) (m (s + BitVec.ofNat 32 i))) m

/-- The protections that `and_hook` asks for. -/
inductive Prot where
  /-- `PROT_EXEC|PROT_READ`. -/
  | exec
  /-- `PROT_READ|PROT_WRITE`. -/
  | write
deriving DecidableEq, Repr

/-- The system that `and_hook` runs on. -/
structure System where
  /-- `sysconf( _SC_PAGESIZE )`. -/
  pagesize : Word
  /-- The memory that `calloc` returns. -/
  trampoline : Word
  /-- Whether `__mprotect_no_errno_set` returns `0` for a page. -/
  mprotect : Word → Prot → Bool

/-- Bit 0 of a function address, the `thumb` of `and_hook`. -/
def isThumb (orig_fcn : Word) : Bool := orig_fcn &&& 1#32 != 0#32

/-- `ldr pc, [pc, #-4]`, which is another word in Thumb state. -/
def jumpWord (thumb : Bool) : Word := if thumb then 0xf000f85f#32 else 0xe51ff004#32

/-- The start of the page, by a signed remainder as in the source. -/
def alignedPage (pagesize a : Word) : Word := a - a.srem pagesize

/-- `and_hook`: the memory and `*orig_fcn_ptr`. -/
def andHook (sys : System) (orig_fcn new_fcn : Word) (m : Mem) : Mem × Word :=
  let thumb := isThumb orig_fcn
  let orig_fcn := if thumb then orig_fcn - 1#32 else orig_fcn
  let m := mapZero sys.trampoline sys.pagesize.toNat m
  let m := memcpy sys.trampoline orig_fcn 8 m
  let m := m.write 4 (sys.trampoline + 8#32) (jumpWord thumb)
  let m := m.write 4 (sys.trampoline + 12#32) (orig_fcn + if thumb then 9#32 else 8#32)
  let aligned_trampoline := alignedPage sys.pagesize sys.trampoline
  let aligned_orig_fcn := alignedPage sys.pagesize orig_fcn
  if !sys.mprotect aligned_trampoline .exec then (m, 0#32)
  else if !sys.mprotect aligned_orig_fcn .write then (m, 0#32)
  else
    let m := m.write 4 orig_fcn (jumpWord thumb)
    let m := m.write 4 (orig_fcn + 4#32) new_fcn
    if !sys.mprotect aligned_orig_fcn .exec then (m, 0#32)
    -- `?:` binds less tightly than `+`
    else (m, if sys.trampoline + (if thumb then 1#32 else 0#32) != 0#32 then 1#32 else 0#32)

/-! ## What it is for -/

/-- A call of a function in a memory, with the instruction set that bit 0 of its address
says. -/
def called (s : State) (orig_fcn : Word) (m : Mem) : State :=
  { s with pc := codeAddr orig_fcn, thumb := isThumb orig_fcn, mem := m }

/-- Control gets from a call of a function to another one, with the registers as they
were. -/
def Redirects (orig_fcn new_fcn : Word) (m : Mem) : Prop :=
  ∀ s : State, ∃ t, RunsWithin (codeAddr orig_fcn) 8 (called s orig_fcn m) t ∧
    (called s orig_fcn m).bxWritePC new_fcn = some t

/-- The bytes that `and_hook` changes. -/
def touched (sys : System) (orig_fcn : Word) : Set Word :=
  {a | InBlock (codeAddr orig_fcn) 8 a ∨ InBlock sys.trampoline sys.pagesize.toNat a}

/-- A call by the pointer runs what the first eight bytes of the function were, and goes on
behind them. -/
def RunsOriginal (sys : System) (orig_fcn ptr : Word) (m m' : Mem) : Prop :=
  ∀ s t : State, RunsWithin (codeAddr orig_fcn) 8 (called s orig_fcn m) t →
    t.pc = codeAddr orig_fcn + 8#32 → ∃ u t', { s with mem := m' }.bxWritePC ptr = some u ∧
      RunsWithin sys.trampoline 16 u t' ∧ ExportHook.AgreeOff (touched sys orig_fcn) t t'

/-- **A usable hook.** -/
structure Usable (sys : System) (orig_fcn new_fcn : Word) (m m' : Mem) (ptr : Word) : Prop where
  /-- The function leads to the new one. -/
  redirects : Redirects orig_fcn new_fcn m'
  /-- The pointer is the trampoline, with bit 0 set for a Thumb function. -/
  pointer : ptr = sys.trampoline + if isThumb orig_fcn then 1#32 else 0#32
  /-- It is one to call the function by. -/
  original : RunsOriginal sys orig_fcn ptr m m'

section AndHook

variable {sys : System} {orig_fcn new_fcn : Word} {m : Mem}

/-- **The pointer is no address**, whatever the input. -/
theorem andHook_ptr : (andHook sys orig_fcn new_fcn m).2 = 0#32
    ∨ (andHook sys orig_fcn new_fcn m).2 = 1#32 := by
  unfold andHook
  dsimp only
  split_ifs <;> first | exact Or.inl rfl | exact Or.inr rfl

/-- **No hook is usable**: `calloc` does not return an address as low as that. -/
theorem not_usable (haligned : sys.trampoline.toNat % 8 = 0) (hnonnull : sys.trampoline ≠ 0#32) :
    ¬ Usable sys orig_fcn new_fcn m (andHook sys orig_fcn new_fcn m).1
      (andHook sys orig_fcn new_fcn m).2 := by
  intro h
  have hpointer := h.pointer
  have hthumb : (if isThumb orig_fcn then 1#32 else 0#32) = 1#32
      ∨ (if isThumb orig_fcn then 1#32 else 0#32) = 0#32 := by
    split
    · exact Or.inl rfl
    · exact Or.inr rfl
  rcases @andHook_ptr sys orig_fcn new_fcn m with hptr | hptr <;> rw [hptr] at hpointer <;>
    rcases hthumb with hbit | hbit <;> rw [hbit] at hpointer <;> bv_omega

/-! ## The redirect -/

/-- What is at the function if all pages are as `and_hook` wants them. -/
theorem andHook_wordsAt (hmprotect : ∀ a p, sys.mprotect a p = true) :
    WordsAt (andHook sys orig_fcn new_fcn m).1
      (if isThumb orig_fcn then orig_fcn - 1#32 else orig_fcn)
      [jumpWord (isThumb orig_fcn), new_fcn] := by
  unfold andHook
  simp only [hmprotect, Bool.not_true, Bool.false_eq_true, if_false]
  generalize (if isThumb orig_fcn then orig_fcn - 1#32 else orig_fcn) = base
  generalize Mem.write (Mem.write (memcpy _ _ _ _) _ _ _) _ _ _ = m₀
  intro i v hv
  match i, hv with
  | 0, hv =>
    have hkeep : ((m₀.write 4 base (jumpWord (isThumb orig_fcn))).write 4 (base + 4#32)
        new_fcn).read32 base = (m₀.write 4 base (jumpWord (isThumb orig_fcn))).read32 base :=
      Mem.read32_congr fun x hx => Mem.write_of_out _ (by
        obtain ⟨k, hk, rfl⟩ := exists_of_mem_wordBytes hx
        unfold InBlock
        bv_omega)
    rw [show base + BitVec.ofNat 32 (4 * 0) = base from BitVec.add_zero base, hkeep,
      Mem.read32_write]
    exact Option.some.inj hv
  | 1, hv =>
    exact (Mem.read32_write _ _ _).trans (Option.some.inj hv)

/-- Where the function is. -/
theorem isThumb_eq (haddr : FunctionAddr orig_fcn) :
    isThumb orig_fcn = decide (orig_fcn.toNat % 2 = 1) ∧
      (if isThumb orig_fcn then orig_fcn - 1#32 else orig_fcn) = codeAddr orig_fcn := by
  have hbit : isThumb orig_fcn = decide (orig_fcn.toNat % 2 = 1) := by
    have hmod : (orig_fcn &&& 1#32).toNat = orig_fcn.toNat % 2 :=
      (BitVec.toNat_and ..).trans (Nat.and_one_is_mod _)
    rw [isThumb, Bool.eq_iff_iff, bne_iff_ne, decide_eq_true_iff, ne_eq, ← BitVec.toNat_inj, hmod]
    exact Nat.mod_two_ne_zero
  refine ⟨hbit, ?_⟩
  rw [hbit]
  by_cases hodd : orig_fcn.toNat % 2 = 1
  · rw [decide_eq_true hodd, if_pos rfl, codeAddr_thumb hodd]
  · rw [decide_eq_false hodd, if_neg Bool.false_ne_true, codeAddr_arm (haddr.resolve_right hodd)]

/-- A load of the program counter and the address behind it lead to the address. -/
theorem redirects_of_wordsAt {m' : Mem} (halign : (codeAddr orig_fcn).toNat % 4 = 0)
    (hnew : new_fcn.toNat % 4 ≠ 2)
    (hcode : WordsAt m' (codeAddr orig_fcn) [jumpWord (isThumb orig_fcn), new_fcn]) :
    Redirects orig_fcn new_fcn m' := by
  intro s
  obtain ⟨t, ht⟩ : ∃ t, (called s orig_fcn m').bxWritePC new_fcn = some t := by
    rw [← Option.ne_none_iff_exists']
    exact fun hnone => hnew (State.bxWritePC_eq_none hnone)
  refine ⟨t, ?_, ht⟩
  cases hthumb : isThumb orig_fcn with
  | false =>
    rw [hthumb] at hcode
    exact (jumpArm_iff (s := called s orig_fcn m') halign hthumb rfl hcode).mpr
      (Or.inr ⟨t, ht, RunsWithin.refl t⟩)
  | true =>
    rw [hthumb] at hcode
    have hword : m'.read32 (codeAddr orig_fcn) = 0xF000F85F#32 := by
      rw [← BitVec.add_zero (codeAddr orig_fcn)]
      exact hcode 0 _ rfl
    have hlo := congrArg lowHalf hword
    have hhi := congrArg highHalf hword
    rw [Mem.read32, lowHalf_append] at hlo
    rw [Mem.read32, highHalf_append] at hhi
    have hliteral : m'.read32 (codeAddr orig_fcn + 4#32) = new_fcn := hcode 1 _ rfl
    have hdecode :
        decodeThumb32 (0xF85F#16 ++ 0xF000#16) = some ⟨always, .ldrLit false PC 0#32⟩ := by
      decide
    have haligned := align4_of_aligned (aligned_offset (k := 4) halign rfl)
    have ha : offset false (align4 (codeAddr orig_fcn + 4#32)) 0#32 = codeAddr orig_fcn + 4#32 :=
      (BitVec.sub_zero _).trans haligned
    refine RunsWithin.head (inBlock_base (by decide)) ?_ (RunsWithin.refl t)
    rw [step_thumb32 (s := called s orig_fcn m') hthumb hlo hhi (by decide) hdecode,
      Insn.exec_always, Op.exec]
    show State.writeLoaded _ _ PC (offset false (align4 (codeAddr orig_fcn + 4#32)) 0#32)
      (m'.read32 (offset false (align4 (codeAddr orig_fcn + 4#32)) 0#32)) = _
    rw [ha, hliteral, State.writeLoaded, if_pos rfl, if_pos haligned, ht]

/-- **The redirect is right at a multiple of four**, where the literal is behind the load in
both instruction sets. -/
theorem andHook_redirects (hmprotect : ∀ a p, sys.mprotect a p = true)
    (haddr : FunctionAddr orig_fcn) (halign : (codeAddr orig_fcn).toNat % 4 = 0)
    (hnew : new_fcn.toNat % 4 ≠ 2) :
    Redirects orig_fcn new_fcn (andHook sys orig_fcn new_fcn m).1 :=
  redirects_of_wordsAt halign hnew ((isThumb_eq haddr).2 ▸ andHook_wordsAt hmprotect)

end AndHook

/-- A system with pages of `0x1000` bytes, whose `calloc` returns `0x40000008`. -/
def system : System := ⟨0x1000#32, 0x40000008#32, fun _ _ => true⟩

/-- A Thumb function at `0x1000`. -/
theorem not_usable_thumb :
    ¬ Usable system 0x1001#32 0x5001#32 (fun _ => 0#8)
      (andHook system 0x1001#32 0x5001#32 (fun _ => 0#8)).1
      (andHook system 0x1001#32 0x5001#32 (fun _ => 0#8)).2 :=
  not_usable (by decide) (by decide)

/-- An ARM function at `0x1000` that begins with two `nop`s: the pointer is not the
trampoline. -/
theorem not_usable_arm :
    ¬ Usable system 0x1000#32 0x5000#32 (functionMem [0xE320F000#32, 0xE320F000#32])
      (andHook system 0x1000#32 0x5000#32 (functionMem [0xE320F000#32, 0xE320F000#32])).1
      (andHook system 0x1000#32 0x5000#32 (functionMem [0xE320F000#32, 0xE320F000#32])).2 := by
  intro h
  have hpointer : (1#32 : Word) = 0x40000008#32 + 0#32 := h.pointer
  exact absurd hpointer (by decide)

end AndHook
