import AndroidReverse.InlineHookRuns
import AndroidReverse.RelocateLayout

/-!
# Where a trampoline resumes

The relocator decides how many instructions of a target it moves by decoding
the prologue it was given; `doInlineHook` decides how many bytes it overwrites
by the alignment of the target. The two never consult each other, and they have
to agree: the trampoline ends with a jump back into the target, which must not
land in the bytes of the hook, nor inside an instruction.

`ResumesBeyondPatch` is that agreement. The decoding it speaks of is that of
the code of the target, which goes on behind the prologue, so it also says what
becomes of an instruction that the end of the prologue cuts in two: it is not
relocated, and the jump goes to its start.
-/

namespace InlineHook

open Arm Relocate

/-! ## The code of a target -/

/-- The code of a target, from its start on. -/
def codeAt (code : Mem) (target_addr : Word) (k : ℕ) : Byte :=
  code (clearBit0 target_addr + BitVec.ofNat 32 k)

/-- A Thumb target is odd. -/
theorem clearBit0_of_testBit0 {t : Word} (h : testBit0 t) : clearBit0 t = t - 1#32 := by
  have h0 : t.toNat % 2 = 1 := by
    by_contra hne
    refine isThumbTarget_iff.mp h (BitVec.eq_of_toNat_eq ?_)
    rw [BitVec.toNat_and, show (1#32).toNat = 1 from rfl, Nat.and_one_is_mod]
    exact Nat.mod_two_ne_one.mp hne
  have hand : (clearBit0 t).toNat = t.toNat / 2 * 2 := toNat_align2 t
  refine BitVec.eq_of_toNat_eq ?_
  rw [hand, BitVec.toNat_sub_of_le (by rw [BitVec.le_def]; show 1 ≤ t.toNat; omega)]
  show _ = t.toNat - 1
  omega

theorem clearBit0_even (t : Word) : (clearBit0 t).toNat % 2 = 0 := by
  have h : (clearBit0 t).toNat = t.toNat / 2 * 2 := toNat_align2 t
  omega

/-- The number of bytes that `doInlineHook` overwrites. -/
def patchLength (target_addr : Word) : ℕ :=
  if testBit0 target_addr then (if (clearBit0 target_addr).toNat % 4 ≠ 0 then 10 else 8) else 8

theorem thumbPatch_length (t n : Word) (ht : testBit0 t) :
    2 * (thumbPatch t n).length = patchLength t := by
  unfold thumbPatch patchLength
  rw [if_pos ht]
  split_ifs <;> rfl

/-- **`doInlineHook` overwrites these bytes and no others.** -/
theorem doInlineHook_patch (pos : ℕ) (p : Process) :
    Set.EqOn (doInlineHook pos p).code p.code
      {a | InBlock (clearBit0 (p.info.item pos).targetAddr)
        (patchLength (p.info.item pos).targetAddr) a}ᶜ := by
  intro a ha
  have hlen : patchLength (p.info.item pos).targetAddr
      ≤ (a - clearBit0 (p.info.item pos).targetAddr).toNat := Nat.le_of_not_lt ha
  unfold doInlineHook
  by_cases ht : testBit0 (p.info.item pos).targetAddr
  · simp only [if_pos ht]
    refine Mem.place_of_out (by decide) ?_
    rw [thumbPatch_length _ _ ht]
    exact hlen
  · simp only [if_neg ht]
    refine Mem.place_of_out (by decide) ?_
    unfold patchLength at hlen
    rw [if_neg ht, clearBit0_of_not_testBit0 ht] at hlen
    exact hlen

/-! ## Trampolines in memory -/

/-- The trampoline is in memory from an address on. -/
def TrampolineAt (m : Mem) (base : Word) : Trampoline → Prop
  | .thumb code => HalvesAt m base code
  | .arm code => WordsAt m base code

/-- The state about to execute the instruction at an offset of a trampoline
page. -/
structure AtOffset (target_addr : Word) (trampoline : Trampoline) (page : Word) (k : ℕ)
    (s : State) : Prop where
  aligned : page.toNat % 4 = 0
  loaded : TrampolineAt s.mem page trampoline
  thumb : s.thumb = testBit0 target_addr
  pc : s.pc = page + BitVec.ofNat 32 k

/-- The address of instruction `m` of a target, with bit 0 as the target
has it. -/
def resumeAddr (code : Mem) (target_addr : Word) (m : ℕ) : Word :=
  target_addr + BitVec.ofNat 32 (insnOffset target_addr (codeAt code target_addr) m)

/-- **The jump behind the blocks** goes to the first instruction that has
none. -/
theorem step_finalJump {code : Mem} {t page : Word} {m : ℕ} {s : State}
    (h : AtOffset t (trampolineOf code t (codeAt code t) m) page
      (blockOffset code t (codeAt code t) m) s) :
    step s = s.bxWritePC (resumeAddr code t m) := by
  obtain ⟨hal, hload, hthumb, hpc⟩ := h
  have hal4 := (blockOffset_aligned code t (codeAt code t) m).1
  unfold trampolineOf at hload
  unfold blockOffset at hpc hal4
  by_cases ht : isThumbTarget t = true
  · rw [if_pos ht] at hload hpc hal4
    have hjump : t - 1#32 + BitVec.ofNat 32 (insnOffset t (codeAt code t) m) + 1#32
        = resumeAddr code t m := by
      unfold resumeAddr
      rw [BitVec.add_assoc, BitVec.add_comm _ 1#32, ← BitVec.add_assoc, BitVec.sub_add_cancel]
    rw [hjump, ldrPc_eq] at hload
    have hs : HalvesAt s.mem s.pc [0xF8DF#16, 0xF000#16, lowHalf (resumeAddr code t m),
        highHalf (resumeAddr code t m)] := by
      rw [hpc]
      exact HalvesAt.append_right hload
    refine hs.step_ldrPc (i := 0) ?_ rfl (hthumb.trans ht) (BitVec.add_zero _).symm rfl rfl rfl rfl
    rw [hpc]
    exact aligned_offset hal hal4
  · rw [if_neg ht] at hload hpc hal4
    have hs : WordsAt s.mem s.pc [0xE51FF004#32, resumeAddr code t m] := by
      rw [hpc]
      exact WordsAt.append_right hload
    refine hs.step_ldrPc (i := 0) ?_ (hthumb.trans (Bool.not_eq_true _ ▸ ht))
      (BitVec.add_zero _).symm rfl rfl
    rw [hpc]
    exact aligned_offset hal hal4

/-- The jump of a Thumb trampoline stays in Thumb state. -/
theorem bxWritePC_resumeAddr {code : Mem} {t : Word} (ht : testBit0 t) (m : ℕ) (s : State) :
    s.bxWritePC (resumeAddr code t m)
      = some { s with
          pc := clearBit0 t + BitVec.ofNat 32 (insnOffset t (codeAt code t) m)
          thumb := true } := by
  have heven : (clearBit0 t + BitVec.ofNat 32 (insnOffset t (codeAt code t) m)).toNat % 2 = 0 := by
    unfold insnOffset
    rw [if_pos (show isThumbTarget t = true from ht),
      toNat_offset_mod (by decide) (clearBit0_even t), Nat.mul_mod_right]
  rw [← State.bxWritePC_thumb s heven]
  unfold resumeAddr
  rw [BitVec.add_assoc, BitVec.add_comm _ 1#32, ← BitVec.add_assoc, clearBit0_of_testBit0 ht,
    BitVec.sub_add_cancel]

/-! ## The trampoline of a registration -/

section Registration

variable {os : Os} {t n a : Word} {p p' : Process}

theorem four_dvd_windowLength (t : Word) : 4 ∣ windowLength t := by
  rcases windowLength_cases t with h | h <;> rw [h] <;> decide

/-- **The trampoline of a registration** holds the blocks of the instructions
that lie wholly in the window of its target. -/
theorem fillItem_pages (pos : ℕ) (info : InlineHookInfo) :
    (fillItem os t n a pos info p).pages os.mmap
      = some (trampolineOf p.code t (codeAt p.code t)
          (wholeCount t (codeAt p.code t) (windowLength t))) := by
  have hpos : 0 < windowLength t := lt_of_lt_of_le (by decide) (four_le_windowLength t)
  refine (Function.update_self os.mmap _ p.pages).trans (congrArg some ?_)
  have hsaved : ∀ k, k < windowLength t →
      memcpy p.heap os.malloc p.code (clearBit0 t) (windowLength t)
        (os.malloc + BitVec.ofNat 32 k) = codeAt p.code t k :=
    fun k hk => memcpy_at p.heap p.code os.malloc (clearBit0 t) hk (windowLength_le t)
  refine Eq.trans (congrArg Prod.fst (relocateInstruction_congr (recordBoundary pos)
    (four_le_windowLength t) hsaved _)) ?_
  exact relocateInstruction_code (recordBoundary pos) (four_dvd_windowLength t) hpos _

/-- A successful registration filled an item. -/
theorem registerInlineHook_ok (h : registerInlineHook os t n a p = some (.ok, p')) :
    findInlineHookItem p.info t = none ∧ p.info.size < 1024
      ∧ p' = fillItem os t n a p.info.size { p.info with size := p.info.size + 1 } p := by
  unfold registerInlineHook at h
  by_cases he : (!os.isExecutableAddr t || !os.isExecutableAddr n) = true
  · rw [if_pos he] at h
    cases h
  · rw [if_neg he] at h
    cases hf : findInlineHookItem p.info t with
    | some i =>
      rw [hf] at h
      dsimp only at h
      split_ifs at h <;> cases h
    | none =>
      rw [hf] at h
      dsimp only [addInlineHookItem] at h
      by_cases hs : p.info.size ≥ 1024
      · rw [if_pos hs] at h
        cases h
      · rw [if_neg hs] at h
        exact ⟨rfl, Nat.lt_of_not_le hs, (congrArg Prod.snd (Option.some.inj h)).symm⟩

/-- **Where the whole instructions of a window end**: behind the bytes that
`doInlineHook` overwrites. -/
theorem wholeCount_offset (orig : ℕ → Byte) :
    (if testBit0 t then
      insnOffset t orig (wholeCount t orig (windowLength t)) = 10
        ∨ insnOffset t orig (wholeCount t orig (windowLength t)) = 12
    else insnOffset t orig (wholeCount t orig (windowLength t)) = 8)
      ∧ patchLength t ≤ insnOffset t orig (wholeCount t orig (windowLength t)) := by
  unfold insnOffset wholeCount windowLength patchLength
  by_cases ht : testBit0 t = true
  · have ht' : isThumbTarget t = true := ht
    rw [if_pos ht, if_pos ht, if_pos ht', if_pos ht', if_pos ht]
    have h := insnStart_wholeInsns (halfAt orig) (12 / 2)
    refine ⟨by omega, ?_⟩
    split_ifs <;> omega
  · have ht' : ¬ isThumbTarget t = true := ht
    rw [if_neg ht, if_neg ht, if_neg ht', if_neg ht', if_neg ht]
    exact ⟨rfl, Nat.le_refl 8⟩

/-- **A trampoline resumes beyond the patch**, at instruction `m` of its
target. -/
structure ResumesBeyondPatch (code : Mem) (target_addr : Word) (trampoline : Trampoline)
    (m : ℕ) : Prop where
  /-- The instructions below `m` are relocated, once each and in order, and the
  jump to instruction `m` is behind them. -/
  relocated : trampoline = trampolineOf code target_addr (codeAt code target_addr) m
  /-- Where that instruction is. -/
  offset : if testBit0 target_addr then
      insnOffset target_addr (codeAt code target_addr) m = 10
        ∨ insnOffset target_addr (codeAt code target_addr) m = 12
    else insnOffset target_addr (codeAt code target_addr) m = 8
  /-- The instructions relocated are those that start below the resume
  address. -/
  below : ∀ j, insnOffset target_addr (codeAt code target_addr) j
      < insnOffset target_addr (codeAt code target_addr) m ↔ j < m
  /-- None of them straddles it. -/
  apart : ∀ j, insnOffset target_addr (codeAt code target_addr) j
      < insnOffset target_addr (codeAt code target_addr) m →
    insnOffset target_addr (codeAt code target_addr) (j + 1)
      ≤ insnOffset target_addr (codeAt code target_addr) m
  /-- The bytes that hooking overwrites are below it. -/
  patch : patchLength target_addr ≤ insnOffset target_addr (codeAt code target_addr) m
  patched : ∀ pos p, (p.info.item pos).targetAddr = target_addr →
    Set.EqOn (doInlineHook pos p).code p.code
      {a | InBlock (clearBit0 target_addr) (patchLength target_addr) a}ᶜ
  /-- The machine that comes to the final jump goes there, in the target's
  state. -/
  jumps : ∀ page s, AtOffset target_addr trampoline page
      (blockOffset code target_addr (codeAt code target_addr) m) s →
    step s = s.bxWritePC (resumeAddr code target_addr m)
      ∧ (testBit0 target_addr = true → step s = some { s with
          pc := clearBit0 target_addr
            + BitVec.ofNat 32 (insnOffset target_addr (codeAt code target_addr) m)
          thumb := true })

/-- **Every registration builds a trampoline that resumes beyond the
patch.** -/
theorem resumes_beyond_patch (h : registerInlineHook os t n a p = some (.ok, p')) :
    ∃ trampoline m, p'.pages os.mmap = some trampoline
      ∧ ResumesBeyondPatch p.code t trampoline m := by
  obtain ⟨-, -, rfl⟩ := registerInlineHook_ok h
  obtain ⟨hoff, hpatch⟩ := wholeCount_offset (t := t) (codeAt p.code t)
  have hmono : StrictMono (insnOffset t (codeAt p.code t)) := insnOffset_strictMono
  refine ⟨_, _, fillItem_pages _ _, rfl, hoff, fun j => hmono.lt_iff_lt, fun j hj => ?_, hpatch,
    fun pos q hq => ?_, fun page s hs => ?_⟩
  · exact hmono.monotone (hmono.lt_iff_lt.mp hj)
  · rw [← hq]
    exact doInlineHook_patch pos q
  · have hstep := step_finalJump hs
    exact ⟨hstep, fun ht => hstep.trans (bxWritePC_resumeAddr ht _ s)⟩

end Registration

/-- The Thumb function at `0x8000`. -/
theorem resumes_beyond_patch_thumb :
    ∃ trampoline m, (fillItem reusingOs 0x8001#32 0xA001#32 0#32 0
        { startProcess.info with size := 1 } startProcess).pages 0x200#32 = some trampoline
      ∧ ResumesBeyondPatch startProcess.code 0x8001#32 trampoline m :=
  resumes_beyond_patch (show registerInlineHook reusingOs 0x8001#32 0xA001#32 0#32 startProcess
    = some (.ok, _) from rfl)

end InlineHook
