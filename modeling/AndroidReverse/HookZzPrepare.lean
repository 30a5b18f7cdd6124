import AndroidReverse.HookZzInvoke

/-!
# Room for the jump

`ZzPrepareTrampoline` looks at the first instructions of a function before it
settles how many bytes are overwritten: behind an unconditional branch there
may be another function. The scan notices a branch but reads on until it has
its eight bytes, and what it reports is how far it has got. A limit below eight
never comes out, so that both thresholds it is held against are passed
(`tryRelocate_limit`).

Hence functions that end in front of the full size are overrun, and no others
(`prepare_within_iff`).
-/

namespace HookZz

open Arm Relocate Relocator

/-! ## Where a function ends -/

section Ends

variable (thumb : Bool) (mem : Mem)

/-- Whether there is an unconditional branch at an address: `B` with condition
`AL`, and in Thumb code the encodings T2 and T4 of `B`. -/
def isUnconditionalB (addr : Word) : Bool :=
  if thumb then
    mem.read16 addr &&& 0xF800#16 == 0xE000#16
      || mem.read16 addr &&& 0xF800#16 == 0xF000#16
        && mem.read16 (addr + 2#32) &&& 0xD000#16 == 0x9000#16
  else mem.read32 addr &&& 0xFF000000#32 == 0xEA000000#32

/-- The length of the instruction at an address. -/
def insnLength (addr : Word) : ℕ :=
  if thumb then if isThumb32 (mem.read16 addr) then 4 else 2 else 4

/-- **The first unconditional branch** from an address on ends so many bytes
behind it. -/
inductive BranchEnds : Word → ℕ → Prop
  | here {addr : Word} (h : isUnconditionalB thumb mem addr = true) :
    BranchEnds addr (insnLength thumb mem addr)
  | later {addr : Word} {n : ℕ} (h : isUnconditionalB thumb mem addr = false)
    (hrest : BranchEnds (addr + BitVec.ofNat 32 (insnLength thumb mem addr)) n) :
    BranchEnds addr (insnLength thumb mem addr + n)

end Ends

section Scan

variable {thumb : Bool} {mem : Mem} {addr : Word}

theorem insnAt_length : (insnAt thumb mem addr).size = insnLength thumb mem addr := by
  cases thumb with
  | false => rfl
  | true => exact thumbInsnAt_size mem addr

/-- An ARM word is `B` with condition `AL` by its upper byte. -/
theorem isEarlyEnd_arm (w : Word) :
    (getARMInsnType w == .bA1 && getInsnSub w 28 4 == 0xE#32)
      = (w &&& 0xFF000000#32 == 0xEA000000#32) := by
  have hcond : getInsnSub w 28 4 = 0xE#32 ↔ w.extractLsb' 28 4 = 0xE#4 := by
    rw [getInsnSub_eq _ _ (by decide)]
    generalize w.extractLsb' 28 4 = c
    revert c
    decide
  rw [Bool.eq_iff_iff, Bool.and_eq_true, beq_iff_eq, beq_iff_eq, beq_iff_eq, getARMInsnType_eq]
  constructor
  · rintro ⟨ht, hc⟩
    have hm : w &&& 0x0F000000#32 = 0x0A000000#32 := by
      split_ifs at ht with _ _ _ _ h
      exact h.1
    exact mask_union (mask_of_extract 28 4 (hcond.mp hc)) hm
  · intro h
    have hc : getInsnSub w 28 4 = 0xE#32 := hcond.mpr (mask_extract h 28 4 (by decide))
    have hm : w &&& 0x0F000000#32 = 0x0A000000#32 := mask_trans 0x0F000000#32 h (by decide)
    refine ⟨?_, hc⟩
    rw [if_neg (fun h' => mask_conflict h (by decide) h'.1),
      if_neg (fun h' => mask_conflict h (by decide) h'.1),
      if_neg (fun h' => mask_conflict h (by decide) h'.1),
      if_neg (fun h' => mask_conflict h (by decide) h'.1), if_pos ⟨hm, by rw [hc]; decide⟩]

theorem isEarlyEnd_narrow {w w2 w2' : Half} (hw : isThumb32 w = false) :
    (getTHUMBInsnType w w2 == .bT2 || getTHUMBInsnType w w2 == .bT4)
      = (w &&& 0xF800#16 == 0xE000#16
        || w &&& 0xF800#16 == 0xF000#16 && w2' &&& 0xD000#16 == 0x9000#16) := by
  have hf : w &&& 0xF800#16 ≠ 0xF000#16 := fun h => by
    rw [isThumb32_of_mask h] at hw
    exact absurd hw (by decide)
  rw [beq_eq_false_iff_ne.mpr hf, Bool.false_and, Bool.or_false, getTHUMBInsnType_narrow hw]
  by_cases he : w &&& 0xF800#16 = 0xE000#16
  · rw [if_neg (mask_conflict he (by decide)), if_neg (mask_conflict he (by decide)),
      if_neg (by rw [he]; decide), if_neg (by rw [he]; decide),
      if_neg (fun h => mask_conflict he (by decide) h.1), if_pos he, he]
    rfl
  · rw [beq_eq_false_iff_ne.mpr he, if_neg he]
    split_ifs <;> rfl

theorem isEarlyEnd_wide {w w2 : Half} (hw : isThumb32 w = true) :
    (getTHUMBInsnType w w2 == .bT2 || getTHUMBInsnType w w2 == .bT4)
      = (w &&& 0xF800#16 == 0xE000#16
        || w &&& 0xF800#16 == 0xF000#16 && w2 &&& 0xD000#16 == 0x9000#16) := by
  have he : w &&& 0xF800#16 ≠ 0xE000#16 := fun h => by
    rw [isThumb32_of_mask h] at hw
    exact absurd hw (by decide)
  rw [beq_eq_false_iff_ne.mpr he, Bool.false_or]
  by_cases hb : w &&& 0xF800#16 = 0xF000#16 ∧ w2 &&& 0xD000#16 = 0x9000#16
  · rw [getTHUMBInsnType_long hw hb.1 hb.2 (by decide), hb.1, hb.2]
    rfl
  · have hb' : (w &&& 0xF800#16 == 0xF000#16 && w2 &&& 0xD000#16 == 0x9000#16) = false := by
      rw [Bool.and_eq_false_iff, beq_eq_false_iff_ne, beq_eq_false_iff_ne]
      exact not_and_or.mp hb
    rw [hb', getTHUMBInsnType_wide hw, if_neg hb]
    split_ifs <;> rfl

/-- **The scan knows the branches** of the instruction set. -/
theorem isEarlyEnd_insnAt :
    isEarlyEnd thumb (insnAt thumb mem addr) = isUnconditionalB thumb mem addr := by
  cases thumb with
  | false => exact isEarlyEnd_arm (mem.read32 addr)
  | true =>
    show (getTHUMBInsnType (thumbInsnAt mem addr).insn1 (thumbInsnAt mem addr).insn2 == .bT2
      || getTHUMBInsnType (thumbInsnAt mem addr).insn1 (thumbInsnAt mem addr).insn2 == .bT4) = _
    rw [thumbInsnAt_eq]
    by_cases hw : isThumb32 (mem.read16 addr) = true
    · rw [if_pos hw]
      exact isEarlyEnd_wide hw
    · rw [if_neg hw]
      exact isEarlyEnd_narrow (Bool.eq_false_iff.mpr hw)

/-- A reader finds the instruction it is at. -/
theorem readerInsn_eq {reader : ARMReader}
    (h : reader.currentPc = reader.rCurrentAddress + pcBias thumb) :
    readerInsn thumb mem reader = insnAt thumb mem reader.rCurrentAddress := by
  cases thumb with
  | false =>
    show armReaderInsn mem reader = armReaderInsn mem (armReaderReset reader.rCurrentAddress)
    unfold armReaderInsn
    rw [h]
    rfl
  | true =>
    show thumbReaderInsn mem reader = thumbReaderInsn mem (thumbReaderReset reader.rCurrentAddress)
    unfold thumbReaderInsn
    rw [h]
    rfl

theorem branchEnds_pos {n : ℕ} (h : BranchEnds thumb mem addr n) : 0 < n := by
  have hlen : ∀ a, 0 < insnLength thumb mem a := fun a => by
    rw [← insnAt_length]
    exact Nat.lt_of_lt_of_le Nat.two_pos (insnAt_size a).1
  cases h with
  | here => exact hlen addr
  | later => exact Nat.add_pos_left (hlen addr) _

/-- **The scan does not stop at a branch**: it reads all the bytes asked for,
and notices a branch among them. -/
theorem tryRelocateLoop_spec {minBytes turns tmpSize : ℕ} {reader : ARMReader} (earlyEnd : Bool)
    (hpc : reader.currentPc = reader.rCurrentAddress + pcBias thumb)
    (hsize : tmpSize < minBytes) (hturns : minBytes ≤ turns + tmpSize) :
    minBytes ≤ (tryRelocateLoop thumb mem minBytes turns reader tmpSize earlyEnd).1
      ∧ ((earlyEnd = true ∨ ∃ n, BranchEnds thumb mem reader.rCurrentAddress n
          ∧ tmpSize + n ≤ minBytes) →
        (tryRelocateLoop thumb mem minBytes turns reader tmpSize earlyEnd).2 = true) := by
  induction turns generalizing tmpSize reader earlyEnd with
  | zero => omega
  | succ turns ih =>
    have hlen : (readerInsn thumb mem reader).size
      = insnLength thumb mem reader.rCurrentAddress := by
      rw [readerInsn_eq hpc, insnAt_length]
    have hpos : 2 ≤ (readerInsn thumb mem reader).size := by
      rw [readerInsn_eq hpc]
      exact (insnAt_size _).1
    have hend : isEarlyEnd thumb (readerInsn thumb mem reader)
        = isUnconditionalB thumb mem reader.rCurrentAddress := by
      rw [readerInsn_eq hpc, isEarlyEnd_insnAt]
    have hpush : (reader.push (readerInsn thumb mem reader)).currentPc
        = (reader.push (readerInsn thumb mem reader)).rCurrentAddress + pcBias thumb := by
      show reader.currentPc + _ = reader.rCurrentAddress + _ + pcBias thumb
      rw [hpc, BitVec.add_assoc, BitVec.add_comm (pcBias thumb), ← BitVec.add_assoc]
    unfold tryRelocateLoop
    dsimp only
    split
    · rename_i hless
      obtain ⟨hmin, hnotice⟩ := ih
        (earlyEnd || isEarlyEnd thumb (readerInsn thumb mem reader)) hpush hless (by omega)
      refine ⟨hmin, fun h => hnotice ?_⟩
      rw [hend]
      rcases h with h | ⟨n, hbranch, hn⟩
      · exact Or.inl (by rw [h, Bool.true_or])
      · cases hbranch with
        | here h => exact Or.inl (by rw [h, Bool.or_true])
        | later h hrest =>
          rename_i n
          refine Or.inr ⟨n, ?_, by omega⟩
          rw [← hlen] at hrest
          exact hrest
    · rename_i hge
      refine ⟨Nat.le_of_not_lt hge, fun h => ?_⟩
      rcases h with h | ⟨n, hbranch, hn⟩
      · exact (Bool.or_eq_true _ _).mpr (Or.inl h)
      · cases hbranch with
        | here h => exact (Bool.or_eq_true _ _).mpr (Or.inr (hend.trans h))
        | later h hrest =>
          have := branchEnds_pos hrest
          omega

/-- **What the scan reports**: no limit below the bytes asked for, whether it
has noticed a branch or not. It does notice one that ends among them. -/
theorem tryRelocate_limit {minBytes : ℕ} (hpos : 0 < minBytes) (maxBytes : ℕ) :
    (tryRelocate thumb mem addr minBytes maxBytes = maxBytes
        ∨ minBytes ≤ tryRelocate thumb mem addr minBytes maxBytes)
      ∧ (∀ n, BranchEnds thumb mem addr n → n ≤ minBytes →
        minBytes ≤ tryRelocate thumb mem addr minBytes maxBytes) := by
  have hpc : (readerReset thumb addr).currentPc
      = (readerReset thumb addr).rCurrentAddress + pcBias thumb := by
    cases thumb <;> rfl
  have haddr : (readerReset thumb addr).rCurrentAddress = addr := by
    cases thumb <;> rfl
  obtain ⟨hmin, hnotice⟩ :=
    @tryRelocateLoop_spec _ mem _ _ _ _ false hpc hpos (Nat.le_refl minBytes)
  rw [haddr] at hnotice
  unfold tryRelocate
  dsimp only
  split
  · exact ⟨Or.inr hmin, fun _ _ _ => hmin⟩
  · rename_i hf
    exact ⟨Or.inl rfl, fun n hn hle => absurd (hnotice (Or.inr ⟨n, hn, by omega⟩)) hf⟩

end Scan

/-! ## What is overwritten -/

/-- The bytes of the full jump, with a `NOP` to align it. -/
def fullSize (targetPtr : Word) : ℕ :=
  if instructionIsThumb targetPtr ∧ (targetAddr targetPtr).toNat % 4 ≠ 0 then 10 else 8

/-- **Preparing does not fail**, and four bytes are chosen only if they are asked
for. -/
theorem chooseRedirect_eq (mem : Mem) (targetPtr : Word) (tryNearJump : Bool) :
    chooseRedirect mem targetPtr tryNearJump
      = some (tryNearJump, if tryNearJump then tinyRedirectSize else fullSize targetPtr) := by
  have hlimit := (@tryRelocate_limit (instructionIsThumb targetPtr) mem (targetAddr targetPtr)
    fullRedirectSize (by decide) 0).1
  unfold chooseRedirect fullSize
  dsimp only
  cases tryNearJump with
  | true => rfl
  | false =>
    generalize tryRelocate _ mem _ fullRedirectSize 0 = limit at hlimit
    have hfull : fullRedirectSize = 8 := rfl
    have htiny : tinyRedirectSize = 4 := rfl
    rw [if_neg Bool.false_ne_true, if_neg (by omega), if_neg (by omega), if_neg Bool.false_ne_true]
    cases instructionIsThumb targetPtr with
    | true =>
      rw [if_pos rfl]
      simp only [true_and, hfull]
    | false => rfl

/-- **Short functions are overrun.** For every function without a requested near
jump, whose first unconditional branch ends `n` bytes behind its start: no more
than `n` bytes are going to be overwritten, or preparing fails, if and only if
the full jump fits in front of the end. The scan makes no difference. -/
theorem prepare_within_iff {s : HookState} (hnear : s.entry.tryNearJump = false) :
    ∀ n, BranchEnds (instructionIsThumb s.entry.targetPtr) s.world.mem
        (targetAddr s.entry.targetPtr) n →
      (((prepareTrampoline s).1 = .failed
          ∨ ∃ k, (prepareTrampoline s).2.entry.redirectCodeSize = some k ∧ k ≤ n)
        ↔ fullSize s.entry.targetPtr ≤ n) := by
  intro n _
  have hchoose := chooseRedirect_eq s.world.mem s.entry.targetPtr s.entry.tryNearJump
  rw [hnear, if_neg (by decide)] at hchoose
  unfold prepareTrampoline
  rw [hnear, hchoose]
  constructor
  · rintro (hf | ⟨k, hk, hle⟩)
    · cases hf
    · rwa [Option.some_inj.mp hk]
  · exact fun hle => Or.inr ⟨_, rfl, hle⟩

/-- A Thumb function of five instructions, the last of them `B` to itself. -/
theorem prepare_within_iff_twelve :
    ((prepareTrampoline (hookAt [0xB510#16, 0xF04F#16, 0x0000#16, 0xBD10#16, 0xBF00#16, 0xE7FE#16]
          .functionViaReplace 0x8001#32 false)).1 = .failed
        ∨ ∃ k, (prepareTrampoline (hookAt [0xB510#16, 0xF04F#16, 0x0000#16, 0xBD10#16, 0xBF00#16,
            0xE7FE#16] .functionViaReplace 0x8001#32 false)).2.entry.redirectCodeSize = some k
          ∧ k ≤ 12)
      ↔ fullSize 0x8001#32 ≤ 12 :=
  prepare_within_iff (s := hookAt [0xB510#16, 0xF04F#16, 0x0000#16, 0xBD10#16, 0xBF00#16, 0xE7FE#16]
    .functionViaReplace 0x8001#32 false) rfl 12
    (.later (by decide) (.later (by decide) (.later (by decide) (.later (by decide)
      (.here (by decide))))))

/-- A Thumb function that is nothing but `B` to itself: six bytes behind it are
overwritten as well. -/
theorem prepare_overruns :
    ¬ ∀ (s : HookState) (n : ℕ), s.entry.tryNearJump = false →
      BranchEnds (instructionIsThumb s.entry.targetPtr) s.world.mem (targetAddr s.entry.targetPtr) n →
      (prepareTrampoline s).1 = .failed
        ∨ ∃ k, (prepareTrampoline s).2.entry.redirectCodeSize = some k ∧ k ≤ n := by
  intro h
  rcases h (hookAt [0xE7FE#16] .functionViaReplace 0x8001#32 false) 2 rfl (.here (by decide)) with
    hf | ⟨k, hk, hle⟩
  · exact absurd hf (by decide)
  · have hk' : some 8 = some k := hk
    rw [← Option.some_inj.mp hk'] at hle
    exact absurd hle (by decide)

end HookZz
