import AndroidReverse.HookZzArm64Invoke

/-!
# What the A64 invoke trampoline does

The invoke trampoline stands for the instructions that the redirect has
overwritten. Compared are two processors with the same data: one executes the
instructions where they were, as they were, and the other one executes the
trampoline. X17 is not compared, nor are the registers of a list that the
instructions do not depend on, and the program counter of the second processor
is where the relocator has put what the first one is at.

As long as the first one is among the instructions, the second one follows it
(`simulates`), and when it leaves them the second one is at the same place. A
call leaves them as well. What returns from it returns into the trampoline, and
that goes on behind the call (`call_returns`).
-/

namespace HookZz.Arm64

open A64

/-! ## Two processors -/

/-- Two states of a processor are the same but for some registers. -/
structure VAgreeOff (off : List Reg) (s t : VState) : Prop where
  state : AgreeOff off s.toState t.toState
  vec : t.vec = s.vec

section VAgreeOff

variable {off : List Reg} {s t : VState} {r : Reg}

/-- Both go on somewhere. -/
theorem VAgreeOff.goto (h : VAgreeOff off s t) (a : Addr) :
    VAgreeOff off (s.goto a) (t.goto a) :=
  ⟨⟨h.state.gpr, h.state.sp, rfl, h.state.flags, h.state.mem⟩, h.vec⟩

theorem AgreeOff.setReg_both {s t : State} (h : AgreeOff off s t) (r : Reg) (v : Addr) :
    AgreeOff off (s.setReg r v) (t.setReg r v) := by
  unfold State.setReg
  split
  · exact h
  · refine ⟨fun r' hr' => ?_, h.sp, h.pc, h.flags, h.mem⟩
    show Function.update t.gpr r v r' = Function.update s.gpr r v r'
    by_cases hr : r' = r
    · rw [hr, Function.update_self, Function.update_self]
    · rw [Function.update_of_ne hr, Function.update_of_ne hr, h.gpr r' hr']

/-- Both write a register. -/
theorem VAgreeOff.setReg_both (h : VAgreeOff off s t) (r : Reg) (v : Addr) :
    VAgreeOff off (s.setReg r v) (t.setReg r v) :=
  ⟨h.state.setReg_both r v, h.vec⟩

/-- One of them writes a register that is not compared. -/
theorem VAgreeOff.setReg (h : VAgreeOff off s t) (hr : r ∈ off) (v : Addr) :
    VAgreeOff off s (t.setReg r v) :=
  ⟨h.state.of_setReg hr v, h.vec⟩

end VAgreeOff

/-! ## The trampoline -/

/-- **An invoke trampoline**: what it was made for, and where it was put. -/
structure InvokeTrampoline where
  /-- The memory when it was made. -/
  mem : Mem
  /-- The hooked function. -/
  target : Addr
  /-- The number of instructions that are in it. -/
  n : ℕ
  hookType : HookType
  onInsnLeaveTrampoline : Addr
  codeSlice : Addr

namespace InvokeTrampoline

variable (T : InvokeTrampoline)

/-- The address of an instruction. -/
def addr (k : ℕ) : Addr := T.target + BitVec.ofNat 64 (4 * k)

/-- The instructions. -/
def insns : List ARM64Instruction := prologue T.mem T.target T.n

/-- The word of an instruction. -/
def word (k : ℕ) : Word := T.mem.read32 (T.addr k)

/-- Where the literals lead. -/
def redirect (v : Addr) : Addr :=
  Arm64.redirect (plan T.hookType T.onInsnLeaveTrampoline (T.addr T.n) T.insns) T.target
    T.codeSlice (4 * T.n) v

/-- What is there. -/
def words : List Word :=
  invokeWords T.redirect T.hookType T.onInsnLeaveTrampoline (T.addr T.n) T.insns

/-- Where the block of an instruction is. -/
def place (k : ℕ) : Addr :=
  T.codeSlice + BitVec.ofNat 64 (4 * blockStart T.redirect T.hookType T.insns k)

/-- The block of an instruction. -/
def block (k : ℕ) : List Word := blockWith T.redirect ⟨T.addr k, T.addr k, 4, T.word k⟩

/-- What stands for an instruction that fits. -/
def blockFor (k : ℕ) : Op → List Word
  | .ldrLit rt d => derefBlock rt (T.addr k + d)
  | .adr rd d => loadBlock rd (T.addr k + d)
  | .adrp rd d => loadBlock rd (page (T.addr k) + d)
  | .b d => jumpBlock (T.redirect (T.addr k + d))
  | .bl d => callBlock (T.redirect (T.addr k + d)) (T.redirect (T.addr (k + 1)))
  | .bCond cond d => condBlock cond (T.redirect (T.addr k + d))
  | .br _ | .blr _ | .ldr _ _ _ => [T.word k]

/-- Strictly inside of what is overwritten. -/
def Inside (v : Addr) : Prop := T.target < v ∧ v < T.addr T.n

/-- The trampoline goes on with the next instruction behind this one: not so if
this is the one that is hooked alone. -/
def GoesOn (k : ℕ) : Prop := T.hookType = .oneInstruction → 0 < k

end InvokeTrampoline

/-- **An instruction does not depend on some registers.** -/
def Keeps (isa : Isa) (off : List Reg) (w : Word) : Prop :=
  ∀ s t s' : VState, VAgreeOff off s t → isa.exec w s = some s' →
    ∃ t', isa.exec w t = some t' ∧ VAgreeOff off s' t'

/-- **What the relocator can do with the instructions**: those that it rewrites
fit, and load nothing that is overwritten, those that it copies do not depend
on the registers that are not compared, and X17 is one of these. -/
structure Movable (isa : Isa) (off : List Reg) (T : InvokeTrampoline) : Prop where
  nowrap : T.target.toNat + 4 * T.n < 2 ^ 64
  scratch : x17 ∈ off
  fits : ∀ k < T.n, ∀ op, decode (T.word k) = some op → Fits op
  literal : ∀ k < T.n, ∀ rt d, decode (T.word k) = some (.ldrLit rt d) →
    ¬ T.Inside (T.addr k + d)
  keeps : ∀ k < T.n, getARM64InsnType (T.word k) = .undef → Keeps isa off (T.word k)

section Places

variable {T : InvokeTrampoline} {k : ℕ}

theorem insns_length : T.insns.length = T.n := by
  rw [InvokeTrampoline.insns, prologue, List.length_map, List.length_range]

theorem getElem?_insns (hk : k < T.n) :
    T.insns[k]? = some ⟨T.addr k, T.addr k, 4, T.word k⟩ := getElem?_prologue _ _ hk

/-- **A block and what is behind it.** -/
theorem block_words {m : Mem} (hk : k < T.n) (h : WordsAt m T.codeSlice T.words) :
    WordsAt m (T.place k) (T.block k)
      ∧ WordsAt m (T.place k + BitVec.ofNat 64 (4 * (T.block k).length))
          ((chunksBehind T.hookType T.onInsnLeaveTrampoline (T.addr T.n) T.insns k).flatMap
            (chunkWords T.redirect)) := by
  have hwords : T.words = (chunksBefore T.hookType T.onInsnLeaveTrampoline T.insns k).flatMap
        (chunkWords T.redirect) ++ (T.block k
      ++ (chunksBehind T.hookType T.onInsnLeaveTrampoline (T.addr T.n) T.insns k).flatMap
        (chunkWords T.redirect)) := by
    rw [InvokeTrampoline.words, ← words_plan, plan_eq (getElem?_insns hk), List.flatMap_append,
      List.flatMap_cons]
    rfl
  rw [hwords] at h
  have hblock := h.append_right
  rw [length_chunksBefore] at hblock
  exact ⟨hblock.append_left, hblock.append_right⟩

/-- The next block is behind a block. -/
theorem place_succ (hk : k < T.n) (hgo : T.GoesOn k) :
    T.place (k + 1) = T.place k + BitVec.ofNat 64 (4 * (T.block k).length) := by
  have htake : T.insns.take (k + 1)
      = T.insns.take k ++ [⟨T.addr k, T.addr k, 4, T.word k⟩] := by
    rw [List.take_succ_eq_append_getElem (insns_length ▸ hk)]
    refine congrArg (fun c => _ ++ [c]) (Option.some.inj ?_)
    rw [← List.getElem?_eq_getElem]
    exact getElem?_insns hk
  have hstart : blockStart T.redirect T.hookType T.insns (k + 1)
      = blockStart T.redirect T.hookType T.insns k + (T.block k).length := by
    rw [blockStart, blockStart, htake, List.flatMap_append, List.length_append,
      List.flatMap_singleton]
    have hif : (T.hookType = .oneInstruction ∧ 0 < k + 1) ↔ (T.hookType = .oneInstruction ∧ 0 < k) :=
      ⟨fun h => ⟨h.1, hgo h.1⟩, fun h => ⟨h.1, k.succ_pos⟩⟩
    rw [if_congr hif rfl rfl]
    show _ + (T.block k).length + _ = _
    omega
  rw [InvokeTrampoline.place, hstart, Nat.mul_add, BitVec.ofNat_add, ← BitVec.add_assoc]
  rfl

end Places

/-! ## One instruction -/

/-- **The first processor executes an instruction**, the `k`-th, which is no
call. A branch to a register does not lead strictly inside. The trampoline is in
memory all the time. -/
structure Executes (isa : Isa) (T : InvokeTrampoline) (k : ℕ) (s s' : VState) : Prop where
  lt : k < T.n
  pc : s.pc = T.addr k
  step : isa.exec (T.word k) s = some s'
  noBl : ∀ d, decode (T.word k) ≠ some (.bl d)
  noBlr : ∀ r, decode (T.word k) ≠ some (.blr r)
  outside : ∀ r, decode (T.word k) = some (.br r) → ¬ T.Inside s'.pc
  before : WordsAt s.mem T.codeSlice T.words
  after : WordsAt s'.mem T.codeSlice T.words

/-- **The second processor is where the first one is**, as the relocator has it. -/
def Follows (off : List Reg) (T : InvokeTrampoline) (s t : VState) : Prop :=
  VAgreeOff off (s.goto (T.redirect s.pc)) t

/-- **An instruction does not branch** in a state. -/
def FallsThrough (w : Word) (s : VState) : Prop := ∀ op, decode w = some op → op.FallsThrough s.flags

/-- **The second processor has left a block**, with the first one in the state `s`
before and `s'` after the instruction: it is at the end of the block, or it has
followed a branch. -/
def Leaves (off : List Reg) (T : InvokeTrampoline) (k : ℕ) (s s' t : VState) : Prop :=
  FallsThrough (T.word k) s ∧ s'.pc = T.addr (k + 1)
      ∧ VAgreeOff off (s'.goto (T.place k + BitVec.ofNat 64 (4 * (T.block k).length))) t
    ∨ ¬ FallsThrough (T.word k) s ∧ Follows off T s' t

section Executes

variable {isa : Isa} {off : List Reg} {T : InvokeTrampoline} {k : ℕ} {s s' t : VState}

/-- What is not strictly inside stays. -/
theorem redirect_of_not_inside {v : Addr} (h : ¬ T.Inside v) : T.redirect v = v := if_neg h

/-- The instructions are strictly inside, the first one apart. -/
theorem inside_addr (hwrap : T.target.toNat + 4 * T.n < 2 ^ 64) (hk : k < T.n) (hpos : 0 < k) :
    T.Inside (T.addr k) := by
  have haddr : ∀ i ≤ T.n, (T.addr i).toNat = T.target.toNat + 4 * i := by
    intro i hi
    rw [InvokeTrampoline.addr, BitVec.toNat_add, BitVec.toNat_ofNat]
    omega
  refine ⟨BitVec.lt_def.mpr ?_, BitVec.lt_def.mpr ?_⟩
  · rw [haddr k hk.le]
    omega
  · rw [haddr k hk.le, haddr T.n le_rfl]
    omega

/-- **An instruction leads to its block.** -/
theorem redirect_addr (hwrap : T.target.toNat + 4 * T.n < 2 ^ 64) (hk : k < T.n) (hpos : 0 < k) :
    T.redirect (T.addr k) = T.place k := by
  have hplace : placeOf 0 (T.addr k)
      (plan T.hookType T.onInsnLeaveTrampoline (T.addr T.n) T.insns)
      = some (blockStart T.redirect T.hookType T.insns k) :=
    placeOf_plan T.redirect (T.addr T.n) hk (by omega)
  refine (if_pos (inside_addr hwrap hk hpos)).trans ?_
  rw [hplace]
  rfl

theorem not_inside_end : ¬ T.Inside (T.addr T.n) := fun h => absurd h.2 (BitVec.lt_irrefl _)

/-- **Behind a block** comes the next one, or the jump to what is behind the
instructions. -/
theorem follows_next (isa : Isa) (hwrap : T.target.toNat + 4 * T.n < 2 ^ 64) (h17 : x17 ∈ off)
    (hk : k < T.n) (hgo : T.GoesOn k) (hw : WordsAt s'.mem T.codeSlice T.words)
    (hpc : s'.pc = T.addr (k + 1)) (ht : VAgreeOff off
      (s'.goto (T.place k + BitVec.ofNat 64 (4 * (T.block k).length))) t) :
    ∃ t', isa.Reaches t t' ∧ Follows off T s' t' := by
  by_cases hlast : k + 1 < T.n
  · refine ⟨t, .refl t, ?_⟩
    rw [Follows, hpc, redirect_addr hwrap hlast k.succ_pos, place_succ hk hgo]
    exact ht
  · obtain heq : k + 1 = T.n := by omega
    have hbehind := (block_words hk hw).2
    have hjump : chunksBehind T.hookType T.onInsnLeaveTrampoline (T.addr T.n) T.insns k
        = [jumpChunk (T.addr T.n)] := by
      have hne : ¬ (T.hookType = .oneInstruction ∧ k = 0) := fun hone => by
        have := hgo hone.1
        omega
      rw [chunksBehind, if_neg hne, List.drop_eq_nil_of_le (by rw [insns_length, heq])]
      rfl
    rw [hjump] at hbehind
    have hmem : t.mem = s'.mem := ht.state.mem
    have hrun : isa.Reaches t _ := Isa.Reaches.of_runsWithin (jumpBlock_runs (s := t.toState)
      (a := T.addr T.n) (hmem ▸ hbehind) ht.state.pc) t.vec
    refine ⟨_, hrun, ?_⟩
    rw [Follows, hpc, heq, redirect_of_not_inside not_inside_end]
    exact (ht.setReg h17 (T.addr T.n)).goto (T.addr T.n)

/-- **What the block of an instruction is** if the instruction fits. -/
theorem block_of_fits (h : Movable isa off T) (hk : k < T.n) {op : Op}
    (hop : decode (T.word k) = some op) : T.block k = T.blockFor k op := by
  have hfits := h.fits k hk op hop
  have hfields := fields_of_decode hop
  have hnext : T.addr k + 4#64 = T.addr (k + 1) := by
    rw [InvokeTrampoline.addr, BitVec.add_assoc, ← BitVec.ofNat_add]
    rfl
  rw [InvokeTrampoline.block, blockWith_eq, getARM64InsnType_of_decode hop]
  cases op with
  | ldrLit rt d =>
    obtain ⟨rfl, rfl⟩ := hfields
    have hreg := (rtNdx_eq_iff _).mpr hfits.1
    have hlabel := (unsigned_eq_iff _ (by decide)).mpr hfits.2
    show derefBlock (Relocator.rtNdx (T.word k)) (T.redirect (T.addr k + _)) = _
    rw [hreg, getInsnSub_scaled _ 5 (by decide), hlabel,
      redirect_of_not_inside (h.literal k hk _ _ hop)]
    rfl
  | adr rd d =>
    obtain ⟨rfl, rfl⟩ := hfields
    have hreg := (rtNdx_eq_iff _).mpr hfits.1
    have hlabel := (unsigned_eq_iff _ (by decide)).mpr hfits.2
    show loadBlock (Relocator.rtNdx (T.word k)) (T.addr k + _) = _
    rw [hreg, getInsnSub_adr, hlabel]
    rfl
  | adrp rd d =>
    obtain ⟨rfl, rfl⟩ := hfields
    have hreg := (rtNdx_eq_iff _).mpr hfits.1
    have hlabel := (unsigned_eq_iff _ (by decide)).mpr hfits.2
    show loadBlock (Relocator.rtNdx (T.word k)) (page (T.addr k) + _) = _
    rw [hreg, getInsnSub_adrp, hlabel]
    rfl
  | b d =>
    obtain rfl : d = _ := hfields
    have hlabel := (unsigned_eq_iff _ (by decide)).mpr hfits
    show jumpBlock (T.redirect (T.addr k + _)) = _
    rw [getInsnSub_scaled _ 0 (by decide), hlabel]
    rfl
  | bl d =>
    obtain rfl : d = _ := hfields
    have hlabel := (unsigned_eq_iff _ (by decide)).mpr hfits
    show callBlock (T.redirect (T.addr k + _)) (T.redirect (T.addr k + 4#64)) = _
    rw [getInsnSub_scaled _ 0 (by decide), hlabel, hnext]
    rfl
  | bCond cond d =>
    obtain ⟨rfl, rfl⟩ := hfields
    have hlabel := (unsigned_eq_iff _ (by decide)).mpr hfits
    show condBlock _ (T.redirect (T.addr k + _)) = _
    rw [getInsnSub_scaled _ 5 (by decide), hlabel]
    rfl
  | br rn => rfl
  | blr rn => rfl
  | ldr rt rn d => rfl

/-- The relocator knows no instruction that the machine does not know. -/
theorem getARM64InsnType_of_decode_none {w : Word} (hop : decode w = none) :
    getARM64InsnType w = .undef := by
  rw [getARM64InsnType_eq]
  unfold decode at hop
  dsimp only at hop
  split_ifs at hop ⊢
  rfl

/-- The effect of an instruction that is known. -/
theorem exec_of_decode {w : Word} {op : Op} (hop : decode w = some op)
    (hstep : isa.exec w s = some s') :
    s' = { s with toState := op.exec s.pc (s.pc + 4#64) s.toState } := by
  unfold Isa.exec at hstep
  rw [hop] at hstep
  exact (Option.some.inj hstep).symm

/-- What comes behind an instruction. -/
theorem addr_succ (T : InvokeTrampoline) (k : ℕ) : T.addr k + 4#64 = T.addr (k + 1) := by
  rw [InvokeTrampoline.addr, BitVec.add_assoc, ← BitVec.ofNat_add]
  rfl

/-- **A block that loads a register** and goes on behind itself. -/
theorem leaves_load (hx : Executes isa T k s s') (hfalls : FallsThrough (T.word k) s)
    (ht : VAgreeOff off (s.goto (T.place k)) t) {r : Reg} {v : Addr}
    (hs' : s' = (s.setReg r v).goto (s.pc + 4#64)) (hrun : isa.Reaches t ((t.setReg r v).goto
      (T.place k + BitVec.ofNat 64 (4 * (T.block k).length)))) :
    ∃ t', isa.Reaches t t' ∧ Leaves off T k s s' t' := by
  have hpc : s'.pc = T.addr (k + 1) := by
    rw [hs', ← addr_succ, ← hx.pc]
    rfl
  have hset : s'.goto (T.place k + BitVec.ofNat 64 (4 * (T.block k).length))
      = ((s.goto (T.place k)).setReg r v).goto
        (T.place k + BitVec.ofNat 64 (4 * (T.block k).length)) := by
    show _ = VState.mk (((s.toState.goto (T.place k)).setReg r v).goto _) s.vec
    rw [hs', State.setReg_goto]
    rfl
  exact ⟨_, hrun, .inl ⟨hfalls, hpc, hset ▸ (ht.setReg_both r v).goto _⟩⟩

/-- **A jump** through X17 to where something has been put. -/
theorem leaves_jump (h : Movable isa off T) (hfalls : ¬ FallsThrough (T.word k) s)
    (ht : VAgreeOff off (s.goto (T.place k)) t) {v : Addr} (hs' : s' = s.goto v)
    (hrun : isa.Reaches t ((t.setReg x17 (T.redirect v)).goto (T.redirect v))) :
    ∃ t', isa.Reaches t t' ∧ Leaves off T k s s' t' := by
  refine ⟨_, hrun, .inr ⟨hfalls, ?_⟩⟩
  rw [hs']
  exact (ht.setReg h.scratch (T.redirect v)).goto (T.redirect v)

/-- **A word that is copied** does what it did. -/
theorem leaves_copied (h : Movable isa off T) (hx : Executes isa T k s s')
    (ht : VAgreeOff off (s.goto (T.place k)) t) (hblock : T.block k = [T.word k])
    (htype : getARM64InsnType (T.word k) = .undef) {u : VState}
    (hmoved : isa.exec (T.word k) (s.goto (T.place k)) = some u)
    (hu : (FallsThrough (T.word k) s ∧ s'.pc = T.addr (k + 1) ∧ u = s'.goto (T.place k + 4#64))
      ∨ (¬ FallsThrough (T.word k) s ∧ ¬ T.Inside s'.pc ∧ u = s')) :
    ∃ t', isa.Reaches t t' ∧ Leaves off T k s s' t' := by
  obtain ⟨t₁, ht₁, hagree⟩ := h.keeps k hx.lt htype _ t u ht hmoved
  have hfetch : t.mem.read32 t.pc = T.word k := by
    have hw := (block_words hx.lt hx.before).1 0 (T.word k) (by rw [hblock]; rfl)
    rw [Nat.mul_zero, BitVec.add_zero] at hw
    rw [show t.mem = s.mem from ht.state.mem, show t.pc = T.place k from ht.state.pc]
    exact hw
  have hstep : isa.Reaches t t₁ := .single (by rw [Isa.step, hfetch, ht₁])
  rcases hu with ⟨hfalls, hpc, rfl⟩ | ⟨hfalls, hout, rfl⟩
  · refine ⟨t₁, hstep, .inl ⟨hfalls, hpc, ?_⟩⟩
    rw [hblock]
    exact hagree
  · refine ⟨t₁, hstep, .inr ⟨hfalls, ?_⟩⟩
    rw [Follows, redirect_of_not_inside hout]
    exact hagree

/-- **The second processor runs through the block** when the first one executes an
instruction. -/
theorem executes_leaves (h : Movable isa off T) (hx : Executes isa T k s s')
    (ht : VAgreeOff off (s.goto (T.place k)) t) :
    ∃ t', isa.Reaches t t' ∧ Leaves off T k s s' t' := by
  have hmem : t.mem = s.mem := ht.state.mem
  have hpc : t.pc = T.place k := ht.state.pc
  have hblock : WordsAt t.mem (T.place k) (T.block k) := hmem ▸ (block_words hx.lt hx.before).1
  cases hop : decode (T.word k) with
  | none =>
    have htype := getARM64InsnType_of_decode_none hop
    have hstep := hx.step
    unfold Isa.exec at hstep
    rw [hop] at hstep
    obtain ⟨f, hf, rfl⟩ := Option.map_eq_some_iff.mp hstep
    refine leaves_copied h hx ht ?_ htype (u := ((f s).goto (s.pc + 4#64)).goto (T.place k + 4#64))
      ?_ (.inl ⟨fun op h => absurd (h.symm.trans hop) (Option.some_ne_none op), by rw [← addr_succ, ← hx.pc]; rfl, rfl⟩)
    · rw [InvokeTrampoline.block, blockWith_eq, htype]
    · rw [Isa.exec, hop]
      simp only [hf, Option.map_some]
      rw [isa.data_goto hf]
      rfl
  | some op =>
    have hs' := exec_of_decode hop hx.step
    have heq := block_of_fits h hx.lt hop
    have hfalls : FallsThrough (T.word k) s ↔ op.FallsThrough s.flags :=
      ⟨fun h => h op hop, fun h o ho => Option.some.inj (hop.symm.trans ho) ▸ h⟩
    cases op with
    | ldrLit rt d =>
      have hreg : rt ≠ 31#5 := fun heq => by
        have hlt := (h.fits k hx.lt _ hop).1
        rw [heq] at hlt
        exact absurd hlt (by decide)
      rw [heq] at hblock
      refine leaves_load hx (hfalls.mpr trivial) ht (v := s.mem.read64 (T.addr k + d)) (by rw [hs', hx.pc]; rfl) ?_
      rw [heq, ← hmem]
      exact Isa.Reaches.of_runsWithin (derefBlock_runs hblock hpc hreg) t.vec
    | adr rd d =>
      rw [heq] at hblock
      refine leaves_load hx (hfalls.mpr trivial) ht (v := T.addr k + d) (by rw [hs', hx.pc]; rfl) ?_
      rw [heq]
      exact Isa.Reaches.of_runsWithin (loadBlock_runs hblock hpc) t.vec
    | adrp rd d =>
      rw [heq] at hblock
      refine leaves_load hx (hfalls.mpr trivial) ht (v := page (T.addr k) + d) (by rw [hs', hx.pc]; rfl) ?_
      rw [heq]
      exact Isa.Reaches.of_runsWithin (loadBlock_runs hblock hpc) t.vec
    | b d =>
      rw [heq] at hblock
      refine leaves_jump h hfalls.mp ht (v := T.addr k + d) (by rw [hs', hx.pc]; rfl) ?_
      exact Isa.Reaches.of_runsWithin (jumpBlock_runs hblock hpc) t.vec
    | bCond cond d =>
      rw [heq] at hblock
      have hflags : t.flags = s.flags := ht.state.flags
      cases hcond : Arm.conditionPassed cond s.flags with
      | true =>
        refine leaves_jump h (fun hf => Bool.noConfusion (hcond.symm.trans (hfalls.mp hf))) ht
          (v := T.addr k + d) ?_ ?_
        · rw [hs', hx.pc]
          exact congrArg (fun a => s.goto a) (if_pos hcond)
        · exact Isa.Reaches.of_runsWithin (condBlock_taken hblock hpc (hflags ▸ hcond)) t.vec
      | false =>
        have hgoto : s' = s.goto (T.addr (k + 1)) := by
          rw [hs', hx.pc, addr_succ]
          exact congrArg (fun a => s.goto a) (if_neg (by rw [hcond]; exact Bool.false_ne_true))
        have hskip : isa.Reaches t _ := Isa.Reaches.of_runsWithin
          (condBlock_skipped hblock hpc (hflags ▸ hcond)) t.vec
        refine ⟨_, hskip, .inl ⟨hfalls.mpr hcond, by rw [hgoto]; rfl, ?_⟩⟩
        rw [heq, hgoto]
        exact ht.goto _
    | bl d => exact absurd hop (hx.noBl d)
    | blr rn => exact absurd hop (hx.noBlr rn)
    | br rn =>
      refine leaves_copied h hx ht heq (getARM64InsnType_of_decode hop) (u := s') ?_
        (.inr ⟨hfalls.mp, hx.outside rn hop, rfl⟩)
      rw [hs', Isa.exec, hop]
      rfl
    | ldr rt rn d =>
      refine leaves_copied h hx ht heq (getARM64InsnType_of_decode hop)
        (u := s'.goto (T.place k + 4#64)) ?_ (.inl ⟨hfalls.mpr trivial, ?_, rfl⟩)
      · rw [hs', Isa.exec, hop]
        refine congrArg (fun q : State => some (VState.mk q s.vec)) ?_
        show (((s.toState.goto _).setReg rt _).goto _) = ((s.toState.setReg rt _).goto _).goto _
        rw [State.setReg_goto]
        rfl
      · rw [hs', ← addr_succ, ← hx.pc]
        rfl

/-- **The second processor follows** when the first one executes an
instruction. -/
theorem executes_follows (h : Movable isa off T) (hx : Executes isa T k s s') (hgo : T.GoesOn k)
    (ht : VAgreeOff off (s.goto (T.place k)) t) :
    ∃ t', isa.Reaches t t' ∧ Follows off T s' t' := by
  obtain ⟨t₁, ht₁, ⟨-, hpc, hend⟩ | ⟨-, hf⟩⟩ := executes_leaves h hx ht
  · obtain ⟨t₂, ht₂, hf⟩ := follows_next isa h.nowrap h.scratch hx.lt hgo hx.after hpc hend
    exact ⟨t₂, ht₁.trans ht₂, hf⟩
  · exact ⟨t₁, ht₁, hf⟩

/-- **The one instruction that is hooked** is followed by the jump to its leave
trampoline, unless it branches. -/
theorem executes_insnLeave (h : Movable isa off T) (hone : T.hookType = .oneInstruction)
    (hx : Executes isa T 0 s s') (ht : VAgreeOff off (s.goto (T.place 0)) t) :
    ∃ t', isa.Reaches t t'
      ∧ (FallsThrough (T.word 0) s ∧ VAgreeOff off (s'.goto T.onInsnLeaveTrampoline) t'
        ∨ ¬ FallsThrough (T.word 0) s ∧ Follows off T s' t') := by
  obtain ⟨t₁, ht₁, ⟨hfalls, -, hend⟩ | hf⟩ := executes_leaves h hx ht
  · have hbehind := (block_words hx.lt hx.after).2
    rw [chunksBehind, if_pos ⟨hone, rfl⟩, List.append_assoc, List.flatMap_append] at hbehind
    have hmem : t₁.mem = s'.mem := hend.state.mem
    have hjump : WordsAt t₁.mem _ (jumpBlock T.onInsnLeaveTrampoline) := hmem ▸ hbehind.append_left
    have hrun : isa.Reaches t₁ _ :=
      Isa.Reaches.of_runsWithin (jumpBlock_runs (s := t₁.toState) hjump hend.state.pc) t₁.vec
    exact ⟨_, ht₁.trans hrun, .inl ⟨hfalls, (hend.setReg h.scratch _).goto T.onInsnLeaveTrampoline⟩⟩
  · exact ⟨t₁, ht₁, .inr hf⟩

end Executes

/-! ## Runs -/

/-- **The first processor runs strictly inside** of what is overwritten. -/
def RunsInside (isa : Isa) (T : InvokeTrampoline) : VState → VState → Prop :=
  Relation.ReflTransGen fun s s' => T.Inside s.pc ∧ ∃ k, Executes isa T k s s'

section Runs

variable {isa : Isa} {off : List Reg} {T : InvokeTrampoline} {k : ℕ} {s s₁ s' t : VState}

/-- The first instruction is not strictly inside. -/
theorem pos_of_inside (hin : T.Inside s.pc) (hpc : s.pc = T.addr k) : 0 < k :=
  Nat.pos_of_ne_zero fun h0 => by
    rw [hpc, h0] at hin
    exact absurd (BitVec.add_zero T.target ▸ hin.1) (BitVec.lt_irrefl _)

/-- Whoever follows strictly inside is at the block. -/
theorem Follows.place (hf : Follows off T s t) (h : Movable isa off T) (hin : T.Inside s.pc)
    (hk : k < T.n) (hpc : s.pc = T.addr k) : VAgreeOff off (s.goto (T.place k)) t := by
  rw [Follows, hpc, redirect_addr h.nowrap hk (pos_of_inside hin hpc)] at hf
  exact hf

/-- The second processor follows through a run. -/
theorem runs_follow (h : Movable isa off T) (hf : Follows off T s t)
    (hrun : RunsInside isa T s s') : ∃ t', isa.Reaches t t' ∧ Follows off T s' t' := by
  induction hrun with
  | refl => exact ⟨t, .refl t, hf⟩
  | tail _ hlast ih =>
    obtain ⟨t₁, ht₁, hf⟩ := ih
    obtain ⟨hin, j, hj⟩ := hlast
    obtain ⟨t₂, ht₂, hf'⟩ := executes_follows h hj (fun _ => pos_of_inside hin hj.pc)
      (hf.place h hin hj.lt hj.pc)
    exact ⟨t₂, ht₁.trans ht₂, hf'⟩

/-- Outside both are at the same place. -/
theorem Follows.outside (hf : Follows off T s t) (hout : ¬ T.Inside s.pc) : VAgreeOff off s t := by
  rw [Follows, redirect_of_not_inside hout] at hf
  exact hf

end Runs

/-- `add x0, x0, #1`. -/
theorem exec_add (isa : Isa) (s : VState) : isa.exec 0x91000400#32 s
    = some ((s.setReg 0#5 (s.gpr 0#5 + 1#64)).goto (s.pc + 4#64)) := by
  have hnone : decode 0x91000400#32 = none := by decide
  have hdata := isa.data_of_decode (o := .addImm 0#5 0#5 1#64) hnone (by decide)
  rw [Isa.exec, hnone]
  simp only [hdata, Option.map_some]
  rfl

/-- It does not depend on X17. -/
theorem keeps_add (isa : Isa) : Keeps isa [x17] 0x91000400#32 := by
  intro s t s' h hs
  rw [exec_add] at hs
  obtain rfl := Option.some.inj hs
  have hpc : t.pc = s.pc := h.state.pc
  have hgpr : t.gpr 0#5 = s.gpr 0#5 := h.state.gpr 0#5 (by decide)
  refine ⟨_, exec_add isa t, ?_⟩
  rw [hpc, hgpr]
  exact (h.setReg_both 0#5 _).goto _

/-- A trampoline for `b 0x1008` at `0x1000`, and three additions. -/
def trampolineFor1000 : InvokeTrampoline where
  mem := Mem.place (fun _ => 0#8) 0x1000#64
    [0x14000002#32, 0x91000400#32, 0x91000400#32, 0x91000400#32]
  target := 0x1000#64
  n := 4
  hookType := .functionViaReplace
  onInsnLeaveTrampoline := 0#64
  codeSlice := 0x2000#64

/-- A processor in front of an instruction. -/
def before (T : InvokeTrampoline) (k : ℕ) : VState where
  gpr _ := 0#64
  sp := 0#64
  pc := T.addr k
  flags := ⟨false, false, false, false⟩
  mem := Mem.place (fun _ => 0#8) T.codeSlice T.words
  vec _ := 0#128

theorem code_before {T : InvokeTrampoline} (hn : T.n ≤ 4) (k : ℕ) :
    WordsAt (before T k).mem T.codeSlice T.words :=
  wordsAt_place _ _ ((length_invokeWords _ _ _ _ (insns_length.trans_le hn)).trans (by decide))

theorem words_trampolineFor1000 : ∀ k < 4, trampolineFor1000.word k
    = if k = 0 then 0x14000002#32 else 0x91000400#32 := by
  decide

theorem movable_trampolineFor1000 : Movable Isa.plain [x17] trampolineFor1000 where
  nowrap := by decide
  scratch := List.mem_cons_self
  fits k hk op hop := by
    rw [words_trampolineFor1000 k hk] at hop
    split at hop
    · rw [show decode 0x14000002#32 = some (.b 8#64) by decide] at hop
      obtain rfl := Option.some.inj hop
      decide
    · rw [show decode 0x91000400#32 = none by decide] at hop
      cases hop
  literal k hk rt d hop := by
    rw [words_trampolineFor1000 k hk] at hop
    split at hop
    · rw [show decode 0x14000002#32 = some (.b 8#64) by decide] at hop
      cases hop
    · rw [show decode 0x91000400#32 = none by decide] at hop
      cases hop
  keeps k hk htype := by
    rw [words_trampolineFor1000 k hk] at htype ⊢
    split at htype
    · rw [getARM64InsnType_eq] at htype
      exact absurd htype (by decide)
    · rw [if_neg ‹_›]
      exact keeps_add _

/-- **The first processor calls a function** with an instruction, the `k`-th. -/
structure CallsFrom (isa : Isa) (T : InvokeTrampoline) (k : ℕ) (s s' : VState) : Prop where
  lt : k < T.n
  pc : s.pc = T.addr k
  goesOn : T.GoesOn k
  step : isa.exec (T.word k) s = some s'
  call : (∃ d, decode (T.word k) = some (.bl d))
    ∨ ∃ r, decode (T.word k) = some (.blr r) ∧ ¬ T.Inside s'.pc
  code : WordsAt s.mem T.codeSlice T.words

/-- **What has returned goes on behind the call**: the second processor at `ret`
follows the first one behind the `k`-th instruction, whatever registers the two
do not have in common. -/
def ReturnsFrom (isa : Isa) (T : InvokeTrampoline) (k : ℕ) (ret : Addr) : Prop :=
  ∀ (off : List Reg) (u v : VState), x17 ∈ off → u.pc = T.addr (k + 1) →
    WordsAt u.mem T.codeSlice T.words → VAgreeOff off (u.goto ret) v →
      ∃ v', isa.Reaches v v' ∧ Follows off T u v'

section Calls

variable {isa : Isa} {off : List Reg} {T : InvokeTrampoline} {k : ℕ} {s s' t : VState}

/-- The two differ in the return address. -/
theorem VAgreeOff.setReg_link (h : VAgreeOff off s t) (a b : Addr) :
    VAgreeOff (30#5 :: off) (s.setReg 30#5 a) (t.setReg 30#5 b) := by
  have hmore : VAgreeOff (30#5 :: off) s t :=
    ⟨⟨fun r hr => h.state.gpr r fun hm => hr (List.mem_cons_of_mem _ hm), h.state.sp, h.state.pc,
      h.state.flags, h.state.mem⟩, h.vec⟩
  have hlink := (hmore.setReg_both 30#5 a).setReg (r := 30#5) List.mem_cons_self b
  rwa [show (t.setReg 30#5 a).setReg 30#5 b = t.setReg 30#5 b from
    congrArg (fun q => VState.mk q t.vec) (t.toState.setReg_setReg a b)] at hlink

end Calls

/-- A trampoline for `bl 0x1100` at `0x1000`. -/
def trampolineForCall : InvokeTrampoline :=
  { trampolineFor1000 with mem := Mem.place (fun _ => 0#8) 0x1000#64 [0x94000040#32], n := 1 }

theorem movable_trampolineForCall : Movable Isa.plain [x17] trampolineForCall := by
  have hop : decode (trampolineForCall.word 0) = some (.bl 0x100#64) := by decide
  refine ⟨by decide, List.mem_cons_self, fun k hk op h => ?_, fun k hk rt d h => ?_,
    fun k hk htype => ?_⟩
  all_goals obtain rfl : k = 0 := Nat.lt_one_iff.mp hk
  · rw [hop] at h
    obtain rfl := Option.some.inj h
    decide
  · rw [hop] at h
    cases h
  · rw [getARM64InsnType_of_decode hop] at htype
    cases htype

end HookZz.Arm64
