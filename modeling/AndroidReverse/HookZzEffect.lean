import AndroidReverse.HookZzCode
import AndroidReverse.RelocateAdd

/-!
# The effect of a written block

A block of HookZz has an effect: the state it leaves itself in, as a function
of the state it is entered in and of the address behind it. A block that runs
to its end has it by running there, and one that jumps by jumping
(`BlockEffect.of_run`, `BlockEffect.of_jump`); either way there is nothing else
a run outside the block can have reached.

`DataReproduced` compares the effect with the instruction a block is written
for. Blocks are made of pieces, a literal load above all, and the second half
of the module runs them.
-/

namespace HookZz

open Arm Relocate Relocator

/-! ## Effects -/

/-- **The effect of a block** on the states that fit it, as long as the
addresses it refers to are not in it. -/
structure BlockEffect (thumb : Bool) (phase : ℕ) (block : List Half) (fit : State → Prop)
    (targets : List Word) (effect : State → Word → Option State) : Prop where
  /-- The block reaches its effect. -/
  runs : ∀ s t, AtBlock thumb phase block s → fit s → effect s (blockEnd block s) = some t →
    RunsWithin s.pc (2 * block.length) s t
  /-- It reaches nothing else outside. -/
  left : ∀ s t, AtBlock thumb phase block s → fit s →
    (∀ a ∈ targets, ¬ InBlock s.pc (2 * block.length) a) →
    ¬ InBlock s.pc (2 * block.length) t.pc → RunsWithin s.pc (2 * block.length) s t →
    effect s (blockEnd block s) = some t

section Effect

variable {thumb : Bool} {phase : ℕ} {block : List Half} {fit : State → Prop}

/-- A block that runs to its end. -/
theorem BlockEffect.of_run {targets : List Word} {final : State → Word → State}
    (hlen : 2 * block.length < 2 ^ 32) (hpc : ∀ s next, (final s next).pc = next)
    (h : ∀ s, AtBlock thumb phase block s → fit s →
      RunsWithin s.pc (2 * block.length) s (final s (blockEnd block s))) :
    BlockEffect thumb phase block fit targets (fun s next => some (final s next)) where
  runs s t hat hfit ht := by
    rw [← Option.some.inj ht]
    exact h s hat hfit
  left s t hat hfit _ hout ht := by
    have hend : ¬ InBlock s.pc (2 * block.length) (final s (blockEnd block s)).pc := by
      rw [hpc]
      exact not_inBlock_end _ _ hlen
    rw [(runsWithin_iff_of_out hend).mp (((h s hat hfit).left_iff hout).mp ht)]

/-- A block that jumps. -/
theorem BlockEffect.of_jump {v : Word} {u : State → State}
    (h : ∀ s, AtBlock thumb phase block s → fit s → RunsWithin s.pc (2 * block.length) s (u s)
      ∧ InBlock s.pc (2 * block.length) (u s).pc ∧ step (u s) = (u s).bxWritePC v) :
    BlockEffect thumb phase block fit (jumpTargets v) (fun s _ => (u s).bxWritePC v) where
  runs s t hat hfit ht := by
    obtain ⟨hr, hin, hst⟩ := h s hat hfit
    exact hr.trans (RunsWithin.head hin (hst.trans ht) (RunsWithin.refl t))
  left s t hat hfit hv hout ht := by
    obtain ⟨hr, hin, hst⟩ := h s hat hfit
    exact (hr.left_iff_jump hin hst hv hout).mp ht

end Effect

/-- **Two states are the same** but for the word below a stack pointer. -/
structure SameBut (sp : Word) (t u : State) : Prop where
  /-- The registers, the flags, the program counter and the instruction set. -/
  state : u = { t with mem := u.mem }
  /-- The memory. -/
  mem : ∀ a, ¬ InBlock (sp - 4#32) 4 a → u.mem a = t.mem a

theorem SameBut.refl (sp : Word) (t : State) : SameBut sp t t := ⟨rfl, fun _ _ => rfl⟩

/-- **What the block of an instruction needs of the stack**: a block that adds
to the program counter saves a register, the others use none of it. -/
def StackFit (len : ℕ) (op : Op) (s : State) : Prop :=
  match op with
  | .addReg _ _ _ _ _ _ => StackApart len s
  | _ => True

/-- **A block stands for an instruction** at a place where the program counter
reads as `pc`, for some flags: wherever it is, whatever the registers hold, and
with what the instruction loads as it was in `m₀`. -/
def DataReproduced (thumb : Bool) (phase : ℕ) (block : List Half) (x : Insn) (pc : Word)
    (m₀ : Mem) (f : Flags) : Prop :=
  ∀ s t, AtBlock thumb phase block s → s.flags = f → LiteralKept m₀ x.op pc s.mem →
    StackFit (2 * block.length) x.op s → x.exec pc (blockEnd block s) s = some t →
    ∃ u, RunsWithin s.pc (2 * block.length) s u ∧ SameBut (s.gpr SP) t u

section Data

variable {thumb : Bool} {phase : ℕ} {block : List Half} {x : Insn} {pc : Word} {m₀ : Mem}
  {f : Flags} {targets : List Word} {effect : State → Word → Option State}

/-- A block of the same effect stands for the instruction. -/
theorem BlockEffect.reproduces
    (hb : BlockEffect thumb phase block (StackFit (2 * block.length) x.op) targets effect)
    (h : ∀ s t next, s.thumb = thumb → s.flags = f → LiteralKept m₀ x.op pc s.mem →
      StackFit (2 * block.length) x.op s → x.exec pc next s = some t →
      ∃ u, effect s next = some u ∧ SameBut (s.gpr SP) t u) :
    DataReproduced thumb phase block x pc m₀ f := by
  intro s t hat hf hk hfit ht
  obtain ⟨u, hu, hsame⟩ := h s t _ hat.state hf hk hfit ht
  exact ⟨u, hb.runs s u hat hfit hu, hsame⟩

/-- **A block that stands for an instruction has its effect**, at a place away
from finitely many addresses and for any registers with a stack in memory that
is otherwise unused. -/
theorem DataReproduced.exists_effect (h : DataReproduced thumb phase block x pc m₀ f)
    (hb : BlockEffect thumb phase block (StackFit (2 * block.length) x.op) targets effect)
    (hp : phase = 0 ∨ phase = 2) (hlen : block.length ≤ 100) (g : Reg → Word)
    (hsp : (g SP).toNat % 4 = 0) (others : List Word) (ht : targets.length < 2 ^ 16)
    (ho : others.length < 2 ^ 16) :
    ∃ s next, s.thumb = thumb ∧ s.flags = f ∧ s.gpr = g ∧ LiteralKept m₀ x.op pc s.mem
      ∧ next ∉ targets
      ∧ ∀ t, x.exec pc next s = some t → t.pc = next ∨ t.pc ∈ others →
        ∃ u, effect s next = some u ∧ SameBut (g SP) t u := by
  have hlit := literalBytes_length_le pc x.op
  obtain ⟨base, hat, hav⟩ := exists_atBlock thumb hp block hlen m₀ g f
    (targets ++ others ++ literalBytes pc x.op ++ wordBytes (g SP - 4#32))
    (by rw [List.length_append, List.length_append, List.length_append]; simp [wordBytes]; omega)
  set s : State := ⟨g, base, thumb, f, m₀.place 2 base block⟩
  have hav1 : ∀ a ∈ targets ++ others ++ literalBytes pc x.op,
      ¬ InBlock base (2 * block.length + 4) a := fun a ha => hav a (List.mem_append_left _ ha)
  have hout : ∀ a ∈ targets ++ others, ¬ InBlock base (2 * block.length) a :=
    fun a ha => not_inBlock_of_le (hav1 a (List.mem_append_left _ ha)) (by omega)
  have hk : LiteralKept m₀ x.op pc s.mem := by
    refine literalKept_of_bytes (fun a ha => Mem.place_of_out (by omega) ?_)
    have := Nat.not_lt.mp (hav1 a (List.mem_append_right _ ha))
    omega
  have hfit : StackFit (2 * block.length) x.op s := by
    unfold StackFit
    split
    · refine ⟨hsp, fun k hk hin => ?_⟩
      -- a byte of the block below the stack pointer would be one of those avoided
      have hbyte : base + BitVec.ofNat 32 k ∈ wordBytes (g SP - 4#32) := by
        have hlt : (base + BitVec.ofNat 32 k - (g SP - 4#32)).toNat < 4 := hin
        generalize base + BitVec.ofNat 32 k = b at hlt ⊢
        generalize g SP - 4#32 = a at hlt ⊢
        have ha : b = a + BitVec.ofNat 32 (b - a).toNat := by
          rw [BitVec.ofNat_toNat, BitVec.setWidth_eq, BitVec.add_comm, BitVec.sub_add_cancel]
        generalize (b - a).toNat = j at hlt ha
        rw [ha]
        interval_cases j <;> simp [wordBytes]
      exact hav _ (List.mem_append_right _ hbyte) (inBlock_offset (by omega) (by omega))
    · trivial
  refine ⟨s, blockEnd block s, rfl, rfl, rfl, hk, fun hn => ?_, fun t hx htpc => ?_⟩
  · exact hav1 _ (List.mem_append_left _ (List.mem_append_left _ hn))
      (inBlock_offset (by omega) (by omega))
  · obtain ⟨u, hu, hsame⟩ := h s t hat rfl hk hfit hx
    have hpc : u.pc = t.pc := by rw [hsame.state]
    refine ⟨u, hb.left s u hat hfit (fun a ha => hout a (List.mem_append_left _ ha)) ?_ hu, hsame⟩
    rw [hpc]
    rcases htpc with htpc | htpc
    · rw [htpc]
      exact not_inBlock_end base _ (by omega)
    · exact hout _ (List.mem_append_right _ htpc)

end Data

/-! ## Pieces -/

/-- **Halfwords that are an instruction** of an instruction set, wherever they
stand. -/
def Encodes (thumb : Bool) (hs : List Half) (x : Insn) : Prop :=
  ∀ s : State, s.thumb = thumb → HalvesAt s.mem s.pc hs →
    step s = x.exec s.pcValue (s.pc + BitVec.ofNat 32 (2 * hs.length)) s

section Encodes

variable {w w' : Half} {x : Insn}

theorem encodes_thumb16 (hn : isThumb32 w = false) (hd : decodeThumb16 w = some x) :
    Encodes true [w] x := by
  intro s ht hc
  rw [hc.step16 (i := 0) ht (BitVec.add_zero _).symm rfl hn hd, State.pcValue, if_pos ht]
  rfl

theorem encodes_thumb32 (hn : isThumb32 w = true) (hd : decodeThumb32 (w ++ w') = some x) :
    Encodes true [w, w'] x := by
  intro s ht hc
  rw [hc.step32 (i := 0) ht (BitVec.add_zero _).symm rfl rfl hn hd, State.pcValue, if_pos ht]
  rfl

theorem encodes_arm {w : Word} (hd : decodeArm w = some x) :
    Encodes false (addressBytes w) x := by
  intro s ht hc
  have hc' : WordsAt s.mem s.pc [w] := wordsAt_of_halves hc
  rw [hc'.step (i := 0) ht (BitVec.add_zero _).symm rfl hd, State.pcValue,
    if_neg (by rw [ht]; exact Bool.false_ne_true)]
  rfl

end Encodes

/-- **A piece that loads a value into a register**, or jumps to it if the
register is the program counter. -/
structure LoadsValue (thumb : Bool) (phase : ℕ) (piece : List Half) (reg : Reg) (v : Word) :
    Prop where
  /-- There is something of it. -/
  pos : 0 < piece.length
  /-- It is short. -/
  short : piece.length ≤ 6
  /-- It continues behind its end. -/
  run : ∀ s, AtBlock thumb phase piece s → reg ≠ PC →
    RunsWithin s.pc (2 * piece.length) s ((s.setReg reg v).goto (blockEnd piece s))
  /-- Or jumps. -/
  jump : ∀ s, AtBlock thumb phase piece s → reg = PC → step s = s.bxWritePC v

/-! ### The literal loads of the writers -/

section Values

variable {s : State} {reg : Reg} {v : Word}

/-- **A load of a literal** that stands at halfword `n` behind it. -/
theorem step_literal {L rest : List Half} {imm : Word} {n : ℕ}
    (hL : Encodes true L ⟨always, .ldrLit true reg imm⟩) (ht : s.thumb = true)
    (hc : HalvesAt s.mem s.pc (L ++ rest)) (hlo : rest[n]? = some (lowHalf v))
    (hhi : rest[n + 1]? = some (highHalf v)) (himm : reg = PC → imm.toNat % 4 = 0)
    (hlit : align4 (s.pc + 4#32) + imm
      = s.pc + BitVec.ofNat 32 (2 * L.length) + BitVec.ofNat 32 (2 * n)) :
    step s = s.writeValue (s.pc + BitVec.ofNat 32 (2 * L.length)) reg v := by
  have hv : s.mem.read32 (align4 (s.pc + 4#32) + imm) = v := by
    rw [hlit]
    exact hc.append_right.literal hlo hhi
  rw [hL s ht hc.append_left, Insn.exec_always, State.pcValue, if_pos ht]
  show s.writeLoaded _ reg (align4 (s.pc + 4#32) + imm)
    (s.mem.read32 (align4 (s.pc + 4#32) + imm)) = _
  rw [hv, State.writeLoaded, State.writeValue]
  by_cases hreg : reg = PC
  · have hal : (align4 (s.pc + 4#32) + imm).toNat % 4 = 0 := by
      have := himm hreg
      rw [BitVec.toNat_add, toNat_align4]
      omega
    rw [if_pos hreg, if_pos hreg, if_pos (align4_of_aligned hal)]
  · rw [if_neg hreg, if_neg hreg]

/-- A load of a literal, padded or not, with the branch over the literal. -/
theorem run_literal {L : List Half} {imm : Word} (pad : Bool)
    (hL : Encodes true L ⟨always, .ldrLit true reg imm⟩) (ht : s.thumb = true)
    (he : s.pc.toNat % 2 = 0) (hreg : reg ≠ PC) (hlen : L.length ≤ 2)
    (hc : HalvesAt s.mem s.pc
      (L ++ ((if pad then [0x46C0#16] else []) ++ 0xE001#16 :: addressBytes v)))
    (hlit : align4 (s.pc + 4#32) + imm = s.pc + BitVec.ofNat 32 (2 * L.length)
      + BitVec.ofNat 32 (2 * ((if pad then 1 else 0) + 1))) :
    RunsWithin s.pc (2 * (L.length + ((if pad then 1 else 0) + 3))) s ((s.setReg reg v).goto
      (s.pc + BitVec.ofNat 32 (2 * (L.length + ((if pad then 1 else 0) + 3))))) := by
  set n := L.length
  have hcode : HalvesAt s.mem (s.pc + BitVec.ofNat 32 (2 * n))
      ((if pad then [0x46C0#16] else []) ++ 0xE001#16 :: addressBytes v) := hc.append_right
  have hload : step s = some ((s.setReg reg v).goto (s.pc + BitVec.ofNat 32 (2 * n))) := by
    rw [step_literal hL ht hc (by cases pad <;> rfl) (by cases pad <;> rfl)
      (fun h => absurd h hreg) hlit, State.writeValue, if_neg hreg]
  set u := s.setReg reg v
  have hskip : ∀ k, ((if pad then [0x46C0#16] else []) ++ 0xE001#16 :: addressBytes v)[k]?
        = some 0xE001#16 →
      step (u.goto (s.pc + BitVec.ofNat 32 (2 * n) + BitVec.ofNat 32 (2 * k)))
        = some (u.goto (s.pc + BitVec.ofNat 32 (2 * n) + BitVec.ofNat 32 (2 * k + 4 + 2))) :=
    fun k hk => step_skipHalf (s := u.goto _) hcode
      (by rw [toNat_offset_mod (by decide) he]; omega) ht rfl (by decide) hk (by decide) (by decide)
  have hin : ∀ k, 2 * n + 2 * k < 2 * (n + ((if pad then 1 else 0) + 3)) →
      InBlock s.pc (2 * (n + ((if pad then 1 else 0) + 3)))
        (s.pc + BitVec.ofNat 32 (2 * n) + BitVec.ofNat 32 (2 * k)) := by
    intro k hk
    rw [BitVec.add_assoc, ← BitVec.ofNat_add]
    exact inBlock_offset hk (by cases pad <;> simp at hk <;> omega)
  have hbase : InBlock s.pc (2 * (n + ((if pad then 1 else 0) + 3))) s.pc :=
    inBlock_base (by omega)
  refine RunsWithin.head hbase hload ?_
  have hend : s.pc + BitVec.ofNat 32 (2 * n) + BitVec.ofNat 32 (2 * (if pad then 1 else 0) + 4 + 2)
      = s.pc + BitVec.ofNat 32 (2 * (n + ((if pad then 1 else 0) + 3))) := by
    rw [BitVec.add_assoc, ← BitVec.ofNat_add]
    congr 2
    omega
  rw [← hend]
  cases pad with
  | false =>
    have h := RunsWithin.head
      (s := u.goto (s.pc + BitVec.ofNat 32 (2 * n) + BitVec.ofNat 32 (2 * 0)))
      (hin 0 (by simp)) (hskip 0 rfl) (RunsWithin.refl _)
    rwa [Nat.mul_zero, BitVec.add_zero] at h
  | true =>
    have hnop : step (u.goto (s.pc + BitVec.ofNat 32 (2 * n)))
        = some (u.goto (s.pc + BitVec.ofNat 32 (2 * n) + BitVec.ofNat 32 (2 * 1))) :=
      step_nop (s := u.goto _) (i := 0) hcode ht (BitVec.add_zero _).symm rfl
    have h0 := hin 0 (by simp)
    rw [Nat.mul_zero, BitVec.add_zero] at h0
    have h1 := hin 1 (by rw [if_pos rfl]; omega)
    have hrest := RunsWithin.head
      (s := u.goto (s.pc + BitVec.ofNat 32 (2 * n) + BitVec.ofNat 32 (2 * 1)))
      h1 (hskip 1 rfl) (RunsWithin.refl _)
    exact RunsWithin.head (s := u.goto (s.pc + BitVec.ofNat 32 (2 * n))) h0 hnop hrest

theorem decodeThumb16_load : ∀ reg : Reg, reg ≤ 7#4 → ∀ off : Bool,
    isThumb32 ((0x4800#32 ||| AssemblerWriter.regAt reg 8 ||| (if off then 1#32 else 0#32)).setWidth
        16) = false
      ∧ decodeThumb16 ((0x4800#32 ||| AssemblerWriter.regAt reg 8
          ||| (if off then 1#32 else 0#32)).setWidth 16)
        = some ⟨always, .ldrLit true reg (if off then 4#32 else 0#32)⟩ := by
  decide

theorem decodeThumb32_load : ∀ (reg : Reg) (off : Bool),
    decodeThumb32 (0xF8DF#16
        ++ (AssemblerWriter.regAt reg 12 ||| if off then 4#32 else 0#32).setWidth 16)
      = some ⟨always, .ldrLit true reg (if off then 4#32 else 0#32)⟩ := by
  decide

/-- Where a literal load of the Thumb writer finds its literal. -/
theorem literal_address {a : Word} {off : Bool} (h : a.toNat % 4 = if off then 2 else 0) :
    align4 (a + 4#32) = a + BitVec.ofNat 32 (if off then 2 else 4) := by
  rw [← BitVec.toNat_inj, toNat_align4, BitVec.toNat_add, BitVec.toNat_add, BitVec.toNat_ofNat,
    BitVec.toNat_ofNat]
  have := a.isLt
  cases off <;> simp only [Bool.false_eq_true, if_true, if_false] at h ⊢ <;> omega

/-- **The literal loads of the Thumb writer**, by their parts. -/
theorem valueItems_parts (off : Bool) (reg : Reg) (v : Word) (k : ℕ) :
    ∃ (L : List Half) (pad : Bool) (imm : Word), itemHalves (valueItems off reg v k)
        = L ++ ((if pad then [0x46C0#16] else []) ++ 0xE001#16 :: addressBytes v)
      ∧ Encodes true L ⟨always, .ldrLit true reg imm⟩ ∧ 0 < L.length ∧ L.length ≤ 2
      ∧ imm.toNat % 4 = 0
      ∧ ∀ a : Word, a.toNat % 4 = (if off then 2 else 0) →
        align4 (a + 4#32) + imm
          = a + BitVec.ofNat 32 (2 * L.length)
            + BitVec.ofNat 32 (2 * ((if pad then 1 else 0) + 1)) := by
  by_cases hr : reg ≤ 7#4
  · obtain ⟨hn, hd⟩ := decodeThumb16_load reg hr off
    refine ⟨_, off, _, ?_, encodes_thumb16 hn hd, Nat.one_pos, one_le_two,
      by cases off <;> rfl,
      fun a ha => ?_⟩
    · rw [valueItems, itemHalves_append, itemHalves_codeItems]
      unfold AssemblerWriter.ldrBCode
      simp only [hr, if_true]
      cases off <;> rfl
    · rw [literal_address ha]
      cases off <;> rw [BitVec.add_assoc, BitVec.add_assoc] <;> rfl
  · refine ⟨[0xF8DF#16, (AssemblerWriter.regAt reg 12 ||| 4#32).setWidth 16], !off, _, ?_,
      encodes_thumb32 (by decide) (decodeThumb32_load reg true), Nat.two_pos, Nat.le_refl 2, rfl,
      fun a ha => ?_⟩
    · rw [valueItems, itemHalves_append, itemHalves_codeItems]
      unfold AssemblerWriter.ldrBCode
      simp only [hr, if_false]
      cases off <;> rfl
    · rw [literal_address ha]
      cases off <;> rw [BitVec.add_assoc, BitVec.add_assoc] <;> rfl

/-- **The Thumb writer loads values.** -/
theorem loadsValue_thumb (off : Bool) (reg : Reg) (v : Word) (k : ℕ) :
    LoadsValue true (if off then 2 else 0) (itemHalves (valueItems off reg v k)) reg v := by
  obtain ⟨L, pad, imm, he, hL, hpos, hlen, himm, hlit⟩ := valueItems_parts off reg v k
  have hlength : (itemHalves (valueItems off reg v k)).length
      = L.length + ((if pad then 1 else 0) + 3) := by
    rw [he]
    cases pad <;> simp [addressBytes]
  have heven : ∀ s : State, s.pc.toNat % 4 = (if off then 2 else 0) → s.pc.toNat % 2 = 0 := by
    intro s hs
    cases off <;> simp only [Bool.false_eq_true, if_true, if_false] at hs <;> omega
  constructor
  · omega
  · rw [hlength]
    cases pad <;> simp only [Bool.false_eq_true, if_true, if_false] <;> omega
  · intro s hat hreg
    have hc := hat.code
    rw [he] at hc
    rw [blockEnd, hlength]
    exact run_literal pad hL hat.state (heven s hat.phase) hreg hlen hc (hlit _ hat.phase)
  · rintro s hat rfl
    have hc := hat.code
    rw [he] at hc
    rw [step_literal hL hat.state hc (by cases pad <;> rfl) (by cases pad <;> rfl)
      (fun _ => himm) (hlit _ hat.phase), State.writeValue, if_pos rfl]

/-- **And so does the ARM writer.** -/
theorem loadsValue_arm (reg : Reg) (v : Word) (k : ℕ) :
    LoadsValue false 0 (itemHalves (armValueItems reg v k)) reg v := by
  have hw : ∀ s : State, HalvesAt s.mem s.pc (itemHalves (armValueItems reg v k)) →
      WordsAt s.mem s.pc
        [0xE59F0000#32 ||| AssemblerWriter.regAt reg 12 ||| 0#32, 0xEA000000#32, v] :=
    fun s h => wordsAt_of_halves h
  have hlen : (itemHalves (armValueItems reg v k)).length = 6 := rfl
  refine ⟨by omega, by omega, fun s hat hreg => ?_, ?_⟩
  · rw [blockEnd, hlen]
    exact run_loadWord (i := 0) (hw s hat.code) hat.phase hat.state (BitVec.add_zero _).symm hreg
      rfl rfl rfl (Nat.le_refl 12) (by decide)
  · rintro s hat rfl
    rw [step_loadWord (i := 0) (hw s hat.code) hat.phase hat.state (BitVec.add_zero _).symm rfl
      (decodeArm_loadWord PC) rfl, State.writeLoaded, if_pos rfl,
      if_pos (align4_of_aligned (aligned_offset hat.phase (by decide)))]

end Values

/-! ### Blocks made of pieces -/

section Pieces

variable {thumb : Bool} {phase : ℕ} {fit : State → Prop} {V L P A Q : List Half} {reg r : Reg}
  {v a : Word}

/-- A part of a block, entered where it begins. -/
theorem AtBlock.left {s : State} (h : AtBlock thumb phase (V ++ L) s) : AtBlock thumb phase V s :=
  ⟨h.phase, h.state, h.code.append_left⟩

/-- A block that loads a value. -/
theorem LoadsValue.effect (h : LoadsValue thumb phase V reg v) :
    BlockEffect thumb phase V fit (jumpTargets v) (fun s next => s.writeValue next reg v) := by
  have hshort := h.short
  unfold State.writeValue
  by_cases hreg : reg = PC
  · simp only [if_pos hreg]
    exact BlockEffect.of_jump (u := id) (fun s hat _ =>
      ⟨RunsWithin.refl s, inBlock_base (Nat.mul_pos two_pos h.pos), h.jump s hat hreg⟩)
  · simp only [if_neg hreg]
    exact BlockEffect.of_run (by omega) (fun _ _ => rfl) (fun s hat _ => h.run s hat hreg)

/-- The effect of loading the word at an address through the register it goes
to. -/
def loadEffect (reg : Reg) (a : Word) (s : State) (next : Word) : Option State :=
  if reg = PC then s.bxWritePC a else some ((s.setReg reg (s.mem.read32 a)).goto next)

/-- `LDR reg, [reg]`. -/
theorem exec_loadSelf {s : State} {pc next : Word} (hreg : reg ≠ PC) (ha : s.gpr reg = a) :
    (Insn.mk always (.ldr .word true true false reg reg 0#32)).exec pc next s
      = some ((s.setReg reg (s.mem.read32 a)).goto next) := by
  rw [Insn.exec_always]
  show s.writeLoaded next reg (s.readReg pc reg + 0#32) (s.mem.read32 (s.readReg pc reg + 0#32)) = _
  rw [State.readReg, if_neg hreg, ha, BitVec.add_zero, State.writeLoaded, if_neg hreg]

/-- **A block that loads an address and then the word there.** -/
theorem LoadsValue.load_effect (h : LoadsValue thumb phase V reg a) (hlen : L.length ≤ 4)
    (hpos : 0 < L.length)
    (hL : reg ≠ PC → Encodes thumb L ⟨always, .ldr .word true true false reg reg 0#32⟩) :
    BlockEffect thumb phase (V ++ L) fit (jumpTargets a) (loadEffect reg a) := by
  have hshort := h.short
  have hpos' := h.pos
  have happ : (V ++ L).length = V.length + L.length := List.length_append
  unfold loadEffect
  by_cases hreg : reg = PC
  · simp only [if_pos hreg]
    refine BlockEffect.of_jump (u := id)
      (fun s hat _ => ⟨RunsWithin.refl s, ?_, h.jump s hat.left hreg⟩)
    exact inBlock_base (by omega)
  · simp only [if_neg hreg]
    refine BlockEffect.of_run (by omega) (fun _ _ => rfl) (fun s hat _ => ?_)
    have hrun := h.run s hat.left hreg
    set u := (s.setReg reg a).goto (blockEnd V s)
    have hin : InBlock s.pc (2 * (V ++ L).length) u.pc := inBlock_offset (by omega) (by omega)
    have hst : step u = some ((s.setReg reg (s.mem.read32 a)).goto (blockEnd (V ++ L) s)) := by
      rw [hL hreg u hat.state hat.code.append_right,
        exec_loadSelf hreg (show u.gpr reg = a from Function.update_self _ _ _), Option.some_inj]
      show ((s.setReg reg a).setReg reg (s.mem.read32 a)).goto _ = _
      rw [State.setReg, State.setReg_gpr, Function.update_idem]
      show (s.setReg reg _).goto (s.pc + _ + _) = _
      rw [BitVec.add_assoc, ← BitVec.ofNat_add, ← Nat.mul_add, ← happ]
      rfl
    have hrun' : RunsWithin s.pc (2 * (V ++ L).length) s u := by
      refine @RunsWithin.part _ _ 0 (2 * V.length) _ _ (by omega) ?_
      rwa [BitVec.add_zero]
    exact hrun'.trans (RunsWithin.head hin hst (RunsWithin.refl _))

end Pieces

/-! ### Blocks that save a register -/

/-- A piece that stores a register below the stack pointer. -/
def Saves (thumb : Bool) (P : List Half) (r : Reg) : Prop :=
  ∀ s : State, s.thumb = thumb → HalvesAt s.mem s.pc P → (s.gpr SP).toNat % 4 = 0 →
    step s = some ({ s.setReg SP (s.gpr SP - 4#32) with
      mem := s.mem.write 4 (s.gpr SP - 4#32) (s.gpr r) }.goto
        (s.pc + BitVec.ofNat 32 (2 * P.length)))

/-- A piece that takes it from there. -/
def Restores (thumb : Bool) (Q : List Half) (r : Reg) : Prop :=
  ∀ s : State, s.thumb = thumb → HalvesAt s.mem s.pc Q → (s.gpr SP).toNat % 4 = 0 →
    step s = some (((s.setReg r (s.mem.read32 (s.gpr SP))).setReg SP (s.gpr SP + 4#32)).goto
      (s.pc + BitVec.ofNat 32 (2 * Q.length)))

/-- A piece that only changes registers and flags, as functions of them. -/
def Alters (thumb : Bool) (A : List Half) (regs : Flags → (Reg → Word) → Reg → Word)
    (flags : Flags → (Reg → Word) → Flags) : Prop :=
  ∀ s : State, s.thumb = thumb → HalvesAt s.mem s.pc A →
    step s = some ⟨regs s.flags s.gpr, s.pc + BitVec.ofNat 32 (2 * A.length), s.thumb,
      flags s.flags s.gpr, s.mem⟩

/-- The registers inside a block that saves one and loads a value into it. -/
def spilledRegs (r : Reg) (v : Word) (g : Reg → Word) : Reg → Word :=
  Function.update (Function.update g SP (g SP - 4#32)) r v

/-- **The effect of a block that saves a register**, loads a value into it,
does something and restores the register. -/
def spillEffect (r : Reg) (v : Word) (regs : Flags → (Reg → Word) → Reg → Word)
    (flags : Flags → (Reg → Word) → Flags) (s : State) (next : Word) : State where
  gpr := Function.update (Function.update (regs s.flags (spilledRegs r v s.gpr)) r (s.gpr r)) SP
    (s.gpr SP)
  pc := next
  thumb := s.thumb
  flags := flags s.flags (spilledRegs r v s.gpr)
  mem := s.mem.write 4 (s.gpr SP - 4#32) (s.gpr r)

section Spill

variable {thumb : Bool} {phase : ℕ} {targets : List Word} {V P A Q : List Half} {r : Reg}
  {v : Word} {regs : Flags → (Reg → Word) → Reg → Word} {flags : Flags → (Reg → Word) → Flags}

/-- **A block that saves a register** has this effect. -/
theorem LoadsValue.spill_effect
    (hV : LoadsValue thumb ((phase + 2 * P.length) % 4) V r v) (hsp : r ≠ SP) (hpc : r ≠ PC)
    (hP : Saves thumb P r) (hA : Alters thumb A regs flags) (hQ : Restores thumb Q r)
    (hkeep : ∀ f g, regs f g SP = g SP) (hp : 0 < P.length) (ha : 0 < A.length)
    (hq : 0 < Q.length) (hlen : (P ++ (V ++ (A ++ Q))).length ≤ 100) :
    BlockEffect thumb phase (P ++ (V ++ (A ++ Q)))
      (StackApart (2 * (P ++ (V ++ (A ++ Q))).length)) targets
      (fun s next => some (spillEffect r v regs flags s next)) := by
  refine BlockEffect.of_run (by omega) (fun _ _ => rfl) (fun s hat hst => ?_)
  set block := P ++ (V ++ (A ++ Q)) with hblock
  have hsum : block.length = P.length + (V.length + (A.length + Q.length)) := by
    rw [hblock, List.length_append, List.length_append, List.length_append]
  let m := s.mem.write 4 (s.gpr SP - 4#32) (s.gpr r)
  have hc : HalvesAt m s.pc block :=
    hat.code.congr (fun k hk => Mem.write_of_out _ (hst.block k hk))
  have hcV : HalvesAt m (s.pc + BitVec.ofNat 32 (2 * P.length)) (V ++ (A ++ Q)) := hc.append_right
  have hcA := hcV.append_right
  have hcQ := hcA.append_right
  have hin : ∀ k, k < 2 * block.length
    → InBlock s.pc (2 * block.length) (s.pc + BitVec.ofNat 32 k) :=
    fun k hk => inBlock_offset hk (by omega)
  -- the states the run passes, one for each piece
  let s₁ : State := { s.setReg SP (s.gpr SP - 4#32) with mem := m }.goto
    (s.pc + BitVec.ofNat 32 (2 * P.length))
  let s₂ : State := (s₁.setReg r v).goto (blockEnd V s₁)
  let s₃ : State := ⟨regs s.flags s₂.gpr, s₂.pc + BitVec.ofNat 32 (2 * A.length), s.thumb,
    flags s.flags s₂.gpr, m⟩
  have h₁ : step s = some s₁ := hP s hat.state hat.code.append_left hst.aligned
  have hat₁ : AtBlock thumb ((phase + 2 * P.length) % 4) V s₁ := by
    refine ⟨?_, hat.state, hcV.append_left⟩
    have hph := hat.phase
    show (s.pc + BitVec.ofNat 32 (2 * P.length)).toNat % 4 = _
    rw [BitVec.toNat_add, BitVec.toNat_ofNat]
    omega
  have h₂ : RunsWithin s.pc (2 * block.length) s₁ s₂ :=
    (hV.run s₁ hat₁ hpc).part (by omega)
  have h₃ : step s₂ = some s₃ := hA s₂ hat.state hcA.append_left
  have hgsp : s₃.gpr SP = s.gpr SP - 4#32 := by
    show regs s.flags s₂.gpr SP = _
    rw [hkeep]
    show Function.update (Function.update s.gpr SP (s.gpr SP - 4#32)) r v SP = _
    rw [Function.update_of_ne hsp.symm, Function.update_self]
  have hal : (s₃.gpr SP).toNat % 4 = 0 := by
    have := hst.aligned
    rw [hgsp, BitVec.toNat_sub, BitVec.toNat_ofNat]
    omega
  have h₄ : step s₃ = some (spillEffect r v regs flags s (blockEnd block s)) := by
    have hpc₃ : s₃.pc + BitVec.ofNat 32 (2 * Q.length) = blockEnd block s := by
      show s.pc + _ + _ + _ + _ = s.pc + _
      rw [BitVec.add_assoc, BitVec.add_assoc, BitVec.add_assoc, ← BitVec.ofNat_add,
        ← BitVec.ofNat_add, ← BitVec.ofNat_add, hsum]
      congr 2
      omega
    rw [hQ s₃ hat.state hcQ hal, hpc₃, hgsp, BitVec.sub_add_cancel,
      show s₃.mem.read32 (s.gpr SP - 4#32) = s.gpr r from Mem.read32_write _ _ _]
    rfl
  have hin₂ : InBlock s.pc (2 * block.length) s₂.pc := by
    show InBlock _ _ (s.pc + _ + _)
    rw [BitVec.add_assoc, ← BitVec.ofNat_add]
    exact hin _ (by omega)
  have hin₃ : InBlock s.pc (2 * block.length) s₃.pc := by
    show InBlock _ _ (s.pc + _ + _ + _)
    rw [BitVec.add_assoc, BitVec.add_assoc, ← BitVec.ofNat_add, ← BitVec.ofNat_add]
    exact hin _ (by omega)
  exact RunsWithin.head (inBlock_base (by omega)) h₁
    (h₂.trans (RunsWithin.head hin₂ h₃ (RunsWithin.head hin₃ h₄ (RunsWithin.refl _))))

end Spill

end HookZz
