import AndroidReverse.ArmMachine
import Mathlib.Logic.Relation
import Mathlib.Tactic.IntervalCases

/-!
# The A64 machine

The part of the AArch64 architecture that code relocation rests on: the
registers X0 to X30, the stack pointer, the condition flags and a byte memory
over 64-bit addresses. It names no program.

A register field of 31 is the zero register of a load or of an address
computation, and the stack pointer where it is the base of a load.

As in the 32-bit machine the effect of an instruction is relative to where it
stands: `Op.exec` takes the address of the instruction and that of its
successor. A moved instruction has to behave as if its address were still the
old one, and to continue with what follows it in the new place.

`RunsWithin base len s t` is a run all of whose instructions are fetched from
the block of `len` bytes at `base`. The last state may have left it.
-/

namespace A64

/-- A byte of memory. -/
abbrev Byte := BitVec 8

/-- An instruction. -/
abbrev Word := BitVec 32

/-- An address, or the content of a register. -/
abbrev Addr := BitVec 64

/-- The number of a register, as the encodings carry it. -/
abbrev Reg := BitVec 5

/-- A byte memory over the address space. -/
abbrev Mem := Addr → Byte

namespace Mem

/-- The little-endian word at an address. -/
def read32 (m : Mem) (a : Addr) : Word :=
  (m (a + 3#64) ++ m (a + 2#64)) ++ (m (a + 1#64) ++ m a)

/-- The little-endian doubleword at an address. -/
def read64 (m : Mem) (a : Addr) : Addr := m.read32 (a + 4#64) ++ m.read32 a

end Mem

/-- **The state of the processor and its memory.** `pc` is the address of the
instruction about to execute. -/
structure State where
  /-- X0 to X30; slot 31 is not read. -/
  gpr : Reg → Addr
  /-- The stack pointer. -/
  sp : Addr
  /-- The address of the instruction about to execute. -/
  pc : Addr
  /-- The condition flags. -/
  flags : Arm.Flags
  /-- The memory. -/
  mem : Mem

namespace State

/-- The base register of a load: field 31 is the stack pointer. -/
def base (s : State) (r : Reg) : Addr := if r = 31#5 then s.sp else s.gpr r

/-- Writing a register: field 31 is the zero register. -/
def setReg (s : State) (r : Reg) (v : Addr) : State :=
  if r = 31#5 then s else { s with gpr := Function.update s.gpr r v }

/-- The state that continues at an address. -/
def goto (s : State) (a : Addr) : State := { s with pc := a }

/-- A branch to a register: field 31 is the zero register. -/
def branchTarget (s : State) (r : Reg) : Addr := if r = 31#5 then 0#64 else s.gpr r

section Fields

variable (s : State) (r : Reg) (a v : Addr)

@[simp] theorem goto_pc : (s.goto a).pc = a := rfl

@[simp] theorem goto_mem : (s.goto a).mem = s.mem := rfl

@[simp] theorem goto_gpr : (s.goto a).gpr = s.gpr := rfl

@[simp] theorem goto_goto (b : Addr) : (s.goto a).goto b = s.goto b := rfl

@[simp] theorem setReg_mem : (s.setReg r v).mem = s.mem := by
  unfold setReg
  split <;> rfl

theorem setReg_goto : (s.goto a).setReg r v = (s.setReg r v).goto a := by
  unfold setReg
  split <;> rfl

variable {r}

theorem setReg_of_ne (hr : r ≠ 31#5) :
    s.setReg r v = { s with gpr := Function.update s.gpr r v } := if_neg hr

/-- A register that was written is read back. -/
theorem setReg_gpr (hr : r ≠ 31#5) : (s.setReg r v).gpr r = v := by
  rw [setReg_of_ne s v hr]
  exact Function.update_self r v s.gpr

/-- No other register changes. -/
theorem setReg_gpr_of_ne {r' : Reg} (h : r' ≠ r) : (s.setReg r v).gpr r' = s.gpr r' := by
  unfold setReg
  split
  · rfl
  · exact Function.update_of_ne h v s.gpr

/-- The second of two writes stays. -/
theorem setReg_setReg (w : Addr) : (s.setReg r v).setReg r w = s.setReg r w := by
  by_cases hr : r = 31#5
  · simp only [setReg, hr, if_true]
  · simp only [setReg_of_ne _ _ hr, Function.update_idem]

end Fields

end State

/-! ## Instructions -/

/-- **A decoded instruction.** The displacements are the values that the
encodings expand to. -/
inductive Op where
  /-- `LDR <Xt>, <label>`. -/
  | ldrLit (rt : Reg) (off : Addr)
  /-- `ADR`. -/
  | adr (rd : Reg) (off : Addr)
  /-- `ADRP`: relative to the page. -/
  | adrp (rd : Reg) (off : Addr)
  /-- `B`. -/
  | b (off : Addr)
  /-- `BL`. -/
  | bl (off : Addr)
  /-- `B.cond`. -/
  | bCond (cond : BitVec 4) (off : Addr)
  /-- `BR`. -/
  | br (rn : Reg)
  /-- `BLR`. -/
  | blr (rn : Reg)
  /-- `LDR <Xt>, [<Xn|SP>, #imm]`. -/
  | ldr (rt rn : Reg) (off : Addr)
deriving DecidableEq, Repr

/-- The page of an address. -/
def page (a : Addr) : Addr := a &&& 0xFFFFFFFFFFFFF000#64

/-- The displacement in an instruction. -/
def Op.displacement : Op → Option Addr
  | .ldrLit _ off | .adr _ off | .b off | .bl off | .bCond _ off | .adrp _ off => some off
  | .br _ | .blr _ | .ldr _ _ _ => none

/-- **The effect of an instruction** at `pc` with the next instruction at
`next`. -/
def Op.exec (pc next : Addr) (s : State) : Op → State
  | .ldrLit rt off => (s.setReg rt (s.mem.read64 (pc + off))).goto next
  | .adr rd off => (s.setReg rd (pc + off)).goto next
  | .adrp rd off => (s.setReg rd (page pc + off)).goto next
  | .b off => s.goto (pc + off)
  | .bl off => (s.setReg 30#5 next).goto (pc + off)
  | .bCond cond off => s.goto (if Arm.conditionPassed cond s.flags then pc + off else next)
  | .br rn => s.goto (s.branchTarget rn)
  | .blr rn => (s.setReg 30#5 next).goto (s.branchTarget rn)
  | .ldr rt rn off => (s.setReg rt (s.mem.read64 (s.base rn + off))).goto next

/-- **Decoding**: the first pattern that the word matches, a pattern being a
mask and what the word is under it. No two of them match one word. -/
def decode (w : Word) : Option Op :=
  let rd := w.extractLsb' 0 5
  let rn := w.extractLsb' 5 5
  let imm19 := w.extractLsb' 5 19
  let adrImm := imm19 ++ w.extractLsb' 29 2
  let imm26 := w.extractLsb' 0 26
  if w &&& 0xFF000000#32 = 0x58000000#32 then
    some (.ldrLit rd ((imm19 ++ 0#2).signExtend 64))
  else if w &&& 0x9F000000#32 = 0x10000000#32 then some (.adr rd (adrImm.signExtend 64))
  else if w &&& 0x9F000000#32 = 0x90000000#32 then
    some (.adrp rd ((adrImm ++ 0#12).signExtend 64))
  else if w &&& 0xFC000000#32 = 0x14000000#32 then some (.b ((imm26 ++ 0#2).signExtend 64))
  else if w &&& 0xFC000000#32 = 0x94000000#32 then some (.bl ((imm26 ++ 0#2).signExtend 64))
  else if w &&& 0xFF000010#32 = 0x54000000#32 then
    some (.bCond (w.extractLsb' 0 4) ((imm19 ++ 0#2).signExtend 64))
  else if w &&& 0xFFFFFC1F#32 = 0xD61F0000#32 then some (.br rn)
  else if w &&& 0xFFFFFC1F#32 = 0xD63F0000#32 then some (.blr rn)
  else if w &&& 0xFFC00000#32 = 0xF9400000#32 then
    some (.ldr rd rn ((w.extractLsb' 10 12).setWidth 64 <<< 3))
  else none

/-! ## Runs -/

/-- **One instruction of the machine.** -/
def step (s : State) : Option State :=
  (decode (s.mem.read32 s.pc)).map fun op => op.exec s.pc (s.pc + 4#64) s

theorem step_of_decode {s : State} {w : Word} {op : Op} (hw : s.mem.read32 s.pc = w)
    (h : decode w = some op) : step s = some (op.exec s.pc (s.pc + 4#64) s) := by
  rw [step, hw, h, Option.map_some]

/-- The words are in memory from an address on. -/
def WordsAt (m : Mem) (base : Addr) (ws : List Word) : Prop :=
  ∀ i v, ws[i]? = some v → m.read32 (base + BitVec.ofNat 64 (4 * i)) = v

theorem WordsAt.append_left {m : Mem} {base : Addr} {ws ws' : List Word}
    (h : WordsAt m base (ws ++ ws')) : WordsAt m base ws := by
  intro i v hv
  have hi : i < ws.length := (List.getElem?_eq_some_iff.mp hv).1
  exact h i v (by rw [List.getElem?_append_left hi]; exact hv)

/-- The code after a prefix stands after the prefix. -/
theorem WordsAt.append_right {m : Mem} {base : Addr} {ws ws' : List Word}
    (h : WordsAt m base (ws ++ ws')) :
    WordsAt m (base + BitVec.ofNat 64 (4 * ws.length)) ws' := by
  intro i v hv
  have := h (ws.length + i) v (by rw [List.getElem?_append_right (by omega)]; simpa using hv)
  rwa [BitVec.add_assoc, ← BitVec.ofNat_add, ← Nat.mul_add]

/-- An address lies in the block of `len` bytes at `base`. -/
def InBlock (base : Addr) (len : ℕ) (a : Addr) : Prop := (a - base).toNat < len

instance (base : Addr) (len : ℕ) (a : Addr) : Decidable (InBlock base len a) :=
  inferInstanceAs (Decidable (_ < _))

theorem inBlock_offset {base : Addr} {len k : ℕ} (hk : k < len) (hlen : len ≤ 2 ^ 64) :
    InBlock base len (base + BitVec.ofNat 64 k) := by
  rw [InBlock, BitVec.add_comm, BitVec.add_sub_cancel, BitVec.toNat_ofNat,
    Nat.mod_eq_of_lt (lt_of_lt_of_le hk hlen)]
  exact hk

/-- What is outside a block is outside its parts. -/
theorem not_inBlock_part {base a : Addr} {len off len' : ℕ} (h : ¬ InBlock base len a)
    (ho : off + len' ≤ len) : ¬ InBlock (base + BitVec.ofNat 64 off) len' a := by
  unfold InBlock at *
  have hoff : off % 2 ^ 64 ≤ off := Nat.mod_le _ _
  rw [BitVec.toNat_sub] at *
  rw [BitVec.toNat_add, BitVec.toNat_ofNat]
  have := a.isLt
  have := base.isLt
  omega

/-- The end of a block is outside it. -/
theorem not_inBlock_end (base : Addr) {len : ℕ} (h : len < 2 ^ 64) :
    ¬ InBlock base len (base + BitVec.ofNat 64 len) := by
  rw [InBlock, BitVec.add_comm, BitVec.add_sub_cancel, BitVec.toNat_ofNat, Nat.mod_eq_of_lt h]
  exact lt_irrefl len

/-- **There is room for a block** away from two addresses. -/
theorem exists_base (a b : Addr) : ∃ base, ¬ InBlock base 64 a ∧ ¬ InBlock base 64 b := by
  unfold InBlock
  by_cases h : (b - (a + 64#64)).toNat < 64
  · exact ⟨a + 128#64, by bv_omega, by bv_omega⟩
  · exact ⟨a + 64#64, by bv_omega, h⟩

/-- A memory with words from an address on. -/
def Mem.place (m : Mem) (base : Addr) (ws : List Word) : Mem := fun a =>
  match ws[(a - base).toNat / 4]? with
  | some v => v.extractLsb' (8 * ((a - base).toNat % 4)) 8
  | none => m a

/-- Placing words changes no byte outside them. -/
theorem Mem.place_of_out {m : Mem} {base a : Addr} {ws : List Word}
    (h : ¬ InBlock base (4 * ws.length) a) : m.place base ws a = m a := by
  have hnone : ws[(a - base).toNat / 4]? = none :=
    List.getElem?_eq_none (by have := Nat.not_lt.mp h; omega)
  rw [Mem.place, hnone]

theorem wordsAt_place (m : Mem) (base : Addr) {ws : List Word} (hlen : 4 * ws.length ≤ 2 ^ 64) :
    WordsAt (m.place base ws) base ws := by
  intro i v hv
  have hi : i < ws.length := (List.getElem?_eq_some_iff.mp hv).1
  have hb : ∀ j < 4, m.place base ws (base + BitVec.ofNat 64 (4 * i) + BitVec.ofNat 64 j)
      = v.extractLsb' (8 * j) 8 := by
    intro j hj
    have hk : (base + BitVec.ofNat 64 (4 * i) + BitVec.ofNat 64 j - base).toNat = 4 * i + j := by
      rw [BitVec.add_assoc, ← BitVec.ofNat_add, BitVec.add_comm, BitVec.add_sub_cancel,
        BitVec.toNat_ofNat, Nat.mod_eq_of_lt (by omega)]
    rw [Mem.place, hk, show (4 * i + j) / 4 = i by omega, show (4 * i + j) % 4 = j by omega, hv]
  have h0 := hb 0 (by decide)
  rw [BitVec.add_zero] at h0
  rw [Mem.read32, hb 3 (by decide), hb 2 (by decide), hb 1 (by decide), h0]
  refine BitVec.eq_of_getLsbD_eq fun k hk => ?_
  simp only [BitVec.getLsbD_append, BitVec.getLsbD_extractLsb']
  interval_cases k <;> simp

/-- **A run within a block**: every instruction executed is fetched from the
block. -/
def RunsWithin (base : Addr) (len : ℕ) : State → State → Prop :=
  Relation.ReflTransGen fun s t => InBlock base len s.pc ∧ step s = some t

section RunsWithin

variable {base : Addr} {len : ℕ} {s t u : State}

theorem RunsWithin.refl (s : State) : RunsWithin base len s s := Relation.ReflTransGen.refl

/-- One step, then the rest of the run. -/
theorem RunsWithin.head (hb : InBlock base len s.pc) (hs : step s = some u)
    (h : RunsWithin base len u t) : RunsWithin base len s t :=
  Relation.ReflTransGen.head ⟨hb, hs⟩ h

/-- One step at a word of the block. -/
theorem RunsWithin.step_at {k : ℕ} {w : Word} {op : Op}
    (hpc : s.pc = base + BitVec.ofNat 64 (4 * k)) (hk : 4 * k < len) (hlen : len ≤ 2 ^ 64)
    (hw : s.mem.read32 (base + BitVec.ofNat 64 (4 * k)) = w) (hop : decode w = some op)
    (h : RunsWithin base len (op.exec (base + BitVec.ofNat 64 (4 * k))
      (base + BitVec.ofNat 64 (4 * (k + 1))) s) t) : RunsWithin base len s t := by
  have hnext : base + BitVec.ofNat 64 (4 * (k + 1)) = s.pc + 4#64 := by
    rw [hpc, BitVec.add_assoc, ← BitVec.ofNat_add]
    rfl
  rw [hnext, ← hpc] at h
  refine RunsWithin.head ?_ (step_of_decode (hpc ▸ hw) hop) h
  rw [hpc]
  exact inBlock_offset hk hlen

/-- A run within a part of a block is one within the block. -/
theorem RunsWithin.part (off len' : ℕ) (ho : off + len' ≤ len)
    (h : RunsWithin (base + BitVec.ofNat 64 off) len' s t) : RunsWithin base len s t := by
  induction h with
  | refl => exact RunsWithin.refl s
  | tail _ hstep ih =>
    refine ih.tail ⟨?_, hstep.2⟩
    by_contra hout
    exact not_inBlock_part hout ho hstep.1

theorem RunsWithin.trans (h : RunsWithin base len s t) (h' : RunsWithin base len t u) :
    RunsWithin base len s u :=
  Relation.ReflTransGen.trans h h'

/-- A run goes no further than the first state outside the block. -/
theorem RunsWithin.eq_of_out (h : RunsWithin base len s t) (hb : ¬ InBlock base len s.pc) :
    t = s := by
  rcases Relation.ReflTransGen.cases_head h with rfl | ⟨u, hu, -⟩
  · rfl
  · exact absurd hu.1 hb

/-- **A block is left in one state.** -/
theorem RunsWithin.left_unique (h : RunsWithin base len s t) (ht : ¬ InBlock base len t.pc)
    (h' : RunsWithin base len s u) (hu : ¬ InBlock base len u.pc) : u = t := by
  rcases Relation.ReflTransGen.total_of_right_unique
    (fun _ _ _ h h' => Option.some.inj (h.2.symm.trans h'.2)) h h' with htu | hut
  · exact RunsWithin.eq_of_out htu ht
  · exact (RunsWithin.eq_of_out hut hu).symm

end RunsWithin

end A64
