import AndroidReverse.A64Machine

/-!
# More of the A64 instruction set

The loads, stores and additions that code uses to keep registers on the stack,
on a processor with its vector registers. None of them reads the program
counter or branches, so what they do is a function of the rest of the state.

An instruction set is the instructions of `AndroidReverse.A64Machine`, these,
and any others that do not read the program counter either (`Isa`). What is
proved over an `Isa` holds whatever those others do.
-/

namespace A64

/-- A vector register. -/
abbrev Vec := BitVec 128

/-- A doubleword is its two words. -/
theorem words_append (a : Addr) : a.extractLsb' 32 32 ++ a.extractLsb' 0 32 = a := by
  refine BitVec.eq_of_getLsbD_eq fun i hi => ?_
  simp only [BitVec.getLsbD_append, BitVec.getLsbD_extractLsb']
  by_cases h32 : i < 32
  · simp [h32]
  · simp [h32, show i - 32 < 32 by omega, show 32 + (i - 32) = i by omega]

/-- A vector register is its two doublewords. -/
theorem doublewords_append (v : Vec) : v.extractLsb' 64 64 ++ v.extractLsb' 0 64 = v := by
  refine BitVec.eq_of_getLsbD_eq fun i hi => ?_
  simp only [BitVec.getLsbD_append, BitVec.getLsbD_extractLsb']
  by_cases h64 : i < 64
  · simp [h64]
  · simp [h64, show i - 64 < 64 by omega, show 64 + (i - 64) = i by omega]

/-- Words stay while their bytes stay. -/
theorem WordsAt.of_eqOn {m m' : Mem} {base : Addr} {ws : List Word} (hw : WordsAt m base ws)
    (h : ∀ k < 4 * ws.length, m' (base + BitVec.ofNat 64 k) = m (base + BitVec.ofNat 64 k)) :
    WordsAt m' base ws := by
  intro k v hv
  have hk : k < ws.length := (List.getElem?_eq_some_iff.mp hv).1
  have hbyte : ∀ j < 4, m' (base + BitVec.ofNat 64 (4 * k) + BitVec.ofNat 64 j)
      = m (base + BitVec.ofNat 64 (4 * k) + BitVec.ofNat 64 j) := fun j hj => by
    rw [BitVec.add_assoc, ← BitVec.ofNat_add]
    exact h _ (by omega)
  have h₀ := hbyte 0 (by decide)
  rw [BitVec.add_zero] at h₀
  rw [← hw k v hv, Mem.read32, Mem.read32, h₀]
  exact congrArg₂ _ (congrArg₂ _ (hbyte 3 (by decide)) (hbyte 2 (by decide)))
    (congrArg₂ _ (hbyte 1 (by decide)) rfl)

/-- Words stay when others are placed apart from them. -/
theorem WordsAt.place {m : Mem} {base base' : Addr} {ws ws' : List Word} (hw : WordsAt m base ws)
    (h : ∀ k < 4 * ws.length, ¬ InBlock base' (4 * ws'.length) (base + BitVec.ofNat 64 k)) :
    WordsAt (m.place base' ws') base ws :=
  hw.of_eqOn fun k hk => Mem.place_of_out (h k hk)

/-! ## Doublewords in memory -/

namespace Mem

/-- Writing the little-endian doubleword at an address. -/
def write64 (m : Mem) (a v : Addr) : Mem := fun x =>
  if InBlock a 8 x then v.extractLsb' (8 * (x - a).toNat) 8 else m x

/-- The two doublewords of a vector register. -/
def write128 (m : Mem) (a : Addr) (v : Vec) : Mem :=
  (m.write64 a (v.extractLsb' 0 64)).write64 (a + 8#64) (v.extractLsb' 64 64)

/-- The vector register at an address. -/
def read128 (m : Mem) (a : Addr) : Vec := m.read64 (a + 8#64) ++ m.read64 a

variable {m m' : Mem} {a b v : Addr}

/-- What is outside a doubleword is not written. -/
theorem write64_of_out {x : Addr} (h : ¬ InBlock a 8 x) : m.write64 a v x = m x := if_neg h

/-- A doubleword is read from its bytes. -/
theorem read64_congr (h : ∀ i < 8, m (a + BitVec.ofNat 64 i) = m' (a + BitVec.ofNat 64 i)) :
    m.read64 a = m'.read64 a := by
  have h₀ := h 0 (by decide)
  rw [BitVec.add_zero] at h₀
  have h₅ := h 5 (by decide)
  have h₆ := h 6 (by decide)
  have h₇ := h 7 (by decide)
  unfold read64 read32
  rw [BitVec.add_assoc a 4#64 3#64, BitVec.add_assoc a 4#64 2#64, BitVec.add_assoc a 4#64 1#64]
  exact congrArg₂ _ (congrArg₂ _ (congrArg₂ _ h₇ h₆) (congrArg₂ _ h₅ (h 4 (by decide))))
    (congrArg₂ _ (congrArg₂ _ (h 3 (by decide)) (h 2 (by decide)))
      (congrArg₂ _ (h 1 (by decide)) h₀))

/-- **A doubleword that was written is read back.** -/
theorem read64_write64 : (m.write64 a v).read64 a = v := by
  have hbyte : ∀ i < 8, m.write64 a v (a + BitVec.ofNat 64 i) = v.extractLsb' (8 * i) 8 := by
    intro i hi
    have hoff : (a + BitVec.ofNat 64 i - a).toNat = i := by
      rw [BitVec.add_comm, BitVec.add_sub_cancel, BitVec.toNat_ofNat, Nat.mod_eq_of_lt (by omega)]
    have hin : InBlock a 8 (a + BitVec.ofNat 64 i) := inBlock_offset hi (by decide)
    rw [write64, if_pos hin, hoff]
  have h₀ := hbyte 0 (by decide)
  rw [BitVec.add_zero] at h₀
  have h₅ := hbyte 5 (by decide)
  have h₆ := hbyte 6 (by decide)
  have h₇ := hbyte 7 (by decide)
  unfold read64 read32
  rw [BitVec.add_assoc a 4#64 3#64, BitVec.add_assoc a 4#64 2#64, BitVec.add_assoc a 4#64 1#64,
    show (4#64 : Addr) + 3#64 = BitVec.ofNat 64 7 from rfl,
    show (4#64 : Addr) + 2#64 = BitVec.ofNat 64 6 from rfl,
    show (4#64 : Addr) + 1#64 = BitVec.ofNat 64 5 from rfl, h₀, h₅, h₆, h₇, hbyte 4 (by decide),
    hbyte 3 (by decide), hbyte 2 (by decide), hbyte 1 (by decide)]
  refine BitVec.eq_of_getLsbD_eq fun k hk => ?_
  simp only [BitVec.getLsbD_append, BitVec.getLsbD_extractLsb']
  interval_cases k <;> rfl

/-- A doubleword apart from the one that is written stays. -/
theorem read64_write64_of_apart (h : ∀ i < 8, ¬ InBlock a 8 (b + BitVec.ofNat 64 i)) :
    (m.write64 a v).read64 b = m.read64 b :=
  read64_congr fun i hi => write64_of_out (h i hi)

end Mem

/-! ## The processor -/

/-- **The state of a processor with its vector registers.** -/
structure VState extends State where
  /-- V0 to V31. -/
  vec : Reg → Vec

namespace VState

/-- The state that continues at an address. -/
def goto (s : VState) (a : Addr) : VState := { s with toState := s.toState.goto a }

/-- Writing a register: field 31 is the zero register. -/
def setReg (s : VState) (r : Reg) (v : Addr) : VState :=
  { s with toState := s.toState.setReg r v }

/-- Writing a register: field 31 is the stack pointer. -/
def setRegSp (s : VState) (r : Reg) (v : Addr) : VState :=
  if r = 31#5 then { s with sp := v } else s.setReg r v

/-- Reading a register: field 31 is the zero register. -/
def readReg (s : VState) (r : Reg) : Addr := if r = 31#5 then 0#64 else s.gpr r

/-- Writing a vector register. -/
def setVec (s : VState) (r : Reg) (v : Vec) : VState :=
  { s with vec := Function.update s.vec r v }

/-- Writing memory. -/
def setMem (s : VState) (m : Mem) : VState := { s with mem := m }

section Fields

variable (s : VState) (r : Reg) (v : Addr)

@[simp] theorem setReg_vec : (s.setReg r v).vec = s.vec := rfl

@[simp] theorem setReg_mem : (s.setReg r v).mem = s.mem := s.toState.setReg_mem r v

@[simp] theorem setReg_sp : (s.setReg r v).sp = s.sp := by
  unfold setReg State.setReg
  dsimp only
  split <;> rfl

@[simp] theorem setReg_pc : (s.setReg r v).pc = s.pc := by
  unfold setReg State.setReg
  dsimp only
  split <;> rfl

@[simp] theorem setReg_flags : (s.setReg r v).flags = s.flags := by
  unfold setReg State.setReg
  dsimp only
  split <;> rfl

variable {r}

theorem setReg_gpr (hr : r ≠ 31#5) : (s.setReg r v).gpr = Function.update s.gpr r v := by
  unfold setReg
  rw [s.toState.setReg_of_ne v hr]

end Fields

end VState

/-- **An instruction does not branch**, with the flags as they are. -/
def Op.FallsThrough (flags : Arm.Flags) : Op → Prop
  | .b _ | .bl _ | .br _ | .blr _ => False
  | .bCond cond _ => Arm.conditionPassed cond flags = false
  | .ldrLit _ _ | .adr _ _ | .adrp _ _ | .ldr _ _ _ => True

/-- **An instruction that neither reads the program counter nor branches.** The
displacements are the values that the encodings expand to. -/
inductive DataOp where
  /-- `ADD` and `SUB <Xd|SP>, <Xn|SP>, #imm`. -/
  | addImm (rd rn : Reg) (imm : Addr)
  /-- `STR <Xt>, [<Xn|SP>, #off]`. -/
  | str (rt rn : Reg) (off : Addr)
  /-- `STP <Xt>, <Xt2>, [<Xn|SP>, #off]`. -/
  | stp (rt rt2 rn : Reg) (off : Addr)
  /-- `LDP <Xt>, <Xt2>, [<Xn|SP>], #off`. -/
  | ldpPost (rt rt2 rn : Reg) (off : Addr)
  /-- `STP <Qt>, <Qt2>, [<Xn|SP>, #off]`. -/
  | stpVec (rt rt2 rn : Reg) (off : Addr)
  /-- `LDP <Qt>, <Qt2>, [<Xn|SP>], #off`. -/
  | ldpVecPost (rt rt2 rn : Reg) (off : Addr)
deriving DecidableEq, Repr

/-- **The effect of such an instruction.** -/
def DataOp.exec (s : VState) : DataOp → VState
  | addImm rd rn imm => s.setRegSp rd (s.base rn + imm)
  | str rt rn off => s.setMem (s.mem.write64 (s.base rn + off) (s.readReg rt))
  | stp rt rt2 rn off => s.setMem ((s.mem.write64 (s.base rn + off) (s.readReg rt)).write64
      (s.base rn + off + 8#64) (s.readReg rt2))
  | ldpPost rt rt2 rn off =>
      ((s.setReg rt (s.mem.read64 (s.base rn))).setReg rt2
        (s.mem.read64 (s.base rn + 8#64))).setRegSp rn (s.base rn + off)
  | stpVec rt rt2 rn off => s.setMem ((s.mem.write128 (s.base rn + off) (s.vec rt)).write128
      (s.base rn + off + 16#64) (s.vec rt2))
  | ldpVecPost rt rt2 rn off =>
      ((s.setVec rt (s.mem.read128 (s.base rn))).setVec rt2
        (s.mem.read128 (s.base rn + 16#64))).setRegSp rn (s.base rn + off)

/-- **Decoding** of these instructions, by masks as in `decode`. -/
def decodeData (w : Word) : Option DataOp :=
  let rt := w.extractLsb' 0 5
  let rn := w.extractLsb' 5 5
  let rt2 := w.extractLsb' 10 5
  let imm12 := (w.extractLsb' 10 12).setWidth 64
  let imm7 := (w.extractLsb' 15 7).signExtend 64
  if w &&& 0xFFC00000#32 = 0x91000000#32 then some (.addImm rt rn imm12)
  else if w &&& 0xFFC00000#32 = 0xD1000000#32 then some (.addImm rt rn (-imm12))
  else if w &&& 0xFFC00000#32 = 0xF9000000#32 then some (.str rt rn (imm12 <<< 3))
  else if w &&& 0xFFC00000#32 = 0xA9000000#32 then some (.stp rt rt2 rn (imm7 <<< 3))
  else if w &&& 0xFFC00000#32 = 0xA8C00000#32 then some (.ldpPost rt rt2 rn (imm7 <<< 3))
  else if w &&& 0xFFC00000#32 = 0xAD000000#32 then some (.stpVec rt rt2 rn (imm7 <<< 4))
  else if w &&& 0xFFC00000#32 = 0xACC00000#32 then some (.ldpVecPost rt rt2 rn (imm7 <<< 4))
  else none

/-- The program counter is no part of the effect. -/
theorem DataOp.exec_goto (o : DataOp) (s : VState) (a : Addr) :
    o.exec (s.goto a) = (o.exec s).goto a := by
  have hset : ∀ (s : VState) (r : Reg) (v : Addr),
      (s.goto a).setReg r v = (s.setReg r v).goto a := fun s r v =>
    congrArg (fun t => VState.mk t s.vec) (s.toState.setReg_goto r a v)
  have hsp : ∀ (s : VState) (r : Reg) (v : Addr),
      (s.goto a).setRegSp r v = (s.setRegSp r v).goto a := by
    intro s r v
    unfold VState.setRegSp
    split
    · rfl
    · exact hset s r v
  cases o with
  | addImm rd rn imm => exact hsp s rd _
  | str rt rn off => rfl
  | stp rt rt2 rn off => rfl
  | ldpPost rt rt2 rn off =>
    show (((s.goto a).setReg rt _).setReg rt2 _).setRegSp rn _ = _
    rw [hset, hset, hsp]
    rfl
  | stpVec rt rt2 rn off => rfl
  | ldpVecPost rt rt2 rn off =>
    show (((s.goto a).setVec rt _).setVec rt2 _).setRegSp rn _ = _
    rw [show ((s.goto a).setVec rt _).setVec rt2 _ = ((s.setVec rt _).setVec rt2 _).goto a from rfl,
      hsp]
    rfl

/-! ## Instruction sets -/

/-- **An instruction set**: the instructions here, and others of which is known
that they neither read the program counter nor branch. -/
structure Isa where
  /-- What such an instruction does. -/
  data : Word → Option (VState → VState)
  data_goto : ∀ {w f}, data w = some f → ∀ s a, f (s.goto a) = (f s).goto a
  data_of_decode : ∀ {w o}, decode w = none → decodeData w = some o → data w = some (o.exec ·)

/-- The instructions here, and no others. -/
def Isa.plain : Isa where
  data := fun w => (decodeData w).map fun o s => o.exec s
  data_goto := fun h s a => by
    obtain ⟨o, -, rfl⟩ := Option.map_eq_some_iff.mp h
    exact o.exec_goto s a
  data_of_decode := fun _ h => by rw [h, Option.map_some]

/-- An instruction as far as it is known. -/
inductive Insn where
  /-- One of `A64Machine`. -/
  | core (op : Op)
  /-- One that does not read the program counter. -/
  | data (o : DataOp)
deriving DecidableEq, Repr

/-- What the word of an instruction is. -/
def decodeInsn (w : Word) : Option Insn :=
  match decode w with
  | some op => some (.core op)
  | none => (decodeData w).map .data

/-- The effect of an instruction at `pc` with the next one at `next`. -/
def Insn.exec (pc next : Addr) (s : VState) : Insn → VState
  | core op => { s with toState := op.exec pc next s.toState }
  | data o => (o.exec s).goto next

namespace Isa

variable (isa : Isa)

/-- **The effect of a word** where the processor is. -/
def exec (w : Word) (s : VState) : Option VState :=
  match decode w with
  | some op => some { s with toState := op.exec s.pc (s.pc + 4#64) s.toState }
  | none => (isa.data w).map fun f => (f s).goto (s.pc + 4#64)

/-- **One instruction.** -/
def step (s : VState) : Option VState := isa.exec (s.mem.read32 s.pc) s

/-- The processor gets from a state to another. -/
def Reaches : VState → VState → Prop := Relation.ReflTransGen fun s t => isa.step s = some t

variable {isa} {s t u : VState}

theorem Reaches.refl (s : VState) : isa.Reaches s s := Relation.ReflTransGen.refl

theorem Reaches.single (h : isa.step s = some t) : isa.Reaches s t :=
  Relation.ReflTransGen.single h

theorem Reaches.trans (h : isa.Reaches s t) (h' : isa.Reaches t u) : isa.Reaches s u :=
  Relation.ReflTransGen.trans h h'

/-- An instruction that is known. -/
theorem step_of_decodeInsn {w : Word} {i : Insn} (hw : s.mem.read32 s.pc = w)
    (h : decodeInsn w = some i) : isa.step s = some (i.exec s.pc (s.pc + 4#64) s) := by
  rw [step, hw, exec]
  unfold decodeInsn at h
  cases hop : decode w with
  | some op =>
    rw [hop] at h
    obtain rfl := Option.some.inj h
    rfl
  | none =>
    rw [hop] at h
    obtain ⟨o, ho, rfl⟩ := Option.map_eq_some_iff.mp h
    simp only [isa.data_of_decode hop ho, Option.map_some]
    rfl

/-- **A run of the smaller machine** is a run, with the vector registers as they
are. -/
theorem Reaches.of_runsWithin {base : Addr} {len : ℕ} {a b : State}
    (h : RunsWithin base len a b) (v : Reg → Vec) : isa.Reaches ⟨a, v⟩ ⟨b, v⟩ := by
  induction h with
  | refl => exact .refl _
  | @tail b c _ hstep ih =>
    refine ih.trans (.single ?_)
    obtain ⟨op, hop, rfl⟩ := Option.map_eq_some_iff.mp hstep.2
    exact step_of_decodeInsn (s := ⟨b, v⟩) (i := .core op) rfl (by rw [decodeInsn, hop])

end Isa

end A64
