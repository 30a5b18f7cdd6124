import AndroidReverse.HookZzWriter
import AndroidReverse.ByteOutput
import Mathlib.Data.List.Chain
import Mathlib.Data.List.Forall2

/-!
# The books of a writer

An `AssemblerWriter` keeps what it writes in a buffer of halfwords. Here is
the writer with the memory it really writes to, which is also the only one
that can write an odd number of bytes. Its primitives are `put` once more, and
a call of any other function of the writers is the primitives that function
makes, which are read off its model (`emissions`): what a function writes
depends on the program counter of the writer and on nothing else
(`Emitter.isEmitter`), and a writer with no output shows it.

The books are the cursors, the size and the records, and that they are kept is
an invariant of `put`: the records lie side by side in the output, each where
its bytes are (`Bookkept`).
-/

namespace HookZz

open Arm ByteMemory

/-- `MAX_INSN_SIZE`. -/
def maxInsnSize : ℕ := 256

/-! ## The writer and its memory -/

/-- The bytes of a halfword. -/
def halfBytes (insn : Half) : List Byte := [insn.extractLsb' 0 8, insn.extractLsb' 8 8]

/-- **A call of a primitive**, with bytes for data. -/
inductive Primitive where
  /-- `zz_thumb_writer_put_instruction`. -/
  | thumb (insn : Half)
  /-- `zz_arm_writer_put_instruction`. -/
  | arm (insn : Word)
  /-- Either `put_bytes`. -/
  | bytes (data : List Byte)
deriving DecidableEq, Repr

namespace Primitive

/-- The bytes a primitive writes. -/
def data : Primitive → List Byte
  | thumb insn => halfBytes insn
  | arm insn => halfBytes (lowHalf insn) ++ halfBytes (highHalf insn)
  | bytes data => data

/-- What the writer notes down about a primitive. -/
def record (pc address : Word) : Primitive → ARMInstruction
  | thumb insn => ⟨.thumbInsn, pc, address, 2, 0#32, insn, 0#16⟩
  | arm insn => ⟨.armInsn, pc, address, 4, insn, 0#16, 0#16⟩
  | bytes data => ⟨.unkownInsn, pc, address, data.length, 0#32, 0#16, 0#16⟩

theorem record_size (pc address : Word) (p : Primitive) :
    (p.record pc address).size = p.data.length := by
  cases p <;> rfl

theorem record_pc (pc address : Word) (p : Primitive) : (p.record pc address).pc = pc := by
  cases p <;> rfl

theorem record_address (pc address : Word) (p : Primitive) :
    (p.record pc address).address = address := by
  cases p <;> rfl

/-- An emission, with the data as bytes. -/
def ofEmission : Emission → Primitive
  | .thumb insn => thumb insn
  | .arm insn => arm insn
  | .bytes data => bytes (data.flatMap halfBytes)

end Primitive

/-- The writer, and the memory it writes to. -/
structure CodeWriter where
  /-- What has been written. -/
  insns : List ARMInstruction
  /-- Where writing began. -/
  wStartAddress : Word
  /-- Where it goes on. -/
  wCurrentAddress : Word
  /-- The program counter where writing began. -/
  startPc : Word
  /-- The program counter where it goes on. -/
  currentPc : Word
  /-- The number of bytes written. -/
  size : ℕ
  /-- The memory. -/
  mem : Mem

/-- Which of the two resets a writer was given. -/
inductive WriterKind where
  | arm
  | thumb
deriving DecidableEq, Repr

namespace CodeWriter

/-- `zz_arm_writer_reset` and `zz_thumb_writer_reset`. -/
def reset (kind : WriterKind) (self : CodeWriter) (dataPtr targetPtr : Word) : CodeWriter where
  wCurrentAddress := align4 dataPtr
  wStartAddress := align4 dataPtr
  currentPc := targetPtr + (match kind with | .arm => 8#32 | .thumb => 4#32)
  startPc := targetPtr + (match kind with | .arm => 8#32 | .thumb => 4#32)
  size := 0
  insns := []
  mem := self.mem

/-- **One primitive**: the bytes go to memory, the cursors move behind them, and
the record names where they were. -/
def put (self : CodeWriter) (p : Primitive) : CodeWriter :=
  { self with
    mem := copy self.mem self.wCurrentAddress p.data
    wCurrentAddress := self.wCurrentAddress + BitVec.ofNat 32 p.data.length
    currentPc := self.currentPc + BitVec.ofNat 32 p.data.length
    size := self.size + p.data.length
    insns := self.insns ++ [p.record self.currentPc self.wCurrentAddress] }

/-- The writer without its memory and its output. -/
def view (self : CodeWriter) (buffer : List Half) : AssemblerWriter where
  insns := self.insns
  wStartAddress := self.wStartAddress
  wCurrentAddress := self.wCurrentAddress
  startPc := self.startPc
  currentPc := self.currentPc
  size := self.size
  buffer := buffer

end CodeWriter

/-! ## What a function of the writers writes -/

/-- The emissions behind a list of records and the output they are records
of. -/
def recover : List ARMInstruction → List Half → List Emission
  | [], _ => []
  | r :: rs, buffer =>
    (match r.type with
      | .armInsn => Emission.arm r.insn
      | .thumbInsn | .thumb2Insn => Emission.thumb r.insn1
      | .unkownInsn => Emission.bytes (buffer.take (r.size / 2)))
    :: recover rs (buffer.drop (r.size / 2))

/-- Records and output say what was emitted. -/
theorem recover_records (pc address : Word) (es : List Emission) :
    recover (AssemblerWriter.records pc address es) (es.flatMap Emission.halves) = es := by
  induction es generalizing pc address with
  | nil => rfl
  | cons e es ih =>
    have hsize : (e.record pc address).size = 2 * e.halves.length := by cases e <;> rfl
    have hhalf : (e.record pc address).size / 2 = e.halves.length := by
      rw [hsize, Nat.mul_div_cancel_left _ Nat.two_pos]
    rw [AssemblerWriter.records, recover, List.flatMap_cons, hhalf, List.drop_left, List.take_left,
      ih]
    cases e <;> rfl

/-- A writer that has written nothing. -/
def blankWriter (pc : Word) : AssemblerWriter := ⟨[], 0#32, 0#32, pc, pc, 0, []⟩

/-- **What a function of the writers emits** at a program counter. -/
def emissions (f : AssemblerWriter → AssemblerWriter) (pc : Word) : List Emission :=
  recover (f (blankWriter pc)).insns (f (blankWriter pc)).buffer

/-- A function emits what the program counter makes it emit. -/
def IsEmitter (f : AssemblerWriter → AssemblerWriter) : Prop :=
  ∃ es : Word → List Emission, ∀ self, f self = self.emit (es self.currentPc)

/-- **What a function emits is what it does.** -/
theorem IsEmitter.eq_emit {f : AssemblerWriter → AssemblerWriter} (h : IsEmitter f)
    (self : AssemblerWriter) : f self = self.emit (emissions f self.currentPc) := by
  obtain ⟨es, hes⟩ := h
  have hem : emissions f self.currentPc = es self.currentPc := by
    rw [emissions, hes, AssemblerWriter.emit_insns, AssemblerWriter.emit_buffer]
    exact recover_records _ _ _
  rw [hes, hem]

namespace IsEmitter

variable {f g : AssemblerWriter → AssemblerWriter}

theorem put (e : Emission) : IsEmitter (fun self => self.put e) := ⟨fun _ => [e], fun _ => rfl⟩

theorem skip : IsEmitter (fun self => self) := ⟨fun _ => [], fun _ => rfl⟩

theorem andThen (hf : IsEmitter f) (hg : IsEmitter g) : IsEmitter (fun self => g (f self)) := by
  obtain ⟨es, hes⟩ := hf
  obtain ⟨es', hes'⟩ := hg
  refine ⟨fun pc => es pc ++ es' (pc + BitVec.ofNat 32 (AssemblerWriter.bytesOf (es pc))),
    fun self => ?_⟩
  show g (f self) = self.emit (es self.currentPc ++ _)
  rw [hes', hes, AssemblerWriter.emit_currentPc, ← AssemblerWriter.emit_append]

theorem ite {p : Prop} [Decidable p] (hf : IsEmitter f) (hg : IsEmitter g) :
    IsEmitter (fun self => if p then f self else g self) := by
  by_cases hp : p
  · simpa only [if_pos hp] using hf
  · simpa only [if_neg hp] using hg

theorem ifOffWord (hf : IsEmitter f) (hg : IsEmitter g) :
    IsEmitter (fun self => if self.offWord then f self else g self) := by
  obtain ⟨es, hes⟩ := hf
  obtain ⟨es', hes'⟩ := hg
  refine ⟨fun pc => if pc.toNat % 4 != 0 then es pc else es' pc, fun self => ?_⟩
  show (if self.offWord then f self else g self) = self.emit (if self.offWord then _ else _)
  cases self.offWord with
  | true => exact hes self
  | false => exact hes' self

end IsEmitter

open AssemblerWriter

/-- **The functions of the writers** that write, at their arguments: those of
`writer-thumb.c`, then those of `writer-arm.c`. The two `put_bytes` are not
among them (`WriterCall.putBytes`). -/
inductive Emitter : (AssemblerWriter → AssemblerWriter) → Prop
  | thumbPutLdrBRegAddress (reg : Reg) (address : Word) :
      Emitter (fun self => self.thumbPutLdrBRegAddress reg address)
  | thumbPutLdrRegAddress (reg : Reg) (address : Word) :
      Emitter (fun self => self.thumbPutLdrRegAddress reg address)
  | thumbPutNop : Emitter (fun self => self.thumbPutNop)
  | thumbPutInstruction (insn : Word) : Emitter (fun self => self.thumbPutInstruction insn)
  | thumbPutBImm (imm : Word) : Emitter (fun self => self.thumbPutBImm imm)
  | thumbPutBxReg (reg : Reg) : Emitter (fun self => self.thumbPutBxReg reg)
  | thumbPutBlxReg (reg : Reg) : Emitter (fun self => self.thumbPutBlxReg reg)
  | thumbPutBranchImm (imm : Word) (link thumb : Bool) :
      Emitter (fun self => self.thumbPutBranchImm imm link thumb)
  | thumbPutBlImm (imm : Word) : Emitter (fun self => self.thumbPutBlImm imm)
  | thumbPutBlxImm (imm : Word) : Emitter (fun self => self.thumbPutBlxImm imm)
  | thumbPutBImm32 (imm : Word) : Emitter (fun self => self.thumbPutBImm32 imm)
  | thumbPutLdrRegImm (reg : Reg) (imm : ℤ) : Emitter (fun self => self.thumbPutLdrRegImm reg imm)
  | thumbPutTransferT1 (operation : ThumbMemoryOperation) (leftReg rightReg : Reg)
      (rightOffset : ℤ) :
      Emitter (fun self => (self.thumbPutTransferT1 operation leftReg rightReg rightOffset).1)
  | thumbPutTransferT2 (operation : ThumbMemoryOperation) (leftReg rightReg : Reg)
      (rightOffset : ℤ) :
      Emitter (fun self => (self.thumbPutTransferT2 operation leftReg rightReg rightOffset).1)
  | thumbPutTransferT3 (operation : ThumbMemoryOperation) (leftReg rightReg : Reg)
      (rightOffset : ℤ) :
      Emitter (fun self => (self.thumbPutTransferT3 operation leftReg rightReg rightOffset).1)
  | thumbPutTransferT4 (operation : ThumbMemoryOperation) (leftReg rightReg : Reg)
      (rightOffset : ℤ) (index wback : Bool) :
      Emitter (fun self =>
        (self.thumbPutTransferT4 operation leftReg rightReg rightOffset index wback).1)
  | thumbPutTransfer (operation : ThumbMemoryOperation) (leftReg rightReg : Reg)
      (rightOffset : ℤ) :
      Emitter (fun self => self.thumbPutTransfer operation leftReg rightReg rightOffset)
  | thumbPutLdrRegRegOffset (dstReg srcReg : Reg) (srcOffset : ℤ) :
      Emitter (fun self => self.thumbPutLdrRegRegOffset dstReg srcReg srcOffset)
  | thumbPutStrRegRegOffset (srcReg dstReg : Reg) (dstOffset : ℤ) :
      Emitter (fun self => self.thumbPutStrRegRegOffset srcReg dstReg dstOffset)
  | thumbPutLdrIndexRegRegOffset (dstReg srcReg : Reg) (srcOffset : ℤ) (index : Bool) :
      Emitter (fun self => self.thumbPutLdrIndexRegRegOffset dstReg srcReg srcOffset index)
  | thumbPutStrIndexRegRegOffset (srcReg dstReg : Reg) (dstOffset : ℤ) (index : Bool) :
      Emitter (fun self => self.thumbPutStrIndexRegRegOffset srcReg dstReg dstOffset index)
  | thumbPutStrRegReg (srcReg dstReg : Reg) :
      Emitter (fun self => self.thumbPutStrRegReg srcReg dstReg)
  | thumbPutLdrRegReg (dstReg srcReg : Reg) :
      Emitter (fun self => self.thumbPutLdrRegReg dstReg srcReg)
  | thumbPutAddRegImm (dstReg : Reg) (imm : ℤ) :
      Emitter (fun self => self.thumbPutAddRegImm dstReg imm)
  | thumbPutSubRegImm (dstReg : Reg) (imm : ℤ) :
      Emitter (fun self => self.thumbPutSubRegImm dstReg imm)
  | thumbPutAddRegRegImm (dstReg leftReg : Reg) (rightValue : ℤ) :
      Emitter (fun self => self.thumbPutAddRegRegImm dstReg leftReg rightValue)
  | thumbPutSubRegRegImm (dstReg leftReg : Reg) (rightValue : ℤ) :
      Emitter (fun self => self.thumbPutSubRegRegImm dstReg leftReg rightValue)
  | thumbPutPushReg (reg : Reg) : Emitter (fun self => self.thumbPutPushReg reg)
  | thumbPutPopReg (reg : Reg) : Emitter (fun self => self.thumbPutPopReg reg)
  | thumbPutAddRegRegReg (dstReg leftReg rightReg : Reg) :
      Emitter (fun self => self.thumbPutAddRegRegReg dstReg leftReg rightReg)
  | armPutLdrBRegAddress (reg : Reg) (address : Word) :
      Emitter (fun self => self.armPutLdrBRegAddress reg address)
  | armPutBxToThumb : Emitter (fun self => self.armPutBxToThumb)
  | armPutInstruction (insn : Word) : Emitter (fun self => self.armPutInstruction insn)
  | armPutBImm (imm : Word) : Emitter (fun self => self.armPutBImm imm)
  | armPutLdrRegRegImm (dstReg srcReg : Reg) (imm : ℤ) :
      Emitter (fun self => self.armPutLdrRegRegImm dstReg srcReg imm)
  | armPutLdrRegRegImmIndex (dstReg srcReg : Reg) (imm : ℤ) (index : Bool) :
      Emitter (fun self => self.armPutLdrRegRegImmIndex dstReg srcReg imm index)
  | armPutLdrRegRegImmA1 (dstReg srcReg : Reg) (imm : Word) (P U W : Bool) :
      Emitter (fun self => self.armPutLdrRegRegImmA1 dstReg srcReg imm P U W)
  | armPutLdrRegImmLiteral (dstReg : Reg) (imm : ℤ) :
      Emitter (fun self => self.armPutLdrRegImmLiteral dstReg imm)
  | armPutStrRegRegImm (dstReg srcReg : Reg) (imm : ℤ) :
      Emitter (fun self => self.armPutStrRegRegImm dstReg srcReg imm)
  | armPutLdrRegAddress (reg : Reg) (address : Word) :
      Emitter (fun self => self.armPutLdrRegAddress reg address)
  | armPutAddRegRegImm (dstReg srcReg : Reg) (imm : Word) :
      Emitter (fun self => self.armPutAddRegRegImm dstReg srcReg imm)
  | armPutSubRegRegImm (dstReg srcReg : Reg) (imm : Word) :
      Emitter (fun self => self.armPutSubRegRegImm dstReg srcReg imm)
  | armPutBxReg (reg : Reg) : Emitter (fun self => self.armPutBxReg reg)
  | armPutNop : Emitter (fun self => self.armPutNop)
  | armPutPushReg (reg : Reg) : Emitter (fun self => self.armPutPushReg reg)
  | armPutPopReg (reg : Reg) : Emitter (fun self => self.armPutPopReg reg)

namespace IsEmitter

/-- Two instructions one after the other. -/
theorem put_put (e e' : Emission) : IsEmitter (fun self => (self.put e).put e') :=
  (put e).andThen (put e')

theorem thumbPutLdrRegImm (reg : Reg) (imm : ℤ) :
    IsEmitter (fun self => self.thumbPutLdrRegImm reg imm) :=
  ite (put _) (ite (put_put _ _) skip)

theorem thumbPutLdrBRegAddress (reg : Reg) (address : Word) :
    IsEmitter (fun self => self.thumbPutLdrBRegAddress reg address) :=
  (ifOffWord
    (ite ((thumbPutLdrRegImm reg 4).andThen (put _)) (thumbPutLdrRegImm reg 4))
    (ite (thumbPutLdrRegImm reg 0) ((thumbPutLdrRegImm reg 4).andThen (put _)))).andThen
    (put_put _ _)

theorem thumbPutLdrRegAddress (reg : Reg) (address : Word) :
    IsEmitter (fun self => self.thumbPutLdrRegAddress reg address) :=
  (ifOffWord
    (ite (thumbPutLdrRegImm reg 0) ((thumbPutLdrRegImm reg 4).andThen (put _)))
    (ite ((thumbPutLdrRegImm reg 0).andThen (put _)) (thumbPutLdrRegImm reg 0))).andThen
    (put _)

theorem thumbPutTransferT1 (operation : ThumbMemoryOperation) (leftReg rightReg : Reg)
    (rightOffset : ℤ) :
    IsEmitter (fun self => (self.thumbPutTransferT1 operation leftReg rightReg rightOffset).1) := by
  simp only [AssemblerWriter.thumbPutTransferT1, apply_ite Prod.fst]
  exact ite skip (ite (put _) skip)

theorem thumbPutTransferT2 (operation : ThumbMemoryOperation) (leftReg rightReg : Reg)
    (rightOffset : ℤ) :
    IsEmitter (fun self => (self.thumbPutTransferT2 operation leftReg rightReg rightOffset).1) := by
  simp only [AssemblerWriter.thumbPutTransferT2, apply_ite Prod.fst]
  exact ite skip (ite (put _) skip)

theorem thumbPutTransferT3 (operation : ThumbMemoryOperation) (leftReg rightReg : Reg)
    (rightOffset : ℤ) :
    IsEmitter (fun self => (self.thumbPutTransferT3 operation leftReg rightReg rightOffset).1) := by
  simp only [AssemblerWriter.thumbPutTransferT3, apply_ite Prod.fst]
  exact ite skip (ite ((ite (thumbPutLdrRegImm _ _) skip).andThen (put_put _ _)) skip)

theorem thumbPutTransferT4 (operation : ThumbMemoryOperation) (leftReg rightReg : Reg)
    (rightOffset : ℤ) (index wback : Bool) :
    IsEmitter (fun self =>
      (self.thumbPutTransferT4 operation leftReg rightReg rightOffset index wback).1) := by
  simp only [AssemblerWriter.thumbPutTransferT4, apply_ite Prod.fst]
  exact ite (ite (thumbPutLdrRegImm _ _) (put_put _ _)) skip

theorem thumbPutTransfer (operation : ThumbMemoryOperation) (leftReg rightReg : Reg)
    (rightOffset : ℤ) :
    IsEmitter (fun self => self.thumbPutTransfer operation leftReg rightReg rightOffset) := by
  simp only [thumbPutTransfer_eq]
  exact ite (thumbPutTransferT1 _ _ _ _) (ite (thumbPutTransferT2 _ _ _ _)
    (ite (thumbPutTransferT3 _ _ _ _) (thumbPutTransferT4 _ _ _ _ _ _)))

theorem thumbPutAddRegImm (dstReg : Reg) (imm : ℤ) :
    IsEmitter (fun self => self.thumbPutAddRegImm dstReg imm) :=
  ite (put _) (put _)

theorem thumbPutAddRegRegImm (dstReg leftReg : Reg) (rightValue : ℤ) :
    IsEmitter (fun self => self.thumbPutAddRegRegImm dstReg leftReg rightValue) :=
  ite (thumbPutAddRegImm _ _) (ite (put _) (ite (put _) (put_put _ _)))

theorem armPutLdrRegRegImm (dstReg srcReg : Reg) (imm : ℤ) :
    IsEmitter (fun self => self.armPutLdrRegRegImm dstReg srcReg imm) :=
  ite (put _) (put _)

theorem armPutBxToThumb : IsEmitter (fun self => self.armPutBxToThumb) :=
  (put_put _ _).andThen ((put_put _ _).andThen (put_put _ _))

end IsEmitter

/-- **What any function of the writers writes depends on the program counter
alone.** -/
theorem Emitter.isEmitter {f : AssemblerWriter → AssemblerWriter} (h : Emitter f) :
    IsEmitter f := by
  cases h with
  | thumbPutLdrBRegAddress reg address => exact .thumbPutLdrBRegAddress reg address
  | thumbPutLdrRegAddress reg address => exact .thumbPutLdrRegAddress reg address
  | thumbPutBxReg reg => exact (IsEmitter.ifOffWord (.put _) .skip).andThen (.put_put _ _)
  | thumbPutBranchImm imm link thumb => exact .put_put _ _
  | thumbPutBlImm imm => exact .put_put _ _
  | thumbPutBlxImm imm => exact .put_put _ _
  | thumbPutBImm32 imm => exact .put_put _ _
  | thumbPutLdrRegImm reg imm => exact .thumbPutLdrRegImm reg imm
  | thumbPutTransferT1 op l r off => exact .thumbPutTransferT1 op l r off
  | thumbPutTransferT2 op l r off => exact .thumbPutTransferT2 op l r off
  | thumbPutTransferT3 op l r off => exact .thumbPutTransferT3 op l r off
  | thumbPutTransferT4 op l r off index wback => exact .thumbPutTransferT4 op l r off index wback
  | thumbPutTransfer op l r off => exact .thumbPutTransfer op l r off
  | thumbPutLdrRegRegOffset dst src off => exact .thumbPutTransfer _ dst src off
  | thumbPutStrRegRegOffset src dst off => exact .thumbPutTransfer _ src dst off
  | thumbPutLdrIndexRegRegOffset dst src off index =>
    exact .thumbPutTransferT4 _ dst src off index true
  | thumbPutStrIndexRegRegOffset src dst off index =>
    exact .thumbPutTransferT4 _ src dst off index true
  | thumbPutStrRegReg src dst => exact .thumbPutTransfer _ src dst 0
  | thumbPutLdrRegReg dst src => exact .thumbPutTransfer _ dst src 0
  | thumbPutAddRegImm dst imm => exact .thumbPutAddRegImm dst imm
  | thumbPutSubRegImm dst imm => exact .thumbPutAddRegImm dst (-imm)
  | thumbPutAddRegRegImm dst left v => exact .thumbPutAddRegRegImm dst left v
  | thumbPutSubRegRegImm dst left v => exact .thumbPutAddRegRegImm dst left (-v)
  | armPutLdrBRegAddress reg address =>
    exact (IsEmitter.armPutLdrRegRegImm _ _ _).andThen (.put_put _ _)
  | armPutBxToThumb => exact .armPutBxToThumb
  | armPutLdrRegRegImm dst src imm => exact .armPutLdrRegRegImm dst src imm
  | armPutLdrRegAddress reg address =>
    exact (IsEmitter.armPutLdrRegRegImm _ _ _).andThen (.put _)
  -- the others put one instruction
  | _ => exact .put _

/-! ## Calls -/

/-- **A call** of a function of the writers. -/
inductive WriterCall where
  /-- Either `put_bytes`, of any number of bytes. -/
  | putBytes (data : List Byte)
  /-- Any other function. -/
  | emitter (f : AssemblerWriter → AssemblerWriter) (h : Emitter f)

/-- **The primitives a call makes** at a program counter. -/
def WriterCall.primitives (pc : Word) : WriterCall → List Primitive
  | putBytes data => [.bytes data]
  | emitter f _ => (emissions f pc).map Primitive.ofEmission

namespace CodeWriter

/-- Primitives one after the other. -/
def putAll (self : CodeWriter) (ps : List Primitive) : CodeWriter := ps.foldl put self

/-- A call. -/
def call (self : CodeWriter) (c : WriterCall) : CodeWriter :=
  self.putAll (c.primitives self.currentPc)

/-- Calls one after the other. -/
def run (self : CodeWriter) (calls : List WriterCall) : CodeWriter := calls.foldl call self

/-- The primitives the calls make, in order. -/
def trace (self : CodeWriter) : List WriterCall → List Primitive
  | [] => []
  | c :: calls => c.primitives self.currentPc ++ (self.call c).trace calls

/-- A run is its primitives. -/
theorem run_eq_putAll (self : CodeWriter) (calls : List WriterCall) :
    self.run calls = self.putAll (self.trace calls) := by
  induction calls generalizing self with
  | nil => rfl
  | cons c calls ih =>
    show (self.call c).run calls = self.putAll (c.primitives self.currentPc ++ _)
    rw [ih, putAll, putAll, List.foldl_append]
    rfl

/-! ## The writer without a memory -/

theorem data_ofEmission (e : Emission) :
    (Primitive.ofEmission e).data = e.halves.flatMap halfBytes := by
  cases e <;> rfl

theorem length_flatMap_halfBytes (hs : List Half) :
    (hs.flatMap halfBytes).length = 2 * hs.length := by
  induction hs with
  | nil => rfl
  | cons h hs ih =>
    rw [List.flatMap_cons, List.length_append, ih, List.length_cons, Nat.mul_add, Nat.add_comm]
    rfl

theorem length_data_ofEmission (e : Emission) :
    (Primitive.ofEmission e).data.length = e.size := by
  rw [data_ofEmission, length_flatMap_halfBytes]
  rfl

theorem record_ofEmission (pc address : Word) (e : Emission) :
    (Primitive.ofEmission e).record pc address = e.record pc address := by
  cases e with
  | thumb insn => rfl
  | arm insn => rfl
  | bytes data => exact congrArg (fun n => (⟨.unkownInsn, pc, address, n, 0#32, 0#16, 0#16⟩ :
      ARMInstruction)) (length_flatMap_halfBytes data)

theorem view_putAll (self : CodeWriter) (buffer : List Half) (es : List Emission) :
    (self.putAll (es.map Primitive.ofEmission)).view (buffer ++ es.flatMap Emission.halves)
      = (self.view buffer).emit es := by
  induction es generalizing self buffer with
  | nil => exact congrArg self.view (List.append_nil buffer)
  | cons e es ih =>
    have hput : (self.put (.ofEmission e)).view (buffer ++ e.halves)
      = (self.view buffer).put e := by
      rw [put, length_data_ofEmission, record_ofEmission]
      rfl
    rw [List.flatMap_cons, ← List.append_assoc, List.map_cons, emit_cons, ← hput, ← ih]
    rfl

/-- **A call does to the books what the function does to them.** -/
theorem view_call (self : CodeWriter) {f : AssemblerWriter → AssemblerWriter} (h : Emitter f)
    (buffer : List Half) :
    (self.call (.emitter f h)).view (f (self.view buffer)).buffer = f (self.view buffer) := by
  rw [h.isEmitter.eq_emit, emit_buffer]
  exact view_putAll self buffer _

/-! ## The books -/

/-- What a record says about the primitive it is of. -/
structure Notes (s : CodeWriter) (r : ARMInstruction) (p : Primitive) : Prop where
  /-- It is the primitive's record. -/
  record : r = p.record r.pc r.address
  /-- Its program counter is as far from the start as its address. -/
  offset : r.pc - s.startPc = r.address - s.wStartAddress
  /-- It lies in the output. -/
  inside : (r.address - s.wStartAddress).toNat + r.size ≤ s.size
  /-- The bytes the primitive wrote are at its address. -/
  bytes : Holds s.mem r.address p.data

/-- One record begins where the other one ends. -/
def Behind (r r' : ARMInstruction) : Prop :=
  r'.address = r.address + BitVec.ofNat 32 r.size ∧ r'.pc = r.pc + BitVec.ofNat 32 r.size

/-- **The books of a writer** that has made the primitives `ps`. -/
structure Bookkept (s : CodeWriter) (ps : List Primitive) : Prop where
  /-- The size is the way of the program counter. -/
  size_pc : BitVec.ofNat 32 s.size = s.currentPc - s.startPc
  /-- The size is the way of the address. -/
  size_address : BitVec.ofNat 32 s.size = s.wCurrentAddress - s.wStartAddress
  /-- The records' sizes sum to it. -/
  sizes : (s.insns.map ARMInstruction.size).sum = s.size
  /-- The first record is where writing began. -/
  first : ∀ r ∈ s.insns.head?, r.address = s.wStartAddress ∧ r.pc = s.startPc
  /-- Each record begins where the one before it ends. -/
  contiguous : s.insns.IsChain Behind
  /-- The last record ends where writing goes on. -/
  last : ∀ r ∈ s.insns.getLast?, s.wCurrentAddress = r.address + BitVec.ofNat 32 r.size
    ∧ s.currentPc = r.pc + BitVec.ofNat 32 r.size
  /-- There is one record for each primitive. -/
  notes : List.Forall₂ (Notes s) s.insns ps

theorem bookkept_reset (kind : WriterKind) (self : CodeWriter) (dataPtr targetPtr : Word) :
    Bookkept (reset kind self dataPtr targetPtr) [] where
  size_pc := (BitVec.sub_self _).symm
  size_address := (BitVec.sub_self _).symm
  sizes := rfl
  first := fun _ hr => nomatch hr
  contiguous := List.IsChain.nil
  last := fun _ hr => nomatch hr
  notes := List.Forall₂.nil

theorem add_ofNat_of_sub_eq {a b : Word} {n : ℕ} (h : BitVec.ofNat 32 n = a - b) :
    a = b + BitVec.ofNat 32 n := by
  rw [h, BitVec.add_comm, BitVec.sub_add_cancel]

theorem sub_eq_of_add_ofNat {a b : Word} {n k : ℕ} (h : BitVec.ofNat 32 n = a - b) :
    BitVec.ofNat 32 (n + k) = a + BitVec.ofNat 32 k - b := by
  rw [BitVec.ofNat_add, h, sub_add_eq_add_sub]

/-- What a record says remains true. -/
theorem Notes.put {s : CodeWriter} {r : ARMInstruction} {q : Primitive} (h : Notes s r q)
    (p : Primitive) (hw : BitVec.ofNat 32 s.size = s.wCurrentAddress - s.wStartAddress)
    (hlen : s.size + p.data.length ≤ 2 ^ 32) : Notes (s.put p) r q where
  record := h.record
  offset := h.offset
  inside := le_trans h.inside (Nat.le_add_right _ _)
  bytes := by
    have haddr : r.address
        = s.wStartAddress + BitVec.ofNat 32 (r.address - s.wStartAddress).toNat := by
      rw [BitVec.ofNat_toNat, BitVec.setWidth_eq, BitVec.add_comm, BitVec.sub_add_cancel]
    have hsize : r.size = q.data.length := by
      rw [h.record]
      exact q.record_size _ _
    have hin := h.inside
    have hb := h.bytes
    rw [hsize] at hin
    rw [haddr] at hb ⊢
    show Holds (copy s.mem s.wCurrentAddress p.data) _ _
    rw [add_ofNat_of_sub_eq hw]
    exact hb.copy_behind hin hlen

/-- The record a primitive adds. -/
theorem notes_put {s : CodeWriter} (p : Primitive)
    (hp : BitVec.ofNat 32 s.size = s.currentPc - s.startPc)
    (hw : BitVec.ofNat 32 s.size = s.wCurrentAddress - s.wStartAddress)
    (hlen : s.size + p.data.length ≤ 2 ^ 32) :
    Notes (s.put p) (p.record s.currentPc s.wCurrentAddress) p where
  record := by rw [p.record_pc, p.record_address]
  offset := by
    rw [p.record_pc, p.record_address]
    exact hp.symm.trans hw
  inside := by
    rw [p.record_address, p.record_size]
    show (s.wCurrentAddress - s.wStartAddress).toNat + p.data.length ≤ s.size + p.data.length
    rw [← hw, BitVec.toNat_ofNat]
    exact Nat.add_le_add_right (Nat.mod_le _ _) _
  bytes := by
    rw [p.record_address]
    exact holds_copy s.mem s.wCurrentAddress (le_trans (Nat.le_add_left _ _) hlen)

/-- **A primitive keeps the books.** -/
theorem Bookkept.put {s : CodeWriter} {ps : List Primitive} (h : Bookkept s ps) (p : Primitive)
    (hlen : s.size + p.data.length ≤ 2 ^ 32) : Bookkept (s.put p) (ps ++ [p]) where
  size_pc := sub_eq_of_add_ofNat h.size_pc
  size_address := sub_eq_of_add_ofNat h.size_address
  sizes := by
    show ((s.insns ++ [_]).map _).sum = _
    rw [List.map_append, List.sum_append, h.sizes, List.map_singleton, List.sum_singleton,
      p.record_size]
    rfl
  first := by
    show ∀ r ∈ (s.insns ++ [p.record s.currentPc s.wCurrentAddress]).head?,
      r.address = s.wStartAddress ∧ r.pc = s.startPc
    cases hi : s.insns with
    | nil =>
      -- nothing has been written, so the cursors are where they started
      have hs : s.size = 0 := by rw [← h.sizes, hi]; rfl
      intro r hr
      obtain rfl := Option.some.inj hr
      rw [p.record_address, p.record_pc, add_ofNat_of_sub_eq h.size_address,
        add_ofNat_of_sub_eq h.size_pc, hs]
      exact ⟨BitVec.add_zero _, BitVec.add_zero _⟩
    | cons r rs =>
      have hfirst := h.first
      rw [hi] at hfirst
      exact hfirst
  contiguous := by
    refine h.contiguous.append (List.IsChain.singleton _) (fun r hr r' hr' => ?_)
    obtain rfl := Option.some.inj hr'
    obtain ⟨ha, hp⟩ := h.last r hr
    exact ⟨(p.record_address _ _).trans ha, (p.record_pc _ _).trans hp⟩
  last := by
    intro r hr
    obtain rfl := Option.some.inj (List.getLast?_concat.symm.trans hr)
    rw [p.record_size, p.record_address, p.record_pc]
    exact ⟨rfl, rfl⟩
  notes :=
    List.rel_append (h.notes.imp (fun _ _ hn => hn.put p h.size_address hlen))
      (List.Forall₂.cons (notes_put p h.size_pc h.size_address hlen) List.Forall₂.nil)

/-- **Primitives keep the books**, as long as the output is no longer than the
address space. -/
theorem bookkept_putAll {s : CodeWriter} (h : Bookkept s []) (ps : List Primitive)
    (hlen : (s.putAll ps).size ≤ 2 ^ 32) : Bookkept (s.putAll ps) ps := by
  induction ps using List.reverseRecOn with
  | nil => exact h
  | append_singleton ps p ih =>
    have hput : s.putAll (ps ++ [p]) = (s.putAll ps).put p := List.foldl_concat ..
    rw [hput] at hlen ⊢
    exact (ih (le_trans (Nat.le_add_right _ _) hlen)).put p hlen

/-- What a writer can hold: the array of records has its size, and the memory
has addresses for what is written. -/
structure Fits (s : CodeWriter) : Prop where
  /-- The records are no more than the array of them holds. -/
  records : s.insns.length ≤ maxInsnSize
  /-- The bytes are no more than the memory has. -/
  memory : s.size ≤ 2 ^ 32

/-- **The books are kept** by any calls after a reset that fit: the size is the
way of either cursor, and the records lie side by side in the output, one for
each primitive, each with the bytes of its primitive at its address. -/
theorem bookkept_run (kind : WriterKind) (self : CodeWriter) (dataPtr targetPtr : Word)
    (calls : List WriterCall) (h : Fits ((reset kind self dataPtr targetPtr).run calls)) :
    Bookkept ((reset kind self dataPtr targetPtr).run calls)
      ((reset kind self dataPtr targetPtr).trace calls) := by
  have hmemory := h.memory
  rw [run_eq_putAll] at hmemory ⊢
  exact bookkept_putAll (bookkept_reset kind self dataPtr targetPtr) _ hmemory

/-- A literal load, a word of data and a NOP after it. -/
theorem bookkept_run_literal :
    Bookkept ((reset .thumb ⟨[], 0#32, 0#32, 0#32, 0#32, 0, fun _ => 0#8⟩ 0x1002#32 0x8000#32).run
        [.emitter _ (.thumbPutLdrRegAddress 0#4 0x12345678#32), .putBytes [1#8, 2#8, 3#8],
          .emitter _ .armPutNop])
      [.thumb 0x4800#16, .thumb 0x46C0#16, .bytes [0x78#8, 0x56#8, 0x34#8, 0x12#8],
        .bytes [1#8, 2#8, 3#8], .arm 0xE320F000#32] :=
  bookkept_run .thumb ⟨[], 0#32, 0#32, 0#32, 0#32, 0, fun _ => 0#8⟩ 0x1002#32 0x8000#32
    [.emitter _ (.thumbPutLdrRegAddress 0#4 0x12345678#32), .putBytes [1#8, 2#8, 3#8],
      .emitter _ .armPutNop]
    ⟨by decide, by decide⟩

end CodeWriter

end HookZz
