import Mathlib.Data.BitVec
import Mathlib.Logic.Function.Basic

/-!
# The ARM machine

A model of the part of the ARMv7-A architecture that code patching rests on:
sixteen registers, four condition flags, two instruction sets and a byte
memory. It names no program. What it fixes is the meaning of a decoded
instruction, and it fixes it *relative to where the instruction stands*:
`Op.exec` takes the value the program counter reads as and the address of the
instruction that follows, and the machine of `AndroidReverse.ArmRun` supplies
both from the current address.

Keeping the two apart is what makes relocation statable. An instruction moved
out of its place has to behave as if the program counter still read as it did
there, and to continue with whatever follows it in the new place; that is
`Op.exec` at the old program counter and the new successor.

The architecture leaves some executions UNPREDICTABLE – a jump to an address
with low bits `10`, a `PUSH` at an unaligned stack. Those return `none`, so a
statement that a run reaches a state never rests on one.

Execution here is outside an IT block. The instructions of the library set no
`ITSTATE`, and a 16-bit data-processing instruction sets the flags, which is
its reading outside such a block.
-/

namespace Arm

/-- A byte of memory. -/
abbrev Byte := BitVec 8

/-- A halfword: a 16-bit Thumb instruction or half of a 32-bit one. -/
abbrev Half := BitVec 16

/-- A word: an ARM instruction, an address, or the content of a register. -/
abbrev Word := BitVec 32

/-- The number of a register, as the encodings carry it. -/
abbrev Reg := BitVec 4

/-! ## Memory -/

/-- A byte memory over the 32-bit address space. -/
abbrev Mem := Word → Byte

namespace Mem

/-- The little-endian halfword at an address. -/
def read16 (m : Mem) (a : Word) : Half := m (a + 1#32) ++ m a

/-- The little-endian word at an address. -/
def read32 (m : Mem) (a : Word) : Word := m.read16 (a + 2#32) ++ m.read16 a

/-- Byte `k` of a word. -/
def byteOf (v : Word) (k : ℕ) : Byte := v.extractLsb' (8 * k) 8

/-- Store the low `n` bytes of a word at an address. -/
def write (m : Mem) (n : ℕ) (a v : Word) : Mem :=
  fun x => if (x - a).toNat < n then byteOf v (x - a).toNat else m x

end Mem

/-! ## The state of a processor -/

/-- The condition flags of the `APSR`. -/
structure Flags where
  /-- Negative. -/
  n : Bool
  /-- Zero. -/
  z : Bool
  /-- Carry. -/
  c : Bool
  /-- Overflow. -/
  v : Bool
deriving DecidableEq, Repr

/-- **The state of the processor and its memory.** `pc` is the address of the
instruction about to execute, not what reading R15 returns; the register file
holds R0 to R14, and no instruction writes its slot 15. -/
structure State where
  /-- R0 to R14. -/
  gpr : Reg → Word
  /-- The address of the instruction about to execute. -/
  pc : Word
  /-- The instruction set: Thumb or ARM. -/
  thumb : Bool
  /-- The condition flags. -/
  flags : Flags
  /-- The memory. -/
  mem : Mem

/-- `Align(a, 4)`. -/
def align4 (a : Word) : Word := a &&& 0xFFFFFFFC#32

namespace State

/-- Reading a register, where the program counter reads as `pc`. -/
def readReg (s : State) (pc : Word) (r : Reg) : Word :=
  if r = 15#4 then pc else s.gpr r

/-- Writing a register other than the program counter. -/
def setReg (s : State) (r : Reg) (v : Word) : State :=
  { s with gpr := Function.update s.gpr r v }

/-- The state that continues at an address in the same instruction set. -/
def goto (s : State) (a : Word) : State := { s with pc := a }

@[simp] theorem setReg_gpr (s : State) (r : Reg) (v : Word) :
    (s.setReg r v).gpr = Function.update s.gpr r v := rfl

@[simp] theorem goto_gpr (s : State) (a : Word) : (s.goto a).gpr = s.gpr := rfl

/-! ## Writing the program counter -/

/-- `BranchWritePC`: a branch that stays in the instruction set. -/
def branchWritePC (s : State) (a : Word) : State :=
  s.goto (if s.thumb then a &&& 0xFFFFFFFE#32 else a &&& 0xFFFFFFFC#32)

/-- `BXWritePC`: **interworking on bit 0** – Thumb if it is set, ARM if the
two low bits are clear, UNPREDICTABLE otherwise. -/
def bxWritePC (s : State) (a : Word) : Option State :=
  if a.getLsbD 0 then some { s with pc := a &&& 0xFFFFFFFE#32, thumb := true }
  else if a.getLsbD 1 then none
  else some { s with pc := a, thumb := false }

/-- `ALUWritePC`: the result of a data-processing instruction interworks in
ARM state only. -/
def aluWritePC (s : State) (a : Word) : Option State :=
  if s.thumb then some (s.branchWritePC a) else s.bxWritePC a

/-- Write the result of an instruction to its destination and continue with
the next instruction, or jump if the destination is the program counter. -/
def writeResult (s : State) (next : Word) (rd : Reg) (v : Word) : Option State :=
  if rd = 15#4 then s.aluWritePC v else some ((s.setReg rd v).goto next)

/-- Write a loaded word to its destination. A load of the program counter
interworks, and is UNPREDICTABLE from an unaligned address. -/
def writeLoaded (s : State) (next : Word) (rt : Reg) (a v : Word) : Option State :=
  if rt = 15#4 then (if align4 a = a then s.bxWritePC v else none)
  else some ((s.setReg rt v).goto next)

end State

/-! ## Conditions and arithmetic -/

/-- `ConditionPassed`: whether the flags satisfy a condition field. -/
def conditionPassed (cond : BitVec 4) (f : Flags) : Bool :=
  match cond with
  | 0b0000#4 => f.z
  | 0b0001#4 => !f.z
  | 0b0010#4 => f.c
  | 0b0011#4 => !f.c
  | 0b0100#4 => f.n
  | 0b0101#4 => !f.n
  | 0b0110#4 => f.v
  | 0b0111#4 => !f.v
  | 0b1000#4 => f.c && !f.z
  | 0b1001#4 => !(f.c && !f.z)
  | 0b1010#4 => f.n == f.v
  | 0b1011#4 => !(f.n == f.v)
  | 0b1100#4 => f.n == f.v && !f.z
  | 0b1101#4 => !(f.n == f.v && !f.z)
  | _ => true

/-- The condition field of an unconditional instruction. -/
def always : BitVec 4 := 0b1110#4

@[simp] theorem conditionPassed_always (f : Flags) : conditionPassed always f = true := rfl

/-- The flags of the addition of two words. -/
def addFlags (x y : Word) : Flags where
  n := (x + y).msb
  z := x + y == 0#32
  c := 2 ^ 32 ≤ x.toNat + y.toNat
  v := (x.toInt + y.toInt) != (x + y).toInt

/-- `Shift_C` with a shift decoded by `DecodeImmShift`: the shifted word and
the carry out. Type 3 with amount 0 is `RRX`, types 1 and 2 with amount 0
shift by 32. -/
def shiftC (x : Word) (ty : BitVec 2) (imm5 : BitVec 5) (carry : Bool) : Word × Bool :=
  let n := imm5.toNat
  match ty with
  | 0b00#2 => if n = 0 then (x, carry) else (x <<< n, x.getLsbD (32 - n))
  | 0b01#2 => if n = 0 then (0, x.getLsbD 31) else (x >>> n, x.getLsbD (n - 1))
  | 0b10#2 =>
    if n = 0 then (x.sshiftRight 32, x.getLsbD 31) else (x.sshiftRight n, x.getLsbD (n - 1))
  | _ =>
    if n = 0 then ((x >>> 1) ||| (if carry then 0x80000000#32 else 0#32), x.getLsbD 0)
    else (x.rotateRight n, x.getLsbD (n - 1))

/-! ## Instructions -/

/-- The width of a memory access. -/
inductive Width where
  /-- One byte. -/
  | byte
  /-- Two bytes. -/
  | half
  /-- Four bytes. -/
  | word
deriving DecidableEq, Repr

/-- Load a value of a width, zero-extended. -/
def Mem.load (m : Mem) (a : Word) : Width → Word
  | .byte => (m a).setWidth 32
  | .half => (m.read16 a).setWidth 32
  | .word => m.read32 a

/-- Store the low bytes of a word. -/
def Mem.store (m : Mem) (a v : Word) : Width → Mem
  | .byte => m.write 1 a v
  | .half => m.write 2 a v
  | .word => m.write 4 a v

/-- **A decoded instruction**, less its condition. The immediates are the
values the encodings expand to: branch offsets sign-extended, data constants
expanded. -/
inductive Op where
  /-- `B`: branch by an offset. -/
  | b (off : Word)
  /-- `BL`: branch with link, in the same instruction set. -/
  | bl (off : Word)
  /-- `BLX <label>`: branch with link to the other instruction set. -/
  | blx (off : Word)
  /-- `BX`: branch to a register, with interworking. -/
  | bx (rm : Reg)
  /-- `BLX` of a register: branch with link, with interworking. -/
  | blxReg (rm : Reg)
  /-- `CBZ` and `CBNZ`. -/
  | cb (nonzero : Bool) (rn : Reg) (off : Word)
  /-- `TBB` and `TBH`: branch by a table entry of bytes or halfwords. -/
  | tb (wide : Bool) (rn rm : Reg)
  /-- `ADR`: the aligned program counter plus or minus a constant. -/
  | adr (add : Bool) (rd : Reg) (imm : Word)
  /-- `ADD` of a constant. -/
  | addImm (setflags : Bool) (rd rn : Reg) (imm : Word)
  /-- `ADD` of a shifted register. -/
  | addReg (setflags : Bool) (rd rn rm : Reg) (ty : BitVec 2) (imm5 : BitVec 5)
  /-- `MOV` of a shifted register. -/
  | movReg (setflags : Bool) (rd rm : Reg) (ty : BitVec 2) (imm5 : BitVec 5)
  /-- `LDR <label>`: load the word at the aligned program counter plus or
  minus a constant. -/
  | ldrLit (add : Bool) (rt : Reg) (imm : Word)
  /-- `LDR`, `LDRH`, `LDRB` with an immediate offset. -/
  | ldr (w : Width) (index add wback : Bool) (rt rn : Reg) (imm : Word)
  /-- `STR`, `STRH`, `STRB` with an immediate offset. -/
  | str (w : Width) (index add wback : Bool) (rt rn : Reg) (imm : Word)
  /-- `PUSH` of a register list, lowest register at the lowest address. -/
  | push (regs : List Reg)
  /-- `POP` of a register list. -/
  | pop (regs : List Reg)
  /-- A hint that does nothing. -/
  | nop
deriving DecidableEq, Repr

/-- `base ± imm`. -/
def offset (add : Bool) (base imm : Word) : Word := if add then base + imm else base - imm

theorem offset_inj (add : Bool) {base imm imm' : Word} :
    offset add base imm = offset add base imm' ↔ imm = imm' := by
  cases add with
  | true => exact BitVec.add_right_inj base
  | false => exact BitVec.sub_right_inj base

/-- The words a `PUSH` stores, from the lowest address up. -/
def storeRegs (s : State) (m : Mem) (a : Word) : List Reg → Mem
  | [] => m
  | r :: rs => storeRegs s (m.write 4 a (s.gpr r)) (a + 4) rs

/-- The registers a `POP` loads, from the lowest address up; the program
counter is left to the caller. -/
def loadRegs (s : State) (a : Word) : List Reg → State
  | [] => s
  | r :: rs =>
    loadRegs (if r = 15#4 then s else s.setReg r (s.mem.read32 a)) (a + 4) rs

/-- The stack pointer. -/
abbrev SP : Reg := 13#4

/-- The link register. -/
abbrev LR : Reg := 14#4

/-- The program counter. -/
abbrev PC : Reg := 15#4

/-- The return address of a call: the next instruction, with bit 0 set in
Thumb state. -/
def State.link (s : State) (next : Word) : Word := if s.thumb then next ||| 1#32 else next

/-- The address of the table entry a `TBB` or `TBH` reads. -/
def tableAddr (wide : Bool) (base idx : Word) : Word :=
  if wide then base + idx <<< 1 else base + idx

/-- The table entry itself. -/
def tableEntry (m : Mem) (wide : Bool) (base idx : Word) : Word :=
  m.load (tableAddr wide base idx) (if wide then .half else .byte)

/-- **The effect of an instruction** executed where the program counter reads
as `pc` and the next instruction stands at `next`; `none` where the
architecture leaves it UNPREDICTABLE. -/
def Op.exec (pc next : Word) (s : State) : Op → Option State
  | .b off => some (s.branchWritePC (pc + off))
  | .bl off => some ((s.setReg LR (s.link next)).branchWritePC (pc + off))
  | .blx off =>
    let t := { s.setReg LR (s.link next) with thumb := !s.thumb }
    some (t.branchWritePC (if s.thumb then align4 pc + off else pc + off))
  | .bx rm => s.bxWritePC (s.readReg pc rm)
  | .blxReg rm => (s.setReg LR (s.link next)).bxWritePC (s.readReg pc rm)
  | .cb nonzero rn off =>
    if nonzero ^^ (s.gpr rn == 0#32) then some (s.branchWritePC (pc + off))
    else some (s.goto next)
  | .tb wide rn rm =>
    some (s.branchWritePC
      (pc + tableEntry s.mem wide (s.readReg pc rn) (s.gpr rm) <<< 1))
  | .adr add rd imm => s.writeResult next rd (offset add (align4 pc) imm)
  | .addImm setflags rd rn imm =>
    let x := s.readReg pc rn
    (if setflags then { s with flags := addFlags x imm } else s).writeResult next rd (x + imm)
  | .addReg setflags rd rn rm ty imm5 =>
    let x := s.readReg pc rn
    let y := (shiftC (s.readReg pc rm) ty imm5 s.flags.c).1
    (if setflags then { s with flags := addFlags x y } else s).writeResult next rd (x + y)
  | .movReg setflags rd rm ty imm5 =>
    let y := shiftC (s.readReg pc rm) ty imm5 s.flags.c
    let f : Flags := { s.flags with n := y.1.msb, z := y.1 == 0#32, c := y.2 }
    (if setflags then { s with flags := f } else s).writeResult next rd y.1
  | .ldrLit add rt imm =>
    let a := offset add (align4 pc) imm
    s.writeLoaded next rt a (s.mem.read32 a)
  | .ldr w index add wback rt rn imm =>
    let base := s.readReg pc rn
    let a := if index then offset add base imm else base
    let t := if wback then s.setReg rn (offset add base imm) else s
    t.writeLoaded next rt a (s.mem.load a w)
  | .str w index add wback rt rn imm =>
    let base := s.readReg pc rn
    let a := if index then offset add base imm else base
    let t := if wback then s.setReg rn (offset add base imm) else s
    some ({ t with mem := s.mem.store a (s.readReg pc rt) w }.goto next)
  | .push regs =>
    let a := s.gpr SP - BitVec.ofNat 32 (4 * regs.length)
    if align4 a = a then
      some ({ s.setReg SP a with mem := storeRegs s s.mem a regs }.goto next)
    else none
  | .pop regs =>
    let a := s.gpr SP
    let t := (loadRegs s a regs).setReg SP (a + BitVec.ofNat 32 (4 * regs.length))
    if align4 a = a then
      if PC ∈ regs then
        t.bxWritePC (s.mem.read32 (a + BitVec.ofNat 32 (4 * (regs.length - 1))))
      else some (t.goto next)
    else none
  | .nop => some (s.goto next)

/-- The literal a load reads, if the instruction is a load of a literal. -/
def Op.literalAddr (pc : Word) : Op → Option Word
  | .ldrLit add _ imm => some (offset add (align4 pc) imm)
  | _ => none

/-- **An instruction with its condition.** -/
structure Insn where
  /-- The condition field. -/
  cond : BitVec 4
  /-- What is done if the condition passes. -/
  op : Op
deriving DecidableEq, Repr

/-- A conditional instruction does nothing but continue when its condition
fails. -/
def Insn.exec (x : Insn) (pc next : Word) (s : State) : Option State :=
  if conditionPassed x.cond s.flags then x.op.exec pc next s else some (s.goto next)

theorem Insn.exec_of_passed {x : Insn} {pc next : Word} {s : State}
    (h : conditionPassed x.cond s.flags = true) : x.exec pc next s = x.op.exec pc next s := by
  rw [Insn.exec, if_pos h]

theorem Insn.exec_of_failed {x : Insn} {pc next : Word} {s : State}
    (h : conditionPassed x.cond s.flags = false) : x.exec pc next s = some (s.goto next) := by
  rw [Insn.exec, if_neg (by rw [h]; exact Bool.false_ne_true)]

/-- An unconditional instruction is what it does. -/
@[simp] theorem Insn.exec_always (op : Op) (pc next : Word) (s : State) :
    (Insn.mk always op).exec pc next s = op.exec pc next s :=
  Insn.exec_of_passed (conditionPassed_always _)

end Arm
