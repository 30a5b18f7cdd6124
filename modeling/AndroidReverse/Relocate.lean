import AndroidReverse.ArmBlocks

/-!
# The relocator

The instruction relocator of the inline hook, `relocate.c`. It copies the
prologue of a function into a trampoline page, replacing every instruction
that reads the program counter or branches by a block that is meant to have
the same effect from there.

The three classifiers, the two functions that emit one Thumb block, the body
of the ARM loop and the loops themselves are the source's, expression by
expression: C integers are words, a `uint16_t` is promoted by zero extension
and truncated when it is stored, and a literal the relocator copies is read
from the memory it is given. A function that writes through
`trampoline_instructions` returns the list of what it wrote, so the `offset`
of the source is the length of the list.

The loops record two boundaries per instruction through pointers. What stands
behind the pointers is a parameter here: `record` is the effect of one
recording on a state `σ` of the caller's choosing. The registry of
`AndroidReverse.InlineHook` instantiates it with its own words, where the
recordings of a long history overrun the tables; `boundaries` is the list of
the pairs recorded, and `relocateInstruction_recorded` says that every other
instance records these.
-/

namespace Relocate

open Arm

/-! ## Classification -/

/-- The `enum INSTRUCTION_TYPE` of the source. -/
inductive InstructionType where
  | b1Thumb16
  | b2Thumb16
  | bxThumb16
  | addThumb16
  | movThumb16
  | adrThumb16
  | ldrThumb16
  | cbThumb16
  | blxThumb32
  | blThumb32
  | b1Thumb32
  | b2Thumb32
  | adr1Thumb32
  | adr2Thumb32
  | ldrThumb32
  | tbbThumb32
  | tbhThumb32
  | blxArm
  | blArm
  | bArm
  | bxArm
  | addArm
  | adr1Arm
  | adr2Arm
  | movArm
  | ldrArm
  | undefine
deriving DecidableEq, Repr

/-- `getTypeInThumb16`. -/
def getTypeInThumb16 (instruction : Half) : InstructionType :=
  if instruction &&& 0xF000#16 = 0xD000#16 then .b1Thumb16
  else if instruction &&& 0xF800#16 = 0xE000#16 then .b2Thumb16
  else if instruction &&& 0xFFF8#16 = 0x4778#16 then .bxThumb16
  else if instruction &&& 0xFF78#16 = 0x4478#16 then .addThumb16
  else if instruction &&& 0xFF78#16 = 0x4678#16 then .movThumb16
  else if instruction &&& 0xF800#16 = 0xA000#16 then .adrThumb16
  else if instruction &&& 0xF800#16 = 0x4800#16 then .ldrThumb16
  else if instruction &&& 0xF500#16 = 0xB100#16 then .cbThumb16
  else .undefine

/-- `getTypeInThumb32`. -/
def getTypeInThumb32 (instruction : Word) : InstructionType :=
  if instruction &&& 0xF800D000#32 = 0xF000C000#32 then .blxThumb32
  else if instruction &&& 0xF800D000#32 = 0xF000D000#32 then .blThumb32
  else if instruction &&& 0xF800D000#32 = 0xF0008000#32 then .b1Thumb32
  else if instruction &&& 0xF800D000#32 = 0xF0009000#32 then .b2Thumb32
  else if instruction &&& 0xFBFF8000#32 = 0xF2AF0000#32 then .adr1Thumb32
  else if instruction &&& 0xFBFF8000#32 = 0xF20F0000#32 then .adr2Thumb32
  else if instruction &&& 0xFF7F0000#32 = 0xF85F0000#32 then .ldrThumb32
  else if instruction &&& 0xFFFF00F0#32 = 0xE8DF0000#32 then .tbbThumb32
  else if instruction &&& 0xFFFF00F0#32 = 0xE8DF0010#32 then .tbhThumb32
  else .undefine

/-- `getTypeInArm`. -/
def getTypeInArm (instruction : Word) : InstructionType :=
  if instruction &&& 0xFE000000#32 = 0xFA000000#32 then .blxArm
  else if instruction &&& 0xF000000#32 = 0xB000000#32 then .blArm
  else if instruction &&& 0xF000000#32 = 0xA000000#32 then .bArm
  else if instruction &&& 0xFF000FF#32 = 0x120001F#32 then .bxArm
  else if instruction &&& 0xFEF0010#32 = 0x8F0000#32 then .addArm
  else if instruction &&& 0xFFF0000#32 = 0x28F0000#32 then .adr1Arm
  else if instruction &&& 0xFFF0000#32 = 0x24F0000#32 then .adr2Arm
  else if instruction &&& 0xE5F0000#32 = 0x41F0000#32 then .ldrArm
  else if instruction &&& 0xFE00FFF#32 = 0x1A0000F#32 then .movArm
  else .undefine

/-! ## What the emitters share -/

/-- The macro `ALIGN_PC`. -/
def alignPc (pc : Word) : Word := pc &&& 0xFFFFFFFC#32

/-- Storing an `int` through a `uint16_t *`. -/
def store16 (v : Word) : Half := v.setWidth 16

/-- The two halfwords of a literal: `value & 0xFFFF` and `value >> 16`. -/
def literal (value : Word) : List Half := [store16 (value &&& 0xFFFF#32), store16 (value >>> 16)]

/-- `LDR.W PC, [PC]` before its literal. -/
def ldrPc (value : Word) : List Half := [0xF8DF#16, 0xF000#16] ++ literal value

/-- The sign extension `top ? (x | (0xFFFFFFFF << k)) : x`. -/
def extendTop (top : Word) (k : ℕ) (x : Word) : Word :=
  if top ≠ 0#32 then x ||| (0xFFFFFFFF#32 <<< k) else x

/-- The logical negation of C. -/
def cNot (v : Word) : Word := if v = 0#32 then 1#32 else 0#32

/-- The loop `for (r = start; ; --r) if (r is not used) break;`. -/
def scratchReg (used : List Word) : ℕ → Word
  | 0 => 0#32
  | r + 1 =>
    if BitVec.ofNat 32 (r + 1) ∈ used then scratchReg used r else BitVec.ofNat 32 (r + 1)

/-! ## Thumb blocks -/

/-- `relocateInstructionInThumb16`: the block for one 16-bit instruction whose
program counter reads as `pc`. -/
def relocateInstructionInThumb16 (mem : Mem) (pc : Word) (instruction : Half) : List Half :=
  let ins : Word := instruction.setWidth 32
  match getTypeInThumb16 instruction with
  | .b1Thumb16 =>
    let x := (ins &&& 0xFF#32) <<< 1
    let value := pc + extendTop (x >>> 8) 8 x
    [store16 (ins &&& 0xFF00#32), 0xE003#16] ++ ldrPc value
  | .b2Thumb16 =>
    let x := (ins &&& 0x7FF#32) <<< 1
    let value := pc + extendTop (x >>> 11) 11 x
    ldrPc value
  | .bxThumb16 => ldrPc pc
  | .addThumb16 =>
    let rdn := ((ins &&& 0x80#32) >>> 4) ||| (ins &&& 0x7#32)
    let r := scratchReg [rdn] 7
    [store16 (0xB400#32 ||| (1#32 <<< r)), store16 (0x4802#32 ||| (r <<< 8)),
      store16 ((ins &&& 0xFF87#32) ||| (r <<< 3)), store16 (0xBC00#32 ||| (1#32 <<< r)),
      0xE002#16, 0xBF00#16] ++ literal pc
  | .movThumb16 =>
    let r := ins &&& 0x7#32
    [store16 (0x4800#32 ||| (r <<< 8)), 0xE001#16] ++ literal pc
  | .adrThumb16 =>
    let r := (ins &&& 0x700#32) >>> 8
    -- the addition binds tighter than the shift
    let value := (alignPc pc + (ins &&& 0xFF#32)) <<< 2
    [store16 (0x4800#32 ||| (r <<< 8)), 0xE001#16] ++ literal value
  | .ldrThumb16 =>
    let r := (ins &&& 0x700#32) >>> 8
    let value := mem.read32 (alignPc pc + ((ins &&& 0xFF#32) <<< 2))
    [store16 (0x4800#32 ||| (r <<< 8)), 0xE001#16] ++ literal value
  | .cbThumb16 =>
    let imm32 := ((ins &&& 0x200#32) >>> 3) ||| ((ins &&& 0xF8#32) >>> 2)
    let value := pc + imm32 + 1#32
    [store16 (ins &&& 0xFD07#32), 0xE003#16] ++ ldrPc value
  | _ => [instruction, 0xBF00#16]

/-- `relocateInstructionInThumb32`: the block for one 32-bit instruction. -/
def relocateInstructionInThumb32 (mem : Mem) (pc : Word) (high_instruction low_instruction : Half) :
    List Half :=
  let high : Word := high_instruction.setWidth 32
  let low : Word := low_instruction.setWidth 32
  let instruction := (high <<< 16) ||| low
  let j1 := (low &&& 0x2000#32) >>> 13
  let j2 := (low &&& 0x800#32) >>> 11
  let s := (high &&& 0x400#32) >>> 10
  let i1 := cNot (j1 ^^^ s)
  let i2 := cNot (j2 ^^^ s)
  match getTypeInThumb32 instruction with
  | .blxThumb32 =>
    let x := (s <<< 24) ||| (i1 <<< 23) ||| (i2 <<< 22) ||| ((high &&& 0x3FF#32) <<< 12)
      ||| ((low &&& 0x7FE#32) <<< 1)
    [0xF20F#16, 0x0E09#16] ++ ldrPc (pc + extendTop s 25 x)
  | .blThumb32 =>
    let x := (s <<< 24) ||| (i1 <<< 23) ||| (i2 <<< 22) ||| ((high &&& 0x3FF#32) <<< 12)
      ||| ((low &&& 0x7FF#32) <<< 1)
    [0xF20F#16, 0x0E09#16] ++ ldrPc (pc + extendTop s 25 x + 1#32)
  | .b1Thumb32 =>
    let x := (s <<< 20) ||| (j2 <<< 19) ||| (j1 <<< 18) ||| ((high &&& 0x3F#32) <<< 12)
      ||| ((low &&& 0x7FF#32) <<< 1)
    [store16 (0xD000#32 ||| ((high &&& 0x3C0#32) <<< 2)), 0xE003#16]
      ++ ldrPc (pc + extendTop s 21 x + 1#32)
  | .b2Thumb32 =>
    let x := (s <<< 24) ||| (i1 <<< 23) ||| (i2 <<< 22) ||| ((high &&& 0x3FF#32) <<< 12)
      ||| ((low &&& 0x7FF#32) <<< 1)
    ldrPc (pc + extendTop s 25 x + 1#32)
  | .adr1Thumb32 =>
    let r := (low &&& 0xF00#32) >>> 8
    let imm32 := (((high &&& 0x400#32) >>> 10) <<< 31) ||| (((low &&& 0x7000#32) >>> 12) <<< 30)
      ||| ((instruction &&& 0xFF#32) <<< 27)
    [store16 (0x4800#32 ||| (r <<< 8)), 0xE001#16] ++ literal (alignPc pc + imm32)
  | .adr2Thumb32 =>
    let r := (low &&& 0xF00#32) >>> 8
    let imm32 := (((high &&& 0x400#32) >>> 10) <<< 31) ||| (((low &&& 0x7000#32) >>> 12) <<< 30)
      ||| ((instruction &&& 0xFF#32) <<< 27)
    [store16 (0x4800#32 ||| (r <<< 8)), 0xE001#16] ++ literal (alignPc pc - imm32)
  | .ldrThumb32 =>
    let is_add := (high &&& 0x80#32) >>> 7
    let r := low >>> 12
    let imm32 := low &&& 0xFFF#32
    let addr := if is_add ≠ 0#32 then alignPc pc + imm32 else alignPc pc - imm32
    [store16 (0x4800#32 ||| (r <<< 8)), 0xE001#16] ++ literal (mem.read32 addr)
  | .tbbThumb32 =>
    let rm := low &&& 0xF#32
    let r := scratchReg [rm] 7
    let rx := scratchReg [rm, r] 7
    [store16 (0xB400#32 ||| (1#32 <<< rx)), store16 (0x4805#32 ||| (r <<< 8)),
      store16 (0x4600#32 ||| (rm <<< 3) ||| rx),
      store16 (0xEB00#32 ||| r), store16 (0x0000#32 ||| (rx <<< 8) ||| rx),
      store16 (0x7800#32 ||| (rx <<< 3) ||| rx),
      store16 (0xEB00#32 ||| r), store16 (0x0040#32 ||| (r <<< 8) ||| rx),
      store16 (0x3001#32 ||| (r <<< 8)), store16 (0xBC00#32 ||| (1#32 <<< rx)),
      store16 (0x4700#32 ||| (r <<< 3)), 0xBF00#16] ++ literal pc
  | .tbhThumb32 =>
    let rm := low &&& 0xF#32
    let r := scratchReg [rm] 7
    let rx := scratchReg [rm, r] 7
    [store16 (0xB400#32 ||| (1#32 <<< rx)), store16 (0x4805#32 ||| (r <<< 8)),
      store16 (0x4600#32 ||| (rm <<< 3) ||| rx),
      store16 (0xEB00#32 ||| r), store16 (0x0040#32 ||| (rx <<< 8) ||| rx),
      store16 (0x8800#32 ||| (rx <<< 3) ||| rx),
      store16 (0xEB00#32 ||| r), store16 (0x0040#32 ||| (r <<< 8) ||| rx),
      store16 (0x3001#32 ||| (r <<< 8)), store16 (0xBC00#32 ||| (1#32 <<< rx)),
      store16 (0x4700#32 ||| (r <<< 3)), 0xBF00#16] ++ literal pc
  | _ => [high_instruction, low_instruction]

/-! ## ARM blocks -/

/-- The body of the loop of `relocateInstructionInArm`: the block for one
instruction. -/
def relocateWordInArm (mem : Mem) (pc instruction : Word) : List Word :=
  let r := (instruction &&& 0xF000#32) >>> 12
  let imm32 := instruction &&& 0xFFF#32
  match getTypeInArm instruction with
  | .blxArm =>
    let x := ((instruction &&& 0xFFFFFF#32) <<< 2) ||| ((instruction &&& 0x1000000#32) >>> 23)
    [0xE28FE004#32, 0xE51FF004#32, pc + extendTop (x >>> 25) 26 x + 1#32]
  | .blArm =>
    let x := (instruction &&& 0xFFFFFF#32) <<< 2
    [0xE28FE004#32, 0xE51FF004#32, pc + extendTop (x >>> 25) 26 x]
  | .bArm =>
    let x := (instruction &&& 0xFFFFFF#32) <<< 2
    [0xE51FF004#32, pc + extendTop (x >>> 25) 26 x]
  | .bxArm =>
    let x := 0#32
    [0xE51FF004#32, pc + extendTop (x >>> 25) 26 x]
  | .addArm =>
    let rd := (instruction &&& 0xF000#32) >>> 12
    let rm := instruction &&& 0xF#32
    let r := scratchReg [rd, rm] 12
    [0xE52D0004#32 ||| (r <<< 12), 0xE59F0008#32 ||| (r <<< 12),
      (instruction &&& 0xFFF0FFFF#32) ||| (r <<< 16), 0xE49D0004#32 ||| (r <<< 12),
      0xE28FF000#32, pc]
  | .adr1Arm => [0xE51F0000#32 ||| (r <<< 12), 0xE28FF000#32, pc + imm32]
  | .adr2Arm => [0xE51F0000#32 ||| (r <<< 12), 0xE28FF000#32, pc - imm32]
  | .ldrArm =>
    let is_add := (instruction &&& 0x800000#32) >>> 23
    let value := if is_add ≠ 0#32 then mem.read32 (pc + imm32) else mem.read32 (pc - imm32)
    [0xE51F0000#32 ||| (r <<< 12), 0xE28FF000#32, value]
  | .movArm => [0xE51F0000#32 ||| (r <<< 12), 0xE28FF000#32, pc]
  | _ => [instruction]

/-! ## The loops -/

section Loops

variable {σ : Type} (record : σ → ℕ → ℕ → σ) (mem : Mem)

/-- The `while (1)` loop of `relocateInstructionInThumb` over `n` halfwords,
from position `orig_pos` with `code` written so far: the position it stops
at, the code and the boundaries. Every round advances, so a fuel of one more
than the halfwords left is never used up. -/
def thumbLoop (orig_instructions : ℕ → Half) (n : ℕ) :
    (fuel orig_pos : ℕ) → (pc : Word) → (code : List Half) → σ → ℕ × List Half × σ
  | 0, orig_pos, _, code, b => (orig_pos, code, b)
  | fuel + 1, orig_pos, pc, code, b =>
    let b := record b (orig_pos * 2) (code.length * 2)
    let w := orig_instructions orig_pos
    if 0x1D#16 ≤ w >>> 11 ∧ w >>> 11 ≤ 0x1F#16 then
      -- the last halfword is the first half of an instruction
      if orig_pos + 2 > n then (orig_pos, code, b)
      else
        let code := code ++ relocateInstructionInThumb32 mem pc w (orig_instructions (orig_pos + 1))
        if orig_pos + 2 ≥ n then (orig_pos + 2, code, b)
        else thumbLoop orig_instructions n fuel (orig_pos + 2) (pc + 4#32) code b
    else
      let code := code ++ relocateInstructionInThumb16 mem pc w
      if orig_pos + 1 ≥ n then (orig_pos + 1, code, b)
      else thumbLoop orig_instructions n fuel (orig_pos + 1) (pc + 2#32) code b

/-- `relocateInstructionInThumb`: the blocks of the prologue and the jump
back. -/
def relocateInstructionInThumb (target_addr : Word) (orig_instructions : ℕ → Half) (length : ℕ)
    (b : σ) : List Half × σ :=
  let r := thumbLoop record mem orig_instructions (length / 2) (length / 2 + 1) 0
    (target_addr + 4#32) [] b
  let lr := target_addr + BitVec.ofNat 32 (r.1 * 2) + 1#32
  (r.2.1 ++ ldrPc lr, r.2.2)

/-- The `for` loop of `relocateInstructionInArm`, with the number of rounds
left. -/
def armLoop (orig_instructions : ℕ → Word) :
    (left orig_pos : ℕ) → (pc : Word) → (code : List Word) → σ → List Word × σ
  | 0, _, _, code, b => (code, b)
  | left + 1, orig_pos, pc, code, b =>
    armLoop orig_instructions left (orig_pos + 1) (pc + 4#32)
      (code ++ relocateWordInArm mem pc (orig_instructions orig_pos))
      (record b (orig_pos * 4) (code.length * 4))

/-- `relocateInstructionInArm`. -/
def relocateInstructionInArm (target_addr : Word) (orig_instructions : ℕ → Word) (length : ℕ)
    (b : σ) : List Word × σ :=
  let r := armLoop record mem orig_instructions (length / 4) 0 (target_addr + 8#32) [] b
  (r.1 ++ [0xE51FF004#32, target_addr + BitVec.ofNat 32 length], r.2)

/-- The contents of a trampoline page. -/
inductive Trampoline where
  | thumb (code : List Half)
  | arm (code : List Word)
deriving DecidableEq, Repr

/-- `relocateInstruction`: Thumb or ARM by bit 0 of the target. The test
`target_addr & 1 == 1` is `target_addr & (1 == 1)`, which is the same. -/
def relocateInstruction (target_addr : Word) (orig_instructions : ℕ → Byte) (length : ℕ) (b : σ) :
    Trampoline × σ :=
  if target_addr &&& 1#32 ≠ 0#32 then
    let r := relocateInstructionInThumb record mem (target_addr - 1#32)
      (fun i => orig_instructions (2 * i + 1) ++ orig_instructions (2 * i)) length b
    (.thumb r.1, r.2)
  else
    let r := relocateInstructionInArm record mem target_addr
      (fun i => (orig_instructions (4 * i + 3) ++ orig_instructions (4 * i + 2)) ++
        (orig_instructions (4 * i + 1) ++ orig_instructions (4 * i))) length b
    (.arm r.1, r.2)

/-! ## What the loops compute -/

/-- The block of instruction `i` of an ARM prologue. -/
def armBlock (target_addr : Word) (orig_instructions : ℕ → Word) (i : ℕ) : List Word :=
  relocateWordInArm mem (target_addr + BitVec.ofNat 32 (4 * i + 8)) (orig_instructions i)

/-- The blocks of its first `n` instructions. -/
def armBlocks (target_addr : Word) (orig_instructions : ℕ → Word) (n : ℕ) : List Word :=
  (List.range n).flatMap (armBlock mem target_addr orig_instructions)

theorem armBlocks_succ (target_addr : Word) (orig_instructions : ℕ → Word) (n : ℕ) :
    armBlocks mem target_addr orig_instructions (n + 1)
      = armBlocks mem target_addr orig_instructions n
        ++ armBlock mem target_addr orig_instructions n := by
  simp only [armBlocks, List.range_succ, List.flatMap_append, List.flatMap_cons, List.flatMap_nil,
    List.append_nil]

/-- **The ARM loop**, from any of its rounds on: the blocks in order, and a
boundary where each begins. -/
theorem armLoop_eq (target_addr : Word) (orig_instructions : ℕ → Word) (left i : ℕ) (b : σ) :
    armLoop record mem orig_instructions left i (target_addr + BitVec.ofNat 32 (4 * i + 8))
        (armBlocks mem target_addr orig_instructions i) b
      = (armBlocks mem target_addr orig_instructions (i + left),
          (List.range' i left).foldl (fun b i =>
            record b (i * 4) ((armBlocks mem target_addr orig_instructions i).length * 4)) b) := by
  induction left generalizing i b with
  | zero => rfl
  | succ left ih =>
    have hpc : target_addr + BitVec.ofNat 32 (4 * i + 8) + 4#32
        = target_addr + BitVec.ofNat 32 (4 * (i + 1) + 8) := by
      rw [BitVec.add_assoc, ← BitVec.ofNat_add]
      exact congrArg (fun k => target_addr + BitVec.ofNat 32 k) (by omega)
    rw [armLoop, hpc, show relocateWordInArm mem _ (orig_instructions i)
      = armBlock mem target_addr orig_instructions i from rfl, ← armBlocks_succ, ih,
      List.range'_succ, List.foldl_cons, Nat.add_assoc, Nat.add_comm 1 left]

/-- **What `relocateInstructionInArm` writes**: the blocks and the jump
back. -/
theorem relocateInstructionInArm_code (target_addr : Word) (orig_instructions : ℕ → Word)
    (length : ℕ) (b : σ) :
    (relocateInstructionInArm record mem target_addr orig_instructions length b).1
      = armBlocks mem target_addr orig_instructions (length / 4)
        ++ [0xE51FF004#32, target_addr + BitVec.ofNat 32 length] := by
  have h := armLoop_eq record mem target_addr orig_instructions (length / 4) 0 b
  rw [Nat.zero_add (length / 4)] at h
  unfold relocateInstructionInArm
  exact congrArg (fun r => r.1 ++ [0xE51FF004#32, target_addr + BitVec.ofNat 32 length]) h

/-- The block of an instruction stands between those before it and those
after. -/
theorem armBlocks_split (target_addr : Word) (orig_instructions : ℕ → Word) {i n : ℕ}
    (hi : i < n) :
    ∃ rest, armBlocks mem target_addr orig_instructions n
      = armBlocks mem target_addr orig_instructions i
        ++ armBlock mem target_addr orig_instructions i ++ rest := by
  induction n with
  | zero => omega
  | succ n ih =>
    rw [armBlocks_succ]
    rcases Nat.lt_succ_iff_lt_or_eq.mp hi with h | rfl
    · obtain ⟨rest, hr⟩ := ih h
      exact ⟨rest ++ armBlock mem target_addr orig_instructions n, by
        rw [hr, List.append_assoc]⟩
    · exact ⟨[], by rw [List.append_nil]⟩

/-- **A map of the recorded state commutes with the Thumb loop**, if it does
with recording. -/
theorem thumbLoop_map {τ : Type} (f : σ → τ) (record' : τ → ℕ → ℕ → τ)
    (hf : ∀ b o t, f (record b o t) = record' (f b) o t) (orig_instructions : ℕ → Half)
    (n fuel orig_pos : ℕ) (pc : Word) (code : List Half) (b : σ) :
    thumbLoop record' mem orig_instructions n fuel orig_pos pc code (f b)
      = let r := thumbLoop record mem orig_instructions n fuel orig_pos pc code b
        (r.1, r.2.1, f r.2.2) := by
  induction fuel generalizing orig_pos pc code b with
  | zero => rfl
  | succ fuel ih =>
    rw [thumbLoop, thumbLoop]
    simp only [← hf, ih]
    split_ifs <;> rfl

theorem armLoop_map {τ : Type} (f : σ → τ) (record' : τ → ℕ → ℕ → τ)
    (hf : ∀ b o t, f (record b o t) = record' (f b) o t) (orig_instructions : ℕ → Word)
    (left orig_pos : ℕ) (pc : Word) (code : List Word) (b : σ) :
    armLoop record' mem orig_instructions left orig_pos pc code (f b)
      = let r := armLoop record mem orig_instructions left orig_pos pc code b
        (r.1, f r.2) := by
  induction left generalizing orig_pos pc code b with
  | zero => rfl
  | succ left ih =>
    rw [armLoop, armLoop, ← hf, ih]

/-- The code does not depend on what is recorded, and the recordings map
along. -/
theorem relocateInstruction_map {τ : Type} (f : σ → τ) (record' : τ → ℕ → ℕ → τ)
    (hf : ∀ b o t, f (record b o t) = record' (f b) o t) (target_addr : Word)
    (orig_instructions : ℕ → Byte) (length : ℕ) (b : σ) :
    relocateInstruction record' mem target_addr orig_instructions length (f b)
      = let r := relocateInstruction record mem target_addr orig_instructions length b
        (r.1, f r.2) := by
  unfold relocateInstruction relocateInstructionInThumb relocateInstructionInArm
  simp only [thumbLoop_map record mem f record' hf, armLoop_map record mem f record' hf]
  split_ifs <;> rfl

end Loops

/-! ## The boundaries -/

/-- **The boundaries of a prologue**: for every instruction the loops visit,
its offset in the prologue and the offset of its block. -/
def boundaries (mem : Mem) (target_addr : Word) (orig_instructions : ℕ → Byte) (length : ℕ) :
    List (ℕ × ℕ) :=
  (relocateInstruction (fun bs o t => bs ++ [(o, t)]) mem target_addr orig_instructions length
    []).2

/-- **Whatever records the boundaries, it records these**, in this order. -/
theorem relocateInstruction_recorded {σ : Type} (record : σ → ℕ → ℕ → σ) (mem : Mem)
    (target_addr : Word) (orig_instructions : ℕ → Byte) (length : ℕ) (b : σ) :
    (relocateInstruction record mem target_addr orig_instructions length b).2
      = (boundaries mem target_addr orig_instructions length).foldl
          (fun b x => record b x.1 x.2) b := by
  have h := relocateInstruction_map (fun bs o t => bs ++ [(o, t)]) mem
    (fun bs : List (ℕ × ℕ) => bs.foldl (fun b x => record b x.1 x.2) b)
    record (fun bs o t => by rw [List.foldl_append]; rfl)
    target_addr orig_instructions length []
  exact congrArg Prod.snd h

section Lengths

theorem literal_length (v : Word) : (literal v).length = 2 := rfl

theorem ldrPc_length (v : Word) : (ldrPc v).length = 4 := rfl

/-- The length of a block is a matter of the instruction's type. -/
theorem relocateInstructionInThumb16_length (mem mem' : Mem) (pc pc' : Word) (w : Half) :
    (relocateInstructionInThumb16 mem pc w).length
      = (relocateInstructionInThumb16 mem' pc' w).length := by
  unfold relocateInstructionInThumb16
  cases getTypeInThumb16 w <;>
    simp only [List.length_append, List.length_cons, List.length_nil, ldrPc_length, literal_length]

theorem relocateInstructionInThumb32_length (mem mem' : Mem) (pc pc' : Word) (high low : Half) :
    (relocateInstructionInThumb32 mem pc high low).length
      = (relocateInstructionInThumb32 mem' pc' high low).length := by
  unfold relocateInstructionInThumb32
  cases h : getTypeInThumb32 ((high.setWidth 32 <<< 16) ||| low.setWidth 32) <;>
    simp only [h, List.length_append, List.length_cons, List.length_nil, ldrPc_length,
      literal_length]

theorem relocateWordInArm_length (mem mem' : Mem) (pc pc' w : Word) :
    (relocateWordInArm mem pc w).length = (relocateWordInArm mem' pc' w).length := by
  unfold relocateWordInArm
  cases getTypeInArm w <;> simp only [List.length_cons, List.length_nil]

variable {σ : Type} (record : σ → ℕ → ℕ → σ)

/-- What the Thumb loop records depends on the halfwords of the prologue and on
nothing else. -/
theorem thumbLoop_congr (mem mem' : Mem) {orig_instructions orig_instructions' : ℕ → Half} {n : ℕ}
    (ho : ∀ i, i < n → orig_instructions i = orig_instructions' i) (fuel orig_pos : ℕ)
    (hpos : orig_pos < n) (pc pc' : Word) {code code' : List Half}
    (hc : code.length = code'.length) (b : σ) :
    (thumbLoop record mem orig_instructions n fuel orig_pos pc code b).2.2
      = (thumbLoop record mem' orig_instructions' n fuel orig_pos pc' code' b).2.2 := by
  induction fuel generalizing orig_pos pc pc' code code' b with
  | zero => rfl
  | succ fuel ih =>
    have h0 := ho orig_pos hpos
    rw [thumbLoop, thumbLoop]
    simp only [h0, hc]
    split_ifs with h32 hend hlast hlast
    · rfl
    · rfl
    · refine ih (orig_pos + 2) (by omega) _ _ ?_ _
      rw [List.length_append, List.length_append, hc, ho (orig_pos + 1) (by omega),
        relocateInstructionInThumb32_length mem mem' pc pc']
    · rfl
    · refine ih (orig_pos + 1) (by omega) _ _ ?_ _
      rw [List.length_append, List.length_append, hc,
        relocateInstructionInThumb16_length mem mem' pc pc']

theorem armLoop_congr (mem mem' : Mem) {orig_instructions orig_instructions' : ℕ → Word} {n : ℕ}
    (ho : ∀ i, i < n → orig_instructions i = orig_instructions' i) (left orig_pos : ℕ)
    (hpos : orig_pos + left ≤ n) (pc pc' : Word) {code code' : List Word}
    (hc : code.length = code'.length) (b : σ) :
    (armLoop record mem orig_instructions left orig_pos pc code b).2
      = (armLoop record mem' orig_instructions' left orig_pos pc' code' b).2 := by
  induction left generalizing orig_pos pc pc' code code' b with
  | zero => rfl
  | succ left ih =>
    rw [armLoop, armLoop, hc]
    refine ih (orig_pos + 1) (by omega) _ _ ?_ _
    rw [List.length_append, List.length_append, hc, ho orig_pos (by omega),
      relocateWordInArm_length mem mem' pc pc']

end Lengths

/-- **The boundaries depend on the bytes of the prologue only**, not on what
its literals refer to. -/
theorem boundaries_congr (mem mem' : Mem) (target_addr : Word) {orig orig' : ℕ → Byte}
    {length : ℕ} (h4 : 4 ≤ length) (ho : ∀ k, k < length → orig k = orig' k) :
    boundaries mem target_addr orig length = boundaries mem' target_addr orig' length := by
  unfold boundaries relocateInstruction
  by_cases ht : target_addr &&& 1#32 ≠ 0#32
  · rw [if_pos ht, if_pos ht]
    refine thumbLoop_congr _ mem mem' (fun i hi => ?_) _ 0 (by omega) _ _ rfl []
    rw [ho _ (by omega), ho _ (by omega)]
  · rw [if_neg ht, if_neg ht]
    refine armLoop_congr (n := length / 4) _ mem mem' (fun i hi => ?_) _ 0 (by omega) _ _ rfl []
    rw [ho _ (by omega), ho _ (by omega), ho _ (by omega), ho _ (by omega)]

/-- What the Thumb loop records from a position on: at most as many boundaries
as there are halfwords left, and all of them there. -/
theorem thumbLoop_boundaries (mem : Mem) (orig_instructions : ℕ → Half) {n : ℕ}
    (fuel orig_pos : ℕ) (hpos : orig_pos < n) (pc : Word) (code : List Half)
    (bs : List (ℕ × ℕ)) :
    ∃ l, (thumbLoop (fun bs o t => bs ++ [(o, t)]) mem orig_instructions n fuel orig_pos pc code
        bs).2.2 = bs ++ l ∧ l.length ≤ n - orig_pos ∧
      ∀ b ∈ l, orig_pos * 2 ≤ b.1 ∧ b.1 < n * 2 := by
  induction fuel generalizing orig_pos pc code bs with
  | zero => exact ⟨[], (List.append_nil bs).symm, Nat.zero_le _, List.forall_mem_nil _⟩
  | succ fuel ih =>
    have hfst : orig_pos * 2 ≤ orig_pos * 2 ∧ orig_pos * 2 < n * 2 := by omega
    have hone : ∀ b ∈ [(orig_pos * 2, code.length * 2)], orig_pos * 2 ≤ b.1 ∧ b.1 < n * 2 :=
      List.forall_mem_singleton.mpr hfst
    rw [thumbLoop]
    dsimp only
    split_ifs
    · exact ⟨_, rfl, Nat.le_sub_of_add_le (by rw [List.length_singleton]; omega), hone⟩
    · exact ⟨_, rfl, Nat.le_sub_of_add_le (by rw [List.length_singleton]; omega), hone⟩
    · obtain ⟨l, hl, hlen, hb⟩ := ih (orig_pos + 2) (by omega) (pc + 4#32)
        (code ++ relocateInstructionInThumb32 mem pc (orig_instructions orig_pos)
          (orig_instructions (orig_pos + 1))) (bs ++ [(orig_pos * 2, code.length * 2)])
      refine ⟨_ :: l, by rw [hl, List.append_assoc]; rfl, ?_, List.forall_mem_cons.mpr
        ⟨hfst, fun b hb' => ⟨le_trans (by omega) (hb b hb').1, (hb b hb').2⟩⟩⟩
      rw [List.length_cons]
      omega
    · exact ⟨_, rfl, Nat.le_sub_of_add_le (by rw [List.length_singleton]; omega), hone⟩
    · obtain ⟨l, hl, hlen, hb⟩ := ih (orig_pos + 1) (by omega) (pc + 2#32)
        (code ++ relocateInstructionInThumb16 mem pc (orig_instructions orig_pos))
        (bs ++ [(orig_pos * 2, code.length * 2)])
      refine ⟨_ :: l, by rw [hl, List.append_assoc]; rfl, ?_, List.forall_mem_cons.mpr
        ⟨hfst, fun b hb' => ⟨le_trans (by omega) (hb b hb').1, (hb b hb').2⟩⟩⟩
      rw [List.length_cons]
      omega

theorem armLoop_boundaries (mem : Mem) (orig_instructions : ℕ → Word) (left orig_pos : ℕ)
    (pc : Word) (code : List Word) (bs : List (ℕ × ℕ)) :
    ∃ l, (armLoop (fun bs o t => bs ++ [(o, t)]) mem orig_instructions left orig_pos pc code
        bs).2 = bs ++ l ∧ l.length = left ∧
      ∀ b ∈ l, orig_pos * 4 ≤ b.1 ∧ b.1 < (orig_pos + left) * 4 := by
  induction left generalizing orig_pos pc code bs with
  | zero => exact ⟨[], (List.append_nil bs).symm, rfl, List.forall_mem_nil _⟩
  | succ left ih =>
    obtain ⟨l, hl, hlen, hb⟩ := ih (orig_pos + 1) (pc + 4#32)
      (code ++ relocateWordInArm mem pc (orig_instructions orig_pos))
      (bs ++ [(orig_pos * 4, code.length * 4)])
    have hfst : orig_pos * 4 ≤ orig_pos * 4 ∧ orig_pos * 4 < (orig_pos + (left + 1)) * 4 := by
      omega
    refine ⟨_ :: l, by rw [armLoop, hl, List.append_assoc]; rfl, ?_, List.forall_mem_cons.mpr
      ⟨hfst, fun b hb' => ⟨le_trans (by omega) (hb b hb').1,
        lt_of_lt_of_le (hb b hb').2 (by omega)⟩⟩⟩
    rw [List.length_cons, hlen]

/-- **The first boundary is the start of both codes**, and every other one lies
behind it. -/
theorem boundaries_eq_cons (mem : Mem) (target_addr : Word) (orig : ℕ → Byte) {length : ℕ}
    (h4 : 4 ≤ length) :
    ∃ l, boundaries mem target_addr orig length = (0, 0) :: l ∧ l.length < length / 2 ∧
      ∀ b ∈ l, 0 < b.1 ∧ b.1 < length := by
  unfold boundaries relocateInstruction
  by_cases ht : target_addr &&& 1#32 ≠ 0#32
  · rw [if_pos ht]
    dsimp only [relocateInstructionInThumb]
    rw [thumbLoop]
    dsimp only
    split_ifs
    · exact ⟨[], rfl, by rw [List.length_nil]; omega, List.forall_mem_nil _⟩
    · exact ⟨[], rfl, by rw [List.length_nil]; omega, List.forall_mem_nil _⟩
    · obtain ⟨l, hl, hlen, hb⟩ := thumbLoop_boundaries mem
        (fun i => orig (2 * i + 1) ++ orig (2 * i)) (n := length / 2)
            (length / 2) 2 (by omega) _ _ _
      exact ⟨l, hl, by omega, fun b hb' => ⟨lt_of_lt_of_le (by omega) (hb b hb').1,
        lt_of_lt_of_le (hb b hb').2 (by omega)⟩⟩
    · exact ⟨[], rfl, by rw [List.length_nil]; omega, List.forall_mem_nil _⟩
    · obtain ⟨l, hl, hlen, hb⟩ := thumbLoop_boundaries mem
        (fun i => orig (2 * i + 1) ++ orig (2 * i)) (n := length / 2)
            (length / 2) 1 (by omega) _ _ _
      exact ⟨l, hl, by omega, fun b hb' => ⟨lt_of_lt_of_le (by omega) (hb b hb').1,
        lt_of_lt_of_le (hb b hb').2 (by omega)⟩⟩
  · rw [if_neg ht]
    dsimp only [relocateInstructionInArm]
    obtain ⟨left, hleft⟩ : ∃ left, length / 4 = left + 1 :=
      Nat.exists_eq_add_one_of_ne_zero (by omega)
    rw [hleft, armLoop]
    obtain ⟨l, hl, hlen, hb⟩ := armLoop_boundaries mem
      (fun i => (orig (4 * i + 3) ++ orig (4 * i + 2)) ++ (orig (4 * i + 1) ++ orig (4 * i)))
      left 1 _ _ _
    exact ⟨l, hl, by omega, fun b hb' => ⟨lt_of_lt_of_le (by omega) (hb b hb').1,
        lt_of_lt_of_le (hb b hb').2 (by omega)⟩⟩

/-- A prologue has at most as many instructions as halfwords. -/
theorem boundaries_length_le (mem : Mem) (target_addr : Word) (orig : ℕ → Byte) {length : ℕ}
    (h4 : 4 ≤ length) : (boundaries mem target_addr orig length).length ≤ length / 2 := by
  obtain ⟨l, hl, hlen, -⟩ := boundaries_eq_cons mem target_addr orig h4
  rw [hl, List.length_cons]
  exact hlen

/-! ## What the emitters share, in the terms of the machine -/

theorem alignPc_eq (pc : Word) : alignPc pc = align4 pc := rfl

theorem literal_eq (v : Word) : literal v = [lowHalf v, highHalf v] := by
  have h0 : store16 (v &&& 0xFFFF#32) = lowHalf v := by
    refine BitVec.eq_of_getLsbD_eq (fun i hi => ?_)
    simp only [store16, lowHalf, BitVec.getLsbD_setWidth, BitVec.getLsbD_and,
      BitVec.getLsbD_extractLsb']
    interval_cases i <;> simp
  have h1 : store16 (v >>> 16) = highHalf v := by
    refine BitVec.eq_of_getLsbD_eq (fun i hi => ?_)
    simp only [store16, highHalf, BitVec.getLsbD_setWidth, BitVec.getLsbD_ushiftRight,
      BitVec.getLsbD_extractLsb']
  rw [literal, h0, h1]

theorem ldrPc_eq (v : Word) : ldrPc v = [0xF8DF#16, 0xF000#16, lowHalf v, highHalf v] := by
  rw [ldrPc, literal_eq]
  rfl

/-- A field, masked and shifted down. -/
theorem maskField {m : ℕ} (w : BitVec m) (hm : m ≤ 32) (n k : ℕ) (h : k + n ≤ m) :
    (w.setWidth 32 &&& ((BitVec.allOnes n).setWidth 32 <<< k)) >>> k
      = (w.extractLsb' k n).setWidth 32 := by
  refine BitVec.eq_of_getLsbD_eq (fun i hi => ?_)
  simp only [BitVec.getLsbD_ushiftRight, BitVec.getLsbD_and, BitVec.getLsbD_setWidth,
    BitVec.getLsbD_shiftLeft, BitVec.getLsbD_allOnes, BitVec.getLsbD_extractLsb']
  by_cases hin : i < n
  · simp [hin, hi, show k + i < 32 by omega]
  · simp [hin]

/-- A field at the bottom, masked. -/
theorem maskLow {m : ℕ} (w : BitVec m) (hm : m ≤ 32) (n : ℕ) (h : n ≤ m) :
    w.setWidth 32 &&& (BitVec.allOnes n).setWidth 32 = (w.extractLsb' 0 n).setWidth 32 := by
  have hf := maskField w hm n 0 (by omega)
  rwa [BitVec.shiftLeft_zero, BitVec.ushiftRight_zero] at hf

/-- A single bit, masked and shifted down. -/
theorem bitField (v : Word) {k : ℕ} (hk : k < 32) :
    (v &&& BitVec.twoPow 32 k) >>> k = (BitVec.ofBool (v.getLsbD k)).setWidth 32 := by
  refine BitVec.eq_of_getLsbD_eq (fun i hi => ?_)
  simp only [BitVec.getLsbD_ushiftRight, BitVec.getLsbD_and, BitVec.getLsbD_twoPow,
    BitVec.getLsbD_setWidth, BitVec.getLsbD_ofBool]
  by_cases h : i = 0
  · simp [h, hk]
  · simp [h]

theorem bit_ne_zero_iff (b : Bool) : (BitVec.ofBool b).setWidth 32 ≠ 0#32 ↔ b = true := by
  cases b <;> decide

/-- **The sign extension of the source** is that of the field, whether the
ones are shifted to the sign bit or past it. -/
theorem extendTop_eq_signExtend {n : ℕ} (f : BitVec (n + 1)) (hn : n < 32) {top : Word} {k : ℕ}
    (htop : top ≠ 0#32 ↔ f.msb = true) (hk : k = n ∨ k = n + 1) :
    extendTop top k (f.setWidth 32) = f.signExtend 32 := by
  have hmsb : f.msb = f.getLsbD n := by
    rw [BitVec.msb_eq_getLsbD_last]
    rfl
  refine BitVec.eq_of_getLsbD_eq (fun i hi => ?_)
  rw [extendTop, BitVec.getLsbD_signExtend]
  by_cases ht : top = 0#32
  · have h0 : f.msb = false := by simpa [ht] using htop
    rw [if_neg (by simpa using ht), BitVec.getLsbD_setWidth, h0]
    by_cases hi' : i < n + 1
    · simp [hi']
    · simp [hi', BitVec.getLsbD_of_ge f i (by omega)]
  · have hs : (0xFFFFFFFF#32 <<< k).getLsbD i = decide (k ≤ i) := by
      rw [BitVec.getLsbD_shiftLeft, show 0xFFFFFFFF#32 = BitVec.allOnes 32 from rfl,
        BitVec.getLsbD_allOnes]
      by_cases hki : k ≤ i
      · simp [hi, hki]
        omega
      · simp [hki]
    rw [if_pos ht, htop.mp ht, BitVec.getLsbD_or, hs, BitVec.getLsbD_setWidth]
    by_cases hi' : i < n + 1
    · by_cases hki : k ≤ i
      · have hin : i = n := by omega
        subst hin
        simp [hi, ← hmsb, htop.mp ht]
      · simp [hi, hi', hki]
    · have hki : k ≤ i := by omega
      simp [hi, hi', hki]

/-- The test `x >> n` of the source reads the sign bit. -/
theorem shift_ne_zero_iff_msb {n : ℕ} (f : BitVec (n + 1)) (hn : n < 32) :
    (f.setWidth 32) >>> n ≠ 0#32 ↔ f.msb = true := by
  have hlt : f.toNat < 2 ^ (n + 1) := f.isLt
  have h32 : f.toNat < 2 ^ 32 := lt_of_lt_of_le hlt (Nat.pow_le_pow_right (by omega) (by omega))
  rw [BitVec.msb_eq_decide, decide_eq_true_iff, Ne, ← BitVec.toNat_inj,
    BitVec.toNat_ushiftRight, BitVec.toNat_setWidth, Nat.mod_eq_of_lt h32,
    Nat.shiftRight_eq_div_pow]
  show ¬ f.toNat / 2 ^ n = 0 ↔ 2 ^ n ≤ f.toNat
  rw [Nat.div_eq_zero_iff]
  have := Nat.two_pow_pos n
  omega

/-- The two together, where the source tests the bit the ones start at. -/
theorem extendTop_shift {n : ℕ} (f : BitVec (n + 1)) (hn : n < 32) {k : ℕ}
    (hk : k = n ∨ k = n + 1) :
    extendTop (f.setWidth 32 >>> n) k (f.setWidth 32) = f.signExtend 32 :=
  extendTop_eq_signExtend f hn (shift_ne_zero_iff_msb f hn) hk

end Relocate
