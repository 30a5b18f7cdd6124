import AndroidReverse.A64Isa
import AndroidReverse.HookZzArm64Reach
import AndroidReverse.HookZzTrampoline
import AndroidReverse.LiteralPool

/-!
# The A64 invoke trampoline

What `ZzBuildInvokeTrampoline` of `interceptor-arm64.c` writes: the instructions
that the redirect overwrites, each as the block that `relocator-arm64.c` makes
of it, and a jump behind them. The relocator notes the literals that hold
addresses, and when the place of the trampoline is known,
`zz_arm64_relocator_relocate_writer` replaces those that lie strictly inside of
what is overwritten by the places of the blocks.

`buildInvoke_words` is what the trampoline consists of in the end.
-/

namespace HookZz.Arm64

open A64 LiteralPool

/-! ## Reading and writing all of it -/

/-- How an address is written. -/
def addressEncoding : Encoding Word Addr where
  size := 2
  encode := addressBytes
  decode ws := ws.getD 1 0#32 ++ ws.getD 0 0#32
  length_encode _ := rfl
  decode_encode := words_append

namespace Relocator

/-- `zz_arm64_relocator_reset`: the blocks stay noted. -/
def reset (self : Relocator) (input : ARM64Reader) (output : AssemblerWriter) : Relocator :=
  { self with
    inpos := 0
    outpos := 0
    input := input
    output := output
    literalInsns := [] }

/-- `do zz_arm64_relocator_read_one(..) while (input->size < size)`. -/
def readUntil (mem : Mem) (size : ℕ) (self : Relocator) : Relocator :=
  if (self.readOne mem).input.size < size then (self.readOne mem).readUntil mem size
  else self.readOne mem
termination_by size - self.input.size
decreasing_by
  rename_i h
  have hsize : (self.readOne mem).input.size = self.input.size + 4 := rfl
  omega

/-- `zz_arm64_relocator_write_one`, with the answer not looked at. -/
def writeNext (self : Relocator) : Relocator := self.writeOne.getD self

/-- `do { read_one; write_one } while (input->size < size)`. -/
def readWriteUntil (mem : Mem) (size : ℕ) (self : Relocator) : Relocator :=
  let next := (self.readOne mem).writeNext
  if self.input.size + 4 < size then next.readWriteUntil mem size else next
termination_by size - self.input.size
decreasing_by
  rename_i h
  have hsize : (self.readOne mem).writeNext.input.size = self.input.size + 4 := by
    unfold writeNext writeOne
    cases (self.readOne mem).pending with
    | none => rfl
    | some insnCtx =>
      show (Relocator.rewrite _ insnCtx).input.size = _
      unfold rewrite
      split <;> rfl
  omega

/-- `zz_arm64_relocator_write_all`, as often as there can be something left to
write. -/
def writeAll (self : Relocator) : Relocator :=
  go self.input.insns.length self
where
  go : ℕ → Relocator → Relocator
    | 0, self => self
    | n + 1, self =>
      match self.writeOne with
      | some self => go n self
      | none => self

/-- `zz_arm64_relocator_get_relocator_insn_with_address`. -/
def getRelocatorInsnWithAddress (self : Relocator) (insnAddress : Addr) :
    Option RelocatorInstruction :=
  self.relocatorInsns.find? fun r => r.originInsn.pc = insnAddress

/-- **What becomes of a literal** that holds an address, the trampoline being
placed at `finalRelocateAddress`; `none` if the `assert` fails. The `start_pc`
of the reader and of the writer, which do not change, are arguments. -/
def relocateLiteral (self : Relocator) (inputStartPc outputStartPc finalRelocateAddress : Addr)
    (v : Addr) : Option Addr :=
  if inputStartPc < v ∧ v < inputStartPc + BitVec.ofNat 64 self.input.size then
    (self.getRelocatorInsnWithAddress v).bind fun relocatedInsn =>
      self.output.insns[relocatedInsn.relocatedInsns]?.map fun insn =>
        insn.pc - outputStartPc + finalRelocateAddress
  else some v

/-- `zz_arm64_relocator_relocate_writer`, of the buffer that begins at
`wStartAddress`. -/
def relocateWriter (self : Relocator) (inputStartPc outputStartPc wStartAddress : Addr)
    (finalRelocateAddress : Addr) : Option (List Word) :=
  self.literalInsns.foldlM
    (fun buffer literal => addressEncoding.patch
      (self.relocateLiteral inputStartPc outputStartPc finalRelocateAddress) buffer
      ((literal.address - wStartAddress).toNat / 4))
    self.output.buffer

end Relocator

/-! ## The trampoline -/

/-- `ZzBuildInvokeTrampoline` up to where it needs a place, for a target with
`redirectCodeSize` bytes to be overwritten. -/
def buildInvoke (mem : Mem) (relocator : Relocator) (tempCodeSlice target : Addr)
    (redirectCodeSize : ℕ) (hookType : HookType) (onInsnLeaveTrampoline : Addr) : Relocator :=
  let relocator := relocator.reset (readerReset target) (.reset tempCodeSlice 0#64)
  let relocator := if hookType = .oneInstruction then
      let relocator := (relocator.readOne mem).writeNext
      let relocator := relocator.write (·.putLdrBrRegAddress x17 onInsnLeaveTrampoline)
      relocator.readWriteUntil mem redirectCodeSize
    else (relocator.readUntil mem redirectCodeSize).writeAll
  -- jump to rest target address
  let restoreNextInsnAddr := target + BitVec.ofNat 64 relocator.input.size
  relocator.write (·.putLdrBrRegAddress x17 restoreNextInsnAddr)

/-- **`ZzBuildInvokeTrampoline`**, with the code slice it gets: what is put
there, and `next_insn_addr` of a hook of one instruction. -/
def buildInvokeTrampoline (mem : Mem) (relocator : Relocator) (tempCodeSlice target : Addr)
    (redirectCodeSize : ℕ) (hookType : HookType) (onInsnLeaveTrampoline codeSlice : Addr) :
    Option (List Word × Option Addr) :=
  let relocator := buildInvoke mem relocator tempCodeSlice target redirectCodeSize hookType
    onInsnLeaveTrampoline
  (relocator.relocateWriter target 0#64 (tempCodeSlice &&& ~~~3#64) codeSlice).map fun buffer =>
    (buffer, if hookType = .oneInstruction then
        relocator.relocatorInsns[1]?.bind fun r =>
          relocator.output.insns[r.relocatedInsns]?.map fun insn => insn.pc - 0#64 + codeSlice
      else none)

/-! ## The blocks, piece by piece -/

/-- **What one primitive of the writer writes** for a block: a literal is noted. -/
inductive Piece where
  | insn (w : Word)
  | data (ws : List Word)
  | literal (v : Addr)

namespace Piece

def emission : Piece → Emission
  | insn w => .insn w
  | data ws => .bytes ws
  | literal v => .bytes (addressBytes v)

def item : Piece → Item Word Addr
  | insn w => .code [w]
  | data ws => .code ws
  | literal v => .literal v

theorem words_emission (x : Piece) : x.emission.words = addressEncoding.itemWords x.item := by
  cases x <;> rfl

end Piece

/-- The words of some pieces. -/
def wordsOf (xs : List Piece) : List Word := addressEncoding.words (xs.map Piece.item)

theorem wordsOf_append (xs ys : List Piece) : wordsOf (xs ++ ys) = wordsOf xs ++ wordsOf ys := by
  rw [wordsOf, List.map_append, Encoding.words_append]
  rfl

/-- A piece is written. -/
def Relocator.putPiece (self : Relocator) (x : Piece) : Relocator :=
  let self := self.write (·.put x.emission)
  match x with
  | .literal _ => self.registerLiteralInsn
  | _ => self

/-- The address that an instruction is taken to refer to, its displacement
beginning with bit `lo`. -/
def labelOf (c : ARM64Instruction) (lo n : ℕ) : Addr :=
  c.pc + (getInsnSub c.insn lo n <<< 2).setWidth 64

/-- A jump through X17. -/
def jumpPieces (v : Addr) : List Piece :=
  [.insn (ldrLitWord x17 0x8#32), .insn brWord, .literal v]

/-- A load of an address. -/
def loadPieces (r : Reg) (x : Piece) : List Piece :=
  [.insn (ldrLitWord r 0x8#32), .insn (bWord 0xc#64), x]

/-- **The block of an instruction.** -/
def pieces (c : ARM64Instruction) : List Piece :=
  match getARM64InsnType c.insn with
  | .ldrLiteral => loadPieces (Relocator.rtNdx c.insn) (.literal (labelOf c 5 19))
      ++ [.insn (ldrSelfWord (Relocator.rtNdx c.insn))]
  | .adr => loadPieces (Relocator.rtNdx c.insn) (.data (addressBytes
      (c.pc + ((getInsnSub c.insn 5 19 <<< 2) ||| getInsnSub c.insn 29 2).setWidth 64)))
  | .adrp => loadPieces (Relocator.rtNdx c.insn) (.data (addressBytes
      (page c.pc + ((getInsnSub c.insn 5 19 <<< 2 <<< 12)
        ||| (getInsnSub c.insn 29 2 <<< 12)).setWidth 64)))
  | .b => jumpPieces (labelOf c 0 26)
  | .bl => [.insn (ldrLitWord x17 0xc#32), .insn blrWord, .insn (bWord 0xc#64),
      .literal (labelOf c 0 26)] ++ jumpPieces (c.pc + 4#64)
  | .bCond => [.insn (bCondWord (c.insn.extractLsb' 0 4)), .insn (bWord 0x14#64)]
      ++ jumpPieces (labelOf c 5 19)
  | .undef => [.data [c.insn]]

theorem pieces_ne_nil (c : ARM64Instruction) : pieces c ≠ [] := by
  unfold pieces
  split <;> exact List.cons_ne_nil _ _

/-- **An instruction is written piece by piece.** -/
theorem rewrite_eq (self : Relocator) (c : ARM64Instruction) :
    self.rewrite c = (pieces c).foldl Relocator.putPiece self := by
  have hcond : getInsnSub c.insn 0 4 = (c.insn.extractLsb' 0 4).setWidth 32 :=
    getInsnSub_eq _ _ (by decide)
  unfold Relocator.rewrite pieces
  cases getARM64InsnType c.insn with
  | bCond =>
    show self.rewriteBCond c = _
    unfold Relocator.rewriteBCond
    dsimp only
    rw [hcond]
    rfl
  | _ => rfl

/-- The block of an instruction with other literals. -/
def blockWith (g : Addr → Addr) (c : ARM64Instruction) : List Word :=
  addressEncoding.words (((pieces c).map Piece.item).map (Item.map g))

/-- **The block, by the kind of instruction.** -/
theorem blockWith_eq (g : Addr → Addr) (c : ARM64Instruction) : blockWith g c =
    match getARM64InsnType c.insn with
    | .ldrLiteral => derefBlock (Relocator.rtNdx c.insn) (g (labelOf c 5 19))
    | .adr => loadBlock (Relocator.rtNdx c.insn)
        (c.pc + ((getInsnSub c.insn 5 19 <<< 2) ||| getInsnSub c.insn 29 2).setWidth 64)
    | .adrp => loadBlock (Relocator.rtNdx c.insn) (page c.pc
        + ((getInsnSub c.insn 5 19 <<< 2 <<< 12) ||| (getInsnSub c.insn 29 2 <<< 12)).setWidth 64)
    | .b => jumpBlock (g (labelOf c 0 26))
    | .bl => callBlock (g (labelOf c 0 26)) (g (c.pc + 4#64))
    | .bCond => condBlock (c.insn.extractLsb' 0 4) (g (labelOf c 5 19))
    | .undef => [c.insn] := by
  unfold blockWith pieces
  cases getARM64InsnType c.insn <;> rfl

/-- The addresses in a block are whole instructions away. -/
theorem literal_aligned {c : ARM64Instruction} {v : Addr} (h : Piece.literal v ∈ pieces c) :
    ∃ d : Addr, v = c.pc + d ∧ d.toNat % 4 = 0 := by
  have hlabel : ∀ lo n, ((getInsnSub c.insn lo n <<< 2).setWidth 64 : Addr).toNat % 4 = 0 := by
    intro lo n
    rw [BitVec.toNat_setWidth, BitVec.toNat_shiftLeft, Nat.shiftLeft_eq]
    omega
  unfold pieces at h
  split at h <;>
    simp only [loadPieces, jumpPieces, List.cons_append, List.nil_append, List.mem_cons,
      List.not_mem_nil, or_false, false_or, reduceCtorEq, Piece.literal.injEq] at h
  case h_5 =>
    rcases h with rfl | rfl
    · exact ⟨_, rfl, hlabel 0 26⟩
    · exact ⟨4#64, rfl, rfl⟩
  all_goals
    subst h
    exact ⟨_, rfl, hlabel _ _⟩

/-! ## What has been written -/

/-- **The pieces that have been written**, to a buffer at `start` and for a
program counter that begins with zero. -/
structure Written (start : Addr) (xs : List Piece) (r : Relocator) : Prop where
  buffer : r.output.buffer = wordsOf xs
  size : r.output.size = 4 * (wordsOf xs).length
  pc : r.output.currentPc = BitVec.ofNat 64 r.output.size
  address : r.output.wCurrentAddress = start + BitVec.ofNat 64 r.output.size
  literals : r.literalInsns.map (·.address)
    = (addressEncoding.positions 0 (xs.map Piece.item)).map fun i =>
        start + BitVec.ofNat 64 (4 * i)
  /-- The blocks that are noted have been written. -/
  noted : ∀ b ∈ r.relocatorInsns, b.relocatedInsns < r.output.insns.length

/-- What is noted: the address of an instruction, and where its block is. -/
def notes (self : Relocator) : List (Addr × Option Addr) :=
  self.relocatorInsns.map fun r =>
    (r.originInsn.pc, self.output.insns[r.relocatedInsns]?.map (·.pc))

section Written

variable {start : Addr} {xs ys : List Piece} {self : Relocator}

/-- What a piece does not change. -/
theorem putPiece_kept (self : Relocator) (x : Piece) : (self.putPiece x).input = self.input
    ∧ (self.putPiece x).inpos = self.inpos ∧ (self.putPiece x).outpos = self.outpos
    ∧ (self.putPiece x).relocatorInsns = self.relocatorInsns
    ∧ (self.putPiece x).output.insns
      = self.output.insns ++ [x.emission.record self.output.currentPc self.output.wCurrentAddress] := by
  cases x <;> exact ⟨rfl, rfl, rfl, rfl, rfl⟩

/-- **One piece is written.** -/
theorem Written.putPiece (h : Written start xs self) (x : Piece) :
    Written start (xs ++ [x]) (self.putPiece x) := by
  obtain ⟨-, -, -, hinsns, hout⟩ := putPiece_kept self x
  have hwords : wordsOf (xs ++ [x]) = wordsOf xs ++ x.emission.words := by
    rw [wordsOf_append, x.words_emission]
    exact congrArg _ (List.append_nil _)
  have hbuffer : (self.putPiece x).output.buffer = self.output.buffer ++ x.emission.words := by
    cases x <;> rfl
  have hsize : (self.putPiece x).output.size = self.output.size + x.emission.size := by
    cases x <;> rfl
  have hpc : (self.putPiece x).output.currentPc
      = self.output.currentPc + BitVec.ofNat 64 x.emission.size := by
    cases x <;> rfl
  have haddr : (self.putPiece x).output.wCurrentAddress
      = self.output.wCurrentAddress + BitVec.ofNat 64 x.emission.size := by
    cases x <;> rfl
  constructor
  case buffer => rw [hbuffer, hwords, h.buffer]
  case size => rw [hsize, hwords, h.size, List.length_append, Nat.mul_add]; rfl
  case pc => rw [hpc, hsize, h.pc, ← BitVec.ofNat_add]
  case address => rw [haddr, hsize, h.address, BitVec.add_assoc, ← BitVec.ofNat_add]
  case noted =>
    intro r hr
    rw [hinsns] at hr
    rw [hout, List.length_append]
    exact Nat.lt_add_right _ (h.noted r hr)
  case literals =>
    rw [List.map_append, Encoding.positions_append, List.map_append, ← h.literals, Nat.zero_add]
    cases x with
    | insn w => exact (List.append_nil _).symm
    | data ws => exact (List.append_nil _).symm
    | literal v =>
      show (self.literalInsns ++ ((self.output.put (.bytes (addressBytes v))).insns).getLast?.toList).map
        (·.address) = _
      rw [AssemblerWriter.put, List.getLast?_concat, List.map_append]
      refine congrArg _ ?_
      show [self.output.wCurrentAddress] = [start + BitVec.ofNat 64 (4 * (wordsOf xs).length)]
      rw [h.address, h.size]

/-- **Pieces are written**, and what is noted stays. -/
theorem Written.foldl (h : Written start xs self) (ys : List Piece) :
    let next := ys.foldl Relocator.putPiece self
    Written start (xs ++ ys) next ∧ next.input = self.input ∧ next.inpos = self.inpos
      ∧ next.outpos = self.outpos ∧ next.relocatorInsns = self.relocatorInsns
      ∧ self.output.insns <+: next.output.insns := by
  induction ys generalizing xs self with
  | nil => exact ⟨by rwa [List.append_nil], rfl, rfl, rfl, rfl, List.prefix_rfl⟩
  | cons y ys ih =>
    obtain ⟨hinput, hinpos, houtpos, hinsns, hout⟩ := putPiece_kept self y
    obtain ⟨hw, hinput', hinpos', houtpos', hinsns', hout'⟩ := ih (h.putPiece y)
    rw [List.append_assoc] at hw
    refine ⟨hw, hinput'.trans hinput, hinpos'.trans hinpos, houtpos'.trans houtpos,
      hinsns'.trans hinsns, List.IsPrefix.trans ?_ hout'⟩
    rw [hout]
    exact List.prefix_append _ _

/-- What is noted first stands where writing was. -/
theorem Written.foldl_first (h : Written start xs self) (hys : ys ≠ []) :
    ((ys.foldl Relocator.putPiece self).output.insns[self.output.insns.length]?).map (·.pc)
      = some self.output.currentPc := by
  obtain ⟨y, ys, rfl⟩ := List.exists_cons_of_ne_nil hys
  obtain ⟨-, -, -, -, hout⟩ := putPiece_kept self y
  obtain ⟨-, -, -, -, -, rest, hrest⟩ := (h.putPiece y).foldl ys
  rw [List.foldl_cons, ← hrest, hout, List.append_assoc, List.getElem?_append_right le_rfl,
    Nat.sub_self]
  cases y <;> rfl

end Written

/-! ## Chunks -/

/-- **A part of the trampoline**: what is noted of it if it is the block of an
instruction, and its pieces. -/
abbrev Chunk := Option Addr × List Piece

/-- The block of an instruction, noted. -/
def chunk (c : ARM64Instruction) : Chunk := (some c.pc, pieces c)

/-- A jump that is no block. Its literal is not noted. -/
def jumpChunk (v : Addr) : Chunk :=
  (none, [.insn (ldrLitWord x17 0x8#32), .insn brWord, .data (addressBytes v)])

/-- The pieces of some chunks. -/
def piecesOf (cs : List Chunk) : List Piece := cs.flatMap (·.2)

/-- What is noted of some chunks behind `off` words. -/
def notesFrom (off : ℕ) : List Chunk → List (Addr × Option Addr)
  | [] => []
  | (some a, xs) :: cs =>
    (a, some (BitVec.ofNat 64 (4 * off))) :: notesFrom (off + (wordsOf xs).length) cs
  | (none, xs) :: cs => notesFrom (off + (wordsOf xs).length) cs

theorem piecesOf_append (cs ds : List Chunk) :
    piecesOf (cs ++ ds) = piecesOf cs ++ piecesOf ds := List.flatMap_append

theorem notesFrom_append (off : ℕ) (cs ds : List Chunk) : notesFrom off (cs ++ ds)
    = notesFrom off cs ++ notesFrom (off + (wordsOf (piecesOf cs)).length) ds := by
  induction cs generalizing off with
  | nil => rfl
  | cons c cs ih =>
    have hlen : (wordsOf (piecesOf (c :: cs))).length
        = (wordsOf c.2).length + (wordsOf (piecesOf cs)).length := by
      rw [piecesOf, List.flatMap_cons, wordsOf_append, List.length_append]
      rfl
    rw [hlen, ← Nat.add_assoc]
    obtain ⟨_ | a, xs⟩ := c
    · exact ih _
    · exact congrArg _ (ih _)

/-- The instructions at an address. -/
def prologue (mem : Mem) (target : Addr) (n : ℕ) : List ARM64Instruction :=
  (List.range n).map fun i =>
    ⟨target + BitVec.ofNat 64 (4 * i), target + BitVec.ofNat 64 (4 * i), 4,
      mem.read32 (target + BitVec.ofNat 64 (4 * i))⟩

/-- **How far the trampoline has come**: `n` instructions have been read, `k`
of them written, and some chunks are there. -/
structure Building (mem : Mem) (target start : Addr) (n k : ℕ) (cs : List Chunk)
    (r : Relocator) : Prop where
  insns : r.input.insns = prologue mem target n
  address : r.input.rCurrentAddress = target + BitVec.ofNat 64 (4 * n)
  pc : r.input.currentPc = target + BitVec.ofNat 64 (4 * n)
  size : r.input.size = 4 * n
  inpos : r.inpos = n
  outpos : r.outpos = k
  written : Written start (piecesOf cs) r
  notes : notes r = notesFrom 0 cs

section Building

variable {mem : Mem} {target start : Addr} {n k : ℕ} {cs : List Chunk} {self : Relocator}

/-- An instruction is read. -/
theorem Building.readOne (h : Building mem target start n k cs self) :
    Building mem target start (n + 1) k cs (self.readOne mem) := by
  have hnext : target + BitVec.ofNat 64 (4 * n) + 4#64
      = target + BitVec.ofNat 64 (4 * (n + 1)) := by
    rw [BitVec.add_assoc, ← BitVec.ofNat_add]
    rfl
  constructor
  case insns =>
    show self.input.insns ++ [_] = _
    rw [h.insns, h.pc, h.address, prologue, prologue, List.range_succ, List.map_append]
    rfl
  case address => exact (congrArg (· + 4#64) h.address).trans hnext
  case pc => exact (congrArg (· + 4#64) h.pc).trans hnext
  case size => exact congrArg (· + 4) h.size
  case inpos => exact congrArg (· + 1) h.inpos
  case outpos => exact h.outpos
  case written => exact ⟨h.written.buffer, h.written.size, h.written.pc, h.written.address,
    h.written.literals, h.written.noted⟩
  case notes => exact h.notes

/-- What is noted of a list of emissions stays when it grows. -/
theorem notes_kept {self next : Relocator}
    (hnoted : ∀ r ∈ self.relocatorInsns, r.relocatedInsns < self.output.insns.length)
    (hinsns : next.relocatorInsns = self.relocatorInsns)
    (hout : self.output.insns <+: next.output.insns) : notes next = notes self := by
  rw [notes, notes, hinsns]
  refine List.map_congr_left fun r hr => ?_
  obtain ⟨rest, hrest⟩ := hout
  rw [← hrest, List.getElem?_append_left (hnoted r hr)]

/-- **A jump is written.** -/
theorem Building.writeJump (h : Building mem target start n k cs self) (v : Addr) :
    Building mem target start n k (cs ++ [jumpChunk v])
      (self.write (·.putLdrBrRegAddress x17 v)) := by
  obtain ⟨hw, hinput, hinpos, houtpos, hinsns, hout⟩ := h.written.foldl (jumpChunk v).2
  have heq : (jumpChunk v).2.foldl Relocator.putPiece self
      = self.write (·.putLdrBrRegAddress x17 v) := rfl
  rw [heq] at hw hinput hinpos houtpos hinsns hout
  have hpieces : piecesOf (cs ++ [jumpChunk v]) = piecesOf cs ++ (jumpChunk v).2 := by
    rw [piecesOf_append]
    exact congrArg _ (List.append_nil _)
  refine ⟨h.insns, h.address, h.pc, h.size, h.inpos, h.outpos, hpieces ▸ hw, ?_⟩
  rw [notes_kept h.written.noted hinsns hout, h.notes, notesFrom_append]
  exact (List.append_nil _).symm

/-- **The block of an instruction is written**, and noted. -/
theorem Building.writeOne (h : Building mem target start n k cs self) (hk : k < n) :
    ∃ c next, (prologue mem target n)[k]? = some c ∧ self.writeOne = some next
      ∧ Building mem target start n (k + 1) (cs ++ [chunk c]) next := by
  obtain ⟨c, hc⟩ : ∃ c, (prologue mem target n)[k]? = some c :=
    ⟨_, List.getElem?_eq_getElem (by rwa [prologue, List.length_map, List.length_range])⟩
  have hpending : self.pending = some c := by
    rw [Relocator.pending, if_neg (by rw [h.inpos, h.outpos]; omega), h.insns, h.outpos, hc]
  let self' : Relocator := { self with outpos := self.outpos + 1 }
  have hw' : Written start (piecesOf cs) self' := ⟨h.written.buffer, h.written.size,
    h.written.pc, h.written.address, h.written.literals, h.written.noted⟩
  obtain ⟨hw, hinput, hinpos, houtpos, hinsns, hout⟩ := hw'.foldl (pieces c)
  rw [← rewrite_eq] at hw hinput hinpos houtpos hinsns hout
  have hfirst := hw'.foldl_first (pieces_ne_nil c)
  rw [← rewrite_eq] at hfirst
  have hlt : self.output.insns.length < (self'.rewrite c).output.insns.length := by
    obtain ⟨i, hi, -⟩ := Option.map_eq_some_iff.mp hfirst
    exact (List.getElem?_eq_some_iff.mp hi).1
  have hpieces : piecesOf (cs ++ [chunk c]) = piecesOf cs ++ pieces c := by
    rw [piecesOf_append]
    exact congrArg _ (List.append_nil _)
  rw [← hpieces] at hw
  have hkept := notes_kept h.written.noted hinsns hout
  refine ⟨c, _, hc, by rw [Relocator.writeOne, hpending, Option.map_some], ?_⟩
  constructor
  case insns => exact (congrArg _ hinput).trans h.insns
  case address => exact (congrArg _ hinput).trans h.address
  case pc => exact (congrArg _ hinput).trans h.pc
  case size => exact (congrArg _ hinput).trans h.size
  case inpos => exact hinpos.trans h.inpos
  case outpos => exact houtpos.trans (congrArg (· + 1) h.outpos)
  case written =>
    refine ⟨hw.buffer, hw.size, hw.pc, hw.address, hw.literals, fun b hb => ?_⟩
    rcases List.mem_append.mp hb with hb | hb
    · exact hw.noted b hb
    · rw [List.mem_singleton.mp hb]
      exact hlt
  case notes =>
    rw [notesFrom_append, ← h.notes, ← hkept, Nat.zero_add]
    refine List.map_append.trans (congrArg _ ?_)
    show [(c.pc, _)] = [(c.pc, some (BitVec.ofNat 64 (4 * (wordsOf (piecesOf cs)).length)))]
    rw [← h.written.size, ← h.written.pc]
    exact congrArg (fun a => [(c.pc, a)]) hfirst

/-- Nothing is left to be written. -/
theorem Building.writeOne_none (h : Building mem target start n n cs self) :
    self.writeOne = none := by
  rw [Relocator.writeOne, Relocator.pending, if_pos (h.inpos.trans h.outpos.symm),
    Option.map_none]

/-- How many instructions there are when reading stops: at least `n`, and no
less than `size` bytes. -/
def insnCount (n size : ℕ) : ℕ := max n ((size + 3) / 4)

/-- **Reading until there is enough.** -/
theorem Building.readUntil (size : ℕ) (h : Building mem target start n k cs self) :
    Building mem target start (insnCount (n + 1) size) k cs (self.readUntil mem size) := by
  induction hd : size - 4 * n using Nat.strong_induction_on generalizing n self with
  | _ d ih => ?_
  have hsize := h.readOne.size
  have hcount : insnCount (n + 1) size
      = if (self.readOne mem).input.size < size then insnCount (n + 1 + 1) size else n + 1 := by
    rw [hsize]
    unfold insnCount
    split <;> omega
  rw [Relocator.readUntil, hcount]
  split
  · exact ih _ (by omega) h.readOne rfl
  · exact h.readOne

theorem getElem?_prologue (mem : Mem) (target : Addr) {i : ℕ} (hi : i < n) :
    (prologue mem target n)[i]?
    = some ⟨target + BitVec.ofNat 64 (4 * i), target + BitVec.ofNat 64 (4 * i), 4,
      mem.read32 (target + BitVec.ofNat 64 (4 * i))⟩ := by
  rw [prologue, List.getElem?_map, List.getElem?_range hi]
  rfl

theorem drop_prologue {c : ARM64Instruction} {m : ℕ} (hk : k < m)
    (hc : (prologue mem target n)[k]? = some c) (hkn : k < n) :
    (prologue mem target m).drop k = c :: (prologue mem target m).drop (k + 1) := by
  rw [getElem?_prologue mem target hkn] at hc
  obtain ⟨hlt, hget⟩ := List.getElem?_eq_some_iff.mp (getElem?_prologue mem target
    hk)
  rw [List.drop_eq_getElem_cons hlt, hget, Option.some.inj hc]

/-- **Writing all that was read.** -/
theorem Building.writeAll_go (fuel : ℕ) (h : Building mem target start n k cs self) (hk : k ≤ n)
    (hfuel : n ≤ k + fuel) :
    Building mem target start n n (cs ++ ((prologue mem target n).drop k).map chunk)
      (Relocator.writeAll.go fuel self) := by
  have hend : k = n → (prologue mem target n).drop k = [] := fun heq =>
    List.drop_eq_nil_of_le (by rw [prologue, List.length_map, List.length_range, heq])
  induction fuel generalizing k cs self with
  | zero =>
    obtain rfl : k = n := by omega
    rw [hend rfl, List.map_nil, List.append_nil]
    exact h
  | succ fuel ih =>
    rcases Nat.lt_or_eq_of_le hk with hlt | rfl
    · obtain ⟨c, next, hc, hnext, hb⟩ := h.writeOne hlt
      have hrest := ih hb hlt (by omega) fun heq =>
        List.drop_eq_nil_of_le (by rw [prologue, List.length_map, List.length_range, heq])
      rw [List.append_assoc] at hrest
      rw [Relocator.writeAll.go, hnext, drop_prologue hlt hc hlt]
      exact hrest
    · rw [Relocator.writeAll.go, h.writeOne_none, hend rfl, List.map_nil, List.append_nil]
      exact h

/-- **Reading and writing by turns.** -/
theorem Building.readWriteUntil (size : ℕ) (h : Building mem target start n n cs self) :
    Building mem target start (insnCount (n + 1) size) (insnCount (n + 1) size)
      (cs ++ ((prologue mem target (insnCount (n + 1) size)).drop n).map chunk)
      (self.readWriteUntil mem size) := by
  induction hd : size - 4 * n using Nat.strong_induction_on generalizing n cs self with
  | _ d ih => ?_
  have hlt : n < insnCount (n + 1) size := Nat.lt_of_lt_of_le n.lt_succ_self (le_max_left _ _)
  obtain ⟨c, next, hc, hnext, hb⟩ := h.readOne.writeOne n.lt_succ_self
  have hstep : (self.readOne mem).writeNext = next := by
    rw [Relocator.writeNext, hnext, Option.getD_some]
  rw [Relocator.readWriteUntil, hstep, h.size, drop_prologue hlt hc n.lt_succ_self]
  split
  · have hcount : insnCount (n + 1) size = insnCount (n + 1 + 1) size := by
      unfold insnCount
      omega
    have hrest := ih _ (by omega) hb rfl
    rw [List.append_assoc, ← hcount] at hrest
    exact hrest
  · have hcount : insnCount (n + 1) size = n + 1 := by
      unfold insnCount
      omega
    rw [hcount, List.drop_eq_nil_of_le
      (by rw [prologue, List.length_map, List.length_range])]
    exact hb

end Building

/-! ## The whole of it -/

/-- **What a trampoline consists of**: the blocks of the instructions, a jump
behind the first one if only this is hooked, and a jump to what is behind them. -/
def plan (hookType : HookType) (onInsnLeaveTrampoline next : Addr)
    (ps : List ARM64Instruction) : List Chunk :=
  (if hookType = .oneInstruction then
    (ps.take 1).map chunk ++ [jumpChunk onInsnLeaveTrampoline] ++ (ps.drop 1).map chunk
  else ps.map chunk) ++ [jumpChunk next]

/-- The number of instructions in the trampoline. -/
def relocatedCount (hookType : HookType) (redirectCodeSize : ℕ) : ℕ :=
  insnCount (if hookType = .oneInstruction then 2 else 1) redirectCodeSize

section BuildInvoke

variable {mem : Mem} {target tempCodeSlice leave : Addr} {relocator : Relocator}

/-- A relocator that begins. -/
theorem building_reset (mem : Mem) (target tempCodeSlice : Addr) (h : relocator.relocatorInsns = []) :
    Building mem target (tempCodeSlice &&& ~~~3#64) 0 0 []
      (relocator.reset (readerReset target) (.reset tempCodeSlice 0#64)) := by
  constructor
  case insns => rfl
  case address => exact (BitVec.add_zero target).symm
  case pc => exact (BitVec.add_zero target).symm
  case size => rfl
  case inpos => rfl
  case outpos => rfl
  case written =>
    refine ⟨rfl, rfl, show 0#64 &&& ~~~3#64 = 0#64 by decide, (BitVec.add_zero _).symm, rfl,
      fun b hb => ?_⟩
    rw [show (relocator.reset _ _).relocatorInsns = relocator.relocatorInsns from rfl, h] at hb
    exact absurd hb List.not_mem_nil
  case notes =>
    show relocator.relocatorInsns.map _ = []
    rw [h, List.map_nil]

/-- **The trampoline is built.** -/
theorem buildInvoke_building (mem : Mem) (target tempCodeSlice leave : Addr)
    (h : relocator.relocatorInsns = []) (redirectCodeSize : ℕ) (hookType : HookType) :
    let n := relocatedCount hookType redirectCodeSize
    Building mem target (tempCodeSlice &&& ~~~3#64) n n
      (plan hookType leave (target + BitVec.ofNat 64 (4 * n)) (prologue mem target n))
      (buildInvoke mem relocator tempCodeSlice target redirectCodeSize hookType leave) := by
  have h₀ := building_reset mem target tempCodeSlice h
  intro n
  by_cases hone : hookType = .oneInstruction
  · obtain ⟨c, next, hc, hnext, hb⟩ := h₀.readOne.writeOne Nat.one_pos
    have hrest := (hb.writeJump leave).readWriteUntil redirectCodeSize
    have hn : insnCount (0 + 1 + 1) redirectCodeSize = n := by
      show _ = relocatedCount hookType redirectCodeSize
      rw [relocatedCount, if_pos hone]
    have htake : (prologue mem target n).take 1 = [c] := by
      have hn1 : 0 < n := by
        rw [← hn]
        exact Nat.lt_of_lt_of_le Nat.two_pos (le_max_left _ _)
      have hdrop := drop_prologue hn1 hc Nat.one_pos
      rw [List.drop_zero] at hdrop
      rw [hdrop]
      rfl
    rw [hn] at hrest
    have hjump := hrest.writeJump (target + BitVec.ofNat 64 (4 * n))
    have hbuild : buildInvoke mem relocator tempCodeSlice target redirectCodeSize hookType leave
        = ((next.write (·.putLdrBrRegAddress x17 leave)).readWriteUntil mem redirectCodeSize).write
          (·.putLdrBrRegAddress x17 (target + BitVec.ofNat 64 (4 * n))) := by
      unfold buildInvoke
      simp only [if_pos hone]
      rw [Relocator.writeNext, hnext, Option.getD_some, hrest.size]
    rw [hbuild, plan, if_pos hone, htake]
    exact hjump
  · have hread := h₀.readUntil redirectCodeSize
    have hn : insnCount (0 + 1) redirectCodeSize = n := by
      show _ = relocatedCount hookType redirectCodeSize
      rw [relocatedCount, if_neg hone]
    rw [hn] at hread
    have hlen : ((relocator.reset (readerReset target) (.reset tempCodeSlice 0#64)).readUntil mem
        redirectCodeSize).input.insns.length = n := by
      rw [hread.insns, prologue, List.length_map, List.length_range]
    have hall := hread.writeAll_go n (Nat.zero_le n) (Nat.zero_add n).ge
    rw [List.drop_zero, List.nil_append] at hall
    have hjump := hall.writeJump (target + BitVec.ofNat 64 (4 * n))
    have hbuild : buildInvoke mem relocator tempCodeSlice target redirectCodeSize hookType leave
        = (Relocator.writeAll.go n ((relocator.reset (readerReset target)
            (.reset tempCodeSlice 0#64)).readUntil mem redirectCodeSize)).write
          (·.putLdrBrRegAddress x17 (target + BitVec.ofNat 64 (4 * n))) := by
      unfold buildInvoke
      simp only [if_neg hone]
      rw [Relocator.writeAll, hlen, hall.size]
    rw [hbuild, plan, if_neg hone]
    exact hjump

end BuildInvoke

/-! ## The literals -/

/-- Where the block that is noted for an address begins, in words. -/
def placeOf (off : ℕ) (v : Addr) : List Chunk → Option ℕ
  | [] => none
  | c :: cs => if c.1 = some v then some off else placeOf (off + (wordsOf c.2).length) v cs

/-- **Where a literal leads in the end**: from strictly inside of what is
overwritten to the block that stands for what was there, and elsewhere to where
it led. -/
def redirect (cs : List Chunk) (target codeSlice : Addr) (size : ℕ) (v : Addr) : Addr :=
  if target < v ∧ v < target + BitVec.ofNat 64 size then
    (placeOf 0 v cs).elim v fun k => codeSlice + BitVec.ofNat 64 (4 * k)
  else v

theorem find?_notesFrom (off : ℕ) (v : Addr) (cs : List Chunk) :
    (notesFrom off cs).find? (fun p => p.1 = v)
      = (placeOf off v cs).map fun k => (v, some (BitVec.ofNat 64 (4 * k))) := by
  induction cs generalizing off with
  | nil => rfl
  | cons c cs ih =>
    obtain ⟨_ | a, xs⟩ := c
    · exact ih _
    · rw [notesFrom, List.find?_cons, placeOf]
      by_cases hav : a = v
      · subst hav
        simp
      · simp [hav, ih]

/-- What is noted has a place. -/
theorem exists_placeOf {v : Addr} {cs : List Chunk} (off : ℕ)
    (h : ∃ c ∈ cs, c.1 = some v) : ∃ k, placeOf off v cs = some k := by
  induction cs generalizing off with
  | nil =>
    obtain ⟨c, hc, -⟩ := h
    exact absurd hc List.not_mem_nil
  | cons c cs ih =>
    rw [placeOf]
    by_cases hc : c.1 = some v
    · exact ⟨off, if_pos hc⟩
    · rw [if_neg hc]
      refine ih _ ?_
      obtain ⟨d, hd, hdv⟩ := h
      rcases List.mem_cons.mp hd with rfl | hd
      · exact absurd hdv hc
      · exact ⟨d, hd, hdv⟩

/-- **A literal is looked up in what is noted.** -/
theorem relocateLiteral_eq (self : Relocator) (target codeSlice v : Addr) :
    self.relocateLiteral target 0#64 codeSlice v =
      if target < v ∧ v < target + BitVec.ofNat 64 self.input.size then
        ((notes self).find? (fun p => p.1 = v)).bind fun p => p.2.map (· - 0#64 + codeSlice)
      else some v := by
  unfold Relocator.relocateLiteral notes Relocator.getRelocatorInsnWithAddress
  rw [List.find?_map, Option.bind_map]
  refine if_congr Iff.rfl (Option.bind_congr fun r _ => ?_) rfl
  show _ = Option.map _ (Option.map _ _)
  rw [Option.map_map]
  rfl

section Literals

variable {mem : Mem} {target codeSlice leave next : Addr} {n : ℕ} {hookType : HookType}

/-- The chunks of a trampoline are blocks of the instructions, and jumps. -/
theorem mem_plan {ps : List ARM64Instruction} {c : Chunk}
    (h : c ∈ plan hookType leave next ps) :
    (∃ p ∈ ps, c = chunk p) ∨ c = jumpChunk leave ∨ c = jumpChunk next := by
  rw [plan] at h
  rcases List.mem_append.mp h with h | h
  · split at h
    · rcases List.mem_append.mp h with h | h
      · rcases List.mem_append.mp h with h | h
        · obtain ⟨p, hp, rfl⟩ := List.mem_map.mp h
          exact .inl ⟨p, List.mem_of_mem_take hp, rfl⟩
        · exact .inr (.inl (List.mem_singleton.mp h))
      · obtain ⟨p, hp, rfl⟩ := List.mem_map.mp h
        exact .inl ⟨p, List.mem_of_mem_drop hp, rfl⟩
    · obtain ⟨p, hp, rfl⟩ := List.mem_map.mp h
      exact .inl ⟨p, hp, rfl⟩
  · exact .inr (.inr (List.mem_singleton.mp h))

/-- Every instruction has its block. -/
theorem chunk_mem_plan {ps : List ARM64Instruction} {p : ARM64Instruction} (hp : p ∈ ps) :
    chunk p ∈ plan hookType leave next ps := by
  rw [plan]
  refine List.mem_append_left _ ?_
  split
  · rw [← List.take_append_drop 1 ps] at hp
    rcases List.mem_append.mp hp with hp | hp
    · exact List.mem_append_left _ (List.mem_append_left _ (List.mem_map_of_mem hp))
    · exact List.mem_append_right _ (List.mem_map_of_mem hp)
  · exact List.mem_map_of_mem hp

/-- **A literal leads whole instructions from the target on.** -/
theorem literal_plan {v : Addr}
    (h : Piece.literal v ∈ piecesOf (plan hookType leave next (prologue mem target n))) :
    ∃ d : Addr, v = target + d ∧ d.toNat % 4 = 0 := by
  obtain ⟨c, hc, hv⟩ := List.mem_flatMap.mp h
  rcases mem_plan hc with ⟨p, hp, rfl⟩ | rfl | rfl
  · obtain ⟨d, rfl, hd⟩ := literal_aligned hv
    obtain ⟨i, -, rfl⟩ := List.mem_map.mp hp
    refine ⟨BitVec.ofNat 64 (4 * i) + d, BitVec.add_assoc _ _ _, ?_⟩
    rw [BitVec.toNat_add, BitVec.toNat_ofNat]
    omega
  all_goals
    simp [jumpChunk] at hv

/-- **Every literal can be replaced**: the `assert` of the relocator does not
fail. -/
theorem relocateLiteral_plan {self : Relocator} {start : Addr}
    (h : Building mem target start n n (plan hookType leave next (prologue mem target n)) self)
    {v : Addr}
    (hv : Piece.literal v ∈ piecesOf (plan hookType leave next (prologue mem target n))) :
    self.relocateLiteral target 0#64 codeSlice v
      = some (redirect (plan hookType leave next (prologue mem target n)) target codeSlice
        (4 * n) v) := by
  rw [relocateLiteral_eq, redirect, h.size, h.notes, find?_notesFrom]
  split
  · rename_i hin
    obtain ⟨d, rfl, hd⟩ := literal_plan hv
    -- what lies strictly inside is one of the instructions
    have hlt : d.toNat / 4 < n := by
      have hlo := BitVec.lt_def.mp hin.1
      have hhi := BitVec.lt_def.mp hin.2
      rw [BitVec.toNat_add] at hlo hhi
      rw [BitVec.toNat_add, BitVec.toNat_ofNat] at hhi
      have := d.isLt
      have := target.isLt
      omega
    have hmem := List.mem_of_getElem? (getElem?_prologue mem target hlt)
    have hoff : BitVec.ofNat 64 (4 * (d.toNat / 4)) = d := by
      rw [show 4 * (d.toNat / 4) = d.toNat by omega, BitVec.ofNat_toNat, BitVec.setWidth_eq]
    obtain ⟨k, hk⟩ : ∃ k, placeOf 0 _ (plan hookType leave next (prologue mem target n)) = some k :=
      exists_placeOf 0 ⟨_, chunk_mem_plan hmem, congrArg (fun x => some (target + x)) hoff⟩
    rw [hk, Option.map_some, Option.bind_some, Option.map_some, Option.elim_some, BitVec.sub_zero,
      BitVec.add_comm]
  · rfl

end Literals

/-! ## What is there in the end -/

/-- The words of a chunk with other literals. -/
def chunkWords (g : Addr → Addr) (c : Chunk) : List Word :=
  addressEncoding.words ((c.2.map Piece.item).map (Item.map g))

theorem words_piecesOf (g : Addr → Addr) (cs : List Chunk) :
    addressEncoding.words (((piecesOf cs).map Piece.item).map (Item.map g))
      = cs.flatMap (chunkWords g) := by
  induction cs with
  | nil => rfl
  | cons c cs ih =>
    rw [piecesOf, List.flatMap_cons, List.flatMap_cons, List.map_append, List.map_append,
      Encoding.words_append, ← ih]
    rfl

theorem length_chunkWords (g : Addr → Addr) (c : Chunk) :
    (chunkWords g c).length = (wordsOf c.2).length := addressEncoding.length_words_map g

/-- **The words of a trampoline.** -/
def invokeWords (g : Addr → Addr) (hookType : HookType) (onInsnLeaveTrampoline next : Addr)
    (ps : List ARM64Instruction) : List Word :=
  (if hookType = .oneInstruction then
    (ps.take 1).flatMap (blockWith g) ++ jumpBlock onInsnLeaveTrampoline
      ++ (ps.drop 1).flatMap (blockWith g)
  else ps.flatMap (blockWith g)) ++ jumpBlock next

/-- Where the block of the `k`-th instruction is, in words: `jumpBlock` is
behind the first one if only this is hooked. -/
def blockStart (g : Addr → Addr) (hookType : HookType) (ps : List ARM64Instruction) (k : ℕ) : ℕ :=
  ((ps.take k).flatMap (blockWith g)).length
    + if hookType = .oneInstruction ∧ 0 < k then 4 else 0

theorem words_plan (g : Addr → Addr) (hookType : HookType) (leave next : Addr)
    (ps : List ARM64Instruction) : (plan hookType leave next ps).flatMap (chunkWords g)
      = invokeWords g hookType leave next ps := by
  have hchunk : ∀ qs : List ARM64Instruction,
      (qs.map chunk).flatMap (chunkWords g) = qs.flatMap (blockWith g) := fun qs =>
    List.flatMap_map chunk (chunkWords g) qs
  have hjump : ∀ v : Addr, [jumpChunk v].flatMap (chunkWords g) = jumpBlock v := fun v => rfl
  rw [plan, invokeWords, List.flatMap_append, hjump]
  split
  · rw [List.flatMap_append, List.flatMap_append, hchunk, hchunk, hjump]
  · rw [hchunk]

/-- No block is longer than nine words. -/
theorem length_blockWith (g : Addr → Addr) (c : ARM64Instruction) :
    (blockWith g c).length ≤ 9 := by
  rw [blockWith_eq]
  split <;> simp [derefBlock, loadBlock, jumpBlock, callBlock, condBlock, addressBytes]

theorem length_flatMap_blockWith (g : Addr → Addr) (ps : List ARM64Instruction) :
    (ps.flatMap (blockWith g)).length ≤ 9 * ps.length := by
  induction ps with
  | nil => exact le_rfl
  | cons c cs ih =>
    have hc := length_blockWith g c
    rw [List.flatMap_cons, List.length_append, List.length_cons]
    omega

/-- **It fits** into the buffer it is built in if no more than four instructions
are overwritten. -/
theorem length_invokeWords (g : Addr → Addr) (hookType : HookType) (leave next : Addr)
    {ps : List ARM64Instruction} (hps : ps.length ≤ 4) :
    4 * (invokeWords g hookType leave next ps).length ≤ 256 := by
  have hall := length_flatMap_blockWith g ps
  have htake := length_flatMap_blockWith g (ps.take 1)
  have hdrop := length_flatMap_blockWith g (ps.drop 1)
  have hjump : ∀ v, (jumpBlock v).length = 4 := fun v => rfl
  rw [List.length_take] at htake
  rw [List.length_drop] at hdrop
  rw [invokeWords, List.length_append, hjump]
  split
  · rw [List.length_append, List.length_append, hjump]
    omega
  · omega

/-- A place behind chunks that are not noted for the address. -/
theorem placeOf_append {v : Addr} {cs : List Chunk} (off : ℕ) (ds : List Chunk)
    (h : ∀ c ∈ cs, c.1 ≠ some v) :
    placeOf off v (cs ++ ds) = placeOf (off + (wordsOf (piecesOf cs)).length) v ds := by
  induction cs generalizing off with
  | nil => rfl
  | cons c cs ih =>
    have hlen : (wordsOf (piecesOf (c :: cs))).length
        = (wordsOf c.2).length + (wordsOf (piecesOf cs)).length := by
      rw [piecesOf, List.flatMap_cons, wordsOf_append, List.length_append]
      rfl
    rw [List.cons_append, placeOf, if_neg (h c List.mem_cons_self), hlen, ← Nat.add_assoc]
    exact ih _ fun d hd => h d (List.mem_cons_of_mem c hd)


/-- The chunks before the block of the `k`-th instruction. -/
def chunksBefore (hookType : HookType) (leave : Addr) (ps : List ARM64Instruction) (k : ℕ) :
    List Chunk :=
  if hookType = .oneInstruction ∧ 0 < k then
    (ps.take 1).map chunk ++ [jumpChunk leave] ++ ((ps.take k).drop 1).map chunk
  else (ps.take k).map chunk

/-- The chunks behind it. -/
def chunksBehind (hookType : HookType) (leave next : Addr) (ps : List ARM64Instruction) (k : ℕ) :
    List Chunk :=
  (if hookType = .oneInstruction ∧ k = 0 then [jumpChunk leave] else [])
    ++ (ps.drop (k + 1)).map chunk ++ [jumpChunk next]

section Places

variable {g : Addr → Addr} {hookType : HookType} {leave next : Addr}
  {ps : List ARM64Instruction} {c : ARM64Instruction} {k : ℕ}

/-- **Where a block is among the chunks.** -/
theorem plan_eq (hc : ps[k]? = some c) : plan hookType leave next ps
    = chunksBefore hookType leave ps k ++ (chunk c :: chunksBehind hookType leave next ps k) := by
  obtain ⟨hk, hget⟩ := List.getElem?_eq_some_iff.mp hc
  have hdrop : ps.drop k = c :: ps.drop (k + 1) := by
    rw [List.drop_eq_getElem_cons hk, hget]
  have hps : ps = ps.take k ++ c :: ps.drop (k + 1) := by
    rw [← hdrop, List.take_append_drop]
  unfold plan chunksBefore chunksBehind
  by_cases hone : hookType = .oneInstruction
  · rcases Nat.eq_zero_or_pos k with rfl | hpos
    · have htake : ps.take 1 = [c] := by
        rw [List.drop_zero] at hdrop
        rw [hdrop]
        rfl
      simp [hone, htake]
    · have hrest : ps.drop 1 = (ps.take k).drop 1 ++ c :: ps.drop (k + 1) := by
        nth_rewrite 1 [hps]
        rw [List.drop_append_of_le_length (by rw [List.length_take]; omega)]
      have hne : ¬ (hookType = .oneInstruction ∧ k = 0) := fun h => by omega
      rw [if_pos hone, if_pos ⟨hone, hpos⟩, if_neg hne, hrest]
      simp
  · rw [if_neg hone, if_neg (fun h => hone h.1), if_neg (fun h => hone h.1)]
    nth_rewrite 1 [hps]
    simp

theorem length_chunksBefore :
    ((chunksBefore hookType leave ps k).flatMap (chunkWords g)).length
      = blockStart g hookType ps k := by
  have hchunk : ∀ qs : List ARM64Instruction,
      (qs.map chunk).flatMap (chunkWords g) = qs.flatMap (blockWith g) := fun qs =>
    List.flatMap_map chunk (chunkWords g) qs
  unfold chunksBefore blockStart
  split
  · rename_i h
    have htake := List.take_append_drop 1 (ps.take k)
    rw [List.take_take, Nat.min_eq_left (show 1 ≤ k from h.2)] at htake
    conv_rhs => rw [← htake]
    rw [List.flatMap_append, List.flatMap_append, List.flatMap_append, hchunk, hchunk,
      List.length_append, List.length_append, List.length_append]
    show _ + 4 + _ = _
    omega
  · rw [hchunk, Nat.add_zero]

theorem length_wordsOf_piecesOf (g : Addr → Addr) (cs : List Chunk) :
    (wordsOf (piecesOf cs)).length = (cs.flatMap (chunkWords g)).length := by
  rw [← words_piecesOf, Encoding.length_words_map]
  rfl

end Places

/-- **The literals are replaced** where they are noted. -/
theorem Building.relocateWriter_eq {mem : Mem} {target start leave next codeSlice : Addr} {n : ℕ}
    {hookType : HookType} {self : Relocator}
    (h : Building mem target start n n (plan hookType leave next (prologue mem target n)) self)
    (hlen : 4 * (wordsOf (piecesOf (plan hookType leave next (prologue mem target n)))).length
      < 2 ^ 64) :
    self.relocateWriter target 0#64 start codeSlice
      = some ((plan hookType leave next (prologue mem target n)).flatMap (chunkWords
          (redirect (plan hookType leave next (prologue mem target n)) target codeSlice
            (4 * n)))) := by
  let items := (piecesOf (plan hookType leave next (prologue mem target n))).map Piece.item
  have hpos : self.literalInsns.map (fun l => (l.address - start).toNat / 4)
      = addressEncoding.positions 0 items := by
    have hmap := congrArg (List.map fun a : Addr => (a - start).toNat / 4) h.written.literals
    rw [List.map_map, List.map_map] at hmap
    refine hmap.trans ((List.map_congr_left fun i hi => ?_).trans (List.map_id _))
    have hle := addressEncoding.positions_le hi
    show (start + BitVec.ofNat 64 (4 * i) - start).toNat / 4 = i
    rw [BitVec.add_comm, BitVec.add_sub_cancel, BitVec.toNat_ofNat, Nat.mod_eq_of_lt]
    · omega
    · rw [Nat.zero_add] at hle
      exact lt_of_le_of_lt (Nat.mul_le_mul_left 4 hle) hlen
  have hlits : ∀ v, Item.literal v ∈ items → self.relocateLiteral target 0#64 codeSlice v
      = some (redirect (plan hookType leave next (prologue mem target n)) target codeSlice (4 * n)
        v) := by
    intro v hv
    obtain ⟨x, hx, hxv⟩ := List.mem_map.mp hv
    refine relocateLiteral_plan h ?_
    cases x with
    | literal w => exact Item.literal.inj hxv ▸ hx
    | insn w => cases hxv
    | data ws => cases hxv
  have hfold := addressEncoding.foldlM_patch [] hlits
  rw [List.nil_append, List.nil_append, words_piecesOf, List.length_nil, ← hpos,
    List.foldlM_map] at hfold
  rw [Relocator.relocateWriter, h.written.buffer]
  exact hfold

/-- **The block of the second instruction** is noted behind the jump. -/
theorem Building.nextInsn {mem : Mem} {target start leave next codeSlice : Addr} {n : ℕ}
    {hookType : HookType} {self : Relocator}
    (h : Building mem target start n n (plan hookType leave next (prologue mem target n)) self)
    (hn : 2 ≤ n) (hone : hookType = .oneInstruction) (g : Addr → Addr) :
    (self.relocatorInsns[1]?.bind fun r => self.output.insns[r.relocatedInsns]?.map fun insn =>
        insn.pc - 0#64 + codeSlice)
      = some (codeSlice + BitVec.ofNat 64 (4 * blockStart g hookType (prologue mem target n) 1)) := by
  have hnotes : (Arm64.notes self)[1]? = self.relocatorInsns[1]?.map fun r =>
      (r.originInsn.pc, self.output.insns[r.relocatedInsns]?.map (·.pc)) := List.getElem?_map
  obtain ⟨c₀, cs, hps, c₁, ds, rfl⟩ : ∃ c₀ cs, prologue mem target n = c₀ :: cs
      ∧ ∃ c₁ ds, cs = c₁ :: ds := by
    have h₀ := getElem?_prologue mem target (show 0 < n by omega)
    have h₁ := getElem?_prologue mem target (show 1 < n by omega)
    cases hps : prologue mem target n with
    | nil =>
      rw [hps] at h₀
      cases h₀
    | cons c₀ cs =>
      cases cs with
      | nil =>
        rw [hps] at h₁
        cases h₁
      | cons c₁ ds => exact ⟨c₀, c₁ :: ds, rfl, c₁, ds, rfl⟩
  have hsecond : (notesFrom 0 (plan hookType leave next (prologue mem target n)))[1]?
      = some (c₁.pc, some (BitVec.ofNat 64 (4 * ((wordsOf (pieces c₀)).length + 4)))) := by
    rw [hps, plan, if_pos hone, ← Nat.zero_add (wordsOf (pieces c₀)).length]
    rfl
  have hstart : blockStart g hookType (prologue mem target n) 1
      = (wordsOf (pieces c₀)).length + 4 := by
    rw [blockStart, if_pos ⟨hone, Nat.one_pos⟩, hps]
    refine congrArg (· + 4) ?_
    rw [List.take_succ_cons, List.take_zero, List.flatMap_singleton]
    exact length_chunkWords g (chunk c₀)
  rw [h.notes, hsecond] at hnotes
  obtain ⟨r, hr, hpc⟩ := Option.map_eq_some_iff.mp hnotes.symm
  obtain ⟨insn, hinsn, hpc⟩ := Option.map_eq_some_iff.mp (congrArg Prod.snd hpc)
  rw [hr, Option.bind_some, hinsn, Option.map_some, hpc, hstart, BitVec.sub_zero, BitVec.add_comm]

section Spec

variable {mem : Mem} {target tempCodeSlice leave codeSlice : Addr} {relocator : Relocator}
  {n : ℕ} {hookType : HookType}

theorem add_ofNat_inj {a : Addr} {i j : ℕ} (hi : 4 * i < 2 ^ 64) (hj : 4 * j < 2 ^ 64)
    (h : a + BitVec.ofNat 64 (4 * i) = a + BitVec.ofNat 64 (4 * j)) : i = j := by
  have heq := congrArg (fun x => (x - a).toNat) h
  simp only [BitVec.add_comm a, BitVec.add_sub_cancel] at heq
  rw [BitVec.toNat_ofNat, BitVec.toNat_ofNat, Nat.mod_eq_of_lt hi, Nat.mod_eq_of_lt hj] at heq
  omega

/-- **The place of a block** is found by the address of the instruction. -/
theorem placeOf_plan (g : Addr → Addr) (next : Addr) {k : ℕ} (hk : k < n) (hn : 4 * n ≤ 2 ^ 64) :
    placeOf 0 (target + BitVec.ofNat 64 (4 * k))
        (plan hookType leave next (prologue mem target n))
      = some (blockStart g hookType (prologue mem target n) k) := by
  have hbefore : ∀ c ∈ chunksBefore hookType leave (prologue mem target n) k,
      c.1 ≠ some (target + BitVec.ofNat 64 (4 * k)) := by
    have htake : ∀ p ∈ (prologue mem target n).take k,
        p.pc ≠ target + BitVec.ofNat 64 (4 * k) := by
      intro p hp heq
      rw [prologue, ← List.map_take, List.take_range] at hp
      obtain ⟨i, hi, rfl⟩ := List.mem_map.mp hp
      have hik := List.mem_range.mp hi
      have := add_ofNat_inj (by omega) (by omega) heq
      omega
    intro c hc
    have hcases : (∃ p ∈ (prologue mem target n).take k, c = chunk p) ∨ c = jumpChunk leave := by
      unfold chunksBefore at hc
      split at hc
      · rename_i h
        rcases List.mem_append.mp hc with hc | hc
        · rcases List.mem_append.mp hc with hc | hc
          · obtain ⟨p, hp, rfl⟩ := List.mem_map.mp hc
            exact .inl ⟨p, List.take_subset_take_left _ h.2 hp, rfl⟩
          · exact .inr (List.mem_singleton.mp hc)
        · obtain ⟨p, hp, rfl⟩ := List.mem_map.mp hc
          exact .inl ⟨p, List.mem_of_mem_drop hp, rfl⟩
      · obtain ⟨p, hp, rfl⟩ := List.mem_map.mp hc
        exact .inl ⟨p, hp, rfl⟩
    rcases hcases with ⟨p, hp, rfl⟩ | rfl
    · exact fun h => htake p hp (Option.some.inj h)
    · exact fun h => Option.some_ne_none _ h.symm
  rw [plan_eq (getElem?_prologue mem target hk), placeOf_append 0 _ hbefore, placeOf,
    if_pos (show (chunk _).1 = some _ from rfl), Nat.zero_add, length_wordsOf_piecesOf g, length_chunksBefore]

/-- **The trampoline that is put into place** consists of the blocks of the
overwritten instructions and a jump behind them, with the literals that lead
strictly inside of what is overwritten leading to the blocks. It is never longer
than the buffer it is built in. A hook of one instruction goes on with the block
of the next one. -/
theorem buildInvokeTrampoline_spec (mem : Mem) (relocator : Relocator)
    (tempCodeSlice target leave codeSlice : Addr) {redirectCodeSize : ℕ} (hookType : HookType)
    (h : relocator.relocatorInsns = []) (hsize : redirectCodeSize ≤ 16) :
    let n := relocatedCount hookType redirectCodeSize
    let ps := prologue mem target n
    let next := target + BitVec.ofNat 64 (4 * n)
    let g := redirect (plan hookType leave next ps) target codeSlice (4 * n)
    buildInvokeTrampoline mem relocator tempCodeSlice target redirectCodeSize hookType leave
        codeSlice
      = some (invokeWords g hookType leave next ps,
          if hookType = .oneInstruction then
            some (codeSlice + BitVec.ofNat 64 (4 * blockStart g hookType ps 1))
          else none)
      ∧ 4 * (invokeWords g hookType leave next ps).length ≤ 256
      ∧ (∀ v, ¬ (target < v ∧ v < next) → g v = v)
      ∧ ∀ k < n, target < target + BitVec.ofNat 64 (4 * k) →
          target + BitVec.ofNat 64 (4 * k) < next →
          g (target + BitVec.ofNat 64 (4 * k))
            = codeSlice + BitVec.ofNat 64 (4 * blockStart g hookType ps k) := by
  intro n ps next g
  have hn : n ≤ 4 := by
    show max _ _ ≤ 4
    split <;> omega
  have hlen : ps.length = n := by
    show (prologue mem target n).length = n
    rw [prologue, List.length_map, List.length_range]
  have hb := buildInvoke_building mem target tempCodeSlice leave h redirectCodeSize hookType
  have hlenWords := length_invokeWords g hookType leave next (hlen.trans_le hn)
  refine ⟨?_, hlenWords, fun v hv => if_neg hv, fun k hk hlo hhi => ?_⟩
  · have hlt : 4 * (wordsOf (piecesOf (plan hookType leave next ps))).length < 2 ^ 64 := by
      rw [length_wordsOf_piecesOf g, words_plan]
      exact lt_of_le_of_lt hlenWords (by decide)
    rw [buildInvokeTrampoline, hb.relocateWriter_eq hlt, Option.map_some, words_plan]
    refine congrArg some (congrArg (Prod.mk _) ?_)
    by_cases hone : hookType = .oneInstruction
    · have h2 : 2 ≤ n := by
        show 2 ≤ max _ _
        rw [if_pos hone]
        exact le_max_left _ _
      rw [if_pos hone, if_pos hone]
      exact hb.nextInsn h2 hone g
    · rw [if_neg hone, if_neg hone]
  · show redirect _ _ _ _ _ = _
    rw [redirect, if_pos ⟨hlo, hhi⟩, placeOf_plan g next hk (by omega), Option.elim_some]

/-- A hook of the one instruction at `0x1000`. -/
theorem buildInvokeTrampoline_spec_one : ∃ ws next,
    buildInvokeTrampoline (fun _ => 0#8) (.init (readerReset 0#64) (.reset 0#64 0#64)) 0#64
        0x1000#64 4 .oneInstruction 0x3000#64 0x2000#64 = some (ws, some next)
      ∧ 4 * ws.length ≤ 256 := by
  obtain ⟨h, hlen, -⟩ := buildInvokeTrampoline_spec (fun _ => 0#8)
    (.init (readerReset 0#64) (.reset 0#64 0#64)) 0#64 0x1000#64 0x3000#64 0x2000#64
    .oneInstruction rfl (show 4 ≤ 16 by decide)
  exact ⟨_, _, h, hlen⟩

end Spec

end HookZz.Arm64
