import AndroidReverse.HookZzCode

/-!
# Whole prologues

A trampoline reads instructions from its target until it has read as many bytes
as a jump takes, and the relocator then writes their blocks one after the
other. Both loops have a closed form: what has been read is determined by the
number of turns (`readerAfter`), and what is written is one list of pieces, the
blocks put together (`writeAll_eq`), together with the records that say where
each block begins and ends.

The two instruction sets go through the same loops with their own functions, so
everything here is for either of them.
-/

namespace HookZz

open Arm Relocate Relocator

/-! ## Reading -/

section Read

variable (thumb : Bool) (mem : Mem)

/-- The instruction at an address. -/
def insnAt (addr : Word) : ARMInstruction :=
  if thumb then thumbInsnAt mem addr else armInsnAt mem addr

/-- How far the program counter is ahead. -/
def pcBias : Word := if thumb then 4#32 else 8#32

/-- The `read_one` of an instruction set. -/
def readOne (self : Relocator) : Relocator :=
  if thumb then self.thumbReadOne mem else self.armReadOne mem

/-- The `reader_reset` of an instruction set. -/
def readerReset (addr : Word) : ARMReader :=
  if thumb then thumbReaderReset addr else armReaderReset addr

/-- The loop that reads until `redirectCodeSize` bytes have been read: at least
one instruction. The first argument bounds the number of turns. -/
def readUntil (redirectCodeSize : ℕ) : ℕ → Relocator → Relocator
  | 0, self => self
  | turns + 1, self =>
    let r := readOne thumb mem self
    if r.input.size < redirectCodeSize then readUntil redirectCodeSize turns r else r

/-- **The first `n` instructions** from an address on. -/
def insnsAt : Word → ℕ → List ARMInstruction
  | _, 0 => []
  | addr, n + 1 => insnAt thumb mem addr
      :: insnsAt (addr + BitVec.ofNat 32 (insnAt thumb mem addr).size) n

/-- The bytes they take. -/
def insnsSize (cs : List ARMInstruction) : ℕ := (cs.map ARMInstruction.size).sum

/-- **A reader that has read `n` instructions** from an address on. -/
def readerAfter (addr : Word) (n : ℕ) : ARMReader where
  insns := insnsAt thumb mem addr n
  rStartAddress := addr
  rCurrentAddress := addr + BitVec.ofNat 32 (insnsSize (insnsAt thumb mem addr n))
  startPc := addr + pcBias thumb
  currentPc := addr + pcBias thumb + BitVec.ofNat 32 (insnsSize (insnsAt thumb mem addr n))
  size := insnsSize (insnsAt thumb mem addr n)

variable {thumb mem}

theorem insnAt_size (addr : Word) :
    2 ≤ (insnAt thumb mem addr).size ∧ (insnAt thumb mem addr).size ≤ 4
      ∧ (insnAt thumb mem addr).size % 2 = 0 := by
  cases thumb with
  | false =>
    have h : (insnAt false mem addr).size = 4 := rfl
    rw [h]
    exact ⟨by decide, by decide, by decide⟩
  | true =>
    have h : (insnAt true mem addr).size = if isThumb32 (mem.read16 addr) then 4 else 2 :=
      thumbInsnAt_size mem addr
    rw [h]
    split <;> exact ⟨by decide, by decide, by decide⟩

theorem insnAt_pc (addr : Word) : (insnAt thumb mem addr).pc = addr + pcBias thumb := by
  cases thumb with
  | false => rfl
  | true => exact thumbInsnAt_pc mem addr

theorem insnAt_address (addr : Word) : (insnAt thumb mem addr).address = addr := by
  cases thumb with
  | false => rfl
  | true => exact thumbInsnAt_address mem addr

theorem insnsSize_cons (c : ARMInstruction) (cs : List ARMInstruction) :
    insnsSize (c :: cs) = c.size + insnsSize cs := List.sum_cons

theorem insnsSize_append (cs cs' : List ARMInstruction) :
    insnsSize (cs ++ cs') = insnsSize cs + insnsSize cs' := by
  rw [insnsSize, List.map_append, List.sum_append]
  rfl

/-- One instruction more. -/
theorem insnsAt_succ (addr : Word) (n : ℕ) :
    insnsAt thumb mem addr (n + 1) = insnsAt thumb mem addr n
      ++ [insnAt thumb mem (addr + BitVec.ofNat 32 (insnsSize (insnsAt thumb mem addr n)))] := by
  induction n generalizing addr with
  | zero => exact congrArg (fun a => [insnAt thumb mem a]) (BitVec.add_zero addr).symm
  | succ n ih =>
    rw [insnsAt, ih, insnsAt, List.cons_append]
    congr 4
    rw [insnsSize_cons, BitVec.add_assoc, ← BitVec.ofNat_add]

theorem insnsAt_length (addr : Word) (n : ℕ) : (insnsAt thumb mem addr n).length = n := by
  induction n generalizing addr with
  | zero => rfl
  | succ n ih => rw [insnsAt, List.length_cons, ih]

/-- Two or four bytes each. -/
theorem insnsSize_bounds (addr : Word) (n : ℕ) :
    2 * n ≤ insnsSize (insnsAt thumb mem addr n) ∧ insnsSize (insnsAt thumb mem addr n) ≤ 4 * n
      ∧ insnsSize (insnsAt thumb mem addr n) % 2 = 0 := by
  induction n with
  | zero => exact ⟨Nat.zero_le _, Nat.zero_le _, rfl⟩
  | succ n ih =>
    rw [insnsAt_succ, insnsSize_append]
    have h := @insnAt_size thumb mem
      (addr + BitVec.ofNat 32 (insnsSize (insnsAt thumb mem addr n)))
    rw [show insnsSize [insnAt thumb mem _] = (insnAt thumb mem _).size from List.sum_singleton]
    omega

/-- How many instructions are read: all but the last are below the bound. -/
theorem insnsAt_count {addr : Word} {redirectCodeSize n : ℕ} (hsize : redirectCodeSize ≤ 256)
    (hmin : ∀ m, 0 < m → m < n → insnsSize (insnsAt thumb mem addr m) < redirectCodeSize) :
    n ≤ 129 := by
  by_contra hlt
  have hge := (@insnsSize_bounds thumb mem addr (n - 1)).1
  have hless := hmin (n - 1) (by omega) (by omega)
  omega

theorem readerAfter_zero (addr : Word) : readerAfter thumb mem addr 0 = readerReset thumb addr := by
  cases thumb <;> unfold readerAfter readerReset <;>
    simp only [insnsAt, insnsSize, List.map_nil, List.sum_nil, BitVec.add_zero] <;> rfl

/-- **Reading one more instruction.** -/
theorem readOne_eq {self : Relocator} {addr : Word} {n : ℕ}
    (h : self.input = readerAfter thumb mem addr n) :
    readOne thumb mem self
      = { self with input := readerAfter thumb mem addr (n + 1), inpos := self.inpos + 1 } := by
  have hinsn : ∀ (thumb : Bool) (r : ARMReader), r.currentPc = r.rCurrentAddress + pcBias thumb →
      (if thumb then thumbReaderInsn mem r else armReaderInsn mem r)
        = insnAt thumb mem r.rCurrentAddress := by
    intro thumb r hr
    cases thumb with
    | false =>
      show armReaderInsn mem r = armReaderInsn mem (armReaderReset r.rCurrentAddress)
      unfold armReaderInsn
      rw [hr]
      rfl
    | true =>
      show thumbReaderInsn mem r = thumbReaderInsn mem (thumbReaderReset r.rCurrentAddress)
      unfold thumbReaderInsn
      rw [hr]
      rfl
  have hpc : (readerAfter thumb mem addr n).currentPc
      = (readerAfter thumb mem addr n).rCurrentAddress + pcBias thumb := by
    show addr + _ + _ = addr + _ + _
    rw [BitVec.add_assoc, BitVec.add_comm (pcBias thumb), ← BitVec.add_assoc]
  have hpush : (readerAfter thumb mem addr n).push
      (insnAt thumb mem (readerAfter thumb mem addr n).rCurrentAddress)
        = readerAfter thumb mem addr (n + 1) := by
    unfold readerAfter ARMReader.push
    simp only [insnsAt_succ, insnsSize_append, BitVec.ofNat_add, ← BitVec.add_assoc]
    rfl
  rw [← hpush, ← hinsn thumb _ hpc, ← h]
  cases thumb <;> rfl

/-- **What the loop reads**: whole instructions, as many as it takes. -/
theorem readUntil_eq {redirectCodeSize : ℕ} {addr : Word} {turns k : ℕ} {self : Relocator}
    (h : self.input = readerAfter thumb mem addr k) (hturns : redirectCodeSize ≤ turns + k)
    (hpos : 0 < turns) :
    ∃ n, k < n ∧ readUntil thumb mem redirectCodeSize turns self
        = { self with input := readerAfter thumb mem addr n, inpos := self.inpos + (n - k) }
      ∧ redirectCodeSize ≤ insnsSize (insnsAt thumb mem addr n)
      ∧ ∀ m, k < m → m < n → insnsSize (insnsAt thumb mem addr m) < redirectCodeSize := by
  induction turns generalizing k self with
  | zero => exact absurd hpos (Nat.lt_irrefl 0)
  | succ turns ih =>
    rw [readUntil, readOne_eq h]
    have hsize := (@insnsSize_bounds thumb mem addr (k + 1)).1
    by_cases hlt : insnsSize (insnsAt thumb mem addr (k + 1)) < redirectCodeSize
    · obtain ⟨n, hn, he, hle, hmin⟩ := @ih (k + 1)
        { self with input := readerAfter thumb mem addr (k + 1), inpos := self.inpos + 1 }
        rfl (by omega) (by omega)
      refine ⟨n, by omega, ?_, hle, fun m hm hmn => ?_⟩
      · refine (if_pos hlt).trans (he.trans ?_)
        simp only
        rw [Nat.add_assoc, show 1 + (n - (k + 1)) = n - k by omega]
      · by_cases hmk : m = k + 1
        · rw [hmk]
          exact hlt
        · exact hmin m (by omega) hmn
    · refine ⟨k + 1, Nat.lt_succ_self k, ?_, Nat.not_lt.mp hlt, fun m hm hmn => by omega⟩
      refine (if_neg hlt).trans ?_
      rw [Nat.add_sub_cancel_left]

end Read

/-! ## Writing -/

section Write

variable (thumb : Bool)

/-- The block of an instruction, written behind what a writer has written. -/
def blockItems (w : AssemblerWriter) (c : ARMInstruction) : List Item :=
  if thumb then thumbItems w.offWord c else armItems c

/-- The size that is recorded of it. -/
def blockSize (is : List Item) : ℕ :=
  if thumb then 0 else AssemblerWriter.bytesOf (is.map Item.emission)

/-- The `write_one` of an instruction set. -/
def writeOne (self : Relocator) : Option Relocator :=
  if thumb then self.thumbWriteOne else self.armWriteOne

/-- The `write_all` of an instruction set. -/
def writeAll (self : Relocator) : Relocator :=
  if thumb then self.thumbWriteAll else self.armWriteAll

/-- **The blocks of a list of instructions**, put together. -/
def prologueItems : AssemblerWriter → List ARMInstruction → List Item
  | _, [] => []
  | w, c :: cs => blockItems thumb w c
      ++ prologueItems (w.emit ((blockItems thumb w c).map Item.emission)) cs

/-- **Their records**, from an emission on. -/
def prologueRecords : AssemblerWriter → ℕ → List ARMInstruction → List RelocatorInstruction
  | _, _, [] => []
  | w, start, c :: cs =>
    blockRecord c start (blockItems thumb w c).length (blockSize thumb (blockItems thumb w c))
      :: prologueRecords (w.emit ((blockItems thumb w c).map Item.emission))
        (start + (blockItems thumb w c).length) cs

/-- **A relocator that has written the blocks of a list of instructions.** -/
def writeBlocks (self : Relocator) (cs : List ARMInstruction) : Relocator :=
  { self.items (prologueItems thumb self.output cs) with
    outpos := self.outpos + cs.length
    relocatorInsns := self.relocatorInsns
      ++ prologueRecords thumb self.output self.output.insns.length cs }

variable {thumb}

/-- What a writer of an instruction set needs: a Thumb writer is at a
halfword. -/
def WriterFits (thumb : Bool) (w : AssemblerWriter) : Prop :=
  thumb = true → w.currentPc.toNat % 2 = 0

theorem WriterFits.emit {w : AssemblerWriter} (h : WriterFits thumb w) (es : List Emission) :
    WriterFits thumb (w.emit es) :=
  fun ht => AssemblerWriter.even_emit w (h ht) es

theorem writeOne_eq {self : Relocator} {c : ARMInstruction} (hw : WriterFits thumb self.output)
    (hne : self.inpos ≠ self.outpos) (hc : self.input.insns[self.outpos]? = some c) :
    writeOne thumb self
      = some (self.writeBlock c (blockItems thumb self.output c)
          (blockSize thumb (blockItems thumb self.output c))) := by
  cases thumb with
  | false => exact armWriteOne_eq hne hc
  | true => exact thumbWriteOne_eq hne hc (hw rfl)

/-- A block first and the others behind it. -/
theorem writeBlocks_cons (self : Relocator) (c : ARMInstruction) (cs : List ARMInstruction) :
    writeBlocks thumb (self.writeBlock c (blockItems thumb self.output c)
        (blockSize thumb (blockItems thumb self.output c))) cs
      = writeBlocks thumb self (c :: cs) := by
  have hout : (self.writeBlock c (blockItems thumb self.output c)
      (blockSize thumb (blockItems thumb self.output c))).output
        = self.output.emit ((blockItems thumb self.output c).map Item.emission) :=
    items_output self _
  have hlen : (self.output.emit ((blockItems thumb self.output c).map Item.emission)).insns.length
      = self.output.insns.length + (blockItems thumb self.output c).length := by
    rw [← items_output, length_items]
  unfold writeBlocks
  rw [hout, hlen, prologueItems, prologueRecords, items_append, List.length_cons]
  simp only [items_eq, writeBlock, List.append_assoc, List.singleton_append, Nat.add_assoc,
    Nat.add_comm 1]

/-- **The loop writes the blocks.** -/
theorem writeLoop_eq {self : Relocator} {pre cs : List ARMInstruction}
    (hw : WriterFits thumb self.output) (hin : self.input.insns = pre ++ cs)
    (hout : self.outpos = pre.length) (hpos : self.inpos = pre.length + cs.length) :
    writeLoop (writeOne thumb) cs.length self = writeBlocks thumb self cs := by
  induction cs generalizing self pre with
  | nil =>
    unfold writeBlocks
    simp [writeLoop, prologueItems, prologueRecords, items]
  | cons c cs ih =>
    have hc : self.input.insns[self.outpos]? = some c := by
      rw [hin, hout, List.getElem?_append_right (Nat.le_refl _), Nat.sub_self]
      rfl
    have hne : self.inpos ≠ self.outpos := by
      rw [hpos, hout, List.length_cons]
      omega
    rw [List.length_cons, writeLoop, writeOne_eq hw hne hc, ← writeBlocks_cons]
    refine @ih _ (pre ++ [c]) ?_ ?_ ?_ ?_
    · have hfit := hw.emit ((blockItems thumb self.output c).map Item.emission)
      rwa [← items_output] at hfit
    · rw [List.append_assoc, List.singleton_append, ← hin, writeBlock]
      simp only [items_eq]
    · rw [List.length_append, List.length_singleton, ← hout]
      rfl
    · rw [List.length_append, List.length_singleton, Nat.add_assoc, Nat.add_comm 1,
        ← List.length_cons, ← hpos, writeBlock]
      simp only [items_eq]

/-- **Everything that has been read is written.** -/
theorem writeAll_eq {self : Relocator} (hw : WriterFits thumb self.output)
    (hout : self.outpos = 0) (hpos : self.inpos = self.input.insns.length) :
    writeAll thumb self = writeBlocks thumb self self.input.insns := by
  have h := @writeLoop_eq _ _ [] _ hw (List.nil_append _).symm hout
    (by rw [hpos, List.length_nil, Nat.zero_add])
  have hturns : self.inpos - self.outpos = self.input.insns.length := by
    rw [hpos, hout, Nat.sub_zero]
  rw [← h, ← hturns]
  cases thumb <;> rfl

/-! ## The records -/

/-- **Ranges that are consecutive**, from one emission to another. -/
def Consecutive : ℕ → ℕ → List RelocatorInstruction → Prop
  | start, stop, [] => start = stop
  | start, stop, b :: bs => b.outputIndexStart = start ∧ start ≤ b.ouputIndexEnd
      ∧ Consecutive b.ouputIndexEnd stop bs

theorem prologueRecords_consecutive (w : AssemblerWriter) (start : ℕ) (cs : List ARMInstruction) :
    Consecutive start (start + (prologueItems thumb w cs).length)
      (prologueRecords thumb w start cs) := by
  induction cs generalizing w start with
  | nil => rfl
  | cons c cs ih =>
    have h := ih (w.emit ((blockItems thumb w c).map Item.emission))
      (start + (blockItems thumb w c).length)
    rw [Nat.add_assoc, ← List.length_append] at h
    exact ⟨rfl, Nat.le_add_right _ _, h⟩

/-- One record for each instruction, in order. -/
theorem prologueRecords_origin (w : AssemblerWriter) (start : ℕ) (cs : List ARMInstruction) :
    (prologueRecords thumb w start cs).map RelocatorInstruction.originInsn = cs := by
  induction cs generalizing w start with
  | nil => rfl
  | cons c cs ih => exact congrArg (c :: ·) (ih _ _)

/-- What a record points to is where its range begins, among the emissions of
the blocks. -/
theorem mem_prologueRecords {w : AssemblerWriter} {start : ℕ} {cs : List ARMInstruction}
    {b : RelocatorInstruction} (h : b ∈ prologueRecords thumb w start cs) :
    b.relocatedInsns = b.outputIndexStart
      ∧ b.outputIndexStart ≤ start + (prologueItems thumb w cs).length := by
  induction cs generalizing w start with
  | nil => cases h
  | cons c cs ih =>
    rcases List.mem_cons.mp h with rfl | h
    · exact ⟨rfl, Nat.le_add_right _ _⟩
    · obtain ⟨he, hle⟩ := ih h
      refine ⟨he, hle.trans (le_of_eq ?_)⟩
      rw [prologueItems, List.length_append, Nat.add_assoc]

end Write

/-! ## The code of a trampoline -/

section Invoke

variable (thumb : Bool) (mem : Mem)

/-- The `writer_reset` of an instruction set. -/
def writerReset (dataPtr targetPtr : Word) : AssemblerWriter :=
  if thumb then AssemblerWriter.thumbReset dataPtr targetPtr
  else AssemblerWriter.armReset dataPtr targetPtr

/-- The `put_ldr_reg_address` of an instruction set, for the program
counter. -/
def putLdrPc (address : Word) (w : AssemblerWriter) : AssemblerWriter :=
  if thumb then w.thumbPutLdrRegAddress PC address else w.armPutLdrRegAddress PC address

/-- **The code of the invoke trampoline** of a function or of an instrumented
instruction: what `ZzBuildInvokeTrampoline` has written when it hands the
relocator on. The prologue is relocated and a jump to the rest of the target
stands behind it. -/
def invokeCode (self : Relocator) (dataPtr targetAddr : Word) (redirectCodeSize : ℕ) :
    Relocator :=
  let self := self.reset (readerReset thumb targetAddr) (writerReset thumb dataPtr 0#32)
  let self := writeAll thumb (readUntil thumb mem redirectCodeSize (redirectCodeSize + 1) self)
  let restoreNextInsnAddr := targetAddr + BitVec.ofNat 32 self.input.size
  self.write (putLdrPc thumb (if thumb then restoreNextInsnAddr + 1#32 else restoreNextInsnAddr))

/-- The pieces of the jump. -/
def jumpPieces (w : AssemblerWriter) (v : Word) : List Item :=
  if thumb then jumpItems w.offWord v 0 else armJumpItems v 0

variable {thumb mem}

theorem write_putLdrPc (self : Relocator) (v : Word) :
    self.write (putLdrPc thumb v) = self.items (jumpPieces thumb self.output v) := by
  cases thumb with
  | false => exact write_armLdrPc self v
  | true => exact write_ldrPc self v

/-- Where the jump goes. -/
def returnAddress (thumb : Bool) (targetAddr : Word) (size : ℕ) : Word :=
  if thumb then targetAddr + BitVec.ofNat 32 size + 1#32 else targetAddr + BitVec.ofNat 32 size

theorem writerFits_reset (dataPtr : Word) : WriterFits thumb (writerReset thumb dataPtr 0#32) := by
  rintro rfl
  exact (by decide : (0#32 + 4#32 : Word).toNat % 2 = 0)

theorem writerReset_insns (dataPtr targetPtr : Word) :
    (writerReset thumb dataPtr targetPtr).insns = [] := by
  cases thumb <;> rfl

variable (thumb) in
/-- The pieces of the code of a trampoline: the blocks of the instructions read
and the jump behind them. -/
def invokePieces (w : AssemblerWriter) (targetAddr : Word) (cs : List ARMInstruction) : List Item :=
  prologueItems thumb w cs
    ++ jumpPieces thumb (w.emit ((prologueItems thumb w cs).map Item.emission))
      (returnAddress thumb targetAddr (insnsSize cs))

/-- **What the code of a trampoline is**: whole instructions are read, as many
as it takes; their blocks and the jump are written. -/
theorem invokeCode_eq (self : Relocator) (dataPtr targetAddr : Word) (redirectCodeSize : ℕ) :
    ∃ n, 0 < n
      ∧ invokeCode thumb mem self dataPtr targetAddr redirectCodeSize
        = { output := (writerReset thumb dataPtr 0#32).emit ((invokePieces thumb
              (writerReset thumb dataPtr 0#32) targetAddr
              (insnsAt thumb mem targetAddr n)).map Item.emission)
            input := readerAfter thumb mem targetAddr n
            inpos := n
            outpos := n
            literalInsns := registeredRecords (writerReset thumb dataPtr 0#32).currentPc
              (writerReset thumb dataPtr 0#32).wCurrentAddress
              (invokePieces thumb (writerReset thumb dataPtr 0#32) targetAddr
                (insnsAt thumb mem targetAddr n))
            relocatorInsns := self.relocatorInsns
              ++ prologueRecords thumb (writerReset thumb dataPtr 0#32) 0
                (insnsAt thumb mem targetAddr n) }
      ∧ redirectCodeSize ≤ insnsSize (insnsAt thumb mem targetAddr n)
      ∧ ∀ m, 0 < m → m < n → insnsSize (insnsAt thumb mem targetAddr m) < redirectCodeSize := by
  obtain ⟨n, hn, he, hle, hmin⟩ := @readUntil_eq thumb mem redirectCodeSize targetAddr
    (redirectCodeSize + 1) 0
    (self.reset (readerReset thumb targetAddr) (writerReset thumb dataPtr 0#32))
    (readerAfter_zero targetAddr).symm (Nat.le_succ _) (Nat.succ_pos _)
  refine ⟨n, hn, ?_, hle, hmin⟩
  have hread : readUntil thumb mem redirectCodeSize (redirectCodeSize + 1)
      (self.reset (readerReset thumb targetAddr) (writerReset thumb dataPtr 0#32))
        = { self.reset (readerAfter thumb mem targetAddr n) (writerReset thumb dataPtr 0#32) with
            inpos := n } := by
    rw [he]
    exact congrArg (fun k => { self.reset (readerAfter thumb mem targetAddr n)
      (writerReset thumb dataPtr 0#32) with inpos := k }) (Nat.zero_add n)
  have hwritten : writeBlocks thumb
      { self.reset (readerAfter thumb mem targetAddr n) (writerReset thumb dataPtr 0#32) with
        inpos := n } (insnsAt thumb mem targetAddr n)
        = ({ self.reset (readerAfter thumb mem targetAddr n) (writerReset thumb dataPtr 0#32) with
              inpos := n
              outpos := n
              relocatorInsns := self.relocatorInsns
                ++ prologueRecords thumb (writerReset thumb dataPtr 0#32) 0
                  (insnsAt thumb mem targetAddr n) } : Relocator).items
            (prologueItems thumb (writerReset thumb dataPtr 0#32)
              (insnsAt thumb mem targetAddr n)) := by
    unfold writeBlocks
    simp only [items_eq, reset, writerReset_insns, insnsAt_length, List.length_nil, Nat.zero_add]
  unfold invokeCode
  simp only
  rw [hread, writeAll_eq (writerFits_reset dataPtr) rfl (insnsAt_length targetAddr n).symm,
    write_putLdrPc]
  refine (congrArg (fun r : Relocator => r.items (jumpPieces thumb r.output
    (returnAddress thumb targetAddr r.input.size))) hwritten).trans ?_
  simp only [items_output]
  rw [← items_append]
  simp only [items_eq, reset, List.nil_append]
  rfl

end Invoke

end HookZz
