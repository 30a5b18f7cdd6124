import AndroidReverse.HookZzPrologue
import AndroidReverse.HookZzTargets

/-!
# Literals that point into the prologue

A branch of the prologue back into the prologue has to go to the copy, and so
has a load from it. `zz_thumb_relocator_relocate_writer` therefore goes over
the literals that were registered and replaces those that lie between the
beginning and the end of what was read by the address of the block they refer
to.

It compares the literals as they are, and a literal that is a Thumb address is
odd: no instruction is found at it and the assertion fails. So the pass is
right exactly if all the literals it looks up are even
(`relocateWriter_redirects_iff`), which those of branches and of return
addresses never are.
-/

namespace HookZz

open Arm Relocate Relocator

namespace Relocator

/-! ## One literal -/

section Literal

variable (r : Relocator) (bias finalRelocateAddress : Word)

/-- A relocator whose output stands in another buffer. -/
def withBuffer (buffer : List Half) : Relocator :=
  { r with output := { r.output with buffer := buffer } }

/-- The range test of `relocate_writer`. -/
def InRange (v : Word) : Prop :=
  r.input.startPc - bias < v ∧ v < r.input.startPc - bias + BitVec.ofNat 32 r.input.size

instance (v : Word) : Decidable (r.InRange bias v) := inferInstanceAs (Decidable (_ ∧ _))

/-- **What `relocate_writer` replaces a literal by**: `none` if its assertion
fails. -/
def redirectValue (v : Word) : Option Word :=
  if r.InRange bias v then do
    let relocatedInsn ← r.getRelocatorInsnWithAddress bias v
    let insn ← r.output.insns[relocatedInsn.relocatedInsns]?
    some (insn.pc - r.output.startPc + finalRelocateAddress)
  else some v

variable {r bias finalRelocateAddress}

theorem withBuffer_self : r.withBuffer r.output.buffer = r := rfl

/-- A literal is read where it was written. -/
theorem literalAt_withBuffer {X Y : List Half} {v : Word} {l : ARMInstruction}
    (hi : r.bufferIndex l = X.length) :
    (r.withBuffer (X ++ (addressBytes v ++ Y))).literalAt l = v := by
  have h : ∀ k, (X ++ (addressBytes v ++ Y)).getD (X.length + k) 0
      = (addressBytes v ++ Y).getD k 0 := by
    intro k
    rw [List.getD_eq_getElem?_getD, List.getD_eq_getElem?_getD,
      List.getElem?_append_right (Nat.le_add_right _ _), Nat.add_sub_cancel_left]
  show (X ++ (addressBytes v ++ Y)).getD (r.bufferIndex l + 1) 0
    ++ (X ++ (addressBytes v ++ Y)).getD (r.bufferIndex l) 0 = v
  rw [hi, h 1, ← Nat.add_zero X.length, h 0]
  exact highHalf_append_lowHalf v

/-- And written where it is read. -/
theorem setLiteralAt_withBuffer {X Y : List Half} {v a : Word} {l : ARMInstruction}
    (hi : r.bufferIndex l = X.length) :
    (r.withBuffer (X ++ (addressBytes v ++ Y))).setLiteralAt l a
      = r.withBuffer (X ++ (addressBytes a ++ Y)) := by
  have h : ((X ++ (addressBytes v ++ Y)).set X.length (lowHalf a)).set (X.length + 1) (highHalf a)
      = X ++ (addressBytes a ++ Y) := by
    rw [List.set_append_right _ _ (Nat.le_refl _), Nat.sub_self,
      List.set_append_right _ _ (Nat.le_add_right _ 1), Nat.add_sub_cancel_left]
    rfl
  show r.withBuffer (((X ++ (addressBytes v ++ Y)).set (r.bufferIndex l) (lowHalf a)).set
    (r.bufferIndex l + 1) (highHalf a)) = _
  rw [hi, h]

/-- **One turn of the pass.** -/
theorem relocateLiteral_withBuffer {X Y : List Half} {v : Word} {l : ARMInstruction}
    (hi : r.bufferIndex l = X.length) :
    relocateLiteral bias finalRelocateAddress (r.withBuffer (X ++ (addressBytes v ++ Y))) l
      = (r.redirectValue bias finalRelocateAddress v).map
          (fun a => r.withBuffer (X ++ (addressBytes a ++ Y))) := by
  have hset := fun a => setLiteralAt_withBuffer (v := v) (a := a) (Y := Y) hi
  unfold relocateLiteral redirectValue
  rw [literalAt_withBuffer hi]
  by_cases h : r.InRange bias v
  · rw [if_pos h]
    refine (if_pos h).trans ?_
    show (do
      let b ← r.getRelocatorInsnWithAddress bias v
      let insn ← r.output.insns[b.relocatedInsns]?
      some ((r.withBuffer (X ++ (addressBytes v ++ Y))).setLiteralAt l
        (insn.pc - r.output.startPc + finalRelocateAddress))) = _
    simp only [hset]
    cases r.getRelocatorInsnWithAddress bias v with
    | none => rfl
    | some b =>
      show (do
        let insn ← r.output.insns[b.relocatedInsns]?
        some (r.withBuffer _)) = Option.map _ (do
          let insn ← r.output.insns[b.relocatedInsns]?
          some _)
      cases r.output.insns[b.relocatedInsns]? with
      | none => rfl
      | some insn => rfl
  · rw [if_neg h]
    exact if_neg h

/-- What becomes of a literal that is registered `k` times. -/
def relocatedLiteral (r : Relocator) (bias finalRelocateAddress : Word) : ℕ → Word → Option Word
  | 0, v => some v
  | k + 1, v => (r.redirectValue bias finalRelocateAddress v).bind
      (relocatedLiteral r bias finalRelocateAddress k)

theorem relocate_replicate {X Y : List Half} {l : ARMInstruction} (hi : r.bufferIndex l = X.length)
    (k : ℕ) (v : Word) :
    (List.replicate k l).foldlM (relocateLiteral bias finalRelocateAddress)
        (r.withBuffer (X ++ (addressBytes v ++ Y)))
      = (r.relocatedLiteral bias finalRelocateAddress k v).map
          (fun a => r.withBuffer (X ++ (addressBytes a ++ Y))) := by
  induction k generalizing v with
  | zero => rfl
  | succ k ih =>
    rw [List.replicate_succ, List.foldlM_cons, relocateLiteral_withBuffer hi, relocatedLiteral]
    cases r.redirectValue bias finalRelocateAddress v with
    | none => rfl
    | some a => exact ih a

/-- It is replaced, unless it is registered again and its replacement would be
replaced in turn. -/
theorem relocatedLiteral_some {k : ℕ} {a v : Word} (hk : k ≤ 1 ∨ a = v)
    (h : 0 < k → r.redirectValue bias finalRelocateAddress v = some a) :
    r.relocatedLiteral bias finalRelocateAddress k v = some (if 0 < k then a else v) := by
  rcases hk with hk | rfl
  · match k, hk with
    | 0, _ => rfl
    | 1, _ =>
      rw [relocatedLiteral, h Nat.one_pos]
      rfl
  · rw [ite_self]
    induction k with
    | zero => rfl
    | succ k ih =>
      have hv := h (Nat.succ_pos k)
      rw [relocatedLiteral, hv]
      exact ih (fun _ => hv)

theorem relocatedLiteral_none {k : ℕ} (hk : 0 < k) {v : Word}
    (h : r.redirectValue bias finalRelocateAddress v = none) :
    r.relocatedLiteral bias finalRelocateAddress k v = none := by
  cases k with
  | zero => exact absurd hk (Nat.lt_irrefl 0)
  | succ k => rw [relocatedLiteral, h, Option.bind_none]

end Literal

/-! ## All of them -/

section Literals

variable {r : Relocator} {bias finalRelocateAddress : Word}

/-- A piece with its literal replaced, if it is registered. -/
def redirectItem (g : Word → Word) : Item → Item
  | .code e => .code e
  | .literal v k => .literal (if 0 < k then g v else v) k

theorem length_redirectItem (g : Word → Word) (is : List Item) :
    (itemHalves (is.map (redirectItem g))).length = (itemHalves is).length := by
  induction is with
  | nil => rfl
  | cons i is ih =>
    show (_ ++ itemHalves (is.map (redirectItem g))).length = (_ ++ itemHalves is).length
    rw [List.length_append, List.length_append, ih]
    cases i <;> rfl

theorem bufferIndex_eq {l : ARMInstruction} {n : ℕ}
    (h : l.address = r.output.wStartAddress + BitVec.ofNat 32 (2 * n)) (hn : 2 * n < 2 ^ 32) :
    r.bufferIndex l = n := by
  unfold bufferIndex
  rw [h, BitVec.add_comm, BitVec.add_sub_cancel, BitVec.toNat_ofNat, Nat.mod_eq_of_lt hn,
    Nat.mul_div_cancel_left n two_pos]

/-- The halfwords of a piece and of those behind it. -/
theorem itemHalves_cons (i : Item) (is : List Item) :
    itemHalves (i :: is) = i.emission.halves ++ itemHalves is := rfl

/-- **What the pass makes of a list of pieces.** -/
def relocatedHalves (r : Relocator) (bias finalRelocateAddress : Word) :
    List Item → Option (List Half)
  | [] => some []
  | .code e :: is => (relocatedHalves r bias finalRelocateAddress is).map (e.halves ++ ·)
  | .literal v k :: is => (r.relocatedLiteral bias finalRelocateAddress k v).bind fun a =>
      (relocatedHalves r bias finalRelocateAddress is).map (addressBytes a ++ ·)

/-- **The pass over the literals of a list of pieces**, wherever they stand in
the buffer. -/
theorem relocate_items {is : List Item} {X Y : List Half} {pc address : Word}
    (ha : address = r.output.wStartAddress + BitVec.ofNat 32 (2 * X.length))
    (hlen : 2 * (X ++ itemHalves is).length < 2 ^ 32) :
    (registeredRecords pc address is).foldlM (relocateLiteral bias finalRelocateAddress)
        (r.withBuffer (X ++ (itemHalves is ++ Y)))
      = (r.relocatedHalves bias finalRelocateAddress is).map
          (fun Z => r.withBuffer (X ++ (Z ++ Y))) := by
  induction is generalizing X pc address with
  | nil => rfl
  | cons i is ih =>
    rw [itemHalves_cons, ← List.append_assoc] at hlen
    -- the rest, behind any text that is as long as this piece
    have hrest : ∀ E : List Half, E.length = i.emission.halves.length →
        (registeredRecords (pc + BitVec.ofNat 32 i.emission.size)
            (address + BitVec.ofNat 32 i.emission.size) is).foldlM
              (relocateLiteral bias finalRelocateAddress)
              (r.withBuffer (X ++ (E ++ (itemHalves is ++ Y))))
          = ((r.relocatedHalves bias finalRelocateAddress is).map (E ++ ·)).map
              (fun Z => r.withBuffer (X ++ (Z ++ Y))) := by
      intro E hE
      have h := @ih (X ++ E) (pc + BitVec.ofNat 32 i.emission.size)
        (address + BitVec.ofNat 32 i.emission.size) (by
          rw [ha, List.length_append, hE, Nat.mul_add, BitVec.ofNat_add, BitVec.add_assoc]
          rfl) (by
          rwa [List.length_append, List.length_append, hE, ← List.length_append,
            ← List.length_append])
      rw [List.append_assoc] at h
      rw [h, Option.map_map]
      refine congrArg (Option.map · _) (funext fun Z => ?_)
      rw [Function.comp_apply, List.append_assoc, List.append_assoc]
    rw [registeredRecords, List.foldlM_append, itemHalves_cons, List.append_assoc]
    cases i with
    | code e => exact hrest e.halves rfl
    | literal v k =>
      have hX : 2 * X.length < 2 ^ 32 := by
        rw [List.length_append, List.length_append] at hlen
        omega
      have hi : r.bufferIndex ((Item.literal v k).emission.record pc address) = X.length :=
        bufferIndex_eq ha hX
      refine (congrArg (· >>= _) (relocate_replicate hi k v)).trans ?_
      rw [relocatedHalves]
      cases r.relocatedLiteral bias finalRelocateAddress k v with
      | none => rfl
      | some a => exact hrest (addressBytes a) rfl

/-- If every literal is found, and those registered several times are left
alone, they are all replaced. -/
theorem relocatedHalves_some {g : Word → Word} {is : List Item}
    (hg : ∀ v k, Item.literal v k ∈ is → 0 < k →
      r.redirectValue bias finalRelocateAddress v = some (g v))
    (hk : ∀ v k, Item.literal v k ∈ is → k ≤ 1 ∨ g v = v) :
    r.relocatedHalves bias finalRelocateAddress is
      = some (itemHalves (is.map (redirectItem g))) := by
  induction is with
  | nil => rfl
  | cons i is ih =>
    have hrest := ih (fun v k hv => hg v k (List.mem_cons_of_mem _ hv))
      (fun v k hv => hk v k (List.mem_cons_of_mem _ hv))
    cases i with
    | code e =>
      rw [relocatedHalves, hrest]
      rfl
    | literal v k =>
      rw [relocatedHalves, relocatedLiteral_some (hk v k List.mem_cons_self)
        (hg v k List.mem_cons_self), hrest]
      rfl

/-- If one is not found the pass fails. -/
theorem relocatedHalves_none {is : List Item} {v : Word} {k : ℕ} (hmem : Item.literal v k ∈ is)
    (hk : 0 < k) (hv : r.redirectValue bias finalRelocateAddress v = none) :
    r.relocatedHalves bias finalRelocateAddress is = none := by
  induction is with
  | nil => cases hmem
  | cons i is ih =>
    rcases List.mem_cons.mp hmem with rfl | hrest
    · rw [relocatedHalves, relocatedLiteral_none hk hv]
      rfl
    · cases i with
      | code e =>
        rw [relocatedHalves, ih hrest]
        rfl
      | literal v' k' =>
        rw [relocatedHalves, ih hrest]
        exact Option.bind_fun_none _

/-- If it does not fail, nothing changes its length. -/
theorem length_relocatedHalves {is : List Item} {Z : List Half}
    (h : r.relocatedHalves bias finalRelocateAddress is = some Z) :
    Z.length = (itemHalves is).length := by
  induction is generalizing Z with
  | nil => exact congrArg List.length (Option.some_inj.mp h).symm
  | cons i is ih =>
    rw [itemHalves_cons, List.length_append]
    cases i with
    | code e =>
      obtain ⟨Z', hZ', rfl⟩ := Option.map_eq_some_iff.mp h
      rw [List.length_append, ih hZ']
      rfl
    | literal v k =>
      obtain ⟨a, -, h⟩ := Option.bind_eq_some_iff.mp h
      obtain ⟨Z', hZ', rfl⟩ := Option.map_eq_some_iff.mp h
      rw [List.length_append, ih hZ']
      rfl

end Literals

/-! ## The literals of a written list -/

/-- Where the registered literals of a list of pieces stand. -/
theorem mem_registeredRecords {l : ARMInstruction} {is : List Item} {pc address : Word}
    (h : l ∈ registeredRecords pc address is) :
    ∃ A v k B, is = A ++ Item.literal v k :: B ∧ 0 < k
      ∧ l.address = address + BitVec.ofNat 32 (2 * (itemHalves A).length) := by
  induction is generalizing pc address with
  | nil => cases h
  | cons i is ih =>
    rw [registeredRecords, List.mem_append] at h
    rcases h with h | h
    · cases i with
      | code e => cases h
      | literal v k =>
        obtain ⟨hk, rfl⟩ := List.mem_replicate.mp h
        exact ⟨[], v, k, is, rfl, Nat.pos_of_ne_zero hk, (BitVec.add_zero _).symm⟩
    · obtain ⟨A, v, k, B, rfl, hk, ha⟩ := ih h
      refine ⟨i :: A, v, k, B, rfl, hk, ?_⟩
      rw [ha, itemHalves_cons, List.length_append, Nat.mul_add, BitVec.ofNat_add, BitVec.add_assoc]
      rfl

/-- And that every one of them is there. -/
theorem exists_registeredRecord {A B : List Item} {v : Word} {k : ℕ} (hk : 0 < k)
    (pc address : Word) :
    ∃ l ∈ registeredRecords pc address (A ++ Item.literal v k :: B),
      l.address = address + BitVec.ofNat 32 (2 * (itemHalves A).length) := by
  induction A generalizing pc address with
  | nil =>
    refine ⟨(Item.literal v k).emission.record pc address, ?_, (BitVec.add_zero _).symm⟩
    exact List.mem_append_left _ (List.mem_replicate.mpr ⟨Nat.pos_iff_ne_zero.mp hk, rfl⟩)
  | cons i A ih =>
    obtain ⟨l, hl, ha⟩ := ih (pc + BitVec.ofNat 32 i.emission.size)
      (address + BitVec.ofNat 32 i.emission.size)
    refine ⟨l, List.mem_append_right _ hl, ?_⟩
    rw [ha, itemHalves_cons, List.length_append, Nat.mul_add, BitVec.ofNat_add, BitVec.add_assoc]
    rfl

/-- **A relocator has written a list of pieces** and nothing before it. -/
structure Written (r : Relocator) (is : List Item) : Prop where
  /-- They are in the buffer. -/
  buffer : r.output.buffer = itemHalves is
  /-- Their literals are registered. -/
  literals : ∃ pc, r.literalInsns = registeredRecords pc r.output.wStartAddress is
  /-- The buffer fits into memory. -/
  fits : 2 * (itemHalves is).length < 2 ^ 32

section Written

variable {r : Relocator} {bias finalRelocateAddress : Word} {is A B : List Item} {k : ℕ}
  {l : ARMInstruction} {v : Word}

/-- A literal is at its place in a buffer that is as long in front of it. -/
theorem Written.literalAt_of (h : Written r (A ++ Item.literal v k :: B))
    {X Y : List Half} {a : Word}
    (hl : l.address = r.output.wStartAddress + BitVec.ofNat 32 (2 * (itemHalves A).length))
    (hX : X.length = (itemHalves A).length) :
    (r.withBuffer (X ++ (addressBytes a ++ Y))).literalAt l = a := by
  have hfit := h.fits
  rw [itemHalves_append, List.length_append] at hfit
  exact literalAt_withBuffer ((bufferIndex_eq hl (by omega)).trans hX.symm)

theorem Written.literalAt (h : Written r is) (hl : l ∈ r.literalInsns) :
    ∃ A v k B, is = A ++ Item.literal v k :: B ∧ 0 < k
      ∧ l.address = r.output.wStartAddress + BitVec.ofNat 32 (2 * (itemHalves A).length)
      ∧ r.literalAt l = v := by
  obtain ⟨pc, hlit⟩ := h.literals
  rw [hlit] at hl
  obtain ⟨A, v, k, B, rfl, hk, ha⟩ := mem_registeredRecords hl
  refine ⟨A, v, k, B, rfl, hk, ha, ?_⟩
  have hv := h.literalAt_of (X := itemHalves A) (Y := itemHalves B) (a := v) ha rfl
  rwa [show itemHalves A ++ (addressBytes v ++ itemHalves B) = r.output.buffer by
    rw [h.buffer, itemHalves_append]
    rfl, withBuffer_self] at hv

theorem Written.exists_literal (h : Written r is) (hmem : Item.literal v k ∈ is) (hk : 0 < k) :
    ∃ l ∈ r.literalInsns, r.literalAt l = v := by
  obtain ⟨A, B, rfl⟩ := List.append_of_mem hmem
  obtain ⟨pc, hlit⟩ := h.literals
  obtain ⟨l, hl, ha⟩ := exists_registeredRecord hk pc r.output.wStartAddress
  refine ⟨l, by rw [hlit]; exact hl, ?_⟩
  have hv := h.literalAt_of (X := itemHalves A) (Y := itemHalves B) (a := v) ha rfl
  rwa [show itemHalves A ++ (addressBytes v ++ itemHalves B) = r.output.buffer by
    rw [h.buffer, itemHalves_append]
    rfl, withBuffer_self] at hv

/-- **The pass replaces the registered literals** if it finds them all. -/
theorem Written.relocate (h : Written r is) {g : Word → Word}
    (hg : ∀ l ∈ r.literalInsns,
      r.redirectValue bias finalRelocateAddress (r.literalAt l) = some (g (r.literalAt l)))
    (hk : ∀ v k, Item.literal v k ∈ is → k ≤ 1 ∨ g v = v) :
    ∃ r', r.literalInsns.foldlM (relocateLiteral bias finalRelocateAddress) r = some r'
      ∧ ∀ l ∈ r.literalInsns, r'.literalAt l = g (r.literalAt l) := by
  obtain ⟨pc, hlit⟩ := h.literals
  have hrun := @relocate_items r bias finalRelocateAddress is [] [] pc _
    (BitVec.add_zero r.output.wStartAddress).symm h.fits
  have hfound : ∀ v k, Item.literal v k ∈ is → 0 < k →
      r.redirectValue bias finalRelocateAddress v = some (g v) := by
    intro v k hv hpos
    obtain ⟨l, hl, hv'⟩ := h.exists_literal hv hpos
    rw [← hv']
    exact hg l hl
  rw [relocatedHalves_some hfound hk, List.append_nil, List.nil_append, ← h.buffer, withBuffer_self,
    ← hlit] at hrun
  refine ⟨_, hrun, fun l hl => ?_⟩
  obtain ⟨A, v, k, B, rfl, hpos, ha, hv⟩ := h.literalAt hl
  dsimp only
  rw [hv, List.nil_append, List.append_nil, List.map_append, List.map_cons, itemHalves_append]
  have hat := h.literalAt_of (X := itemHalves (A.map (redirectItem g)))
    (Y := itemHalves (B.map (redirectItem g))) (a := g v) ha (length_redirectItem g A)
  rw [← if_pos (c := 0 < k) (t := g v) (e := v) hpos] at hat ⊢
  exact hat

/-- **And fails** if it does not. -/
theorem Written.relocate_none (h : Written r is) (hl : l ∈ r.literalInsns)
    (hv : r.redirectValue bias finalRelocateAddress (r.literalAt l) = none) :
    r.literalInsns.foldlM (relocateLiteral bias finalRelocateAddress) r = none := by
  obtain ⟨pc, hlit⟩ := h.literals
  obtain ⟨A, v, k, B, rfl, hpos, -, hv'⟩ := h.literalAt hl
  rw [hv'] at hv
  have hrun := @relocate_items r bias finalRelocateAddress (A ++ Item.literal v k :: B) [] [] pc _
    (BitVec.add_zero r.output.wStartAddress).symm h.fits
  rwa [relocatedHalves_none (List.mem_append_right A List.mem_cons_self) hpos hv, List.append_nil,
    List.nil_append, ← h.buffer, withBuffer_self, ← hlit] at hrun

end Written

/-! ## Looking up -/

/-- **Where a block begins** in the output, in bytes. -/
def blockOffset (r : Relocator) (b : RelocatorInstruction) : ℕ :=
  ((r.output.insns.take b.outputIndexStart).map ARMInstruction.size).sum

end Relocator

namespace AssemblerWriter

/-- An emission is recorded with the program counter it has. -/
theorem records_getElem? (pc address : Word) (es : List Emission) (i : ℕ) :
    (records pc address es)[i]? = es[i]?.map (Emission.record
      (pc + BitVec.ofNat 32 (bytesOf (es.take i)))
      (address + BitVec.ofNat 32 (bytesOf (es.take i)))) := by
  induction es generalizing pc address i with
  | nil => rfl
  | cons e es ih =>
    cases i with
    | zero =>
      show some (e.record pc address) = some (e.record (pc + 0#32) (address + 0#32))
      rw [BitVec.add_zero, BitVec.add_zero]
    | succ i =>
      rw [records, List.getElem?_cons_succ, List.getElem?_cons_succ, ih, List.take_succ_cons,
        bytesOf_cons, BitVec.ofNat_add, ← BitVec.add_assoc, ← BitVec.add_assoc]

/-- And with the size it has. -/
theorem map_size_records (pc address : Word) (es : List Emission) :
    (records pc address es).map ARMInstruction.size = es.map Emission.size := by
  induction es generalizing pc address with
  | nil => rfl
  | cons e es ih =>
    rw [records, List.map_cons, List.map_cons, ih]
    cases e <;> rfl

theorem sum_map_size (es : List Emission) : (es.map Emission.size).sum = bytesOf es := by
  induction es with
  | nil => rfl
  | cons e es ih => rw [List.map_cons, List.sum_cons, ih, bytesOf_cons]

/-- **An emission of a new writer** is as far from the beginning as those in
front of it are long. -/
theorem exists_emission {w : AssemblerWriter} (hinsns : w.insns = [])
    (hpc : w.currentPc = w.startPc)
    {es : List Emission} {i : ℕ} (hi : i < es.length) :
    ∃ insn, (w.emit es).insns[i]? = some insn
      ∧ insn.pc - (w.emit es).startPc
        = BitVec.ofNat 32 (((w.emit es).insns.take i).map ARMInstruction.size).sum := by
  have hrecord : ∀ (e : Emission) (pc address : Word), (e.record pc address).pc = pc := by
    intro e pc address
    cases e <;> rfl
  rw [emit_insns, hinsns, List.nil_append, records_getElem?, List.getElem?_eq_getElem hi]
  refine ⟨_, rfl, ?_⟩
  rw [hrecord, emit_startPc, hpc, List.map_take, map_size_records, ← List.map_take, sum_map_size,
    BitVec.add_comm]
  exact BitVec.add_sub_cancel _ _

end AssemblerWriter

section Prologue

variable {thumb : Bool} {mem : Mem} {addr : Word}

/-- The instructions of a prologue stand at the offsets where they were
read. -/
theorem mem_insnsAt {n : ℕ} {c : ARMInstruction} (h : c ∈ insnsAt thumb mem addr n) :
    ∃ k, k < insnsSize (insnsAt thumb mem addr n) ∧ k % 2 = 0
      ∧ c.address = addr + BitVec.ofNat 32 k ∧ c.pc = c.address + pcBias thumb := by
  induction n generalizing addr with
  | zero => cases h
  | succ n ih =>
    have hsize := @insnAt_size thumb mem addr
    rw [insnsAt, insnsSize_cons]
    rcases List.mem_cons.mp h with rfl | h
    · refine ⟨0, by omega, rfl, ?_, ?_⟩
      · rw [insnAt_address]
        exact (BitVec.add_zero addr).symm
      · rw [insnAt_address, insnAt_pc]
    · obtain ⟨k, hk, heven, ha, hpc⟩ := ih h
      refine ⟨(insnAt thumb mem addr).size + k, by omega, by omega, ?_, hpc⟩
      rw [ha, BitVec.ofNat_add, BitVec.add_assoc]

/-- And at different addresses. -/
theorem nodup_insnsAt {n : ℕ} (hn : insnsSize (insnsAt thumb mem addr n) < 2 ^ 32) :
    ((insnsAt thumb mem addr n).map ARMInstruction.address).Nodup := by
  induction n generalizing addr with
  | zero => exact List.nodup_nil
  | succ n ih =>
    rw [insnsAt, insnsSize_cons] at hn
    rw [insnsAt, List.map_cons, List.nodup_cons]
    refine ⟨fun h => ?_, ih (by omega)⟩
    obtain ⟨c, hc, ha⟩ := List.mem_map.mp h
    obtain ⟨k, hk, -, hak, -⟩ := mem_insnsAt hc
    rw [hak, insnAt_address, BitVec.add_assoc, ← BitVec.ofNat_add] at ha
    have hzero : BitVec.ofNat 32 ((insnAt thumb mem addr).size + k) = 0#32 := by
      rw [← BitVec.add_sub_cancel (BitVec.ofNat 32 ((insnAt thumb mem addr).size + k)) addr,
        BitVec.add_comm, ha, BitVec.sub_self]
    have hnat := congrArg BitVec.toNat hzero
    rw [BitVec.toNat_ofNat, Nat.mod_eq_of_lt (by omega)] at hnat
    have hsize := (@insnAt_size thumb mem addr).1
    exact absurd hnat (by show ¬ _ = 0; omega)

end Prologue

/-! ## The literals of a Thumb prologue -/

namespace Relocator

section Items

variable {offWord : Bool} {reg : Reg} {v v' : Word} {k k' : ℕ}

theorem literal_not_mem_codeItems (es : List Emission) : Item.literal v k ∉ codeItems es := by
  intro h
  obtain ⟨e, -, he⟩ := List.mem_map.mp h
  cases he

theorem literal_mem_code_append {es : List Emission} {is : List Item}
    (h : Item.literal v k ∈ codeItems es ++ is) : Item.literal v k ∈ is :=
  (List.mem_append.mp h).resolve_left (literal_not_mem_codeItems es)

theorem literal_mem_append_code {es : List Emission} {is : List Item}
    (h : Item.literal v k ∈ is ++ codeItems es) : Item.literal v k ∈ is :=
  (List.mem_append.mp h).resolve_right (literal_not_mem_codeItems es)

theorem literal_mem_jumpItems (h : Item.literal v k ∈ jumpItems offWord v' k') :
    v = v' ∧ k = k' := by
  injection List.mem_singleton.mp (literal_mem_code_append h) with hv hk
  exact ⟨hv, hk⟩

theorem literal_mem_valueItems (h : Item.literal v k ∈ valueItems offWord reg v' k') :
    v = v' ∧ k = k' := by
  injection List.mem_singleton.mp (literal_mem_code_append h) with hv hk
  exact ⟨hv, hk⟩

theorem literal_mem_guardedItems {pad : Bool} {guard : List Emission}
    (h : Item.literal v k ∈ guardedItems pad guard v' k') : v = v' ∧ k = k' := by
  unfold guardedItems at h
  have hpad : padItems pad = codeItems (if pad then [.thumb 0x46C0#16] else []) := by
    cases pad <;> rfl
  rw [hpad, List.append_assoc] at h
  exact literal_mem_jumpItems (literal_mem_code_append (literal_mem_code_append h))

/-- **Only a return address is registered more than once.** -/
theorem literal_mem_thumbItems {c : ARMInstruction} (h : Item.literal v k ∈ thumbItems offWord c) :
    k ≤ 1 ∨ v = c.pc + 1#32 := by
  have hcopy : Item.literal v k ∉ copyItems c := by
    intro h
    cases List.mem_singleton.mp h
  unfold thumbItems at h
  cases ht : getTHUMBInsnType c.insn1 c.insn2 with rw [ht] at h
  | cbnzCbz => exact Or.inl (literal_mem_guardedItems h).2.le
  | bT1 => exact Or.inl (literal_mem_guardedItems h).2.le
  | bT3 => exact Or.inl ((literal_mem_guardedItems h).2.trans_le (Nat.zero_le 1))
  | addRegisterT2 =>
    dsimp only at h
    by_cases hrm : getInsnSub (c.insn1.setWidth 32) 3 4 ≠ 15#32
    · rw [if_pos hrm] at h
      exact absurd h hcopy
    · rw [if_neg hrm] at h
      have hv := literal_mem_append_code h
      exact Or.inl ((literal_mem_valueItems
        (literal_mem_code_append hv)).2.trans_le (Nat.zero_le 1))
  | ldrLiteralT1 => exact Or.inl (literal_mem_valueItems (literal_mem_append_code h)).2.le
  | ldrLiteralT2 => exact Or.inl (literal_mem_valueItems (literal_mem_append_code h)).2.le
  | adrT1 => exact Or.inl ((literal_mem_valueItems h).2.trans_le (Nat.zero_le 1))
  | adrT2 => exact Or.inl ((literal_mem_valueItems h).2.trans_le (Nat.zero_le 1))
  | adrT3 => exact Or.inl ((literal_mem_valueItems h).2.trans_le (Nat.zero_le 1))
  | bT2 => exact Or.inl (literal_mem_jumpItems h).2.le
  | bT4 => exact Or.inl (literal_mem_jumpItems h).2.le
  | blblxImmediateT1 =>
    rcases List.mem_append.mp h with h | h
    · exact Or.inr (literal_mem_valueItems h).1
    · exact Or.inl ((literal_mem_jumpItems h).2.trans_le (Nat.zero_le 1))
  | blblxImmediateT2 =>
    rcases List.mem_append.mp h with h | h
    · exact Or.inl (literal_mem_valueItems h).2.le
    · exact Or.inl (literal_mem_jumpItems h).2.le
  | undef => exact absurd h hcopy

theorem length_jumpItems (v : Word) (k : ℕ) :
    (itemHalves (jumpItems offWord v k)).length ≤ 5 := by
  cases offWord with
  | false => exact Nat.le_succ 4
  | true => exact Nat.le_refl 5

theorem length_valueItems (v : Word) (k : ℕ) :
    (itemHalves (valueItems offWord reg v k)).length ≤ 6 := by
  rw [valueItems, itemHalves_append, itemHalves_codeItems, List.length_append, ldrBCode_length]
  have h : (itemHalves [Item.literal v k]).length = 2 := rfl
  rw [h]
  split
  · decide
  · split <;> decide

theorem length_guardedItems {pad : Bool} {guard : List Emission}
    (hguard : (guard.flatMap Emission.halves).length ≤ 2) (v : Word) (k : ℕ) :
    (itemHalves (guardedItems pad guard v k)).length ≤ 9 := by
  have hpad : (itemHalves (padItems pad)).length ≤ 1 := by cases pad <;> decide
  have hjump := @length_jumpItems false v k
  rw [guardedItems, itemHalves_append, itemHalves_append, itemHalves_codeItems,
    List.flatMap_append, List.length_append, List.length_append, List.length_append,
    show ([Emission.thumb 0xE003#16].flatMap Emission.halves).length = 1 from rfl]
  omega

theorem length_copyItems (c : ARMInstruction) : (itemHalves (copyItems c)).length ≤ 2 := by
  have h : (itemHalves (copyItems c)).length = (insnBytes c).length := by
    unfold itemHalves copyItems
    exact congrArg List.length (List.append_nil (insnBytes c))
  rw [h]
  exact List.length_take_le' _ _

theorem length_thumbItems (c : ARMInstruction) :
    (itemHalves (thumbItems offWord c)).length ≤ 11 := by
  have hcopy : (itemHalves (copyItems c)).length ≤ 11 := (length_copyItems c).trans (by decide)
  have hself : ∀ reg : Reg, (itemHalves (codeItems (ldrSelfCode reg))).length ≤ 4 := by
    decide
  unfold thumbItems
  cases getTHUMBInsnType c.insn1 c.insn2 with
  | cbnzCbz =>
    refine (length_guardedItems ?_ _ _).trans (by decide)
    exact Nat.le_succ 1
  | bT1 =>
    refine (length_guardedItems ?_ _ _).trans (by decide)
    exact Nat.le_succ 1
  | bT3 =>
    refine (length_guardedItems ?_ _ _).trans (by decide)
    exact Nat.le_refl 2
  | addRegisterT2 =>
    dsimp only
    split
    · exact hcopy
    · have hv := @length_valueItems (!offWord) 7#4 c.pc 0
      rw [itemHalves_append, itemHalves_append, List.length_append, List.length_append]
      simp only [itemHalves_codeItems, List.flatMap_cons, List.flatMap_nil, Emission.halves,
        List.length_append, List.length_cons, List.length_nil]
      omega
  | ldrLiteralT1 =>
    dsimp only
    rw [itemHalves_append, List.length_append]
    exact Nat.add_le_add (length_valueItems _ _) ((hself _).trans (Nat.le_succ 4))
  | ldrLiteralT2 =>
    dsimp only
    rw [itemHalves_append, List.length_append]
    exact Nat.add_le_add (length_valueItems _ _) ((hself _).trans (Nat.le_succ 4))
  | adrT1 => exact (length_valueItems _ _).trans (by decide)
  | adrT2 => exact (length_valueItems _ _).trans (by decide)
  | adrT3 => exact (length_valueItems _ _).trans (by decide)
  | bT2 => exact (length_jumpItems _ _).trans (by decide)
  | bT4 => exact (length_jumpItems _ _).trans (by decide)
  | blblxImmediateT1 =>
    dsimp only
    rw [itemHalves_append, List.length_append]
    exact Nat.add_le_add (length_valueItems _ _) (length_jumpItems _ _)
  | blblxImmediateT2 =>
    dsimp only
    rw [itemHalves_append, List.length_append]
    exact Nat.add_le_add (length_valueItems _ _) (length_jumpItems _ _)
  | undef => exact hcopy

theorem length_armItems (c : ARMInstruction) : (itemHalves (armItems c)).length ≤ 14 := by
  have hcopy : (itemHalves (copyItems c)).length ≤ 14 := (length_copyItems c).trans (by decide)
  unfold armItems
  cases getARMInsnType c.insn with
  | addRegisterA1 =>
    dsimp only
    split
    · exact hcopy
    · exact Nat.le_add_right 12 2
  | ldrLiteralA1 => exact Nat.le_add_right 8 6
  | adrA1 => exact Nat.le_add_right 6 8
  | adrA2 => exact Nat.le_add_right 6 8
  | bA1 => exact Nat.le_add_right 8 6
  | blblxImmediateA1 => exact Nat.le_refl 14
  | blblxImmediateA2 => exact Nat.le_add_right 10 4
  | undef => exact hcopy

/-- **A block takes at most fourteen halfwords.** -/
theorem length_blockItems (thumb : Bool) (w : AssemblerWriter) (c : ARMInstruction) :
    (itemHalves (blockItems thumb w c)).length ≤ 14 := by
  cases thumb with
  | false => exact length_armItems c
  | true => exact (length_thumbItems c).trans (by decide)

end Items

/-- What holds of the literals of every block holds of those of a
prologue. -/
theorem literal_mem_prologueItems {w : AssemblerWriter} {cs : List ARMInstruction}
    {v : Word} {k : ℕ}
    (h : Item.literal v k ∈ prologueItems true w cs) : k ≤ 1 ∨ ∃ c ∈ cs, v = c.pc + 1#32 := by
  induction cs generalizing w with
  | nil => cases h
  | cons c cs ih =>
    rcases List.mem_append.mp h with h | h
    · exact (literal_mem_thumbItems h).imp_right fun hv => ⟨c, List.mem_cons_self, hv⟩
    · obtain h | ⟨c', hc', hv⟩ := ih h
      · exact Or.inl h
      · exact Or.inr ⟨c', List.mem_cons_of_mem c hc', hv⟩

theorem length_prologueItems (thumb : Bool) (w : AssemblerWriter) (cs : List ARMInstruction) :
    (itemHalves (prologueItems thumb w cs)).length ≤ 14 * cs.length := by
  induction cs generalizing w with
  | nil => exact Nat.le_refl 0
  | cons c cs ih =>
    rw [prologueItems, itemHalves_append, List.length_append, List.length_cons, Nat.mul_succ,
      Nat.add_comm]
    exact Nat.add_le_add (ih _) (length_blockItems thumb w c)

/-! ## The pass over a Thumb prologue -/

/-- Strictly inside the `size` bytes from an address on. -/
def InPrologue (start : Word) (size : ℕ) (a : Word) : Prop :=
  0 < (a - start).toNat ∧ (a - start).toNat < size

instance (start : Word) (size : ℕ) (a : Word) : Decidable (InPrologue start size a) :=
  inferInstanceAs (Decidable (_ ∧ _))

/-- Without bit 0, which says that an address is one of Thumb code. -/
def withoutBit0 (v : Word) : Word := v &&& 0xFFFFFFFE#32

/-- **What is promised of a literal**: if it is inside the prologue it becomes
the address of the block of the instruction it refers to, with the bit it has;
otherwise it stays. -/
def LiteralRedirected (r r' : Relocator) (start finalRelocateAddress : Word)
    (l : ARMInstruction) : Prop :=
  if InPrologue start r.input.size (withoutBit0 (r.literalAt l)) then
    ∀ b ∈ r.relocatorInsns, b.originInsn.address = withoutBit0 (r.literalAt l) →
      r'.literalAt l = finalRelocateAddress + BitVec.ofNat 32 (r.blockOffset b)
        + (r.literalAt l &&& 1#32)
  else r'.literalAt l = r.literalAt l

section Redirect

variable {r : Relocator} {start finalRelocateAddress v : Word} {is : List Item}
  {b : RelocatorInstruction}

theorem withoutBit0_of_even (h : v.toNat % 2 = 0) : withoutBit0 v = v := by
  rw [← BitVec.toNat_inj, withoutBit0, toNat_align2]
  omega

theorem toNat_withoutBit0 (v : Word) : (withoutBit0 v).toNat = v.toNat / 2 * 2 := toNat_align2 v

/-- The range test, for a prologue that is not too long: an address inside a
prologue that does not reach the end of memory. -/
theorem inRange_iff (hstart : r.input.startPc - 4#32 = start) (hsize : r.input.size < 2 ^ 32)
    (v : Word) :
    r.InRange 4#32 v ↔ start.toNat + r.input.size < 2 ^ 32 ∧ InPrologue start r.input.size v := by
  unfold InRange InPrologue
  rw [hstart, BitVec.lt_def, BitVec.lt_def, BitVec.toNat_add, BitVec.toNat_ofNat, BitVec.toNat_sub]
  have hs := start.isLt
  have hv := v.isLt
  rw [Nat.mod_eq_of_lt hsize]
  omega

/-- **A relocator that has written a Thumb prologue**, with what the pass over
its literals relies on. -/
structure PrologueWritten (r : Relocator) (start : Word) (is : List Item) : Prop
    extends Written r is where
  /-- It has read from here on. -/
  startPc : r.input.startPc - 4#32 = start
  /-- A Thumb address. -/
  even : start.toNat % 2 = 0
  /-- It has not read all of the memory. -/
  size : r.input.size < 2 ^ 32
  /-- An even number of bytes. -/
  size_even : r.input.size % 2 = 0
  /-- The blocks are those of Thumb instructions. -/
  origin : ∀ b ∈ r.relocatorInsns, b.originInsn.address.toNat % 2 = 0
    ∧ b.originInsn.pc - 4#32 = b.originInsn.address
  /-- Of different ones. -/
  nodup : (r.relocatorInsns.map fun b => b.originInsn.address).Nodup
  /-- A record points to the first emission of its block. -/
  block : ∀ b ∈ r.relocatorInsns, ∃ insn, r.output.insns[b.relocatedInsns]? = some insn
    ∧ insn.pc - r.output.startPc = BitVec.ofNat 32 (r.blockOffset b)
  /-- Only a return address is registered more than once. -/
  twice : ∀ v k, Item.literal v k ∈ is → k ≤ 1 ∨ v.toNat % 2 = 1

namespace PrologueWritten

/-- **A block is found at the address of its instruction.** -/
theorem redirectValue_block (h : PrologueWritten r start is) (hv : r.InRange 4#32 v)
    (hb : b ∈ r.relocatorInsns) (ha : b.originInsn.address = v) :
    r.redirectValue 4#32 finalRelocateAddress v
      = some (finalRelocateAddress + BitVec.ofNat 32 (r.blockOffset b)) := by
  have hfind : r.getRelocatorInsnWithAddress 4#32 v = some b := by
    unfold getRelocatorInsnWithAddress
    cases hf : r.relocatorInsns.find? (fun b => b.originInsn.pc - 4#32 == v) with
    | none =>
      have hnone := List.find?_eq_none.mp hf b hb
      rw [(h.origin b hb).2, ha, beq_self_eq_true] at hnone
      exact absurd rfl hnone
    | some b' =>
      have hb' := List.mem_of_find?_eq_some hf
      have hp := List.find?_some hf
      have ha' := eq_of_beq hp
      rw [(h.origin b' hb').2] at ha'
      exact congrArg some (List.inj_on_of_nodup_map h.nodup hb' hb (ha'.trans ha.symm))
  obtain ⟨insn, hinsn, hpc⟩ := h.block b hb
  unfold redirectValue
  rw [if_pos hv, hfind]
  show (do
    let insn ← r.output.insns[b.relocatedInsns]?
    some (insn.pc - r.output.startPc + finalRelocateAddress)) = _
  rw [hinsn]
  show some (insn.pc - r.output.startPc + finalRelocateAddress) = _
  rw [hpc, BitVec.add_comm]

/-- **None is found at an odd address.** -/
theorem redirectValue_odd (h : PrologueWritten r start is) (hv : r.InRange 4#32 v)
    (hodd : v.toNat % 2 = 1) : r.redirectValue 4#32 finalRelocateAddress v = none := by
  have hfind : r.getRelocatorInsnWithAddress 4#32 v = none := by
    refine List.find?_eq_none.mpr (fun b hb hf => ?_)
    have ha := eq_of_beq hf
    rw [(h.origin b hb).2] at ha
    have heven := (h.origin b hb).1
    rw [ha, hodd] at heven
    exact absurd heven one_ne_zero
  unfold redirectValue
  rw [if_pos hv, hfind]
  rfl

/-- An even address the range test admits is inside the prologue, and one that
is inside is admitted if the prologue does not reach the end of memory. -/
theorem inRange_of_inPrologue (h : PrologueWritten r start is)
    (hfit : start.toNat + r.input.size < 2 ^ 32)
    (hv : InPrologue start r.input.size (withoutBit0 v)) : r.InRange 4#32 v := by
  rw [inRange_iff h.startPc h.size]
  refine ⟨hfit, ?_⟩
  unfold InPrologue at hv ⊢
  have heven := h.even
  have hsize := h.size_even
  have hlt := v.isLt
  rw [BitVec.toNat_sub, toNat_withoutBit0] at hv
  rw [BitVec.toNat_sub]
  omega

/-- **When the pass does what is promised**: no literal that it looks up is
odd, and no prologue with a literal inside reaches the end of memory. -/
theorem redirects_iff (h : PrologueWritten r start is)
    (hb : ∀ l ∈ r.literalInsns, InPrologue start r.input.size (withoutBit0 (r.literalAt l)) →
      ∃ b ∈ r.relocatorInsns, b.originInsn.address = withoutBit0 (r.literalAt l)) :
    (∀ finalRelocateAddress, ∃ r', r.thumbRelocateWriter finalRelocateAddress = some r'
        ∧ ∀ l ∈ r.literalInsns, LiteralRedirected r r' start finalRelocateAddress l)
      ↔ ∀ l ∈ r.literalInsns, (r.InRange 4#32 (r.literalAt l) → (r.literalAt l).toNat % 2 = 0)
        ∧ (InPrologue start r.input.size (withoutBit0 (r.literalAt l)) →
          start.toNat + r.input.size < 2 ^ 32) := by
  constructor
  · intro hall l hl
    refine ⟨fun hrange => ?_, fun hin => ?_⟩
    · by_contra hodd
      obtain ⟨r', hr', -⟩ := hall 0#32
      have hv : r.redirectValue 4#32 0#32 (r.literalAt l) = none :=
        h.redirectValue_odd hrange (by omega)
      exact absurd ((h.toWritten.relocate_none hl hv).symm.trans hr') nofun
    · -- beyond the end of memory the range test admits nothing, and nothing is replaced
      by_contra hfit
      have hrange : ∀ v, ¬ r.InRange 4#32 v := fun v hv =>
        hfit ((inRange_iff h.startPc h.size v).mp hv).1
      obtain ⟨b, hbr, hba⟩ := hb l hl hin
      have hval : ∀ a : Word, r.literalAt l
          = a + BitVec.ofNat 32 (r.blockOffset b) + (r.literalAt l &&& 1#32) := by
        intro a
        have hself : ∀ v, r.redirectValue 4#32 a v = some v := fun v => if_neg (hrange v)
        obtain ⟨r₁, hr₁, hlit⟩ := @Written.relocate r 4#32 a is h.toWritten id
          (fun l _ => hself _) (fun v k _ => Or.inr rfl)
        obtain ⟨r', hr', hred⟩ := hall a
        rw [← Option.some_inj.mp (hr₁.symm.trans hr')] at hred
        have hl' := hred l hl
        unfold LiteralRedirected at hl'
        rw [if_pos hin, hlit l hl] at hl'
        exact hl' b hbr hba
      have h01 := (hval 0#32).symm.trans (hval 1#32)
      rw [BitVec.add_assoc, BitVec.add_assoc, BitVec.add_left_inj] at h01
      exact absurd h01 (by decide)
  · intro hcond finalRelocateAddress
    set g : Word → Word := fun v => (r.redirectValue 4#32 finalRelocateAddress v).getD v with hg
    have hin : ∀ l ∈ r.literalInsns, ¬ InPrologue start r.input.size (withoutBit0 (r.literalAt l)) →
        ¬ r.InRange 4#32 (r.literalAt l) := by
      intro l hl hout hrange
      have heven := (hcond l hl).1 hrange
      rw [withoutBit0_of_even heven] at hout
      exact hout ((inRange_iff h.startPc h.size _).mp hrange).2
    have hfound : ∀ l ∈ r.literalInsns,
        r.redirectValue 4#32 finalRelocateAddress (r.literalAt l) = some (g (r.literalAt l)) := by
      intro l hl
      by_cases hrange : r.InRange 4#32 (r.literalAt l)
      · have hp := not_imp_not.mp (hin l hl) hrange
        obtain ⟨b, hbr, hba⟩ := hb l hl hp
        rw [withoutBit0_of_even ((hcond l hl).1 hrange)] at hba
        have hv := @PrologueWritten.redirectValue_block r start finalRelocateAddress _ is b h hrange hbr hba
        rw [hg]
        dsimp only
        rw [hv]
        rfl
      · have hv : r.redirectValue 4#32 finalRelocateAddress (r.literalAt l)
          = some (r.literalAt l) :=
          if_neg hrange
        rw [hg]
        dsimp only
        rw [hv]
        rfl
    have htwice : ∀ v k, Item.literal v k ∈ is → k ≤ 1 ∨ g v = v := by
      intro v k hv
      by_cases hk : k ≤ 1
      · exact Or.inl hk
      · right
        obtain ⟨l, hl, hlv⟩ := h.toWritten.exists_literal hv (by omega)
        have hodd := (h.twice v k hv).resolve_left hk
        have hout : ¬ r.InRange 4#32 v := by
          intro hrange
          have heven := (hcond l hl).1 (hlv.symm ▸ hrange)
          rw [hlv] at heven
          omega
        have hself : r.redirectValue 4#32 finalRelocateAddress v = some v := if_neg hout
        rw [hg]
        dsimp only
        rw [hself]
        rfl
    obtain ⟨r', hr', hlit⟩ := h.toWritten.relocate hfound htwice
    refine ⟨r', hr', fun l hl => ?_⟩
    unfold LiteralRedirected
    split
    · rename_i hp
      intro b hbr hba
      have hrange := h.inRange_of_inPrologue ((hcond l hl).2 hp) hp
      have heven := (hcond l hl).1 hrange
      have hone : r.literalAt l &&& 1#32 = 0#32 := by
        rw [← BitVec.toNat_inj, BitVec.toNat_and]
        exact (Nat.and_one_is_mod _).trans heven
      rw [withoutBit0_of_even heven] at hba
      have hv := @PrologueWritten.redirectValue_block r start finalRelocateAddress _ is b h hrange hbr hba
      rw [hlit l hl, hone, BitVec.add_zero]
      exact Option.some_inj.mp ((hfound l hl).symm.trans hv)
    · rename_i hp
      have hself : r.redirectValue 4#32 finalRelocateAddress (r.literalAt l)
        = some (r.literalAt l) :=
        if_neg (hin l hl hp)
      rw [hlit l hl]
      exact Option.some_inj.mp ((hfound l hl).symm.trans hself)

end PrologueWritten

/-- **The code of an invoke trampoline is such a prologue.** The bound is the
size of the buffer the code goes to. -/
theorem invokeCode_prologueWritten (mem : Mem) (input : ARMReader) (output : AssemblerWriter)
    (dataPtr : Word) (heven : start.toNat % 2 = 0) {redirectCodeSize : ℕ}
    (hsize : redirectCodeSize ≤ 256) :
    ∃ is, PrologueWritten
      (invokeCode true mem
          (Relocator.init input output) dataPtr start redirectCodeSize) start is := by
  obtain ⟨n, hn, he, -, hmin⟩ := @invokeCode_eq true mem
    (Relocator.init input output) dataPtr start redirectCodeSize
  set w := writerReset true dataPtr 0#32 with hw
  set cs := insnsAt true mem start n with hcs
  have hcslen : cs.length = n := insnsAt_length start n
  obtain ⟨-, hle, hbytes⟩ := @insnsSize_bounds true mem start n
  have hn' := insnsAt_count hsize hmin
  have hrecords : ∀ b ∈ [] ++ prologueRecords true w 0 cs, b.originInsn ∈ cs := by
    intro b hb
    rw [← @prologueRecords_origin true w 0 cs]
    exact List.mem_map_of_mem hb
  have hitems : (invokePieces true w start cs).map Item.emission
      = (prologueItems true w cs).map Item.emission ++ (jumpPieces true
          (w.emit ((prologueItems true w cs).map Item.emission))
          (returnAddress true start (insnsSize cs))).map Item.emission := List.map_append
  refine ⟨invokePieces true w start cs, ?_⟩
  rw [he]
  refine ⟨⟨?_, ⟨w.currentPc, ?_⟩, ?_⟩, ?_, heven, ?_, hbytes, ?_, ?_, ?_, ?_⟩
  · exact (AssemblerWriter.emit_buffer w _).trans (List.nil_append _)
  · rw [AssemblerWriter.emit_wStartAddress]
    rfl
  · have hjump := @length_jumpItems
      (w.emit ((prologueItems true w cs).map Item.emission)).offWord
      (returnAddress true start (insnsSize cs)) 0
    have hblocks := length_prologueItems true w cs
    have hlen : (itemHalves (invokePieces true w start cs)).length
        = (itemHalves (prologueItems true w cs)).length + (itemHalves (jumpItems
          (w.emit ((prologueItems true w cs).map Item.emission)).offWord
          (returnAddress true start (insnsSize cs)) 0)).length := by
      rw [invokePieces, itemHalves_append, List.length_append]
      rfl
    omega
  · exact BitVec.add_sub_cancel start (pcBias true)
  · exact lt_of_le_of_lt hle (by omega)
  · intro b hb
    obtain ⟨k, -, hk, ha, hpc⟩ := mem_insnsAt (hrecords b hb)
    refine ⟨?_, ?_⟩
    · rw [ha, BitVec.toNat_add, BitVec.toNat_ofNat]
      omega
    · rw [hpc]
      exact BitVec.add_sub_cancel _ (pcBias true)
  · have horigin : (([] ++ prologueRecords true w 0 cs).map
        fun b : RelocatorInstruction => b.originInsn.address)
        = cs.map ARMInstruction.address := by
      rw [← congrArg (List.map ARMInstruction.address) (@prologueRecords_origin true w 0 cs),
        List.map_map]
      rfl
    rw [show (Relocator.init input output).relocatorInsns = [] from rfl, horigin]
    exact nodup_insnsAt (lt_of_le_of_lt hle (by omega))
  · intro b hb
    obtain ⟨hstart, hlt⟩ := @mem_prologueRecords true w 0 cs _ hb
    rw [Nat.zero_add] at hlt
    rw [hstart]
    refine AssemblerWriter.exists_emission (w := w) rfl rfl ?_
    rw [List.length_map, invokePieces, List.length_append]
    have hjump : 0 < (jumpPieces true (w.emit ((prologueItems true w cs).map Item.emission))
        (returnAddress true start (insnsSize cs))).length := by
      rw [jumpPieces, if_pos rfl, jumpItems, List.length_append]
      exact Nat.succ_pos _
    omega
  · intro v k hv
    rcases List.mem_append.mp hv with hv | hv
    · refine (literal_mem_prologueItems hv).imp_right ?_
      rintro ⟨c, hc, rfl⟩
      obtain ⟨m, -, hm, ha, hpc⟩ := mem_insnsAt hc
      rw [hpc, ha, show pcBias true = 4#32 from rfl]
      simp only [BitVec.toNat_add, BitVec.toNat_ofNat]
      omega
    · exact Or.inl ((literal_mem_jumpItems hv).2.trans_le (Nat.zero_le 1))

end Redirect

end Relocator

/-- **When the literals of a trampoline are redirected**: for every prologue
whose literals refer to its instructions, the pass over them does what is
promised exactly if none of those it looks up is odd. A prologue at the end of
memory, where the range test admits nothing, has no literal inside. -/
theorem relocateWriter_redirects_iff (mem : Mem) (input : ARMReader) (output : AssemblerWriter)
    (dataPtr target : Word) {redirectCodeSize : ℕ} (hsize : redirectCodeSize ≤ 256)
    {r : Relocator} (hr : invokeCode true mem (Relocator.init input output) dataPtr
      (withoutBit0 target) redirectCodeSize = r)
    (hb : ∀ l ∈ r.literalInsns,
      InPrologue (withoutBit0 target) r.input.size (withoutBit0 (r.literalAt l)) →
        ∃ b ∈ r.relocatorInsns, b.originInsn.address = withoutBit0 (r.literalAt l)) :
    (∀ finalRelocateAddress, ∃ r', r.thumbRelocateWriter finalRelocateAddress = some r'
        ∧ ∀ l ∈ r.literalInsns,
          LiteralRedirected r r' (withoutBit0 target) finalRelocateAddress l)
      ↔ ∀ l ∈ r.literalInsns, (r.InRange 4#32 (r.literalAt l) → (r.literalAt l).toNat % 2 = 0)
        ∧ (InPrologue (withoutBit0 target) r.input.size (withoutBit0 (r.literalAt l)) →
          (withoutBit0 target).toNat + r.input.size < 2 ^ 32) := by
  have heven : (withoutBit0 target).toNat % 2 = 0 := by
    rw [toNat_withoutBit0]
    exact Nat.mul_mod_left _ 2
  obtain ⟨is, h⟩ := invokeCode_prologueWritten mem input output dataPtr heven hsize
  rw [hr] at h
  exact h.redirects_iff hb

/-- The code of the trampoline of a Thumb function at 0x8000. -/
def invokeCodeAt (hs : List Half) : Relocator :=
  invokeCode true (codeAt hs) (Relocator.init (thumbReaderReset 0#32)
    (AssemblerWriter.thumbReset 0#32 0#32)) 0x1000#32 (withoutBit0 0x8001#32) 8

/-- A load of a word of the prologue: `LDR R0, [PC, #0]` and three `NOP`s. -/
theorem relocateWriter_redirects_iff_load :
    ∃ r', (invokeCodeAt [0x4800#16, 0x46C0#16, 0x46C0#16, 0x46C0#16]).thumbRelocateWriter
        0x9000#32 = some r'
      ∧ ∀ l ∈ (invokeCodeAt [0x4800#16, 0x46C0#16, 0x46C0#16, 0x46C0#16]).literalInsns,
        LiteralRedirected (invokeCodeAt [0x4800#16, 0x46C0#16, 0x46C0#16, 0x46C0#16]) r'
          (withoutBit0 0x8001#32) 0x9000#32 l :=
  (relocateWriter_redirects_iff (codeAt [0x4800#16, 0x46C0#16, 0x46C0#16, 0x46C0#16]) _ _
    0x1000#32 0x8001#32 (by decide) rfl (by decide)).mpr (by decide) 0x9000#32

/-- A call: its return address is odd and no block is found there. -/
theorem relocateWriter_return_address :
    ¬ ∀ (mem : Mem) (input : ARMReader) (output : AssemblerWriter) (dataPtr target : Word)
      (redirectCodeSize : ℕ) (r : Relocator), redirectCodeSize ≤ 256 →
      invokeCode true mem (Relocator.init input output) dataPtr (withoutBit0 target)
        redirectCodeSize = r →
      (∀ l ∈ r.literalInsns,
        InPrologue (withoutBit0 target) r.input.size (withoutBit0 (r.literalAt l)) →
          ∃ b ∈ r.relocatorInsns, b.originInsn.address = withoutBit0 (r.literalAt l)) →
      ∀ finalRelocateAddress, ∃ r', r.thumbRelocateWriter finalRelocateAddress = some r'
        ∧ ∀ l ∈ r.literalInsns,
          LiteralRedirected r r' (withoutBit0 target) finalRelocateAddress l := by
  intro h
  obtain ⟨r', hr', -⟩ := h (codeAt [0xF000#16, 0xF802#16, 0x46C0#16, 0x46C0#16]) _ _ 0x1000#32
    0x8001#32 8 (invokeCodeAt [0xF000#16, 0xF802#16, 0x46C0#16, 0x46C0#16]) (by decide) rfl
    (by decide) 0x9000#32
  have hnone : (invokeCodeAt [0xF000#16, 0xF802#16, 0x46C0#16, 0x46C0#16]).thumbRelocateWriter
      0x9000#32 = none := by decide
  exact absurd (hnone.symm.trans hr') nofun

end HookZz
