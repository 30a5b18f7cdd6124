import AndroidReverse.HookZzTrampoline
import AndroidReverse.HookZzRedirect

/-!
# The invoke trampoline

The copy of the prologue that a hook leaves in place of the target's own. It
has to stand for everything that is overwritten, and to go on at an
instruction behind it: `Covers` says so, in terms of how the instruction set
cuts memory into instructions. The reader, the relocator and the writer keep a
cursor each and are reset at different times; `buildInvokeTrampoline_covers`
is about a backend that has built any number of hooks before.
-/

namespace HookZz

open Arm Relocate Relocator

/-! ## Instructions and their boundaries -/

section Boundary

variable (thumb : Bool) (mem : Mem)

/-- The size of the instruction at an address, according to the
architecture. -/
def archSize (addr : Word) : ℕ :=
  if thumb then if isThumb32 (mem.read16 addr) then 4 else 2 else 4

/-- **The instruction boundaries** from an address on, as distances from it. -/
inductive Boundary (addr : Word) : ℕ → Prop where
  /-- The address itself. -/
  | start : Boundary addr 0
  /-- The end of an instruction that begins at a boundary. -/
  | next {k : ℕ} (h : Boundary addr k) :
      Boundary addr (k + archSize thumb mem (addr + BitVec.ofNat 32 k))

/-- **Instructions that follow one another** from an address on, each of them
read whole. -/
def WholeInsns : Word → List ARMInstruction → Prop
  | _, [] => True
  | addr, c :: cs => c = insnAt thumb mem addr ∧ c.size = archSize thumb mem addr
      ∧ WholeInsns (addr + BitVec.ofNat 32 c.size) cs

variable {thumb mem}

theorem insnAt_size_arch (addr : Word) :
    (insnAt thumb mem addr).size = archSize thumb mem addr := by
  cases thumb with
  | false => rfl
  | true => exact thumbInsnAt_size mem addr

theorem wholeInsns_insnsAt (addr : Word) (n : ℕ) :
    WholeInsns thumb mem addr (insnsAt thumb mem addr n) := by
  induction n generalizing addr with
  | zero => trivial
  | succ n ih => exact ⟨rfl, insnAt_size_arch addr, ih _⟩

/-- What has been read ends at a boundary. -/
theorem boundary_insnsAt (addr : Word) (n : ℕ) :
    Boundary thumb mem addr (insnsSize (insnsAt thumb mem addr n)) := by
  induction n with
  | zero => exact .start
  | succ n ih =>
    rw [insnsAt_succ, insnsSize_append]
    have hsize : insnsSize [insnAt thumb mem
        (addr + BitVec.ofNat 32 (insnsSize (insnsAt thumb mem addr n)))]
          = archSize thumb mem (addr + BitVec.ofNat 32 (insnsSize (insnsAt thumb mem addr n))) :=
      List.sum_singleton.trans (insnAt_size_arch _)
    rw [hsize]
    exact .next ih

end Boundary

/-! ## What the trampoline has to be -/

/-- The halfwords of the jump to a literal. -/
def jumpHalves (thumb offWord : Bool) (v : Word) : List Half :=
  (if thumb then AssemblerWriter.ldrPcCode offWord else
      [.arm 0xE51FF004#32]).flatMap Emission.halves
    ++ addressBytes v

/-- **An invoke trampoline that stands for the bytes that are overwritten.** -/
structure Covers (thumb : Bool) (mem : Mem) (addr : Word) (redirectCodeSize : ℕ) (r : Relocator) :
    Prop where
  /-- Whole instructions have been read, one after the other. -/
  whole : WholeInsns thumb mem addr r.input.insns
  /-- Their bytes have been counted. -/
  size : r.input.size = insnsSize r.input.insns
  /-- They take at least as many bytes as are overwritten. -/
  enough : redirectCodeSize ≤ r.input.size
  /-- Without the last one they would take fewer. -/
  least : ∀ cs c, r.input.insns = cs ++ [c] → insnsSize cs < redirectCodeSize
  /-- There is a block for each of them, in order. -/
  blocks : r.relocatorInsns.map RelocatorInstruction.originInsn = r.input.insns
  /-- The blocks follow one another and are all there is in front of a jump. -/
  jump : ∃ k X, Consecutive 0 k r.relocatorInsns
    ∧ ((r.output.insns.take k).map ARMInstruction.size).sum = 2 * X.length
    ∧ r.output.buffer = X ++ jumpHalves thumb (decide (X.length % 2 = 1))
        (returnAddress thumb addr r.input.size)
  /-- The jump goes to an instruction. -/
  boundary : Boundary thumb mem addr r.input.size
  /-- It says which instruction set that is of. -/
  bit0 : (returnAddress thumb addr r.input.size).getLsbD 0 = thumb

section Covers

variable {thumb : Bool} {mem : Mem} {addr : Word} {redirectCodeSize : ℕ}

theorem itemHalves_jumpPieces (w : AssemblerWriter) (v : Word) :
    itemHalves (jumpPieces thumb w v) = jumpHalves thumb w.offWord v := by
  cases thumb with
  | false => rfl
  | true =>
    show itemHalves (jumpItems w.offWord v 0) = _
    rw [jumpItems, itemHalves_append, itemHalves_codeItems]
    rfl

/-- The phase a jump is written at. -/
theorem jumpHalves_emit (dataPtr v : Word) (es : List Emission) :
    jumpHalves thumb ((writerReset thumb dataPtr 0#32).emit es).offWord v
      = jumpHalves thumb (decide ((es.flatMap Emission.halves).length % 2 = 1)) v := by
  cases thumb with
  | false => rfl
  | true =>
    rw [AssemblerWriter.offWord_emit _ (@writerFits_reset true dataPtr rfl),
      show (writerReset true dataPtr 0#32).offWord = ((0#32 + 4#32 : Word).toNat % 4 != 0) from rfl]
    exact congrArg (jumpHalves true · v) (Bool.false_xor _)

theorem returnAddress_bit0 (haddr : addr.toNat % 2 = 0) {size : ℕ} (hsize : size % 2 = 0) :
    (returnAddress thumb addr size).getLsbD 0 = thumb := by
  have hsum : (addr + BitVec.ofNat 32 size).toNat % 2 = 0 := by
    rw [BitVec.toNat_add, BitVec.toNat_ofNat]
    omega
  cases thumb with
  | false =>
    show Nat.testBit (addr + BitVec.ofNat 32 size).toNat 0 = false
    rw [Nat.testBit_zero, hsum]
    rfl
  | true =>
    have hone : (addr + BitVec.ofNat 32 size + 1#32).toNat % 2 = 1 := by
      rw [BitVec.toNat_add, show (1#32).toNat = 1 from rfl]
      omega
    show Nat.testBit (addr + BitVec.ofNat 32 size + 1#32).toNat 0 = true
    rw [Nat.testBit_zero, hone]
    rfl

/-- Pieces that register nothing do not show among the literals. -/
theorem registeredRecords_append {is js : List Item} (h : ∀ i ∈ js, i.registered = 0)
    (pc address : Word) :
    registeredRecords pc address (is ++ js) = registeredRecords pc address is := by
  induction is generalizing pc address with
  | nil =>
    rw [List.nil_append, registeredRecords]
    induction js generalizing pc address with
    | nil => rfl
    | cons j js ih =>
      rw [registeredRecords, h j List.mem_cons_self, List.replicate_zero, List.nil_append]
      exact ih (fun i hi => h i (List.mem_cons_of_mem j hi)) _ _
  | cons i is ih => rw [List.cons_append, registeredRecords, registeredRecords, ih]

theorem jumpPieces_registered (w : AssemblerWriter) (v : Word) :
    ∀ i ∈ jumpPieces thumb w v, i.registered = 0 := by
  have hcode : ∀ es : List Emission, ∀ i ∈ codeItems es ++ [Item.literal v 0],
    i.registered = 0 := by
    intro es i hi
    rcases List.mem_append.mp hi with hi | hi
    · obtain ⟨e, -, rfl⟩ := List.mem_map.mp hi
      rfl
    · rw [List.mem_singleton.mp hi]
      rfl
  cases thumb with
  | false => exact hcode _
  | true => exact hcode _

/-- **The code of a trampoline covers the prologue**, whatever becomes of the
literals in the blocks: `X` are the blocks and `Y` is the jump. -/
theorem invokeCode_covers (haddr : addr.toNat % 2 = 0) (hpos : 0 < redirectCodeSize)
    (hmax : redirectCodeSize ≤ 256) {self : Relocator} (hself : self.relocatorInsns = [])
    (dataPtr : Word) {r : Relocator}
    (hr : invokeCode thumb mem self dataPtr addr redirectCodeSize = r) :
    ∃ is : List Item, ∃ Y : List Half, r.output.buffer = itemHalves is ++ Y
      ∧ (∃ pc, r.literalInsns = registeredRecords pc r.output.wStartAddress is)
      ∧ 2 * (itemHalves is).length < 2 ^ 32
      ∧ ∀ Z : List Half, Z.length = (itemHalves is).length →
        Covers thumb mem addr redirectCodeSize (r.withBuffer (Z ++ Y)) := by
  obtain ⟨n, hn, he, henough, hmin⟩ := @invokeCode_eq thumb mem self dataPtr addr
    redirectCodeSize
  obtain ⟨-, -, heven⟩ := @insnsSize_bounds thumb mem addr n
  have hcount := insnsAt_count hmax hmin
  rw [he, hself, List.nil_append] at hr
  set w := writerReset thumb dataPtr 0#32 with hw
  set cs := insnsAt thumb mem addr n with hcs
  set blocks := prologueItems thumb w cs with hblocks
  set es := blocks.map Item.emission with hes
  have hlen : cs.length = n := insnsAt_length addr n
  have hpieces : (invokePieces thumb w addr cs).map Item.emission
      = es ++ (jumpPieces thumb (w.emit es) (returnAddress thumb addr (insnsSize cs))).map
          Item.emission := List.map_append
  have hjump : jumpHalves thumb (w.emit es).offWord (returnAddress thumb addr (insnsSize cs))
      = jumpHalves thumb (decide ((itemHalves blocks).length % 2 = 1))
          (returnAddress thumb addr (insnsSize cs)) := jumpHalves_emit dataPtr _ es
  refine ⟨blocks, jumpHalves thumb (decide ((itemHalves blocks).length % 2 = 1))
    (returnAddress thumb addr (insnsSize cs)), ?_, ⟨w.currentPc, ?_⟩, ?_, fun Z hZ => ?_⟩
  · rw [← hr, ← hjump, ← itemHalves_jumpPieces, ← itemHalves_append]
    show (w.emit ((invokePieces thumb w addr cs).map Item.emission)).buffer = _
    rw [AssemblerWriter.emit_buffer]
    cases thumb <;> rfl
  · rw [← hr, AssemblerWriter.emit_wStartAddress]
    have hstart : w.wCurrentAddress = w.wStartAddress := by
      rw [hw]
      cases thumb <;> rfl
    rw [← hstart]
    exact registeredRecords_append (jumpPieces_registered _ _) w.currentPc w.wCurrentAddress
  · have hle := length_prologueItems thumb w cs
    rw [hlen, ← hblocks] at hle
    omega
  · subst hr
    exact {
      whole := wholeInsns_insnsAt addr n
      size := rfl
      enough := henough
      least := by
        intro cs' c hcs'
        obtain ⟨m, rfl⟩ := Nat.exists_eq_succ_of_ne_zero hn.ne'
        have hsplit := (@insnsAt_succ thumb mem addr m).symm.trans hcs'
        rw [← (List.append_inj' hsplit rfl).1]
        rcases Nat.eq_zero_or_pos m with rfl | hm
        · exact hpos
        · exact hmin m hm (Nat.lt_succ_self m)
      blocks := prologueRecords_origin w 0 cs
      jump := by
        refine ⟨blocks.length, Z, ?_, ?_, ?_⟩
        · have h := @prologueRecords_consecutive thumb w 0 cs
          rwa [Nat.zero_add] at h
        · show (((w.emit ((invokePieces thumb w addr cs).map Item.emission)).insns.take
            blocks.length).map ARMInstruction.size).sum = 2 * Z.length
          rw [AssemblerWriter.emit_insns, hw, writerReset_insns, List.nil_append, List.map_take,
            AssemblerWriter.map_size_records, ← List.map_take, AssemblerWriter.sum_map_size, hpieces,
            List.take_left' (List.length_map ..), hZ]
          rfl
        · rw [hZ]
          rfl
      boundary := boundary_insnsAt addr n
      bit0 := returnAddress_bit0 haddr heven }

end Covers

/-! ## Every hook -/

theorem targetAddr_even (targetPtr : Word) : (targetAddr targetPtr).toNat % 2 = 0 := by
  unfold targetAddr instructionIsThumb
  have hbit : (targetPtr &&& 1#32).toNat = targetPtr.toNat % 2 :=
    (BitVec.toNat_and ..).trans (Nat.and_one_is_mod _)
  split
  · rw [show ~~~1#32 = 0xFFFFFFFE#32 from rfl, toNat_align2]
    exact Nat.mul_mod_left _ 2
  · rename_i h
    rcases Nat.mod_two_eq_zero_or_one targetPtr.toNat with h0 | h1
    · exact h0
    · refine absurd ?_ h
      rw [beq_iff_eq, ← BitVec.toNat_inj, hbit, h1]
      rfl

/-- Patching the code of a trampoline keeps what covers. -/
theorem covers_relocateCodePatch {thumb : Bool} {mem : Mem} {addr : Word} {redirectCodeSize : ℕ}
    {r r' : Relocator} {world world' : World} {slice : Option Word} {is : List Item} {Y : List Half}
    (hbuf : r.output.buffer = itemHalves is ++ Y)
    (hlit : ∃ pc, r.literalInsns = registeredRecords pc r.output.wStartAddress is)
    (hfits : 2 * (itemHalves is).length < 2 ^ 32)
    (hcov : ∀ Z : List Half, Z.length = (itemHalves is).length →
      Covers thumb mem addr redirectCodeSize (r.withBuffer (Z ++ Y)))
    (h : relocateCodePatch thumb r world = some (slice, r', world')) :
    Covers thumb mem addr redirectCodeSize r' := by
  have hself : Covers thumb mem addr redirectCodeSize r := by
    have hc := hcov (itemHalves is) rfl
    rwa [← hbuf, withBuffer_self] at hc
  have hpass : ∀ (bias a : Word) (r'' : Relocator),
      r.literalInsns.foldlM (relocateLiteral bias a) r = some r'' →
        Covers thumb mem addr redirectCodeSize r'' := by
    intro bias a r'' hr''
    obtain ⟨pc, hlit⟩ := hlit
    have hrun := @relocate_items r bias a is [] Y pc _
      (BitVec.add_zero r.output.wStartAddress).symm hfits
    rw [List.nil_append, ← hbuf, withBuffer_self, ← hlit, hr''] at hrun
    obtain ⟨Z, hZ, rfl⟩ := Option.map_eq_some_iff.mp hrun.symm
    exact hcov Z (length_relocatedHalves hZ)
  unfold relocateCodePatch at h
  split at h
  · rw [← (Prod.mk.inj (Prod.mk.inj (Option.some_inj.mp h)).2).1]
    exact hself
  · rename_i data w _
    obtain ⟨r'', hr'', h⟩ := Option.map_eq_some_iff.mp h
    have hcov'' : Covers thumb mem addr redirectCodeSize r'' := by
      cases thumb with
      | false => exact hpass _ _ _ hr''
      | true => exact hpass _ _ _ hr''
    split at h
    · rwa [← (Prod.mk.inj (Prod.mk.inj h).2).1]
    · rwa [← (Prod.mk.inj (Prod.mk.inj h).2).1]

/-- **The invoke trampoline covers the prologue.** For every target and every
content of it, on a backend that has been used in any way before: if the
preparation succeeds for a hook of a function or for instrumentation, what the
relocator has written when the trampoline is patched in covers the bytes the
preparation has chosen to overwrite, and still does after that. The state is
the one `ZzBuildTrampoline` has got to (`buildTrampoline_eq`). -/
theorem buildInvokeTrampoline_covers {s : HookState}
    (htype : s.entry.hookType ≠ .oneInstruction)
    (hprep : (prepareTrampoline s).1 = .success) :
    ∃ redirectCodeSize, (beforeInvoke s).entry.redirectCodeSize = some redirectCodeSize
      ∧ Covers (instructionIsThumb s.entry.targetPtr) (beforeInvoke s).world.mem
          (targetAddr s.entry.targetPtr) redirectCodeSize (invokeRelocator (beforeInvoke s))
      ∧ ∀ status s', buildInvokeTrampoline (beforeInvoke s) = some (status, s') →
        Covers (instructionIsThumb s.entry.targetPtr) (beforeInvoke s).world.mem
          (targetAddr s.entry.targetPtr) redirectCodeSize
          (if instructionIsThumb s.entry.targetPtr then s'.backend.thumbRelocator
            else s'.backend.armRelocator) := by
  obtain ⟨tryNearJump, k, hk, hsize, htarget, -, harm, hthumb⟩ := prepareTrampoline_success hprep
  have hkeep := beforeInvoke_keeps s
  have hsize' := hkeep.redirectCodeSize.trans hsize
  have htarget' := hkeep.targetPtr.trans htarget
  have htype' : (beforeInvoke s).entry.hookType ≠ .oneInstruction := by
    rw [hkeep.hookType, prepareTrampoline_hookType]
    exact htype
  have hbound : 0 < k ∧ k ≤ 256 := by
    rcases chooseRedirect_size hk with rfl | hk
    · decide
    · split at hk <;> rw [hk] <;> decide
  have hinvoke : invokeCode (instructionIsThumb s.entry.targetPtr) (beforeInvoke s).world.mem
      (if instructionIsThumb s.entry.targetPtr then (beforeInvoke s).backend.thumbRelocator
        else (beforeInvoke s).backend.armRelocator)
      (beforeInvoke s).world.tempCodeSlice (targetAddr s.entry.targetPtr) k
        = invokeRelocator (beforeInvoke s) := by
    unfold invokeRelocator
    dsimp only
    rw [if_neg htype', hsize', htarget']
    rfl
  have hnew : (if instructionIsThumb s.entry.targetPtr then (beforeInvoke s).backend.thumbRelocator
      else (beforeInvoke s).backend.armRelocator).relocatorInsns = [] := by
    split
    · rw [hkeep.thumb, hthumb]
    · rw [hkeep.arm, harm]
  obtain ⟨is, Y, hbuf, hlit, hfits, hcov⟩ := invokeCode_covers (targetAddr_even _) hbound.1 hbound.2
    hnew _ hinvoke
  refine ⟨k, hsize', ?_, fun status s' h => ?_⟩
  · have hc := hcov (itemHalves is) rfl
    rwa [← hbuf, withBuffer_self] at hc
  · unfold buildInvokeTrampoline at h
    dsimp only at h
    rw [htarget'] at h
    obtain ⟨⟨slice, r', world⟩, hr', hs⟩ := Option.map_eq_some_iff.mp h
    have hc := covers_relocateCodePatch hbuf hlit hfits hcov hr'
    have hbackend : s'.backend = if instructionIsThumb s.entry.targetPtr
        then { (beforeInvoke s).backend with thumbRelocator := r' }
        else { (beforeInvoke s).backend with armRelocator := r' } := by
      cases slice <;> rw [← (Prod.mk.inj hs).2]
    rw [hbackend]
    split
    · exact hc
    · exact hc

/-- A hook of the function at an address, in a world of halfwords from 0x8000
on. -/
def hookAt (hs : List Half) (hookType : HookType) (targetPtr : Word) (tryNearJump : Bool) :
    HookState where
  backend := ⟨relocatorAt (codeAt hs) 0#32 0#32, relocatorAt (codeAt hs) 0#32 0#32, 0x7001#32,
    0x7101#32, 0x7201#32, 0x7301#32⟩
  entry := ⟨0x1000#32, hookType, 0, false, tryNearJump, 0#32, targetPtr, 0#32, 0#32, 0#32, 0#32,
    0#32, 0#32, 0#32, 0#32, 0#32, 0#32, 0#32, ⟨0#32, 0, []⟩, none⟩
  world := ⟨codeAt hs, 0x2000#32, [some 0x9000#32, some 0x9100#32, some 0x9200#32], []⟩

/-- `PUSH {R4, LR}`, `MOV.W R0, #0`, `BX LR` and `NOP`s at a Thumb address off a
word boundary. -/
theorem buildInvokeTrampoline_covers_prePost :
    ∃ redirectCodeSize,
      (beforeInvoke (hookAt [0xBF00#16, 0xB510#16, 0xF04F#16, 0x0000#16, 0x4770#16, 0xBF00#16]
        .functionViaPrePost 0x8003#32 false)).entry.redirectCodeSize = some redirectCodeSize
      ∧ Covers true (beforeInvoke (hookAt [0xBF00#16, 0xB510#16, 0xF04F#16, 0x0000#16, 0x4770#16,
          0xBF00#16] .functionViaPrePost 0x8003#32 false)).world.mem
          (targetAddr 0x8003#32) redirectCodeSize
          (invokeRelocator (beforeInvoke (hookAt [0xBF00#16, 0xB510#16, 0xF04F#16, 0x0000#16,
            0x4770#16, 0xBF00#16] .functionViaPrePost 0x8003#32 false))) := by
  obtain ⟨k, hk, hc, -⟩ := buildInvokeTrampoline_covers (s := hookAt [0xBF00#16, 0xB510#16,
    0xF04F#16, 0x0000#16, 0x4770#16, 0xBF00#16] .functionViaPrePost 0x8003#32 false) (by decide)
    (by decide)
  exact ⟨k, hk, hc⟩

end HookZz
