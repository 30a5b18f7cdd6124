import AndroidReverse.ArmRun

/-!
# Code that works on a frame

Code that saves and restores registers and passes addresses of what it has
saved works on the words below a stack pointer and on little else. Here those
words are slots of a frame, numbered from its lowest address, and the stack
pointer is the number of a slot. `FrameState` is what such code sees, and
`FrameOp` what it does to it, one instruction or one literal load at a time.

`InFrame` ties a frame to a processor: the registers and the slots are as
described, and memory outside the frame is as it was. Code in memory then stays
what it is as long as it is not in the frame, so the pieces of a straight-line
program can be run one after the other (`FrameCode.run`), and what they leave
is computed from the list of their operations.
-/

namespace Arm

/-- The processor gets from a state to another. -/
def Reaches : State → State → Prop := Relation.ReflTransGen fun s t => step s = some t

theorem Reaches.refl (s : State) : Reaches s s := Relation.ReflTransGen.refl

theorem Reaches.single {s t : State} (h : step s = some t) : Reaches s t :=
  Relation.ReflTransGen.single h

theorem Reaches.trans {s t u : State} (h : Reaches s t) (h' : Reaches t u) : Reaches s u :=
  Relation.ReflTransGen.trans h h'

/-- A run within a block is a run. -/
theorem RunsWithin.reaches {base : Word} {len : ℕ} {s t : State} (h : RunsWithin base len s t) :
    Reaches s t :=
  Relation.ReflTransGen.mono (fun _ _ hstep => hstep.2) s t h

/-! ## Slots -/

/-- The address of a slot. -/
def slotAddr (base : Word) (k : ℕ) : Word := base + BitVec.ofNat 32 (4 * k)

theorem slotAddr_add (base : Word) (j k : ℕ) :
    slotAddr base j + BitVec.ofNat 32 (4 * k) = slotAddr base (j + k) := by
  rw [slotAddr, slotAddr, BitVec.add_assoc, ← BitVec.ofNat_add, Nat.mul_add]

theorem slotAddr_sub (base : Word) {j k : ℕ} (h : k ≤ j) :
    slotAddr base j + -BitVec.ofNat 32 (4 * k) = slotAddr base (j - k) := by
  obtain ⟨i, rfl⟩ := Nat.exists_eq_add_of_le' h
  rw [← slotAddr_add, Nat.add_sub_cancel, BitVec.add_assoc, BitVec.add_right_neg, BitVec.add_zero]

section Slots

variable {m : Mem} {base v x : Word} {j k n : ℕ}

/-- The bytes of a word, by their offsets. -/
theorem exists_of_mem_wordBytes {a : Word} (hx : x ∈ wordBytes a) :
    ∃ i < 4, x = a + BitVec.ofNat 32 i := by
  simp only [wordBytes, List.mem_cons, List.not_mem_nil, or_false] at hx
  rcases hx with rfl | rfl | rfl | rfl
  · exact ⟨0, by decide, (BitVec.add_zero _).symm⟩
  · exact ⟨1, by decide, rfl⟩
  · exact ⟨2, by decide, rfl⟩
  · exact ⟨3, by decide, rfl⟩

/-- The bytes of a slot are in no other. -/
theorem not_inBlock_slot (hj : j < n) (hk : k < n) (hn : 4 * n ≤ 2 ^ 32) (h : j ≠ k)
    (hx : x ∈ wordBytes (slotAddr base k)) : ¬ InBlock (slotAddr base j) 4 x := by
  obtain ⟨i, hi, rfl⟩ := exists_of_mem_wordBytes hx
  unfold InBlock slotAddr
  rw [BitVec.toNat_sub, BitVec.toNat_add, BitVec.toNat_add, BitVec.toNat_add, BitVec.toNat_ofNat,
    BitVec.toNat_ofNat, BitVec.toNat_ofNat]
  have := base.isLt
  omega

/-- The bytes of a slot are in the frame. -/
theorem inBlock_slot (hk : k < n) (hn : 4 * n ≤ 2 ^ 32) (hx : x ∈ wordBytes (slotAddr base k)) :
    InBlock base (4 * n) x := by
  obtain ⟨i, hi, rfl⟩ := exists_of_mem_wordBytes hx
  rw [slotAddr, BitVec.add_assoc, ← BitVec.ofNat_add]
  exact inBlock_offset (by omega) (by omega)

/-- A slot is in the frame. -/
theorem not_inBlock_of_frame (hk : k < n) (h : ¬ InBlock base (4 * n) x) :
    ¬ InBlock (slotAddr base k) 4 x := by
  intro hin
  exact not_inBlock_part h (by omega : 4 * k + 4 ≤ 4 * n) hin

/-- **A slot that is written**, and the others. -/
theorem read32_write_slot (hj : j < n) (hk : k < n) (hn : 4 * n ≤ 2 ^ 32) :
    (m.write 4 (slotAddr base j) v).read32 (slotAddr base k)
      = Function.update (fun k => m.read32 (slotAddr base k)) j v k := by
  by_cases h : k = j
  · subst h
    rw [Mem.read32_write, Function.update_self]
  · rw [Function.update_of_ne h]
    exact Mem.read32_congr (fun x hx =>
      Mem.write_of_out m (not_inBlock_slot hj hk hn (Ne.symm h) hx))

end Slots

/-! ## Frames -/

/-- **What code on a frame sees**: the registers, the slot the stack pointer is
at, and the slots. -/
structure FrameState where
  /-- The registers, of which the stack pointer means nothing. -/
  reg : Reg → Word
  /-- Where the stack pointer is. -/
  sp : ℕ
  /-- What the slots hold. -/
  slot : ℕ → Word

/-- **What code on a frame does.** Slots are counted from the stack pointer. -/
inductive FrameOp where
  /-- Free slots. -/
  | up (k : ℕ)
  /-- Take slots. -/
  | down (k : ℕ)
  /-- Store a register. -/
  | store (r : Reg) (k : ℕ)
  /-- Load a register. -/
  | load (r : Reg) (k : ℕ)
  /-- Load a register and free its slot. -/
  | pop (r : Reg)
  /-- Set a register to the address of a slot. -/
  | lea (r : Reg) (k : ℕ)
  /-- Set a register. -/
  | set (r : Reg) (v : Word)
  /-- Do nothing. -/
  | skip
deriving DecidableEq

namespace FrameOp

/-- What becomes of a frame. -/
def exec (base : Word) (a : FrameState) : FrameOp → FrameState
  | up k => { a with sp := a.sp + k }
  | down k => { a with sp := a.sp - k }
  | store r k => { a with slot := Function.update a.slot (a.sp + k) (a.reg r) }
  | load r k => { a with reg := Function.update a.reg r (a.slot (a.sp + k)) }
  | pop r => { a with reg := Function.update a.reg r (a.slot a.sp), sp := a.sp + 1 }
  | lea r k => { a with reg := Function.update a.reg r (slotAddr base (a.sp + k)) }
  | set r v => { a with reg := Function.update a.reg r v }
  | skip => a

/-- Where the stack pointer is afterwards. -/
def spAfter (sp : ℕ) : FrameOp → ℕ
  | up k => sp + k
  | down k => sp - k
  | pop _ => sp + 1
  | _ => sp

theorem exec_sp (base : Word) (a : FrameState) (o : FrameOp) :
    (o.exec base a).sp = o.spAfter a.sp := by
  cases o <;> rfl

/-- A register other than the stack pointer and the program counter. -/
def plain (r : Reg) : Bool := r != SP && r != PC

/-- Whether an operation stays in a frame of `n` slots. -/
def fits (n sp : ℕ) : FrameOp → Bool
  | up _ => true
  | down k => k ≤ sp
  | store r k => plain r && sp + k < n
  | load r k => plain r && sp + k < n
  | pop r => plain r && sp < n
  | lea r _ => plain r
  | set r _ => plain r
  | skip => true

/-- Whether all operations of a list do. -/
def allFit (n sp : ℕ) : List FrameOp → Bool
  | [] => true
  | o :: os => o.fits n sp && allFit n (o.spAfter sp) os

end FrameOp

/-- **A processor with a frame** of `n` slots: what is outside is as in `m₀`. -/
structure InFrame (base : Word) (n : ℕ) (m₀ : Mem) (a : FrameState) (s : State) : Prop where
  reg : ∀ r, r ≠ SP → s.gpr r = a.reg r
  sp : s.gpr SP = slotAddr base a.sp
  slot : ∀ k < n, s.mem.read32 (slotAddr base k) = a.slot k
  out : ∀ x, ¬ InBlock base (4 * n) x → s.mem x = m₀ x

section Frame

variable {base : Word} {n : ℕ} {m₀ : Mem} {a : FrameState} {s : State}

/-- The frame of a processor as it is. -/
theorem InFrame.self (h : s.gpr SP = slotAddr base a.sp) :
    InFrame base n s.mem ⟨s.gpr, a.sp, fun k => s.mem.read32 (slotAddr base k)⟩ s :=
  ⟨fun _ _ => rfl, h, fun _ _ => rfl, fun _ _ => rfl⟩

/-- Only the registers and the memory matter. -/
theorem InFrame.congr {t : State} (h : InFrame base n m₀ a s) (hg : t.gpr = s.gpr)
    (hm : t.mem = s.mem) : InFrame base n m₀ a t where
  reg := hg ▸ h.reg
  sp := hg ▸ h.sp
  slot := hm ▸ h.slot
  out := hm ▸ h.out

theorem InFrame.goto (h : InFrame base n m₀ a s) (pc : Word) : InFrame base n m₀ a (s.goto pc) :=
  h.congr rfl rfl

/-- Code outside the frame is still there. -/
theorem InFrame.code (h : InFrame base n m₀ a s) {addr : Word} {hs : List Half}
    (hc : HalvesAt m₀ addr hs) (hout : ∀ k < 2 * hs.length,
      ¬ InBlock base (4 * n) (addr + BitVec.ofNat 32 k)) : HalvesAt s.mem addr hs :=
  hc.congr (fun k hk => h.out _ (hout k hk))

/-- A load of the program counter from the top of the stack is a jump. -/
theorem InFrame.popPc (h : InFrame base n m₀ a s) (hb : base.toNat % 4 = 0) (hk : a.sp < n)
    (pc next : Word) :
    (Op.ldr .word false true true PC SP 4#32).exec pc next s
      = (s.setReg SP (slotAddr base (a.sp + 1))).bxWritePC (a.slot a.sp) := by
  have hal : align4 (s.gpr SP) = s.gpr SP := by
    refine align4_of_aligned ?_
    rw [h.sp, slotAddr, BitVec.toNat_add, BitVec.toNat_ofNat]
    omega
  show (s.setReg SP (s.gpr SP + 4#32)).writeLoaded next PC (s.gpr SP) (s.mem.read32 (s.gpr SP)) = _
  rw [State.writeLoaded, if_pos rfl, if_pos hal, h.sp,
    show (4#32 : Word) = BitVec.ofNat 32 (4 * 1) from rfl, slotAddr_add, h.slot _ hk]

/-- **Setting a register.** -/
theorem InFrame.setReg (h : InFrame base n m₀ a s) {r : Reg} (hr : FrameOp.plain r = true)
    (v : Word) (pc : Word) :
    InFrame base n m₀ { a with reg := Function.update a.reg r v } ((s.setReg r v).goto pc) := by
  have hne : SP ≠ r := by
    rintro rfl
    exact absurd hr (by decide)
  refine ⟨fun r' hr' => ?_, ?_, h.slot, h.out⟩
  · show Function.update s.gpr r v r' = Function.update a.reg r v r'
    by_cases he : r' = r
    · rw [he, Function.update_self, Function.update_self]
    · rw [Function.update_of_ne he, Function.update_of_ne he, h.reg r' hr']
  · exact (Function.update_of_ne hne _ _).trans h.sp

/-- **Moving the stack pointer.** -/
theorem InFrame.move (h : InFrame base n m₀ a s) (k : ℕ) (pc : Word) :
    InFrame base n m₀ { a with sp := k } ((s.setReg SP (slotAddr base k)).goto pc) where
  reg := by
    intro r hr
    show Function.update s.gpr SP (slotAddr base k) r = a.reg r
    rw [Function.update_of_ne hr, h.reg r hr]
  sp := by
    show Function.update s.gpr SP (slotAddr base k) SP = slotAddr base k
    rw [Function.update_self]
  slot := h.slot
  out := h.out

/-- **Storing a word.** -/
theorem InFrame.store (h : InFrame base n m₀ a s) (hn : 4 * n ≤ 2 ^ 32) {k : ℕ} (hk : k < n)
    (v : Word) (pc : Word) :
    InFrame base n m₀ { a with slot := Function.update a.slot k v }
      ({ s with mem := s.mem.write 4 (slotAddr base k) v }.goto pc) := by
  refine ⟨h.reg, h.sp, fun j hj => ?_, fun x hx => ?_⟩
  · refine (read32_write_slot hk hj hn).trans ?_
    by_cases he : j = k
    · rw [he, Function.update_self]
      exact (Function.update_self k v a.slot).symm
    · rw [Function.update_of_ne he]
      exact (h.slot j hj).trans (Function.update_of_ne he v a.slot).symm
  · exact (Mem.write_of_out _ (not_inBlock_of_frame hk hx)).trans (h.out x hx)

/-! ## Instructions -/

/-- The instruction of an operation, if it does not depend on where it is. -/
def FrameOp.op : FrameOp → Option Op
  | up k => some (.addImm false SP SP (BitVec.ofNat 32 (4 * k)))
  | down k => some (.addImm false SP SP (-BitVec.ofNat 32 (4 * k)))
  | store r k => some (.str .word true true false r SP (BitVec.ofNat 32 (4 * k)))
  | load r k => some (.ldr .word true true false r SP (BitVec.ofNat 32 (4 * k)))
  | pop r => some (.ldr .word false true true r SP 4#32)
  | lea r k => some (.addImm false r SP (BitVec.ofNat 32 (4 * k)))
  | set _ _ => none
  | skip => some (.movReg false 8#4 8#4 0 0)

/-- **The instructions that operations stand for**, where the program counter
reads as `pc`. -/
inductive FrameOp.Means (pc : Word) : FrameOp → Op → Prop where
  | op {o : FrameOp} {op : Op} (h : o.op = some op) : Means pc o op
  | adr (r : Reg) (imm : Word) : Means pc (.set r (align4 pc + imm)) (.adr true r imm)

theorem FrameOp.plain_ne {r : Reg} (h : FrameOp.plain r = true) : r ≠ SP ∧ r ≠ PC := by
  revert h
  revert r
  decide

/-- **An instruction that stands for an operation** has its effect. -/
theorem FrameOp.Means.exec {o : FrameOp} {op : Op} {pc : Word} (ho : FrameOp.Means pc o op)
    (h : InFrame base n m₀ a s) (hn : 4 * n ≤ 2 ^ 32) (hfit : o.fits n a.sp = true) (next : Word) :
    ∃ t, op.exec pc next s = some t ∧ t.pc = next ∧ t.thumb = s.thumb ∧ t.flags = s.flags
      ∧ InFrame base n m₀ (o.exec base a) t := by
  cases ho with
  | adr r imm =>
    refine ⟨(s.setReg r (align4 pc + imm)).goto next, ?_, rfl, rfl, rfl,
      h.setReg hfit (align4 pc + imm) next⟩
    show s.writeResult next r (align4 pc + imm) = _
    rw [State.writeResult, if_neg (plain_ne hfit).2]
  | op ho =>
    cases o with
    | up k =>
      obtain rfl := Option.some_inj.mp ho
      refine ⟨(s.setReg SP (slotAddr base (a.sp + k))).goto next, ?_, rfl, rfl, rfl, h.move _ next⟩
      show some ((s.setReg SP (s.gpr SP + _)).goto next) = _
      rw [h.sp, slotAddr_add]
    | down k =>
      obtain rfl := Option.some_inj.mp ho
      refine ⟨(s.setReg SP (slotAddr base (a.sp - k))).goto next, ?_, rfl, rfl, rfl, h.move _ next⟩
      show some ((s.setReg SP (s.gpr SP + _)).goto next) = _
      rw [h.sp, slotAddr_sub base (of_decide_eq_true hfit)]
    | store r k =>
      obtain rfl := Option.some_inj.mp ho
      obtain ⟨hr, hk⟩ := (Bool.and_eq_true _ _).mp hfit
      have hread : s.readReg pc r = a.reg r := by
        rw [State.readReg, if_neg (plain_ne hr).2, h.reg r (plain_ne hr).1]
      refine ⟨State.goto { s with mem := s.mem.write 4 (slotAddr base (a.sp + k)) (a.reg r) } next,
        ?_, rfl, rfl, rfl, h.store hn (of_decide_eq_true hk) (a.reg r) next⟩
      show some ({ s with mem := s.mem.write 4 (s.gpr SP + _) (s.readReg pc r) }.goto next) = _
      rw [h.sp, slotAddr_add, hread]
    | load r k =>
      obtain rfl := Option.some_inj.mp ho
      obtain ⟨hr, hk⟩ := (Bool.and_eq_true _ _).mp hfit
      refine ⟨(s.setReg r (a.slot (a.sp + k))).goto next, ?_, rfl, rfl, rfl,
        h.setReg hr (a.slot (a.sp + k)) next⟩
      show s.writeLoaded next r _ (s.mem.read32 (s.gpr SP + _)) = _
      rw [h.sp, slotAddr_add, h.slot _ (of_decide_eq_true hk), State.writeLoaded,
        if_neg (plain_ne hr).2]
    | pop r =>
      obtain rfl := Option.some_inj.mp ho
      obtain ⟨hr, hk⟩ := (Bool.and_eq_true _ _).mp hfit
      refine ⟨(((s.setReg SP (slotAddr base (a.sp + 1))).goto next).setReg r (a.slot a.sp)).goto
        next, ?_, rfl, rfl, rfl, (h.move (a.sp + 1) next).setReg hr (a.slot a.sp) next⟩
      show (s.setReg SP (s.gpr SP + 4#32)).writeLoaded next r _ (s.mem.read32 (s.gpr SP)) = _
      rw [h.sp, show (4#32 : Word) = BitVec.ofNat 32 (4 * 1) from rfl, slotAddr_add,
        h.slot _ (of_decide_eq_true hk), State.writeLoaded, if_neg (plain_ne hr).2]
      rfl
    | lea r k =>
      obtain rfl := Option.some_inj.mp ho
      refine ⟨(s.setReg r (slotAddr base (a.sp + k))).goto next, ?_, rfl, rfl, rfl,
        h.setReg hfit (slotAddr base (a.sp + k)) next⟩
      show s.writeResult next r (s.gpr SP + _) = _
      rw [h.sp, slotAddr_add, State.writeResult, if_neg (plain_ne hfit).2]
    | set r v => exact absurd ho nofun
    | skip =>
      obtain rfl := Option.some_inj.mp ho
      refine ⟨s.goto next, ?_, rfl, rfl, rfl, h.goto next⟩
      show some ((s.setReg 8#4 (s.gpr 8#4)).goto next) = _
      rw [State.setReg, Function.update_eq_self]

/-! ## Pieces of code -/

/-- **A piece of code does an operation**: from its beginning to its end, with
the flags as they were. -/
def FrameOp.DoneBy (base : Word) (n : ℕ) (m₀ : Mem) (thumb : Bool) (addr : Word) (piece : List Half)
    (o : FrameOp) : Prop :=
  ∀ a s, s.thumb = thumb → s.pc = addr → HalvesAt s.mem addr piece → InFrame base n m₀ a s →
    o.fits n a.sp = true → ∃ t, Reaches s t ∧ t.pc = addr + BitVec.ofNat 32 (2 * piece.length)
      ∧ t.thumb = thumb ∧ t.flags = s.flags ∧ InFrame base n m₀ (o.exec base a) t

/-- **Pieces of code, one behind the other**, that do operations. -/
inductive FrameCode (base : Word) (n : ℕ) (m₀ : Mem) (thumb : Bool) :
    Word → List (List Half × FrameOp) → Prop where
  | nil (addr : Word) : FrameCode base n m₀ thumb addr []
  | cons {addr : Word} {piece : List Half} {o : FrameOp} {rest : List (List Half × FrameOp)}
      (h : o.DoneBy base n m₀ thumb addr piece)
      (hrest : FrameCode base n m₀ thumb (addr + BitVec.ofNat 32 (2 * piece.length)) rest) :
      FrameCode base n m₀ thumb addr ((piece, o) :: rest)

/-- Pieces that do their operations wherever they are. -/
theorem FrameCode.of_forall {thumb : Bool} {items : List (List Half × FrameOp)}
    (h : ∀ i ∈ items, ∀ addr, i.2.DoneBy base n m₀ thumb addr i.1) (addr : Word) :
    FrameCode base n m₀ thumb addr items := by
  induction items generalizing addr with
  | nil => exact .nil addr
  | cons i items ih =>
    exact .cons (h i List.mem_cons_self addr) (ih (fun j hj => h j (List.mem_cons_of_mem i hj)) _)

theorem FrameCode.append {thumb : Bool} {addr : Word} {items rest : List (List Half × FrameOp)}
    (h : FrameCode base n m₀ thumb addr items)
    (hrest : FrameCode base n m₀ thumb
      (addr + BitVec.ofNat 32 (2 * (items.flatMap Prod.fst).length)) rest) :
    FrameCode base n m₀ thumb addr (items ++ rest) := by
  induction h with
  | nil addr => rwa [List.flatMap_nil, List.length_nil, Nat.mul_zero, BitVec.add_zero] at hrest
  | cons hdo _ ih =>
    refine .cons hdo (ih ?_)
    rwa [BitVec.add_assoc, ← BitVec.ofNat_add, ← Nat.mul_add, ← List.length_append]

/-- What a list of operations makes of a frame. -/
def execOps (base : Word) (a : FrameState) (items : List (List Half × FrameOp)) : FrameState :=
  items.foldl (fun a i => i.2.exec base a) a

/-- **Straight-line code runs** from its beginning to its end. -/
theorem FrameCode.run {thumb : Bool} {addr : Word} {items : List (List Half × FrameOp)}
    (hcode : FrameCode base n m₀ thumb addr items)
    (hc : HalvesAt m₀ addr (items.flatMap Prod.fst))
    (hout : ∀ k < 2 * (items.flatMap Prod.fst).length,
      ¬ InBlock base (4 * n) (addr + BitVec.ofNat 32 k))
    (ht : s.thumb = thumb) (hpc : s.pc = addr) (h : InFrame base n m₀ a s)
    (hfit : FrameOp.allFit n a.sp (items.map Prod.snd) = true) :
    ∃ t, Reaches s t ∧ t.pc = addr + BitVec.ofNat 32 (2 * (items.flatMap Prod.fst).length)
      ∧ t.thumb = thumb ∧ t.flags = s.flags ∧ InFrame base n m₀ (execOps base a items) t := by
  induction hcode generalizing s a with
  | nil addr => exact ⟨s, .refl s, hpc.trans (BitVec.add_zero _).symm, ht, rfl, h⟩
  | @cons addr piece o rest hdo _ ih =>
    rw [List.flatMap_cons] at hc hout
    rw [List.length_append] at hout
    dsimp only at hc hout
    obtain ⟨hfit₁, hfit₂⟩ := (Bool.and_eq_true _ _).mp hfit
    have hpiece : HalvesAt s.mem addr piece :=
      h.code hc.append_left (fun k hk => hout k (by omega))
    obtain ⟨u, hu, hupc, hut, huf, hframe⟩ := hdo a s ht hpc hpiece h hfit₁
    rw [← FrameOp.exec_sp base] at hfit₂
    obtain ⟨t, htr, htpc, htt, htf, hframe'⟩ := ih hc.append_right (fun k hk => by
      rw [BitVec.add_assoc, ← BitVec.ofNat_add]
      exact hout _ (by omega)) hut hupc hframe hfit₂
    refine ⟨t, hu.trans htr, ?_, htt, htf.trans huf, hframe'⟩
    rw [htpc, BitVec.add_assoc, ← BitVec.ofNat_add, ← Nat.mul_add, List.flatMap_cons,
      List.length_append]

/-! ## Code in memory -/

/-- A part of what is in memory. -/
theorem HalvesAt.part {m : Mem} {addr : Word} {hs piece : List Half} (h : HalvesAt m addr hs)
    (k : ℕ) (hp : piece <+: hs.drop k) : HalvesAt m (addr + BitVec.ofNat 32 (2 * k)) piece := by
  intro i v hv
  obtain ⟨rest, hp⟩ := hp
  have hi : i < piece.length := (List.getElem?_eq_some_iff.mp hv).1
  have hk : hs[k + i]? = some v := by
    rw [← List.getElem?_drop, ← hp, List.getElem?_append_left hi, hv]
  rw [BitVec.add_assoc, ← BitVec.ofNat_add, ← Nat.mul_add]
  exact h (k + i) v hk

/-- **A processor with a frame at an address.** -/
structure FrameAt (base : Word) (n : ℕ) (m₀ : Mem) (thumb : Bool) (addr : Word) (f : Flags)
    (a : FrameState) (s : State) : Prop where
  frame : InFrame base n m₀ a s
  pc : s.pc = addr
  state : s.thumb = thumb
  flags : s.flags = f

/-- **Code apart from a frame**, in the memory around it. -/
structure CodeApart (base : Word) (n : ℕ) (m₀ : Mem) (addr : Word) (hs : List Half) : Prop where
  code : HalvesAt m₀ addr hs
  apart : ∀ k < 2 * hs.length, ¬ InBlock base (4 * n) (addr + BitVec.ofNat 32 k)

section CodeApart

variable {thumb : Bool} {addr : Word} {hs piece : List Half} {f : Flags}

/-- A part of the code is there whatever the frame holds. -/
theorem CodeApart.part (hc : CodeApart base n m₀ addr hs) (k : ℕ) (hp : piece <+: hs.drop k)
    (h : InFrame base n m₀ a s) : HalvesAt s.mem (addr + BitVec.ofNat 32 (2 * k)) piece :=
  (h.code hc.code hc.apart).part k hp

/-- **A part of the code that works on the frame** is run. -/
theorem CodeApart.run {items : List (List Half × FrameOp)} (hc : CodeApart base n m₀ addr hs)
    (k : ℕ) (hp : items.flatMap Prod.fst <+: hs.drop k)
    (hcode : FrameCode base n m₀ thumb (addr + BitVec.ofNat 32 (2 * k)) items)
    (h : FrameAt base n m₀ thumb (addr + BitVec.ofNat 32 (2 * k)) f a s)
    (hfit : FrameOp.allFit n a.sp (items.map Prod.snd) = true) :
    ∃ t, Reaches s t ∧ FrameAt base n m₀ thumb
      (addr + BitVec.ofNat 32 (2 * (k + (items.flatMap Prod.fst).length))) f
      (execOps base a items) t := by
  have hlen : k + (items.flatMap Prod.fst).length ≤ hs.length ∨ items.flatMap Prod.fst = [] := by
    have hl := hp.length_le
    rw [List.length_drop] at hl
    by_cases hnil : items.flatMap Prod.fst = []
    · exact Or.inr hnil
    · have := List.length_pos_iff.mpr hnil
      exact Or.inl (by omega)
  have hout : ∀ j < 2 * (items.flatMap Prod.fst).length, ¬ InBlock base (4 * n)
      (addr + BitVec.ofNat 32 (2 * k) + BitVec.ofNat 32 j) := by
    intro j hj
    rcases hlen with hlen | hnil
    · rw [BitVec.add_assoc, ← BitVec.ofNat_add]
      exact hc.apart _ (by omega)
    · rw [hnil] at hj
      exact absurd hj (Nat.not_lt_zero j)
  obtain ⟨t, hr, htpc, htt, htf, hframe⟩ :=
    hcode.run (hc.code.part k hp) hout h.state h.pc h.frame hfit
  refine ⟨t, hr, hframe, ?_, htt, htf.trans h.flags⟩
  rw [htpc, BitVec.add_assoc, ← BitVec.ofNat_add, ← Nat.mul_add]

end CodeApart

end Frame

end Arm
