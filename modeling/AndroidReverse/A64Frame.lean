import AndroidReverse.A64Isa

/-!
# A64 code that works on a frame

Code that keeps registers on the stack, seen from the frame it works on: the
doublewords below a stack pointer are slots, numbered from the lowest address,
and the stack pointer is the number of a slot. `FrameOp` is what one instruction
of such code does to the frame, a load of a literal being one as well.

`InFrame` ties a frame to a processor, with the memory outside as it was. Code
outside the frame stays, so straight-line code can be run through
(`InFrame.run`), and what it leaves is computed from the list of its operations.
-/

namespace A64

/-! ## Slots -/

/-- The address of a slot. -/
def slotAddr (base : Addr) (k : ℕ) : Addr := base + BitVec.ofNat 64 (8 * k)

theorem slotAddr_add (base : Addr) (j k : ℕ) :
    slotAddr base j + BitVec.ofNat 64 (8 * k) = slotAddr base (j + k) := by
  rw [slotAddr, slotAddr, BitVec.add_assoc, ← BitVec.ofNat_add, Nat.mul_add]

theorem slotAddr_succ (base : Addr) (j : ℕ) : slotAddr base j + 8#64 = slotAddr base (j + 1) :=
  slotAddr_add base j 1

theorem slotAddr_sub (base : Addr) {j k : ℕ} (h : k ≤ j) :
    slotAddr base j + -BitVec.ofNat 64 (8 * k) = slotAddr base (j - k) := by
  obtain ⟨i, rfl⟩ := Nat.exists_eq_add_of_le' h
  rw [← slotAddr_add, Nat.add_sub_cancel, BitVec.add_assoc, BitVec.add_right_neg, BitVec.add_zero]

section Slots

variable {m : Mem} {base v x : Addr} {j k n : ℕ}

/-- The bytes of a slot are in no other. -/
theorem not_inBlock_slot (hj : j < n) (hk : k < n) (hn : 8 * n ≤ 2 ^ 64) (h : j ≠ k) {i : ℕ}
    (hi : i < 8) : ¬ InBlock (slotAddr base j) 8 (slotAddr base k + BitVec.ofNat 64 i) := by
  unfold InBlock slotAddr
  rw [BitVec.toNat_sub, BitVec.toNat_add, BitVec.toNat_add, BitVec.toNat_add, BitVec.toNat_ofNat,
    BitVec.toNat_ofNat, BitVec.toNat_ofNat]
  have := base.isLt
  omega

/-- The bytes of a slot are in the frame. -/
theorem not_inBlock_of_frame (hk : k < n) (h : ¬ InBlock base (8 * n) x) :
    ¬ InBlock (slotAddr base k) 8 x := by
  intro hin
  exact not_inBlock_part h (by omega : 8 * k + 8 ≤ 8 * n) hin

/-- **A slot that is written**, and the others. -/
theorem read64_write64_slot (hj : j < n) (hk : k < n) (hn : 8 * n ≤ 2 ^ 64) :
    (m.write64 (slotAddr base j) v).read64 (slotAddr base k)
      = Function.update (fun k => m.read64 (slotAddr base k)) j v k := by
  by_cases h : k = j
  · subst h
    rw [Mem.read64_write64, Function.update_self]
  · rw [Function.update_of_ne h]
    exact Mem.read64_write64_of_apart fun i hi => not_inBlock_slot hj hk hn (Ne.symm h) hi

end Slots

/-! ## Frames -/

/-- **What code on a frame sees**: the registers, the slot the stack pointer is
at, and the slots. -/
structure FrameState where
  /-- X0 to X30. -/
  reg : Reg → Addr
  /-- V0 to V31. -/
  vec : Reg → Vec
  /-- Where the stack pointer is. -/
  sp : ℕ
  /-- What the slots hold. -/
  slot : ℕ → Addr

namespace FrameState

/-- Setting a register. -/
def setReg (a : FrameState) (r : Reg) (v : Addr) : FrameState :=
  { a with reg := Function.update a.reg r v }

/-- Setting a slot. -/
def setSlot (a : FrameState) (k : ℕ) (v : Addr) : FrameState :=
  { a with slot := Function.update a.slot k v }

/-- Setting the two slots of a vector register. -/
def setSlots (a : FrameState) (k : ℕ) (v : Vec) : FrameState :=
  (a.setSlot k (v.extractLsb' 0 64)).setSlot (k + 1) (v.extractLsb' 64 64)

/-- The vector register in two slots. -/
def slots (a : FrameState) (k : ℕ) : Vec := a.slot (k + 1) ++ a.slot k

section Fields

variable (a : FrameState) {r r' : Reg} {k : ℕ} (v : Addr)

@[simp] theorem setReg_self : (a.setReg r v).reg r = v := by
  show Function.update a.reg r v r = v
  rw [Function.update_self]

theorem setReg_of_ne (h : r' ≠ r) : (a.setReg r v).reg r' = a.reg r' := by
  show Function.update a.reg r v r' = a.reg r'
  rw [Function.update_of_ne h]

@[simp] theorem setReg_slot : (a.setReg r v).slot = a.slot := rfl

@[simp] theorem setSlot_self : (a.setSlot k v).slot k = v := by
  show Function.update a.slot k v k = v
  rw [Function.update_self]

@[simp] theorem setSlot_reg : (a.setSlot k v).reg = a.reg := rfl

end Fields

end FrameState

/-- **What code on a frame does.** Slots are counted from the stack pointer. -/
inductive FrameOp where
  /-- Free slots. -/
  | up (k : ℕ)
  /-- Take slots. -/
  | down (k : ℕ)
  /-- Set a register to the address of a slot. -/
  | lea (r : Reg) (k : ℕ)
  /-- Store a register. -/
  | store (r : Reg) (k : ℕ)
  /-- Load a register. -/
  | load (r : Reg) (k : ℕ)
  /-- Store two registers. -/
  | storePair (r r' : Reg) (k : ℕ)
  /-- Load two registers and free their slots. -/
  | popPair (r r' : Reg)
  /-- Store two vector registers. -/
  | storeVecs (r r' : Reg) (k : ℕ)
  /-- Load two vector registers and free their slots. -/
  | popVecs (r r' : Reg)
  /-- Set a register. -/
  | set (r : Reg) (v : Addr)
deriving DecidableEq

namespace FrameOp

/-- What becomes of a frame. -/
def exec (base : Addr) (a : FrameState) : FrameOp → FrameState
  | up k => { a with sp := a.sp + k }
  | down k => { a with sp := a.sp - k }
  | lea r k => a.setReg r (slotAddr base (a.sp + k))
  | store r k => a.setSlot (a.sp + k) (a.reg r)
  | load r k => a.setReg r (a.slot (a.sp + k))
  | storePair r r' k => (a.setSlot (a.sp + k) (a.reg r)).setSlot (a.sp + k + 1) (a.reg r')
  | popPair r r' =>
      { (a.setReg r (a.slot a.sp)).setReg r' (a.slot (a.sp + 1)) with sp := a.sp + 2 }
  | storeVecs r r' k =>
      (a.setSlots (a.sp + k) (a.vec r)).setSlots (a.sp + k + 2) (a.vec r')
  | popVecs r r' => { a with
      vec := Function.update (Function.update a.vec r (a.slots a.sp)) r' (a.slots (a.sp + 2))
      sp := a.sp + 4 }
  | set r v => a.setReg r v

/-- Where the stack pointer is afterwards. -/
def spAfter (sp : ℕ) : FrameOp → ℕ
  | up k => sp + k
  | down k => sp - k
  | popPair _ _ => sp + 2
  | popVecs _ _ => sp + 4
  | _ => sp

theorem exec_sp (base : Addr) (a : FrameState) (o : FrameOp) :
    (o.exec base a).sp = o.spAfter a.sp := by
  cases o <;> rfl

/-- Whether an operation stays in a frame of `n` slots, and off the field 31. -/
def fits (n sp : ℕ) : FrameOp → Bool
  | up _ => true
  | down k => k ≤ sp
  | lea r _ => r != 31#5
  | store r k => r != 31#5 && sp + k < n
  | load r k => r != 31#5 && sp + k < n
  | storePair r r' k => r != 31#5 && r' != 31#5 && sp + k + 1 < n
  | popPair r r' => r != 31#5 && r' != 31#5 && sp + 1 < n
  | storeVecs _ _ k => sp + k + 3 < n
  | popVecs _ _ => sp + 3 < n
  | set r _ => r != 31#5

/-- Whether all operations of a list do. -/
def allFit (n sp : ℕ) : List FrameOp → Bool
  | [] => true
  | o :: os => o.fits n sp && allFit n (o.spAfter sp) os

/-- The instruction of an operation. -/
def insn : FrameOp → Option Insn
  | up k => some (.data (.addImm 31#5 31#5 (BitVec.ofNat 64 (8 * k))))
  | down k => some (.data (.addImm 31#5 31#5 (-BitVec.ofNat 64 (8 * k))))
  | lea r k => some (.data (.addImm r 31#5 (BitVec.ofNat 64 (8 * k))))
  | store r k => some (.data (.str r 31#5 (BitVec.ofNat 64 (8 * k))))
  | load r k => some (.core (.ldr r 31#5 (BitVec.ofNat 64 (8 * k))))
  | storePair r r' k => some (.data (.stp r r' 31#5 (BitVec.ofNat 64 (8 * k))))
  | popPair r r' => some (.data (.ldpPost r r' 31#5 16#64))
  | storeVecs r r' k => some (.data (.stpVec r r' 31#5 (BitVec.ofNat 64 (8 * k))))
  | popVecs r r' => some (.data (.ldpVecPost r r' 31#5 32#64))
  | set _ _ => none

end FrameOp

/-- **A processor with a frame** of `n` slots: what is outside is as in `m₀`. -/
structure InFrame (base : Addr) (n : ℕ) (m₀ : Mem) (a : FrameState) (s : VState) : Prop where
  reg : s.gpr = a.reg
  vec : s.vec = a.vec
  sp : s.sp = slotAddr base a.sp
  slot : ∀ k < n, s.mem.read64 (slotAddr base k) = a.slot k
  out : ∀ x, ¬ InBlock base (8 * n) x → s.mem x = m₀ x

section Frame

variable {base : Addr} {n : ℕ} {m₀ : Mem} {a : FrameState} {s : VState}

/-- The frame of a processor as it is. -/
theorem InFrame.self {k : ℕ} (h : s.sp = slotAddr base k) :
    InFrame base n s.mem ⟨s.gpr, s.vec, k, fun k => s.mem.read64 (slotAddr base k)⟩ s :=
  ⟨rfl, rfl, h, fun _ _ => rfl, fun _ _ => rfl⟩

/-- The program counter and the flags do not matter. -/
theorem InFrame.congr {t : VState} (h : InFrame base n m₀ a s) (hg : t.gpr = s.gpr)
    (hv : t.vec = s.vec) (hs : t.sp = s.sp) (hm : t.mem = s.mem) : InFrame base n m₀ a t where
  reg := hg ▸ h.reg
  vec := hv ▸ h.vec
  sp := hs ▸ h.sp
  slot := hm ▸ h.slot
  out := hm ▸ h.out

/-- Code outside the frame is still there. -/
theorem InFrame.code (h : InFrame base n m₀ a s) {addr : Addr} {ws : List Word}
    (hw : WordsAt m₀ addr ws)
    (hout : ∀ k < 4 * ws.length, ¬ InBlock base (8 * n) (addr + BitVec.ofNat 64 k)) :
    WordsAt s.mem addr ws :=
  hw.of_eqOn fun k hk => h.out _ (hout k hk)

theorem InFrame.goto (h : InFrame base n m₀ a s) (pc : Addr) : InFrame base n m₀ a (s.goto pc) :=
  h.congr rfl rfl rfl rfl

/-- **Setting a register.** -/
theorem InFrame.setReg (h : InFrame base n m₀ a s) {r : Reg} (hr : (r != 31#5) = true) (v : Addr) :
    InFrame base n m₀ (a.setReg r v) (s.setReg r v) := by
  have hmem : (s.setReg r v).mem = s.mem := s.setReg_mem r v
  refine ⟨?_, h.vec, (s.setReg_sp r v).trans h.sp, hmem ▸ h.slot, hmem ▸ h.out⟩
  rw [s.setReg_gpr v (bne_iff_ne.mp hr), h.reg]
  rfl

/-- **Setting a vector register.** -/
theorem InFrame.setVec (h : InFrame base n m₀ a s) (r : Reg) (v : Vec) :
    InFrame base n m₀ { a with vec := Function.update a.vec r v } (s.setVec r v) :=
  ⟨h.reg, show Function.update s.vec r v = Function.update a.vec r v by rw [h.vec], h.sp, h.slot,
    h.out⟩

/-- **Moving the stack pointer.** -/
theorem InFrame.move (h : InFrame base n m₀ a s) {k : ℕ} {v : Addr} (hv : v = slotAddr base k) :
    InFrame base n m₀ { a with sp := k } (s.setRegSp 31#5 v) :=
  ⟨h.reg, h.vec, hv, h.slot, h.out⟩

/-- **Storing a doubleword.** -/
theorem InFrame.setSlot (h : InFrame base n m₀ a s) (hn : 8 * n ≤ 2 ^ 64) {k : ℕ} (hk : k < n)
    (v : Addr) :
    InFrame base n m₀ (a.setSlot k v) (s.setMem (s.mem.write64 (slotAddr base k) v)) := by
  refine ⟨h.reg, h.vec, h.sp, fun j hj => ?_, fun x hx => ?_⟩
  · refine (read64_write64_slot hk hj hn).trans ?_
    show _ = Function.update a.slot k v j
    by_cases he : j = k
    · rw [he, Function.update_self, Function.update_self]
    · rw [Function.update_of_ne he, Function.update_of_ne he, h.slot j hj]
  · exact (Mem.write64_of_out (not_inBlock_of_frame hk hx)).trans (h.out x hx)

/-- **Storing a vector register.** -/
theorem InFrame.setSlots (h : InFrame base n m₀ a s) (hn : 8 * n ≤ 2 ^ 64) {k : ℕ} (hk : k + 1 < n)
    (v : Vec) :
    InFrame base n m₀ (a.setSlots k v) (s.setMem (s.mem.write128 (slotAddr base k) v)) := by
  have h₁ := h.setSlot hn (Nat.lt_of_succ_lt hk) (v.extractLsb' 0 64)
  have h₂ := h₁.setSlot hn hk (v.extractLsb' 64 64)
  rw [← slotAddr_succ] at h₂
  exact h₂

/-- A register is read. -/
theorem InFrame.readReg (h : InFrame base n m₀ a s) {r : Reg} (hr : (r != 31#5) = true) :
    s.readReg r = a.reg r := by
  rw [VState.readReg, if_neg (bne_iff_ne.mp hr), h.reg]

/-- A vector register is read from its slots. -/
theorem InFrame.read128 (h : InFrame base n m₀ a s) {k : ℕ} (hk : k + 1 < n) :
    s.mem.read128 (slotAddr base k) = a.slots k := by
  rw [Mem.read128, slotAddr_succ, h.slot _ hk, h.slot _ (Nat.lt_of_succ_lt hk), FrameState.slots]

/-- The base register of the instructions is the stack pointer. -/
theorem InFrame.base_add (h : InFrame base n m₀ a s) (k : ℕ) :
    s.base 31#5 + BitVec.ofNat 64 (8 * k) = slotAddr base (a.sp + k) := by
  rw [show s.base 31#5 = s.sp from if_pos rfl, h.sp, slotAddr_add]

/-- **An instruction that stands for an operation** has its effect. -/
theorem InFrame.exec (h : InFrame base n m₀ a s) (hn : 8 * n ≤ 2 ^ 64) {o : FrameOp} {i : Insn}
    (hi : o.insn = some i) (hfit : o.fits n a.sp = true) (pc next : Addr) :
    InFrame base n m₀ (o.exec base a) (i.exec pc next s) := by
  have hbase := h.base_add
  have hb₀ : s.base 31#5 = slotAddr base a.sp := (if_pos rfl).trans h.sp
  cases o with
  | up k =>
    obtain rfl := Option.some_inj.mp hi
    exact (h.move (hbase k)).goto next
  | down k =>
    obtain rfl := Option.some_inj.mp hi
    refine InFrame.goto (h.move ?_) next
    rw [hb₀, slotAddr_sub base (of_decide_eq_true hfit)]
  | lea r k =>
    obtain rfl := Option.some_inj.mp hi
    have hset : s.setRegSp r (s.base 31#5 + BitVec.ofNat 64 (8 * k))
        = s.setReg r (slotAddr base (a.sp + k)) := by
      rw [VState.setRegSp, if_neg (bne_iff_ne.mp hfit), hbase]
    show InFrame base n m₀ _ (VState.goto (s.setRegSp r _) next)
    rw [hset]
    exact (h.setReg hfit _).goto next
  | store r k =>
    obtain rfl := Option.some_inj.mp hi
    obtain ⟨hr, hk⟩ := (Bool.and_eq_true _ _).mp hfit
    show InFrame base n m₀ _ (VState.goto (s.setMem (s.mem.write64 _ (s.readReg r))) next)
    rw [hbase, h.readReg hr]
    exact (h.setSlot hn (of_decide_eq_true hk) _).goto next
  | load r k =>
    obtain rfl := Option.some_inj.mp hi
    obtain ⟨hr, hk⟩ := (Bool.and_eq_true _ _).mp hfit
    have hread : s.mem.read64 (s.base 31#5 + BitVec.ofNat 64 (8 * k)) = a.slot (a.sp + k) := by
      rw [hbase, h.slot _ (of_decide_eq_true hk)]
    show InFrame base n m₀ _ (VState.goto (s.setReg r (s.mem.read64 _)) next)
    rw [hread]
    exact (h.setReg hr _).goto next
  | storePair r r' k =>
    obtain rfl := Option.some_inj.mp hi
    obtain ⟨hrr, hk⟩ := (Bool.and_eq_true _ _).mp hfit
    obtain ⟨hr, hr'⟩ := (Bool.and_eq_true _ _).mp hrr
    have hk₁ := of_decide_eq_true hk
    have h₁ := h.setSlot hn (Nat.lt_of_succ_lt hk₁) (a.reg r)
    have h₂ := h₁.setSlot hn hk₁ (a.reg r')
    rw [← slotAddr_succ] at h₂
    show InFrame base n m₀ _ (VState.goto (s.setMem ((s.mem.write64 _ (s.readReg r)).write64 _
      (s.readReg r'))) next)
    rw [hbase, h.readReg hr, h.readReg hr']
    exact h₂.goto next
  | popPair r r' =>
    obtain rfl := Option.some_inj.mp hi
    obtain ⟨hrr, hk⟩ := (Bool.and_eq_true _ _).mp hfit
    obtain ⟨hr, hr'⟩ := (Bool.and_eq_true _ _).mp hrr
    have hk₁ := of_decide_eq_true hk
    show InFrame base n m₀ _ (VState.goto (VState.setRegSp ((s.setReg r (s.mem.read64 _)).setReg r'
      (s.mem.read64 _)) 31#5 _) next)
    rw [hb₀, slotAddr_succ, h.slot _ hk₁, h.slot _ (Nat.lt_of_succ_lt hk₁)]
    exact (((h.setReg hr _).setReg hr' _).move (slotAddr_add base a.sp 2)).goto next
  | storeVecs r r' k =>
    obtain rfl := Option.some_inj.mp hi
    have hk := of_decide_eq_true hfit
    have h₁ := h.setSlots hn (show a.sp + k + 1 < n by omega) (a.vec r)
    have h₂ := h₁.setSlots hn (show a.sp + k + 2 + 1 < n by omega) (a.vec r')
    rw [← slotAddr_add base (a.sp + k) 2] at h₂
    show InFrame base n m₀ _ (VState.goto (s.setMem ((s.mem.write128 _ (s.vec r)).write128 _
      (s.vec r'))) next)
    rw [hbase, h.vec]
    exact h₂.goto next
  | popVecs r r' =>
    obtain rfl := Option.some_inj.mp hi
    have hk := of_decide_eq_true hfit
    have hread := h.read128 (show a.sp + 1 < n by omega)
    have hread' := h.read128 (show a.sp + 2 + 1 < n by omega)
    rw [← slotAddr_add] at hread'
    show InFrame base n m₀ _ (VState.goto (VState.setRegSp ((s.setVec r (s.mem.read128 _)).setVec r'
      (s.mem.read128 _)) 31#5 _) next)
    rw [hb₀, hread, show (16#64 : Addr) = BitVec.ofNat 64 (8 * 2) from rfl, hread']
    exact (((h.setVec r _).setVec r' _).move (slotAddr_add base a.sp 4)).goto next
  | set r v => exact absurd hi nofun

/-! ## Straight-line code -/

/-- **A piece of code that does an operation**: an instruction, or a literal
with its load and the branch over it. -/
inductive FrameOp.Piece : List Word → FrameOp → Prop where
  | insn {w : Word} {o : FrameOp} {i : Insn} (ho : o.insn = some i) (hw : decodeInsn w = some i) :
      Piece [w] o
  | literal {w w' lo hi : Word} {r : Reg} (hw : decode w = some (.ldrLit r 8#64))
      (hw' : decode w' = some (.b 12#64)) : Piece [w, w', lo, hi] (.set r (hi ++ lo))

/-- Whether a word is the instruction of an operation. -/
def isInsn (i : Word × FrameOp) : Bool := i.2.insn.isSome && decodeInsn i.1 = i.2.insn

theorem piece_of_isInsn {i : Word × FrameOp} (h : isInsn i = true) : FrameOp.Piece [i.1] i.2 := by
  obtain ⟨hsome, hd⟩ := (Bool.and_eq_true _ _).mp h
  obtain ⟨x, hx⟩ := Option.isSome_iff_exists.mp hsome
  exact .insn hx ((of_decide_eq_true hd).trans hx)

/-- **Code as pieces**: the operations with the words that do them. -/
abbrev FrameCode := List (List Word × FrameOp)

/-- The words of a code. -/
def FrameCode.words (c : FrameCode) : List Word := c.flatMap Prod.fst

/-- What the operations of a code make of a frame. -/
def FrameCode.exec (base : Addr) (a : FrameState) (c : FrameCode) : FrameState :=
  c.foldl (fun a i => i.2.exec base a) a

/-- Instructions as a code. -/
def FrameCode.ofInsns (is : List (Word × FrameOp)) : FrameCode := is.map fun i => ([i.1], i.2)

theorem FrameCode.pieces_ofInsns {is : List (Word × FrameOp)} (h : is.all isInsn = true) :
    ∀ i ∈ FrameCode.ofInsns is, FrameOp.Piece i.1 i.2 := by
  intro i hi
  obtain ⟨j, hj, rfl⟩ := List.mem_map.mp hi
  exact piece_of_isInsn (List.all_eq_true.mp h j hj)

/-- **A piece of code is run.** -/
theorem InFrame.piece (isa : Isa) (h : InFrame base n m₀ a s) (hn : 8 * n ≤ 2 ^ 64)
    {piece : List Word} {o : FrameOp} (hp : o.Piece piece) (hc : WordsAt s.mem s.pc piece)
    (hfit : o.fits n a.sp = true) :
    ∃ t, isa.Reaches s t ∧ t.pc = s.pc + BitVec.ofNat 64 (4 * piece.length)
      ∧ t.flags = s.flags ∧ InFrame base n m₀ (o.exec base a) t := by
  have hfetch : ∀ {w : Word} {ws : List Word}, WordsAt s.mem s.pc (w :: ws) →
      s.mem.read32 s.pc = w := fun hc => by
    have h₀ := hc 0 _ rfl
    rwa [Nat.mul_zero, BitVec.add_zero] at h₀
  cases hp with
  | @insn w o i ho hw =>
    refine ⟨_, .single (Isa.step_of_decodeInsn (hfetch hc) hw), ?_, ?_, h.exec hn ho hfit _ _⟩
    · cases o with
      | set r v => exact absurd ho nofun
      | _ => obtain rfl := Option.some_inj.mp ho; rfl
    · cases o with
      | set r v => exact absurd ho nofun
      | lea r k =>
        obtain rfl := Option.some_inj.mp ho
        show (s.setRegSp r _).flags = s.flags
        rw [VState.setRegSp, if_neg (bne_iff_ne.mp hfit), VState.setReg_flags]
      | load r k =>
        obtain rfl := Option.some_inj.mp ho
        exact s.setReg_flags r _
      | popPair r r' =>
        obtain rfl := Option.some_inj.mp ho
        exact ((s.setReg r _).setReg_flags r' _).trans (s.setReg_flags r _)
      | _ => obtain rfl := Option.some_inj.mp ho; rfl
  | @literal w w' lo hi r hw hw' =>
    have hlit : s.mem.read64 (s.pc + 8#64) = hi ++ lo := by
      rw [Mem.read64, BitVec.add_assoc]
      exact congrArg₂ _ (hc 3 _ rfl) (hc 2 _ rfl)
    have hload : isa.step s = some ((s.setReg r (hi ++ lo)).goto (s.pc + 4#64)) := by
      rw [Isa.step_of_decodeInsn (i := .core (.ldrLit r 8#64)) (hfetch hc)
        (by rw [decodeInsn, hw]), ← hlit]
      rfl
    have hskip : isa.step ((s.setReg r (hi ++ lo)).goto (s.pc + 4#64))
        = some (((s.setReg r (hi ++ lo)).goto (s.pc + 4#64)).goto (s.pc + 4#64 + 12#64)) := by
      refine Isa.step_of_decodeInsn (i := .core (.b 12#64)) (w := w') ?_ (by rw [decodeInsn, hw'])
      show ((s.toState.setReg r (hi ++ lo)).goto _).mem.read32 (s.pc + 4#64) = w'
      rw [State.goto_mem, State.setReg_mem]
      exact hc 1 _ rfl
    refine ⟨_, (Isa.Reaches.single hload).trans (.single hskip), ?_, ?_,
      ((h.setReg hfit _).goto _).goto _⟩
    · show s.pc + 4#64 + 12#64 = _
      rw [BitVec.add_assoc]
      rfl
    · exact s.setReg_flags r _

/-- **Straight-line code runs** from its beginning to its end. -/
theorem InFrame.run (isa : Isa) (hn : 8 * n ≤ 2 ^ 64) {c : FrameCode}
    (hc : ∀ i ∈ c, FrameOp.Piece i.1 i.2) {addr : Addr} (hw : WordsAt m₀ addr c.words)
    (hout : ∀ k < 4 * c.words.length, ¬ InBlock base (8 * n) (addr + BitVec.ofNat 64 k))
    (h : InFrame base n m₀ a s) (hpc : s.pc = addr)
    (hfit : FrameOp.allFit n a.sp (c.map Prod.snd) = true) :
    ∃ t, isa.Reaches s t ∧ t.pc = addr + BitVec.ofNat 64 (4 * c.words.length)
      ∧ t.flags = s.flags ∧ InFrame base n m₀ (c.exec base a) t := by
  induction c generalizing s a addr with
  | nil => exact ⟨s, .refl s, hpc.trans (BitVec.add_zero _).symm, rfl, h⟩
  | cons i c ih =>
    obtain ⟨piece, o⟩ := i
    have hlen : FrameCode.words ((piece, o) :: c) = piece ++ FrameCode.words c := rfl
    rw [hlen] at hw hout
    rw [List.length_append] at hout
    obtain ⟨hfit₁, hfit₂⟩ := (Bool.and_eq_true _ _).mp hfit
    have hpiece : WordsAt s.mem s.pc piece :=
      hpc ▸ h.code hw.append_left fun k hk => hout k (by omega)
    obtain ⟨u, hu, hupc, huf, hframe⟩ :=
      h.piece isa hn (hc _ List.mem_cons_self) hpiece hfit₁
    rw [← FrameOp.exec_sp base] at hfit₂
    obtain ⟨t, htr, htpc, htf, hframe'⟩ := ih (fun j hj => hc j (List.mem_cons_of_mem _ hj))
      hw.append_right (fun k hk => by
        rw [BitVec.add_assoc, ← BitVec.ofNat_add]
        exact hout _ (by omega)) hframe (hupc.trans (hpc ▸ rfl)) hfit₂
    refine ⟨t, hu.trans htr, ?_, htf.trans huf, hframe'⟩
    rw [htpc, BitVec.add_assoc, ← BitVec.ofNat_add, ← Nat.mul_add, hlen, List.length_append]

end Frame

end A64
