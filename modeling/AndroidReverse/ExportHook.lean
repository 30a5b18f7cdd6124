import AndroidReverse.ArmRun
import AndroidReverse.StatePart

/-!
# The export hook

`exporthook` of the export hook library replaces the first instructions of a function by
a jump to the hook and keeps a copy of them. `hook_precall` puts the copy back, so that
the hook can call the function, and `hook_postcall` writes the jump again. A function in
ARM state has three words replaced and one in Thumb state twenty bytes at the address
with bit 0 cleared, each with its own copy and its own jump in `struct hook_t`.

The window that is replaced is a part of the memory (`wordWindow`, `byteWindow`), and the
calls only switch it between what it held and the jump. So after any calls the memory is
the one `exporthook` found or the one it left (`run_mem`), and `calls_discipline` reads
the discipline of the calls from that.
-/

namespace ExportHook

open Arm

/-- `struct hook_t`, without `data`. -/
structure HookT where
  jump : Vector Word 3
  store : Vector Word 3
  jumpt : Vector Byte 20
  storet : Vector Byte 20
  orig : Word
  patch : Word
  thumb : Byte
  name : Vector Byte 128
  deriving DecidableEq

/-- The memory of the functions and the record of the hook, which is elsewhere. -/
structure Process where
  mem : Mem
  h : HookT

/-! ## The loops over a window -/

/-- `((int *)a)[i]` for each `i` below `n`. -/
def loadWords (n : ℕ) (a : Word) (m : Mem) : Vector Word n :=
  Vector.ofFn (fun i => m.read32 (a + BitVec.ofNat 32 (4 * i)))

/-- `((int *)a)[i] = ws[i]` for each `i`. -/
def storeWords {n : ℕ} (a : Word) (ws : Vector Word n) (m : Mem) : Mem := m.place 4 a ws.toList

/-- `((unsigned char *)a)[i]` for each `i` below `n`. -/
def loadBytes (n : ℕ) (a : Word) (m : Mem) : Vector Byte n :=
  Vector.ofFn (fun i => m (a + BitVec.ofNat 32 i))

/-- `((unsigned char *)a)[i] = bs[i]` for each `i`. -/
def storeBytes {n : ℕ} (a : Word) (bs : Vector Byte n) (m : Mem) : Mem := m.place 1 a bs.toList

/-! ## The hook -/

/-- The jump to an ARM hook: `LDR pc, [pc, #0]`, which loads the word two behind it. -/
def armJump (hook_arm : Word) : Vector Word 3 := #v[0xE59FF000#32, hook_arm, hook_arm]

/-- The jump to a Thumb hook: `push {r5, r6}`; `add r5, pc, #12`; `ldr r5, [r5]`;
`add sp, sp, #8`; `push {r5}`; `sub sp, sp, #4`; `pop {r5, pc}`; `mov pc, r5` to pad; and
the address of the hook. -/
def thumbJump (hook_thumb : Word) : Vector Byte 20 :=
  #v[0x60#8, 0xB4#8, 0x03#8, 0xA5#8, 0x2D#8, 0x68#8, 0x02#8, 0xB0#8,
    0x20#8, 0xB4#8, 0x81#8, 0xB0#8, 0x20#8, 0xBD#8, 0xAF#8, 0x46#8,
    Mem.byteOf hook_thumb 0, Mem.byteOf hook_thumb 1, Mem.byteOf hook_thumb 2,
    Mem.byteOf hook_thumb 3]

/-- `strncpy(name, s, 127)`: the string and then zeros, and the last byte as it was. -/
def copyName (s : List Byte) (name : Vector Byte 128) : Vector Byte 128 :=
  name.mapIdx (fun i c => if i < 127 then s.getD i 0#8 else c)

/-- `exporthook`, where `found` is the address that `find_name` reports for the function,
if it finds it. -/
def exporthook (found : Option Word) (funcname : List Byte) (hook_arm hook_thumb : Word)
    (p : Process) : ℤ × Process :=
  match found with
  | none => (0, p)
  | some addr =>
    let h := { p.h with name := copyName funcname p.h.name }
    if addr.toNat % 4 = 0 then
      let h := { h with
        thumb := 0#8, patch := hook_arm, orig := addr, jump := armJump hook_arm,
        store := loadWords 3 addr p.mem }
      (1, ⟨storeWords addr h.jump p.mem, h⟩)
    else
      let h := { h with
        thumb := 1#8, patch := hook_thumb, orig := addr, jumpt := thumbJump hook_thumb,
        storet := loadBytes 20 (addr - 1#32) p.mem }
      (1, ⟨storeBytes (addr - 1#32) h.jumpt p.mem, h⟩)

/-- The loops of `hook_precall` and `hook_postcall`: the words or the bytes to the
window, by the state of the function. -/
def HookT.fill (h : HookT) (ws : Vector Word 3) (bs : Vector Byte 20) (m : Mem) : Mem :=
  if h.thumb ≠ 0#8 then storeBytes (h.orig - 1#32) bs m else storeWords h.orig ws m

/-- `hook_precall`. -/
def hookPrecall (p : Process) : Process := { p with mem := p.h.fill p.h.store p.h.storet p.mem }

/-- `hook_postcall`. -/
def hookPostcall (p : Process) : Process := { p with mem := p.h.fill p.h.jump p.h.jumpt p.mem }

/-- `unhook`. -/
def unhook (p : Process) : Process := hookPrecall p

/-- What is called once the hook is there. -/
inductive Call
  | precall
  | postcall
  | unhook
  deriving DecidableEq, Repr

namespace Call

/-- One call. -/
def run : Call → Process → Process
  | precall => hookPrecall
  | postcall => hookPostcall
  | .unhook => ExportHook.unhook

/-- Whether a call leaves the jump in the window. -/
def patches : Call → Bool
  | precall => false
  | postcall => true
  | .unhook => false

end Call

/-- Any number of calls. -/
def runCalls (calls : List Call) (p : Process) : Process := calls.foldl (fun p c => c.run p) p

/-- Whether the window holds the jump after `exporthook` and these calls: the last one
decides. -/
def patchedAfter (calls : List Call) : Bool := (calls.getLast?.map Call.patches).getD true

/-! ## Where a function is -/

/-- The address of a function's code: bit 0 only says the state. -/
def codeAddr (addr : Word) : Word := addr &&& 0xFFFFFFFE#32

/-- An ARM function, at a multiple of four, or a Thumb function, with bit 0 set. -/
def FunctionAddr (addr : Word) : Prop := addr.toNat % 4 = 0 ∨ addr.toNat % 2 = 1

instance (addr : Word) : Decidable (FunctionAddr addr) :=
  inferInstanceAs (Decidable (_ ∨ _))

/-- The size of the jump: three words, or twenty bytes. -/
def patchSize (addr : Word) : ℕ := if addr.toNat % 4 = 0 then 12 else 20

/-- The bytes that the hook of a function may change. -/
def window (addr : Word) : Set Word := {a | InBlock (codeAddr addr) (patchSize addr) a}

/-- The jump to the hook stands at a function: its instructions and the address of the
hook behind them. -/
def JumpAt (addr hook_arm hook_thumb : Word) (m : Mem) : Prop :=
  if addr.toNat % 4 = 0 then
    WordsAt m (codeAddr addr) [0xE59FF000#32, hook_arm, hook_arm]
  else
    HalvesAt m (codeAddr addr)
        [0xB460#16, 0xA503#16, 0x682D#16, 0xB002#16, 0xB420#16, 0xB081#16, 0xBD20#16, 0x46AF#16]
      ∧ WordsAt m (codeAddr addr + 16#32) [hook_thumb]

/-- The copy in the record is the content that the window had in `m₀`. -/
def Kept (addr : Word) (m₀ : Mem) (h : HookT) : Prop :=
  if addr.toNat % 4 = 0 then
    ∀ i : Fin 3, h.store[i] = m₀.read32 (codeAddr addr + BitVec.ofNat 32 (4 * i))
  else
    ∀ i : Fin 20, h.storet[i] = m₀ (codeAddr addr + BitVec.ofNat 32 i)

/-! ## A window as a part of the memory -/

/-- Of two contents placed in one window the second one stays. -/
theorem place_place {n : ℕ} (m : Mem) (size : ℕ) (a : Word) {xs ys : List (BitVec n)}
    (h : xs.length = ys.length) : (m.place size a xs).place size a ys = m.place size a ys := by
  funext x
  unfold Mem.place
  dsimp only
  cases hy : ys[(x - a).toNat / size]? with
  | some v => rfl
  | none =>
    have hx : xs[(x - a).toNat / size]? = none := by
      rw [List.getElem?_eq_none_iff, h]
      exact List.getElem?_eq_none_iff.mp hy
    rw [hx]

/-- Placing the bytes that are there already changes nothing. -/
theorem place_self {n : ℕ} {m : Mem} {size : ℕ} {a : Word} {items : List (BitVec n)}
    (h0 : 0 < size) (hlen : size * items.length ≤ 2 ^ 32)
    (h : ∀ i v, items[i]? = some v → ∀ j < size,
      v.extractLsb' (8 * j) 8 = m (a + BitVec.ofNat 32 (size * i + j))) :
    m.place size a items = m := by
  funext x
  by_cases hx : size * items.length ≤ (x - a).toNat
  · exact Mem.place_of_out h0 hx
  · have hi : (x - a).toNat / size < items.length :=
      (Nat.div_lt_iff_lt_mul h0).mpr (by rw [Nat.mul_comm]; exact not_le.mp hx)
    have hv := List.getElem?_eq_getElem hi
    have hj : (x - a).toNat % size < size := Nat.mod_lt _ h0
    have hx' : x = a + BitVec.ofNat 32 (size * ((x - a).toNat / size) + (x - a).toNat % size) := by
      rw [Nat.div_add_mod, BitVec.ofNat_toNat, BitVec.setWidth_eq, BitVec.add_comm,
        BitVec.sub_add_cancel]
    conv_lhs => rw [hx', Mem.place_at hv hj hlen, h _ _ hv _ hj, ← hx']

/-- The bytes of a word in memory. -/
theorem extractLsb'_read32 (m : Mem) (a : Word) {j : ℕ} (hj : j < 4) :
    (m.read32 a).extractLsb' (8 * j) 8 = m (a + BitVec.ofNat 32 j) := by
  have h3 : a + 2#32 + 1#32 = a + 3#32 := by
    rw [BitVec.add_assoc]
    rfl
  refine BitVec.eq_of_getLsbD_eq (fun k hk => ?_)
  rw [Mem.read32, Mem.read16, Mem.read16, h3]
  simp only [BitVec.getLsbD_append, BitVec.getLsbD_extractLsb']
  interval_cases j <;> interval_cases k <;> simp

theorem loadWords_storeWords {n : ℕ} {a : Word} (hn : 4 * n ≤ 2 ^ 32) (ws : Vector Word n)
    (m : Mem) : loadWords n a (storeWords a ws m) = ws := by
  refine Vector.ext (fun i hi => ?_)
  have hat : WordsAt (m.place 4 a ws.toList) a ws.toList :=
    wordsAt_place m a ws.toList (by rwa [Vector.length_toList])
  rw [loadWords, Vector.getElem_ofFn]
  exact hat i ws[i] (by rw [Vector.getElem?_toList, Vector.getElem?_eq_getElem hi])

theorem storeWords_loadWords {n : ℕ} {a : Word} (hn : 4 * n ≤ 2 ^ 32) (m : Mem) :
    storeWords a (loadWords n a m) m = m := by
  refine place_self (by decide) (by rwa [Vector.length_toList]) (fun i v hv j hj => ?_)
  rw [Vector.getElem?_toList] at hv
  obtain ⟨hi, hv⟩ := Vector.getElem?_eq_some_iff.mp hv
  rw [← hv, loadWords, Vector.getElem_ofFn, extractLsb'_read32 m _ hj, BitVec.add_assoc,
    ← BitVec.ofNat_add]

theorem loadBytes_storeBytes {n : ℕ} {a : Word} (hn : n ≤ 2 ^ 32) (bs : Vector Byte n)
    (m : Mem) : loadBytes n a (storeBytes a bs m) = bs := by
  refine Vector.ext (fun i hi => ?_)
  have hv : bs.toList[i]? = some bs[i] := by
    rw [Vector.getElem?_toList, Vector.getElem?_eq_getElem hi]
  have hat : m.place 1 a bs.toList (a + BitVec.ofNat 32 (1 * i + 0))
      = bs[i].extractLsb' (8 * 0) 8 :=
    Mem.place_at hv Nat.one_pos (by rwa [Vector.length_toList, Nat.one_mul])
  rw [Nat.one_mul] at hat
  rw [loadBytes, Vector.getElem_ofFn]
  exact hat.trans BitVec.extractLsb'_eq_self

theorem storeBytes_loadBytes {n : ℕ} {a : Word} (hn : n ≤ 2 ^ 32) (m : Mem) :
    storeBytes a (loadBytes n a m) m = m := by
  refine place_self Nat.one_pos (by rwa [Vector.length_toList, Nat.one_mul])
    (fun i v hv j hj => ?_)
  rw [Vector.getElem?_toList] at hv
  obtain ⟨hi, hv⟩ := Vector.getElem?_eq_some_iff.mp hv
  have hj0 : j = 0 := Nat.lt_one_iff.mp hj
  rw [hj0, ← hv, loadBytes, Vector.getElem_ofFn, Nat.one_mul]
  exact BitVec.extractLsb'_eq_self

/-- **A window of words.** -/
def wordWindow (n : ℕ) (a : Word) (hn : 4 * n ≤ 2 ^ 32) : StatePart Mem (Vector Word n) where
  get := loadWords n a
  put := storeWords a
  get_put ws m := loadWords_storeWords hn ws m
  put_get m := storeWords_loadWords hn m
  put_put ws ws' m := place_place m 4 a (by rw [Vector.length_toList, Vector.length_toList])

/-- **A window of bytes.** -/
def byteWindow (n : ℕ) (a : Word) (hn : n ≤ 2 ^ 32) : StatePart Mem (Vector Byte n) where
  get := loadBytes n a
  put := storeBytes a
  get_put bs m := loadBytes_storeBytes hn bs m
  put_get m := storeBytes_loadBytes hn m
  put_put bs bs' m := place_place m 1 a (by rw [Vector.length_toList, Vector.length_toList])

/-! ## The calls -/

section Calls

variable (calls : List Call) (p : Process)

/-- A call fills the window with the jump or with the copy. -/
theorem Call.run_eq (c : Call) : c.run p
    = { p with mem := p.h.fill (if c.patches then p.h.jump else p.h.store)
                        (if c.patches then p.h.jumpt else p.h.storet) p.mem } := by
  cases c with
  | precall => rfl
  | postcall => rfl
  | «unhook» => rfl

/-- **The record stays as it is**, its copies and jumps included. -/
theorem runCalls_h : (runCalls calls p).h = p.h := by
  induction calls generalizing p with
  | nil => rfl
  | cons c calls ih =>
    have hc : (c.run p).h = p.h := by rw [Call.run_eq]
    exact (ih (c.run p)).trans hc

/-- The memory after the calls. -/
theorem runCalls_mem : (runCalls calls p).mem
    = (calls.map Call.patches).foldl (fun m on => p.h.fill (if on then p.h.jump else p.h.store)
        (if on then p.h.jumpt else p.h.storet) m) p.mem := by
  induction calls generalizing p with
  | nil => rfl
  | cons c calls ih =>
    have hc := c.run_eq p
    rw [List.map_cons, List.foldl_cons]
    exact (ih (c.run p)).trans (by rw [hc])

end Calls

/-! ## What `exporthook` leaves -/

theorem codeAddr_arm {addr : Word} (h : addr.toNat % 4 = 0) : codeAddr addr = addr := by
  rw [codeAddr, ← BitVec.toNat_inj, toNat_align2]
  omega

theorem codeAddr_thumb {addr : Word} (h : addr.toNat % 2 = 1) : codeAddr addr = addr - 1#32 := by
  rw [codeAddr, ← BitVec.toNat_inj, toNat_align2]
  bv_omega

/-- Two bytes of a window are a halfword. -/
theorem read16_of_loadBytes {n : ℕ} {m : Mem} {a : Word} {bs : Vector Byte n}
    (h : loadBytes n a m = bs) {i : ℕ} (hi : i + 1 < n) :
    m.read16 (a + BitVec.ofNat 32 i) = bs[i + 1] ++ bs[i] := by
  subst h
  rw [Mem.read16, BitVec.add_assoc, ← BitVec.ofNat_add, loadBytes, Vector.getElem_ofFn,
    Vector.getElem_ofFn]

/-- The bytes of a word, put together. -/
theorem append_byteOf (v : Word) :
    (Mem.byteOf v 3 ++ Mem.byteOf v 2) ++ (Mem.byteOf v 1 ++ Mem.byteOf v 0) = v := by
  refine BitVec.eq_of_getLsbD_eq (fun k hk => ?_)
  simp only [Mem.byteOf, BitVec.getLsbD_append, BitVec.getLsbD_extractLsb']
  interval_cases k <;> simp

/-- The instructions of the Thumb jump, two bytes each. -/
theorem thumbJump_zero : ∀ i : Fin 8,
    some ((thumbJump 0#32)[2 * i.val + 1] ++ (thumbJump 0#32)[2 * i.val])
      = [0xB460#16, 0xA503#16, 0x682D#16, 0xB002#16, 0xB420#16, 0xB081#16, 0xBD20#16,
          0x46AF#16][i.val]? := by
  decide

/-- They do not depend on the hook. -/
theorem thumbJump_getElem (hook_thumb : Word) {k : ℕ} (hk : k < 16) :
    (thumbJump hook_thumb)[k] = (thumbJump 0#32)[k] := by
  interval_cases k <;> rfl

/-- The bytes of the Thumb jump are its instructions and the address of the hook. -/
theorem thumbJump_at {m : Mem} {a hook_thumb : Word} (h : loadBytes 20 a m = thumbJump hook_thumb) :
    HalvesAt m a
        [0xB460#16, 0xA503#16, 0x682D#16, 0xB002#16, 0xB420#16, 0xB081#16, 0xBD20#16, 0x46AF#16]
      ∧ WordsAt m (a + 16#32) [hook_thumb] := by
  constructor
  · intro i v hv
    have hi : i < 8 := (List.getElem?_eq_some_iff.mp hv).1
    rw [read16_of_loadBytes h (i := 2 * i) (by omega), thumbJump_getElem hook_thumb (by omega),
      thumbJump_getElem hook_thumb (by omega)]
    exact Option.some.inj ((thumbJump_zero ⟨i, hi⟩).trans hv)
  · intro i v hv
    have hi : i = 0 := Nat.lt_one_iff.mp (List.getElem?_eq_some_iff.mp hv).1
    subst hi
    have ha : a + 16#32 + BitVec.ofNat 32 (4 * 0) = a + BitVec.ofNat 32 16 := BitVec.add_zero _
    have ha2 : a + BitVec.ofNat 32 16 + 2#32 = a + BitVec.ofNat 32 18 := by
      rw [BitVec.add_assoc]
      rfl
    rw [← Option.some.inj hv, ha, Mem.read32, ha2, read16_of_loadBytes h (i := 18) (by decide),
      read16_of_loadBytes h (i := 16) (by decide)]
    exact append_byteOf hook_thumb

/-! ## The discipline -/

section Discipline

variable (addr : Word) (funcname : List Byte) (hook_arm hook_thumb : Word) (p : Process)

/-- **After any calls the memory is the one that was there at first or the one that
`exporthook` left**, and the last call says which. -/
theorem runCalls_exporthook (calls : List Call) :
    (runCalls calls (exporthook (some addr) funcname hook_arm hook_thumb p).2).mem
      = if patchedAfter calls then (exporthook (some addr) funcname hook_arm hook_thumb p).2.mem
        else p.mem := by
  rw [runCalls_mem, patchedAfter, ← List.getLast?_map]
  by_cases harm : addr.toNat % 4 = 0
  · simp only [exporthook, if_pos harm, HookT.fill]
    exact (wordWindow 3 addr (by decide)).foldl_switch (armJump hook_arm) p.mem _
  · simp only [exporthook, if_neg harm, HookT.fill]
    exact (byteWindow 20 (addr - 1#32) (by decide)).foldl_switch (thumbJump hook_thumb) p.mem _

/-- `exporthook` changes nothing outside the window. -/
theorem exporthook_outside (haddr : FunctionAddr addr) :
    Set.EqOn (exporthook (some addr) funcname hook_arm hook_thumb p).2.mem p.mem
      (window addr)ᶜ := by
  intro a ha
  have hout : patchSize addr ≤ (a - codeAddr addr).toNat := not_lt.mp ha
  by_cases harm : addr.toNat % 4 = 0
  · rw [patchSize, if_pos harm, codeAddr_arm harm] at hout
    simp only [exporthook, if_pos harm]
    exact Mem.place_of_out (by decide) hout
  · rw [patchSize, if_neg harm, codeAddr_thumb (haddr.resolve_left harm)] at hout
    simp only [exporthook, if_neg harm]
    exact Mem.place_of_out (by decide) hout

/-- It leaves the jump in the window. -/
theorem exporthook_jumpAt (haddr : FunctionAddr addr) :
    JumpAt addr hook_arm hook_thumb
      (exporthook (some addr) funcname hook_arm hook_thumb p).2.mem := by
  by_cases harm : addr.toNat % 4 = 0
  · rw [JumpAt, if_pos harm, codeAddr_arm harm]
    simp only [exporthook, if_pos harm]
    exact wordsAt_place p.mem addr (armJump hook_arm).toList
      (by rw [Vector.length_toList]; decide)
  · rw [JumpAt, if_neg harm, codeAddr_thumb (haddr.resolve_left harm)]
    simp only [exporthook, if_neg harm]
    exact thumbJump_at (loadBytes_storeBytes (by decide) _ p.mem)

/-- It keeps a copy of what was there. -/
theorem exporthook_kept (haddr : FunctionAddr addr) :
    Kept addr p.mem (exporthook (some addr) funcname hook_arm hook_thumb p).2.h := by
  by_cases harm : addr.toNat % 4 = 0
  · rw [Kept, if_pos harm, codeAddr_arm harm]
    simp only [exporthook, if_pos harm]
    exact fun i => Vector.getElem_ofFn i.isLt
  · rw [Kept, if_neg harm, codeAddr_thumb (haddr.resolve_left harm)]
    simp only [exporthook, if_neg harm]
    exact fun i => Vector.getElem_ofFn i.isLt

end Discipline

/-- **The discipline of the calls.** `exporthook` on a function that is found succeeds.
After it and any number of calls in any order, only the window has changed; it holds the
jump if the last call was `hook_postcall` or there was none, and what it held at first if
the last call was `hook_precall` or `unhook`; and the record has the copy of it. -/
theorem calls_discipline (addr : Word) (haddr : FunctionAddr addr) (funcname : List Byte)
    (hook_arm hook_thumb : Word) (p : Process) (calls : List Call) :
    let installed := exporthook (some addr) funcname hook_arm hook_thumb p
    let q := runCalls calls installed.2
    installed.1 = 1 ∧ Set.EqOn q.mem p.mem (window addr)ᶜ
      ∧ (if patchedAfter calls then JumpAt addr hook_arm hook_thumb q.mem
          else Set.EqOn q.mem p.mem (window addr))
      ∧ Kept addr p.mem q.h := by
  intro installed q
  have hmem : q.mem = if patchedAfter calls then installed.2.mem else p.mem :=
    runCalls_exporthook addr funcname hook_arm hook_thumb p calls
  have hh : q.h = installed.2.h := runCalls_h calls installed.2
  refine ⟨?_, ?_, ?_, hh ▸ exporthook_kept addr funcname hook_arm hook_thumb p haddr⟩
  · by_cases harm : addr.toNat % 4 = 0
    · simp only [installed, exporthook, if_pos harm]
    · simp only [installed, exporthook, if_neg harm]
  · cases hp : patchedAfter calls with
    | true =>
      rw [hmem, hp, if_pos rfl]
      exact exporthook_outside addr funcname hook_arm hook_thumb p haddr
    | false =>
      rw [hmem, hp, if_neg Bool.false_ne_true]
      exact Set.eqOn_refl p.mem _
  · cases hp : patchedAfter calls with
    | true =>
      rw [if_pos rfl, hmem, hp, if_pos rfl]
      exact exporthook_jumpAt addr funcname hook_arm hook_thumb p haddr
    | false =>
      rw [if_neg Bool.false_ne_true, hmem, hp, if_neg Bool.false_ne_true]
      exact Set.eqOn_refl p.mem _

/-- A Thumb function at `0x1001` whose hook is called twice, and unhooked in between. -/
theorem calls_discipline_thumb :
    let p : Process := ⟨fun a => a.setWidth 8,
      ⟨⟨#[0, 0, 0], rfl⟩, ⟨#[0, 0, 0], rfl⟩, .replicate 20 0, .replicate 20 0, 0, 0, 0,
        .replicate 128 0⟩⟩
    let installed := exporthook (some 0x1001#32) [0x66#8] 0x2000#32 0x3001#32 p
    let q := runCalls [.precall, .postcall, .unhook, .precall, .postcall] installed.2
    installed.1 = 1 ∧ Set.EqOn q.mem p.mem (window 0x1001#32)ᶜ
      ∧ JumpAt 0x1001#32 0x2000#32 0x3001#32 q.mem ∧ Kept 0x1001#32 p.mem q.h :=
  calls_discipline 0x1001#32 (Or.inr rfl) [0x66#8] 0x2000#32 0x3001#32 _ _

end ExportHook
