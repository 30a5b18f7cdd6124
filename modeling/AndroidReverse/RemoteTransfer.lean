import AndroidReverse.RemoteCall
import Mathlib.Logic.Function.Iterate

/-!
# Transfers to and from a traced process

A word at a time is peeked or poked. At the end some bytes may be left, fewer than a word:
the injector and `gothook` peek the word they begin, put them in front of what stands behind
them, and poke it. Of the memory of the process the bytes that are transferred change, and
no other byte (`transfer_eq`).
-/

namespace RemoteTransfer

open Arm RemoteCall

/-! ## The traced process -/

/-- **A traced process**: its memory, and the addresses of the words that `ptrace` can
access. -/
structure Remote where
  mem : Mem
  accessible : Word → Bool

/-- `PTRACE_PEEKTEXT` and `PTRACE_PEEKDATA`, which answer `-1` where they fail. -/
def Remote.peek (t : Remote) (a : Word) : Word :=
  if t.accessible a then t.mem.read32 a else -1#32

/-- `PTRACE_POKETEXT` and `PTRACE_POKEDATA`. -/
def Remote.poke (t : Remote) (a v : Word) : Remote :=
  if t.accessible a then { t with mem := t.mem.write 4 a v } else t

/-- **An array of bytes** in the tool; its size is a `size_t`. -/
structure Block where
  bytes : List Byte
  fits : bytes.length < 2 ^ 32

/-- The size of an array. -/
def Block.size (b : Block) : ℕ := b.bytes.length

/-- The bytes from the address of an array on. -/
def Block.at (b : Block) (k : ℕ) : Byte := b.bytes.getD k 0#8

/-! ## Reading -/

/-- `memcpy` of the first `n` characters of the union. -/
def memcpy (buf : ℕ → Byte) (laddr : ℕ) (val : Word) (n : ℕ) : ℕ → Byte := fun k =>
  if laddr ≤ k ∧ k < laddr + n then Mem.byteOf val (k - laddr) else buf k

/-- The body of the loop of `ptrace_readdata`. -/
def readWord (t : Remote) : Word × ℕ × (ℕ → Byte) → Word × ℕ × (ℕ → Byte)
  | (src, laddr, buf) => (src + 4#32, laddr + 4, memcpy buf laddr (t.peek src) 4)

/-- `ptrace_readdata`: its answer and the buffer. -/
def ptraceReaddata (t : Remote) (src : Word) (buf : ℕ → Byte) (size : ℕ) : ℤ × (ℕ → Byte) :=
  let j := size / 4
  let remain := size % 4
  let (src, laddr, buf) := (readWord t)^[j] (src, 0, buf)
  if remain > 0 then (0, memcpy buf laddr (t.peek src) remain) else (0, buf)

/-! ## Writing -/

/-- The body of the loop over the words. -/
def writeWord (data : ℕ → Byte) : Remote × Word × ℕ → Remote × Word × ℕ
  | (t, dest, laddr) => (t.poke dest (wordOf data laddr), dest + 4#32, laddr + 4)

/-- The body of the loop over the bytes that are left. -/
def writeChar (data : ℕ → Byte) : (ℕ → Byte) × ℕ × ℕ → (ℕ → Byte) × ℕ × ℕ
  | (chars, i, laddr) => (Function.update chars i (data laddr), i + 1, laddr + 1)

/-- `ptrace_writedata`: its answer and the process. -/
def ptraceWritedata (t : Remote) (dest : Word) (data : ℕ → Byte) (size : ℕ) : ℤ × Remote :=
  let j := size / 4
  let remain := size % 4
  let (t, dest, laddr) := (writeWord data)^[j] (t, dest, 0)
  if remain > 0 then
    let chars := Mem.byteOf (t.peek dest)
    let (chars, _, _) := (writeChar data)^[remain] (chars, 0, laddr)
    (0, t.poke dest (wordOf chars 0))
  else (0, t)

/-- A `size_t` as an `int`. -/
def toInt (n : ℕ) : ℤ := (BitVec.ofNat 32 n).toInt

/-- `PtraceWrite`. -/
def ptraceWrite (t : Remote) (addr : Word) (data : ℕ → Byte) (size : ℕ) : Remote :=
  let mod := toInt (size % 4)
  let loop_count := toInt (size / 4)
  let (t, tmp_addr, tmp_data) := (writeWord data)^[loop_count.toNat] (t, addr, 0)
  if mod > 0 then
    let val := t.peek tmp_addr
    let (p, _, _) := (writeChar data)^[mod.toNat] (Mem.byteOf val, 0, tmp_data)
    t.poke tmp_addr (wordOf p 0)
  else t

/-! ## What is transferred -/

/-- Some bytes stored at an address. -/
def storeBytes (m : Mem) (dest : Word) (data : ℕ → Byte) (size : ℕ) : Mem := fun x =>
  if (x - dest).toNat < size then data (x - dest).toNat else m x

/-- **The process after a transfer** to an address. -/
def Remote.store (t : Remote) (dest : Word) (data : ℕ → Byte) (size : ℕ) : Remote :=
  { t with mem := storeBytes t.mem dest data size }

/-- **The words that a transfer touches can be accessed.** -/
def Remote.Accessible (t : Remote) (dest : Word) (size : ℕ) : Prop :=
  ∀ i, 4 * i < size → t.accessible (dest + BitVec.ofNat 32 (4 * i)) = true

section Steps

variable {t : Remote} {dest : Word} {data : ℕ → Byte} {n : ℕ}

theorem store_zero : t.store dest data 0 = t := rfl

theorem peek_store {a : Word} (ha : t.accessible a = true) :
    (t.store dest data n).peek a = (storeBytes t.mem dest data n).read32 a :=
  if_pos ha

theorem poke_store {a v : Word} (ha : t.accessible a = true) :
    (t.store dest data n).poke a v = ⟨(storeBytes t.mem dest data n).write 4 a v, t.accessible⟩ :=
  if_pos ha

/-- The distance to an address behind another one. -/
theorem sub_add_ofNat (x dest : Word) {k : ℕ} (hk : k < 2 ^ 32) :
    (x - (dest + BitVec.ofNat 32 k)).toNat = ((x - dest).toNat + (2 ^ 32 - k)) % 2 ^ 32 := by
  have hx := x.isLt
  have hdest := dest.isLt
  rw [BitVec.toNat_sub, BitVec.toNat_sub, BitVec.toNat_add, BitVec.toNat_ofNat]
  omega

theorem add_sub_self_toNat (dest : Word) {k : ℕ} (hk : k < 2 ^ 32) :
    (dest + BitVec.ofNat 32 k - dest).toNat = k := by
  rw [BitVec.add_comm, BitVec.add_sub_cancel, BitVec.toNat_ofNat, Nat.mod_eq_of_lt hk]

theorem storeBytes_add (m : Mem) {k size : ℕ} (hk : k < 2 ^ 32) :
    storeBytes m dest data size (dest + BitVec.ofNat 32 k)
      = if k < size then data k else m (dest + BitVec.ofNat 32 k) := by
  rw [storeBytes, add_sub_self_toNat dest hk]

theorem byteOf_read32 (m : Mem) (a : Word) {k : ℕ} (hk : k < 4) :
    Mem.byteOf (m.read32 a) k = m (a + BitVec.ofNat 32 k) := by
  have hword : m.read32 a = wordOf (fun k => m (a + BitVec.ofNat 32 k)) 0 := by
    have h3 : a + 2#32 + 1#32 = a + 3#32 := by rw [BitVec.add_assoc]; rfl
    have h0 : a + 0#32 = a := BitVec.add_zero a
    rw [Mem.read32, Mem.read16, Mem.read16, h3, wordOf]
    exact congrArg _ (congrArg _ (congrArg m h0.symm))
  rw [hword, byteOf_wordOf _ _ hk, Nat.zero_add]

theorem peek_of_accessible {a : Word} (ha : t.accessible a = true) : t.peek a = t.mem.read32 a :=
  if_pos ha

/-- Some bytes of a word behind those that were read before. -/
theorem memcpy_read32 {m : Mem} {buf : ℕ → Byte} {l r : ℕ} (hr : r ≤ 4) (k : ℕ) :
    memcpy (fun k => if k < l then m (dest + BitVec.ofNat 32 k) else buf k) l
        (m.read32 (dest + BitVec.ofNat 32 l)) r k
      = if k < l + r then m (dest + BitVec.ofNat 32 k) else buf k := by
  unfold memcpy
  dsimp only
  by_cases hl : k < l
  · rw [if_neg (by omega), if_pos hl, if_pos (by omega)]
  · obtain ⟨j, rfl⟩ := Nat.exists_eq_add_of_le (Nat.le_of_not_lt hl)
    rw [Nat.add_sub_cancel_left]
    by_cases hj : j < r
    · rw [if_pos (by omega), if_pos (by omega), byteOf_read32 _ _ (by omega), BitVec.add_assoc,
        ← BitVec.ofNat_add]
    · rw [if_neg (by omega), if_neg hl, if_neg (by omega)]

/-- **One more word**, of which some bytes are those that were there. -/
theorem write_storeBytes (m : Mem) {chars : ℕ → Byte} {r : ℕ} (hn : 4 * n + 4 ≤ 2 ^ 32)
    (hr : r ≤ 4) (hdata : ∀ k < r, chars k = data (4 * n + k))
    (hkept : ∀ k < 4, r ≤ k → chars k = m (dest + BitVec.ofNat 32 (4 * n + k))) :
    (storeBytes m dest data (4 * n)).write 4 (dest + BitVec.ofNat 32 (4 * n)) (wordOf chars 0)
      = storeBytes m dest data (4 * n + r) := by
  funext x
  have hx := (x - dest).isLt
  have hdist : (x - (dest + BitVec.ofNat 32 (4 * n))).toNat
      = ((x - dest).toNat + (2 ^ 32 - 4 * n)) % 2 ^ 32 := sub_add_ofNat x dest (by omega)
  have hself : dest + BitVec.ofNat 32 (x - dest).toNat = x := by
    rw [BitVec.ofNat_toNat, BitVec.setWidth_eq, BitVec.add_comm, BitVec.sub_add_cancel]
  rw [Mem.write, hdist]
  unfold storeBytes
  by_cases hlow : (x - dest).toNat < 4 * n
  · rw [if_neg (by omega), if_pos hlow, if_pos (by omega)]
  · obtain ⟨k, hk⟩ := Nat.exists_eq_add_of_le (Nat.le_of_not_lt hlow)
    have hmod : ((x - dest).toNat + (2 ^ 32 - 4 * n)) % 2 ^ 32 = k := by omega
    rw [hmod, if_neg hlow]
    by_cases hword : k < 4
    · rw [if_pos hword, byteOf_wordOf _ _ hword, Nat.zero_add]
      by_cases hkr : k < r
      · rw [if_pos (by omega), hdata k hkr, hk]
      · rw [if_neg (by omega), hkept k hword (by omega), ← hk, hself]
    · rw [if_neg hword, if_neg (by omega)]

/-- **The loop over the words.** -/
theorem iterate_writeWord (hn : 4 * n ≤ 2 ^ 32) (hacc : t.Accessible dest (4 * n)) :
    (writeWord data)^[n] (t, dest, 0)
      = (t.store dest data (4 * n), dest + BitVec.ofNat 32 (4 * n), 4 * n) := by
  induction n with
  | zero => rw [Function.iterate_zero_apply, Nat.mul_zero, store_zero, BitVec.add_zero]
  | succ n ih =>
    have hwrite : (storeBytes t.mem dest data (4 * n)).write 4 (dest + BitVec.ofNat 32 (4 * n))
        (wordOf (fun k => data (4 * n + k)) 0) = storeBytes t.mem dest data (4 * n + 4) :=
      write_storeBytes t.mem (by omega) (Nat.le_refl 4) (fun _ _ => rfl)
        fun k hk hk' => absurd hk (Nat.not_lt.mpr hk')
    have hword : (t.store dest data (4 * n)).poke (dest + BitVec.ofNat 32 (4 * n))
        (wordOf data (4 * n)) = t.store dest data (4 * (n + 1)) := by
      rw [poke_store (hacc n (by omega))]
      exact congrArg (Remote.mk · t.accessible) hwrite
    rw [Function.iterate_succ_apply', ih (by omega) fun i hi => hacc i (by omega), writeWord, hword,
      BitVec.add_assoc]
    refine Prod.ext rfl (Prod.ext (congrArg (dest + ·) ?_) rfl)
    rw [Nat.mul_succ, BitVec.ofNat_add]

/-- **The loop over the bytes that are left.** -/
theorem iterate_writeChar (chars : ℕ → Byte) (laddr r : ℕ) :
    (writeChar data)^[r] (chars, 0, laddr)
      = (fun k => if k < r then data (laddr + k) else chars k, r, laddr + r) := by
  induction r with
  | zero => rfl
  | succ r ih =>
    rw [Function.iterate_succ_apply', ih, writeChar]
    refine Prod.ext (funext fun k => ?_) rfl
    dsimp only
    by_cases hk : k = r
    · rw [hk, Function.update_self, if_pos (Nat.lt_succ_self r)]
    · rw [Function.update_of_ne hk]
      exact if_congr (by omega) rfl rfl

/-- **The word at the end.** -/
theorem poke_rest {size : ℕ} (hsize : size < 2 ^ 32) (hacc : t.Accessible dest size)
    (hrest : size % 4 > 0) {chars : ℕ → Byte}
    (hchars : ∀ k, chars k = if k < size % 4 then data (4 * (size / 4) + k)
      else Mem.byteOf ((t.store dest data (4 * (size / 4))).peek
        (dest + BitVec.ofNat 32 (4 * (size / 4)))) k) :
    (t.store dest data (4 * (size / 4))).poke (dest + BitVec.ofNat 32 (4 * (size / 4)))
      (wordOf chars 0) = t.store dest data size := by
  have hlast := hacc (size / 4) (by omega)
  have hdiv := Nat.div_add_mod size 4
  have hkept (k : ℕ) (hk : k < 4) (hk' : size % 4 ≤ k) :
      chars k = t.mem (dest + BitVec.ofNat 32 (4 * (size / 4) + k)) := by
    rw [hchars, peek_store hlast, byteOf_read32 _ _ hk, if_neg (Nat.not_lt.mpr hk'),
      BitVec.add_assoc, ← BitVec.ofNat_add, storeBytes_add _ (by omega), if_neg (by omega)]
  have hwrite : (storeBytes t.mem dest data (4 * (size / 4))).write 4
      (dest + BitVec.ofNat 32 (4 * (size / 4))) (wordOf chars 0)
      = storeBytes t.mem dest data (4 * (size / 4) + size % 4) :=
    write_storeBytes t.mem (by omega) (by omega) (fun k hk => by rw [hchars, if_pos hk]) hkept
  rw [hdiv] at hwrite
  rw [poke_store hlast]
  exact congrArg (Remote.mk · t.accessible) hwrite

/-- **`ptrace_writedata` stores the bytes** and nothing else. -/
theorem ptraceWritedata_eq {size : ℕ} (hsize : size < 2 ^ 32) (hacc : t.Accessible dest size) :
    ptraceWritedata t dest data size = (0, t.store dest data size) := by
  have hdiv := Nat.div_add_mod size 4
  have hloop := @iterate_writeWord t dest data (size / 4) (by omega) fun i hi => hacc i (by omega)
  simp only [ptraceWritedata, hloop, iterate_writeChar]
  split
  · next hrest => rw [poke_rest hsize hacc hrest fun _ => rfl]
  · next hrest => rw [show 4 * (size / 4) = size by omega]

/-- A number of words, or of bytes that are left, is not too large for an `int`. -/
theorem toInt_eq {k : ℕ} (hk : k < 2 ^ 31) : toInt k = k := by
  rw [toInt, BitVec.toInt_eq_toNat_of_lt, BitVec.toNat_ofNat, Nat.mod_eq_of_lt (by omega)]
  rw [BitVec.toNat_ofNat, Nat.mod_eq_of_lt (by omega)]
  omega

/-- **`PtraceWrite` stores the same.** -/
theorem ptraceWrite_eq {size : ℕ} (hsize : size < 2 ^ 32) (hacc : t.Accessible dest size) :
    ptraceWrite t dest data size = t.store dest data size := by
  have hdiv := Nat.div_add_mod size 4
  have hloop := @iterate_writeWord t dest data (size / 4) (by omega) fun i hi => hacc i (by omega)
  have hcount : toInt (size / 4) = (size / 4 : ℕ) := toInt_eq (by omega)
  have hmod : toInt (size % 4) = (size % 4 : ℕ) := toInt_eq (by omega)
  simp only [ptraceWrite, hcount, hmod, Int.toNat_natCast, hloop, iterate_writeChar,
    gt_iff_lt, Int.natCast_pos]
  split
  · next hrest => rw [poke_rest hsize hacc hrest fun _ => rfl]
  · next hrest => rw [show 4 * (size / 4) = size by omega]

/-- The memory after a transfer as the calls in a traced process have it. -/
theorem poke_eq_storeBytes (m : Mem) {size : ℕ} (hsize : size < 2 ^ 32) :
    RemoteCall.poke m dest data size = storeBytes m dest data size := by
  have hdiv := Nat.div_add_mod size 4
  have hloop (n : ℕ) (hn : 4 * n ≤ 2 ^ 32) : (List.range n).foldl
      (fun mem i => mem.write 4 (dest + BitVec.ofNat 32 (4 * i)) (wordOf data (4 * i))) m
      = storeBytes m dest data (4 * n) := by
    induction n with
    | zero => rfl
    | succ n ih =>
      rw [List.range_succ, List.foldl_append, ih (by omega)]
      exact @write_storeBytes dest data n m (fun k => data (4 * n + k)) 4 (by omega) (Nat.le_refl 4)
        (fun _ _ => rfl) fun k hk hk' => absurd hk (Nat.not_lt.mpr hk')
  simp only [RemoteCall.poke, hloop (size / 4) (by omega)]
  split
  · next hrest =>
    rw [write_storeBytes m (by omega) (show size % 4 ≤ 4 by omega) (fun k hk => if_pos hk)
      fun k hk hk' => ?_, hdiv]
    rw [if_neg (Nat.not_lt.mpr hk'), BitVec.add_assoc, ← BitVec.ofNat_add,
      storeBytes_add _ (by omega), if_neg (by omega)]
  · next hrest => rw [show 4 * (size / 4) = size by omega]

/-! ## What is read back -/

/-- **The loop over the words.** -/
theorem iterate_readWord (buf : ℕ → Byte) (hn : 4 * n ≤ 2 ^ 32)
    (hacc : t.Accessible dest (4 * n)) :
    (readWord t)^[n] (dest, 0, buf) = (dest + BitVec.ofNat 32 (4 * n), 4 * n,
      fun k => if k < 4 * n then t.mem (dest + BitVec.ofNat 32 k) else buf k) := by
  induction n with
  | zero => rw [Function.iterate_zero_apply, Nat.mul_zero, BitVec.add_zero]; rfl
  | succ n ih =>
    rw [Function.iterate_succ_apply', ih (by omega) fun i hi => hacc i (by omega), readWord,
      peek_of_accessible (hacc n (by omega)), BitVec.add_assoc]
    refine Prod.ext (congrArg (dest + ·) ?_) (Prod.ext rfl (funext fun k => ?_))
    · rw [Nat.mul_succ, BitVec.ofNat_add]
    · exact memcpy_read32 (by omega) k

/-- **`ptrace_readdata` reads the bytes.** -/
theorem ptraceReaddata_eq (buf : ℕ → Byte) {size : ℕ} (hsize : size < 2 ^ 32)
    (hacc : t.Accessible dest size) :
    ptraceReaddata t dest buf size
      = (0, fun k => if k < size then t.mem (dest + BitVec.ofNat 32 k) else buf k) := by
  have hdiv := Nat.div_add_mod size 4
  have hloop := @iterate_readWord t dest (size / 4) buf (by omega) fun i hi => hacc i (by omega)
  simp only [ptraceReaddata, hloop]
  split
  · next hrest =>
    rw [peek_of_accessible (hacc (size / 4) (by omega))]
    refine Prod.ext rfl (funext fun k => ?_)
    have hle : size % 4 ≤ 4 := (Nat.mod_lt size (by decide)).le
    exact (memcpy_read32 hle k).trans (by rw [hdiv])
  · next hrest => rw [show 4 * (size / 4) = size by omega]

end Steps

/-! ## The transfers -/

/-- **A transfer changes the bytes it is about**, and what is read back is what was written:
for any address and any size, where the words that are touched can be accessed, both writers
leave the same, the bytes of the block at the address and every other byte as it was, and
`ptrace_readdata` reads the block into a buffer and nothing behind it. -/
theorem transfer_eq (t : Remote) (dest : Word) (data : Block) (buf : ℕ → Byte)
    (hacc : t.Accessible dest data.size) :
    ∃ t' : Remote, ptraceWritedata t dest data.at data.size = (0, t')
      ∧ ptraceWrite t dest data.at data.size = t'
      ∧ (∀ k (hk : k < data.bytes.length), t'.mem (dest + BitVec.ofNat 32 k) = data.bytes[k])
      ∧ (∀ x, data.size ≤ (x - dest).toNat → t'.mem x = t.mem x)
      ∧ ∃ buf', ptraceReaddata t' dest buf data.size = (0, buf')
        ∧ (List.range data.size).map buf' = data.bytes
        ∧ ∀ k, data.size ≤ k → buf' k = buf k := by
  have hbyte (k : ℕ) (hk : k < data.bytes.length) :
      (t.store dest data.at data.size).mem (dest + BitVec.ofNat 32 k) = data.bytes[k] := by
    have hat : data.at k = data.bytes[k] := by
      rw [Block.at, List.getD_eq_getElem?_getD, List.getElem?_eq_getElem hk, Option.getD_some]
    exact (storeBytes_add t.mem (hk.trans data.fits)).trans ((if_pos hk).trans hat)
  refine ⟨t.store dest data.at data.size, ptraceWritedata_eq data.fits hacc,
    ptraceWrite_eq data.fits hacc, hbyte, fun x hx => if_neg (Nat.not_lt.mpr hx), _,
    ptraceReaddata_eq buf data.fits hacc, ?_, fun k hk => if_neg (Nat.not_lt.mpr hk)⟩
  refine List.ext_getElem (by rw [List.length_map, List.length_range]; rfl) fun k _ hk => ?_
  rw [List.getElem_map, List.getElem_range, if_pos (show k < data.size from hk), hbyte k hk]

/-- Seven bytes at an odd address. -/
theorem transfer_eq_seven :
    ∃ t' : Remote, ptraceWritedata ⟨fun _ => 0x55#8, fun _ => true⟩ 0x1003#32
        (Block.at ⟨[1, 2, 3, 4, 5, 6, 7], by decide⟩) 7 = (0, t')
      ∧ (∀ x, 7 ≤ (x - 0x1003#32).toNat → t'.mem x = 0x55#8)
      ∧ ∃ buf', ptraceReaddata t' 0x1003#32 (fun _ => 0#8) 7 = (0, buf')
        ∧ (List.range 7).map buf' = [1, 2, 3, 4, 5, 6, 7] := by
  obtain ⟨t', hwrite, -, -, hframe, buf', hread, hbytes, -⟩ :=
    transfer_eq ⟨fun _ => 0x55#8, fun _ => true⟩ 0x1003#32 ⟨[1, 2, 3, 4, 5, 6, 7], by decide⟩
      (fun _ => 0#8) fun _ _ => rfl
  exact ⟨t', hwrite, hframe, buf', hread, hbytes⟩

end RemoteTransfer
