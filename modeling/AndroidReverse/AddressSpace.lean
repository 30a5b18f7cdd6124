import AndroidReverse.ByteOutput
import Mathlib.Data.List.TakeWhile
import Mathlib.Data.Nat.ModEq

/-!
# Address spaces

A memory of bytes with a protection for each address, or none where nothing is
mapped, and the calls of POSIX that change them: `mmap` and `munmap` of
anonymous memory, `mprotect`, which goes as far as the addresses are mapped, and
`memcpy`, which has no result if it faults. Pages are blocks of `2 ^ k` bytes;
where a page starts is `pageFloor`.
-/

/-- `PROT_READ`, `PROT_WRITE` and `PROT_EXEC`, the lowest bit first. -/
abbrev Prot : Type := BitVec 3

namespace Prot

/-- `PROT_READ`. -/
def read : Prot := 1#3

/-- `PROT_WRITE`. -/
def write : Prot := 2#3

/-- `PROT_EXEC`. -/
def exec : Prot := 4#3

end Prot

namespace ByteMemory

variable {w : ℕ}

/-- The `n` addresses from `a` on, in order. -/
def addrs (a : BitVec w) (n : ℕ) : List (BitVec w) :=
  (List.range n).map fun k => a + BitVec.ofNat w k

/-- The `n` bytes from `a` on. -/
def bytes (m : ByteMemory w) (a : BitVec w) (n : ℕ) : List (BitVec 8) := (addrs a n).map m

@[simp]
theorem length_addrs (a : BitVec w) (n : ℕ) : (addrs a n).length = n := by
  rw [addrs, List.length_map, List.length_range]

@[simp]
theorem length_bytes (m : ByteMemory w) (a : BitVec w) (n : ℕ) : (bytes m a n).length = n := by
  rw [bytes, List.length_map, length_addrs]

theorem mem_addrs {a x : BitVec w} {n : ℕ} : x ∈ addrs a n ↔ x ∈ block a n := by
  rw [mem_block, addrs, List.mem_map]
  constructor
  · rintro ⟨k, hk, rfl⟩
    exact ⟨k, List.mem_range.mp hk, rfl⟩
  · rintro ⟨k, hk, rfl⟩
    exact ⟨k, List.mem_range.mpr hk, rfl⟩

theorem getElem?_addrs (a : BitVec w) {n k : ℕ} (hk : k < n) :
    (addrs a n)[k]? = some (a + BitVec.ofNat w k) := by
  rw [addrs, List.getElem?_map, List.getElem?_range hk, Option.map_some]

theorem getElem?_bytes (m : ByteMemory w) (a : BitVec w) {n k : ℕ} (hk : k < n) :
    (bytes m a n)[k]? = some (m (a + BitVec.ofNat w k)) := by
  rw [bytes, List.getElem?_map, getElem?_addrs a hk, Option.map_some]

/-- The addresses of a block that is no longer than the memory are different. -/
theorem nodup_addrs (a : BitVec w) {n : ℕ} (hn : n ≤ 2 ^ w) : (addrs a n).Nodup := by
  refine List.Nodup.map_on (fun i hi j hj hij => ?_) List.nodup_range
  have h := congrArg BitVec.toNat (add_left_cancel hij)
  rwa [BitVec.toNat_ofNat, BitVec.toNat_ofNat,
    Nat.mod_eq_of_lt (lt_of_lt_of_le (List.mem_range.mp hi) hn),
    Nat.mod_eq_of_lt (lt_of_lt_of_le (List.mem_range.mp hj) hn)] at h

theorem bytes_congr {m m' : ByteMemory w} {a : BitVec w} {n : ℕ}
    (h : Set.EqOn m m' (block a n)) : bytes m a n = bytes m' a n :=
  List.map_congr_left fun _ hx => h (mem_addrs.mp hx)

/-- A byte that is copied comes from the same place of the source. -/
theorem copy_bytes_of_mem (m m' : ByteMemory w) {a b x : BitVec w} {n : ℕ} (hx : x ∈ block a n) :
    copy m a (bytes m' b n) x = m' (b + (x - a)) := by
  rw [copy, getElem?_bytes m' b hx, Option.getD_some, BitVec.ofNat_toNat, BitVec.setWidth_eq]

theorem copy_of_notMem (m : ByteMemory w) {a x : BitVec w} {bs : List (BitVec 8)}
    (hx : x ∉ block a bs.length) : copy m a bs x = m x :=
  copy_of_out m (Nat.le_of_not_lt hx)

/-- **A copy by way of a buffer.** A range is copied to a buffer, bytes from elsewhere are put
in there, and it is copied back: outside the buffer that is a copy of those bytes. -/
theorem copy_buffer (m : ByteMemory w) (start off : BitVec w) {buf src x : BitVec w} {n range : ℕ}
    (hn : off.toNat + n ≤ range)
    (hsrc : Disjoint (block src n) (block buf range)) (hx : x ∉ block buf range) :
    let m₁ := copy m buf (bytes m start range)
    let m₂ := copy m₁ (buf + off) (bytes m₁ src n)
    copy m₂ start (bytes m₂ buf range) x = copy m (start + off) (bytes m src n) x := by
  intro m₁ m₂
  have hin : ∀ b : BitVec w, block (b + off) n ⊆ block b range := by
    intro b
    have := block_subset_block (a := b) (k := off.toNat) (n := n) hn
    rwa [BitVec.ofNat_toNat, BitVec.setWidth_eq] at this
  have hm₁ : ∀ y, y ∉ block buf range → m₁ y = m y := fun y hy =>
    copy_of_notMem m (by rwa [length_bytes])
  have hm₂ : ∀ y, y ∉ block (buf + off) n → m₂ y = m₁ y := fun y hy =>
    copy_of_notMem m₁ (by rwa [length_bytes])
  by_cases hr : x ∈ block start range
  · rw [copy_bytes_of_mem m₂ m₂ hr]
    by_cases hp : x ∈ block (start + off) n
    · have hb : buf + (x - start) ∈ block (buf + off) n := by
        show (buf + (x - start) - (buf + off)).toNat < n
        rw [add_sub_add_left_eq_sub, sub_sub]
        exact hp
      have hs : src + (x - (start + off)) ∈ block src n := by
        show (src + (x - (start + off)) - src).toNat < n
        rw [add_sub_cancel_left]
        exact hp
      rw [copy_bytes_of_mem m m hp, show m₂ (buf + (x - start)) = _ from copy_bytes_of_mem m₁ m₁ hb,
        add_sub_add_left_eq_sub, sub_sub, hm₁ _ (Set.disjoint_left.mp hsrc hs)]
    · have hb : buf + (x - start) ∉ block (buf + off) n := by
        show ¬(buf + (x - start) - (buf + off)).toNat < n
        rw [add_sub_add_left_eq_sub, sub_sub]
        exact hp
      have hbr : buf + (x - start) ∈ block buf range := by
        show (buf + (x - start) - buf).toNat < range
        rw [add_sub_cancel_left]
        exact hr
      rw [hm₂ _ hb, show m₁ (buf + (x - start)) = _ from copy_bytes_of_mem m m hbr,
        add_sub_cancel_left, add_sub_cancel, copy_of_notMem m (by rwa [length_bytes])]
  · have hp : x ∉ block (start + off) n := fun h => hr (hin start h)
    rw [copy_of_notMem m₂ (by rwa [length_bytes]), hm₂ x fun h => hx (hin buf h), hm₁ x hx,
      copy_of_notMem m (by rwa [length_bytes])]

/-- Whether an address is in a block. -/
instance decidableMemBlock (a x : BitVec w) (n : ℕ) : Decidable (x ∈ block a n) :=
  inferInstanceAs (Decidable ((x - a).toNat < n))

/-! ## Pages -/

/-- The start of the page of `2 ^ k` bytes that an address is in. -/
def pageFloor (k : ℕ) (a : BitVec w) : BitVec w := a &&& ~~~(BitVec.ofNat w (2 ^ k) - 1#w)

/-- The start of a page is the address without its offset in the page. -/
theorem toNat_pageFloor {k : ℕ} (hk : k < w) (a : BitVec w) :
    (pageFloor k a).toNat = a.toNat / 2 ^ k * 2 ^ k := by
  have hone : 1#w ≤ BitVec.ofNat w (2 ^ k) := by
    rw [BitVec.le_def, BitVec.toNat_ofNat, BitVec.toNat_ofNat,
      Nat.mod_eq_of_lt (Nat.pow_lt_pow_right Nat.one_lt_two hk),
      Nat.mod_eq_of_lt (Nat.one_lt_two_pow (Nat.ne_of_gt (Nat.zero_lt_of_lt hk)))]
    exact Nat.one_le_two_pow
  have hmask : (BitVec.ofNat w (2 ^ k) - 1#w) = BitVec.ofNat w (2 ^ k - 1) := by
    apply BitVec.eq_of_toNat_eq
    rw [BitVec.toNat_sub_of_le hone, BitVec.toNat_ofNat, BitVec.toNat_ofNat, BitVec.toNat_ofNat,
      Nat.mod_eq_of_lt (Nat.pow_lt_pow_right Nat.one_lt_two hk),
      Nat.mod_eq_of_lt (Nat.one_lt_two_pow (Nat.ne_of_gt (Nat.zero_lt_of_lt hk))),
      Nat.mod_eq_of_lt (lt_of_le_of_lt (Nat.sub_le _ _) (Nat.pow_lt_pow_right Nat.one_lt_two hk))]
  have hshift : pageFloor k a = (a >>> k) <<< k := by
    apply BitVec.eq_of_getLsbD_eq
    intro i hi
    rw [pageFloor, hmask, BitVec.getLsbD_and, BitVec.getLsbD_not, BitVec.getLsbD_ofNat,
      Nat.testBit_two_pow_sub_one, BitVec.getLsbD_shiftLeft, BitVec.getLsbD_ushiftRight]
    by_cases h : i < k
    · simp [h, hi]
    · simp [h, hi, Nat.add_sub_cancel' (Nat.le_of_not_lt h)]
  rw [hshift, BitVec.toNat_shiftLeft, BitVec.toNat_ushiftRight, Nat.shiftLeft_eq,
    Nat.shiftRight_eq_div_pow]
  exact Nat.mod_eq_of_lt (lt_of_le_of_lt (Nat.div_mul_le_self _ _) a.isLt)

end ByteMemory

open ByteMemory

/-- **An address space**: the bytes, and how they may be used. -/
structure AddressSpace (w : ℕ) where
  /-- The bytes. -/
  mem : ByteMemory w
  /-- The protection of an address, if it is mapped. -/
  prot : BitVec w → Option Prot

namespace AddressSpace

variable {w : ℕ}

/-- Whether there is anything at an address. -/
def mapped (s : AddressSpace w) (x : BitVec w) : Bool := (s.prot x).isSome

/-- Whether an address may be used in a way. -/
def grants (s : AddressSpace w) (p : Prot) (x : BitVec w) : Bool :=
  (s.prot x).any fun q => q &&& p == p

/-- `memcpy`; `none` if a byte of the source cannot be read or one of the destination cannot
be written, or if the two overlap. -/
def memcpy (s : AddressSpace w) (dst src : BitVec w) (n : ℕ) : Option (AddressSpace w) :=
  if (addrs src n).all (s.grants Prot.read) ∧ (addrs dst n).all (s.grants Prot.write)
      ∧ (addrs src n).all fun x => decide (x ∉ block dst n) then
    some { s with mem := copy s.mem dst (bytes s.mem src n) }
  else none

/-- `mprotect` of whole pages: all of them are mapped, or it fails behind the last one that is. -/
def mprotect (s : AddressSpace w) (a : BitVec w) (n : ℕ) (p : Prot) : Bool × AddressSpace w :=
  let reach := ((addrs a n).takeWhile s.mapped).length
  (reach == n, { s with prot := fun x => if x ∈ block a reach then some p else s.prot x })

/-- `mmap` of anonymous memory, at the address that the system has chosen. -/
def mmap (s : AddressSpace w) (a : BitVec w) (n : ℕ) (p : Prot) : AddressSpace w where
  mem := fun x => if x ∈ block a n then 0#8 else s.mem x
  prot := fun x => if x ∈ block a n then some p else s.prot x

/-- `munmap`. -/
def munmap (s : AddressSpace w) (a : BitVec w) (n : ℕ) : AddressSpace w :=
  { s with prot := fun x => if x ∈ block a n then none else s.prot x }

section Calls

variable {s : AddressSpace w} {a b x : BitVec w} {n : ℕ} {p : Prot}

theorem mmap_prot (x : BitVec w) :
    (s.mmap a n p).prot x = if x ∈ block a n then some p else s.prot x := rfl

theorem munmap_prot (x : BitVec w) :
    (s.munmap a n).prot x = if x ∈ block a n then none else s.prot x := rfl

theorem mmap_mem_of_notMem (hx : x ∉ block a n) : (s.mmap a n p).mem x = s.mem x := if_neg hx

/-- What a mapping may be used for. -/
theorem grants_mmap {q : Prot} (hx : x ∈ block a n) : (s.mmap a n p).grants q x = (p &&& q == q) := by
  rw [grants, mmap_prot, if_pos hx]
  rfl

/-- A new mapping leaves the others as they are. -/
theorem grants_mmap_of_notMem {q : Prot} (hx : x ∉ block a n) :
    (s.mmap a n p).grants q x = s.grants q x := by
  rw [grants, mmap_prot, if_neg hx]
  rfl

theorem grants_mapped (h : s.grants p x) : s.mapped x := by
  rw [grants, Option.any_eq_true] at h
  obtain ⟨q, hq, -⟩ := h
  rw [mapped, hq]
  rfl

theorem all_addrs {f : BitVec w → Bool} : (addrs a n).all f ↔ ∀ x ∈ block a n, f x := by
  rw [List.all_eq_true]
  exact forall_congr' fun x => by rw [mem_addrs]

/-- A copy that does not fault. -/
theorem memcpy_eq (hsrc : ∀ x ∈ block b n, s.grants Prot.read x)
    (hdst : ∀ x ∈ block a n, s.grants Prot.write x) (hab : Disjoint (block b n) (block a n)) :
    s.memcpy a b n = some { s with mem := copy s.mem a (bytes s.mem b n) } :=
  if_pos ⟨all_addrs.mpr hsrc, all_addrs.mpr hdst,
    all_addrs.mpr fun _ hx => decide_eq_true (Set.disjoint_left.mp hab hx)⟩

/-- A copy to where nothing may be written. -/
theorem memcpy_eq_none (hx : x ∈ block a n) (hdst : s.grants Prot.write x = false) :
    s.memcpy a b n = none := by
  refine if_neg fun h => ?_
  have hw := all_addrs.mp h.2.1 x hx
  rw [hdst] at hw
  exact Bool.false_ne_true hw

/-- **`mprotect` of mapped pages.** -/
theorem mprotect_eq (h : ∀ x ∈ block a n, s.mapped x) :
    s.mprotect a n p
      = (true, { s with prot := fun x => if x ∈ block a n then some p else s.prot x }) := by
  have hall : (addrs a n).takeWhile s.mapped = addrs a n :=
    List.takeWhile_eq_self_iff.mpr fun x hx => h x (mem_addrs.mp hx)
  rw [mprotect]
  simp only [hall, length_addrs, beq_self_eq_true]

end Calls

end AddressSpace
