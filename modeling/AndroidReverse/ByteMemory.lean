import Mathlib.Data.BitVec
import Mathlib.Data.Set.Function
import Mathlib.Data.Set.Lattice
import Mathlib.Order.CompletePartialOrder

/-!
# Byte memories

A memory of bytes whose addresses wrap around at `2 ^ w`, with little-endian words of any
number of bytes. `block a n` are the `n` addresses from `a` on; a word depends on its block
(`read_congr`), writing a word changes its block and nothing else (`eqOn_write`), and two
blocks at multiples of their length are the same or disjoint (`disjoint_block`).

`DependsOn` is the general form of the first of these: what a computation reads. A string
is compared byte by byte up to its terminator (`strEq`), and an address holds one string
without zero bytes at most (`strEq_unique`).
-/

/-- A memory of bytes at addresses of `w` bits. -/
abbrev ByteMemory (w : ℕ) : Type := BitVec w → BitVec 8

namespace ByteMemory

variable {w : ℕ}

/-- The address of an element of an array: `n` bytes each, from `a` on. -/
def elem (a : BitVec w) (n i : ℕ) : BitVec w := a + BitVec.ofNat w (n * i)

/-- The number in the `n` bytes at an address, lowest byte first. -/
def read (m : ByteMemory w) (a : BitVec w) : ℕ → ℕ
  | 0 => 0
  | n + 1 => (m a).toNat + 256 * read m (a + 1#w) n

/-- Byte `k` of a number. -/
def byteOf (v k : ℕ) : BitVec 8 := BitVec.ofNat 8 (v / 256 ^ k)

/-- A number written to the `n` bytes at an address. -/
def write (m : ByteMemory w) (a : BitVec w) (n v : ℕ) : ByteMemory w := fun x =>
  if (x - a).toNat < n then byteOf v (x - a).toNat else m x

/-- Whether the string at an address is `s`, by `strcmp`. -/
def strEq (m : ByteMemory w) (a : BitVec w) : List (BitVec 8) → Bool
  | [] => m a == 0#8
  | c :: s => m a == c && strEq m (a + 1#w) s

/-- The `n` addresses from `a` on. -/
def block (a : BitVec w) (n : ℕ) : Set (BitVec w) := {x | (x - a).toNat < n}

/-! ## Blocks -/

theorem mem_block {a x : BitVec w} {n : ℕ} :
    x ∈ block a n ↔ ∃ k < n, x = a + BitVec.ofNat w k := by
  constructor
  · intro h
    refine ⟨(x - a).toNat, h, ?_⟩
    rw [BitVec.ofNat_toNat, BitVec.setWidth_eq, BitVec.add_comm, BitVec.sub_add_cancel]
  · rintro ⟨k, hk, rfl⟩
    show (a + BitVec.ofNat w k - a).toNat < n
    rw [BitVec.add_comm, BitVec.add_sub_cancel, BitVec.toNat_ofNat]
    exact lt_of_le_of_lt (Nat.mod_le _ _) hk

/-- The addresses behind the first one. -/
theorem block_succ_subset (a : BitVec w) (n : ℕ) : block (a + 1#w) n ⊆ block a (n + 1) := by
  intro x hx
  obtain ⟨k, hk, rfl⟩ := mem_block.mp hx
  refine mem_block.mpr ⟨k + 1, Nat.succ_lt_succ hk, ?_⟩
  rw [BitVec.add_assoc, ← BitVec.ofNat_add, Nat.add_comm]

/-- A block inside another one. -/
theorem block_subset_block {a : BitVec w} {k n n' : ℕ} (h : k + n ≤ n') :
    block (a + BitVec.ofNat w k) n ⊆ block a n' := by
  intro x hx
  obtain ⟨j, hj, rfl⟩ := mem_block.mp hx
  refine mem_block.mpr ⟨k + j, lt_of_lt_of_le (Nat.add_lt_add_left hj k) h, ?_⟩
  rw [BitVec.add_assoc, ← BitVec.ofNat_add]

/-- A block that does not wrap around is inside another one only if it ends there. -/
theorem block_subset_block_iff {a : BitVec w} {k n n' : ℕ} (hn : 0 < n) (h : k + n ≤ 2 ^ w) :
    block (a + BitVec.ofNat w k) n ⊆ block a n' ↔ k + n ≤ n' := by
  refine ⟨fun hs => ?_, block_subset_block⟩
  -- the last address of the block
  have hlast : (a + BitVec.ofNat w (k + (n - 1)) - a).toNat < n' :=
    hs (mem_block.mpr ⟨n - 1, Nat.sub_lt hn Nat.one_pos, by
      rw [BitVec.add_assoc, ← BitVec.ofNat_add]⟩)
  have hoff : a + BitVec.ofNat w (k + (n - 1)) - a = BitVec.ofNat w (k + (n - 1)) := by
    rw [BitVec.add_comm, BitVec.add_sub_cancel]
  rw [hoff, BitVec.toNat_ofNat, Nat.mod_eq_of_lt (by omega)] at hlast
  omega

/-- A block below a bound. -/
theorem block_subset_lt {a : BitVec w} {n b : ℕ} (h : a.toNat + n ≤ b) :
    block a n ⊆ {x | x.toNat < b} := by
  intro x hx
  obtain ⟨k, hk, rfl⟩ := mem_block.mp hx
  show (a + BitVec.ofNat w k).toNat < b
  have hle : (a + BitVec.ofNat w k).toNat ≤ a.toNat + k := by
    rw [BitVec.toNat_add, BitVec.toNat_ofNat]
    exact le_trans (Nat.mod_le _ _) (Nat.add_le_add_left (Nat.mod_le _ _) _)
  exact lt_of_le_of_lt hle (lt_of_lt_of_le (Nat.add_lt_add_left hk _) h)

theorem mem_block_self (a : BitVec w) (n : ℕ) : a ∈ block a (n + 1) :=
  mem_block.mpr ⟨0, Nat.succ_pos n, (BitVec.add_zero a).symm⟩

/-- An aligned block does not wrap around, and its addresses have one quotient. -/
theorem div_of_mem_block {a x : BitVec w} {n : ℕ} (hn : n ∣ 2 ^ w) (ha : n ∣ a.toNat)
    (hx : x ∈ block a n) : x.toNat / n = a.toNat / n := by
  obtain ⟨k, hk, rfl⟩ := mem_block.mp hx
  have hpos : 0 < n := lt_of_le_of_lt (Nat.zero_le k) hk
  obtain ⟨q, hq⟩ := hn
  obtain ⟨p, hp⟩ := ha
  have hpq : p < q := by
    have h := a.isLt
    rw [hp, hq] at h
    exact Nat.lt_of_mul_lt_mul_left h
  have hlt : n * p + k < 2 ^ w :=
    calc n * p + k < n * p + n := Nat.add_lt_add_left hk _
      _ = n * (p + 1) := rfl
      _ ≤ n * q := Nat.mul_le_mul_left n hpq
      _ = 2 ^ w := hq.symm
  have hkw : k < 2 ^ w := lt_of_le_of_lt (Nat.le_add_left _ _) hlt
  rw [BitVec.toNat_add, BitVec.toNat_ofNat, Nat.mod_eq_of_lt hkw, hp, Nat.mod_eq_of_lt hlt,
    Nat.mul_add_div hpos, Nat.div_eq_of_lt hk, Nat.mul_div_cancel_left p hpos, Nat.add_zero]

/-- **Aligned blocks** are the same or disjoint. -/
theorem disjoint_block {a b : BitVec w} {n : ℕ} (hn : n ∣ 2 ^ w) (ha : n ∣ a.toNat)
    (hb : n ∣ b.toNat) (hab : a ≠ b) : Disjoint (block a n) (block b n) := by
  refine Set.disjoint_left.mpr (fun x hxa hxb => hab ?_)
  have h : a.toNat / n = b.toNat / n :=
    (div_of_mem_block hn ha hxa).symm.trans (div_of_mem_block hn hb hxb)
  rw [BitVec.toNat_eq, ← Nat.mul_div_cancel' ha, h, Nat.mul_div_cancel' hb]

/-! ## Words -/

/-- **A word depends on its block.** -/
theorem read_congr {m m' : ByteMemory w} {a : BitVec w} {n : ℕ} (h : Set.EqOn m m' (block a n)) :
    read m a n = read m' a n := by
  induction n generalizing a with
  | zero => rfl
  | succ n ih =>
    rw [read, read, h (mem_block_self a n), ih (h.mono (block_succ_subset a n))]

theorem read_lt (m : ByteMemory w) (a : BitVec w) (n : ℕ) : read m a n < 256 ^ n := by
  induction n generalizing a with
  | zero => exact Nat.one_pos
  | succ n ih =>
    have hb : (m a).toNat < 256 := (m a).isLt
    have hr := ih (a + 1#w)
    rw [read, Nat.pow_succ]
    omega

/-- A word read byte by byte. -/
theorem read_of_bytes {m : ByteMemory w} {a : BitVec w} {n v : ℕ}
    (h : ∀ k < n, m (a + BitVec.ofNat w k) = byteOf v k) : read m a n = v % 256 ^ n := by
  induction n generalizing a v with
  | zero => exact (Nat.mod_one v).symm
  | succ n ih =>
    have h₀ : (m a).toNat = v % 256 := by
      have h := h 0 (Nat.succ_pos n)
      rw [BitVec.add_zero] at h
      rw [h, byteOf, BitVec.toNat_ofNat, Nat.pow_zero, Nat.div_one]
    have hrest : read m (a + 1#w) n = v / 256 % 256 ^ n := by
      refine ih (fun k hk => ?_)
      rw [BitVec.add_assoc, ← BitVec.ofNat_add, Nat.add_comm, h (k + 1) (Nat.succ_lt_succ hk),
        byteOf, byteOf, Nat.div_div_eq_div_mul, Nat.pow_succ']
    rw [read, h₀, hrest, Nat.pow_succ', Nat.mod_mul]

/-- **Writing a word changes its block and nothing else.** -/
theorem eqOn_write (m : ByteMemory w) (a : BitVec w) (n v : ℕ) :
    Set.EqOn (write m a n v) m (block a n)ᶜ :=
  fun _ hx => if_neg hx

/-- **Reading what was written.** -/
theorem read_write_self (m : ByteMemory w) (a : BitVec w) {n : ℕ} (hn : n ≤ 2 ^ w) (v : ℕ) :
    read (write m a n v) a n = v % 256 ^ n := by
  refine read_of_bytes (fun k hk => ?_)
  have hsub : (a + BitVec.ofNat w k - a).toNat = k := by
    rw [BitVec.add_comm, BitVec.add_sub_cancel, BitVec.toNat_ofNat,
      Nat.mod_eq_of_lt (lt_of_lt_of_le hk hn)]
  rw [write, hsub, if_pos hk]

/-- The bytes of a word. -/
theorem byteOf_read (m : ByteMemory w) (a : BitVec w) {n k : ℕ} (hk : k < n) :
    byteOf (read m a n) k = m (a + BitVec.ofNat w k) := by
  induction n generalizing a k with
  | zero => exact absurd hk (Nat.not_lt_zero k)
  | succ n ih =>
    have hb : (m a).toNat < 256 := (m a).isLt
    rw [read]
    cases k with
    | zero =>
      rw [byteOf, Nat.pow_zero, Nat.div_one, BitVec.add_zero, BitVec.ofNat_add, BitVec.ofNat_toNat,
        BitVec.setWidth_eq, BitVec.ofNat_mul]
      simp
    | succ k =>
      have hrest := ih (a + 1#w) (Nat.lt_of_succ_lt_succ hk)
      have hdiv : ((m a).toNat + 256 * read m (a + 1#w) n) / 256 = read m (a + 1#w) n := by omega
      rw [byteOf, Nat.pow_succ', ← Nat.div_div_eq_div_mul, hdiv, ← byteOf, hrest, BitVec.add_assoc,
        ← BitVec.ofNat_add, Nat.add_comm]

/-- **Writing what is there** changes nothing. -/
theorem write_read (m : ByteMemory w) (a : BitVec w) (n : ℕ) : write m a n (read m a n) = m := by
  funext x
  rw [write]
  split_ifs with hx
  · rw [byteOf_read m a hx, BitVec.ofNat_toNat, BitVec.setWidth_eq, BitVec.add_comm,
      BitVec.sub_add_cancel]
  · rfl

/-! ## What a computation reads -/

/-- **The computation `f` of memory `m` reads addresses of `S` only**: a memory that agrees
there gives the same result. -/
def DependsOn {β : Type*} (S : Set (BitVec w)) (f : ByteMemory w → β) (m : ByteMemory w) : Prop :=
  ∀ ⦃m' : ByteMemory w⦄, Set.EqOn m' m S → f m' = f m

/-! ## Strings -/

/-- A comparison reads no further than the terminator. -/
theorem strEq_congr {m m' : ByteMemory w} {a : BitVec w} {s : List (BitVec 8)}
    (h : Set.EqOn m m' (block a (s.length + 1))) : strEq m a s = strEq m' a s := by
  induction s generalizing a with
  | nil => rw [strEq, strEq, h (mem_block_self a 0)]
  | cons c s ih =>
    rw [strEq, strEq, h (mem_block_self a _), ih (h.mono (block_succ_subset a _))]

/-- **An address holds one string** without zero bytes. -/
theorem strEq_unique {m : ByteMemory w} {a : BitVec w} {s t : List (BitVec 8)}
    (hs : ∀ c ∈ s, c ≠ 0#8) (ht : ∀ c ∈ t, c ≠ 0#8) (h : strEq m a s = true)
    (h' : strEq m a t = true) : s = t := by
  induction s generalizing a t with
  | nil =>
    cases t with
    | nil => rfl
    | cons d t =>
      rw [strEq, beq_iff_eq] at h
      rw [strEq, Bool.and_eq_true, beq_iff_eq] at h'
      exact absurd (h'.1.symm.trans h) (ht d List.mem_cons_self)
  | cons c s ih =>
    rw [strEq, Bool.and_eq_true, beq_iff_eq] at h
    cases t with
    | nil =>
      rw [strEq, beq_iff_eq] at h'
      exact absurd (h.1.symm.trans h') (hs c List.mem_cons_self)
    | cons d t =>
      rw [strEq, Bool.and_eq_true, beq_iff_eq] at h'
      rw [h.1.symm.trans h'.1, ih (List.forall_mem_cons.mp hs).2 (List.forall_mem_cons.mp ht).2
        h.2 h'.2]

end ByteMemory
