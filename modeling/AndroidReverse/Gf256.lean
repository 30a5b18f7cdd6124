import Mathlib.RingTheory.AdjoinRoot
import Mathlib.RingTheory.PrincipalIdealDomain
import Mathlib.Data.ZMod.Basic
import Mathlib.Algebra.Field.ZMod
import Mathlib.Data.FinEnum
import Mathlib.Tactic.LinearCombination
import Mathlib.Tactic.ComputeDegree
import AndroidReverse.ResidueRing

/-!
# The bytes as the field of 256 elements

A byte `b₇…b₀` is the polynomial `b₇x⁷ + … + b₀` over the field of two elements,
modulo `x⁸ + x⁴ + x³ + x + 1`. `Gf256.ofByte` is that correspondence, a bijection of the
bytes with `Gf256.Field256`, the residue ring of the modulus.

The operations on bytes are computed and the operations of the residue ring are not, and
the lemmas of the file carry the first to the second: exclusive or is addition
(`ofByte_xor`), the shift with its conditional reduction is multiplication by the variable
(`ofByte_timesX`), and the product of bytes by their bits is the product
(`ofByte_mul`). Every byte but zero has an inverse byte, checked over the table `invTable`,
so the residue ring is a field (`isField`): that is how the modulus is seen to be
irreducible.
-/

open Polynomial

namespace Gf256

/-- **The modulus** `x⁸ + x⁴ + x³ + x + 1`. -/
noncomputable def modulus : Modulus (ZMod 2) 8 where
  poly := X ^ 8 + X ^ 4 + X ^ 3 + X + 1
  monic := by monicity!
  natDegree_eq := by compute_degree!

/-- The residues modulo `x⁸ + x⁴ + x³ + x + 1`. -/
abbrev Field256 : Type := modulus.Residue

/-! ## Bytes and coefficients -/

/-- The bits of a byte, from the lowest, as the coefficients of a polynomial. -/
def bits (b : UInt8) : Fin 8 → ZMod 2 := fun i => if b.toNat.testBit i then 1 else 0

/-- The byte with given bits. -/
def fromBits (v : Fin 8 → ZMod 2) : UInt8 :=
  UInt8.ofNat (∑ i, (v i).val * 2 ^ (i : ℕ))

theorem fromBits_bits : Function.LeftInverse fromBits bits := by
  decide +kernel

/-- The bytes are the vectors of eight bits. -/
theorem bits_bijective : Function.Bijective bits := by
  refine (Fintype.bijective_iff_injective_and_card bits).mpr ⟨fromBits_bits.injective, ?_⟩
  rw [Fintype.card_fun, ZMod.card, Fintype.card_fin, ← FinEnum.card_eq_fintypeCard]
  rfl

/-- **The residue a byte denotes**: every residue is denoted by exactly one byte. -/
noncomputable def ofByte : UInt8 ≃ Field256 :=
  (Equiv.ofBijective bits bits_bijective).trans modulus.coeffsEquiv.symm

theorem ofByte_apply (b : UInt8) : ofByte b = modulus.residue (bits b) := rfl

@[simp] theorem coeffs_ofByte (b : UInt8) : modulus.coeffs (ofByte b) = bits b :=
  modulus.coeffs_residue (bits b)

/-- The variable, the byte `02`. -/
noncomputable abbrev x : Field256 := modulus.root

theorem ofByte_eq_sum (b : UInt8) :
    ofByte b = ∑ i, algebraMap (ZMod 2) Field256 (bits b i) * x ^ (i : ℕ) :=
  modulus.residue_eq_sum (bits b)

/-- The characteristic is two. -/
theorem two_eq_zero : (2 : Field256) = 0 := by
  have h : algebraMap (ZMod 2) Field256 2 = 2 := map_ofNat _ 2
  rw [← h, show (2 : ZMod 2) = 0 from rfl, map_zero]

theorem add_self (a : Field256) : a + a = 0 := by
  rw [← two_mul, two_eq_zero, zero_mul]

/-- The reduction of `x⁸`. -/
theorem x_pow_eight : x ^ 8 = x ^ 4 + x ^ 3 + x + 1 := by
  have h : aeval x (X ^ 8 + X ^ 4 + X ^ 3 + X + 1 : (ZMod 2)[X]) = 0 := modulus.aeval_root
  simp only [map_add, map_pow, aeval_X, map_one] at h
  linear_combination h - (x ^ 4 + x ^ 3 + x + 1) * two_eq_zero

/-! ## Addition and multiplication of bytes -/

theorem bits_xor (a b : UInt8) : bits (a ^^^ b) = bits a + bits b := by
  funext i
  rw [Pi.add_apply, bits, bits, bits, UInt8.toNat_xor, Nat.testBit_xor]
  cases a.toNat.testBit i <;> cases b.toNat.testBit i <;> rfl

/-- **Exclusive or is addition.** -/
@[simp] theorem ofByte_xor (a b : UInt8) : ofByte (a ^^^ b) = ofByte a + ofByte b := by
  rw [ofByte_apply, bits_xor, modulus.residue_add]
  rfl

@[simp] theorem ofByte_zero : ofByte 0 = 0 := by
  rw [ofByte_apply, show bits 0 = 0 from by decide, modulus.residue_zero]

@[simp] theorem ofByte_one : ofByte 1 = 1 := by
  rw [ofByte_eq_sum, Fin.sum_univ_eight, show bits 1 = ![1, 0, 0, 0, 0, 0, 0, 0] from by decide]
  simp

/-- The byte shifted up by one, reduced when a bit leaves it. -/
def timesX (b : UInt8) : UInt8 := (b <<< 1) ^^^ ((b >>> 7 &&& 1) * 0x1b)

theorem bits_timesX : ∀ (b : UInt8) (i : Fin 8), bits (timesX b) i
    = ![bits b 7, bits b 0 + bits b 7, bits b 1, bits b 2 + bits b 7, bits b 3 + bits b 7,
        bits b 4, bits b 5, bits b 6] i := by
  decide +kernel

/-- **The shift with its reduction is multiplication by the variable.** -/
@[simp] theorem ofByte_timesX (b : UInt8) : ofByte (timesX b) = x * ofByte b := by
  rw [ofByte_eq_sum, ofByte_eq_sum, Fin.sum_univ_eight, Fin.sum_univ_eight]
  simp only [bits_timesX, Matrix.cons_val, map_add, Fin.isValue, Fin.coe_ofNat_eq_mod,
    Nat.reduceMod]
  linear_combination (-(algebraMap (ZMod 2) Field256 (bits b 7))) * x_pow_eight

/-- The product of two bytes over the lowest bits of the second. -/
def mulBits (a b : UInt8) : ℕ → UInt8
  | 0 => 0
  | n + 1 => mulBits a b n ^^^ (if b.toNat.testBit n then timesX^[n] a else 0)

/-- **The product of two bytes.** -/
def mul (a b : UInt8) : UInt8 := mulBits a b 8

theorem ofByte_timesX_iterate (a : UInt8) (n : ℕ) :
    ofByte (timesX^[n] a) = x ^ n * ofByte a := by
  induction n with
  | zero => rw [Function.iterate_zero, id, pow_zero, one_mul]
  | succ n ih => rw [Function.iterate_succ_apply', ofByte_timesX, ih, pow_succ]; ring

theorem ofByte_mulBits (a b : UInt8) (n : ℕ) (hn : n ≤ 8) :
    ofByte (mulBits a b n)
      = ofByte a * ∑ i : Fin n,
          algebraMap (ZMod 2) Field256 (bits b (i.castLE hn)) * x ^ (i : ℕ) := by
  induction n with
  | zero => rw [mulBits, ofByte_zero, Fin.sum_univ_zero, mul_zero]
  | succ n ih =>
    have hbit : ofByte (if b.toNat.testBit n then timesX^[n] a else 0)
        = ofByte a * (algebraMap (ZMod 2) Field256
            (bits b (Fin.castLE hn (Fin.last n))) * x ^ n) := by
      rw [bits, Fin.val_castLE, Fin.val_last]
      split
      · rw [ofByte_timesX_iterate, map_one]
        ring
      · rw [ofByte_zero, map_zero, zero_mul, mul_zero]
    rw [mulBits, ofByte_xor, ih (by omega), hbit, Fin.sum_univ_castSucc, mul_add]
    rfl

/-- **The product of bytes is the product.** -/
@[simp] theorem ofByte_mul (a b : UInt8) : ofByte (mul a b) = ofByte a * ofByte b := by
  rw [mul, ofByte_mulBits a b 8 le_rfl, ofByte_eq_sum b]
  rfl

/-! ## Inverses -/

set_option maxRecDepth 4000 in
/-- The inverses of the bytes, with zero in place of the inverse of zero. -/
def invTable : Vector UInt8 256 := #v[
    0x00, 0x01, 0x8d, 0xf6, 0xcb, 0x52, 0x7b, 0xd1, 0xe8, 0x4f, 0x29, 0xc0, 0xb0, 0xe1, 0xe5, 0xc7,
    0x74, 0xb4, 0xaa, 0x4b, 0x99, 0x2b, 0x60, 0x5f, 0x58, 0x3f, 0xfd, 0xcc, 0xff, 0x40, 0xee, 0xb2,
    0x3a, 0x6e, 0x5a, 0xf1, 0x55, 0x4d, 0xa8, 0xc9, 0xc1, 0x0a, 0x98, 0x15, 0x30, 0x44, 0xa2, 0xc2,
    0x2c, 0x45, 0x92, 0x6c, 0xf3, 0x39, 0x66, 0x42, 0xf2, 0x35, 0x20, 0x6f, 0x77, 0xbb, 0x59, 0x19,
    0x1d, 0xfe, 0x37, 0x67, 0x2d, 0x31, 0xf5, 0x69, 0xa7, 0x64, 0xab, 0x13, 0x54, 0x25, 0xe9, 0x09,
    0xed, 0x5c, 0x05, 0xca, 0x4c, 0x24, 0x87, 0xbf, 0x18, 0x3e, 0x22, 0xf0, 0x51, 0xec, 0x61, 0x17,
    0x16, 0x5e, 0xaf, 0xd3, 0x49, 0xa6, 0x36, 0x43, 0xf4, 0x47, 0x91, 0xdf, 0x33, 0x93, 0x21, 0x3b,
    0x79, 0xb7, 0x97, 0x85, 0x10, 0xb5, 0xba, 0x3c, 0xb6, 0x70, 0xd0, 0x06, 0xa1, 0xfa, 0x81, 0x82,
    0x83, 0x7e, 0x7f, 0x80, 0x96, 0x73, 0xbe, 0x56, 0x9b, 0x9e, 0x95, 0xd9, 0xf7, 0x02, 0xb9, 0xa4,
    0xde, 0x6a, 0x32, 0x6d, 0xd8, 0x8a, 0x84, 0x72, 0x2a, 0x14, 0x9f, 0x88, 0xf9, 0xdc, 0x89, 0x9a,
    0xfb, 0x7c, 0x2e, 0xc3, 0x8f, 0xb8, 0x65, 0x48, 0x26, 0xc8, 0x12, 0x4a, 0xce, 0xe7, 0xd2, 0x62,
    0x0c, 0xe0, 0x1f, 0xef, 0x11, 0x75, 0x78, 0x71, 0xa5, 0x8e, 0x76, 0x3d, 0xbd, 0xbc, 0x86, 0x57,
    0x0b, 0x28, 0x2f, 0xa3, 0xda, 0xd4, 0xe4, 0x0f, 0xa9, 0x27, 0x53, 0x04, 0x1b, 0xfc, 0xac, 0xe6,
    0x7a, 0x07, 0xae, 0x63, 0xc5, 0xdb, 0xe2, 0xea, 0x94, 0x8b, 0xc4, 0xd5, 0x9d, 0xf8, 0x90, 0x6b,
    0xb1, 0x0d, 0xd6, 0xeb, 0xc6, 0x0e, 0xcf, 0xad, 0x08, 0x4e, 0xd7, 0xe3, 0x5d, 0x50, 0x1e, 0xb3,
    0x5b, 0x23, 0x38, 0x34, 0x68, 0x46, 0x03, 0x8c, 0xdd, 0x9c, 0x7d, 0xa0, 0xcd, 0x1a, 0x41, 0x1c]

/-- **The inverse of a byte**, zero for zero. -/
def inv (a : UInt8) : UInt8 := invTable.get ⟨a.toNat, a.toNat_lt⟩

/-- An entry of a table, with its index. -/
theorem mem_zipIdx_get {α : Type*} {n : ℕ} (t : Vector α n) (i : Fin n) :
    (t.get i, (i : ℕ)) ∈ t.toList.zipIdx := by
  rw [List.mk_mem_zipIdx_iff_getElem?, Vector.getElem?_toList]
  exact Vector.getElem?_eq_getElem i.isLt

theorem mul_inv_byte : ∀ a : UInt8, a ≠ 0 → mul a (inv a) = 1 := by
  -- the table is gone through once
  have htable : ∀ p ∈ invTable.toList.zipIdx, p.2 ≠ 0 → mul (UInt8.ofNat p.2) p.1 = 1 := by
    decide +kernel
  intro a ha
  have h := htable _ (mem_zipIdx_get invTable ⟨a.toNat, a.toNat_lt⟩)
    (fun h => ha (UInt8.toNat_inj.mp h))
  rwa [UInt8.ofNat_toNat] at h

/-- **The residue ring is a field**: the byte of every residue but zero has an inverse. -/
theorem isField : IsField Field256 where
  exists_pair_ne := ⟨ofByte 0, ofByte 1, fun h => absurd (ofByte.injective h) (by decide)⟩
  mul_comm := mul_comm
  mul_inv_cancel := by
    intro a ha
    obtain ⟨b, rfl⟩ := ofByte.surjective a
    refine ⟨ofByte (inv b), ?_⟩
    rw [← ofByte_mul, mul_inv_byte b (fun h => ha (by rw [h, ofByte_zero])), ofByte_one]

/-- The modulus is irreducible. -/
theorem irreducible_modulus : Irreducible modulus.poly := by
  have hmax : (Ideal.span {modulus.poly}).IsMaximal :=
    Ideal.Quotient.maximal_of_isField _ isField
  exact ((Ideal.span_singleton_prime modulus.monic.ne_zero).mp hmax.isPrime).irreducible

instance : Fact (Irreducible modulus.poly) := ⟨irreducible_modulus⟩

/-- **The inverse of a byte is the inverse.** -/
theorem ofByte_inv (a : UInt8) : ofByte (inv a) = (ofByte a)⁻¹ := by
  by_cases ha : a = 0
  · rw [ha, ofByte_zero, inv_zero, show inv 0 = 0 from rfl, ofByte_zero]
  · refine eq_inv_of_mul_eq_one_right ?_
    rw [← ofByte_mul, mul_inv_byte a ha, ofByte_one]

end Gf256
