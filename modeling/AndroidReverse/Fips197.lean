import Mathlib.Algebra.Group.End
import Mathlib.Data.Fin.VecNotation
import AndroidReverse.Gf256

/-!
# The AES standard

AES-128 as the standard's mathematics has it, over the field of 256 elements and not over
tables. The state is a four by four array of field elements, `s r c` in row `r` and column
`c`, filled with a block column by column. The four transformations of a round are
permutations of the states, and are defined as such, each with its inverse beside it: the
S-box is the affine map of the inverse (`sBox`), a column is multiplied by
`{03}x³ + {01}x² + {01}x + {02}` modulo `x⁴ + 1` (`mixColumns`), and the round keys are the
words of the key schedule (`word`).

So a cipher is a product of permutations. The inverse cipher, which undoes the
transformations one by one in the opposite order, is the inverse of that product
(`invCipher_eq_inv`), whatever the keys and however many rounds there are.
-/

open Polynomial Gf256

namespace Fips197

/-- **The state**, by rows and columns. -/
abbrev State : Type := Fin 4 → Fin 4 → Field256

/-! ## The S-box -/

/-- The affine map of the S-box, on the bits of a byte. -/
def affine (v : Fin 8 → ZMod 2) : Fin 8 → ZMod 2 :=
  fun i => v i + v (i + 4) + v (i + 5) + v (i + 6) + v (i + 7) + bits 0x63 i

/-- The inverse of the affine map. -/
def invAffine (v : Fin 8 → ZMod 2) : Fin 8 → ZMod 2 :=
  fun i => v (i + 2) + v (i + 5) + v (i + 7) + bits 0x05 i

theorem invAffine_affine : Function.LeftInverse invAffine affine := by
  intro v
  funext i
  have hconst : ∀ i, bits 0x63 (i + 2) + bits 0x63 (i + 5)
    + bits 0x63 (i + 7) + bits 0x05 i = 0 := by
    decide
  have htwo : (2 : ZMod 2) = 0 := rfl
  simp only [invAffine, affine, add_assoc i, Fin.reduceAdd, add_zero]
  -- every other bit is met twice
  linear_combination hconst i + (v (i + 1) + v (i + 2) + v (i + 3) + v (i + 4) + v (i + 5)
    + v (i + 6) + v (i + 7)) * htwo

theorem affine_invAffine : Function.RightInverse invAffine affine :=
  invAffine_affine.rightInverse_of_card_le le_rfl

/-- The affine map is a permutation of the bytes. -/
def affinePerm : Equiv.Perm (Fin 8 → ZMod 2) where
  toFun := affine
  invFun := invAffine
  left_inv := invAffine_affine
  right_inv := affine_invAffine

/-- **The S-box**: the inverse, zero for zero, and then the affine map. -/
noncomputable def sBox : Equiv.Perm Field256 :=
  (Equiv.inv Field256).trans
    (modulus.coeffsEquiv.trans (affinePerm.trans modulus.coeffsEquiv.symm))

theorem sBox_apply (a : Field256) : sBox a = modulus.residue (affine (modulus.coeffs a⁻¹)) := rfl

/-! ## The transformations of a round -/

/-- **SubBytes**: the S-box on every element of the state. -/
noncomputable def subBytes : Equiv.Perm State :=
  Equiv.piCongrRight fun _ => Equiv.piCongrRight fun _ => sBox

@[simp] theorem subBytes_apply (s : State) (r c : Fin 4) : subBytes s r c = sBox (s r c) := rfl

@[simp] theorem subBytes_inv_apply (s : State) (r c : Fin 4) :
    subBytes⁻¹ s r c = sBox⁻¹ (s r c) := rfl

/-- **ShiftRows**: row `r` moves `r` columns to the left. -/
def shiftRows : Equiv.Perm State where
  toFun s := fun r c => s r (c + r)
  invFun s := fun r c => s r (c - r)
  left_inv s := funext fun r => funext fun c => congrArg (s r) (sub_add_cancel c r)
  right_inv s := funext fun r => funext fun c => congrArg (s r) (add_sub_cancel_right c r)

@[simp] theorem shiftRows_apply (s : State) (r c : Fin 4) : shiftRows s r c = s r (c + r) := rfl

@[simp] theorem shiftRows_inv_apply (s : State) (r c : Fin 4) :
    shiftRows⁻¹ s r c = s r (c - r) := rfl

/-- The modulus `x⁴ + 1` of the columns. -/
noncomputable def columnModulus : Modulus Field256 4 where
  poly := X ^ 4 + 1
  monic := by monicity!
  natDegree_eq := by compute_degree!

/-- `x⁴` is `1` modulo `x⁴ + 1`, the characteristic being two. -/
theorem columnModulus_root_pow : columnModulus.root ^ 4 = 1 := by
  have h : aeval columnModulus.root (X ^ 4 + 1 : Field256[X]) = 0 := columnModulus.aeval_root
  simp only [map_add, map_pow, aeval_X, map_one] at h
  have h2 : (2 : columnModulus.Residue) = 0 := by
    have h2 : algebraMap Field256 columnModulus.Residue 2 = 2 := map_ofNat _ 2
    rw [← h2, two_eq_zero, map_zero]
  linear_combination h - h2

/-- The bytes of the coefficients of `{03}x³ + {01}x² + {01}x + {02}`, from the lowest. -/
def mixBytes : Fin 4 → UInt8 := ![0x02, 0x01, 0x01, 0x03]

/-- The bytes of the coefficients of `{0b}x³ + {0d}x² + {09}x + {0e}`, from the lowest. -/
def invMixBytes : Fin 4 → UInt8 := ![0x0e, 0x09, 0x0d, 0x0b]

/-- A residue modulo `x⁴ + 1` from the bytes of its coefficients. -/
noncomputable def columnOf (v : Fin 4 → UInt8) : columnModulus.Residue :=
  columnModulus.residue (fun i => ofByte (v i))

/-- The coefficients of a product with a residue given by bytes. -/
theorem coeffs_columnOf_mul (a : Fin 4 → UInt8) (v : Fin 4 → Field256) :
    columnModulus.coeffs (columnOf a * columnModulus.residue v)
      = fun i => ∑ j, ofByte (a (i - j)) * v j := by
  rw [columnOf, columnModulus.residue_mul_residue columnModulus_root_pow,
    columnModulus.coeffs_residue]

theorem columnOf_mixBytes_mul : columnOf mixBytes * columnOf invMixBytes = 1 := by
  have hbytes : ∀ i : Fin 4, mul (mixBytes (i - 0)) (invMixBytes 0)
      ^^^ mul (mixBytes (i - 1)) (invMixBytes 1) ^^^ mul (mixBytes (i - 2)) (invMixBytes 2)
      ^^^ mul (mixBytes (i - 3)) (invMixBytes 3) = if i = 0 then 1 else 0 := by
    decide
  have hone : columnModulus.coeffs 1 = fun i => ofByte (if i = 0 then 1 else 0) := by
    refine columnModulus.coeffs.symm.injective ?_
    rw [LinearEquiv.symm_apply_apply]
    show 1 = columnModulus.residue _
    rw [columnModulus.residue_eq_sum, Fin.sum_univ_four]
    simp
  refine columnModulus.coeffs.injective ?_
  rw [hone, columnOf.eq_def invMixBytes, coeffs_columnOf_mul]
  funext i
  rw [← hbytes i, Fin.sum_univ_four]
  simp only [ofByte_xor, ofByte_mul]

/-- The polynomial `{03}x³ + {01}x² + {01}x + {02}` modulo `x⁴ + 1`, which has an inverse. -/
noncomputable def mixUnit : columnModulus.Residueˣ where
  val := columnOf mixBytes
  inv := columnOf invMixBytes
  val_inv := columnOf_mixBytes_mul
  inv_val := (mul_comm _ _).trans columnOf_mixBytes_mul

/-- The multiplication of a column by a fixed polynomial. -/
noncomputable def columnMul (u : columnModulus.Residueˣ) : Equiv.Perm (Fin 4 → Field256) :=
  columnModulus.coeffsEquiv.symm.trans ((Units.mulLeft u).trans columnModulus.coeffsEquiv)

theorem columnMul_apply (u : columnModulus.Residueˣ) (v : Fin 4 → Field256) :
    columnMul u v = columnModulus.coeffs (u * columnModulus.residue v) := rfl

theorem columnMul_inv (u : columnModulus.Residueˣ) : (columnMul u)⁻¹ = columnMul u⁻¹ := rfl

/-- **MixColumns**: every column multiplied by `{03}x³ + {01}x² + {01}x + {02}` modulo
`x⁴ + 1`. -/
noncomputable def mixColumns : Equiv.Perm State where
  toFun s := fun r c => columnMul mixUnit (fun r => s r c) r
  invFun s := fun r c => (columnMul mixUnit)⁻¹ (fun r => s r c) r
  left_inv s := funext fun r => funext fun c =>
    congrFun ((columnMul mixUnit).symm_apply_apply (fun r => s r c)) r
  right_inv s := funext fun r => funext fun c =>
    congrFun ((columnMul mixUnit).apply_symm_apply (fun r => s r c)) r

/-- The columns of `mixColumns`, coefficient by coefficient. -/
theorem mixColumns_apply (s : State) (r c : Fin 4) :
    mixColumns s r c = ∑ j, ofByte (mixBytes (r - j)) * s j c := by
  show columnMul mixUnit (fun r => s r c) r = _
  rw [columnMul_apply]
  exact congrFun (coeffs_columnOf_mul mixBytes _) r

theorem mixColumns_inv_apply (s : State) (r c : Fin 4) :
    mixColumns⁻¹ s r c = ∑ j, ofByte (invMixBytes (r - j)) * s j c := by
  show (columnMul mixUnit)⁻¹ (fun r => s r c) r = _
  rw [columnMul_inv, columnMul_apply]
  exact congrFun (coeffs_columnOf_mul invMixBytes _) r

/-- **AddRoundKey**. -/
noncomputable def addRoundKey (k : State) : Equiv.Perm State := Equiv.addRight k

@[simp] theorem addRoundKey_apply (k s : State) : addRoundKey k s = s + k := rfl

/-- Adding a round key twice is the identity. -/
@[simp] theorem addRoundKey_inv (k : State) : (addRoundKey k)⁻¹ = addRoundKey k := by
  refine inv_eq_of_mul_eq_one_left (Equiv.ext fun s => ?_)
  funext r c
  show s r c + k r c + k r c = s r c
  rw [add_assoc, add_self, add_zero]

/-! ## The cipher and its inverse -/

section Cipher

variable (k : ℕ → State)

/-- The rounds `1, …, n`, under the round keys `k`. -/
noncomputable def rounds : ℕ → Equiv.Perm State
  | 0 => 1
  | n + 1 => addRoundKey (k (n + 1)) * mixColumns * shiftRows * subBytes * rounds n

/-- **The cipher** of `n + 1` rounds: the last one leaves out MixColumns. -/
noncomputable def cipher (n : ℕ) : Equiv.Perm State :=
  addRoundKey (k (n + 1)) * shiftRows * subBytes * rounds k n * addRoundKey (k 0)

/-- The rounds `n, …, 1` undone, each transformation by its inverse. -/
noncomputable def invRounds : ℕ → Equiv.Perm State
  | 0 => 1
  | n + 1 => invRounds n * mixColumns⁻¹ * addRoundKey (k (n + 1)) * subBytes⁻¹ * shiftRows⁻¹

/-- **The inverse cipher**, which undoes the transformations in the opposite order. The
inverses of SubBytes and ShiftRows stand at the head of a round, those of AddRoundKey and
MixColumns at its end. -/
noncomputable def invCipher (n : ℕ) : Equiv.Perm State :=
  addRoundKey (k 0) * subBytes⁻¹ * shiftRows⁻¹ * invRounds k n * addRoundKey (k (n + 1))

/-- The rounds of the inverse cipher are cut one half-round away from those of the cipher. -/
theorem invRounds_eq (n : ℕ) :
    subBytes⁻¹ * shiftRows⁻¹ * invRounds k n = (rounds k n)⁻¹ * subBytes⁻¹ * shiftRows⁻¹ := by
  induction n with
  | zero => rw [invRounds, rounds, mul_one, inv_one, one_mul]
  | succ n ih =>
    rw [invRounds, rounds]
    simp only [mul_inv_rev, addRoundKey_inv, ← mul_assoc]
    rw [ih]

/-- **The inverse cipher is the inverse of the cipher.** -/
theorem invCipher_eq_inv (n : ℕ) : invCipher k n = (cipher k n)⁻¹ := by
  rw [invCipher, cipher]
  simp only [mul_inv_rev, addRoundKey_inv]
  rw [mul_assoc (addRoundKey (k 0)), mul_assoc (addRoundKey (k 0)), invRounds_eq]
  simp only [mul_assoc]

end Cipher

/-! ## The key schedule -/

/-- RotWord. -/
def rotWord (w : Fin 4 → Field256) : Fin 4 → Field256 := fun j => w (j + 1)

/-- SubWord. -/
noncomputable def subWord (w : Fin 4 → Field256) : Fin 4 → Field256 := fun j => sBox (w j)

/-- The round constant `[xⁱ⁻¹, 0, 0, 0]`, for `i` from `1`. -/
noncomputable def rcon (i : ℕ) : Fin 4 → Field256 := ![x ^ (i - 1), 0, 0, 0]

/-- **The words of the key schedule**: the four words of the key, and then each word the sum
of the fourth before it and of the one before it, transformed at the multiples of four. -/
noncomputable def word (key : Fin 4 → Fin 4 → Field256) : ℕ → Fin 4 → Field256
  | 0 => key 0
  | 1 => key 1
  | 2 => key 2
  | 3 => key 3
  | i + 4 =>
    let temp := word key (i + 3)
    word key i + (if (i + 4) % 4 = 0 then subWord (rotWord temp) + rcon ((i + 4) / 4) else temp)

/-- **The round keys**, four words each, a word a column. -/
noncomputable def roundKey (key : Fin 4 → Fin 4 → Field256) (n : ℕ) : State :=
  fun r c => word key (4 * n + c) r

/-! ## Blocks -/

/-- A position of the state is a byte of a block. -/
theorem index_lt (r c : Fin 4) : r.val + 4 * c.val < 16 := by omega

/-- A position of a key word is a byte of a key. -/
theorem keyIndex_lt (i j : Fin 4) : 4 * i.val + j.val < 16 := by omega

/-- **The state of a block**, filled column by column: byte `r + 4c` in row `r` and
column `c`. -/
noncomputable def stateOf : Vector UInt8 16 ≃ State where
  toFun b := fun r c => ofByte (getElem b (r.val + 4 * c.val) (index_lt r c))
  invFun s := Vector.ofFn fun i =>
    ofByte.symm (s ⟨i.val % 4, Nat.mod_lt _ (by decide)⟩ ⟨i.val / 4, by omega⟩)
  left_inv b := by
    refine Vector.ext fun i hi => ?_
    rw [Vector.getElem_ofFn, Equiv.symm_apply_apply]
    exact getElem_congr_idx (Nat.mod_add_div i 4)
  right_inv s := by
    funext r c
    simp only [Vector.getElem_ofFn, Equiv.apply_symm_apply]
    exact congrArg₂ s (Fin.ext (by show (r.val + 4 * c.val) % 4 = r.val; omega))
      (Fin.ext (by show (r.val + 4 * c.val) / 4 = c.val; omega))

/-- The four words of a key of sixteen bytes. -/
noncomputable def keyWords (key : Vector UInt8 16) : Fin 4 → Fin 4 → Field256 :=
  fun i j => ofByte (getElem key (4 * i.val + j.val) (keyIndex_lt i j))

/-- A permutation of the states, as one of the blocks. -/
noncomputable def onBlocks (e : Equiv.Perm State) : Equiv.Perm (Vector UInt8 16) :=
  stateOf.symm.permCongr e

theorem stateOf_onBlocks (e : Equiv.Perm State) (b : Vector UInt8 16) :
    stateOf (onBlocks e b) = e (stateOf b) :=
  stateOf.apply_symm_apply _

theorem onBlocks_inv (e : Equiv.Perm State) : (onBlocks e)⁻¹ = onBlocks e⁻¹ := rfl

/-- **AES-128**, on blocks of sixteen bytes. -/
noncomputable def aes128 (key : Vector UInt8 16) : Equiv.Perm (Vector UInt8 16) :=
  onBlocks (cipher (roundKey (keyWords key)) 9)

theorem stateOf_aes128 (key b : Vector UInt8 16) :
    stateOf (aes128 key b) = cipher (roundKey (keyWords key)) 9 (stateOf b) :=
  stateOf_onBlocks _ b

theorem stateOf_aes128_inv (key b : Vector UInt8 16) :
    stateOf ((aes128 key)⁻¹ b) = invCipher (roundKey (keyWords key)) 9 (stateOf b) := by
  rw [invCipher_eq_inv, aes128, onBlocks_inv, stateOf_onBlocks]

end Fips197
