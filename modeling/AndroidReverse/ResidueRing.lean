import Mathlib.RingTheory.AdjoinRoot
import Mathlib.Algebra.BigOperators.Fin

/-!
# Residues modulo a monic polynomial, and their coefficients

Bytes read as polynomials modulo one polynomial of degree eight, columns of bytes
read as polynomials modulo `x⁴ + 1`: both are residue rings `R[x] / (f)` of a monic
`f`, whose elements are written by their coefficients below the degree of `f`. A
`Modulus` is such an `f` with its degree; `Modulus.coeffs` is the correspondence
between residues and coefficient vectors, linear in both directions, and
`Modulus.residue_eq_sum` says which residue a vector of coefficients denotes.

Where the `n`-th power of the variable is `1` – as it is modulo `xⁿ - 1` – a product
of residues is the cyclic convolution of their coefficients
(`Modulus.residue_mul_residue`).
-/

open Polynomial

/-- **A modulus of degree `n`**: a monic polynomial with its degree. -/
structure Modulus (R : Type) [CommRing R] (n : ℕ) where
  poly : R[X]
  monic : poly.Monic
  natDegree_eq : poly.natDegree = n

namespace Modulus

variable {R : Type} [CommRing R] {n : ℕ} (M : Modulus R n)

/-- The residues modulo `M`. -/
abbrev Residue : Type := AdjoinRoot M.poly

/-- The coefficients of a residue, those below the degree of the modulus. -/
noncomputable def coeffs : M.Residue ≃ₗ[R] (Fin n → R) :=
  ((AdjoinRoot.powerBasis' M.monic).basis.reindex (finCongr M.natDegree_eq)).equivFun

/-- The residues by their coefficients, without the operations. -/
noncomputable def coeffsEquiv : M.Residue ≃ (Fin n → R) := M.coeffs.toEquiv

/-- The residue with given coefficients. -/
noncomputable def residue (v : Fin n → R) : M.Residue := M.coeffs.symm v

/-- The residue of the variable. -/
noncomputable def root : M.Residue := AdjoinRoot.root M.poly

/-- **A vector of coefficients denotes the sum of its multiples of the powers of the
variable.** -/
theorem residue_eq_sum (v : Fin n → R) :
    M.residue v = ∑ i, algebraMap R M.Residue (v i) * M.root ^ (i : ℕ) := by
  rw [residue, coeffs, Module.Basis.equivFun_symm_apply]
  refine Finset.sum_congr rfl fun i _ => ?_
  rw [Module.Basis.reindex_apply, PowerBasis.basis_eq_pow, Algebra.smul_def]
  rfl

@[simp] theorem coeffs_residue (v : Fin n → R) : M.coeffs (M.residue v) = v :=
  M.coeffs.apply_symm_apply v

theorem residue_add (v w : Fin n → R) : M.residue (v + w) = M.residue v + M.residue w :=
  map_add M.coeffs.symm v w

theorem residue_zero : M.residue 0 = 0 := map_zero M.coeffs.symm

/-- The variable is a root of the modulus. -/
theorem aeval_root : aeval M.root M.poly = 0 := AdjoinRoot.aeval_eq M.poly ▸ AdjoinRoot.mk_self

/-- **Where the `n`-th power of the variable is `1`, residues multiply by the cyclic
convolution of their coefficients.** -/
theorem residue_mul_residue [NeZero n] (h : M.root ^ n = 1) (a b : Fin n → R) :
    M.residue a * M.residue b = M.residue (fun i => ∑ j, a (i - j) * b j) := by
  have hpow : ∀ i j : Fin n, M.root ^ ((i + j : Fin n) : ℕ) = M.root ^ (i : ℕ) * M.root ^ (j : ℕ) :=
    fun i j => by rw [Fin.val_add, ← pow_eq_pow_mod _ h, pow_add]
  have hshift : ∀ j : Fin n,
      ∑ i, algebraMap R M.Residue (a (i - j)) * algebraMap R M.Residue (b j) * M.root ^ (i : ℕ)
        = ∑ i, algebraMap R M.Residue (a i) * M.root ^ (i : ℕ)
          * (algebraMap R M.Residue (b j) * M.root ^ (j : ℕ)) := by
    intro j
    refine (Fintype.sum_equiv (Equiv.addRight j) _ _ fun i => ?_).symm
    rw [Equiv.coe_addRight, add_sub_cancel_right, hpow]
    ring
  rw [residue_eq_sum, residue_eq_sum, residue_eq_sum, Finset.sum_mul_sum, Finset.sum_comm]
  symm
  calc ∑ i, algebraMap R M.Residue (∑ j, a (i - j) * b j) * M.root ^ (i : ℕ)
      = ∑ i, ∑ j, algebraMap R M.Residue (a (i - j)) * algebraMap R M.Residue (b j)
          * M.root ^ (i : ℕ) := Finset.sum_congr rfl fun i _ => by
        rw [map_sum, Finset.sum_mul]
        exact Finset.sum_congr rfl fun j _ => by rw [map_mul]
    _ = ∑ j, ∑ i, algebraMap R M.Residue (a (i - j)) * algebraMap R M.Residue (b j)
          * M.root ^ (i : ℕ) := Finset.sum_comm
    _ = _ := Finset.sum_congr rfl fun j _ => hshift j

end Modulus
