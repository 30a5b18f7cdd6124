import Mathlib.Data.Nat.Digits.Lemmas

/-!
# Numerals

Numbers printed in a base, with leading zeros up to a width, and read again
from the text they are printed to. What reading stops at is the first character
that is no digit, so whatever stands behind a numeral has to begin with one
(`leading_append`); between the two there is nothing but the value of a list of
digits (`value_digits`).
-/

namespace Numerals

variable {α : Type*} {b : ℕ}

/-- **The digits of a number**, the first one first, at least `width` of
them. -/
def digits (b width n : ℕ) : List ℕ :=
  List.replicate (width - (Nat.digits b n).length) 0 ++ (Nat.digits b n).reverse

/-- The number that has some digits. -/
def value (b : ℕ) (ds : List ℕ) : ℕ := ds.foldl (fun v d => v * b + d) 0

/-- **The digits a text begins with.** -/
def leading (digit : α → Option ℕ) : List α → List ℕ
  | [] => []
  | x :: s =>
    match digit x with
    | some d => d :: leading digit s
    | none => []

theorem value_eq_ofDigits (ds : List ℕ) : value b ds = Nat.ofDigits b ds.reverse := by
  rw [value, Nat.ofDigits_eq_foldr, List.foldr_reverse]
  congr 1
  funext v d
  rw [Nat.cast_id, Nat.mul_comm, Nat.add_comm]

/-- **Printing and reading a number.** -/
theorem value_digits (width n : ℕ) : value b (digits b width n) = n := by
  rw [value_eq_ofDigits, digits, List.reverse_append, List.reverse_reverse, List.reverse_replicate,
    Nat.ofDigits_append_replicate_zero, Nat.ofDigits_digits]

theorem digits_lt (hb : 1 < b) {width n d : ℕ} (hd : d ∈ digits b width n) : d < b := by
  rcases List.mem_append.mp hd with h | h
  · rw [List.eq_of_mem_replicate h]
    omega
  · exact Nat.digits_lt_base hb (List.mem_reverse.mp h)

theorem digits_ne_nil {width n : ℕ} (hw : 0 < width) : digits b width n ≠ [] := by
  intro h
  obtain ⟨hz, hn⟩ := List.append_eq_nil_iff.mp h
  rw [List.reverse_eq_nil_iff] at hn
  rw [hn, List.length_nil, Nat.sub_zero, List.replicate_eq_nil_iff] at hz
  omega

/-- A numeral that does not need more is as long as its width. -/
theorem length_digits (hb : 1 < b) {width n : ℕ} (hn : n < b ^ width) :
    (digits b width n).length = width := by
  have hlen := (Nat.digits_length_le_iff hb n).mpr hn
  rw [digits, List.length_append, List.length_replicate, List.length_reverse]
  omega

/-- **Reading stops behind a numeral.** -/
theorem leading_append {digit : α → Option ℕ} {enc : ℕ → α} {ds : List ℕ} {rest : List α}
    (hds : ∀ d ∈ ds, digit (enc d) = some d) (hrest : ∀ x ∈ rest.head?, digit x = none) :
    leading digit (ds.map enc ++ rest) = ds := by
  induction ds with
  | nil =>
    cases rest with
    | nil => rfl
    | cons x rest =>
      rw [List.map_nil, List.nil_append, leading, hrest x rfl]
  | cons d ds ih =>
    rw [List.map_cons, List.cons_append, leading, hds d List.mem_cons_self]
    exact congrArg (d :: ·) (ih fun e he => hds e (List.mem_cons_of_mem d he))

end Numerals
