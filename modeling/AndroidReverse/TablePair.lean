import Mathlib.Data.List.Basic
import Mathlib.Data.PEquiv
import Mathlib.Order.Interval.Set.Defs

/-!
# Two tables side by side

Two tables of `c` entries each translate a value of the first into the entry
of the second at the same index. If neither table repeats an entry the
translation is a partial bijection, and looking up in the other direction is
its inverse.
-/

namespace TablePair

variable {α β : Type} [DecidableEq α] {c : ℕ} {f : ℕ → α} {g : ℕ → β} {a : α}
  {b : β}

/-- The entry of the second table at the first index where the first table has
a value. -/
def translate (c : ℕ) (f : ℕ → α) (g : ℕ → β) (a : α) : Option β :=
  ((List.range c).find? (fun i => f i == a)).map g

/-- **A translation is an index** with the two values. -/
theorem translate_eq_some (hf : Set.InjOn f (Set.Iio c)) :
    translate c f g a = some b ↔ ∃ i < c, f i = a ∧ g i = b := by
  unfold translate
  rw [Option.map_eq_some_iff]
  constructor
  · rintro ⟨i, hi, hb⟩
    exact ⟨i, List.mem_range.mp (List.mem_of_find?_eq_some hi),
      beq_iff_eq.mp (List.find?_some (p := fun i => f i == a) hi), hb⟩
  · rintro ⟨i, hi, ha, hb⟩
    cases hfind : (List.range c).find? (fun i => f i == a) with
    | none =>
      have := List.find?_eq_none.mp hfind i (List.mem_range.mpr hi)
      exact absurd (beq_iff_eq.mpr ha) this
    | some j =>
      have hj : j < c := List.mem_range.mp (List.mem_of_find?_eq_some hfind)
      have hfj : f j = a := beq_iff_eq.mp (List.find?_some (p := fun i => f i == a) hfind)
      obtain rfl : j = i := hf hj hi (hfj.trans ha.symm)
      exact ⟨j, rfl, hb⟩

theorem translate_eq_none : translate c f g a = none ↔ ∀ i < c, f i ≠ a := by
  unfold translate
  rw [Option.map_eq_none_iff, List.find?_eq_none]
  simp

/-- **The partial bijection** of two tables without repetitions. -/
def pequiv [DecidableEq β] (hf : Set.InjOn f (Set.Iio c))
    (hg : Set.InjOn g (Set.Iio c)) : α ≃. β where
  toFun := translate c f g
  invFun := translate c g f
  inv a b := by
    rw [translate_eq_some hf, translate_eq_some hg]
    exact exists_congr (fun i => and_congr_right (fun _ => and_comm))

end TablePair
