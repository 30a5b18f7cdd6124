import Mathlib.Data.Multiset.MapFold
import Mathlib.Data.Multiset.Range
import Mathlib.Logic.Function.Basic

/-!
# Arrays that are filled from the front

An array of slots of which the first `n` are in use. A new element goes into
slot `n`; an element is deleted by moving the last one into its slot. The
positions of the elements mean nothing under these operations, so what the
array holds is the multiset `live` of the used slots, and on it the operations
are what their names say: the deletion with its move is the removal of one
element.

`Apart` is a relation between any two elements of a multiset. It is stated
through the ways of taking one element out, which is how the operations on
`live` present themselves.
-/

namespace SlotArray

variable {α : Type*}

/-- The elements in the first `n` slots. -/
def live (f : ℕ → α) (n : ℕ) : Multiset α := (Multiset.range n).map f

/-- Those of them outside slot `i`. -/
def others (f : ℕ → α) (n i : ℕ) : Multiset α := ((Multiset.range n).erase i).map f

variable {f : ℕ → α} {n i : ℕ}

theorem mem_live {x : α} : x ∈ live f n ↔ ∃ i < n, f i = x := by
  rw [live, Multiset.mem_map]
  exact exists_congr (fun i => and_congr_left' Multiset.mem_range)

/-- **Taking one element out.** -/
theorem live_eq_cons (hi : i < n) : live f n = f i ::ₘ others f n i := by
  rw [live, others, ← Multiset.map_cons, Multiset.cons_erase (Multiset.mem_range.mpr hi)]

theorem mem_others {j : ℕ} (hj : j < n) (h : j ≠ i) : f j ∈ others f n i :=
  Multiset.mem_map_of_mem f ((Multiset.mem_erase_of_ne h).mpr (Multiset.mem_range.mpr hj))

theorem mem_live_of_mem_others {x : α} (h : x ∈ others f n i) : x ∈ live f n :=
  Multiset.mem_of_le (Multiset.map_le_map (Multiset.erase_le i _)) h

theorem others_update (x : α) : others (Function.update f i x) n i = others f n i := by
  refine Multiset.map_congr rfl (fun j hj => Function.update_of_ne ?_ x f)
  rintro rfl
  exact ((Multiset.nodup_range n).mem_erase_iff.mp hj).1 rfl

/-- **Writing a slot** replaces one element. -/
theorem live_update (hi : i < n) (x : α) :
    live (Function.update f i x) n = x ::ₘ others f n i := by
  rw [live_eq_cons hi, others_update, Function.update_self]

/-- **Filling the next slot** adds one. -/
theorem live_append (x : α) : live (Function.update f n x) (n + 1) = x ::ₘ live f n := by
  have h : (Multiset.range (n + 1)).erase n = Multiset.range n := by
    rw [Multiset.range_succ, Multiset.erase_cons_head]
  rw [live_update (Nat.lt_succ_self n), others, h, live]

/-- **Moving the last element** into a slot removes the one that was there. -/
theorem live_remove (hi : i < n) :
    live (Function.update f i (f (n - 1))) (n - 1) = others f n i := by
  obtain ⟨n, rfl⟩ := Nat.exists_eq_add_one_of_ne_zero (Nat.ne_zero_of_lt hi)
  rw [Nat.add_sub_cancel]
  -- the deleted element is the last one, or the last one takes its place
  rcases Nat.lt_succ_iff_lt_or_eq.mp hi with h | rfl
  · rw [live_update h, others, others, Multiset.range_succ,
      Multiset.erase_cons_tail _ (Nat.ne_of_gt h), Multiset.map_cons]
  · rw [Function.update_eq_self, others, Multiset.range_succ, Multiset.erase_cons_head, live]

/-! ## Relations between the elements -/

/-- **A relation between any two elements**: whichever is taken out, it stands
in the relation to all that are left. -/
def Apart (r : α → α → Prop) (s : Multiset α) : Prop :=
  ∀ x t, s = x ::ₘ t → ∀ y ∈ t, r x y

variable {r : α → α → Prop} {s t : Multiset α} {x : α}

theorem apart_zero : Apart r 0 := fun _ _ h => (Multiset.zero_ne_cons h).elim

theorem Apart.head (h : Apart r (x ::ₘ s)) : ∀ y ∈ s, r x y := h x s rfl

theorem Apart.tail (h : Apart r (x ::ₘ s)) : Apart r s := by
  rintro y t rfl z hz
  exact h y (x ::ₘ t) (Multiset.cons_swap x y t) z (Multiset.mem_cons_of_mem hz)

theorem Apart.cons (hr : ∀ x y, r x y → r y x) (h : Apart r s) (hx : ∀ y ∈ s, r x y) :
    Apart r (x ::ₘ s) := by
  intro z t hst y hy
  obtain ⟨rfl, rfl⟩ | ⟨-, u, rfl, rfl⟩ := Multiset.cons_eq_cons.mp hst
  · exact hx y hy
  · rcases Multiset.mem_cons.mp hy with rfl | hy
    · exact hr y z (hx z (Multiset.mem_cons_self z u))
    · exact h z u rfl y hy

/-- Two elements trade places if they stand in the same relations. -/
theorem Apart.replace {x' : α} (hr : ∀ x y, r x y → r y x) (h : Apart r (x ::ₘ s))
    (hx : ∀ y, r x y → r x' y) : Apart r (x' ::ₘ s) :=
  h.tail.cons hr (fun y hy => hx y (h.head y hy))

end SlotArray
