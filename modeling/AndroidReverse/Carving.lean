import Mathlib.Data.List.Forall2
import Mathlib.Data.Set.Lattice
import Mathlib.Order.CompletePartialOrder

/-!
# Carving blocks out of free memory

What an allocator has to keep: some blocks are free, others have been given
out, and none of them overlap (`Carved`). A block is a set of addresses, of any
kind.

Giving out a part of a free block is safe if the rest of it that stays free
does not overlap that part (`Carved.take`); it does not matter how much gets
lost on the way (`Carved.shrink`). A free block may be split in two
(`Carved.split`), and new memory is safe if it overlaps no block so far
(`Carved.grow`, `Carved.give`).
-/

namespace Carving

variable {α : Type*}

/-- **No two blocks overlap**, whether they are free or given out. -/
def Carved (free given : List (Set α)) : Prop := (free ++ given).Pairwise Disjoint

variable {free free' given pre post : List (Set α)} {s t r : Set α}

theorem pairwise_disjoint_perm {l l' : List (Set α)} (h : l.Perm l') :
    l.Pairwise Disjoint ↔ l'.Pairwise Disjoint :=
  h.pairwise_iff fun hd => hd.symm

/-- The blocks given out do not overlap. -/
theorem Carved.given_pairwise (h : Carved free given) : given.Pairwise Disjoint :=
  (List.pairwise_append.mp h).2.1

/-- A free block overlaps none that has been given out. -/
theorem Carved.disjoint (h : Carved free given) (hs : s ∈ free) (ht : t ∈ given) : Disjoint s t :=
  (List.pairwise_append.mp h).2.2 s hs t ht

theorem exists_superset (h : List.Forall₂ (· ⊆ ·) free' free) (hs : s ∈ free') :
    ∃ t ∈ free, s ⊆ t := by
  induction h with
  | nil => cases hs
  | @cons s' t free' free hst _ ih =>
    rcases List.mem_cons.mp hs with rfl | hs
    · exact ⟨t, List.mem_cons_self, hst⟩
    · obtain ⟨t', ht', hsub⟩ := ih hs
      exact ⟨t', List.mem_cons_of_mem _ ht', hsub⟩

/-- **Free blocks may lose memory.** -/
theorem Carved.shrink (h : Carved free given) (hsub : List.Forall₂ (· ⊆ ·) free' free) :
    Carved free' given := by
  unfold Carved at h ⊢
  induction hsub with
  | nil => exact h
  | @cons s' s free' free hs hrest ih =>
    rw [List.cons_append, List.pairwise_cons] at h ⊢
    refine ⟨fun t ht => ?_, ih h.2⟩
    rcases List.mem_append.mp ht with ht | ht
    · obtain ⟨t', ht', hsub⟩ := exists_superset hrest ht
      exact (h.1 t' (List.mem_append_left _ ht')).mono hs hsub
    · exact (h.1 t (List.mem_append_right _ ht)).mono_left hs

/-- A block among the others, in front of them. -/
theorem carved_middle :
    Carved (pre ++ s :: post) given ↔ (s :: (pre ++ post ++ given)).Pairwise Disjoint := by
  unfold Carved
  rw [List.append_assoc, List.append_assoc]
  exact pairwise_disjoint_perm List.perm_middle

/-- **Giving out** a part of a free block. -/
theorem Carved.take (h : Carved (pre ++ s :: post) given) (ht : t ⊆ s) (hr : r ⊆ s)
    (hd : Disjoint r t) : Carved (pre ++ r :: post) (t :: given) := by
  rw [carved_middle, List.pairwise_cons] at h ⊢
  have hperm : (pre ++ post ++ t :: given).Perm (t :: (pre ++ post ++ given)) := List.perm_middle
  refine ⟨fun x hx => ?_, (pairwise_disjoint_perm hperm).mpr (List.pairwise_cons.mpr
    ⟨fun x hx => (h.1 x hx).mono_left ht, h.2⟩)⟩
  rcases List.mem_cons.mp (hperm.mem_iff.mp hx) with rfl | hx
  · exact hd
  · exact (h.1 x hx).mono_left hr

/-- **Splitting** a free block. -/
theorem Carved.split (h : Carved (pre ++ s :: post) given) (hr : r ⊆ s) (ht : t ⊆ s)
    (hd : Disjoint r t) : Carved (pre ++ r :: post ++ [t]) given := by
  have htake := h.take ht hr hd
  unfold Carved at htake ⊢
  rw [List.append_assoc, List.singleton_append]
  exact htake

/-- **New memory** that is free. -/
theorem Carved.grow (h : Carved free given) (hd : ∀ x ∈ free ++ given, Disjoint s x) :
    Carved (free ++ [s]) given := by
  unfold Carved
  rw [List.append_assoc, List.singleton_append]
  exact (pairwise_disjoint_perm List.perm_middle).mpr (List.pairwise_cons.mpr ⟨hd, h⟩)

/-- **New memory** that is given out at once. -/
theorem Carved.give (h : Carved free given) (hd : ∀ x ∈ free ++ given, Disjoint s x) :
    Carved free (s :: given) := by
  have hgrow := h.grow hd
  unfold Carved at hgrow ⊢
  rwa [List.append_assoc, List.singleton_append] at hgrow

end Carving
