import Mathlib.Data.List.Forall2
import Mathlib.Data.List.Induction
import Mathlib.Order.Bounds.Basic

/-!
# Coalescing records by key

Records with a range are entered one by one in a table. A record whose key has an entry
widens the range of that entry; any other record gets an entry of its own, and so does a
record without a key. The entries stand in the order of the records that began them
(`firsts`), and the range of an entry goes from the least start to the greatest end of the
records with its key (`forall₂_table`).
-/

namespace Coalescing

variable {ι κ ν : Type*}

/-- An entry of the table. -/
structure Entry (κ ν : Type*) where
  key : Option κ
  lo : ν
  hi : ν

/-- An entry whose range also covers another one. -/
def Entry.widen [LinearOrder ν] (e : Entry κ ν) (lo hi : ν) : Entry κ ν :=
  { e with lo := min e.lo lo, hi := max e.hi hi }

section Table

variable [DecidableEq κ] [LinearOrder ν] (key : ι → Option κ) (lo hi : ι → ν)

/-- A record begins an entry unless its key has one. -/
def addFirst (acc : List ι) (i : ι) : List ι :=
  if key i ≠ none ∧ key i ∈ acc.map key then acc else acc ++ [i]

/-- **The records that begin an entry**, in order. -/
def firsts (l : List ι) : List ι := l.foldl (addFirst key) []

/-- A record is entered. -/
def add (t : List (Entry κ ν)) (i : ι) : List (Entry κ ν) :=
  if key i ≠ none ∧ key i ∈ t.map Entry.key then
    t.map fun e => if e.key = key i then e.widen (lo i) (hi i) else e
  else t ++ [⟨key i, lo i, hi i⟩]

/-- **The table** of some records. -/
def table (l : List ι) : List (Entry κ ν) := l.foldl (add key lo hi) []

/-- The records with the key of a record. -/
def group (l : List ι) (i : ι) : Set ι := {j | j ∈ l ∧ key j = key i}

/-- **The entry that a record began**, among other records. -/
structure Summarizes (l : List ι) (i : ι) (e : Entry κ ν) : Prop where
  key_eq : e.key = key i
  own : key i = none → e.lo = lo i ∧ e.hi = hi i
  least : key i ≠ none → IsLeast (Set.image lo (group key l i)) e.lo
  greatest : key i ≠ none → IsGreatest (Set.image hi (group key l i)) e.hi

variable {key lo hi} {l : List ι} {i j : ι} {e : Entry κ ν}

theorem firsts_append : firsts key (l ++ [i]) = addFirst key (firsts key l) i := by
  rw [firsts, List.foldl_append]
  rfl

theorem table_append : table key lo hi (l ++ [i]) = add key lo hi (table key lo hi l) i := by
  rw [table, List.foldl_append]
  rfl

theorem length_le_add {t : List (Entry κ ν)} : t.length ≤ (add key lo hi t i).length := by
  rw [add]
  split
  · rw [List.length_map]
  · rw [List.length_append]
    exact Nat.le_add_right _ _

/-- Every key of a record is that of a first one. -/
theorem mem_keys_firsts (hj : j ∈ l) : key j ∈ (firsts key l).map key := by
  induction l using List.reverseRecOn with
  | nil => exact absurd hj List.not_mem_nil
  | append_singleton l i ih =>
    rw [firsts_append, addFirst]
    split
    · next h =>
      rcases List.mem_append.mp hj with hj | hj
      · exact ih hj
      · rw [List.mem_singleton.mp hj]
        exact h.2
    · rw [List.map_append]
      rcases List.mem_append.mp hj with hj | hj
      · exact List.mem_append_left _ (ih hj)
      · rw [List.mem_singleton.mp hj]
        exact List.mem_append_right _ List.mem_cons_self

/-- **A key begins one entry.** -/
theorem pairwise_firsts (l : List ι) :
    (firsts key l).Pairwise fun i j => key i ≠ none → key i ≠ key j := by
  induction l using List.reverseRecOn with
  | nil => exact List.Pairwise.nil
  | append_singleton l i ih =>
    rw [firsts_append, addFirst]
    split
    · exact ih
    · next h =>
      refine List.pairwise_append.mpr
        ⟨ih, List.pairwise_singleton _ i, fun j hj k hk hne heq => h ?_⟩
      rw [List.mem_singleton.mp hk] at heq
      exact ⟨heq ▸ hne, heq ▸ List.mem_map_of_mem hj⟩

omit [DecidableEq κ] in
theorem group_append_of_ne (h : key j ≠ key i) : group key (l ++ [i]) j = group key l j := by
  ext x
  refine ⟨fun ⟨hx, hkey⟩ => ⟨?_, hkey⟩, fun ⟨hx, hkey⟩ => ⟨List.mem_append_left _ hx, hkey⟩⟩
  refine (List.mem_append.mp hx).resolve_right fun hx => h ?_
  rw [← hkey, List.mem_singleton.mp hx]

omit [DecidableEq κ] in
theorem group_append_of_eq (h : key j = key i) :
    group key (l ++ [i]) j = group key l j ∪ {i} := by
  ext x
  constructor
  · rintro ⟨hx, hkey⟩
    rcases List.mem_append.mp hx with hx | hx
    · exact Or.inl ⟨hx, hkey⟩
    · exact Or.inr (List.mem_singleton.mp hx)
  · rintro (⟨hx, hkey⟩ | hx)
    · exact ⟨List.mem_append_left _ hx, hkey⟩
    · rw [Set.mem_singleton_iff.mp hx]
      exact ⟨List.mem_append_right _ List.mem_cons_self, h.symm⟩

omit [DecidableEq κ] in
/-- A record with another key, or of an entry without one, changes nothing. -/
theorem Summarizes.append_of_ne (h : Summarizes key lo hi l j e)
    (hne : key j ≠ none → key j ≠ key i) : Summarizes key lo hi (l ++ [i]) j e := by
  refine ⟨h.key_eq, h.own, fun hj => ?_, fun hj => ?_⟩ <;> rw [group_append_of_ne (hne hj)]
  · exact h.least hj
  · exact h.greatest hj

omit [DecidableEq κ] in
/-- A record with the key widens the entry. -/
theorem Summarizes.append_of_eq (h : Summarizes key lo hi l j e) (hj : key j ≠ none)
    (heq : key j = key i) : Summarizes key lo hi (l ++ [i]) j (e.widen (lo i) (hi i)) := by
  refine ⟨h.key_eq, fun hnone => absurd hnone hj, fun _ => ?_, fun _ => ?_⟩ <;>
    rw [group_append_of_eq heq, Set.image_union, Set.image_singleton]
  · exact (h.least hj).union isLeast_singleton
  · exact (h.greatest hj).union isGreatest_singleton

/-- A record whose key is new. -/
theorem summarizes_self (hnew : key i ≠ none → key i ∉ (firsts key l).map key) :
    Summarizes key lo hi (l ++ [i]) i ⟨key i, lo i, hi i⟩ := by
  have hgroup : key i ≠ none → group key (l ++ [i]) i = {i} := by
    intro hi
    rw [group_append_of_eq rfl, Set.union_eq_right]
    rintro x ⟨hx, hkey⟩
    exact absurd (hkey ▸ mem_keys_firsts hx) (hnew hi)
  refine ⟨rfl, fun _ => ⟨rfl, rfl⟩, fun h => ?_, fun h => ?_⟩ <;>
    rw [hgroup h, Set.image_singleton]
  · exact isLeast_singleton
  · exact isGreatest_singleton

omit [DecidableEq κ] in
/-- The entries have the keys of the records that began them. -/
theorem map_key_eq {is : List ι} {t : List (Entry κ ν)}
    (h : List.Forall₂ (Summarizes key lo hi l) is t) : t.map Entry.key = is.map key := by
  induction h with
  | nil => rfl
  | cons he _ ih => rw [List.map_cons, List.map_cons, he.key_eq, ih]

/-- **What the table holds.** -/
theorem forall₂_table (l : List ι) :
    List.Forall₂ (Summarizes key lo hi l) (firsts key l) (table key lo hi l) := by
  induction l using List.reverseRecOn with
  | nil => exact List.Forall₂.nil
  | append_singleton l i ih =>
    rw [firsts_append, table_append, addFirst, add, map_key_eq ih]
    split
    · next h =>
      refine List.forall₂_map_right_iff.mpr (ih.imp fun j e he => ?_)
      by_cases hji : key j = key i
      · rw [if_pos (he.key_eq.trans hji)]
        exact he.append_of_eq (hji ▸ h.1) hji
      · rw [if_neg fun heq => hji (he.key_eq.symm.trans heq)]
        exact he.append_of_ne fun _ => hji
    · next h =>
      have hnew : key i ≠ none → key i ∉ (firsts key l).map key := fun hne hmem => h ⟨hne, hmem⟩
      refine List.rel_append ?_ (List.Forall₂.cons (summarizes_self hnew) List.Forall₂.nil)
      have hmem := (List.forall₂_and_left _ _).mpr ⟨fun j (hj : j ∈ firsts key l) => hj, ih⟩
      refine hmem.imp fun j e ⟨hj, he⟩ => he.append_of_ne fun hne heq => ?_
      exact hnew (heq ▸ hne) (heq ▸ List.mem_map_of_mem hj)

/-- An entry is found by its key. -/
theorem pairwise_keys (l : List ι) :
    ((table key lo hi l).map Entry.key).Pairwise fun a b => a ≠ none → a ≠ b := by
  rw [map_key_eq (forall₂_table l)]
  exact List.pairwise_map.mpr (pairwise_firsts l)

omit [LinearOrder ν] in
theorem countP_eq_one {t : List (Entry κ ν)} {a : Option κ}
    (ht : (t.map Entry.key).Pairwise fun a b => a ≠ none → a ≠ b) (ha : a ≠ none)
    (hmem : a ∈ t.map Entry.key) : t.countP (fun e => e.key = a) = 1 := by
  induction t with
  | nil => exact absurd hmem List.not_mem_nil
  | cons e t ih =>
    obtain ⟨he, ht⟩ := List.pairwise_cons.mp ht
    by_cases heq : e.key = a
    · subst heq
      have hzero : t.countP (fun f => f.key = e.key) = 0 :=
        List.countP_eq_zero.mpr fun f hf => by
          rw [decide_eq_true_iff]
          exact (he _ (List.mem_map_of_mem hf) ha).symm
      rw [List.countP_cons_of_pos (by rw [decide_eq_true_iff]), hzero]
    · rw [List.countP_cons_of_neg (by rwa [decide_eq_true_iff])]
      exact ih ht ((List.mem_cons.mp hmem).resolve_left (Ne.symm heq))

/-- **A key has one entry.** -/
theorem countP_key (hj : j ∈ l) (hkey : key j ≠ none) :
    (table key lo hi l).countP (fun e => e.key = key j) = 1 := by
  refine countP_eq_one (pairwise_keys l) hkey ?_
  rw [map_key_eq (forall₂_table l)]
  exact mem_keys_firsts hj

/-- **A record widens the entry with its key**, wherever that stands. -/
theorem add_eq_modify {t : List (Entry κ ν)} {n : ℕ}
    (ht : (t.map Entry.key).Pairwise fun a b => a ≠ none → a ≠ b) (hkey : key i ≠ none)
    (hn : (t.map Entry.key)[n]? = some (key i)) :
    add key lo hi t i = t.modify n fun e => e.widen (lo i) (hi i) := by
  rw [add, if_pos ⟨hkey, List.mem_of_getElem? hn⟩]
  refine List.ext_getElem? fun m => ?_
  rw [List.getElem?_map, List.getElem?_modify]
  cases hm : t[m]? with
  | none => rfl
  | some e =>
    have he : (t.map Entry.key)[m]? = some e.key := by rw [List.getElem?_map, hm]; rfl
    by_cases hnm : n = m
    · subst hnm
      rw [hn, Option.some_inj] at he
      rw [Option.map_some, if_pos he.symm, Option.map_eq_map, Option.map_some, if_pos rfl]
    · have hne : e.key ≠ key i := fun heq => by
        obtain ⟨hmlt, hme⟩ := List.getElem?_eq_some_iff.mp he
        obtain ⟨hnlt, hne⟩ := List.getElem?_eq_some_iff.mp hn
        rcases Nat.lt_or_gt_of_ne hnm with h | h
        · exact List.pairwise_iff_getElem.mp ht n m hnlt hmlt h (hne ▸ hkey)
            (by rw [hne, hme, heq])
        · exact List.pairwise_iff_getElem.mp ht m n hmlt hnlt h (by rw [hme, heq]; exact hkey)
            (by rw [hne, hme, heq])
      rw [Option.map_some, if_neg hne, Option.map_eq_map, Option.map_some, if_neg hnm]

end Table

end Coalescing
