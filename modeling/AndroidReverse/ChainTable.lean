import Mathlib.Data.Finset.Card
import Mathlib.Data.Set.Basic
import Mathlib.Order.Nat

/-!
# Tables with chains

A table that keeps the entries of a bucket on a chain: `head` is where the chain of a
bucket starts, `next` what follows an entry on its chain. A chain that ends has a list of
entries (`ChainTable.Walk`). The table covers a set of entries if every chain ends and
every entry of the set is on the chain of its own bucket (`ChainTable.Covers`); what else
a chain carries does not matter, and it can be entered anywhere (`Covers.exists_walk`).

Links need not end, but if there are finitely many places, then what they do not reach in as
many steps they never reach (`exists_iterate_lt_card`).

A table whose entries are sorted by bucket needs no links: the chain of a bucket is a run
of successive entries, of which only the last one has to be marked. Such a table
(`ChainTable.SortedRuns`) covers its entries as well (`SortedRuns.covers`).
-/

/-- **A table with chains**: where the chain of a bucket starts, and what follows an entry
on its chain. -/
structure ChainTable (β ι : Type*) where
  head : β → Option ι
  next : ι → Option ι

namespace ChainTable

variable {β ι : Type*} {T : ChainTable β ι} {o : Option ι} {l l' : List ι} {i : ι}

/-- **The entries from a place on** are those of a list, and there are no more. -/
inductive Walk (T : ChainTable β ι) : Option ι → List ι → Prop
  | stop : Walk T none []
  | visit {i : ι} {l : List ι} (h : Walk T (T.next i) l) : Walk T (some i) (i :: l)

/-- The entries from a place on are determined. -/
theorem Walk.unique (h : T.Walk o l) (h' : T.Walk o l') : l = l' := by
  induction h generalizing l' with
  | stop => cases h'; rfl
  | visit _ ih =>
    cases h' with
    | visit h' => rw [ih h']

/-- The chain can be entered at any of its entries. -/
theorem Walk.exists_of_mem (h : T.Walk o l) (hi : i ∈ l) : ∃ l', T.Walk (some i) l' := by
  induction h with
  | stop => exact absurd hi List.not_mem_nil
  | visit h ih =>
    rcases List.mem_cons.mp hi with rfl | hi
    · exact ⟨_, Walk.visit h⟩
    · exact ih hi

/-- What holds where a chain starts and passes from an entry to the next holds of every
entry. -/
theorem Walk.forall_mem {P : ι → Prop} (h : T.Walk o l) (ho : ∀ i, o = some i → P i)
    (hnext : ∀ i j, P i → T.next i = some j → P j) : ∀ i ∈ l, P i := by
  induction h with
  | stop => exact fun i hi => absurd hi List.not_mem_nil
  | visit h ih =>
    have hi := ho _ rfl
    exact List.forall_mem_cons.mpr ⟨hi, ih (fun j hj => hnext _ j hi hj)⟩

/-- **The table covers a set of entries**: the chains of the buckets in use end, and each
entry of the set is on the chain of its bucket. -/
structure Covers (T : ChainTable β ι) (buckets : Set β) (entries : Set ι) (bucket : ι → β) :
    Prop where
  ends : ∀ b ∈ buckets, ∃ l, T.Walk (T.head b) l
  complete : ∀ i ∈ entries, ∀ l, T.Walk (T.head (bucket i)) l → i ∈ l

namespace Covers

variable {buckets : Set β} {entries : Set ι} {bucket : ι → β}

/-- The chain goes on from any entry to an end. -/
theorem exists_walk (h : T.Covers buckets entries bucket) (hi : i ∈ entries)
    (hb : bucket i ∈ buckets) : ∃ l, T.Walk (some i) l := by
  obtain ⟨l, hl⟩ := h.ends _ hb
  exact hl.exists_of_mem (h.complete i hi l hl)

end Covers

/-! ## Following a chain -/

/-- The entries from a place on, if the chain ends within a number of steps. -/
def entries (T : ChainTable β ι) : ℕ → Option ι → Option (List ι)
  | _, none => some []
  | 0, some _ => none
  | n + 1, some i => (T.entries n (T.next i)).map (i :: ·)

theorem walk_of_entries {n : ℕ} (h : T.entries n o = some l) : T.Walk o l := by
  induction n generalizing o l with
  | zero =>
    cases o with
    | none => cases h; exact Walk.stop
    | some i => cases h
  | succ n ih =>
    cases o with
    | none => cases h; exact Walk.stop
    | some i =>
      obtain ⟨l', hl', rfl⟩ := Option.map_eq_some_iff.mp h
      exact Walk.visit (ih hl')

/-- **Covering, checked by following the chains.** -/
theorem Covers.of_entries {buckets : Set β} {s : Set ι} {bucket : ι → β} (n : ℕ)
    (hends : ∀ b ∈ buckets, (T.entries n (T.head b)).isSome = true)
    (hmem : ∀ i ∈ s, ∃ l, T.entries n (T.head (bucket i)) = some l ∧ i ∈ l) :
    T.Covers buckets s bucket where
  ends b hb := by
    obtain ⟨l, hl⟩ := Option.isSome_iff_exists.mp (hends b hb)
    exact ⟨l, walk_of_entries hl⟩
  complete i hi l hl := by
    obtain ⟨l', hl', hil⟩ := hmem i hi
    rwa [hl.unique (walk_of_entries hl')]

/-! ## Links between finitely many places -/

/-- **What links reach, they reach early**: a place of some kind among the finitely many
that links stay in takes fewer steps than there are places. -/
theorem exists_iterate_lt_card {s : Finset ι} {next : ι → ι} {P : ι → Prop}
    (hnext : ∀ i ∈ s, next i ∈ s) (hi : i ∈ s) (h : ∃ k, P (next^[k] i)) :
    ∃ k < s.card, P (next^[k] i) := by
  classical
  have hmem : ∀ k, next^[k] i ∈ s := by
    intro k
    induction k with
    | zero => exact hi
    | succ k ih =>
      rw [Function.iterate_succ_apply']
      exact hnext _ ih
  refine ⟨Nat.find h, ?_, Nat.find_spec h⟩
  by_contra hlt
  -- more places than there are have been passed, so one of them twice
  obtain ⟨a, ha, b, hb, hab, heq⟩ : ∃ a ∈ Finset.range (s.card + 1),
      ∃ b ∈ Finset.range (s.card + 1), a ≠ b ∧ next^[a] i = next^[b] i :=
    Finset.exists_ne_map_eq_of_card_lt_of_maps_to (by simp) (fun k _ => hmem k)
  -- leaving out the way from the one visit to the other
  have hshort : ∀ a b, a < b → b < s.card + 1 → next^[a] i ≠ next^[b] i := by
    intro a b hab hb heq
    refine Nat.find_min h (m := Nat.find h - b + a) (by omega) ?_
    rw [Function.iterate_add_apply, heq, ← Function.iterate_add_apply,
      Nat.sub_add_cancel (by omega)]
    exact Nat.find_spec h
  rcases Nat.lt_or_gt_of_ne hab with hlt | hlt
  · exact hshort a b hlt (Finset.mem_range.mp hb) heq
  · exact hshort b a hlt (Finset.mem_range.mp ha) heq.symm

/-! ## Entries sorted by bucket -/

/-- **The entries `lo`, …, `hi - 1` sorted by bucket**: the chain of a bucket starts at its
first entry and goes on to the next number up to the last entry of the bucket. -/
structure SortedRuns [LinearOrder β] (T : ChainTable β ℕ) (buckets : Set β) (lo hi : ℕ)
    (bucket : ℕ → β) : Prop where
  sorted : ∀ i j, lo ≤ i → i ≤ j → j < hi → bucket i ≤ bucket j
  head_eq_none : ∀ b ∈ buckets, T.head b = none ↔ ∀ i, lo ≤ i → i < hi → bucket i ≠ b
  head_eq_some : ∀ b ∈ buckets, ∀ i, T.head b = some i →
    lo ≤ i ∧ i < hi ∧ bucket i = b ∧ ∀ j, lo ≤ j → j < i → bucket j ≠ b
  next_eq : ∀ i, lo ≤ i → i < hi →
    T.next i = if i + 1 < hi ∧ bucket (i + 1) = bucket i then some (i + 1) else none

namespace SortedRuns

variable [LinearOrder β] {T : ChainTable β ℕ} {buckets : Set β} {lo hi : ℕ} {bucket : ℕ → β}

/-- From an entry on, the chain carries every later entry of the bucket. -/
theorem exists_walk (h : T.SortedRuns buckets lo hi bucket) {i : ℕ} (hlo : lo ≤ i) (hhi : i < hi) :
    ∃ l, T.Walk (some i) l ∧ ∀ j, i ≤ j → j < hi → bucket j = bucket i → j ∈ l := by
  -- the chain is followed to the end of the table at most
  induction hn : hi - i generalizing i with
  | zero => omega
  | succ n ih =>
    have hnext := h.next_eq i hlo hhi
    by_cases hc : i + 1 < hi ∧ bucket (i + 1) = bucket i
    · rw [if_pos hc] at hnext
      obtain ⟨l, hl, hmem⟩ := ih (le_trans hlo (Nat.le_succ i)) hc.1 (by omega)
      refine ⟨i :: l, Walk.visit (hnext ▸ hl), fun j hij hj hb => ?_⟩
      rcases Nat.eq_or_lt_of_le hij with rfl | hlt
      · exact List.mem_cons_self
      · exact List.mem_cons_of_mem _ (hmem j hlt hj (hb.trans hc.2.symm))
    · rw [if_neg hc] at hnext
      refine ⟨[i], Walk.visit (hnext ▸ Walk.stop), fun j hij hj hb => ?_⟩
      rcases Nat.eq_or_lt_of_le hij with rfl | hlt
      · exact List.mem_singleton_self i
      · have hle := h.sorted i (i + 1) hlo (Nat.le_succ i) (lt_of_le_of_lt hlt hj)
        have hge := h.sorted (i + 1) j (le_trans hlo (Nat.le_succ i)) hlt hj
        rw [hb] at hge
        exact absurd ⟨lt_of_le_of_lt hlt hj, le_antisymm hge hle⟩ hc

/-- **A table sorted by bucket covers its entries.** -/
theorem covers (h : T.SortedRuns buckets lo hi bucket)
    (hb : ∀ i, lo ≤ i → i < hi → bucket i ∈ buckets) :
    T.Covers buckets {i | lo ≤ i ∧ i < hi} bucket where
  ends b hbb := by
    cases hd : T.head b with
    | none => exact ⟨[], Walk.stop⟩
    | some i =>
      obtain ⟨hlo, hhi, -, -⟩ := h.head_eq_some b hbb i hd
      obtain ⟨l, hl, -⟩ := h.exists_walk hlo hhi
      exact ⟨l, hl⟩
  complete i hi l hl := by
    have hbi := hb i hi.1 hi.2
    cases hd : T.head (bucket i) with
    | none => exact absurd rfl ((h.head_eq_none _ hbi).mp hd i hi.1 hi.2)
    | some k =>
      rw [hd] at hl
      obtain ⟨hlo, hhi, hbk, hfirst⟩ := h.head_eq_some _ hbi k hd
      obtain ⟨l', hl', hmem⟩ := h.exists_walk hlo hhi
      rw [hl.unique hl']
      have hki : k ≤ i := Nat.le_of_not_lt (fun hlt => hfirst i hi.1 hlt rfl)
      exact hmem i hki hi.2 hbk.symm

end SortedRuns

end ChainTable
