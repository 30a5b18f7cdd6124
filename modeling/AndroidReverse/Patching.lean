import Mathlib.Data.Multiset.MapFold
import Mathlib.Data.Set.Function
import Mathlib.Data.Set.Lattice
import Mathlib.Data.Set.Pairwise.Basic
import Mathlib.Data.Set.Restrict
import Mathlib.Logic.Relation
import Mathlib.Order.CompletePartialOrder

/-!
# Patched memories

A memory that was patched in some of its windows, in the abstract: functions
on a type of addresses, a family of windows over a type of indices, and the
set of the windows that are patched at present. `Patched` says that the memory
is the original one everywhere else.

The rules are those of a patching tool. Writing inside a window makes it
patched; putting the original content back makes it unpatched; with disjoint
windows, what is read from an unpatched window is the original content, which
is what there is to save before it is patched.

`Tool` is such a tool, with its three moves, and `Tool.Inv` what holds after
any sequence of them. It says what a patching tool is for: nothing outside the
windows it patched has changed, and it can put everything back.
-/

namespace Patching

variable {α β ι : Type*}

/-- **A memory patched in the active windows**: it is the original outside
them. -/
def Patched (m₀ : α → β) (window : ι → Set α) (active : Set ι) (m : α → β) : Prop :=
  ∀ a, (∀ i ∈ active, a ∉ window i) → m a = m₀ a

variable {m₀ m m' : α → β} {window : ι → Set α} {active active' : Set ι} {i : ι}

/-- Nothing is patched to begin with. -/
theorem patched_refl : Patched m₀ window ∅ m₀ := fun _ _ => rfl

/-- Where no window is active, the memory is the original. -/
theorem Patched.eq (h : Patched m₀ window ∅ m) : m = m₀ :=
  funext (fun a => h a (fun _ hi => hi.elim))

/-- More windows may be called active. -/
theorem Patched.mono (h : Patched m₀ window active m) (hs : active ⊆ active') :
    Patched m₀ window active' m :=
  fun a ha => h a (fun i hi => ha i (hs hi))

/-- **Writing inside a window** keeps the memory patched, if the window is
active afterwards. -/
theorem Patched.patch (h : Patched m₀ window active m) (hm : Set.EqOn m' m (window i)ᶜ) :
    Patched m₀ window (insert i active) m' := by
  intro a ha
  rw [hm (ha i (Set.mem_insert i active))]
  exact h a (fun j hj => ha j (Set.mem_insert_of_mem i hj))

/-- **Putting a window's content back** makes it inactive. -/
theorem Patched.restore (h : Patched m₀ window active m) (hm : Set.EqOn m' m (window i)ᶜ)
    (hi : Set.EqOn m' m₀ (window i)) : Patched m₀ window (active \ {i}) m' := by
  intro a ha
  by_cases haw : a ∈ window i
  · exact hi haw
  · rw [hm haw]
    refine h a (fun j hj => ?_)
    by_cases hji : j = i
    · rwa [hji]
    · exact ha j ⟨hj, hji⟩

/-- **An inactive window holds its original content**, if the windows are
disjoint. -/
theorem Patched.original (h : Patched m₀ window active m) (hi : i ∉ active)
    (hd : ∀ j ∈ active, j ≠ i → Disjoint (window j) (window i)) :
    Set.EqOn m m₀ (window i) := by
  intro a ha
  refine h a (fun j hj haj => ?_)
  have hji : j ≠ i := by
    rintro rfl
    exact hi hj
  exact Set.disjoint_left.mp (hd j hj hji) haj ha

/-! ## A patching tool -/

/-- What a tool keeps of a window: the content it had, and whether it is
patched at present. -/
structure Saved (β : Type*) (window : ι → Set α) where
  site : ι
  content : window site → β
  active : Bool

/-- **A patching tool**: the memory and what is saved of it. -/
structure Tool (β : Type*) (window : ι → Set α) where
  mem : α → β
  saved : Multiset (Saved β window)

namespace Tool

/-- The sites that are patched. -/
def activeSites (s : Tool β window) : Set ι := {i | ∃ r ∈ s.saved, r.active = true ∧ r.site = i}

/-- **The moves of the tool**, at sites of `T`. It saves a window it has not
saved yet, writes in a saved window, and puts a saved content back, which it
then forgets. -/
inductive Step (T : Set ι) : Tool β window → Tool β window → Prop
  | save {m : α → β} {rs : Multiset (Saved β window)} (i : ι) (hi : i ∈ T)
      (hnew : ∀ r ∈ rs, r.site ≠ i) :
      Step T ⟨m, rs⟩ ⟨m, ⟨i, (window i).domRestrict m, false⟩ ::ₘ rs⟩
  | patch {m m' : α → β} {rs : Multiset (Saved β window)} (r : Saved β window)
      (hr : r.active = false) (hm : Set.EqOn m' m (window r.site)ᶜ) :
      Step T ⟨m, r ::ₘ rs⟩ ⟨m', { r with active := true } ::ₘ rs⟩
  | restore {m m' : α → β} {rs : Multiset (Saved β window)} (r : Saved β window)
      (hr : r.active = true) (hm : Set.EqOn m' m (window r.site)ᶜ)
      (hc : (window r.site).domRestrict m' = r.content) :
      Step T ⟨m, r ::ₘ rs⟩ ⟨m', rs⟩

/-- **What holds of the tool**, with `m₀` the memory it started from. -/
structure Inv (T : Set ι) (m₀ : α → β) (s : Tool β window) : Prop where
  /-- It saves windows of `T`, and each once. -/
  mem_sites : ∀ r ∈ s.saved, r.site ∈ T
  nodup : (s.saved.map Saved.site).Nodup
  /-- What is saved is the original content. -/
  content : ∀ r ∈ s.saved, r.content = (window r.site).domRestrict m₀
  /-- The rest of the memory is the original. -/
  patched : Patched m₀ window s.activeSites s.mem

variable {T : Set ι} {s s' : Tool β window}

theorem inv_initial : Inv T m₀ (⟨m₀, 0⟩ : Tool β window) where
  mem_sites := by simp
  nodup := Multiset.nodup_zero
  content := by simp
  patched := patched_refl.mono (Set.empty_subset _)

/-- **One move keeps the invariant**, if the windows are disjoint. -/
theorem Inv.step (hT : T.PairwiseDisjoint window) (h : Inv T m₀ s) (hs : Step T s s') :
    Inv T m₀ s' := by
  cases hs with
  | @save m rs i hi hnew =>
    have hact : activeSites (⟨m, ⟨i, (window i).domRestrict m, false⟩ ::ₘ rs⟩ : Tool β window)
        = activeSites ⟨m, rs⟩ := by
      simp [activeSites]
    refine ⟨?_, ?_, ?_, ?_⟩
    · exact Multiset.forall_mem_cons.mpr ⟨hi, h.mem_sites⟩
    · rw [Multiset.map_cons, Multiset.nodup_cons]
      refine ⟨fun hmem => ?_, h.nodup⟩
      obtain ⟨r, hr, hri⟩ := Multiset.mem_map.mp hmem
      exact hnew r hr hri
    · refine Multiset.forall_mem_cons.mpr ⟨?_, h.content⟩
      -- the window is not patched, and no patched window meets it
      refine Set.domRestrict_eq_domRestrict_iff.mpr (h.patched.original ?_ ?_)
      · rintro ⟨r, hr, -, hri⟩
        exact hnew r hr hri
      · rintro j ⟨r, hr, -, rfl⟩ hne
        exact hT (h.mem_sites r hr) hi hne
    · exact hact ▸ h.patched
  | @patch m m' rs r hr hm =>
    refine ⟨?_, ?_, ?_, ?_⟩
    · exact Multiset.forall_mem_cons.mpr (Multiset.forall_mem_cons.mp h.mem_sites)
    · rw [Multiset.map_cons]
      exact (Multiset.map_cons Saved.site r rs) ▸ h.nodup
    · exact Multiset.forall_mem_cons.mpr (Multiset.forall_mem_cons.mp h.content)
    · refine (h.patched.patch hm).mono ?_
      rintro j (rfl | ⟨r', hr', ha, rfl⟩)
      · exact ⟨_, Multiset.mem_cons_self _ rs, rfl, rfl⟩
      · rcases Multiset.mem_cons.mp hr' with rfl | hr'
        · exact ⟨_, Multiset.mem_cons_self _ rs, rfl, rfl⟩
        · exact ⟨r', Multiset.mem_cons_of_mem hr', ha, rfl⟩
  | @restore m m' rs r hr hm hc =>
    obtain ⟨hcr, hcs⟩ := Multiset.forall_mem_cons.mp h.content
    have hback : Set.EqOn m' m₀ (window r.site) :=
      Set.domRestrict_eq_domRestrict_iff.mp (hc.trans hcr)
    refine ⟨?_, ?_, hcs, ?_⟩
    · exact (Multiset.forall_mem_cons.mp h.mem_sites).2
    · exact (Multiset.nodup_cons.mp ((Multiset.map_cons Saved.site r rs) ▸ h.nodup)).2
    · refine (h.patched.restore hm hback).mono ?_
      -- a site that is still patched is that of another window
      rintro j ⟨⟨r', hr', ha, rfl⟩, hj⟩
      rcases Multiset.mem_cons.mp hr' with rfl | hr'
      · exact (hj rfl).elim
      · exact ⟨r', hr', ha, rfl⟩

/-- **Where nothing is patched, the memory is the original.** -/
theorem Inv.mem_eq (h : Inv T m₀ s) (hs : ∀ r ∈ s.saved, r.active = false) : s.mem = m₀ := by
  refine (h.patched.mono ?_).eq
  rintro i ⟨r, hr, ha, -⟩
  exact absurd ha (Bool.eq_false_iff.mp (hs r hr))

end Tool

end Patching
