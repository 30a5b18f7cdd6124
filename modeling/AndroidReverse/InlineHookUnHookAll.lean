import AndroidReverse.InlineHookRuns
import Mathlib.Data.Multiset.Filter

/-!
# Unhooking all

`inlineUnHookAll` walks over an array that it deletes from: the last item
takes the place of a deleted one, and the index stays where it is. A round
either goes on to the next item or makes the array one shorter, so the distance
to the end of the array is the number of rounds left, and the items behind the
index are those still to be looked at, in whatever order.
-/

namespace InlineHook

open Arm

/-- One round of the `for` loop of `inlineUnHookAll`; `none` if the loop
ends. -/
def unHookAllRound (s : ℕ × Process) : Option (ℕ × Process) :=
  if s.1 < s.2.info.size then
    if (s.2.info.item s.1).status = HOOKED then some (s.1, doInlineUnHook s.1 s.2)
    else some (s.1 + 1, s.2)
  else none

/-- The loop from a state ends after `n` rounds, in the state `t`. -/
def EndsAfter (n : ℕ) (s t : ℕ × Process) : Prop :=
  (fun o => Option.bind o unHookAllRound)^[n] (some s) = some t ∧ unHookAllRound t = none

/-- What unhooking an item writes over the code. -/
def restore (heap : Mem) (code : Mem) (item : InlineHookItem) : Mem :=
  memcpy code (clearBit0 item.targetAddr) heap item.origInstructions item.length.toNat

/-- What it leaves of the trampoline pages. -/
def unmapPage (pages : Word → Option Relocate.Trampoline) (item : InlineHookItem) :
    Word → Option Relocate.Trampoline :=
  Function.update pages item.trampolineInstructions none

section Loop

variable {p : Process} {i fuel : ℕ}

theorem doInlineUnHook_size (pos : ℕ) (p : Process) :
    (doInlineUnHook pos p).info.size = p.info.size - 1 := rfl

theorem doInlineUnHook_item {j : ℕ} (h : j ≠ i) :
    (doInlineUnHook i p).info.item j = p.info.item j := Function.update_of_ne h _ _

theorem doInlineUnHook_live (hi : i < p.info.size) :
    (doInlineUnHook i p).info.live = p.info.others i := live_deleteInlineHookItem hi

theorem endsAfter_zero {s : ℕ × Process} (h : unHookAllRound s = none) : EndsAfter 0 s s :=
  ⟨rfl, h⟩

theorem EndsAfter.head {n : ℕ} {s s' t : ℕ × Process} (hr : unHookAllRound s = some s')
    (h : EndsAfter n s' t) : EndsAfter (n + 1) s t := by
  refine ⟨?_, h.2⟩
  rw [Function.iterate_succ_apply, Option.bind_some, hr]
  exact h.1

/-- **The loop ends** after as many rounds as there are items left. -/
theorem unHookAllLoop_ends (fuel i : ℕ) (p : Process) (hfuel : p.info.size = i + fuel) :
    ∃ k, EndsAfter fuel (i, p) (k, unHookAllLoop fuel i p) := by
  induction fuel generalizing i p with
  | zero =>
    have hend : ¬ i < p.info.size := by omega
    exact ⟨i, endsAfter_zero (if_neg hend)⟩
  | succ fuel ih =>
    have hi : i < p.info.size := by omega
    unfold unHookAllLoop
    rw [if_pos hi]
    split_ifs with hh
    · obtain ⟨k, hk⟩ := ih i (doInlineUnHook i p) (by rw [doInlineUnHook_size]; omega)
      refine ⟨k, hk.head ?_⟩
      unfold unHookAllRound
      rw [if_pos hi, if_pos hh]
    · obtain ⟨k, hk⟩ := ih (i + 1) p (by omega)
      refine ⟨k, hk.head ?_⟩
      unfold unHookAllRound
      rw [if_pos hi, if_neg hh]

/-- **What the loop does** from position `i` on, where no item before it is
hooked: it unhooks each hooked item once and keeps the others. -/
theorem unHookAllLoop_exact (fuel i : ℕ) (p : Process) (hfuel : p.info.size = i + fuel)
    (hbefore : ∀ j < i, (p.info.item j).status ≠ HOOKED) :
    (unHookAllLoop fuel i p).heap = p.heap
      ∧ (unHookAllLoop fuel i p).cells = p.cells
      ∧ (unHookAllLoop fuel i p).info.live = p.info.live.filter (fun x => x.status ≠ HOOKED)
      ∧ ∃ xs : List InlineHookItem,
        (xs : Multiset InlineHookItem) = p.info.live.filter (fun x => x.status = HOOKED)
          ∧ (unHookAllLoop fuel i p).code = xs.foldl (restore p.heap) p.code
          ∧ (unHookAllLoop fuel i p).pages = xs.foldl unmapPage p.pages := by
  induction fuel generalizing i p with
  | zero =>
    have hnone : ∀ x ∈ p.info.live, x.status ≠ HOOKED := by
      intro x hx
      obtain ⟨j, hj, rfl⟩ := SlotArray.mem_live.mp hx
      exact hbefore j (by omega)
    refine ⟨rfl, rfl, (Multiset.filter_eq_self.mpr hnone).symm, [], ?_, rfl, rfl⟩
    exact (Multiset.filter_eq_nil.mpr hnone).symm
  | succ fuel ih =>
    have hi : i < p.info.size := by omega
    unfold unHookAllLoop
    rw [if_pos hi, live_eq_cons hi]
    split_ifs with hh
    · -- the last item comes to stand at `i`, and is looked at next
      obtain ⟨hheap, hcells, hlive, xs, hxs, hcode, hpages⟩ := ih i (doInlineUnHook i p)
        (by rw [doInlineUnHook_size]; omega)
        (fun j hj => by rw [doInlineUnHook_item (by omega)]; exact hbefore j hj)
      rw [doInlineUnHook_live hi] at hlive hxs
      refine ⟨hheap, hcells, ?_, p.info.item i :: xs, ?_, hcode, hpages⟩
      · rw [hlive, Multiset.filter_cons_of_neg
          (p := fun x : InlineHookItem => x.status ≠ HOOKED) _ (not_not.mpr hh)]
      · rw [Multiset.filter_cons_of_pos
          (p := fun x : InlineHookItem => x.status = HOOKED) _ hh, ← hxs]
        rfl
    · rw [← live_eq_cons hi]
      refine ih (i + 1) p (by omega) (fun j hj => ?_)
      rcases Nat.lt_succ_iff_lt_or_eq.mp hj with h | rfl
      · exact hbefore j h
      · exact hh

/-- Where nothing is hooked the loop changes nothing. -/
theorem unHookAllLoop_eq_self (fuel i : ℕ) (p : Process)
    (h : ∀ x ∈ p.info.live, x.status ≠ HOOKED) : unHookAllLoop fuel i p = p := by
  induction fuel generalizing i with
  | zero => rfl
  | succ fuel ih =>
    unfold unHookAllLoop
    by_cases hi : i < p.info.size
    · rw [if_pos hi, if_neg (h _ (SlotArray.mem_live.mpr ⟨i, hi, rfl⟩)), ih (i + 1)]
    · exact if_neg hi

end Loop

/-- **`inlineUnHookAll` is exact**, whatever the arrangement of the items: it
ends after one round for each item, it restores the code of each hooked item
once, it leaves the registered items as they are and no others, and a second
call changes nothing. -/
theorem inlineUnHookAll_exact {p : Process}
    (hstatus : ∀ x ∈ p.info.live, x.status = REGISTERED ∨ x.status = HOOKED) :
    (∃ k, EndsAfter p.info.size (0, p) (k, inlineUnHookAll p))
      ∧ (∃ xs : List InlineHookItem,
        (xs : Multiset InlineHookItem) = p.info.live.filter (fun x => x.status = HOOKED)
          ∧ (inlineUnHookAll p).code = xs.foldl (restore p.heap) p.code
          ∧ (inlineUnHookAll p).pages = xs.foldl unmapPage p.pages)
      ∧ (inlineUnHookAll p).info.live = p.info.live.filter (fun x => x.status = REGISTERED)
      ∧ (inlineUnHookAll p).heap = p.heap ∧ (inlineUnHookAll p).cells = p.cells
      ∧ inlineUnHookAll (inlineUnHookAll p) = inlineUnHookAll p := by
  have hne : REGISTERED ≠ HOOKED := by decide
  obtain ⟨hheap, hcells, hlive, hxs⟩ := unHookAllLoop_exact p.info.size 0 p (Nat.zero_add _).symm
    (fun j hj => absurd hj (Nat.not_lt_zero j))
  have hlive' : (inlineUnHookAll p).info.live
      = p.info.live.filter (fun x => x.status = REGISTERED) := by
    refine hlive.trans (Multiset.filter_congr (fun x hx => ?_))
    rcases hstatus x hx with h | h <;> rw [h]
    · exact ⟨fun _ => rfl, fun _ => hne⟩
    · exact ⟨fun h => absurd rfl h, fun h => absurd h.symm hne⟩
  refine ⟨unHookAllLoop_ends p.info.size 0 p (Nat.zero_add _).symm, hxs, hlive', hheap, hcells,
    unHookAllLoop_eq_self _ 0 _ (fun x hx => ?_)⟩
  rw [hlive'] at hx
  rw [(Multiset.mem_filter.mp hx).2]
  exact hne

/-- One item, hooked. -/
theorem inlineUnHookAll_exact_one :
    (inlineUnHookAll (hookTarget 0x9000#32 startProcess)).info.live
      = (hookTarget 0x9000#32 startProcess).info.live.filter (fun x => x.status = REGISTERED) := by
  refine (inlineUnHookAll_exact (fun x hx => ?_)).2.2.1
  obtain ⟨i, hi, rfl⟩ := SlotArray.mem_live.mp hx
  obtain rfl : i = 0 := Nat.lt_one_iff.mp hi
  exact Or.inr (by decide)

end InlineHook
