import Mathlib.Data.List.Basic
import Mathlib.Logic.Function.Basic

/-!
# Interposing on slots

A call that goes through a slot can be diverted by writing another value to the slot. A
tool that does this for a list of slots keeps one variable for the content it replaced,
so that the diversion can go on to the original, and it leaves a slot alone that is
diverted already.

`Interpose.visit` is one slot, `Interpose.run` a list of them in order, in which a slot may
occur again. After a run the slots of the list hold the new value and the others what they
held (`slot_run`); what a run has to do are the slots of the list that hold something else,
each once (`pending`); the variable holds what it held, or the first content there was to
replace (`saved_run`); and a run over slots that hold the new value has no effect
(`run_of_forall`).
-/

namespace Interpose

variable {ι α : Type*} [DecidableEq ι] [DecidableEq α] [Zero α]

/-- **The slots and the variable** for what was replaced, 0 while nothing was. -/
structure State (ι α : Type*) where
  slot : ι → α
  saved : α

/-- One slot is diverted to `f`. -/
def visit (f : α) (s : State ι α) (i : ι) : State ι α :=
  if s.slot i = f then s
  else ⟨Function.update s.slot i f, if s.saved = 0 then s.slot i else s.saved⟩

/-- The slots of a list are diverted to `f`, in order. -/
def run (f : α) (s : State ι α) (l : List ι) : State ι α := l.foldl (visit f) s

/-- The first content of the slots of a list that is neither `f` nor 0, or else 0. -/
def firstOriginal (f : α) (slot : ι → α) (l : List ι) : α :=
  ((l.map slot).find? (fun v => v ≠ f ∧ v ≠ 0)).getD 0

/-- **The slots that a run has to divert**: those of the list that hold something else, in
order and each once. -/
def pending (f : α) : (ι → α) → List ι → List ι
  | _, [] => []
  | slot, i :: l =>
    if slot i = f then pending f slot l else i :: pending f (Function.update slot i f) l

variable {f : α} {s : State ι α} {slot slot' : ι → α} {i j : ι} {l : List ι}

omit [Zero α] in
theorem pending_congr (h : ∀ i ∈ l, slot i = slot' i) : pending f slot l = pending f slot' l := by
  induction l generalizing slot slot' with
  | nil => rfl
  | cons i l ih =>
    have hi : slot i = slot' i := h i List.mem_cons_self
    have hl : ∀ j ∈ l, slot j = slot' j := fun j hj => h j (List.mem_cons_of_mem i hj)
    rw [pending, pending, hi, ih hl]
    refine if_congr Iff.rfl rfl (congrArg (i :: ·) (ih fun j hj => ?_))
    rw [Function.update_apply, Function.update_apply, hl j hj]

omit [Zero α] in
theorem mem_of_mem_pending (h : j ∈ pending f slot l) : j ∈ l := by
  induction l generalizing slot with
  | nil => exact h
  | cons i l ih =>
    rw [pending] at h
    split_ifs at h with hi
    · exact List.mem_cons_of_mem i (ih h)
    · exact (List.mem_cons.mp h).elim (fun he => he ▸ List.mem_cons_self)
        (fun hl => List.mem_cons_of_mem i (ih hl))

theorem visit_of_eq (h : s.slot i = f) : visit f s i = s := if_pos h

/-- **What a visit leaves in a slot.** -/
theorem slot_visit : (visit f s i).slot j = if j = i then f else s.slot j := by
  by_cases h : s.slot i = f
  · rw [visit_of_eq h]
    split_ifs with hj
    · rw [hj, h]
    · rfl
  · rw [visit, if_neg h]
    exact Function.update_apply s.slot i f j

/-- **What a run leaves in a slot.** -/
theorem slot_run : (run f s l).slot j = if j ∈ l then f else s.slot j := by
  induction l generalizing s with
  | nil => exact (if_neg List.not_mem_nil).symm
  | cons i l ih =>
    show (run f (visit f s i) l).slot j = _
    rw [ih, slot_visit]
    by_cases hl : j ∈ l
    · rw [if_pos hl, if_pos (List.mem_cons_of_mem i hl)]
    · rw [if_neg hl]
      by_cases hi : j = i
      · rw [if_pos hi, if_pos (List.mem_cons.mpr (.inl hi))]
      · rw [if_neg hi, if_neg (fun h => (List.mem_cons.mp h).elim hi hl)]

/-- A slot whose content is not worth keeping may as well be diverted. -/
theorem firstOriginal_update (slot : ι → α) (l : List ι) (h : slot i = 0) :
    firstOriginal f (Function.update slot i f) l = firstOriginal f slot l := by
  induction l with
  | nil => rfl
  | cons j l ih =>
    rw [firstOriginal, firstOriginal] at ih ⊢
    rw [List.map_cons, List.map_cons]
    by_cases hj : j = i
    · rw [hj, Function.update_self, h, List.find?_cons_of_neg (by simp),
        List.find?_cons_of_neg (by simp)]
      exact ih
    · rw [Function.update_of_ne hj]
      by_cases hv : slot j ≠ f ∧ slot j ≠ 0
      · rw [List.find?_cons_of_pos (by simpa using hv), List.find?_cons_of_pos (by simpa using hv)]
      · rw [List.find?_cons_of_neg (by simpa using hv), List.find?_cons_of_neg (by simpa using hv)]
        exact ih

/-- **What a run leaves in the variable.** -/
theorem saved_run :
    (run f s l).saved = if s.saved = 0 then firstOriginal f s.slot l else s.saved := by
  induction l generalizing s with
  | nil =>
    show s.saved = _
    split_ifs with h
    · exact h
    · rfl
  | cons i l ih =>
    show (run f (visit f s i) l).saved = _
    rw [ih]
    by_cases hi : s.slot i = f
    · have hskip : firstOriginal f s.slot (i :: l) = firstOriginal f s.slot l := by
        rw [firstOriginal, List.map_cons, List.find?_cons_of_neg (by simp [hi])]
        rfl
      rw [visit_of_eq hi, hskip]
    · rw [visit, if_neg hi]
      dsimp only
      by_cases hs : s.saved = 0
      · rw [if_pos hs, if_pos hs]
        by_cases h0 : s.slot i = 0
        · have hskip : firstOriginal f s.slot (i :: l) = firstOriginal f s.slot l := by
            rw [firstOriginal, List.map_cons, List.find?_cons_of_neg (by simp [h0])]
            rfl
          rw [if_pos h0, firstOriginal_update _ _ h0, hskip]
        · rw [if_neg h0, firstOriginal, List.map_cons,
            List.find?_cons_of_pos (by simp [hi, h0])]
          rfl
      · rw [if_neg hs, if_neg hs, if_neg hs]

/-- Slots that are diverted are left alone. -/
theorem run_of_forall (h : ∀ i ∈ l, s.slot i = f) : run f s l = s := by
  induction l with
  | nil => rfl
  | cons i l ih =>
    show run f (visit f s i) l = s
    rw [visit_of_eq (h i List.mem_cons_self)]
    exact ih (fun j hj => h j (List.mem_cons_of_mem i hj))

end Interpose
