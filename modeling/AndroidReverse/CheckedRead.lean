import Mathlib.Data.List.Infix
import Mathlib.Logic.Basic

/-!
# Reads that are checked

A computation that stops with an error where the program it models would do something
it must not do: read behind the end of a buffer, most of all. `Returns` says that it
comes to its end, and the rules take it through a sequence of steps, so that the exact
condition for a program to return is read off its text. A loop over a list is taken one round
further (`foldlM_concat_of_ok`).

A buffer is a list. `readAt` reads one element of it, and `startsWith` compares what
stands at an offset with a string, one element after the other up to the first
difference. That comparison runs off the end of the buffer exactly if what is left of
the buffer there is a proper prefix of the string (`startsWith_eq`).
-/

namespace Checked

variable {ε : Type*} {α β : Type}

/-- **The computation comes to its end.** -/
def Returns (x : Except ε α) : Prop := ∃ a, x = .ok a

@[simp] theorem returns_ok (a : α) : Returns (.ok a : Except ε α) := ⟨a, rfl⟩

@[simp] theorem returns_pure (a : α) : Returns (pure a : Except ε α) := ⟨a, rfl⟩

@[simp] theorem not_returns_error (e : ε) : ¬ Returns (.error e : Except ε α) := by
  rintro ⟨a, ⟨⟩⟩

/-- **Two steps return** if the first one does and the second one does on its result. -/
theorem returns_bind {x : Except ε α} {f : α → Except ε β} :
    Returns (x >>= f) ↔ Returns x ∧ ∀ a, x = .ok a → Returns (f a) := by
  cases x with
  | error e =>
    refine ⟨fun h => absurd h (not_returns_error e), fun h => absurd h.1 (not_returns_error e)⟩
  | ok a =>
    refine ⟨fun h => ⟨⟨a, rfl⟩, ?_⟩, fun h => h.2 a rfl⟩
    rintro _ ⟨⟩
    exact h

/-- The same where the first step is known to return. -/
theorem bind_ok {x : Except ε α} {f : α → Except ε β} {a : α} (h : x = .ok a) :
    x >>= f = f a := by
  rw [h]
  rfl

/-- Two steps of which the first one fails. -/
theorem bind_error {x : Except ε α} {f : α → Except ε β} {e : ε} (h : x = .error e) :
    x >>= f = .error e := by
  rw [h]
  rfl

section Loops

variable {f : β → α → Except ε β} {xs : List α} {x : α} {b c : β} {e : ε}

/-- **A loop that has come to its last round** ends as the round does. -/
theorem foldlM_concat_of_ok (h : xs.foldlM f b = .ok c) : (xs ++ [x]).foldlM f b = f c x := by
  rw [List.foldlM_append, bind_ok h, List.foldlM_cons]
  exact bind_pure _

/-- A loop that has failed before. -/
theorem foldlM_concat_of_error (h : xs.foldlM f b = .error e) :
    (xs ++ [x]).foldlM f b = .error e := by
  rw [List.foldlM_append, bind_error h]

end Loops

/-! ## Buffers -/

/-- Element `i` of a buffer, or an error behind its end. -/
def readAt (e : ε) (buf : List β) (i : ℕ) : Except ε β :=
  match buf[i]? with
  | some b => .ok b
  | none => .error e

theorem returns_readAt {e : ε} {buf : List β} {i : ℕ} :
    Returns (readAt e buf i) ↔ i < buf.length := by
  unfold readAt
  cases h : buf[i]? with
  | some b =>
    exact iff_of_true (returns_ok b) (List.getElem?_eq_some_iff.mp h).1
  | none =>
    exact iff_of_false (not_returns_error e) (List.getElem?_eq_none_iff.mp h).not_gt

theorem readAt_eq_ok {e : ε} {buf : List β} {i : ℕ} {b : β} :
    readAt e buf i = .ok b ↔ buf[i]? = some b := by
  unfold readAt
  cases buf[i]? with
  | some c => rw [Except.ok.injEq, Option.some.injEq]
  | none => exact iff_of_false (fun h => nomatch h) (fun h => nomatch h)

/-! ## Strings that are cut off -/

/-- **Cut off**: what is left of a buffer agrees with the string, but ends before it. -/
def Cut (w s : List β) : Prop := w <+: s ∧ w ≠ s

instance [DecidableEq β] (w s : List β) : Decidable (Cut w s) :=
  inferInstanceAs (Decidable (_ ∧ _))

theorem cut_nil_right (w : List β) : ¬ Cut w [] :=
  fun h => h.2 (List.prefix_nil.mp h.1)

theorem cut_nil_cons (c : β) (s : List β) : Cut [] (c :: s) :=
  ⟨List.nil_prefix, (List.cons_ne_nil c s).symm⟩

theorem cut_cons {b c : β} {w s : List β} : Cut (b :: w) (c :: s) ↔ b = c ∧ Cut w s := by
  unfold Cut
  rw [List.cons_prefix_cons, Ne, List.cons.injEq]
  constructor
  · rintro ⟨⟨rfl, hw⟩, hne⟩
    exact ⟨rfl, hw, fun h => hne ⟨rfl, h⟩⟩
  · rintro ⟨rfl, hw, hne⟩
    exact ⟨⟨rfl, hw⟩, fun h => hne h.2⟩

/-- What is cut off is shorter. -/
theorem Cut.length_lt {w s : List β} (h : Cut w s) : w.length < s.length :=
  lt_of_le_of_ne h.1.length_le (fun hl => h.2 (h.1.eq_of_length hl))

/-! ## The comparison of strings -/

variable [DecidableEq β]

/-- Whether a string stands at an offset of a buffer, compared up to the first
difference: `strncmp` with the length of the string. -/
def startsWith (e : ε) (buf : List β) : ℕ → List β → Except ε Bool
  | _, [] => .ok true
  | i, c :: s => do
    if (← readAt e buf i) = c then startsWith e buf (i + 1) s else return false

/-- **The comparison** runs off the buffer if that is cut off, and says otherwise
whether the string stands there. -/
theorem startsWith_eq (e : ε) (buf : List β) (i : ℕ) (s : List β) :
    startsWith e buf i s
      = if Cut (buf.drop i) s then .error e else .ok (decide (s <+: buf.drop i)) := by
  induction s generalizing i with
  | nil =>
    rw [if_neg (cut_nil_right _), decide_eq_true List.nil_prefix]
    rfl
  | cons c s ih =>
    cases hb : buf[i]? with
    | none =>
      have hr : readAt e buf i = .error e := by rw [readAt, hb]
      have hd : buf.drop i = [] :=
        List.drop_eq_nil_of_le (List.getElem?_eq_none_iff.mp hb)
      rw [hd, if_pos (cut_nil_cons c s), startsWith, hr]
      rfl
    | some b =>
      obtain ⟨hi, hv⟩ := List.getElem?_eq_some_iff.mp hb
      have hd : buf.drop i = b :: buf.drop (i + 1) := by
        rw [List.drop_eq_getElem_cons hi, hv]
      rw [startsWith, bind_ok (readAt_eq_ok.mpr hb), hd]
      by_cases hbc : b = c
      · rw [if_pos hbc, ih (i + 1), hbc]
        simp only [cut_cons, List.cons_prefix_cons, true_and]
      · rw [if_neg hbc, if_neg (fun h => hbc (cut_cons.mp h).1), decide_eq_false]
        · rfl
        · exact fun h => hbc (List.cons_prefix_cons.mp h).1.symm

theorem returns_startsWith {e : ε} {buf : List β} {i : ℕ} {s : List β} :
    Returns (startsWith e buf i s) ↔ ¬ Cut (buf.drop i) s := by
  rw [startsWith_eq]
  by_cases h : Cut (buf.drop i) s
  · rw [if_pos h]
    exact iff_of_false (not_returns_error e) (not_not_intro h)
  · rw [if_neg h]
    exact iff_of_true (returns_ok _) h

theorem startsWith_eq_ok {e : ε} {buf : List β} {i : ℕ} {s : List β} {b : Bool}
    (h : startsWith e buf i s = .ok b) : b = true ↔ s <+: buf.drop i := by
  rw [startsWith_eq] at h
  by_cases hc : Cut (buf.drop i) s
  · rw [if_pos hc] at h
    cases h
  · rw [if_neg hc] at h
    cases h
    exact decide_eq_true_iff

end Checked
