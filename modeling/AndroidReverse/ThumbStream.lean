import AndroidReverse.ArmItBlock
import Mathlib.Order.Monotone.Basic

/-!
# Thumb instruction streams

Thumb instructions are one or two halfwords long, so where they begin is found
by decoding from the front. A stream of halfwords has one sequence of starts,
which is strictly increasing; how many instructions begin inside its first
halfwords, and how many lie wholly inside, differ by the one instruction that
straddles the end, if there is one.
-/

namespace Arm

/-- The number of halfwords of an instruction. -/
def ThumbInsn.halves : ThumbInsn → ℕ
  | .narrow _ => 1
  | .wide _ _ => 2

section Stream

variable (ws : ℕ → Half)

/-- The instruction that begins at a halfword. -/
def insnAt (k : ℕ) : ThumbInsn :=
  if isThumb32 (ws k) then .wide (ws k) (ws (k + 1)) else .narrow (ws k)

/-- **The halfword where instruction `j` begins.** -/
def insnStart : ℕ → ℕ
  | 0 => 0
  | j + 1 => insnStart j + (insnAt ws (insnStart j)).halves

/-- **The number of instructions wholly inside the first `n` halfwords.** -/
def wholeInsns : ℕ → ℕ
  | 0 => 0
  | n + 1 =>
    if insnStart ws (wholeInsns n + 1) = n + 1 then wholeInsns n + 1 else wholeInsns n

/-- The number of instructions that begin inside them. -/
def begunInsns : ℕ → ℕ
  | 0 => 0
  | n + 1 => wholeInsns ws n + 1

end Stream

variable {ws : ℕ → Half} {j k n : ℕ}

theorem insnAt_wide (h : isThumb32 (ws k) = true) : insnAt ws k = .wide (ws k) (ws (k + 1)) :=
  if_pos h

theorem insnAt_narrow (h : isThumb32 (ws k) = false) : insnAt ws k = .narrow (ws k) := by
  unfold insnAt
  rw [h]
  exact if_neg Bool.false_ne_true

theorem ThumbInsn.halves_pos (x : ThumbInsn) : 0 < x.halves := by
  cases x <;> exact Nat.succ_pos _

theorem ThumbInsn.halves_le (x : ThumbInsn) : x.halves ≤ 2 := by
  cases x with
  | narrow w => exact Nat.le_succ 1
  | wide high low => exact Nat.le_refl 2

theorem insnStart_succ (j : ℕ) :
    insnStart ws (j + 1) = insnStart ws j + (insnAt ws (insnStart ws j)).halves := rfl

theorem insnStart_strictMono (ws : ℕ → Half) : StrictMono (insnStart ws) :=
  strictMono_nat_of_lt_succ (fun j =>
    Nat.lt_add_of_pos_right (ThumbInsn.halves_pos (insnAt ws (insnStart ws j))))

theorem insnStart_succ_le (ws : ℕ → Half) (j : ℕ) : insnStart ws (j + 1) ≤ insnStart ws j + 2 :=
  Nat.add_le_add_left (ThumbInsn.halves_le _) _

/-- **The instructions wholly inside** are those before the one that reaches
past the end. -/
theorem wholeInsns_spec (ws : ℕ → Half) (n : ℕ) :
    insnStart ws (wholeInsns ws n) ≤ n ∧ n < insnStart ws (wholeInsns ws n + 1) := by
  induction n with
  | zero => exact ⟨Nat.le_refl 0, insnStart_strictMono ws (Nat.lt_add_one 0)⟩
  | succ n ih =>
    obtain ⟨hle, hlt⟩ := ih
    rw [wholeInsns]
    split_ifs with h
    · refine ⟨h.le, ?_⟩
      rw [← h]
      exact insnStart_strictMono ws (Nat.lt_add_one _)
    · exact ⟨Nat.le_succ_of_le hle, lt_of_le_of_ne hlt (Ne.symm h)⟩

theorem wholeInsns_unique (hle : insnStart ws j ≤ n) (hlt : n < insnStart ws (j + 1)) :
    wholeInsns ws n = j := by
  obtain ⟨hle', hlt'⟩ := wholeInsns_spec ws n
  have h1 : wholeInsns ws n < j + 1 :=
    (insnStart_strictMono ws).lt_iff_lt.mp (lt_of_le_of_lt hle' hlt)
  have h2 : j < wholeInsns ws n + 1 :=
    (insnStart_strictMono ws).lt_iff_lt.mp (lt_of_le_of_lt hle hlt')
  omega

/-- An instruction begins inside exactly if it is one of the instructions
counted. -/
theorem lt_begunInsns_iff : j < begunInsns ws n ↔ insnStart ws j < n := by
  cases n with
  | zero => exact ⟨fun h => absurd h (Nat.not_lt_zero j), fun h => absurd h (Nat.not_lt_zero _)⟩
  | succ n =>
    obtain ⟨hle, hlt⟩ := wholeInsns_spec ws n
    constructor
    · intro h
      have hj : insnStart ws j ≤ insnStart ws (wholeInsns ws n) :=
        (insnStart_strictMono ws).monotone (Nat.le_of_lt_succ h)
      omega
    · intro h
      exact (insnStart_strictMono ws).lt_iff_lt.mp (lt_of_le_of_lt (Nat.le_of_lt_succ h) hlt)

/-- **Where the whole instructions end**: at the end, or one halfword before it
where a 32-bit instruction begins. -/
theorem insnStart_wholeInsns (ws : ℕ → Half) (n : ℕ) :
    (insnStart ws (wholeInsns ws n) = n ∧ begunInsns ws n = wholeInsns ws n)
      ∨ (insnStart ws (wholeInsns ws n) + 1 = n ∧ begunInsns ws n = wholeInsns ws n + 1
        ∧ isThumb32 (ws (insnStart ws (wholeInsns ws n))) = true) := by
  obtain ⟨hle, hlt⟩ := wholeInsns_spec ws n
  have hb : ∀ j, j < begunInsns ws n ↔ insnStart ws j < n := fun j => lt_begunInsns_iff
  rcases Nat.eq_or_lt_of_le hle with heq | hlt'
  · refine Or.inl ⟨heq, ?_⟩
    have h1 : ¬ wholeInsns ws n < begunInsns ws n := by
      rw [hb]
      omega
    have h2 : ∀ j, j < wholeInsns ws n → j < begunInsns ws n := by
      intro j hj
      rw [hb, ← heq]
      exact insnStart_strictMono ws hj
    by_contra hne
    exact absurd (h2 (begunInsns ws n) (by omega)) (lt_irrefl _)
  · have hstep := insnStart_succ_le ws (wholeInsns ws n)
    have h1 : wholeInsns ws n < begunInsns ws n := (hb _).mpr hlt'
    have h2 : ¬ wholeInsns ws n + 1 < begunInsns ws n := by
      rw [hb]
      omega
    refine Or.inr ⟨by omega, by omega, ?_⟩
    by_contra hn
    rw [Bool.not_eq_true] at hn
    rw [insnStart_succ, insnAt_narrow hn] at hlt
    exact absurd hlt (Nat.not_lt.mpr hlt')

end Arm
