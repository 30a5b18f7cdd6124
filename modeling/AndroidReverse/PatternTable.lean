import AndroidReverse.ArmDecode

/-!
# Tables of patterns

A table that gives each word the value of the first pattern it matches, a pattern being
a mask and what the word is under it. Decoders and classifiers are such tables, and the
question about two of them is where they agree.

It can be answered without going through the words. `lookupUnder` reads a table of a word
of which only this is known: that it matches one pattern and none of some others. Where
that is enough to find the row, every such word has the row's value (`lookup_of_under`).
So a table agrees with another one, but for the words of some patterns, if it can be
checked for each of its rows (`lookup_of_agrees`), and disagrees on a pattern if the two
values can be read off (`lookup_of_disagrees`); `lookup_agree_iff` puts the two together.
-/

namespace PatternTable

open Arm

/-- **A pattern**: the bits that are fixed and what they are. -/
structure Pattern (n : ℕ) where
  mask : BitVec n
  value : BitVec n
  deriving DecidableEq

variable {n : ℕ} {α β : Type*}

/-- A bit that is set where a condition holds. -/
theorem getLsbD_or_bit (w : BitVec n) (j : ℕ) (c : Prop) [Decidable c] {i : ℕ} (hi : i < n) :
    (w ||| (if c then 1#n <<< j else 0#n)).getLsbD i
      = (w.getLsbD i || (decide (i = j) && decide c)) := by
  rw [BitVec.getLsbD_or]
  by_cases hc : c
  · rw [if_pos hc, decide_eq_true hc, ← BitVec.twoPow_eq, BitVec.getLsbD_twoPow]
    congr 1
    rw [Bool.and_true, Bool.eq_iff_iff, Bool.and_eq_true, decide_eq_true_iff, decide_eq_true_iff,
      decide_eq_true_iff]
    omega
  · rw [if_neg hc, decide_eq_false hc, BitVec.getLsbD_zero, Bool.and_false]

namespace Pattern

/-- A word matches a pattern. -/
def Matches (p : Pattern n) (w : BitVec n) : Prop := w &&& p.mask = p.value

instance (p : Pattern n) (w : BitVec n) : Decidable (p.Matches w) :=
  inferInstanceAs (Decidable (_ = _))

/-- The pattern of the words that match both. -/
def inter (p q : Pattern n) : Pattern n := ⟨p.mask ||| q.mask, p.value ||| q.value⟩

/-- Whether a pattern fixes all the bits of another one, to the same values. -/
def implies (p q : Pattern n) : Bool :=
  p.mask &&& q.mask == q.mask && p.value &&& q.mask == q.value

/-- Whether two patterns fix a common bit to different values. -/
def excludes (p q : Pattern n) : Bool := p.value &&& q.mask != q.value &&& p.mask

variable {p q : Pattern n} {w : BitVec n}

theorem Matches.inter (hp : p.Matches w) (hq : q.Matches w) : (p.inter q).Matches w :=
  mask_union hp hq

theorem Matches.of_implies (hp : p.Matches w) (h : p.implies q = true) : q.Matches w := by
  obtain ⟨hm, hv⟩ := Bool.and_eq_true_iff.mp h
  exact (mask_trans q.mask hp (eq_of_beq hm)).trans (eq_of_beq hv)

theorem Matches.not_of_excludes (hp : p.Matches w) (h : p.excludes q = true) : ¬ q.Matches w :=
  mask_conflict hp (bne_iff_ne.mp h)

/-- **A pattern read bit by bit**: where its mask and its value come from a row of bits, some
of them left open, a word matches if it has those that are not. -/
theorem matches_iff_bits {b : ℕ → Option Bool}
    (hmask : ∀ i < n, p.mask.getLsbD i = (b i).isSome)
    (hvalue : ∀ i < n, p.value.getLsbD i = (b i).getD false) :
    p.Matches w ↔ ∀ i < n, ∀ x, b i = some x → w.getLsbD i = x := by
  have hbit : ∀ i < n, (w &&& p.mask).getLsbD i = p.value.getLsbD i
      ↔ ∀ x, b i = some x → w.getLsbD i = x := by
    intro i hi
    rw [BitVec.getLsbD_and, hmask i hi, hvalue i hi]
    cases b i with
    | none => simp
    | some x => simp
  constructor
  · intro h i hi
    exact (hbit i hi).mp (congrArg (BitVec.getLsbD · i) h)
  · intro h
    exact BitVec.eq_of_getLsbD_eq fun i hi => (hbit i hi).mpr (h i hi)

end Pattern

/-! ## Reading a table -/

/-- **The value of the first pattern that matches**, or the default. -/
def lookup (d : α) : List (Pattern n × α) → BitVec n → α
  | [], _ => d
  | (p, a) :: rows, w => if p.Matches w then a else lookup d rows w

/-- A word that a table gives another value than the default matches a row with it. -/
theorem exists_of_lookup_ne {d : α} {rows : List (Pattern n × α)} {w : BitVec n}
    (h : lookup d rows w ≠ d) : ∃ r ∈ rows, r.1.Matches w ∧ lookup d rows w = r.2 := by
  induction rows with
  | nil => exact absurd rfl h
  | cons r rows ih =>
    rw [lookup] at h ⊢
    by_cases hr : r.1.Matches w
    · exact ⟨r, List.mem_cons_self, hr, if_pos hr⟩
    · rw [if_neg hr] at h ⊢
      obtain ⟨r', hr', hm⟩ := ih h
      exact ⟨r', List.mem_cons_of_mem r hr', hm⟩

/-- A word that a table gives the default matches no row with another value. -/
theorem not_matches_of_lookup_eq {d : α} {rows : List (Pattern n × α)} {w : BitVec n}
    (h : lookup d rows w = d) {r : Pattern n × α} (hr : r ∈ rows) (hd : ∀ r ∈ rows, r.2 ≠ d) :
    ¬ r.1.Matches w := by
  induction rows with
  | nil => exact absurd hr List.not_mem_nil
  | cons s rows ih =>
    obtain ⟨hs, hd⟩ := List.forall_mem_cons.mp hd
    rw [lookup] at h
    by_cases hm : s.1.Matches w
    · rw [if_pos hm] at h
      exact absurd h hs
    · rw [if_neg hm] at h
      rcases List.mem_cons.mp hr with rfl | hr
      · exact hm
      · exact ih h hr hd

/-- Read a table of a word that matches `known` and none of `ruledOut`. Where this does
not say whether a row matches, the value must be the same either way. -/
def lookupUnder [DecidableEq α] (d : α) (known : Pattern n) (ruledOut : List (Pattern n)) :
    List (Pattern n × α) → Option α
  | [] => some d
  | (p, a) :: rows =>
    if known.implies p then some a
    else
      let rest := lookupUnder d known ruledOut rows
      if known.excludes p || ruledOut.any (fun q => (known.inter p).implies q) then rest
      else if rest = some a then rest
      else none

variable {d : α} {rows : List (Pattern n × α)} {w : BitVec n}

/-- **What is read of a part of a word is what is read of the word.** -/
theorem lookup_of_under [DecidableEq α] {known : Pattern n} {ruledOut : List (Pattern n)} {a : α}
    (hw : known.Matches w) (hout : ∀ q ∈ ruledOut, ¬ q.Matches w)
    (h : lookupUnder d known ruledOut rows = some a) : lookup d rows w = a := by
  induction rows with
  | nil => exact Option.some.inj h
  | cons r rows ih =>
    obtain ⟨p, b⟩ := r
    rw [lookupUnder] at h
    dsimp only at h
    rw [lookup]
    by_cases hp : known.implies p = true
    · rw [if_pos hp] at h
      rw [if_pos (hw.of_implies hp), Option.some.inj h]
    · rw [if_neg hp] at h
      by_cases hskip : (known.excludes p
          || ruledOut.any (fun q => (known.inter p).implies q)) = true
      · rw [if_pos hskip] at h
        have hnot : ¬ p.Matches w := by
          rcases Bool.or_eq_true_iff.mp hskip with hx | hx
          · exact hw.not_of_excludes hx
          · obtain ⟨q, hq, himp⟩ := List.any_eq_true.mp hx
            exact fun hm => hout q hq ((hw.inter hm).of_implies himp)
        rw [if_neg hnot]
        exact ih h
      · rw [if_neg hskip] at h
        by_cases hrest : lookupUnder d known ruledOut rows = some b
        · rw [if_pos hrest] at h
          have hab : b = a := Option.some.inj (hrest.symm.trans h)
          rw [ih h, hab, ite_self]
        · rw [if_neg hrest] at h
          cases h

/-! ## Two tables -/

section Two

variable [DecidableEq β] {e : β} {rows' : List (Pattern n × β)}

/-- Whether each row of a table agrees with another table, read of the words that come
to the row: those that match no row before it and none of `out`. -/
def agrees (f : α → β) (e : β) (rows' : List (Pattern n × β)) :
    (out : List (Pattern n)) → List (Pattern n × α) → Bool
  | _, [] => true
  | out, (p, a) :: rows =>
    decide (lookupUnder e p out rows' = some (f a)) && agrees f e rows' (p :: out) rows

/-- **Two tables agree** on a word, up to the default of the first one, if the rows of
the first one do. -/
theorem lookup_of_agrees {f : α → β} {out : List (Pattern n)}
    (h : agrees f e rows' out rows = true) (hw : ∀ q ∈ out, ¬ q.Matches w) :
    lookup d rows w = d ∨ lookup e rows' w = f (lookup d rows w) := by
  induction rows generalizing out with
  | nil => exact Or.inl rfl
  | cons r rows ih =>
    obtain ⟨p, a⟩ := r
    obtain ⟨hp, hrows⟩ := Bool.and_eq_true_iff.mp h
    rw [lookup]
    by_cases hm : p.Matches w
    · rw [if_pos hm]
      exact Or.inr (lookup_of_under hm hw (of_decide_eq_true hp))
    · rw [if_neg hm]
      exact ih hrows (List.forall_mem_cons.mpr ⟨hm, hw⟩)

/-- Whether two tables have different values on a pattern, and the first one not its
default. -/
def disagrees [DecidableEq α] (f : α → β) (d : α) (e : β) (rows : List (Pattern n × α))
    (rows' : List (Pattern n × β)) (q : Pattern n) : Bool :=
  match lookupUnder d q [] rows, lookupUnder e q [] rows' with
  | some a, some b => decide (a ≠ d ∧ b ≠ f a)
  | _, _ => false

/-- **Two tables disagree** on every word of a pattern on which they can be seen to. -/
theorem lookup_of_disagrees [DecidableEq α] {f : α → β} {q : Pattern n}
    (h : disagrees f d e rows rows' q = true) (hq : q.Matches w) :
    lookup d rows w ≠ d ∧ lookup e rows' w ≠ f (lookup d rows w) := by
  unfold disagrees at h
  cases ha : lookupUnder d q [] rows with
  | none =>
    rw [ha] at h
    cases h
  | some a =>
    cases hb : lookupUnder e q [] rows' with
    | none =>
      rw [ha, hb] at h
      cases h
    | some b =>
      rw [ha, hb] at h
      rw [lookup_of_under hq (List.forall_mem_nil _) ha,
        lookup_of_under hq (List.forall_mem_nil _) hb]
      exact of_decide_eq_true h

/-- **Two tables agree on a word exactly if** it has none of the patterns on which they
disagree, where they agree on all others. -/
theorem lookup_agree_iff [DecidableEq α] {f : α → β} {out : List (Pattern n)}
    (h : agrees f e rows' out rows = true)
    (hout : out.all (disagrees f d e rows rows') = true) :
    (lookup d rows w ≠ d → lookup e rows' w = f (lookup d rows w))
      ↔ ∀ q ∈ out, ¬ q.Matches w := by
  constructor
  · intro hs q hq hm
    obtain ⟨hne, hbad⟩ := lookup_of_disagrees (List.all_eq_true.mp hout q hq) hm
    exact hbad (hs hne)
  · intro hw hne
    exact (lookup_of_agrees h hw).resolve_left hne

end Two

end PatternTable
