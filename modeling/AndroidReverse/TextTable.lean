import Mathlib.Data.List.AList
import Mathlib.Data.List.Infix
import Mathlib.Data.List.TakeWhile

/-!
# Tables in a text

A text that is read the way C programs read one: into a buffer of bounded size,
up to the next end of a line (`buffers`), then field by field, a field being
what stands between separators (`token`); a word without separators is found
inside a field or not at all (`infix_append_cons_iff`). The table that comes out of it has an
entry for each key, and a record whose key is there already is ignored
(`insertFirst`), so that a key has the value of the first record that has it.
-/

namespace TextTable

variable {α ι κ ν : Type*}

/-! ## Lines -/

section Lines

variable [DecidableEq α]

/-- **The buffers that hold a text** in turn: each ends with an end of a line,
or has `size` characters, or is the last. The characters `acc` are in the
current one already. -/
def buffers (nl : α) (size : ℕ) (acc : List α) : List α → List (List α)
  | [] => if acc = [] then [] else [acc]
  | x :: s =>
    if x = nl ∨ size ≤ acc.length + 1 then (acc ++ [x]) :: buffers nl size [] s
    else buffers nl size (acc ++ [x]) s

variable {nl : α} {size : ℕ} {body rest acc : List α}

/-- Characters that do not fill the buffer. -/
theorem buffers_append (hnl : nl ∉ body) (hlen : acc.length + body.length < size) :
    buffers nl size acc (body ++ rest) = buffers nl size (acc ++ body) rest := by
  induction body generalizing acc with
  | nil => rw [List.nil_append, List.append_nil]
  | cons x body ih =>
    rw [List.mem_cons, not_or] at hnl
    rw [List.length_cons] at hlen
    rw [List.cons_append, buffers, if_neg (by
      rintro (h | h)
      · exact hnl.1 h.symm
      · omega), ih hnl.2 (by rw [List.length_append, List.length_singleton]; omega),
      List.append_assoc, List.singleton_append]

/-- **A line that fits** is in one buffer. -/
theorem buffers_line (hnl : nl ∉ body) (hlen : body.length < size) :
    buffers nl size [] (body ++ nl :: rest) = (body ++ [nl]) :: buffers nl size [] rest := by
  rw [buffers_append hnl (by simpa using hlen), List.nil_append, buffers, if_pos (.inl rfl)]

/-- **A line that just fits** leaves its end to the next buffer. -/
theorem buffers_line_full (hnl : nl ∉ body) (hlen : body.length = size) (hsize : 0 < size) :
    buffers nl size [] (body ++ nl :: rest) = body :: [nl] :: buffers nl size [] rest := by
  obtain ⟨front, x, rfl⟩ := (List.eq_nil_or_concat body).resolve_left
    (by rintro rfl; rw [List.length_nil] at hlen; omega)
  rw [List.concat_eq_append, List.length_append, List.length_singleton] at hlen
  rw [List.concat_eq_append, List.mem_append, not_or] at hnl
  rw [List.concat_eq_append, List.append_assoc, List.singleton_append,
    buffers_append hnl.1 (by rw [List.length_nil]; omega), List.nil_append, buffers,
    if_pos (.inr (by omega)), buffers, if_pos (.inl rfl), List.nil_append]

end Lines

/-! ## Fields -/

/-- **The first field of a text** and what stands behind the separator that
ends it, as `strtok_r` gives them. -/
def token (sep : α → Bool) (s : List α) : Option (List α) × List α :=
  match s.dropWhile sep with
  | [] => (none, [])
  | x :: s => (some ((x :: s).takeWhile (!sep ·)), ((x :: s).dropWhile (!sep ·)).tail)

/-- Characters that make up a field. -/
structure IsField (sep : α → Bool) (field : List α) : Prop where
  /-- There are some. -/
  ne_nil : field ≠ []
  /-- None of them separates. -/
  not_sep : ∀ x ∈ field, sep x = false

section Fields

variable {sep : α → Bool} {x : α} {field gap s : List α}

/-- Separators in front of a field. -/
theorem token_append (hgap : ∀ y ∈ gap, sep y = true) : token sep (gap ++ s) = token sep s := by
  rw [token, token, List.dropWhile_append_of_pos hgap]

/-- There is no field among separators. -/
theorem token_blank (hgap : ∀ y ∈ gap, sep y = true) : token sep gap = (none, []) := by
  rw [token, List.dropWhile_eq_nil_iff.mpr hgap]

/-- A text that begins with a field. -/
theorem token_cons (hx : sep x = false) :
    token sep (x :: s) = (some ((x :: s).takeWhile (!sep ·)),
        ((x :: s).dropWhile (!sep ·)).tail) := by
  rw [token, List.dropWhile_cons_of_neg (by rw [hx]; exact Bool.false_ne_true)]

/-- **A field and a separator.** -/
theorem token_field (hf : IsField sep field) (hx : sep x = true) :
    token sep (field ++ x :: s) = (some field, s) := by
  have hkeep : ∀ y ∈ field, (!sep y) = true := fun y hy => by rw [hf.not_sep y hy]; rfl
  have hstop : ¬ (!sep x) = true := by rw [hx]; exact Bool.false_ne_true
  obtain ⟨y, field, rfl⟩ := List.exists_cons_of_ne_nil hf.ne_nil
  rw [List.cons_append, token_cons (hf.not_sep y List.mem_cons_self), ← List.cons_append,
    List.takeWhile_append_of_pos hkeep, List.dropWhile_append_of_pos hkeep,
    List.takeWhile_cons_of_neg (p := (!sep ·)) hstop,
    List.dropWhile_cons_of_neg (p := (!sep ·)) hstop, List.append_nil,
    List.tail_cons]

/-- **A text of several fields**, the first of which is asked for: it ends in
the text, or with it. -/
theorem token_takeWhile (hs : s ≠ []) (hhead : ∀ x ∈ s.head?, sep x = false) {rest : List α}
    (hrest : ∀ x ∈ rest.head?, sep x = true) :
    (token sep (s ++ rest)).1 = some (s.takeWhile (!sep ·)) := by
  have hstop : rest.takeWhile (!sep ·) = [] := by
    cases rest with
    | nil => rfl
    | cons x rest =>
      rw [List.takeWhile_cons_of_neg]
      rw [hrest x rfl]
      exact Bool.false_ne_true
  obtain ⟨x, s', rfl⟩ := List.exists_cons_of_ne_nil hs
  rw [List.cons_append, token_cons (hhead x rfl), ← List.cons_append, List.takeWhile_append, hstop,
    List.append_nil]
  split
  · next h => rw [(List.takeWhile_prefix _).eq_of_length h]
  · rfl

end Fields

/-! ## Words -/

section Words

variable {p s t : List α} {x : α}

/-- A word that begins in front of a separator ends there. -/
theorem prefix_of_prefix_append_cons (hx : x ∉ p) (h : p <+: s ++ x :: t) : p <+: s := by
  rcases List.prefix_or_prefix_of_prefix h (List.prefix_append s (x :: t)) with hp | ⟨u, rfl⟩
  · exact hp
  cases u with
  | nil => rw [List.append_nil]
  | cons y u =>
    have hhead := List.prefix_cons_iff.mp ((List.prefix_append_right_inj s).mp h)
    obtain ⟨v, hv, -⟩ := hhead.resolve_left (List.cons_ne_nil y u)
    rw [List.cons.injEq] at hv
    exact absurd (List.mem_append_right s (hv.1 ▸ List.mem_cons_self)) hx

/-- **A word is on one side of a separator** that is not in it. -/
theorem infix_append_cons_iff (hx : x ∉ p) : p <:+: s ++ x :: t ↔ p <:+: s ∨ p <:+: t := by
  constructor
  · intro h
    induction s with
    | nil =>
      rcases List.infix_cons_iff.mp h with hp | ht
      · exact Or.inl (prefix_of_prefix_append_cons hx hp).isInfix
      · exact Or.inr ht
    | cons y s ih =>
      rcases List.infix_cons_iff.mp h with hp | hs
      · exact Or.inl (prefix_of_prefix_append_cons (s := y :: s) hx hp).isInfix
      · exact (ih hs).imp List.infix_cons id
  · rintro (hs | ht)
    · exact hs.trans List.infix_append_left
    · exact (List.infix_cons ht).trans List.infix_append_right

end Words
/-! ## Entries -/

section Entries

variable [DecidableEq κ]

/-- **A record enters the table** if it has a key and the key is new. -/
def insertFirst (key : ι → Option κ) (value : ι → ν) (m : AList fun _ : κ => ν) (i : ι) :
    AList fun _ : κ => ν :=
  match key i with
  | none => m
  | some k => if k ∈ m then m else m.insert k (value i)

variable {key : ι → Option κ} {value : ι → ν}

theorem lookup_insertFirst (m : AList fun _ : κ => ν) (i : ι) (k : κ) :
    (insertFirst key value m i).lookup k
      = (m.lookup k).or (if key i = some k then some (value i) else none) := by
  unfold insertFirst
  cases hi : key i with
  | none => rw [if_neg (Option.some_ne_none k).symm, Option.or_none]
  | some k' =>
    simp only [Option.some_inj]
    by_cases hk : k' = k
    · subst hk
      rw [if_pos rfl]
      by_cases hm : k' ∈ m
      · obtain ⟨v, hv⟩ := Option.isSome_iff_exists.mp (AList.lookup_isSome.mpr hm)
        rw [if_pos hm, hv, Option.some_or]
      · rw [if_neg hm, AList.lookup_insert, AList.lookup_eq_none.mpr hm, Option.none_or]
    · rw [if_neg hk, Option.or_none]
      by_cases hm : k' ∈ m
      · rw [if_pos hm]
      · rw [if_neg hm, AList.lookup_insert_ne (Ne.symm hk)]

/-- **A key has the value of the first record that has it.** -/
theorem lookup_foldl (l : List ι) (m : AList fun _ : κ => ν) (k : κ) :
    (l.foldl (insertFirst key value) m).lookup k
      = (m.lookup k).or ((l.find? fun i => key i = some k).map value) := by
  induction l generalizing m with
  | nil => exact (Option.or_none).symm
  | cons i l ih =>
    rw [List.foldl_cons, ih, lookup_insertFirst, Option.or_assoc, List.find?_cons]
    by_cases hi : key i = some k
    · rw [if_pos hi, decide_eq_true hi, Option.some_or]
      rfl
    · rw [if_neg hi, decide_eq_false hi, Option.none_or]

end Entries

end TextTable
