import Mathlib.Data.Option.Basic
import Mathlib.Data.List.Basic
import Mathlib.Order.Nat

/-!
# Byte buffers with bounds

An allocated object of bytes: its length is the length of the allocation, and a byte that
was never written is `none`. Reading past the end, reading what was never written and
writing past the end give `none`, so a computation on buffers that gives `some` has stayed
inside them.

A buffer that begins with the bytes of a list is `ofBytes l ++ rest`; the lemmas say what
the operations do to buffers of that shape, and `Buffer.IsCString` says when a buffer
holds a string with its terminator.
-/

/-- **A buffer**: the bytes of an allocation, `none` where nothing was written. -/
abbrev Buffer : Type := List (Option UInt8)

namespace Buffer

/-- A buffer that holds exactly the bytes of a list. -/
def ofBytes (l : List UInt8) : Buffer := l.map some

/-- A new allocation of `n` bytes. -/
def malloc (n : ℕ) : Buffer := List.replicate n none

/-- The allocation resized to `n` bytes, its contents kept. -/
def realloc (b : Buffer) (n : ℕ) : Buffer := b.take n ++ List.replicate (n - b.length) none

/-- The byte at an index. -/
def read (b : Buffer) (i : ℕ) : Option UInt8 := b[i]?.join

/-- A byte written at an index. -/
def write (b : Buffer) (i : ℕ) (v : UInt8) : Option Buffer :=
  if i < b.length then some (b.set i (some v)) else none

/-- `n` bytes read from an index on. -/
def reads (b : Buffer) (i : ℕ) : ℕ → Option (List UInt8)
  | 0 => some []
  | n + 1 => do
    let c ← read b i
    let l ← reads b (i + 1) n
    return c :: l

/-- The bytes of a list written from an index on. -/
def writes (b : Buffer) (i : ℕ) : List UInt8 → Option Buffer
  | [] => some b
  | v :: l => do
    let b ← write b i v
    writes b (i + 1) l

/-- The length of the string at the start of a buffer: the index of its first zero byte. -/
def strlen : Buffer → Option ℕ
  | [] => none
  | none :: _ => none
  | some c :: b => if c = 0 then some 0 else (strlen b).map (· + 1)

/-- `memset(b + i, v, n)`. -/
def memset (b : Buffer) (i : ℕ) (v : UInt8) (n : ℕ) : Option Buffer :=
  writes b i (List.replicate n v)

/-- **The buffer holds the string `s`**: its bytes, none of them zero, and then a zero
byte, all inside the allocation. -/
def IsCString (b : Buffer) (s : List UInt8) : Prop :=
  (∀ c ∈ s, c ≠ 0) ∧ ∃ rest, b = ofBytes s ++ some 0 :: rest

@[simp] theorem length_ofBytes (l : List UInt8) : (ofBytes l).length = l.length := List.length_map _

@[simp] theorem ofBytes_append (l l' : List UInt8) :
    ofBytes (l ++ l') = ofBytes l ++ ofBytes l' := List.map_append

@[simp] theorem length_malloc (n : ℕ) : (malloc n).length = n := List.length_replicate

theorem ofBytes_injective : Function.Injective ofBytes :=
  List.map_injective_iff.mpr (Option.some_injective _)

/-! ## Reading -/

/-- The byte after the list a buffer begins with. -/
theorem read_append_cons (l : List UInt8) (c : UInt8) (rest : Buffer) :
    read (ofBytes l ++ some c :: rest) l.length = some c := by
  rw [read, List.getElem?_append_right (length_ofBytes l).le, length_ofBytes, Nat.sub_self]
  rfl

/-- The bytes in the middle of a buffer, read at once. -/
theorem reads_append (p : Buffer) (l : List UInt8) (rest : Buffer) :
    reads (p ++ ofBytes l ++ rest) p.length l.length = some l := by
  induction l generalizing p with
  | nil => rfl
  | cons c l ih =>
    have hc : read (p ++ ofBytes (c :: l) ++ rest) p.length = some c := by
      rw [read, List.append_assoc, List.getElem?_append_right le_rfl, Nat.sub_self]
      rfl
    have hl : reads (p ++ ofBytes (c :: l) ++ rest) (p.length + 1) l.length = some l := by
      have h := ih (p ++ [some c])
      rwa [List.length_append, List.append_assoc p] at h
    rw [List.length_cons, reads, hc, hl]
    rfl

/-! ## Writing -/

/-- A byte written in the middle of a buffer. -/
theorem write_append (p : Buffer) (o : Option UInt8) (rest : Buffer) (v : UInt8) :
    write (p ++ o :: rest) p.length v = some (p ++ some v :: rest) := by
  rw [write, if_pos (by rw [List.length_append, List.length_cons]; omega),
    List.set_append_right _ _ le_rfl, Nat.sub_self, List.set_cons_zero]

/-- Bytes written over as many in the middle of a buffer. -/
theorem writes_append (p q rest : Buffer) (l : List UInt8) (hq : q.length = l.length) :
    writes (p ++ q ++ rest) p.length l = some (p ++ ofBytes l ++ rest) := by
  induction l generalizing p q with
  | nil => rw [List.length_eq_zero_iff.mp hq]; rfl
  | cons v l ih =>
    obtain ⟨o, q, rfl⟩ := List.exists_cons_of_length_eq_add_one hq
    have hw : write (p ++ o :: q ++ rest) p.length v = some (p ++ [some v] ++ q ++ rest) := by
      rw [List.append_assoc, List.cons_append, write_append]
      simp
    have h := ih (p ++ [some v]) q (Nat.succ.inj hq)
    rw [List.length_append] at h
    rw [writes, hw]
    show writes (p ++ [some v] ++ q ++ rest) (p.length + [some v].length) l = _
    rw [h]
    simp [ofBytes]

/-- A buffer that grows keeps its bytes. -/
theorem realloc_add (b : Buffer) (k : ℕ) :
    realloc b (b.length + k) = b ++ List.replicate k none := by
  rw [realloc, List.take_of_length_le (Nat.le_add_right _ _), Nat.add_sub_cancel_left]

/-- `memset` over a part of a buffer. -/
theorem memset_append (p q rest : Buffer) (v : UInt8) :
    memset (p ++ q ++ rest) p.length v q.length
      = some (p ++ ofBytes (List.replicate q.length v) ++ rest) :=
  writes_append p q rest _ List.length_replicate.symm

/-- **Bytes appended**: the allocation grown by as many bytes as are then written to it. -/
theorem writes_realloc (l l' : List UInt8) :
    writes (realloc (ofBytes l) (l.length + l'.length)) l.length l' = some (ofBytes (l ++ l')) := by
  have h := writes_append (ofBytes l) (List.replicate l'.length none) [] l' List.length_replicate
  rw [length_ofBytes, List.append_nil, List.append_nil] at h
  have hr := realloc_add (ofBytes l) l'.length
  rw [length_ofBytes] at hr
  rw [hr, h, ofBytes_append]

/-! ## Strings -/

/-- The length of a string. -/
theorem strlen_eq {b : Buffer} {s : List UInt8} (h : IsCString b s) : strlen b = some s.length := by
  obtain ⟨hs, rest, rfl⟩ := h
  induction s with
  | nil => rfl
  | cons c s ih =>
    rw [List.forall_mem_cons] at hs
    show (if c = 0 then some 0 else (strlen (ofBytes s ++ some 0 :: rest)).map (· + 1)) = _
    rw [if_neg hs.1, ih hs.2]
    rfl

/-- A buffer holds one string. -/
theorem IsCString.unique {b : Buffer} {s t : List UInt8} (hs : IsCString b s) (ht : IsCString b t) :
    s = t := by
  have hlen : s.length = t.length :=
    Option.some.inj ((strlen_eq hs).symm.trans (strlen_eq ht))
  obtain ⟨-, rest, rfl⟩ := hs
  obtain ⟨-, rest', h⟩ := ht
  exact ofBytes_injective (List.append_inj_left h (by rw [length_ofBytes, length_ofBytes, hlen]))

/-- **A buffer filled with bytes none of which is zero holds no string.** -/
theorem strlen_ofBytes {l : List UInt8} (h : ∀ c ∈ l, c ≠ 0) : strlen (ofBytes l) = none := by
  induction l with
  | nil => rfl
  | cons c l ih =>
    rw [List.forall_mem_cons] at h
    show (if c = 0 then some 0 else (strlen (ofBytes l)).map (· + 1)) = _
    rw [if_neg h.1, ih h.2]
    rfl

end Buffer
