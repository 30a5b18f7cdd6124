import Mathlib.Data.List.Basic

/-!
# Literals in generated code

A code generator writes instructions and literals into one buffer and notes
where the literals are. A later pass goes through the places it has noted and
replaces what is there. The buffer then is what the generator would have
written with other literals (`foldlM_patch`).

Words are of any type, and so is what a literal holds, with an encoding of it
in a fixed number of words.
-/

namespace LiteralPool

variable {α β : Type*}

/-- **How what a literal holds is written**: in a number of words, and so that
it can be read again. -/
structure Encoding (α β : Type*) where
  /-- The number of words. -/
  size : ℕ
  encode : β → List α
  decode : List α → β
  length_encode : ∀ v, (encode v).length = size
  decode_encode : ∀ v, decode (encode v) = v

/-- **What a generator writes**: some words, or a literal that it notes. -/
inductive Item (α β : Type*) where
  | code (ws : List α)
  | literal (v : β)

/-- Another literal. -/
def Item.map (g : β → β) : Item α β → Item α β
  | code ws => code ws
  | literal v => literal (g v)

namespace Encoding

variable (enc : Encoding α β)

/-- The words of an item. -/
def itemWords : Item α β → List α
  | .code ws => ws
  | .literal v => enc.encode v

/-- The words of a list of items. -/
def words (xs : List (Item α β)) : List α := xs.flatMap enc.itemWords

/-- Where the literals are, behind `off` words. -/
def positions (off : ℕ) : List (Item α β) → List ℕ
  | [] => []
  | .code ws :: xs => positions (off + ws.length) xs
  | .literal _ :: xs => off :: positions (off + enc.size) xs

/-- What the literal at a position holds. -/
def read (buf : List α) (i : ℕ) : β := enc.decode ((buf.drop i).take enc.size)

/-- The literal at a position is replaced. -/
def write (buf : List α) (i : ℕ) (v : β) : List α :=
  buf.take i ++ (enc.encode v ++ buf.drop (i + enc.size))

/-- **What a pass does at a position**, if it can. -/
def patch (f : β → Option β) (buf : List α) (i : ℕ) : Option (List α) :=
  (f (enc.read buf i)).map (enc.write buf i)

section Lemmas

variable {xs ys : List (Item α β)} {off : ℕ}

theorem words_append : enc.words (xs ++ ys) = enc.words xs ++ enc.words ys := List.flatMap_append

/-- The number of words does not depend on the literals. -/
theorem length_words_map (g : β → β) :
    (enc.words (xs.map (Item.map g))).length = (enc.words xs).length := by
  induction xs with
  | nil => rfl
  | cons x xs ih =>
    rw [List.map_cons, words, words, List.flatMap_cons, List.flatMap_cons, List.length_append,
      List.length_append]
    refine congrArg₂ _ ?_ ih
    cases x with
    | code ws => rfl
    | literal v => exact (enc.length_encode _).trans (enc.length_encode v).symm

theorem positions_append :
    enc.positions off (xs ++ ys)
      = enc.positions off xs ++ enc.positions (off + (enc.words xs).length) ys := by
  induction xs generalizing off with
  | nil => rfl
  | cons x xs ih =>
    rw [words, List.flatMap_cons, List.length_append, ← Nat.add_assoc]
    cases x with
    | code ws => exact ih
    | literal v => exact congrArg _ (ih.trans (by rw [itemWords, enc.length_encode]; rfl))

/-- The literals are where there are words. -/
theorem positions_le {i : ℕ} (h : i ∈ enc.positions off xs) :
    i ≤ off + (enc.words xs).length := by
  induction xs generalizing off with
  | nil => exact absurd h List.not_mem_nil
  | cons x xs ih =>
    rw [words, List.flatMap_cons, List.length_append, ← Nat.add_assoc]
    cases x with
    | code ws => exact ih h
    | literal v =>
      rw [itemWords, enc.length_encode]
      rcases List.mem_cons.mp h with rfl | h
      · omega
      · exact ih h

/-- A literal is read where it is. -/
theorem read_append (pre rest : List α) (v : β) :
    enc.read (pre ++ (enc.encode v ++ rest)) pre.length = v := by
  rw [read, List.drop_left, ← enc.length_encode v, List.take_left, enc.decode_encode]

/-- A literal is replaced where it is. -/
theorem write_append (pre rest : List α) (v v' : β) :
    enc.write (pre ++ (enc.encode v ++ rest)) pre.length v' = pre ++ (enc.encode v' ++ rest) := by
  rw [write, List.take_left, ← List.drop_drop, List.drop_left, ← enc.length_encode v,
    List.drop_left]

/-- **A pass over the literals** of some code, if it can do something for each of
them. -/
theorem foldlM_patch {f : β → Option β} {g : β → β} (pre : List α)
    (hf : ∀ v, Item.literal v ∈ xs → f v = some (g v)) :
    (enc.positions pre.length xs).foldlM (enc.patch f) (pre ++ enc.words xs)
      = some (pre ++ enc.words (xs.map (Item.map g))) := by
  induction xs generalizing pre with
  | nil => rfl
  | cons x xs ih =>
    have hrest := fun v hv => hf v (List.mem_cons_of_mem x hv)
    rw [List.map_cons, words, words, List.flatMap_cons, List.flatMap_cons]
    cases x with
    | code ws =>
      have h := ih (pre ++ ws) hrest
      rw [List.length_append, List.append_assoc, List.append_assoc] at h
      exact h
    | literal v =>
      have h := ih (pre ++ enc.encode (g v)) hrest
      rw [List.length_append, enc.length_encode, List.append_assoc, List.append_assoc] at h
      show (enc.patch f (pre ++ (enc.encode v ++ enc.words xs)) pre.length).bind _ = _
      rw [patch, read_append, hf v List.mem_cons_self, Option.map_some, write_append,
        Option.bind_some]
      exact h

end Lemmas

end Encoding

end LiteralPool
