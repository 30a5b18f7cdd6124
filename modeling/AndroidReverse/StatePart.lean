import Mathlib.Data.List.Induction

/-!
# A part of a state

A part of a state is what can be read from it and replaced in it: the content of a
window of a memory, the registers of a thread, a field of a record. The laws are the
three of such a pair. What was put is what is read; putting back what was read changes
nothing; and of two contents put one after the other only the second one stays.

Whatever is done to a part, putting back what was in it undoes it (`put_get_of_put`).
Any number of replacements are the last of them (`foldl_put`), so a tool that only
switches a part between two contents leaves one of two states behind, however often it
was called and in which order.
-/

/-- **A part of a state**, with the laws of reading it and replacing it. -/
structure StatePart (σ γ : Type*) where
  get : σ → γ
  put : γ → σ → σ
  get_put : ∀ c s, get (put c s) = c
  put_get : ∀ s, put (get s) s = s
  put_put : ∀ c d s, put d (put c s) = put d s

namespace StatePart

variable {σ γ : Type*} (p : StatePart σ γ)

/-- **Putting back what was there** undoes a replacement. -/
theorem put_get_of_put (c : γ) (s : σ) : p.put (p.get s) (p.put c s) = s := by
  rw [p.put_put, p.put_get]

/-- **Of any number of replacements the last one stays.** -/
theorem foldl_put (cs : List γ) (s : σ) :
    cs.foldl (fun s c => p.put c s) s = (cs.getLast?.map (fun c => p.put c s)).getD s := by
  induction cs using List.reverseRecOn with
  | nil => rfl
  | append_singleton cs c ih =>
    rw [List.foldl_append, List.foldl_cons, List.foldl_nil, ih, List.getLast?_concat]
    cases cs.getLast? with
    | none => rfl
    | some d => exact p.put_put d c s

/-- **A part that is switched** between what it held at first and another content `c`,
and holds `c` to begin with. After any number of moves the state is the first one or
the one with `c`, by the last move. -/
theorem foldl_switch (c : γ) (s : σ) (moves : List Bool) :
    moves.foldl (fun t on => p.put (if on then c else p.get s) t) (p.put c s)
      = if moves.getLast?.getD true then p.put c s else s := by
  have hmap : moves.foldl (fun t on => p.put (if on then c else p.get s) t) (p.put c s)
      = (moves.map (fun on => if on then c else p.get s)).foldl (fun t d => p.put d t)
          (p.put c s) := by
    rw [List.foldl_map]
  rw [hmap, foldl_put, List.getLast?_map]
  cases moves.getLast? with
  | none => rfl
  | some on =>
    cases on with
    | true => exact p.put_put c c s
    | false => exact p.put_get_of_put c s

end StatePart
