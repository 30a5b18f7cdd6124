import Mathlib.Data.List.Basic
import Mathlib.Order.Basic

/-!
# Stacks in a growing array

A stack of which the bottom is in slot 0 of an array. The array has room for
`capacity` elements and `size` of them are there; what the slots from `size` on
hold means nothing. A push into a full array moves to one of double the size,
where the slots behind the old ones hold anything.

That the elements fit, and that there is always some room, are fields of the
structure. `elements` is what the stack holds, and on it `push` appends
(`elements_push`) and `pop` takes away the last (`pop_of_elements`), whether or
not the array grew in between.

Where the order means nothing, an element can be taken out anywhere: the last
one moves into its place (`swapRemove_perm`).
-/

/-- **A stack in an array**, with its invariants. -/
structure GrowableStack (α : Type*) where
  /-- The array. -/
  slots : List α
  /-- How many elements there are. -/
  size : ℕ
  /-- How many there is room for. -/
  capacity : ℕ
  length_slots : slots.length = capacity
  capacity_pos : 0 < capacity
  size_le : size ≤ capacity
deriving DecidableEq

namespace GrowableStack

variable {α : Type*}

theorem length_fresh (capacity : ℕ) (fresh : ℕ → α) :
    ((List.range capacity).map fresh).length = capacity :=
  (List.length_map fresh).trans List.length_range

/-- An empty stack in a new array, of which the slots hold anything. -/
def empty (capacity : ℕ) (h : 0 < capacity) (fresh : ℕ → α) : GrowableStack α where
  slots := (List.range capacity).map fresh
  size := 0
  capacity := capacity
  length_slots := length_fresh capacity fresh
  capacity_pos := h
  size_le := Nat.zero_le _

/-- What the stack holds, from the bottom to the top. -/
def elements (s : GrowableStack α) : List α := s.slots.take s.size

theorem length_grow (s : GrowableStack α) (fresh : ℕ → α) :
    (s.slots ++ (List.range s.capacity).map fresh).length = s.capacity * 2 := by
  rw [List.length_append, length_fresh, s.length_slots, Nat.mul_two]

theorem capacity_lt_double (s : GrowableStack α) : s.capacity < s.capacity * 2 :=
  (Nat.lt_mul_iff_one_lt_right s.capacity_pos).mpr Nat.one_lt_two

/-- The move to an array of double the size: `realloc` keeps the old slots, and
the new ones hold anything. -/
def grow (s : GrowableStack α) (fresh : ℕ → α) : GrowableStack α where
  slots := s.slots ++ (List.range s.capacity).map fresh
  size := s.size
  capacity := s.capacity * 2
  length_slots := s.length_grow fresh
  capacity_pos := Nat.lt_trans s.capacity_pos s.capacity_lt_double
  size_le := Nat.le_trans s.size_le (Nat.le_of_lt s.capacity_lt_double)

theorem length_store (s : GrowableStack α) (x : α) : (s.slots.set s.size x).length = s.capacity :=
  List.length_set.trans s.length_slots

/-- Writing the slot at the top. -/
def store (s : GrowableStack α) (x : α) (h : s.size < s.capacity) : GrowableStack α where
  slots := s.slots.set s.size x
  size := s.size + 1
  capacity := s.capacity
  length_slots := s.length_store x
  capacity_pos := s.capacity_pos
  size_le := h

theorem lt_capacity_grow (s : GrowableStack α) (fresh : ℕ → α) :
    (s.grow fresh).size < (s.grow fresh).capacity :=
  Nat.lt_of_le_of_lt s.size_le s.capacity_lt_double

/-- Pushing an element; the array grows if it is full. -/
def push (s : GrowableStack α) (fresh : ℕ → α) (x : α) : GrowableStack α :=
  if h : s.size < s.capacity then s.store x h
  else (s.grow fresh).store x (s.lt_capacity_grow fresh)

theorem pred_size_le (s : GrowableStack α) : s.size - 1 ≤ s.capacity :=
  Nat.le_trans (Nat.sub_le _ _) s.size_le

/-- Popping an element. -/
def pop (s : GrowableStack α) : Option (α × GrowableStack α) :=
  match s.slots[s.size - 1]? with
  | none => none
  | some x =>
    if s.size = 0 then none
    else some (x, { s with size := s.size - 1, size_le := s.pred_size_le })

variable {s : GrowableStack α} {fresh : ℕ → α} {x : α} {l : List α}

theorem length_elements (s : GrowableStack α) : s.elements.length = s.size := by
  rw [elements, List.length_take, s.length_slots]
  exact Nat.min_eq_left s.size_le

theorem elements_empty {capacity : ℕ} (h : 0 < capacity) (fresh : ℕ → α) :
    (empty capacity h fresh).elements = [] :=
  List.take_zero

/-- **Growing** keeps the elements. -/
theorem elements_grow (s : GrowableStack α) (fresh : ℕ → α) :
    (s.grow fresh).elements = s.elements :=
  List.take_append_of_le_length (le_of_le_of_eq s.size_le s.length_slots.symm)

theorem elements_store (s : GrowableStack α) (x : α) (h : s.size < s.capacity) :
    (s.store x h).elements = s.elements ++ [x] := by
  have hlt : s.size < (s.slots.set s.size x).length :=
    lt_of_lt_of_eq h (s.length_store x).symm
  calc (s.slots.set s.size x).take (s.size + 1)
    _ = (s.slots.set s.size x).take s.size ++ [(s.slots.set s.size x)[s.size]] :=
      (List.take_append_getElem hlt).symm
    _ = s.slots.take s.size ++ [x] := by
      rw [List.getElem_set_self, List.take_set_of_le (Nat.le_refl _)]

/-- **Pushing** appends an element, whether or not the array is full. -/
theorem elements_push (s : GrowableStack α) (fresh : ℕ → α) (x : α) :
    (s.push fresh x).elements = s.elements ++ [x] := by
  unfold push
  split
  · exact elements_store s x _
  · rw [elements_store, elements_grow]

/-- **Popping** takes the last element away. -/
theorem pop_of_elements (h : s.elements = l ++ [x]) :
    ∃ s', s.pop = some (x, s') ∧ s'.elements = l := by
  have hsize : s.size = l.length + 1 := by
    rw [← s.length_elements, h, List.length_append, List.length_singleton]
  have htop : s.slots[s.size - 1]? = some x := by
    have hget : s.elements[l.length]? = some x := by
      rw [h, List.getElem?_append_right (Nat.le_refl _), Nat.sub_self]
      rfl
    rwa [elements, List.getElem?_take_of_lt (hsize.symm ▸ Nat.lt_succ_self _),
      ← Nat.add_sub_cancel (n := l.length) (m := 1), ← hsize] at hget
  refine ⟨_, by rw [pop, htop]; exact if_neg (hsize.symm ▸ Nat.succ_ne_zero _), ?_⟩
  calc s.slots.take (s.size - 1)
    _ = (s.slots.take s.size).take (s.size - 1) := by
      rw [List.take_take, Nat.min_eq_left (Nat.sub_le _ _)]
    _ = (l ++ [x]).take l.length := by rw [← h, elements, hsize, Nat.add_sub_cancel]
    _ = l := List.take_left

/-! ## Removing out of order -/

section SwapRemove

variable [DecidableEq α]

theorem length_swapRemove (s : GrowableStack α) (x last : α) :
    ((s.elements.map fun y => if y = x then last else y) ++ s.slots.drop s.size).length
      = s.capacity := by
  rw [List.length_append, List.length_map, ← List.length_append, elements, List.take_append_drop]
  exact s.length_slots

/-- Removing an element: the last one is copied over it, and then dropped. -/
def swapRemove (s : GrowableStack α) (x last : α) : GrowableStack α where
  slots := (s.elements.map fun y => if y = x then last else y) ++ s.slots.drop s.size
  size := s.size - 1
  capacity := s.capacity
  length_slots := s.length_swapRemove x last
  capacity_pos := s.capacity_pos
  size_le := s.pred_size_le

theorem elements_swapRemove (s : GrowableStack α) (x last : α) :
    (s.swapRemove x last).elements
      = (s.elements.map fun y => if y = x then last else y).dropLast := by
  have hlen : (s.elements.map fun y => if y = x then last else y).length = s.size := by
    rw [List.length_map, s.length_elements]
  rw [List.dropLast_eq_take, hlen]
  exact List.take_append_of_le_length (le_of_le_of_eq (Nat.sub_le _ _) hlen.symm)

theorem map_replace_of_notMem {last : α} (h : x ∉ l) :
    (l.map fun y => if y = x then last else y) = l := by
  have hid : ∀ y ∈ l, (if y = x then last else y) = id y :=
    fun y hy => if_neg (fun hxy => h (Eq.mp (congrArg (· ∈ l) hxy) hy))
  rw [List.map_congr_left hid, List.map_id]

/-- **Only that element is removed**, and the others stay in some order. -/
theorem swapRemove_perm {last : α} (hnodup : s.elements.Nodup)
    (hlast : s.elements.getLast? = some last) (hx : x ∈ s.elements) :
    (s.swapRemove x last).elements.Perm (s.elements.erase x) := by
  obtain ⟨l, hl⟩ := List.getLast?_eq_some_iff.mp hlast
  rw [elements_swapRemove]
  rw [hl] at hnodup hx ⊢
  obtain ⟨hinit, -, hdisj⟩ := List.nodup_append.mp hnodup
  have hnot : last ∉ l := fun h => hdisj _ h _ List.mem_cons_self rfl
  rw [List.map_append, List.map_singleton, List.dropLast_concat]
  by_cases hxl : x = last
  · subst hxl
    rw [map_replace_of_notMem hnot, List.erase_append_right _ hnot, List.erase_cons_head,
      List.append_nil]
  · have hmem : x ∈ l :=
      (List.mem_append.mp hx).resolve_right (fun h => hxl (List.mem_singleton.mp h))
    obtain ⟨pre, post, rfl⟩ := List.append_of_mem hmem
    have hother : x ∉ pre ++ post := (List.nodup_cons.mp (List.perm_middle.nodup_iff.mp hinit)).1
    have hpre : x ∉ pre := fun h => hother (List.mem_append_left _ h)
    have hpost : x ∉ post := fun h => hother (List.mem_append_right _ h)
    rw [List.map_append, List.map_cons, if_pos rfl, map_replace_of_notMem hpre,
      map_replace_of_notMem hpost, List.erase_append_left _ hmem, List.erase_append_right _ hpre,
      List.erase_cons_head]
    exact List.perm_middle.trans (List.perm_append_singleton last (pre ++ post)).symm

end SwapRemove

end GrowableStack
