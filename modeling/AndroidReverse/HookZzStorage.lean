import AndroidReverse.HookZzStack

/-!
# The storage of a call

`ZzSetCallStackData` and `ZzGetCallStackData` keep values by string keys in a call stack, from
`pre_call` on to `post_call`. A set appends an item, with a copy of the key and a copy of the
value, to the growing array; a get searches the array from its front. So what a get finds is
the first value that was set, and the storage is a map (`mapAfter`) only as long as no later
set of a key means another value.

The blocks that `malloc` has handed out are kept by their addresses (`Storage.heap`). An
address that was in use is not handed out again, as nothing here is freed.
-/

namespace HookZz

open Arm

/-! ## `stack.c` -/

/-- A C string: bytes without a zero among them. -/
@[ext]
structure CString where
  chars : List Byte
  nul_free : 0#8 ∉ chars
deriving DecidableEq

/-- **A call stack and the heap** its items point into. -/
structure Storage where
  callstack : CallStack
  heap : Word → Option (List Byte)

/-- What `malloc` and `realloc` answer in a call of `ZzSetCallStackData`: the two blocks, and
what is in the new slots if the array is moved. -/
structure Allocations where
  keyTmp : Word
  valueTmp : Word
  slots : ℕ → CallStackItem

namespace Storage

/-- `!strcmp(p, key)`. -/
def strEq (s : Storage) (p : Word) (key : CString) : Bool :=
  (s.heap p).map (List.takeWhile (· ≠ 0#8)) = some key.chars

/-- `ZzGetCallStackData`. -/
def getCallStackData (s : Storage) (key : CString) : Word :=
  match s.callstack.elements.find? fun item => s.strEq item.key key with
  | some item => item.value
  | none => 0#32

/-- `ZzSetCallStackData`, with `ZzNewCallStackData`, where the allocations succeed. -/
def setCallStackData (s : Storage) (key : CString) (value : List Byte) (a : Allocations) :
    Storage where
  callstack :=
    { s.callstack with toGrowableStack := s.callstack.push a.slots ⟨a.keyTmp, a.valueTmp⟩ }
  heap := Function.update (Function.update s.heap a.keyTmp (some (key.chars ++ [0#8]))) a.valueTmp
    (some value)

/-- **The allocations of a set succeed**: two new blocks. -/
structure Succeeds (s : Storage) (a : Allocations) : Prop where
  key_ne : a.keyTmp ≠ 0#32
  value_ne : a.valueTmp ≠ 0#32
  apart : a.keyTmp ≠ a.valueTmp
  key_free : s.heap a.keyTmp = none
  value_free : s.heap a.valueTmp = none

/-- It has room for items. -/
theorem initialCapacity_pos : 0 < 4 := Nat.succ_pos 3

/-- A call stack as `ZzNewCallStack` makes it. -/
def new (heap : Word → Option (List Byte)) (items : ℕ → CallStackItem) : Storage where
  callstack :=
    { toGrowableStack := GrowableStack.empty 4 initialCapacity_pos items
      callId := 0
      threadstack := 0#32
      callerRetAddr := 0#32 }
  heap := heap

end Storage

/-! ## Sequences of calls -/

/-- A call of one of the two functions on the call stack. -/
inductive StorageCall where
  | set (key : CString) (value : List Byte) (a : Allocations)
  | get (key : CString)

namespace StorageCall

/-- What a call does to the storage. -/
def apply (s : Storage) : StorageCall → Storage
  | set key value a => s.setCallStackData key value a
  | get _ => s

/-- The storage after a sequence of calls. -/
def after (s : Storage) (calls : List StorageCall) : Storage := calls.foldl apply s

/-- In a sequence of calls all allocations succeed. -/
def AllSucceed : Storage → List StorageCall → Prop
  | _, [] => True
  | s, set key value a :: calls => s.Succeeds a ∧ AllSucceed (s.setCallStackData key value a) calls
  | s, get _ :: calls => AllSucceed s calls

/-- **What the storage is for**: what a call does to a map from keys to values. -/
def applyMap (m : CString → Option (List Byte)) : StorageCall → CString → Option (List Byte)
  | set key value _ => Function.update m key (some value)
  | get _ => m

/-- The map after a sequence of calls. -/
def mapAfter (calls : List StorageCall) : CString → Option (List Byte) :=
  calls.foldl applyMap fun _ => none

/-- The keys and values that are set, in order. -/
def sets (calls : List StorageCall) : List (CString × List Byte) :=
  calls.filterMap fun
    | set key value _ => some (key, value)
    | get _ => none

end StorageCall

namespace Storage

variable {s : Storage} {key : CString} {value : List Byte} {a : Allocations}
    {o o' : Option (List Byte)}

/-- **A get returns** a pointer to a copy of the value, or `NULL` if there is none. -/
def Returns (s : Storage) (key : CString) : Option (List Byte) → Prop
  | some value => s.getCallStackData key ≠ 0#32 ∧ s.heap (s.getCallStackData key) = some value
  | none => s.getCallStackData key = 0#32

theorem Returns.unique (h : s.Returns key o) (h' : s.Returns key o') : o = o' := by
  cases o with
  | none =>
    cases o' with
    | none => rfl
    | some value => exact absurd h h'.1
  | some value =>
    cases o' with
    | none => exact absurd h' h.1
    | some value' => exact h.2.symm.trans h'.2

/-! ## What the items stand for -/

/-- **An item stands for a key and its value**: it points to copies of them. -/
structure StandsFor (s : Storage) (item : CallStackItem) (entry : CString × List Byte) : Prop where
  value_ne : item.value ≠ 0#32
  key_eq : s.heap item.key = some (entry.1.chars ++ [0#8])
  value_eq : s.heap item.value = some entry.2

/-- Comparing with the key of an item. -/
theorem StandsFor.strEq {item : CallStackItem} {entry : CString × List Byte}
    (h : s.StandsFor item entry) (key : CString) : s.strEq item.key key = (key == entry.1) := by
  have hcopy : (entry.1.chars ++ [0#8]).takeWhile (· ≠ 0#8) = entry.1.chars := by
    rw [List.takeWhile_append_of_pos fun ch hch => ?_]
    · simp
    · simpa using fun h0 : ch = 0#8 => entry.1.nul_free (h0 ▸ hch)
  rw [Storage.strEq, h.key_eq, Option.map_some, hcopy]
  refine Bool.eq_iff_iff.mpr ?_
  rw [decide_eq_true_eq, beq_iff_eq, Option.some.injEq]
  exact ⟨fun hchars => CString.ext hchars.symm, fun hkey => by rw [hkey]⟩

/-- **A get finds the first entry of the key.** -/
theorem returns_lookup {entries : List (CString × List Byte)}
    (h : List.Forall₂ s.StandsFor s.callstack.elements entries) (key : CString) :
    s.Returns key (entries.lookup key) := by
  suffices hfind : ∀ items : List CallStackItem, List.Forall₂ s.StandsFor items entries →
      match entries.lookup key with
      | some value => ∃ item, items.find? (fun item => s.strEq item.key key) = some item ∧
          item.value ≠ 0#32 ∧ s.heap item.value = some value
      | none => items.find? (fun item => s.strEq item.key key) = none by
    have hthis := hfind _ h
    cases hl : entries.lookup key with
    | none =>
      rw [hl] at hthis
      simp only [Returns, getCallStackData, hthis]
    | some value =>
      rw [hl] at hthis
      obtain ⟨item, hitem, hvalue⟩ := hthis
      simpa only [Returns, getCallStackData, hitem] using hvalue
  clear h
  intro items hitems
  induction hitems with
  | nil => rfl
  | @cons item entry items entries hitem _ ih =>
    obtain ⟨key', value⟩ := entry
    rw [List.lookup_cons, List.find?_cons, hitem.strEq]
    cases key == key' with
    | true => exact ⟨item, rfl, hitem.value_ne, hitem.value_eq⟩
    | false => exact ih

theorem heap_setCallStackData :
    (s.setCallStackData key value a).heap
      = Function.update (Function.update s.heap a.keyTmp (some (key.chars ++ [0#8]))) a.valueTmp
        (some value) :=
  rfl

/-- What an item stands for is not touched by another set. -/
theorem StandsFor.set {item : CallStackItem} {entry : CString × List Byte}
    (h : s.StandsFor item entry) (ha : s.Succeeds a) :
    (s.setCallStackData key value a).StandsFor item entry := by
  have hheap : ∀ p v, s.heap p = some v → (s.setCallStackData key value a).heap p = some v := by
    intro p v hp
    have hkey : p ≠ a.keyTmp := fun he => by simp [he, ha.key_free] at hp
    have hvalue : p ≠ a.valueTmp := fun he => by simp [he, ha.value_free] at hp
    rw [heap_setCallStackData, Function.update_of_ne hvalue, Function.update_of_ne hkey, hp]
  exact ⟨h.value_ne, hheap _ _ h.key_eq, hheap _ _ h.value_eq⟩

/-- **A set appends an item** for its key and value. -/
theorem forall₂_set {entries : List (CString × List Byte)}
    (h : List.Forall₂ s.StandsFor s.callstack.elements entries) (ha : s.Succeeds a) :
    List.Forall₂ (s.setCallStackData key value a).StandsFor
      (s.setCallStackData key value a).callstack.elements (entries ++ [(key, value)]) := by
  have helements : (s.setCallStackData key value a).callstack.elements
      = s.callstack.elements ++ [⟨a.keyTmp, a.valueTmp⟩] := GrowableStack.elements_push _ _ _
  rw [helements]
  refine List.rel_append (h.imp fun _ _ hitem => hitem.set ha) ?_
  refine .cons ⟨ha.value_ne, ?_, ?_⟩ .nil
  · rw [heap_setCallStackData, Function.update_of_ne ha.apart, Function.update_self]
  · rw [heap_setCallStackData, Function.update_self]

end Storage

/-! ## Sequences of calls as a map -/

namespace StorageCall

variable {s : Storage} {calls : List StorageCall} {entries : List (CString × List Byte)}

/-- **The items after a sequence of calls** stand for what was set before and in it. -/
theorem forall₂_after (h : List.Forall₂ s.StandsFor s.callstack.elements entries)
    (ha : AllSucceed s calls) :
    List.Forall₂ (after s calls).StandsFor (after s calls).callstack.elements
      (entries ++ sets calls) := by
  induction calls generalizing s entries with
  | nil =>
    rw [sets, List.filterMap_nil, List.append_nil]
    exact h
  | cons call calls ih =>
    cases call with
    | set key value a =>
      have hset := ih (@Storage.forall₂_set _ key value a _ h ha.1) ha.2
      rwa [List.append_assoc] at hset
    | get key => exact ih h ha

theorem AllSucceed.of_append {calls' : List StorageCall} (h : AllSucceed s (calls ++ calls')) :
    AllSucceed s calls := by
  induction calls generalizing s with
  | nil => exact trivial
  | cons call calls ih =>
    cases call with
    | set key value a => exact ⟨h.1, ih h.2⟩
    | get key => exact ih (s := s) h

/-- **The storage behaves like a map**: each get returns what the calls before it have left in
the map. -/
def BehavesLikeMap (s : Storage) (calls : List StorageCall) : Prop :=
  ∀ before key rest, calls = before ++ get key :: rest →
    (after s before).Returns key (mapAfter before key)

/-- **When the storage of a call behaves like a map**: at each get, the first value that was set
for the key is the one that was set last. -/
theorem behavesLikeMap_iff (heap : Word → Option (List Byte)) (items : ℕ → CallStackItem)
    (calls : List StorageCall) (h : AllSucceed (Storage.new heap items) calls) :
    BehavesLikeMap (Storage.new heap items) calls ↔
      ∀ before key rest, calls = before ++ get key :: rest →
        (sets before).lookup key = mapAfter before key := by
  have hempty : (Storage.new heap items).callstack.elements = [] :=
    GrowableStack.elements_empty (Nat.succ_pos 3) items
  refine forall_congr' fun before => forall₂_congr fun key rest => imp_congr_right fun hcalls => ?_
  have hitems : List.Forall₂ (after (Storage.new heap items) before).StandsFor
      (after (Storage.new heap items) before).callstack.elements ([] ++ sets before) :=
    forall₂_after (by rw [hempty]; exact .nil) (AllSucceed.of_append (hcalls ▸ h))
  have hfirst := Storage.returns_lookup hitems key
  exact ⟨fun hmap => hfirst.unique hmap, fun heq => heq ▸ hfirst⟩

/-! ### A key that is set twice -/

/-- The key `k`. -/
def sampleKey : CString := ⟨[0x6B#8], by decide⟩

/-- A value is set, and got. -/
def sampleOnce : List StorageCall :=
  [set sampleKey [1#8] ⟨0x100, 0x200, fun _ => ⟨0, 0⟩⟩, get sampleKey]

/-- A value is set, another one is, and the key is got. -/
def sampleTwice : List StorageCall :=
  [set sampleKey [1#8] ⟨0x100, 0x200, fun _ => ⟨0, 0⟩⟩,
    set sampleKey [2#8] ⟨0x300, 0x400, fun _ => ⟨0, 0⟩⟩, get sampleKey]

theorem sampleTwice_allSucceed :
    AllSucceed (Storage.new (fun _ => none) fun _ => ⟨0, 0⟩) sampleTwice :=
  ⟨⟨by decide, by decide, by decide, rfl, rfl⟩,
    ⟨by decide, by decide, by decide, by decide, by decide⟩, trivial⟩

theorem sampleOnce_allSucceed :
    AllSucceed (Storage.new (fun _ => none) fun _ => ⟨0, 0⟩) sampleOnce :=
  ⟨⟨by decide, by decide, by decide, rfl, rfl⟩, trivial⟩

/-- A key that is set once is got back. -/
theorem behavesLikeMap_iff_once :
    BehavesLikeMap (Storage.new (fun _ => none) fun _ => ⟨0, 0⟩) sampleOnce := by
  refine (behavesLikeMap_iff _ _ _ sampleOnce_allSucceed).mpr fun before key rest h => ?_
  cases before with
  | nil => exact absurd (List.cons.inj h).1 nofun
  | cons call before =>
    obtain ⟨hset, hget⟩ := List.cons.inj h
    cases before with
    | nil =>
      obtain rfl : sampleKey = key := StorageCall.get.inj (List.cons.inj hget).1
      rw [← hset]
      decide
    | cons call' before => simp at hget

/-- **The first value comes back**, not the one that was set last. -/
theorem not_behavesLikeMap_twice :
    AllSucceed (Storage.new (fun _ => none) fun _ => ⟨0, 0⟩) sampleTwice ∧
      ¬ BehavesLikeMap (Storage.new (fun _ => none) fun _ => ⟨0, 0⟩) sampleTwice := by
  refine ⟨sampleTwice_allSucceed, fun h => ?_⟩
  have hget := h (sampleTwice.take 2) sampleKey [] rfl
  exact absurd hget.2 (by decide)

end StorageCall

end HookZz
