import Mathlib.Data.Finset.Card
import Mathlib.Data.List.Find
import AndroidReverse.GrowableStack
import AndroidReverse.HookZzInterceptor

/-!
# The entries of the interceptor

`ZzHookFunctionEntrySet`: an array of pointers to entries, which are found by
the targets these entries have. New ones go to the end, where the array grows.
An entry that is freed is overwritten by the last, and the size goes down by
one.

The size goes down whether the entry has been found or not, and so an entry
nobody asked about is lost; in an empty set there is not even one to lose. As
long as only entries are freed that are there, the array is a
`GrowableStack` all the time and the set is what has been added and not freed
(`registry_correct_iff`).
-/

namespace HookZz

open Arm

/-- `ZzHookFunctionEntrySet`. -/
structure HookFunctionEntrySet where
  /-- The pointers. -/
  entries : List Word
  /-- How many are in use. -/
  size : ℕ
  /-- How many there is room for. -/
  capacity : ℕ
deriving DecidableEq, Repr

namespace HookFunctionEntrySet

/-! ## The code -/

/-- `ZZHOOKENTRIES_DEFAULT`. -/
def hookEntriesDefault : ℕ := 100

/-- The set of `ZzInitializeInterceptor`. -/
def initial : HookFunctionEntrySet where
  entries := List.replicate hookEntriesDefault 0#32
  size := 0
  capacity := hookEntriesDefault

/-- The loop of `ZzFindHookFunctionEntry` over the first `size` pointers;
`none` if it reads behind the array. Entries do not change their
`target_ptr`. -/
def findLoop (targetOf : Word → Word) (targetPtr : Word) : List Word → ℕ → Option (Option Word)
  | _, 0 => some none
  | [], _ + 1 => none
  | entry :: entries, size + 1 =>
    if entry ≠ 0#32 ∧ targetPtr = targetOf entry then some (some entry)
    else findLoop targetOf targetPtr entries size

/-- `ZzFindHookFunctionEntry`; a null pointer is `none`. -/
def findHookFunctionEntry (targetOf : Word → Word) (self : HookFunctionEntrySet) (targetPtr : Word) :
    Option (Option Word) :=
  findLoop targetOf targetPtr self.entries self.size

/-- The part of `ZzAddHookFunctionEntry` that makes room; the new slots of
`realloc` hold anything. -/
def makeRoom (self : HookFunctionEntrySet) (fresh : ℕ → Word) : HookFunctionEntrySet :=
  if self.size ≥ self.capacity then
    { self with
      entries := self.entries ++ (List.range self.capacity).map fresh
      capacity := self.capacity * 2 }
  else self

/-- `ZzAddHookFunctionEntry`; `none` if it writes behind the array. -/
def addHookFunctionEntry (self : HookFunctionEntrySet) (fresh : ℕ → Word) (entry : Word) :
    Option HookFunctionEntrySet :=
  let self := self.makeRoom fresh
  if self.size < self.entries.length then
    some { self with entries := self.entries.set self.size entry, size := self.size + 1 }
  else none

/-- The loop of `ZzFreeHookFunctionEntry` from slot `i` on, with its remaining
turns; `none` if it reads behind the array. -/
def freeLoop (entry : Word) (size : ℕ) : ℕ → ℕ → List Word → Option (List Word)
  | 0, _, entries => some entries
  | turns + 1, i, entries =>
    match entries[i]? with
    | none => none
    | some e =>
      if e ≠ 0#32 ∧ entry = e then
        -- exchange with the last item
        match entries[size - 1]? with
        | none => none
        | some last => freeLoop entry size turns (i + 1) (entries.set i last)
      else freeLoop entry size turns (i + 1) entries

/-- `size--` of a `zz_size_t`. -/
def decrement (size : ℕ) : ℕ := if size = 0 then 2 ^ 32 - 1 else size - 1

/-- `ZzFreeHookFunctionEntry`, as far as the set is concerned. -/
def freeHookFunctionEntry (self : HookFunctionEntrySet) (entry : Word) :
    Option HookFunctionEntrySet :=
  (freeLoop entry self.size self.size 0 self.entries).map fun entries =>
    { self with entries := entries, size := decrement self.size }

/-! ## Calls -/

/-- A call of one of the three functions. -/
inductive Call where
  | add (entry : Word) (fresh : ℕ → Word)
  | free (entry : Word)
  | find (targetPtr : Word)

/-- What it does with the set. -/
def call (targetOf : Word → Word) (self : HookFunctionEntrySet) : Call → Option HookFunctionEntrySet
  | .add entry fresh => self.addHookFunctionEntry fresh entry
  | .free entry => self.freeHookFunctionEntry entry
  | .find targetPtr => (self.findHookFunctionEntry targetOf targetPtr).map fun _ => self

/-- Calls one after the other, from the initial set on. -/
def run (targetOf : Word → Word) (calls : List Call) : Option HookFunctionEntrySet :=
  calls.foldlM (call targetOf) initial

/-- **The entries that have been added and not freed.** -/
def registered (calls : List Call) : Finset Word :=
  calls.foldl (fun members c => match c with
    | .add entry _ => insert entry members
    | .free entry => members.erase entry
    | .find _ => members) ∅

/-- Only entries are added, and of those that are there no two have the same
target. -/
def Distinct (targetOf : Word → Word) (calls : List Call) : Prop :=
  ∀ before entry fresh, before ++ [Call.add entry fresh] <+: calls →
    entry ≠ 0#32 ∧ ∀ e ∈ registered before, targetOf e ≠ targetOf entry

/-- Only entries are freed that are there. -/
def Matched (calls : List Call) : Prop :=
  ∀ before entry, before ++ [Call.free entry] <+: calls → entry ∈ registered before

/-- **The set is what it should be**, and is searched as it should be. -/
structure Correct (targetOf : Word → Word) (entrySet : HookFunctionEntrySet) (members : Finset Word) :
    Prop where
  exact_members : ∀ entry, entry ∈ entrySet.entries.take entrySet.size ↔ entry ∈ members
  size_eq : entrySet.size = members.card
  size_le : entrySet.size ≤ entrySet.capacity
  found : ∀ targetPtr, (entrySet.findHookFunctionEntry targetOf targetPtr).isSome
  find_iff : ∀ targetPtr entry, entrySet.findHookFunctionEntry targetOf targetPtr
      = some (some entry)
    ↔ entry ∈ members ∧ targetOf entry = targetPtr

/-! ## The array -/

/-- The set in an array. -/
def ofStack (s : GrowableStack Word) : HookFunctionEntrySet := ⟨s.slots, s.size, s.capacity⟩

section Array

variable {targetOf : Word → Word} {s : GrowableStack Word} {entry targetPtr last : Word}

/-- **Adding** is a push. -/
theorem add_ofStack (s : GrowableStack Word) (fresh : ℕ → Word) (entry : Word) :
    (ofStack s).addHookFunctionEntry fresh entry = some (ofStack (s.push fresh entry)) := by
  unfold addHookFunctionEntry GrowableStack.push
  by_cases h : s.size < s.capacity
  · have hroom : (ofStack s).makeRoom fresh = ofStack s := if_neg (Nat.not_le.mpr h)
    rw [dif_pos h, hroom]
    exact if_pos (lt_of_lt_of_eq h s.length_slots.symm)
  · have hroom : (ofStack s).makeRoom fresh = ofStack (s.grow fresh) := if_pos (Nat.le_of_not_lt h)
    rw [dif_neg h, hroom]
    exact if_pos (lt_of_lt_of_eq (s.lt_capacity_grow fresh) (s.length_grow fresh).symm)

/-- **Searching** goes through the elements. -/
theorem findLoop_eq (entries : List Word) (size : ℕ) (h : size ≤ entries.length)
    (hnull : ∀ e ∈ entries.take size, e ≠ 0#32) :
    findLoop targetOf targetPtr entries size
      = some ((entries.take size).find? fun e => targetOf e == targetPtr) := by
  induction entries generalizing size with
  | nil =>
    obtain rfl := Nat.le_zero.mp h
    rfl
  | cons e entries ih =>
    cases size with
    | zero => rfl
    | succ size =>
      rw [List.take_succ_cons] at hnull ⊢
      rw [findLoop, List.find?_cons]
      by_cases ht : targetPtr = targetOf e
      · rw [if_pos ⟨hnull e List.mem_cons_self, ht⟩, beq_iff_eq.mpr ht.symm]
      · rw [if_neg (fun hc => ht hc.2), beq_eq_false_iff_ne.mpr (Ne.symm ht)]
        exact ih size (Nat.le_of_succ_le_succ h) (fun x hx => hnull x (List.mem_cons_of_mem _ hx))

theorem find_ofStack (hnull : ∀ e ∈ s.elements, e ≠ 0#32) :
    (ofStack s).findHookFunctionEntry targetOf targetPtr
      = some (s.elements.find? fun e => targetOf e == targetPtr) :=
  findLoop_eq s.slots s.size (le_of_le_of_eq s.size_le s.length_slots.symm) hnull

/-- **The loop of freeing** copies the last entry over every occurrence. -/
theorem freeLoop_eq (pre rest tail : List Word) (hlast : (pre ++ rest).getLast? = some last)
    (hentry : entry ≠ 0#32) :
    freeLoop entry (pre.length + rest.length) rest.length pre.length (pre ++ rest ++ tail)
      = some (pre ++ (rest.map fun e => if e = entry then last else e) ++ tail) := by
  induction rest generalizing pre with
  | nil => rfl
  | cons e rest ih =>
    have hsize : pre.length + (e :: rest).length = (pre ++ [e]).length + rest.length := by
      rw [List.length_append, List.length_cons, List.length_singleton]
      omega
    have hget : (pre ++ e :: rest ++ tail)[pre.length]? = some e := by
      rw [List.append_assoc, List.getElem?_append_right (Nat.le_refl _), Nat.sub_self]
      rfl
    have htop : (pre ++ e :: rest ++ tail)[pre.length + (e :: rest).length - 1]? = some last := by
      rw [← List.length_append]
      rw [List.getLast?_eq_getElem?] at hlast
      rw [List.getElem?_append_left, hlast]
      rw [List.length_append, List.length_cons]
      omega
    rw [List.length_cons, freeLoop, ← List.length_cons, hget]
    dsimp only
    by_cases he : e = entry
    · have hset : (pre ++ e :: rest ++ tail).set pre.length last
        = pre ++ [last] ++ rest ++ tail := by
        rw [List.append_assoc, List.set_append_right _ _ (Nat.le_refl _), Nat.sub_self]
        simp
      have hlast' : (pre ++ [last] ++ rest).getLast? = some last := by
        cases rest with
        | nil => rw [List.append_nil, List.getLast?_concat]
        | cons e' rest =>
          rw [List.getLast?_append] at hlast ⊢
          rw [List.getLast?_cons_cons] at hlast
          rw [List.getLast?_cons] at hlast ⊢
          exact hlast
      have hrest := ih _ hlast'
      rw [if_pos ⟨he ▸ hentry, he.symm⟩, htop]
      dsimp only
      rw [hset, List.map_cons, if_pos he, hsize]
      simp only [List.length_append, List.length_singleton, List.append_assoc,
        List.singleton_append]
        at hrest ⊢
      exact hrest
    · have hlast' : (pre ++ [e] ++ rest).getLast? = some last := by
        rw [List.append_assoc]
        exact hlast
      have hrest := ih _ hlast'
      rw [if_neg (fun hc => he hc.2.symm), List.map_cons, if_neg he, hsize]
      simp only [List.length_append, List.length_singleton, List.append_assoc,
        List.singleton_append]
        at hrest ⊢
      exact hrest

/-- **Freeing** removes an entry out of order, if there is any. -/
theorem free_ofStack (hlast : s.elements.getLast? = some last) (hentry : entry ≠ 0#32) :
    (ofStack s).freeHookFunctionEntry entry = some (ofStack (s.swapRemove entry last)) := by
  have hlen := s.length_elements
  have hloop := freeLoop_eq [] s.elements (s.slots.drop s.size) hlast hentry
  have hpos : s.size ≠ 0 := fun h0 => by
    rw [List.eq_nil_of_length_eq_zero (hlen.trans h0)] at hlast
    cases hlast
  rw [List.nil_append, List.length_nil, Nat.zero_add, hlen, List.nil_append,
    GrowableStack.elements, List.take_append_drop] at hloop
  unfold freeHookFunctionEntry
  rw [show (ofStack s).size = s.size from rfl, show (ofStack s).entries = s.slots from rfl, hloop]
  unfold decrement
  rw [if_neg hpos]
  rfl

end Array

/-! ## Runs -/

/-- **The invariant**: the pointers of the entries, once each and in some
order. -/
structure Holds (targetOf : Word → Word) (s : GrowableStack Word)
    (members : Finset Word) : Prop where
  nodup : s.elements.Nodup
  mem_iff : ∀ entry, entry ∈ s.elements ↔ entry ∈ members
  ne_null : ∀ entry ∈ members, entry ≠ 0#32
  injOn : Set.InjOn targetOf members

section Runs

variable {targetOf : Word → Word} {s : GrowableStack Word} {members : Finset Word} {entry : Word}
  {calls : List Call}

theorem Holds.correct (h : Holds targetOf s members) : (ofStack s).Correct targetOf members := by
  have hfind : ∀ targetPtr, (ofStack s).findHookFunctionEntry targetOf targetPtr
      = some (s.elements.find? fun e => targetOf e == targetPtr) :=
    fun targetPtr => find_ofStack (fun e he => h.ne_null e ((h.mem_iff e).mp he))
  refine ⟨h.mem_iff, ?_, s.size_le, fun t => by rw [hfind]; rfl, fun t e => ?_⟩
  · have hset : s.elements.toFinset = members := by
      ext e
      rw [List.mem_toFinset, h.mem_iff]
    show s.size = _
    rw [← hset, List.toFinset_card_of_nodup h.nodup, s.length_elements]
  · rw [hfind, Option.some_inj]
    constructor
    · intro he
      have ht : (targetOf e == t) = true := List.find?_some (p := fun x => targetOf x == t) he
      exact ⟨(h.mem_iff e).mp (List.mem_of_find?_eq_some he), eq_of_beq ht⟩
    · rintro ⟨he, rfl⟩
      have hsome : (s.elements.find? fun x => targetOf x == targetOf e).isSome = true :=
        List.find?_isSome.mpr ⟨e, (h.mem_iff e).mpr he, beq_self_eq_true (targetOf e)⟩
      obtain ⟨e', he'⟩ := Option.isSome_iff_exists.mp hsome
      have ht : (targetOf e' == targetOf e) = true :=
        List.find?_some (p := fun x => targetOf x == targetOf e) he'
      rw [he', h.injOn ((h.mem_iff e').mp (List.mem_of_find?_eq_some he')) he (eq_of_beq ht)]

/-- Nothing has been added at first. -/
theorem holds_initial (targetOf : Word → Word) : ∃ s, initial = ofStack s ∧ Holds targetOf s ∅ := by
  refine ⟨GrowableStack.empty hookEntriesDefault (by decide) (fun _ => 0#32), rfl, ?_, ?_, ?_, ?_⟩
  · rw [GrowableStack.elements_empty]
    exact List.nodup_nil
  · intro entry
    rw [GrowableStack.elements_empty]
    exact iff_of_false List.not_mem_nil (Finset.notMem_empty entry)
  · exact fun entry h => absurd h (Finset.notMem_empty entry)
  · rw [Finset.coe_empty]
    exact Set.injOn_empty targetOf

/-- **Adding** a new entry. -/
theorem Holds.push (h : Holds targetOf s members) (fresh : ℕ → Word) (hentry : entry ≠ 0#32)
    (hnew : ∀ e ∈ members, targetOf e ≠ targetOf entry) :
    Holds targetOf (s.push fresh entry) (insert entry members) := by
  have hnot : entry ∉ members := fun hmem => hnew entry hmem rfl
  refine ⟨?_, fun e => ?_, fun e he => ?_, ?_⟩
  · rw [GrowableStack.elements_push, List.nodup_append]
    refine ⟨h.nodup, List.nodup_singleton entry, fun a ha b hb hab => hnot ?_⟩
    rw [← List.mem_singleton.mp hb, ← hab]
    exact (h.mem_iff a).mp ha
  · rw [GrowableStack.elements_push, List.mem_append, List.mem_singleton, h.mem_iff,
      Finset.mem_insert, or_comm]
  · exact (Finset.mem_insert.mp he).elim (fun heq => heq ▸ hentry) (h.ne_null e)
  · rw [Finset.coe_insert, Set.injOn_insert (Finset.mem_coe.not.mpr hnot)]
    refine ⟨h.injOn, ?_⟩
    rintro ⟨e, he, htarget⟩
    exact hnew e he htarget

/-- **Freeing** an entry that is there. -/
theorem Holds.swapRemove (h : Holds targetOf s members) (hmem : entry ∈ members) :
    ∃ s', (ofStack s).freeHookFunctionEntry entry = some (ofStack s')
      ∧ Holds targetOf s' (members.erase entry) := by
  have hin : entry ∈ s.elements := (h.mem_iff entry).mpr hmem
  obtain ⟨last, hlast⟩ := Option.isSome_iff_exists.mp
    (List.getLast?_isSome.mpr (List.ne_nil_of_mem hin))
  have hperm := GrowableStack.swapRemove_perm h.nodup hlast hin
  refine ⟨_, free_ofStack hlast (h.ne_null entry hmem), ?_, fun e => ?_, fun e he => ?_, ?_⟩
  · exact hperm.nodup_iff.mpr (h.nodup.erase entry)
  · rw [hperm.mem_iff, h.nodup.mem_erase_iff, h.mem_iff, Finset.mem_erase]
  · exact h.ne_null e (Finset.mem_of_mem_erase he)
  · exact h.injOn.mono (Finset.coe_subset.mpr (Finset.erase_subset entry members))

theorem registered_concat (calls : List Call) (c : Call) :
    registered (calls ++ [c]) = match c with
      | .add entry _ => insert entry (registered calls)
      | .free entry => (registered calls).erase entry
      | .find _ => registered calls := by
  unfold registered
  rw [List.foldl_append]
  rfl

theorem run_concat (calls : List Call) (c : Call) :
    run targetOf (calls ++ [c]) = (run targetOf calls).bind fun self => self.call targetOf c := by
  unfold run
  rw [List.foldlM_append]
  show (_ >>= fun self => call targetOf self c >>= pure) = _
  simp only [bind_pure]
  rfl

theorem Distinct.earlier {before : List Call} (h : Distinct targetOf calls) (hb : before <+: calls) :
    Distinct targetOf before :=
  fun b entry fresh hp => h b entry fresh (hp.trans hb)

theorem Matched.earlier {before : List Call} (h : Matched calls) (hb : before <+: calls) :
    Matched before :=
  fun b entry hp => h b entry (hp.trans hb)

/-- **A run** that frees only what is there keeps the invariant. -/
theorem run_holds (hdistinct : Distinct targetOf calls) (hmatched : Matched calls) :
    ∃ s, run targetOf calls = some (ofStack s) ∧ Holds targetOf s (registered calls) := by
  induction calls using List.reverseRecOn with
  | nil =>
    obtain ⟨s, hs, h⟩ := holds_initial targetOf
    exact ⟨s, congrArg some hs, h⟩
  | append_singleton calls c ih =>
    have hp : calls <+: calls ++ [c] := List.prefix_append calls [c]
    obtain ⟨s, hs, h⟩ := ih (hdistinct.earlier hp) (hmatched.earlier hp)
    rw [run_concat, registered_concat, hs]
    cases c with
    | add entry fresh =>
      obtain ⟨hentry, hnew⟩ := hdistinct calls entry fresh List.prefix_rfl
      exact ⟨_, add_ofStack s fresh entry, h.push fresh hentry hnew⟩
    | free entry => exact h.swapRemove (hmatched calls entry List.prefix_rfl)
    | find targetPtr =>
      refine ⟨s, ?_, h⟩
      obtain ⟨r, hr⟩ := Option.isSome_iff_exists.mp (h.correct.found targetPtr)
      show ((ofStack s).findHookFunctionEntry targetOf targetPtr).map _ = _
      rw [hr]
      rfl

/-- Freeing always takes one away, wherever it gets to its end. -/
theorem free_size {self self' : HookFunctionEntrySet}
    (h : self.freeHookFunctionEntry entry = some self') : self'.size = decrement self.size := by
  obtain ⟨entries, -, rfl⟩ := Option.map_eq_some_iff.mp h
  rfl

theorem decrement_ne (size : ℕ) : decrement size ≠ size := by
  unfold decrement
  split <;> omega

/-- **The registry is right as long as only entries are freed that are there.**
For all calls in which only entries are added, with a target that no other
entry has at that time: after any number of them, the set holds exactly the
entries that have been added and not freed, `size` is their number and within
the capacity, and an entry is found by a target if and only if it is in the
set, if and only if every entry that is freed is there. -/
theorem registry_correct_iff (hdistinct : Distinct targetOf calls) :
    (∀ before, before <+: calls → ∃ self, run targetOf before = some self
        ∧ self.Correct targetOf (registered before)) ↔ Matched calls := by
  constructor
  · intro hcorrect before entry hb
    by_contra hnot
    obtain ⟨self, hself, hc⟩ := hcorrect before ((List.prefix_append _ _).trans hb)
    obtain ⟨self', hself', hc'⟩ := hcorrect _ hb
    rw [run_concat, hself] at hself'
    rw [registered_concat] at hc'
    have hsize : self'.size = ((registered before).erase entry).card := hc'.size_eq
    rw [Finset.erase_eq_of_notMem hnot, ← hc.size_eq, free_size hself'] at hsize
    exact decrement_ne _ hsize
  · intro hmatched before hb
    obtain ⟨s, hs, h⟩ := run_holds (hdistinct.earlier hb) (hmatched.earlier hb)
    exact ⟨_, hs, h.correct⟩

/-- The entries that are added, in their order. -/
def added (calls : List Call) : List Word :=
  calls.filterMap fun c => match c with
    | .add entry _ => some entry
    | _ => none

theorem mem_added_of_registered (calls : List Call) :
    entry ∈ registered calls → entry ∈ added calls := by
  induction calls using List.reverseRecOn with
  | nil => exact fun h => absurd h (Finset.notMem_empty entry)
  | append_singleton calls c ih =>
    unfold added at ih ⊢
    rw [registered_concat, List.filterMap_append, List.mem_append]
    cases c with
    | add e fresh =>
      intro h
      rcases Finset.mem_insert.mp h with rfl | h
      · exact Or.inr List.mem_cons_self
      · exact Or.inl (ih h)
    | free e => exact fun h => Or.inl (ih (Finset.mem_of_mem_erase h))
    | find targetPtr => exact fun h => Or.inl (ih h)

/-- Where the targets of all entries are different, it does not matter when they
are added. -/
theorem distinct_of_pairwise (hnull : ∀ e ∈ added calls, e ≠ 0#32)
    (hpair : (added calls).Pairwise fun e e' => targetOf e ≠ targetOf e') :
    Distinct targetOf calls := by
  rintro before entry fresh ⟨rest, rfl⟩
  unfold added at hnull hpair
  rw [List.filterMap_append, List.filterMap_append] at hnull hpair
  refine ⟨hnull entry ?_, fun e he => ?_⟩
  · exact List.mem_append_left _ (List.mem_append_right _ List.mem_cons_self)
  · have hleft := (List.pairwise_append.mp hpair).1
    exact (List.pairwise_append.mp hleft).2.2 e (mem_added_of_registered before he) entry
      List.mem_cons_self

end Runs

/-- Two entries are added, and the first is freed. -/
theorem registry_correct_iff_free :
    (∀ before, before <+: [Call.add 0x1000#32 0, .add 0x2000#32 0, .free 0x1000#32] →
        ∃ self, run id before = some self ∧ self.Correct id (registered before))
      ↔ Matched [.add 0x1000#32 0, .add 0x2000#32 0, .free 0x1000#32] :=
  registry_correct_iff (distinct_of_pairwise
    (show ∀ e ∈ [0x1000#32, 0x2000#32], e ≠ 0#32 by simp)
    (show [0x1000#32, 0x2000#32].Pairwise fun e e' => id e ≠ id e' by decide))

/-- An entry is added, and another is freed: the set is empty after that. -/
theorem registry_unmatched :
    ¬ ∀ (targetOf : Word → Word) (calls : List Call), Distinct targetOf calls →
      ∀ before, before <+: calls → ∃ self, run targetOf before = some self
        ∧ self.Correct targetOf (registered before) := by
  intro h
  obtain ⟨self, hself, hc⟩ := h id [.add 0x1000#32 0, .free 0x2000#32]
    (distinct_of_pairwise (show ∀ e ∈ [0x1000#32], e ≠ 0#32 by simp)
      (List.pairwise_singleton _ 0x1000#32)) _ List.prefix_rfl
  have hsize : self.size = 0 := by
    have hrun : (run id [.add 0x1000#32 0, .free 0x2000#32]).map size = some 0 := rfl
    rw [hself] at hrun
    exact Option.some_inj.mp hrun
  have hcard : (registered [.add 0x1000#32 0, .free 0x2000#32]).card = 1 := by decide
  exact absurd (hsize.symm.trans (hc.size_eq.trans hcard)) (by decide)

/-! ## The list of the interceptor -/

section Interceptor

variable {targetOf : Word → Word} {s : GrowableStack Word} {self : Interceptor}

/-- **An interceptor's entries by their addresses.** -/
structure Lists (targetOf : Word → Word) (s : GrowableStack Word) (entries : List HookFunctionEntry) :
    Prop where
  elements : s.elements = entries.map HookFunctionEntry.ptr
  targetPtr : ∀ entry ∈ entries, targetOf entry.ptr = entry.targetPtr
  ne_null : ∀ entry ∈ entries, entry.ptr ≠ 0#32

/-- **Both find the same entry.** -/
theorem Lists.find (h : Lists targetOf s self.entries) (targetPtr : Word) :
    (ofStack s).findHookFunctionEntry targetOf targetPtr
      = some ((self.findHookFunctionEntry targetPtr).map HookFunctionEntry.ptr) := by
  have hnull : ∀ e ∈ s.elements, e ≠ 0#32 := by
    intro e he
    rw [h.elements] at he
    obtain ⟨entry, hentry, rfl⟩ := List.mem_map.mp he
    exact h.ne_null entry hentry
  have htarget : ∀ entry ∈ self.entries,
      (targetOf entry.ptr == targetPtr) = (entry.targetPtr == targetPtr) :=
    fun entry hentry => by rw [h.targetPtr entry hentry]
  rw [find_ofStack hnull, h.elements, List.find?_map]
  exact congrArg (fun r => some (Option.map HookFunctionEntry.ptr r)) (List.find?_congr htarget)

/-- **A new entry goes to the end** of both. -/
theorem Lists.add {entries : List HookFunctionEntry} (h : Lists targetOf s entries)
    (fresh : ℕ → Word) (entry : HookFunctionEntry) (htarget : targetOf entry.ptr = entry.targetPtr)
    (hentry : entry.ptr ≠ 0#32) :
    ∃ s', (ofStack s).addHookFunctionEntry fresh entry.ptr = some (ofStack s')
      ∧ Lists targetOf s' (entries ++ [entry]) := by
  refine ⟨_, add_ofStack s fresh entry.ptr, ?_, fun e he => ?_, fun e he => ?_⟩
  · rw [GrowableStack.elements_push, h.elements, List.map_append, List.map_singleton]
  · exact (List.mem_append.mp he).elim (h.targetPtr e)
      (fun he => List.mem_singleton.mp he ▸ htarget)
  · exact (List.mem_append.mp he).elim (h.ne_null e) (fun he => List.mem_singleton.mp he ▸ hentry)

end Interceptor

end HookFunctionEntrySet

end HookZz
