import AndroidReverse.ElfHook

/-!
# A hook that fails

`hook` returns `false` at the first slot that it cannot replace: the slot may be in no
segment, or `mprotect` may refuse its page. What it did to the slots before stays, and so
does `*old_func`, which `replace_function` sets before it looks for the segment. Here the
two loops are one run over the slots that ends at such a slot (`Module.visits`), and from
the state before the call it is said when a call that fails leaves everything as it was.
-/

open ByteMemory

namespace Elf

variable {c : ElfClass}

namespace Module

variable {m : Module c} {mprotect : ℕ → Bool} {mem mem₀ : c.Mem} {s : Process c}
  {a b f : c.Addr} {S : Set c.Addr} {l l' : List c.Addr} {symidx : ℕ}

/-! ## Slots that cannot be replaced -/

/-- **A slot that cannot be replaced** when `n` calls of `mprotect` were made before. -/
def Blocked (m : Module c) (mprotect : ℕ → Bool) (mem : c.Mem) (n : ℕ) (a : c.Addr) : Prop :=
  m.getMemAccess mem a = none ∨ mprotect n = false

instance (m : Module c) (mprotect : ℕ → Bool) (mem : c.Mem) (n : ℕ) (a : c.Addr) :
    Decidable (m.Blocked mprotect mem n a) :=
  inferInstanceAs (Decidable (_ ∨ _))

/-- **When `replace_function` fails**: if the slot has to be replaced and cannot be. If it is
replaced, one call of `mprotect` was made. -/
theorem replaceFunction_fst (h : readPtr s.mem a ≠ f) :
    ((m.replaceFunction mprotect a f s).1 = true
        ↔ m.Blocked mprotect s.mem s.mprotects.length a) ∧
      (¬ m.Blocked mprotect s.mem s.mprotects.length a →
        (m.replaceFunction mprotect a f s).2.mprotects.length = s.mprotects.length + 1) := by
  obtain ⟨t, ht, hmem, hcalls⟩ : ∃ t : Process c,
      (if s.oldFunc = 0 then { s with oldFunc := readPtr s.mem a } else s) = t ∧ t.mem = s.mem ∧
        t.mprotects = s.mprotects := by
    split_ifs <;> exact ⟨_, rfl, rfl, rfl⟩
  rw [replaceFunction, if_neg h, Blocked]
  simp only [ht, hmem]
  cases m.getMemAccess s.mem a with
  | none => exact ⟨iff_of_true rfl (.inl rfl), fun hb => absurd (.inl rfl) hb⟩
  | some oldProts =>
    simp only [setMemAccess, hcalls]
    cases hp : mprotect s.mprotects.length with
    | false => exact ⟨iff_of_true rfl (.inr rfl), fun hb => absurd (.inr rfl) hb⟩
    | true => simp

/-- What is apart from the slot is unchanged. -/
theorem eqOn_replaceFunction (ha : Disjoint (ptrBlock a) S) :
    Set.EqOn (m.replaceFunction mprotect a f s).2.mem s.mem S := by
  rcases m.replaceFunction_cases mprotect a f s with ⟨-, hr⟩ | ⟨-, fails, t, hr, -, hmem⟩
  · rw [hr]
    exact Set.eqOn_refl _ _
  · rw [hr]
    dsimp only
    rw [hmem]
    split_ifs
    · exact Set.eqOn_refl _ _
    · exact (eqOn_writePtr s.mem a f).mono (Set.subset_compl_iff_disjoint_left.mpr ha)

/-- An aligned slot that holds the new function keeps it. -/
theorem readPtr_replaceFunction (ha : Aligned a) (hb : Aligned b) (h : readPtr s.mem b = f) :
    readPtr (m.replaceFunction mprotect a f s).2.mem b = f := by
  rcases m.replaceFunction_cases mprotect a f s with ⟨-, hr⟩ | ⟨-, fails, t, hr, -, hmem⟩
  · rwa [hr]
  · rw [hr]
    dsimp only
    rw [hmem]
    split_ifs
    · exact h
    · by_cases hab : b = a
      · rw [hab, readPtr_writePtr_self]
      · rw [readPtr_writePtr_of_ne s.mem f ha hb hab, h]

/-! ## The run over the slots -/

/-- **The slots of a list are visited** until one cannot be replaced, where the result is
`false`. -/
def visits (m : Module c) (mprotect : ℕ → Bool) (f : c.Addr) :
    List c.Addr → Process c → Bool × Process c
  | [], s => (true, s)
  | a :: l, s =>
    match m.replaceFunction mprotect a f s with
    | (true, s) => (false, s)
    | (false, s) => visits m mprotect f l s

theorem visits_append (l l' : List c.Addr) (s : Process c) :
    m.visits mprotect f (l ++ l') s
      = match m.visits mprotect f l s with
        | (true, s) => m.visits mprotect f l' s
        | (false, s) => (false, s) := by
  induction l generalizing s with
  | nil => rfl
  | cons a l ih =>
    rw [List.cons_append, visits, visits]
    cases m.replaceFunction mprotect a f s with
    | mk fails t =>
      cases fails with
      | true => rfl
      | false => exact ih t

/-- What is apart from the slots is unchanged. -/
theorem eqOn_visits (hl : ∀ a ∈ l, Disjoint (ptrBlock a) S) :
    Set.EqOn (m.visits mprotect f l s).2.mem s.mem S := by
  induction l generalizing s with
  | nil => exact Set.eqOn_refl _ _
  | cons a l ih =>
    have ha := @eqOn_replaceFunction _ m mprotect s _ f _ (hl a List.mem_cons_self)
    rw [visits]
    generalize m.replaceFunction mprotect a f s = r at ha
    obtain ⟨fails, t⟩ := r
    cases fails with
    | true => exact ha
    | false => exact (ih fun b hb => hl b (List.mem_cons_of_mem a hb)).trans ha

/-- **The loop over the PLT relocations** is a run over the slot it finds. -/
theorem relpltLoop_eq_visits {n i : ℕ} (hs : Set.EqOn s.mem mem₀ S)
    (hr : ∀ j, i ≤ j → j < i + n → DependsOn S (fun mem => m.relocAt mem m.relpltAddr j) mem₀) :
    m.relpltLoop mprotect symidx f n i s
      = m.visits mprotect f (m.pltSlots mem₀ symidx i n) s := by
  induction n generalizing i with
  | zero => rfl
  | succ n ih =>
    have hreloc : m.relocAt s.mem m.relpltAddr i = m.relocAt mem₀ m.relpltAddr i :=
      hr i le_rfl (by omega) hs
    rw [pltSlots_succ, relpltLoop]
    simp only [hreloc]
    split_ifs with hj
    · rw [visits]
      cases m.replaceFunction mprotect (m.slotOf (m.relocAt mem₀ m.relpltAddr i)) f s with
      | mk fails t => cases fails <;> rfl
    · exact ih fun j hij hjn => hr j (by omega) (by omega)

/-- **The loop over the dynamic relocations** is a run over the slots it finds, which the
table is apart from. -/
theorem reldynLoop_eq_visits {n i : ℕ} (hs : Set.EqOn s.mem mem₀ S)
    (hr : ∀ j, i ≤ j → j < i + n → DependsOn S (fun mem => m.relocAt mem m.reldynAddr j) mem₀)
    (ha : ∀ a ∈ m.dynSlots mem₀ symidx i n, Disjoint (ptrBlock a) S) :
    m.reldynLoop mprotect symidx f n i s
      = m.visits mprotect f (m.dynSlots mem₀ symidx i n) s := by
  induction n generalizing i s with
  | zero => rfl
  | succ n ih =>
    have hreloc : m.relocAt s.mem m.reldynAddr i = m.relocAt mem₀ m.reldynAddr i :=
      hr i le_rfl (by omega) hs
    rw [dynSlots_succ] at ha ⊢
    rw [reldynLoop]
    simp only [hreloc]
    have hrest := fun (s : Process c) (hs : Set.EqOn s.mem mem₀ S) =>
      ih hs (fun j hij hjn => hr j (by omega) (by omega))
        (fun a h => ha a (List.mem_append_right _ h))
    split_ifs at ha ⊢ with hj
    · have hS := @eqOn_replaceFunction _ m mprotect s _ f _ (ha _ List.mem_cons_self)
      rw [List.singleton_append, visits]
      generalize m.replaceFunction mprotect (m.slotOf (m.relocAt mem₀ m.reldynAddr i)) f s = r at hS
      obtain ⟨fails, t⟩ := r
      cases fails with
      | true => rfl
      | false => exact hrest t (hS.trans hs)
    · exact hrest s hs

/-- **Hooking a symbol is a run over its slots**, which the metadata is apart from. -/
theorem hook_eq_visits {fuel : ℕ} {symbol : Chars} {r : Lookup c} (hl : m.isLoaded = true)
    (hmeta : m.Metadata s.mem fuel symbol S)
    (hfind : m.findSymbolByName s.mem fuel symbol 0 0 = some r)
    (ha : ∀ a ∈ m.slots s.mem r.symidx, Disjoint (ptrBlock a) S) :
    m.hook mprotect fuel symbol f s = some
      (if r.sym = 0 then (false, m, s)
      else ((m.visits mprotect f (m.slots s.mem r.symidx) s).1, m,
        (m.visits mprotect f (m.slots s.mem r.symidx) s).2)) := by
  rw [hook_of_loaded hl hfind, slots, visits_append]
  have hplt : m.relpltLoop mprotect r.symidx f m.relpltCounts 0 s = _ :=
    relpltLoop_eq_visits (Set.eqOn_refl _ _) (fun j _ hj => hmeta.relplt j (by omega))
  have hS := @eqOn_visits _ m mprotect s f S (m.pltSlots s.mem r.symidx 0 m.relpltCounts)
    (fun a h => ha a (List.mem_append_left _ h))
  rw [hplt]
  generalize m.visits mprotect f (m.pltSlots s.mem r.symidx 0 m.relpltCounts) s = v at hS
  obtain ⟨ok, t⟩ := v
  cases ok with
  | false => rfl
  | true =>
    have hdyn : m.reldynLoop mprotect r.symidx f m.reldynCounts 0 t = _ :=
      reldynLoop_eq_visits hS (fun j _ hj => hmeta.reldyn j (by omega))
        (fun a h => ha a (List.mem_append_right _ h))
    dsimp only
    rw [hdyn]

/-! ## What a run over aligned slots does -/

section Aligned

/-! The program headers are read from the memory as it is by then; they are in `S`, and
`mem₀` is the memory at the call. -/

variable (hph : DependsOn S (fun mem => phdrs mem m.phdr (readEhdr mem m.ehdr).ePhnum) mem₀)

include hph in
theorem blocked_congr (hs : Set.EqOn mem mem₀ S) {n : ℕ} :
    m.Blocked mprotect mem n a ↔ m.Blocked mprotect mem₀ n a := by
  have h : phdrs mem m.phdr (readEhdr mem m.ehdr).ePhnum
      = phdrs mem₀ m.phdr (readEhdr mem₀ m.ehdr).ePhnum := hph hs
  rw [Blocked, Blocked, getMemAccess, getMemAccess, h]

/-- A slot that holds the new function keeps it. -/
theorem readPtr_visits (hl : ∀ a ∈ l, Aligned a) (hb : Aligned b) (h : readPtr s.mem b = f) :
    readPtr (m.visits mprotect f l s).2.mem b = f := by
  induction l generalizing s with
  | nil => exact h
  | cons a l ih =>
    have ha := @readPtr_replaceFunction _ m mprotect _ _ _ _ (hl a List.mem_cons_self) hb h
    rw [visits]
    generalize m.replaceFunction mprotect a f s = r at ha
    obtain ⟨fails, t⟩ := r
    cases fails with
    | true => exact ha
    | false => exact ih (fun b hb => hl b (List.mem_cons_of_mem a hb)) ha

/-- A slot that holds the new function is passed. -/
theorem visits_cons_of_eq (h : readPtr s.mem a = f) :
    m.visits mprotect f (a :: l) s = m.visits mprotect f l s := by
  rw [visits, replaceFunction, if_pos h]

/-- **What is pending after a slot was replaced**: the slot holds the new function, and the
others what they held. -/
theorem pending_replaceFunction {t : Process c} (hl : ∀ b ∈ a :: l, Aligned b)
    (h : readPtr s.mem a ≠ f) (ht : m.replaceFunction mprotect a f s = (false, t)) :
    Interpose.pending f (readPtr s.mem) (a :: l)
        = a :: Interpose.pending f (readPtr t.mem) l ∧ readPtr t.mem a = f := by
  have hmem : t.mem = writePtr s.mem a f := by
    rcases m.replaceFunction_cases mprotect a f s with ⟨heq, -⟩ | ⟨-, fails, u, hr, -, hu⟩
    · exact absurd heq h
    · obtain ⟨rfl, rfl⟩ := Prod.mk.inj (ht.symm.trans hr)
      exact hu
  rw [Interpose.pending, if_neg h]
  refine ⟨congrArg (a :: ·) (Interpose.pending_congr fun b hb => ?_), ?_⟩
  · rw [Function.update_apply, hmem]
    split_ifs with hab
    · rw [hab, readPtr_writePtr_self]
    · rw [readPtr_writePtr_of_ne s.mem f (hl a List.mem_cons_self)
        (hl b (List.mem_cons_of_mem a hb)) hab]
  · rw [hmem, readPtr_writePtr_self]

include hph in
/-- **When a run succeeds**: none of the pending slots is blocked, where each of them takes
one call of `mprotect`. -/
theorem visits_fst (hs : Set.EqOn s.mem mem₀ S)
    (hl : ∀ a ∈ l, Aligned a ∧ Disjoint (ptrBlock a) S) :
    (m.visits mprotect f l s).1 = true
      ↔ ∀ k a, (Interpose.pending f (readPtr s.mem) l)[k]? = some a →
        ¬ m.Blocked mprotect mem₀ (s.mprotects.length + k) a := by
  induction l generalizing s with
  | nil => exact iff_of_true rfl nofun
  | cons a l ih =>
    have hrest : ∀ b ∈ l, Aligned b ∧ Disjoint (ptrBlock b) S :=
      fun b hb => hl b (List.mem_cons_of_mem a hb)
    by_cases h : readPtr s.mem a = f
    · rw [visits_cons_of_eq h, Interpose.pending, if_pos h]
      exact ih hs hrest
    obtain ⟨hfst, hcalls⟩ := replaceFunction_fst (m := m) h
    have hS := @eqOn_replaceFunction _ m mprotect s _ f _ (hl a List.mem_cons_self).2
    rw [blocked_congr hph hs] at hfst hcalls
    rw [visits]
    by_cases hb : m.Blocked mprotect mem₀ s.mprotects.length a
    · rw [Interpose.pending, if_neg h]
      have hfail := hfst.mpr hb
      generalize m.replaceFunction mprotect a f s = r at hfail
      obtain ⟨fails, t⟩ := r
      obtain rfl : fails = true := hfail
      exact iff_of_false Bool.false_ne_true fun hall => hall 0 a rfl hb
    · have hcalls := hcalls hb
      cases hr : m.replaceFunction mprotect a f s with
      | mk fails t =>
        rw [hr] at hfst hcalls hS
        have hfails : fails = false := Bool.eq_false_iff.mpr fun hf => hb (hfst.mp hf)
        rw [hfails] at hr ⊢
        rw [(pending_replaceFunction (fun b hb => (hl b hb).1) h hr).1]
        refine (ih (hS.trans hs) hrest).trans ⟨fun hall k b hk => ?_, fun hall k b hk => ?_⟩
        · cases k with
          | zero => exact Option.some.inj hk ▸ hb
          | succ k =>
            have hk := hall k b hk
            rwa [hcalls, Nat.add_right_comm] at hk
        · have hk := hall (k + 1) b hk
          rwa [hcalls, Nat.add_right_comm]

include hph in
/-- **A run whose first pending slot is blocked** leaves the memory, and stores what the slot
holds if nothing is remembered. -/
theorem visits_of_blocked {rest : List c.Addr} (hs : Set.EqOn s.mem mem₀ S)
    (hp : Interpose.pending f (readPtr s.mem) l = a :: rest)
    (hb : m.Blocked mprotect mem₀ s.mprotects.length a) :
    (m.visits mprotect f l s).2.mem = s.mem ∧
      (m.visits mprotect f l s).2.oldFunc
          = if s.oldFunc = 0 then readPtr s.mem a else s.oldFunc := by
  induction l with
  | nil => exact absurd hp nofun
  | cons b l ih =>
    by_cases h : readPtr s.mem b = f
    · rw [Interpose.pending, if_pos h] at hp
      rw [visits_cons_of_eq h]
      exact ih hp
    · rw [Interpose.pending, if_neg h] at hp
      obtain rfl : b = a := (List.cons.inj hp).1
      have hfails := (replaceFunction_fst (m := m) h).1.mpr
        ((blocked_congr hph hs).mpr hb)
      rcases m.replaceFunction_cases mprotect b f s with ⟨heq, -⟩ | ⟨-, fails, t, hr, hold, hmem⟩
      · exact absurd heq h
      · rw [hr] at hfails
        obtain rfl : fails = true := hfails
        rw [visits, hr]
        exact ⟨hmem, hold⟩

include hph in
/-- **A run whose first pending slot is not blocked** replaces it. -/
theorem readPtr_visits_of_not_blocked {rest : List c.Addr} (hs : Set.EqOn s.mem mem₀ S)
    (hl : ∀ a ∈ l, Aligned a) (hp : Interpose.pending f (readPtr s.mem) l = a :: rest)
    (hb : ¬ m.Blocked mprotect mem₀ s.mprotects.length a) :
    readPtr s.mem a ≠ f ∧ readPtr (m.visits mprotect f l s).2.mem a = f := by
  induction l with
  | nil => exact absurd hp nofun
  | cons b l ih =>
    have hrest : ∀ a ∈ l, Aligned a := fun a ha => hl a (List.mem_cons_of_mem b ha)
    by_cases h : readPtr s.mem b = f
    · rw [Interpose.pending, if_pos h] at hp
      rw [visits_cons_of_eq h]
      exact ih hrest hp
    · rw [Interpose.pending, if_neg h] at hp
      obtain rfl : b = a := (List.cons.inj hp).1
      have hfst := (@replaceFunction_fst _ m mprotect _ _ _ h).1
      cases hr : m.replaceFunction mprotect b f s with
      | mk fails t =>
        rw [hr, blocked_congr hph hs] at hfst
        have hfails : fails = false := Bool.eq_false_iff.mpr fun hf => hb (hfst.mp hf)
        rw [hfails] at hr
        rw [visits, hr]
        exact ⟨h, readPtr_visits hrest (hl b List.mem_cons_self)
          (pending_replaceFunction hl h hr).2⟩

end Aligned

/-! ## When a failing call leaves everything -/

/-- **The relocation slots and `*old_func` are as they were.** -/
structure Untouched (m : Module c) (s t : Process c) : Prop where
  plt : ∀ r ∈ m.relocs s.mem m.relpltAddr 0 m.relpltCounts,
    readPtr t.mem (m.slotOf r) = readPtr s.mem (m.slotOf r)
  dyn : ∀ r ∈ m.relocs s.mem m.reldynAddr 0 m.reldynCounts,
    readPtr t.mem (m.slotOf r) = readPtr s.mem (m.slotOf r)
  oldFunc : t.oldFunc = s.oldFunc

/-- Every slot that a symbol is hooked at is a relocation slot. -/
theorem Untouched.slot {t : Process c} (h : m.Untouched s t) (ha : a ∈ m.slots s.mem symidx) :
    readPtr t.mem a = readPtr s.mem a := by
  rcases List.mem_append.mp ha with hplt | hdyn
  · obtain ⟨r, hr, rfl⟩ := Option.map_eq_some_iff.mp (Option.mem_toList.mp hplt)
    exact h.plt r (List.mem_of_find?_eq_some hr)
  · obtain ⟨r, hr, rfl⟩ := List.mem_map.mp hdyn
    exact h.dyn r (List.mem_filter.mp hr).1

/-- The slots of a symbol that hooking it has to replace. -/
def pendingSlots (m : Module c) (mem : c.Mem) (f : c.Addr) (symidx : ℕ) : List c.Addr :=
  Interpose.pending f (readPtr mem) (m.slots mem symidx)

/-- **When a call of `hook` that fails leaves every relocation slot and `*old_func`.** The
module is loaded, and its aligned slots are apart from the metadata. What is needed is that
the symbol is not found, or that no slot that has to be replaced is blocked, so the call
does not fail, or that the first of them is blocked and there is nothing to be remembered of
it: `*old_func` is set, or the slot holds 0. -/
theorem hook_allOrNothing_iff {fuel : ℕ} {symbol : Chars} (hl : m.isLoaded = true)
    (hmeta : m.Metadata s.mem fuel symbol S)
    (hslots : ∀ r, m.findSymbolByName s.mem fuel symbol 0 0 = some r →
      ∀ a ∈ m.slots s.mem r.symidx, Aligned a ∧ Disjoint (ptrBlock a) S) :
    (∀ m' t, m.hook mprotect fuel symbol f s = some (false, m', t) → m.Untouched s t) ↔
      ∀ r, m.findSymbolByName s.mem fuel symbol 0 0 = some r → r.sym ≠ 0 →
        (∀ k a, (m.pendingSlots s.mem f r.symidx)[k]? = some a →
            ¬ m.Blocked mprotect s.mem (s.mprotects.length + k) a) ∨
          ∃ a, (m.pendingSlots s.mem f r.symidx).head? = some a ∧
            m.Blocked mprotect s.mem s.mprotects.length a ∧
            (s.oldFunc ≠ 0 ∨ readPtr s.mem a = 0) := by
  cases hfind : m.findSymbolByName s.mem fuel symbol 0 0 with
  | none =>
    refine iff_of_true (fun m' t ht => ?_) fun r hr => absurd hr.symm (Option.some_ne_none r)
    simp only [hook, hl, if_true, hfind, not_true, if_false, Option.bind_eq_bind,
      Option.bind_none] at ht
    exact absurd ht.symm (Option.some_ne_none _)
  | some r =>
    have ha := hslots r hfind
    have hhook := @hook_eq_visits _ m mprotect s f _ _ _ _ hl hmeta hfind (fun a h => (ha a h).2)
    have hsame : ∀ t : Process c, t.mem = s.mem → t.oldFunc = s.oldFunc → m.Untouched s t :=
      fun t hmem hold => ⟨fun _ _ => by rw [hmem], fun _ _ => by rw [hmem], hold⟩
    have hfst := @visits_fst _ m mprotect _ _ f _ _ hmeta.phdrs (Set.eqOn_refl _ _) ha
    rw [hhook]
    by_cases hsym : r.sym = 0
    · rw [if_pos hsym]
      refine iff_of_true (fun m' t ht => ?_) (fun r' hr' hne => ?_)
      · obtain rfl : s = t := congrArg (fun x => x.2.2) (Option.some.inj ht)
        exact hsame s rfl rfl
      · exact absurd (Option.some.inj hr' ▸ hsym) hne
    rw [if_neg hsym]
    constructor
    · rintro h r' hr' -
      obtain rfl := Option.some.inj hr'
      by_contra hcond
      obtain ⟨hfails, hfirst⟩ := not_or.mp hcond
      have hfalse := Bool.eq_false_iff.mpr (fun ht => hfails (hfst.mp ht))
      have hun := h m _ (by rw [← hfalse])
      -- the call fails, so some slot is pending
      cases hp : m.pendingSlots s.mem f r.symidx with
      | nil =>
        refine hfails fun k a hk => ?_
        rw [hp, List.getElem?_nil] at hk
        exact absurd hk.symm (Option.some_ne_none a)
      | cons a rest =>
        have hmem : a ∈ m.slots s.mem r.symidx :=
          Interpose.mem_of_mem_pending (f := f)
            (show a ∈ m.pendingSlots s.mem f r.symidx from hp ▸ List.mem_cons_self)
        by_cases hb : m.Blocked mprotect s.mem s.mprotects.length a
        · obtain ⟨-, hold⟩ := visits_of_blocked hmeta.phdrs (Set.eqOn_refl _ _) hp hb
          rw [hun.oldFunc] at hold
          refine hfirst ⟨a, by rw [hp]; rfl, hb, ?_⟩
          split_ifs at hold with h0
          · exact .inr (hold.symm.trans h0)
          · exact .inl h0
        · obtain ⟨hne, heq⟩ := readPtr_visits_of_not_blocked hmeta.phdrs (Set.eqOn_refl _ _)
            (fun a h => (ha a h).1) hp hb
          exact hne ((hun.slot hmem).symm.trans heq)
    · intro h m' t ht
      have hfalse : (m.visits mprotect f (m.slots s.mem r.symidx) s).1 = false :=
        congrArg (fun x => x.1) (Option.some.inj ht)
      obtain rfl : (m.visits mprotect f (m.slots s.mem r.symidx) s).2 = t :=
        congrArg (fun x => x.2.2) (Option.some.inj ht)
      rcases h r rfl hsym with hall | ⟨a, hp, hb, hold⟩
      · rw [hfst.mpr hall] at hfalse
        exact absurd hfalse.symm Bool.false_ne_true
      · obtain ⟨rest, hp⟩ := List.head?_eq_some_iff.mp hp
        obtain ⟨hmem, hkeep⟩ := visits_of_blocked hmeta.phdrs (Set.eqOn_refl _ _) hp hb
        refine hsame _ hmem (hkeep.trans ?_)
        split_ifs with h0
        · exact (hold.resolve_left (not_not_intro h0)).trans h0.symm
        · rfl

/-! ### The image with three slots -/

theorem sampleHook_apart (r : Lookup .elf32)
    (hr : sampleHookModule.findSymbolByName sampleHookMem 0 [0x61] 0 0 = some r) :
    ∀ a ∈ sampleHookModule.slots sampleHookMem r.symidx,
      Aligned a ∧ Disjoint (ptrBlock a) {x | x.toNat < 128} := by
  have hfind : sampleHookModule.findSymbolByName sampleHookMem 0 [0x61] 0 0
      = some ⟨true, 24, 1⟩ := by decide
  obtain rfl := Option.some.inj (hfind.symm.trans hr)
  exact fun a ha => ⟨(sampleHook_isSlot ha).aligned, (sampleHook_isSlot ha).apart⟩

/-- Where the first call of `mprotect` fails and something is remembered, the call leaves
everything. -/
theorem hook_allOrNothing_iff_first :
    ¬ ∃ r, sampleHookModule.hook (fun _ => false) 0 [0x61] 0x1234 ⟨sampleHookMem, 1, []⟩ = some r
      ∧ r.1 = false ∧ ¬ sampleHookModule.Untouched ⟨sampleHookMem, 1, []⟩ r.2.2 := by
  have h := (@hook_allOrNothing_iff _ sampleHookModule (fun _ => false)
    ⟨sampleHookMem, 1, []⟩ 0x1234
    _ 0 [0x61] rfl sampleHook_metadata sampleHook_apart).mpr fun r hr _ =>
      .inr ⟨0x1000, by
        have hfind : sampleHookModule.findSymbolByName sampleHookMem 0 [0x61] 0 0
            = some ⟨true, 24, 1⟩ := by decide
        obtain rfl := Option.some.inj (hfind.symm.trans hr)
        decide, .inr rfl, .inl (by decide)⟩
  rintro ⟨⟨_, m', t⟩, hr, rfl, hun⟩
  exact hun (h m' t hr)

/-- **A call that fails half way.** The second call of `mprotect` fails: `hook` returns
`false`, the first slot holds the new function, and `*old_func` is set. -/
theorem hook_fails_halfway :
    (sampleHookModule.hook (fun n => n = 0) 0 [0x61] 0x1234 ⟨sampleHookMem, 0, []⟩).map
        (fun r => (r.1, readPtr r.2.2.mem 0x1000, r.2.2.oldFunc))
      = some (false, 0x1234, 0x55555555) ∧
    ¬ ∀ m' t, sampleHookModule.hook (fun n => n = 0) 0 [0x61] 0x1234 ⟨sampleHookMem, 0, []⟩
      = some (false, m', t) → sampleHookModule.Untouched ⟨sampleHookMem, 0, []⟩ t := by
  have hrun : (sampleHookModule.hook (fun n => n = 0) 0 [0x61] 0x1234 ⟨sampleHookMem, 0, []⟩).map
      (fun r => (r.1, readPtr r.2.2.mem 0x1000, r.2.2.oldFunc))
        = some (false, 0x1234, 0x55555555) := by decide
  refine ⟨hrun, fun h => ?_⟩
  obtain ⟨⟨ok, m', t⟩, hr, hval⟩ := Option.map_eq_some_iff.mp hrun
  obtain rfl : ok = false := congrArg (fun x => x.1) hval
  have hold : t.oldFunc = 0x55555555 := congrArg (fun x => x.2.2) hval
  exact absurd ((h m' t hr).oldFunc.symm.trans hold) (by decide)

end Module

end Elf
