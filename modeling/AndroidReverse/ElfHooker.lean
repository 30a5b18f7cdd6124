import AndroidReverse.ElfHookFailure

/-!
# The class `elf_hooker`: hooking several modules

`hook_all_modules` and `hook_module` go through the map of the modules and call `hook` on
those that pass a test (`hookEach`). The test of `hook_module` is a search in the name of
the module; its result, a `size_t`, is kept in an `unsigned int` and then compared with
`std::string::npos`.

The map is the list of its entries, in the order of their keys. What hooking one module
does is a parameter of the loop, and `hookProcess` is what it does to a process.
-/

open ByteMemory

namespace Elf

variable {c : ElfClass}

/-- `std::string::npos`, the largest `size_t`. -/
def npos (c : ElfClass) : ℕ := 2 ^ c.bits - 1

/-- **A module with its name**, a `std::string`, the length of which is less than `npos`. -/
structure Entry (c : ElfClass) where
  name : Chars
  module : Module c
  name_lt : name.length < npos c

/-- `a.find(s, 0)`: where `s` occurs first, or `npos`. -/
def find (c : ElfClass) (a s : Chars) : ℕ :=
  ((List.range (a.length + 1)).find? fun i => s.isPrefixOf (a.drop i)).getD (npos c)

namespace Hooker

variable {σ : Type*}

/-- The loop over the modules: `hook` is called on those whose name passes the test. -/
def hookEach (test : Chars → Bool) (hook : Module c → σ → Option (Module c × σ)) :
    List (Entry c) → σ → Option (List (Entry c) × σ)
  | [], s => some ([], s)
  | e :: es, s =>
    if test e.name then do
      let (module, s) ← hook e.module s
      let (es, s) ← hookEach test hook es s
      return ({ e with module } :: es, s)
    else do
      let (es, s) ← hookEach test hook es s
      return (e :: es, s)

/-- `hook_all_modules`; `prehook` is the callback, if one is set, at the name of the function. -/
def hookAllModules (prehook : Option (Chars → Bool))
    (hook : Module c → σ → Option (Module c × σ)) :
    List (Entry c) → σ → Option (List (Entry c) × σ) :=
  hookEach (fun name => prehook.all (· name)) hook

/-- The test of `hook_module`. The position is stored in an `unsigned int`. -/
def isSelected (c : ElfClass) (moduleName name : Chars) : Bool :=
  find c name moduleName % 2 ^ 32 ≠ npos c

/-- `hook_module`. -/
def hookModule (moduleName : Chars) (hook : Module c → σ → Option (Module c × σ)) :
    List (Entry c) → σ → Option (List (Entry c) × σ) :=
  hookEach (isSelected c moduleName) hook

/-- `hook`, as the loops call it on a process; they do not look at its result. -/
def hookProcess (mprotect : ℕ → Bool) (fuel : ℕ) (symbol : Chars) (f : c.Addr) (m : Module c)
    (s : Process c) : Option (Module c × Process c) :=
  (m.hook mprotect fuel symbol f s).map Prod.snd

/-! ## The search in a name -/

/-- **`find` finds what is there.** -/
theorem find_lt_iff {a s : Chars} (ha : a.length < npos c) : find c a s < npos c ↔ s <:+: a := by
  have hin : s <:+: a ↔ ∃ i ∈ List.range (a.length + 1), s.isPrefixOf (a.drop i) = true := by
    simp only [List.mem_range, List.isPrefixOf_iff_prefix]
    constructor
    · rintro ⟨l, r, rfl⟩
      refine ⟨l.length, ?_, ?_⟩
      · simp only [List.length_append]
        omega
      · rw [List.append_assoc, List.drop_left]
        exact List.prefix_append s r
    · rintro ⟨i, -, h⟩
      exact h.isInfix.trans (List.drop_suffix i a).isInfix
  rw [find, hin]
  cases hf : (List.range (a.length + 1)).find? fun i => s.isPrefixOf (a.drop i) with
  | none =>
    refine iff_of_false (lt_irrefl _) fun ⟨i, hi, hp⟩ => ?_
    exact List.find?_eq_none.mp hf i hi hp
  | some i =>
    have hi := List.mem_of_find?_eq_some hf
    refine iff_of_true ?_ ⟨i, hi, by simpa using List.find?_some hf⟩
    exact lt_of_le_of_lt (Nat.lt_succ_iff.mp (List.mem_range.mp hi)) ha

theorem find_le {a s : Chars} (ha : a.length < npos c) : find c a s ≤ npos c := by
  rw [find]
  cases hf : (List.range (a.length + 1)).find? fun i => s.isPrefixOf (a.drop i) with
  | none => exact le_rfl
  | some i =>
    have hi := List.mem_range.mp (List.mem_of_find?_eq_some hf)
    exact le_of_lt (lt_of_le_of_lt (Nat.lt_succ_iff.mp hi) ha)

/-- **The test of `hook_module`**: where a `size_t` has four bytes it is whether the name
contains the argument, and where it has eight every name passes. -/
theorem isSelected_iff {name : Chars} (hname : name.length < npos c) (moduleName : Chars) :
    isSelected c moduleName name = true ↔ c = .elf64 ∨ moduleName <:+: name := by
  rw [isSelected, decide_eq_true_eq]
  cases c with
  | elf32 =>
    have hle := find_le (s := moduleName) hname
    have hnpos : npos .elf32 = 2 ^ 32 - 1 := rfl
    rw [Nat.mod_eq_of_lt (by omega), ← find_lt_iff hname, lt_iff_le_and_ne]
    simp [hle]
  | elf64 =>
    have hnpos : npos .elf64 = 2 ^ 64 - 1 := rfl
    exact iff_of_true (by omega) (.inl rfl)

/-! ## What the loop does to a process -/

end Hooker

namespace Module

variable {m m' : Module c} {mprotect : ℕ → Bool} {mem mem' : c.Mem} {s t : Process c}
  {f : c.Addr} {S D : Set c.Addr} {fuel : ℕ} {symbol : Chars}

/-- The module as `hook` uses it, read from the image if it is not loaded yet, and whether
that went well. -/
def viewed (mem : c.Mem) (m : Module c) : Bool × Module c :=
  if m.isLoaded then (true, m)
  else
    let (isLoaded, m) := getSegmentView mem m
    (isLoaded, { m with isLoaded })

theorem isLoaded_viewed (mem : c.Mem) (m : Module c) :
    (viewed mem m).2.isLoaded = (viewed mem m).1 := by
  rw [viewed]
  split_ifs with h
  · exact h
  · rfl

/-- **`hook` loads the module first.** -/
theorem hook_eq_viewed :
    m.hook mprotect fuel symbol f s
      = if (viewed s.mem m).1 then (viewed s.mem m).2.hook mprotect fuel symbol f s
        else some (false, (viewed s.mem m).2, s) := by
  by_cases hm : m.isLoaded = true
  · have hv : viewed s.mem m = (true, m) := if_pos hm
    rw [hv]
    exact (if_pos rfl).symm
  · have hv : viewed s.mem m = (let (isLoaded, m) := getSegmentView s.mem m
        (isLoaded, { m with isLoaded })) := if_neg hm
    rw [hv, hook, if_neg hm]
    cases getSegmentView s.mem m with
    | mk isLoaded v => cases isLoaded <;> rfl

/-- **A module that is laid out apart from `D`**: what `hook` reads of it is in `S`, and the
slots it may write are in neither of the two. -/
structure LaidOut (m : Module c) (mem : c.Mem) (fuel : ℕ) (symbol : Chars) (S D : Set c.Addr) :
    Prop where
  view : DependsOn S (fun mem => viewed mem m) mem
  metadata : (viewed mem m).2.Metadata mem fuel symbol S
  slots : ∀ r, (viewed mem m).2.findSymbolByName mem fuel symbol 0 0 = some r →
    ∀ a ∈ (viewed mem m).2.slots mem r.symidx, Disjoint (ptrBlock a) (S ∪ D)

/-- The slots are read from the metadata. -/
theorem Metadata.slots_congr (h : m.Metadata mem fuel symbol S) (hS : Set.EqOn mem' mem S)
    (symidx : ℕ) : m.slots mem' symidx = m.slots mem symidx := by
  have hplt : m.relocs mem' m.relpltAddr 0 m.relpltCounts
      = m.relocs mem m.relpltAddr 0 m.relpltCounts :=
    List.map_congr_left fun i hi => h.relplt i (by simpa using List.mem_range'_1.mp hi) hS
  have hdyn : m.relocs mem' m.reldynAddr 0 m.reldynCounts
      = m.relocs mem m.reldynAddr 0 m.reldynCounts :=
    List.map_congr_left fun i hi => h.reldyn i (by simpa using List.mem_range'_1.mp hi) hS
  rw [Module.slots, Module.slots, pltSlots, pltSlots, dynSlots, dynSlots, hplt, hdyn]

/-- A memory that agrees with another one where a computation reads is read alike. -/
theorem dependsOn_congr {β : Type*} {g : c.Mem → β} (h : DependsOn S g mem)
    (hS : Set.EqOn mem' mem S) : DependsOn S g mem' :=
  fun _ h' => (h (h'.trans hS)).trans (h hS).symm

/-- The layout stays as long as `S` does. -/
theorem LaidOut.congr (h : m.LaidOut mem fuel symbol S D) (hS : Set.EqOn mem' mem S) :
    m.LaidOut mem' fuel symbol S D := by
  have hview : viewed mem' m = viewed mem m := h.view hS
  refine ⟨dependsOn_congr h.view hS, ?_, fun r hr => ?_⟩
  · rw [hview]
    exact
      { phdrs := dependsOn_congr h.metadata.phdrs hS
        relplt := fun i hi => dependsOn_congr (h.metadata.relplt i hi) hS
        reldyn := fun i hi => dependsOn_congr (h.metadata.reldyn i hi) hS
        symbol := dependsOn_congr h.metadata.symbol hS }
  · rw [hview] at hr ⊢
    rw [h.metadata.slots_congr hS]
    exact h.slots r ((h.metadata.symbol hS).symm.trans hr)

/-- **Hooking a symbol in a module** changes neither what `hook` reads nor what the module is
apart from. -/
theorem LaidOut.eqOn_hook {ok : Bool} (h : m.LaidOut s.mem fuel symbol S D)
    (ht : m.hook mprotect fuel symbol f s = some (ok, m', t)) : Set.EqOn t.mem s.mem (S ∪ D) := by
  rw [hook_eq_viewed] at ht
  split_ifs at ht with hl
  · have hloaded := (isLoaded_viewed s.mem m).trans hl
    cases hfind : (viewed s.mem m).2.findSymbolByName s.mem fuel symbol 0 0 with
    | none =>
      simp only [hook, hloaded, if_true, hfind, not_true, if_false, Option.bind_eq_bind,
        Option.bind_none] at ht
      exact absurd ht.symm (Option.some_ne_none _)
    | some r =>
      have hS : ∀ a ∈ (viewed s.mem m).2.slots s.mem r.symidx, Disjoint (ptrBlock a) S :=
        fun a ha => (h.slots r hfind a ha).mono_right Set.subset_union_left
      rw [hook_eq_visits hloaded h.metadata hfind hS] at ht
      split_ifs at ht
      · obtain rfl : s = t := congrArg (fun x => x.2.2) (Option.some.inj ht)
        exact Set.eqOn_refl _ _
      · obtain rfl : _ = t := congrArg (fun x => x.2.2) (Option.some.inj ht)
        exact eqOn_visits (h.slots r hfind)
  · obtain rfl : s = t := congrArg (fun x => x.2.2) (Option.some.inj ht)
    exact Set.eqOn_refl _ _

end Module

namespace Hooker

variable {σ : Type*} {test : Chars → Bool} {mprotect : ℕ → Bool} {s t : Process c} {f : c.Addr}
  {S D : Set c.Addr} {fuel : ℕ} {symbol : Chars} {es es' : List (Entry c)}

/-- **Hooking several modules** changes neither what `hook` reads of them nor what all of them
are apart from. -/
theorem eqOn_hookEach
    (h : ∀ e ∈ es, test e.name = true → e.module.LaidOut s.mem fuel symbol S D)
    (ht : hookEach test (hookProcess mprotect fuel symbol f) es s = some (es', t)) :
    Set.EqOn t.mem s.mem (S ∪ D) := by
  induction es generalizing s es' with
  | nil =>
    obtain rfl : s = t := congrArg Prod.snd (Option.some.inj ht)
    exact Set.eqOn_refl _ _
  | cons e es ih =>
    rw [hookEach] at ht
    split_ifs at ht with he
    · simp only [Option.bind_eq_bind, Option.bind_eq_some_iff] at ht
      obtain ⟨⟨m', u⟩, hu, ⟨es'', v⟩, hv, hret⟩ := ht
      obtain rfl : v = t := congrArg Prod.snd (Option.some.inj hret)
      obtain ⟨⟨ok, m'', u'⟩, hhook, hsnd⟩ := Option.map_eq_some_iff.mp hu
      obtain ⟨rfl, rfl⟩ := Prod.mk.inj hsnd
      have hfirst := (h e List.mem_cons_self he).eqOn_hook hhook
      have hS : Set.EqOn u'.mem s.mem S := hfirst.mono Set.subset_union_left
      exact (ih (fun e' he' htest =>
        (h e' (List.mem_cons_of_mem e he') htest).congr hS) hv).trans hfirst
    · simp only [Option.bind_eq_bind, Option.bind_eq_some_iff] at ht
      obtain ⟨⟨es'', v⟩, hv, hret⟩ := ht
      obtain rfl : v = t := congrArg Prod.snd (Option.some.inj hret)
      exact ih (fun e' he' => h e' (List.mem_cons_of_mem e he')) hv

/-- A loop that counts the calls. -/
theorem hookEach_count (test : Chars → Bool) (es : List (Entry c)) (n : ℕ) :
    hookEach test (fun m n => some (m, n + 1)) es n
      = some (es, n + es.countP fun e => test e.name) := by
  induction es generalizing n with
  | nil => rfl
  | cons e es ih =>
    rw [hookEach, List.countP_cons]
    split_ifs with he
    · simp [ih, Nat.add_assoc, Nat.add_comm 1]
    · simp [ih]

/-- **Two tests that agree on the names make the same loop.** -/
theorem hookEach_congr {test' : Chars → Bool} (h : ∀ e ∈ es, test e.name = test' e.name)
    (hook : Module c → σ → Option (Module c × σ)) (s : σ) :
    hookEach test hook es s = hookEach test' hook es s := by
  induction es generalizing s with
  | nil => rfl
  | cons e es ih =>
    have hrest := ih fun e' he' => h e' (List.mem_cons_of_mem e he')
    rw [hookEach, hookEach, h e List.mem_cons_self]
    simp only [hrest]

/-! ## Which modules `hook_module` hooks -/

/-- The relocation slots of a module as `hook` uses it. -/
def relocSlots (m : Module c) (mem : c.Mem) : List c.Addr :=
  let m := (Module.viewed mem m).2
  (m.relocs mem m.relpltAddr 0 m.relpltCounts ++ m.relocs mem m.reldynAddr 0 m.reldynCounts).map
    m.slotOf

/-- The addresses of the relocation slots of the modules whose name does not contain the
argument. -/
def otherSlots (moduleName : Chars) (es : List (Entry c)) (mem : c.Mem) : Set c.Addr :=
  {x | ∃ e ∈ es, ¬ moduleName <:+: e.name ∧ ∃ a ∈ relocSlots e.module mem, x ∈ ptrBlock a}

/-- **`hook_module` hooks exactly the modules whose name contains the argument**: whatever
`hook` does, the effect is that of calling it on these modules in order, and nothing else;
and on a process where these modules are laid out apart from the slots of the others, the
slots of the others hold what they held. -/
structure HooksExactly (moduleName : Chars) (es : List (Entry c)) : Prop where
  calls : ∀ (σ : Type) (hook : Module c → σ → Option (Module c × σ)) (s : σ),
    hookModule moduleName hook es s = hookEach (fun name => moduleName <:+: name) hook es s
  frame : ∀ (mprotect : ℕ → Bool) (fuel : ℕ) (symbol : Chars) (f : c.Addr) (s t : Process c)
    (es' : List (Entry c)) (S : Set c.Addr),
    hookModule moduleName (hookProcess mprotect fuel symbol f) es s = some (es', t) →
    (∀ e ∈ es, moduleName <:+: e.name →
      e.module.LaidOut s.mem fuel symbol S (otherSlots moduleName es s.mem)) →
    ∀ e ∈ es, ¬ moduleName <:+: e.name → ∀ a ∈ relocSlots e.module s.mem,
      readPtr t.mem a = readPtr s.mem a

/-- **When `hook_module` hooks exactly the modules whose name contains the argument**: where a
`size_t` has four bytes always, and where it has eight only if every name contains it. -/
theorem hooksExactly_iff (moduleName : Chars) (es : List (Entry c)) :
    HooksExactly moduleName es ↔ c = .elf32 ∨ ∀ e ∈ es, moduleName <:+: e.name := by
  constructor
  · rintro ⟨hcalls, -⟩
    by_contra hnot
    obtain ⟨hc, hall⟩ := not_or.mp hnot
    have h64 : c = .elf64 := by
      cases c with
      | elf32 => exact absurd rfl hc
      | elf64 => rfl
    -- every module is hooked, and those the claim is about are fewer
    have hcount := hcalls ℕ (fun m n => some (m, n + 1)) 0
    rw [hookModule, hookEach_count, hookEach_count] at hcount
    have heq := congrArg Prod.snd (Option.some.inj hcount)
    have hselected : es.countP (fun e => isSelected c moduleName e.name) = es.length :=
      List.countP_eq_length.mpr fun e _ => (isSelected_iff e.name_lt moduleName).mpr (.inl h64)
    rw [hselected, Nat.zero_add, Nat.zero_add] at heq
    exact hall fun e he => by simpa using List.countP_eq_length.mp heq.symm e he
  · intro h
    have htest : ∀ e ∈ es, isSelected c moduleName e.name = decide (moduleName <:+: e.name) := by
      intro e he
      refine Bool.eq_iff_iff.mpr ((isSelected_iff e.name_lt moduleName).trans ?_)
      rw [decide_eq_true_eq]
      rcases h with h32 | hall
      · simp [h32]
      · exact iff_of_true (.inr (hall e he)) (hall e he)
    refine ⟨fun σ hook s => hookEach_congr htest hook s, ?_⟩
    intro mprotect fuel symbol f s t es' S ht hlaid e he hother a ha
    rw [hookModule, @hookEach_congr _ _ _ _ (fun name => moduleName <:+: name) htest] at ht
    have heqOn := eqOn_hookEach
      (fun e he htest => hlaid e he (of_decide_eq_true htest)) ht
    refine readPtr_congr (heqOn.mono fun x hx => .inr ⟨e, he, hother, a, ha, hx⟩)

/-- **On a 64-bit build every module is hooked**: a map with the one module `a`, where
`hook_module` is called for `b`. -/
theorem not_hooksExactly_other :
    ¬ HooksExactly [0x62] [(⟨[0x61], default, by decide⟩ : Entry .elf64)] := by
  rintro ⟨hcalls, -⟩
  have hcount := congrArg (Option.map Prod.snd) (hcalls ℕ (fun m n => some (m, n + 1)) 0)
  rw [hookModule, hookEach_count, hookEach_count] at hcount
  exact absurd hcount (by decide)

end Hooker

end Elf
