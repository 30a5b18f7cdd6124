import AndroidReverse.ExportSymbols

/-!
# When loading the symbols of a file is safe

`do_load` checks that the file has as many bytes as it says, and neither that the number
of the section with the names is one of a section nor that the name of a section or of a
symbol ends inside its string table. So it reads outside an array for some files, and so
does `lookup_sym` for some names after other files have been loaded.

`SafeFile` is the exact condition on the file (`doLoad_safe_iff`). It goes along the
stages of the loading, since what is not reached is not read: a file that is refused
early may hold anything later on. A symbol whose name does not end in the string table
is found out by a name that is long enough to be compared with all that is left of the
table, and that no symbol before it has.
-/

namespace ExportUtil

open Checked

/-! ## The kinds of the sections -/

/-- The kind of a section, by its type and its name. -/
def kindOf (shstrtab : List Byte) (p : Shdr) : Option Kind :=
  if p.type = 2 then some .symtab
  else if p.type = 11 then some .dynsym
  else if p.type = 3 then
    if strtabName <+: shstrtab.drop p.name then some .strtab
    else if dynstrName <+: shstrtab.drop p.name then some .dynstr
    else none
  else none

/-- The name of a string table section differs from `.strtab` and `.dynstr` before the
names end, if it differs at all. -/
def NameEnds (shstrtab : List Byte) (p : Shdr) : Prop :=
  p.type = 3 → ¬ Cut (shstrtab.drop p.name) strtabName ∧ ¬ Cut (shstrtab.drop p.name) dynstrName

/-- No two sections are of one kind. -/
def Distinct (shstrtab : List Byte) (l : List Shdr) : Prop :=
  l.Pairwise (fun p q => ∀ k, kindOf shstrtab p = some k → kindOf shstrtab q ≠ some k)

/-- The first section of each kind. -/
def headers (shstrtab : List Byte) (shdr : List Shdr) : Headers :=
  fun k => shdr.find? (fun p => kindOf shstrtab p = some k)

variable {tab : List Byte}

/-- What follows a section's name in the loop: its kind, if its name ends. -/
theorem sectionKind_eq (p : Shdr) :
    (NameEnds tab p → sectionKind tab p = .ok (kindOf tab p))
      ∧ (¬ NameEnds tab p → sectionKind tab p = .error .outOfBounds) := by
  unfold sectionKind kindOf NameEnds
  by_cases h2 : p.type = 2
  · simp [h2]
  by_cases h11 : p.type = 11
  · simp [h11]
  by_cases h3 : p.type = 3
  swap
  · simp [h2, h11, h3]
  rw [if_neg h2, if_neg h2, if_neg h11, if_neg h11, if_pos h3, if_pos h3, startsWith_eq,
    startsWith_eq]
  by_cases hs : Cut (tab.drop p.name) strtabName
  · rw [if_pos hs]
    exact ⟨fun h => absurd hs (h h3).1, fun _ => rfl⟩
  rw [if_neg hs]
  by_cases hsp : strtabName <+: tab.drop p.name
  · -- what has seven characters is not cut off
    have hd : ¬ Cut (tab.drop p.name) dynstrName :=
      fun h => absurd h.length_lt (not_lt.mpr hsp.length_le)
    rw [decide_eq_true hsp, if_pos hsp]
    exact ⟨fun _ => rfl, fun h => absurd (fun _ => ⟨hs, hd⟩) h⟩
  rw [decide_eq_false hsp, if_neg hsp]
  by_cases hd : Cut (tab.drop p.name) dynstrName
  · rw [if_pos hd]
    exact ⟨fun h => absurd hd (h h3).2, fun _ => rfl⟩
  rw [if_neg hd]
  refine ⟨fun _ => ?_, fun h => absurd (fun _ => ⟨hs, hd⟩) h⟩
  by_cases hdp : dynstrName <+: tab.drop p.name
  · rw [decide_eq_true hdp, if_pos hdp]
    rfl
  · rw [decide_eq_false hdp, if_neg hdp]
    rfl

/-! ## The loop over the sections -/

/-- A run of sections, none of which is the second one of its kind. -/
def Fresh (tab : List Byte) (found : Headers) (l : List Shdr) : Prop :=
  Distinct tab l ∧ ∀ q ∈ l, ∀ k, kindOf tab q = some k → found k = none

theorem fresh_start {l : List Shdr} : Fresh tab (fun _ => none) l ↔ Distinct tab l :=
  and_iff_left (fun _ _ _ _ => rfl)

theorem fresh_cons_none {found : Headers} {p : Shdr} {l : List Shdr}
    (hp : kindOf tab p = none) : Fresh tab found (p :: l) ↔ Fresh tab found l := by
  unfold Fresh Distinct
  simp [hp]

theorem fresh_cons_some {found : Headers} {p : Shdr} {l : List Shdr} {k : Kind}
    (hp : kindOf tab p = some k) : Fresh tab found (p :: l)
      ↔ found k = none ∧ Fresh tab (Function.update found k (some p)) l := by
  unfold Fresh Distinct
  rw [List.pairwise_cons, List.forall_mem_cons, hp]
  constructor
  · rintro ⟨⟨hne, hl⟩, hk, hq⟩
    refine ⟨hk k rfl, hl, fun q hql j hj => ?_⟩
    rw [Function.update_of_ne]
    · exact hq q hql j hj
    · rintro rfl
      exact hne q hql j rfl hj
  · rintro ⟨hk, hl, hq⟩
    have hne : ∀ q ∈ l, ∀ j, kindOf tab q = some j → j ≠ k := by
      rintro q hql j hj rfl
      have hnone := hq q hql j hj
      rw [Function.update_self] at hnone
      cases hnone
    refine ⟨⟨?_, hl⟩, ?_, fun q hql j hj => ?_⟩
    · rintro q hql j ⟨⟩ hj
      exact hne q hql k hj rfl
    · rintro j ⟨⟩
      exact hk
    · rw [← hq q hql j hj, Function.update_of_ne (hne q hql j hj)]

/-- **The loop returns** if the name ends of every section it comes to, which is every
section behind a run without two of one kind. -/
theorem returns_scanSections {found : Headers} {shdr : List Shdr} :
    Returns (scanSections tab shdr found)
      ↔ ∀ l p l', shdr = l ++ p :: l' → Fresh tab found l → NameEnds tab p := by
  induction shdr generalizing found with
  | nil => exact iff_of_true (returns_ok _) (fun l p l' h => by simp at h)
  | cons p ps ih =>
    by_cases hp : NameEnds tab p
    swap
    · refine iff_of_false ?_ (fun h => hp (h [] p ps rfl ⟨List.Pairwise.nil, by simp⟩))
      rw [scanSections, (sectionKind_eq p).2 hp]
      exact not_returns_error _
    rw [scanSections, bind_ok ((sectionKind_eq p).1 hp)]
    -- the run is empty, or it begins with `p`
    have hsplit : (∀ l q l', p :: ps = l ++ q :: l' → Fresh tab found l → NameEnds tab q)
        ↔ ∀ l q l', ps = l ++ q :: l' → Fresh tab found (p :: l) → NameEnds tab q := by
      refine ⟨fun h l q l' hps => h (p :: l) q l' (by rw [hps, List.cons_append]), ?_⟩
      intro h l q l' hps hl
      cases l with
      | nil =>
        rw [List.nil_append, List.cons.injEq] at hps
        exact hps.1 ▸ hp
      | cons r l =>
        rw [List.cons_append, List.cons.injEq] at hps
        exact h l q l' hps.2 (hps.1 ▸ hl)
    rw [hsplit]
    cases hk : kindOf tab p with
    | none =>
      simp only [fresh_cons_none hk]
      exact ih
    | some k =>
      simp only [fresh_cons_some hk]
      cases hf : found k with
      | some r =>
        rw [Option.isSome_some, if_pos rfl]
        refine iff_of_true (returns_pure _) (fun l q l' _ h => ?_)
        cases h.1
      | none =>
        rw [Option.isSome_none, if_neg Bool.false_ne_true]
        simp only [true_and]
        exact ih

theorem headers_cons (p : Shdr) (ps : List Shdr) (k : Kind) :
    headers tab (p :: ps) k = if kindOf tab p = some k then some p else headers tab ps k := by
  unfold headers
  rw [List.find?_cons]
  by_cases h : kindOf tab p = some k
  · rw [if_pos h, decide_eq_true h]
  · rw [if_neg h, decide_eq_false h]

/-- **What the loop finds**: the sections of the kinds, unless there are two of one. -/
theorem scanSections_eq_ok {found : Headers} {shdr : List Shdr} {r : Option Headers}
    (h : scanSections tab shdr found = .ok r) :
    (Fresh tab found shdr → r = some (fun k => (found k).or (headers tab shdr k)))
      ∧ (¬ Fresh tab found shdr → r = none) := by
  induction shdr generalizing found with
  | nil =>
    have hr : r = some found := (Except.ok.inj h).symm
    refine ⟨fun _ => ?_, fun hn => absurd ⟨List.Pairwise.nil, by simp⟩ hn⟩
    rw [hr]
    exact congrArg some (funext (fun k => (Option.or_none).symm))
  | cons p ps ih =>
    have hp : NameEnds tab p := by
      have hret : Returns (scanSections tab (p :: ps) found) := ⟨r, h⟩
      exact returns_scanSections.mp hret [] p ps rfl ⟨List.Pairwise.nil, by simp⟩
    rw [scanSections, bind_ok ((sectionKind_eq p).1 hp)] at h
    cases hk : kindOf tab p with
    | none =>
      rw [hk] at h
      have hhead : headers tab (p :: ps) = headers tab ps := by
        funext k
        rw [headers_cons, hk, if_neg (Option.some_ne_none k).symm]
      rw [fresh_cons_none hk, hhead]
      exact ih h
    | some k =>
      rw [hk] at h
      rw [fresh_cons_some hk]
      dsimp only at h
      cases hf : found k with
      | some q =>
        rw [hf, Option.isSome_some, if_pos rfl] at h
        refine ⟨fun hn => ?_, fun _ => (Except.ok.inj h).symm⟩
        cases hn.1
      | none =>
        rw [hf, Option.isSome_none, if_neg Bool.false_ne_true] at h
        have hhead : (fun j => (Function.update found k (some p) j).or (headers tab ps j))
            = fun j => (found j).or (headers tab (p :: ps) j) := by
          funext j
          rw [headers_cons, hk]
          by_cases hj : j = k
          · rw [hj, Function.update_self, if_pos rfl, hf]
            rfl
          · rw [Function.update_of_ne hj, if_neg (fun h => hj (Option.some.inj h).symm)]
        rw [← hhead, eq_self_iff_true, true_and]
        exact ih h

/-! ## The tables -/

/-- Each symbol's name ends inside the strings. -/
def Symlist.NamesEnd (sl : Symlist) : Prop := ∀ p ∈ sl.sym, 0#8 ∈ sl.str.drop p.name

/-- The sizes that `get_syms` asks `xmalloc` for are granted. -/
def Granted (malloc : ℕ → Bool) (fd : Fd) (symh strh : Shdr) : Prop :=
  malloc 12 ∧ (symh.size % Sym.sizeof = 0 → malloc symh.size
    ∧ (Complete (fd.myPread symh.size symh.offset).1 symh.size → malloc strh.size))

/-- The table that two sections of a file make, and the position behind it. -/
def table (fd : Fd) (symh strh : Shdr) : Option Symlist × Fd :=
  if symh.size % Sym.sizeof ≠ 0 then (none, fd)
  else
    let (rv, sym, fd) := fd.myPread symh.size symh.offset
    if ¬ Complete rv symh.size then (none, fd)
    else
      let (rv, str, fd) := fd.myPread strh.size strh.offset
      if ¬ Complete rv strh.size then (none, fd)
      else (some ⟨records Sym.ofBytes Sym.sizeof (symh.size / Sym.sizeof) sym, str⟩, fd)

variable {malloc : ℕ → Bool} {fd : Fd} {symh strh : Shdr}

theorem returns_xmalloc {size : ℕ} : Returns (xmalloc malloc size) ↔ malloc size = true := by
  unfold xmalloc
  by_cases h : malloc size = true
  · rw [if_pos h]
    exact iff_of_true (returns_ok _) h
  · rw [if_neg h]
    exact iff_of_false (not_returns_error _) h

/-- An allocation and what follows it. -/
theorem returns_xmalloc_bind {α : Type} {size : ℕ} {f : Unit → Except Stop α} :
    Returns (xmalloc malloc size >>= f) ↔ malloc size = true ∧ Returns (f ()) := by
  rw [returns_bind, returns_xmalloc]
  refine and_congr_right (fun h => ⟨fun hf => hf () (if_pos h), fun hf a _ => hf⟩)

theorem xmalloc_bind_eq_ok {α : Type} {size : ℕ} {f : Unit → Except Stop α} {r : α}
    (h : (xmalloc malloc size >>= f) = .ok r) : f () = .ok r := by
  have hm : malloc size = true := (returns_xmalloc_bind.mp ⟨r, h⟩).1
  have hx : xmalloc malloc size = .ok () := if_pos hm
  rwa [bind_ok hx] at h

/-- `get_syms` returns if what it asks for is granted. -/
theorem returns_getSyms : Returns (getSyms malloc fd symh strh) ↔ Granted malloc fd symh strh := by
  unfold getSyms Granted
  rw [returns_xmalloc_bind]
  refine and_congr_right (fun _ => ?_)
  by_cases hs : symh.size % Sym.sizeof = 0
  swap
  · rw [if_pos hs]
    exact iff_of_true (returns_pure _) (fun h => absurd h hs)
  rw [if_neg (not_not_intro hs), returns_xmalloc_bind, forall_prop_of_true hs]
  refine and_congr_right (fun _ => ?_)
  rcases fd.myPread symh.size symh.offset with ⟨rv, sym, fd'⟩
  dsimp only
  by_cases hc : Complete rv symh.size
  swap
  · rw [if_pos hc]
    exact iff_of_true (returns_pure _) (fun h => absurd h hc)
  rw [if_neg (not_not_intro hc), returns_xmalloc_bind, forall_prop_of_true hc]
  refine and_iff_left ?_
  rcases fd'.myPread strh.size strh.offset with ⟨rv', str, fd''⟩
  dsimp only
  split_ifs
  · exact returns_pure _
  · exact returns_pure _

theorem getSyms_eq_ok {r : Option Symlist × Fd} (h : getSyms malloc fd symh strh = .ok r) :
    r = table fd symh strh := by
  unfold getSyms at h
  unfold table
  replace h := xmalloc_bind_eq_ok h
  by_cases hs : symh.size % Sym.sizeof = 0
  swap
  · rw [if_pos hs] at h ⊢
    exact (Except.ok.inj h).symm
  rw [if_neg (not_not_intro hs)] at h ⊢
  replace h := xmalloc_bind_eq_ok h
  revert h
  rcases fd.myPread symh.size symh.offset with ⟨rv, sym, fd'⟩
  intro h
  dsimp only at h ⊢
  by_cases hc : Complete rv symh.size
  swap
  · rw [if_pos hc] at h ⊢
    exact (Except.ok.inj h).symm
  rw [if_neg (not_not_intro hc)] at h ⊢
  replace h := xmalloc_bind_eq_ok h
  revert h
  rcases fd'.myPread strh.size strh.offset with ⟨rv', str, fd''⟩
  intro h
  dsimp only at h ⊢
  split_ifs at h ⊢
  · exact (Except.ok.inj h).symm
  · exact (Except.ok.inj h).symm

/-! ## Searching a table -/

variable {type : Byte} {name : List Byte} {sl : Symlist}

/-- **A table whose names end** can be searched for any name. -/
theorem returns_lookupFrom {str : List Byte} (hname : 0#8 ∉ name) {ps : List Sym}
    (h : ∀ p ∈ ps, 0#8 ∈ str.drop p.name) : Returns (lookupFrom str type name ps) := by
  induction ps with
  | nil => exact returns_ok _
  | cons p ps ih =>
    obtain ⟨hp, hps⟩ := List.forall_mem_cons.mp h
    -- the terminator is in what is left of the table, and not in the name
    have hcut : ¬ Cut (str.drop p.name) name := fun hc => hname (hc.1.subset hp)
    rw [lookupFrom, returns_bind]
    refine ⟨returns_startsWith.mpr hcut, fun b hb => ?_⟩
    cases b with
    | false => exact ih hps
    | true =>
      obtain ⟨rest, hrest⟩ := (startsWith_eq_ok hb).mp rfl
      have hmem : 0#8 ∈ rest := by
        rw [← hrest, List.mem_append] at hp
        exact hp.resolve_left hname
      have hin : p.name + name.length < str.length := by
        have hpos : 0 < rest.length := List.length_pos_of_mem hmem
        have hlen := congrArg List.length hrest
        rw [List.length_append, List.length_drop] at hlen
        omega
      rw [if_pos rfl, returns_bind]
      refine ⟨returns_readAt.mpr hin, fun c _ => ?_⟩
      split_ifs
      · exact returns_pure _
      · exact ih hps

/-- A name longer than all strings together is not found. -/
theorem lookupFrom_long {str : List Byte} (hlong : str.length < name.length) {ps : List Sym}
    {r : Option ℕ} (h : lookupFrom str type name ps = .ok r) :
    r = none ∧ ∀ p ∈ ps, ¬ Cut (str.drop p.name) name := by
  induction ps with
  | nil => exact ⟨(Except.ok.inj h).symm, fun _ hp => nomatch hp⟩
  | cons p ps ih =>
    rw [lookupFrom] at h
    have hret := returns_bind.mp ⟨r, h⟩
    obtain ⟨b, hb⟩ := hret.1
    rw [bind_ok hb] at h
    have hne : b = false := by
      refine Bool.eq_false_iff.mpr (fun hbt => ?_)
      have hle := ((startsWith_eq_ok hb).mp hbt).length_le
      rw [List.length_drop] at hle
      omega
    rw [hne, if_neg Bool.false_ne_true] at h
    exact ⟨(ih h).1, List.forall_mem_cons.mpr ⟨returns_startsWith.mp hret.1, (ih h).2⟩⟩

/-- **A table that can be searched for any long name** is one whose names end: a name
that does not end would be read past. -/
theorem namesEnd_of_lookup2 {n : ℕ}
    (h : ∀ name, 0#8 ∉ name → n < name.length → Returns (lookup2 sl type name)) :
    sl.NamesEnd := by
  intro p hp
  by_contra hw
  have hw' : ∀ b ∈ List.replicate (n + sl.str.length + 1) 1#8, b ≠ 0#8 := by
    intro b hb
    rw [List.eq_of_mem_replicate hb]
    decide
  have hz : 0#8 ∉ sl.str.drop p.name ++ List.replicate (n + sl.str.length + 1) 1#8 := by
    rw [List.mem_append]
    rintro (h0 | h0)
    · exact hw h0
    · exact hw' _ h0 rfl
  have hlen : n + sl.str.length + 1
      ≤ (sl.str.drop p.name ++ List.replicate (n + sl.str.length + 1) 1#8).length := by
    rw [List.length_append, List.length_replicate]
    exact Nat.le_add_left _ _
  obtain ⟨r, hr⟩ := h _ hz (by omega)
  refine (lookupFrom_long (by omega) hr).2 p hp ⟨List.prefix_append _ _, fun heq => ?_⟩
  have hl := congrArg List.length heq
  rw [List.length_append, List.length_replicate] at hl
  omega

/-- Each table that is there can be searched for any name. -/
theorem returns_lookupSym {s : Symtab} :
    (∀ name, 0#8 ∉ name → Returns (lookupSym s type name))
      ↔ (∀ sl, s.dyn = some sl → sl.NamesEnd) ∧ (∀ sl, s.st = some sl → sl.NamesEnd) := by
  constructor
  · intro h
    have hdyn : ∀ name, 0#8 ∉ name → Returns (lookupIn s.dyn type name) :=
      fun name hn => (returns_bind.mp (h name hn)).1
    refine ⟨fun sl hsl => ?_, fun sl hsl => ?_⟩
    · refine @namesEnd_of_lookup2 type sl 0 (fun name hn _ => ?_)
      have := hdyn name hn
      rwa [hsl] at this
    · -- a name too long for the dynamic symbols is looked for in the static ones
      obtain ⟨n, hlong⟩ : ∃ n, ∀ name r, n < name.length → lookupIn s.dyn type name = .ok r →
          r = none := by
        cases hd : s.dyn with
        | none => exact ⟨0, fun name r _ hr => (Except.ok.inj hr).symm⟩
        | some dl => exact ⟨dl.str.length, fun name r hn hr => (lookupFrom_long hn hr).1⟩
      refine @namesEnd_of_lookup2 type sl n (fun name hn hl => ?_)
      obtain ⟨⟨r, hr⟩, hst⟩ := returns_bind.mp (h name hn)
      have := hst r hr
      rw [hlong name r hl hr, hsl] at this
      exact this
  · rintro ⟨hdyn, hst⟩ name hn
    have hin : ∀ o : Option Symlist, (∀ sl, o = some sl → sl.NamesEnd) →
        Returns (lookupIn o type name) := by
      intro o ho
      cases o with
      | none => exact returns_ok _
      | some sl => exact returns_lookupFrom hn (ho sl rfl)
    refine returns_bind.mpr ⟨hin s.dyn hdyn, fun r _ => ?_⟩
    cases r with
    | some v => exact returns_pure _
    | none => exact hin s.st hst

/-! ## The condition -/

/-- A pair of sections, if it is there, makes a table that is safe to load and to
search. -/
def SafeTable (malloc : ℕ → Bool) (fd : Fd) : Option Shdr → Option Shdr → Prop
  | some symh, some strh =>
    Granted malloc fd symh strh ∧ ∀ sl, (table fd symh strh).1 = some sl → sl.NamesEnd
  | _, _ => True

/-- The position behind a pair of sections. -/
def behindTable (fd : Fd) : Option Shdr → Option Shdr → Fd
  | some symh, some strh => (table fd symh strh).2
  | _, _ => fd

/-- The two tables are safe to load and to search. -/
def SafeTables (malloc : ℕ → Bool) (fd : Fd) (found : Headers) : Prop :=
  SafeTable malloc fd (found .dynsym) (found .dynstr)
    ∧ SafeTable malloc (behindTable fd (found .dynsym) (found .dynstr)) (found .symtab)
        (found .strtab)

/-- The section with the names is one of the sections, and if its names can be read,
the name ends of each section that the loop comes to. -/
def SafeNames (malloc : ℕ → Bool) (fd : Fd) (ehdr : Ehdr) (shdr : List Shdr) : Prop :=
  ∃ strndx, shdr[ehdr.shstrndx]? = some strndx ∧ malloc strndx.size ∧
    let (rv, shstrtab, fd) := fd.myPread strndx.size strndx.offset
    Complete rv strndx.size →
      (∀ l p l', shdr = l ++ p :: l' → Distinct shstrtab l → NameEnds shstrtab p)
        ∧ (Distinct shstrtab shdr → sane (headers shstrtab shdr) →
            SafeTables malloc fd (headers shstrtab shdr))

/-- The section headers, if they can be read, have safe names. -/
def SafeSections (malloc : ℕ → Bool) (fd : Fd) (ehdr : Ehdr) : Prop :=
  malloc (ehdr.shentsize * ehdr.shnum) ∧
    let (rv, shdr, fd) := fd.myPread (ehdr.shentsize * ehdr.shnum) ehdr.shoff
    Complete rv (ehdr.shentsize * ehdr.shnum) →
      SafeNames malloc fd ehdr (records Shdr.ofBytes Shdr.sizeof ehdr.shnum shdr)

/-- **A file that is safe to load**: one without an ELF header of the right kind, or
one whose section headers are safe. -/
def SafeFile (malloc : ℕ → Bool) (fd : Fd) : Prop :=
  let (rv, buf, fd) := fd.read Ehdr.size
  Complete rv Ehdr.size → elfMag <+: (Ehdr.ofBytes buf).ident →
    Shdr.sizeof = (Ehdr.ofBytes buf).shentsize → SafeSections malloc fd (Ehdr.ofBytes buf)

/-! ## The loading -/

/-- `do_load` returns -1 or 0, and any name can be looked up afterwards. -/
def Sound (type : Byte) (x : Except Stop (ℤ × Symtab)) : Prop :=
  ∃ ret s, x = .ok (ret, s) ∧ (ret = -1 ∨ ret = 0)
    ∧ ∀ name, 0#8 ∉ name → Returns (lookupSym s type name)

/-- A file that is refused leaves tables in which nothing is found. -/
theorem sound_refused : Sound type (.ok (-1, .zero)) := by
  refine ⟨-1, .zero, rfl, Or.inl rfl, returns_lookupSym.mpr ⟨?_, ?_⟩⟩
  · rintro sl ⟨⟩
  · rintro sl ⟨⟩

theorem sound_bind {α : Type} {x : Except Stop α} {f : α → Except Stop (ℤ × Symtab)} :
    Sound type (x >>= f) ↔ Returns x ∧ ∀ a, x = .ok a → Sound type (f a) := by
  cases x with
  | error e =>
    refine iff_of_false ?_ (fun h => not_returns_error e h.1)
    rintro ⟨ret, s, ⟨⟩, -⟩
  | ok a =>
    refine ⟨fun h => ⟨returns_ok a, ?_⟩, fun h => h.2 a rfl⟩
    rintro _ ⟨⟩
    exact h

theorem sound_xmalloc_bind {size : ℕ} {f : Unit → Except Stop (ℤ × Symtab)} :
    Sound type (xmalloc malloc size >>= f) ↔ malloc size = true ∧ Sound type (f ()) := by
  rw [sound_bind, returns_xmalloc]
  refine and_congr_right (fun h => ⟨fun hf => hf () (if_pos h), fun hf a _ => hf⟩)

/-- What `loadTable` returns, and when. -/
theorem loadTable_spec (symh strh : Option Shdr) :
    (Returns (loadTable malloc fd symh strh)
        ∧ ∀ r, loadTable malloc fd symh strh = .ok r → ∀ sl, r.1 = some sl → sl.NamesEnd)
      ↔ SafeTable malloc fd symh strh := by
  unfold loadTable SafeTable
  cases symh with
  | none =>
    refine iff_of_true ⟨returns_ok _, ?_⟩ trivial
    rintro _ ⟨⟩ sl ⟨⟩
  | some symh =>
    cases strh with
    | none =>
      refine iff_of_true ⟨returns_ok _, ?_⟩ trivial
      rintro _ ⟨⟩ sl ⟨⟩
    | some strh =>
      dsimp only
      rw [returns_getSyms]
      constructor
      · rintro ⟨hg, h⟩
        obtain ⟨r, hr⟩ := returns_getSyms.mpr hg
        exact ⟨hg, getSyms_eq_ok hr ▸ h r hr⟩
      · rintro ⟨hg, h⟩
        exact ⟨hg, fun r hr => getSyms_eq_ok hr ▸ h⟩

theorem loadTable_behind {symh strh : Option Shdr} {r : Option Symlist × Fd}
    (h : loadTable malloc fd symh strh = .ok r) : r.2 = behindTable fd symh strh := by
  unfold loadTable at h
  unfold behindTable
  cases symh with
  | none => exact (congrArg Prod.snd (Except.ok.inj h)).symm
  | some symh =>
    cases strh with
    | none => exact (congrArg Prod.snd (Except.ok.inj h)).symm
    | some strh => exact congrArg Prod.snd (getSyms_eq_ok h)

theorem sound_loadTables (found : Headers) :
    Sound type (loadTables malloc fd found) ↔ SafeTables malloc fd found := by
  unfold loadTables SafeTables
  rw [sound_bind, ← loadTable_spec, ← loadTable_spec, and_assoc]
  refine and_congr_right (fun hret => ?_)
  obtain ⟨⟨dyn, fd'⟩, hdyn⟩ := hret
  have hfd : fd' = behindTable fd (found .dynsym) (found .dynstr) := loadTable_behind hdyn
  have hone : ∀ {P : Option Symlist × Fd → Prop},
      (∀ a, loadTable malloc fd (found .dynsym) (found .dynstr) = .ok a → P a) ↔ P (dyn, fd') := by
    intro P
    refine ⟨fun h => h _ hdyn, fun h a ha => ?_⟩
    rw [hdyn] at ha
    exact Except.ok.inj ha ▸ h
  rw [hone, hone, sound_bind, ← hfd]
  have hend : ∀ r : Option Symlist × Fd, Sound type (.ok (0, ⟨r.1, dyn⟩))
      ↔ (∀ sl, dyn = some sl → sl.NamesEnd) ∧ (∀ sl, r.1 = some sl → sl.NamesEnd) := by
    intro r
    rw [← @returns_lookupSym type ⟨r.1, dyn⟩]
    refine ⟨?_, fun h => ⟨0, _, rfl, Or.inr rfl, h⟩⟩
    rintro ⟨_, _, ⟨⟩, -, h⟩
    exact h
  constructor
  · rintro ⟨hr, h⟩
    obtain ⟨a, ha⟩ := hr
    refine ⟨((hend a).mp (h a ha)).1, ⟨a, ha⟩, fun r hr => ((hend r).mp (h r hr)).2⟩
  · rintro ⟨hd, hr, h⟩
    exact ⟨hr, fun r hr => (hend r).mpr ⟨hd, h r hr⟩⟩

theorem sound_loadNames (ehdr : Ehdr) (shdr : List Shdr) :
    Sound type (loadNames malloc fd ehdr shdr) ↔ SafeNames malloc fd ehdr shdr := by
  unfold loadNames SafeNames
  cases hx : shdr[ehdr.shstrndx]? with
  | none =>
    refine iff_of_false ?_ (fun ⟨_, h, _⟩ => nomatch h)
    rw [sound_bind, returns_readAt]
    exact fun h => absurd h.1 (List.getElem?_eq_none_iff.mp hx).not_gt
  | some strndx =>
    simp only [Option.some.injEq, exists_eq_left']
    rw [bind_ok (readAt_eq_ok.mpr hx), sound_xmalloc_bind]
    refine and_congr_right (fun _ => ?_)
    rcases fd.myPread strndx.size strndx.offset with ⟨rv, tab, fd'⟩
    dsimp only
    by_cases hc : Complete rv strndx.size
    swap
    · rw [if_pos hc]
      exact iff_of_true sound_refused (fun h => absurd h hc)
    rw [if_neg (not_not_intro hc), forall_prop_of_true hc, sound_bind, returns_scanSections]
    simp only [fresh_start]
    refine and_congr_right (fun hnames => ?_)
    have hret : Returns (scanSections tab shdr (fun _ => none)) :=
      returns_scanSections.mpr (by simpa only [fresh_start] using hnames)
    obtain ⟨r, hr⟩ := hret
    obtain ⟨hsome, hnone⟩ := scanSections_eq_ok hr
    rw [fresh_start] at hsome hnone
    simp only [Option.none_or] at hsome
    constructor
    · intro h hd hs
      have htables := h r hr
      rw [hsome hd] at htables
      dsimp only at htables
      rw [if_pos hs] at htables
      exact (sound_loadTables _).mp htables
    · intro h a ha
      rw [hr] at ha
      rw [← Except.ok.inj ha]
      by_cases hd : Distinct tab shdr
      · rw [hsome hd]
        dsimp only
        by_cases hs : sane (headers tab shdr) = true
        · rw [if_pos hs]
          exact (sound_loadTables _).mpr (h hd hs)
        · rw [if_neg hs]
          exact sound_refused
      · rw [hnone hd]
        exact sound_refused

theorem sound_loadSections (ehdr : Ehdr) :
    Sound type (loadSections malloc fd ehdr) ↔ SafeSections malloc fd ehdr := by
  unfold loadSections SafeSections
  rw [sound_xmalloc_bind]
  refine and_congr_right (fun _ => ?_)
  rcases fd.myPread (ehdr.shentsize * ehdr.shnum) ehdr.shoff with ⟨rv, buf, fd'⟩
  dsimp only
  by_cases hc : Complete rv (ehdr.shentsize * ehdr.shnum)
  · rw [if_neg (not_not_intro hc), forall_prop_of_true hc]
    exact sound_loadNames ehdr _
  · rw [if_pos hc]
    exact iff_of_true sound_refused (fun h => absurd h hc)

/-- **Loading the symbols of a file is memory-safe** exactly if the file is safe:
`do_load` returns -1 or 0 and reads nothing outside its arrays, and no more does
`lookup_sym` for any name afterwards. -/
theorem doLoad_sound_iff (malloc : ℕ → Bool) (type : Byte) (file : List Byte) :
    (∃ ret s, doLoad malloc ⟨file, 0⟩ = .ok (ret, s) ∧ (ret = -1 ∨ ret = 0)
        ∧ ∀ name, 0#8 ∉ name → ∃ v, lookupSym s type name = .ok v)
      ↔ SafeFile malloc ⟨file, 0⟩ := by
  show Sound type (doLoad malloc ⟨file, 0⟩) ↔ _
  unfold doLoad SafeFile
  rcases (⟨file, 0⟩ : Fd).read Ehdr.size with ⟨rv, buf, fd'⟩
  dsimp only
  by_cases hc : Complete rv Ehdr.size
  swap
  · rw [if_pos hc]
    exact iff_of_true sound_refused (fun h => absurd h hc)
  rw [if_neg (not_not_intro hc), forall_prop_of_true hc]
  by_cases hm : elfMag <+: (Ehdr.ofBytes buf).ident
  swap
  · rw [if_pos hm]
    exact iff_of_true sound_refused (fun h => absurd h hm)
  rw [if_neg (not_not_intro hm), forall_prop_of_true hm]
  by_cases hsz : Shdr.sizeof = (Ehdr.ofBytes buf).shentsize
  swap
  · rw [if_pos hsz]
    exact iff_of_true sound_refused (fun h => absurd h hsz)
  rw [if_neg (not_not_intro hsz), forall_prop_of_true hsz]
  exact sound_loadSections _

/-- An ELF file without sections, as it is left when they have been stripped: the
number of the section with the names is 0, and there is no section 0 to read. -/
theorem doLoad_noSections :
    doLoad (fun _ => true)
        ⟨elfMag ++ List.replicate 42 0#8 ++ [40#8, 0#8, 0#8, 0#8, 0#8, 0#8], 0⟩
      = .error .outOfBounds := by
  decide

end ExportUtil
