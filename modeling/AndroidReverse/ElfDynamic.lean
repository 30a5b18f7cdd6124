import AndroidReverse.ElfModule

/-!
# The dynamic section

`get_segment_view` goes through the entries of the dynamic segment and sets a member of the
module for each tag it knows. Here the loop is one over the list of the entries (`parse`),
with one rule of induction, over the entries that have been passed (`parse_induction`). A
member that a tag sets ends with the value of the last entry of the tag (`parse_last`); the
members of a hash table end as the table at the last entry has them (`parse_hash`,
`parse_gnuHash`).
-/

open ByteMemory

namespace Elf

variable {c : ElfClass}

/-- The tag of an entry. -/
def Dyn.tag (d : Dyn) : DynTag := DynTag.ofValue d.dTag

/-- `n` entries of a dynamic section. -/
def dynEntries (mem : c.Mem) : ℕ → c.Addr → List Dyn
  | 0, _ => []
  | n + 1, dyn => readDyn mem dyn :: dynEntries mem n (plus dyn (sizeofDyn c))

/-- **The value of the last entry with a tag.** -/
def lastValue (tag : DynTag) (ds : List Dyn) : Option ℕ :=
  ds.foldl (fun r d => if d.tag = tag then some d.dUn else r) none

theorem lastValue_concat (tag : DynTag) (ds : List Dyn) (d : Dyn) :
    lastValue tag (ds ++ [d]) = if d.tag = tag then some d.dUn else lastValue tag ds := by
  rw [lastValue, List.foldl_append]
  rfl

namespace Module

variable {m m' view : Module c} {mem : c.Mem} {ds : List Dyn}

/-- The loop over the dynamic section, over a list of entries. -/
def parse (mem : c.Mem) : List Dyn → Module c → Bool × Module c
  | [], m => (true, m)
  | d :: ds, m =>
    match dynEntry mem d m with
    | (true, m) => parse mem ds m
    | (false, m) => (false, m)

theorem dynLoop_eq (mem : c.Mem) (n : ℕ) (dyn : c.Addr) (m : Module c) :
    dynLoop mem n dyn m = parse mem (dynEntries mem n dyn) m := by
  induction n generalizing dyn m with
  | zero => rfl
  | succ n ih =>
    rw [dynLoop, dynEntries, parse]
    cases dynEntry mem (readDyn mem dyn) m with
    | mk ok m' =>
      cases ok with
      | false => rfl
      | true => exact ih _ m'

/-- **The rule of induction** for what holds after some entries: it holds before the first
one, and every entry that is passed keeps it. -/
theorem parse_induction {P : List Dyn → Module c → Prop} (h : parse mem ds m = (true, m'))
    (hm : P [] m)
    (hstep : ∀ d ∈ ds, ∀ l m m', dynEntry mem d m = (true, m') → P l m → P (l ++ [d]) m') :
    P ds m' := by
  -- the entries that have been passed are a list before those that are left
  suffices hgen : ∀ l, P l m → P (l ++ ds) m' from hgen [] hm
  clear hm
  induction ds generalizing m with
  | nil =>
    obtain ⟨-, rfl⟩ := Prod.mk.inj h
    intro l hl
    rwa [List.append_nil]
  | cons d ds ih =>
    intro l hl
    rw [parse] at h
    cases hentry : dynEntry mem d m with
    | mk ok m₁ =>
      rw [hentry] at h
      cases ok with
      | false => exact absurd (congrArg Prod.fst h) Bool.false_ne_true
      | true =>
        have hnext := hstep d List.mem_cons_self l m m₁ hentry hl
        have hrest := ih h (fun e he => hstep e (List.mem_cons_of_mem d he)) _ hnext
        rwa [List.append_assoc] at hrest

/-! ## What an entry does -/

/-- The members outside the GNU table are as they were. -/
theorem parseGnuHash_frame (mem : c.Mem) (raw : c.Addr) (m : Module c) :
    (parseGnuHash mem raw m).2.biasAddr = m.biasAddr ∧
      (parseGnuHash mem raw m).2.dynPtr = m.dynPtr ∧
      (parseGnuHash mem raw m).2.dynSize = m.dynSize ∧
      (parseGnuHash mem raw m).2.isUseRela = m.isUseRela ∧
      (parseGnuHash mem raw m).2.relpltAddr = m.relpltAddr ∧
      (parseGnuHash mem raw m).2.relpltBytes = m.relpltBytes ∧
      (parseGnuHash mem raw m).2.reldynBytes = m.reldynBytes := by
  rw [parseGnuHash]
  dsimp only
  split_ifs <;> exact ⟨rfl, rfl, rfl, rfl, rfl, rfl, rfl⟩

/-- The address and size of the section are fixed before its entries are read, and so is the
load bias. -/
theorem dynEntry_frame (mem : c.Mem) (d : Dyn) (m : Module c) :
    (dynEntry mem d m).2.biasAddr = m.biasAddr ∧ (dynEntry mem d m).2.dynPtr = m.dynPtr ∧
      (dynEntry mem d m).2.dynSize = m.dynSize := by
  rw [dynEntry]
  cases DynTag.ofValue d.dTag
  case gnuHash =>
    obtain ⟨hbias, hptr, hsize, -⟩ := parseGnuHash_frame mem (plus m.biasAddr d.dUn) m
    exact ⟨hbias, hptr, hsize⟩
  case pltrel =>
    dsimp only
    split_ifs <;> exact ⟨rfl, rfl, rfl⟩
  all_goals exact ⟨rfl, rfl, rfl⟩

/-- **What an entry does to the relocation tables.** -/
theorem dynEntry_tables (mem : c.Mem) (d : Dyn) (m : Module c) :
    (dynEntry mem d m).2.isUseRela
        = (m.isUseRela || decide (d.tag = .pltrel ∧ d.dUn = DT_RELA)) ∧
      (dynEntry mem d m).2.relpltAddr
        = (if d.tag = .jmprel then plus m.biasAddr d.dUn else m.relpltAddr) ∧
      (dynEntry mem d m).2.relpltBytes
        = (if d.tag = .pltrelsz then d.dUn % 2 ^ 32 else m.relpltBytes) ∧
      (d.tag ≠ .relsz → d.tag ≠ .androidRelsz →
        (dynEntry mem d m).2.reldynBytes = m.reldynBytes) := by
  rw [dynEntry, Dyn.tag]
  cases DynTag.ofValue d.dTag
  case gnuHash => simpa using (parseGnuHash_frame mem (plus m.biasAddr d.dUn) m).2.2.2
  case pltrel => by_cases h : d.dUn = DT_RELA <;> simp [h]
  all_goals simp [parseHash]

/-! ## What the entries have done -/

theorem parse_frame (h : parse mem ds m = (true, m')) :
    m'.biasAddr = m.biasAddr ∧ m'.dynPtr = m.dynPtr ∧ m'.dynSize = m.dynSize := by
  refine parse_induction
    (P := fun _ m' => m'.biasAddr = m.biasAddr ∧ m'.dynPtr = m.dynPtr ∧ m'.dynSize = m.dynSize)
    h ⟨rfl, rfl, rfl⟩ (fun d _ l m₁ m₂ hd hm₁ => ?_)
  obtain ⟨hbias, hptr, hsize⟩ := dynEntry_frame mem d m₁
  rw [hd] at hbias hptr hsize
  exact ⟨hbias.trans hm₁.1, hptr.trans hm₁.2.1, hsize.trans hm₁.2.2⟩

/-- **A member set by a tag** ends with the last entry of the tag. -/
theorem parse_last {α : Type*} (g : Module c → α) (F : ℕ → α) (t : DynTag)
    (hstep : ∀ d m₁, m₁.biasAddr = m.biasAddr →
      g (dynEntry mem d m₁).2 = if d.tag = t then F d.dUn else g m₁)
    (h : parse mem ds m = (true, m')) : g m' = (lastValue t ds).elim (g m) F := by
  refine (parse_induction
    (P := fun l m' => m'.biasAddr = m.biasAddr ∧ g m' = (lastValue t l).elim (g m) F)
    h ⟨rfl, rfl⟩ (fun d _ l m₁ m₂ hd hm₁ => ?_)).2
  have hbias := (dynEntry_frame mem d m₁).1
  have hg := hstep d m₁ hm₁.1
  rw [hd] at hbias hg
  refine ⟨hbias.trans hm₁.1, ?_⟩
  rw [lastValue_concat, hg]
  split_ifs
  · rfl
  · exact hm₁.2

/-- The PLT table is where `DT_JMPREL` says. -/
theorem parse_relpltAddr (h : parse mem ds m = (true, m')) {v : ℕ}
    (hv : lastValue .jmprel ds = some v) : m'.relpltAddr = plus m.biasAddr v := by
  rw [parse_last relpltAddr (plus m.biasAddr) .jmprel
    (fun d m₁ hb => by rw [(dynEntry_tables mem d m₁).2.1, hb]) h, hv]
  rfl

/-- Its size is what `DT_PLTRELSZ` says, cut to 32 bits. -/
theorem parse_relpltBytes (h : parse mem ds m = (true, m')) {v : ℕ}
    (hv : lastValue .pltrelsz ds = some v) : m'.relpltBytes = v % 2 ^ 32 := by
  rw [parse_last relpltBytes (· % 2 ^ 32) .pltrelsz
    (fun d m₁ _ => (dynEntry_tables mem d m₁).2.2.1) h, hv]
  rfl

/-- One entry with `DT_PLTREL` and `DT_RELA` is enough for the format with addends. -/
theorem parse_isUseRela (h : parse mem ds m = (true, m'))
    (hd : ∃ d ∈ ds, d.tag = .pltrel ∧ d.dUn = DT_RELA) : m'.isUseRela = true := by
  refine parse_induction
    (P := fun l m' => (∃ d ∈ l, d.tag = .pltrel ∧ d.dUn = DT_RELA) → m'.isUseRela = true)
    h (fun ⟨d, hd, _⟩ => absurd hd List.not_mem_nil) (fun d _ l m₁ m₂ hentry hm₁ => ?_) hd
  have huse := (dynEntry_tables mem d m₁).1
  rw [hentry] at huse
  rintro ⟨e, he, htag⟩
  rcases List.mem_append.mp he with he | he
  · rw [huse, hm₁ ⟨e, he, htag⟩, Bool.true_or]
  · rw [List.mem_singleton] at he
    rw [huse, ← he, decide_eq_true htag, Bool.or_true]

/-- **Without an entry for its size** the dynamic table stays as it was. -/
theorem parse_reldynBytes (h : parse mem ds m = (true, m'))
    (hd : ∀ d ∈ ds, d.tag ≠ .relsz ∧ d.tag ≠ .androidRelsz) : m'.reldynBytes = m.reldynBytes := by
  refine parse_induction (P := fun _ m' => m'.reldynBytes = m.reldynBytes) h rfl
    (fun d hmem l m₁ m₂ hentry hm₁ => ?_)
  have hbytes := (dynEntry_tables mem d m₁).2.2.2 (hd d hmem).1 (hd d hmem).2
  rw [hentry] at hbytes
  exact hbytes.trans hm₁

/-! ## The hash tables -/

variable {raw : c.Addr}

/-- **The members of a System V table are as the parser leaves them.** -/
theorem parseHash_eq_iff :
    parseHash mem raw m = m ↔
      m.nbucket = readWord mem raw ∧ m.nchain = readWord mem (plus raw 4) ∧
        m.bucket = plus raw 8 ∧ m.chain = elem (plus raw 8) 4 (readWord mem raw) ∧
        m.symSize = readWord mem (plus raw 4) := by
  constructor
  · intro h
    refine ⟨?_, ?_, ?_, ?_, ?_⟩ <;> rw [← h] <;> rfl
  · cases m
    rintro ⟨rfl, rfl, rfl, rfl, rfl⟩
    rfl

/-- Parsing a table again changes nothing. -/
theorem parseHash_parseHash (mem : c.Mem) (raw : c.Addr) (m : Module c) :
    parseHash mem raw (parseHash mem raw m) = parseHash mem raw m := rfl

/-- A module with the members of a GNU table. -/
def withGnuTable (m : Module c) (nbucket symndx maskwords shift2 : ℕ)
    (bloomFilter bucket chain : c.Addr) : Module c :=
  { m with
    gnuNbucket := nbucket, gnuSymndx := symndx, gnuMaskwords := maskwords, gnuShift2 := shift2
    gnuBloomFilter := bloomFilter, gnuBucket := bucket, gnuChain := chain, isGnuHash := true }

theorem withGnuTable_eq_iff {nbucket symndx maskwords shift2 : ℕ} {bloom bucket chain : c.Addr} :
    m.withGnuTable nbucket symndx maskwords shift2 bloom bucket chain = m ↔
      m.isGnuHash = true ∧ m.gnuNbucket = nbucket ∧ m.gnuSymndx = symndx ∧
        m.gnuMaskwords = maskwords ∧ m.gnuShift2 = shift2 ∧ m.gnuBloomFilter = bloom ∧
        m.gnuBucket = bucket ∧ m.gnuChain = chain := by
  constructor
  · intro h
    refine ⟨?_, ?_, ?_, ?_, ?_, ?_, ?_, ?_⟩ <;> rw [← h] <;> rfl
  · cases m
    rintro ⟨rfl, rfl, rfl, rfl, rfl, rfl, rfl, rfl⟩
    rfl

/-- A GNU table is accepted if its number of mask words is a power of two. -/
theorem parseGnuHash_of_powerof2 (hp : powerof2 (readWord mem (plus raw 8))) (m : Module c) :
    parseGnuHash mem raw m = (true,
      m.withGnuTable (readWord mem raw) (readWord mem (plus raw 4))
        ((readWord mem (plus raw 8) + (2 ^ 32 - 1)) % 2 ^ 32) (readWord mem (plus raw 12))
        (plus raw 16) (elem (plus raw 16) c.addrBytes (readWord mem (plus raw 8)))
        (elem (elem (plus raw 16) c.addrBytes (readWord mem (plus raw 8))) 4 (readWord mem raw)
          - BitVec.ofNat c.bits (4 * readWord mem (plus raw 4)))) :=
  if_neg (not_not_intro hp)

theorem powerof2_of_parseGnuHash (h : parseGnuHash mem raw m = (true, m')) :
    powerof2 (readWord mem (plus raw 8)) := by
  by_contra hp
  have hfalse : (parseGnuHash mem raw m).1 = false := by
    rw [parseGnuHash]
    dsimp only
    rw [if_pos hp]
  rw [h] at hfalse
  exact Bool.false_ne_true hfalse.symm

/-- **The members of a GNU table are as the parser leaves them**, which has accepted it. -/
theorem parseGnuHash_eq_iff :
    parseGnuHash mem raw m = (true, m) ↔
      powerof2 (readWord mem (plus raw 8)) ∧ m.isGnuHash = true ∧
        m.gnuNbucket = readWord mem raw ∧ m.gnuSymndx = readWord mem (plus raw 4) ∧
        m.gnuMaskwords = (readWord mem (plus raw 8) + (2 ^ 32 - 1)) % 2 ^ 32 ∧
        m.gnuShift2 = readWord mem (plus raw 12) ∧ m.gnuBloomFilter = plus raw 16 ∧
        m.gnuBucket = elem (plus raw 16) c.addrBytes (readWord mem (plus raw 8)) ∧
        m.gnuChain = elem (elem (plus raw 16) c.addrBytes (readWord mem (plus raw 8))) 4
          (readWord mem raw) - BitVec.ofNat c.bits (4 * readWord mem (plus raw 4)) := by
  constructor
  · intro h
    have hp := powerof2_of_parseGnuHash h
    rw [parseGnuHash_of_powerof2 hp, Prod.mk.injEq] at h
    exact ⟨hp, withGnuTable_eq_iff.mp h.2⟩
  · rintro ⟨hp, hm⟩
    rw [parseGnuHash_of_powerof2 hp, withGnuTable_eq_iff.mpr hm]

/-- Parsing a table again changes nothing. -/
theorem parseGnuHash_parseGnuHash (hp : powerof2 (readWord mem (plus raw 8))) (m : Module c) :
    parseGnuHash mem raw (parseGnuHash mem raw m).2 = (true, (parseGnuHash mem raw m).2) := by
  rw [parseGnuHash_of_powerof2 hp, parseGnuHash_of_powerof2 hp]
  rfl

theorem dynEntry_of_hash {d : Dyn} (hd : d.tag = .hash) :
    dynEntry mem d m = (true, parseHash mem (plus m.biasAddr d.dUn) m) := by
  rw [dynEntry, show DynTag.ofValue d.dTag = .hash from hd]

theorem dynEntry_of_gnuHash {d : Dyn} (hd : d.tag = .gnuHash) :
    dynEntry mem d m = parseGnuHash mem (plus m.biasAddr d.dUn) m := by
  rw [dynEntry, show DynTag.ofValue d.dTag = .gnuHash from hd]

/-- Other entries leave the choice of the table. -/
theorem dynEntry_isGnuHash (mem : c.Mem) (d : Dyn) (m : Module c) (hd : d.tag ≠ .gnuHash) :
    (dynEntry mem d m).2.isGnuHash = m.isGnuHash := by
  rw [Dyn.tag] at hd
  rw [dynEntry]
  cases htag : DynTag.ofValue d.dTag
  case gnuHash => exact absurd htag hd
  case pltrel =>
    dsimp only
    split_ifs <;> rfl
  all_goals rfl

/-- Other entries leave a System V table. -/
theorem dynEntry_hash (d : Dyn) (m : Module c) (hgnu : d.tag ≠ .gnuHash) (hd : d.tag ≠ .hash)
    (h : parseHash mem raw m = m) :
    parseHash mem raw (dynEntry mem d m).2 = (dynEntry mem d m).2 := by
  have hmembers := parseHash_eq_iff.mp h
  refine parseHash_eq_iff.mpr ?_
  rw [Dyn.tag] at hgnu hd
  rw [dynEntry]
  cases htag : DynTag.ofValue d.dTag
  case gnuHash => exact absurd htag hgnu
  case hash => exact absurd htag hd
  case pltrel =>
    dsimp only
    split_ifs <;> exact hmembers
  all_goals exact hmembers

/-- Other entries leave a GNU table. -/
theorem dynEntry_gnuHash (d : Dyn) (m : Module c) (hd : d.tag ≠ .gnuHash)
    (h : parseGnuHash mem raw m = (true, m)) :
    parseGnuHash mem raw (dynEntry mem d m).2 = (true, (dynEntry mem d m).2) := by
  have hmembers := parseGnuHash_eq_iff.mp h
  refine parseGnuHash_eq_iff.mpr ?_
  rw [Dyn.tag] at hd
  rw [dynEntry]
  cases htag : DynTag.ofValue d.dTag
  case gnuHash => exact absurd htag hd
  case pltrel =>
    dsimp only
    split_ifs <;> exact hmembers
  all_goals exact hmembers

/-- **The module uses the System V table of the last entry for one**, if there is no entry
for a GNU table. -/
theorem parse_hash (h : parse mem ds m = (true, m')) (hno : ∀ d ∈ ds, d.tag ≠ .gnuHash) {v : ℕ}
    (hv : lastValue .hash ds = some v) :
    m'.isGnuHash = m.isGnuHash ∧ parseHash mem (plus m.biasAddr v) m' = m' := by
  have hall := parse_induction
    (P := fun l m' => m'.biasAddr = m.biasAddr ∧ m'.isGnuHash = m.isGnuHash ∧
      ∀ v, lastValue .hash l = some v → parseHash mem (plus m.biasAddr v) m' = m')
    h ⟨rfl, rfl, fun v hv => nomatch hv⟩ (fun d hmem l m₁ m₂ hentry hm₁ => ?_)
  · exact ⟨hall.2.1, hall.2.2 v hv⟩
  · obtain ⟨hbias₁, hgnu₁, htable₁⟩ := hm₁
    have hbias := (dynEntry_frame mem d m₁).1
    have hgnu := dynEntry_isGnuHash mem d m₁ (hno d hmem)
    rw [hentry] at hbias hgnu
    refine ⟨hbias.trans hbias₁, hgnu.trans hgnu₁, fun v hv => ?_⟩
    rw [lastValue_concat] at hv
    split_ifs at hv with htag
    · obtain rfl := Option.some.inj hv
      rw [dynEntry_of_hash htag, hbias₁, Prod.mk.injEq] at hentry
      rw [← hentry.2, parseHash_parseHash]
    · have htable := dynEntry_hash d m₁ (hno d hmem) htag (htable₁ v hv)
      rwa [hentry] at htable

/-- **The module uses the GNU table of the last entry for one.** -/
theorem parse_gnuHash (h : parse mem ds m = (true, m')) {v : ℕ}
    (hv : lastValue .gnuHash ds = some v) :
    parseGnuHash mem (plus m.biasAddr v) m' = (true, m') := by
  have hall := parse_induction
    (P := fun l m' => m'.biasAddr = m.biasAddr ∧
      ∀ v, lastValue .gnuHash l = some v → parseGnuHash mem (plus m.biasAddr v) m' = (true, m'))
    h ⟨rfl, fun v hv => nomatch hv⟩ (fun d hmem l m₁ m₂ hentry hm₁ => ?_)
  · exact hall.2 v hv
  · obtain ⟨hbias₁, htable₁⟩ := hm₁
    have hbias := (dynEntry_frame mem d m₁).1
    rw [hentry] at hbias
    refine ⟨hbias.trans hbias₁, fun v hv => ?_⟩
    rw [lastValue_concat] at hv
    split_ifs at hv with htag
    · obtain rfl := Option.some.inj hv
      rw [dynEntry_of_gnuHash htag, hbias₁] at hentry
      have hagain := parseGnuHash_parseGnuHash (powerof2_of_parseGnuHash hentry) m₁
      rwa [hentry] at hagain
    · have htable := dynEntry_gnuHash d m₁ htag (htable₁ v hv)
      rwa [hentry] at htable

/-! ## What `get_segment_view` has read -/

/-- The loop over the dynamic section, from a module that uses no hash table in the GNU
format yet and is otherwise as it was. -/
theorem getSegmentView_dynLoop (h : getSegmentView mem m = (true, view)) :
    ∃ m' : Module c, m'.reldynBytes = m.reldynBytes ∧ m'.isGnuHash = false ∧
      dynLoop mem m'.dynSize m'.dynPtr m' = (true, view) := by
  rw [getSegmentView] at h
  dsimp only at h
  obtain ⟨m₁, hm₁, hbytes⟩ : ∃ m₁ : Module c,
      (if m.biasAddr = 0 then
        { m with
          ehdr := m.baseAddr, phdr := plus m.baseAddr (readEhdr mem m.baseAddr).ePhoff
          biasAddr := caculateBiasAddr mem m.baseAddr }
      else
        { m with
          ehdr := m.baseAddr, phdr := plus m.baseAddr (readEhdr mem m.baseAddr).ePhoff }) = m₁ ∧
        m₁.reldynBytes = m.reldynBytes := by
    split_ifs <;> exact ⟨_, rfl, rfl⟩
  rw [hm₁] at h
  split_ifs at h with htype
  · cases hseg : findSegmentByType mem m₁ PT_DYNAMIC with
    | none =>
      rw [hseg] at h
      exact absurd (congrArg Prod.fst h) Bool.false_ne_true
    | some dynamic =>
      rw [hseg] at h
      exact ⟨{ m₁ with
        dynPtr := plus m₁.biasAddr dynamic.pVaddr, dynSize := dynamic.pMemsz % 2 ^ 32 / 8
        isGnuHash := false }, hbytes, rfl, h⟩
  · exact absurd (congrArg Prod.fst h) Bool.false_ne_true

/-- **A module whose dynamic section was read**: it is what the parser makes of the entries,
from a module without a dynamic table and without a hash table in the GNU format. -/
theorem parse_of_view {base : c.Addr} {junk : Module c}
    (h : getSegmentView mem (construct base junk) = (true, view)) :
    ∃ m : Module c, m.biasAddr = view.biasAddr ∧ m.reldynBytes = 0 ∧ m.isGnuHash = false ∧
      parse mem (dynEntries mem view.dynSize view.dynPtr) m = (true, view) := by
  obtain ⟨m, hzero, hgnu, hm⟩ := getSegmentView_dynLoop h
  rw [dynLoop_eq] at hm
  obtain ⟨hbias, hptr, hsize⟩ := parse_frame hm
  refine ⟨m, hbias.symm, hzero, hgnu, ?_⟩
  rw [hptr, hsize]
  exact hm

end Module

end Elf
