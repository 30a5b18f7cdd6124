import AndroidReverse.ChainTable
import AndroidReverse.ElfDynamic
import Mathlib.Data.List.Basic
import Mathlib.Data.Nat.Bitwise
import Mathlib.Tactic.IntervalCases

/-!
# Symbol lookup

`find_symbol_by_name` looks a name up in one of two formats: the hash table of the System V
ABI, a table of buckets with linked chains, or the GNU hash table, a Bloom filter before a
table whose symbols are sorted by bucket. Both are tables with chains that cover the hashed
symbols (`SysvHash.covers`, `GnuHash.covers`), so a walk along the chain of the name's bucket
visits the symbol, and what is left is that the loops of the source are such walks
(`elfWalk_eq`, `gnuWalk_eq`).

The formats are described by their layouts, as consecutive words from the start of a table,
and with the hash functions of their specifications; that the module's pointers and its
hash functions are the same is proved (`elfHash_eq`, `gnuHash_eq`). A module has such a table
once `get_segment_view` has read an entry for one (`findSymbolByName_of_view`).
-/

open ByteMemory

namespace Elf

variable {c : ElfClass}

/-! ## The hash functions of the formats -/

/-- One character of the hash function of the System V ABI. -/
def sysvHashStep (h : BitVec 32) (ch : BitVec 8) : BitVec 32 :=
  let h := (h <<< 4) + ch.setWidth 32
  let g := h &&& 0xf0000000#32
  let h := if g ≠ 0#32 then h ^^^ (g >>> 24) else h
  h &&& ~~~g

/-- The hash function of the System V ABI. -/
def sysvHash (name : Chars) : ℕ := (name.foldl sysvHashStep 0#32).toNat

/-- The hash function of the GNU format: `h = h * 33 + c` on 32 bits, from 5381 on. -/
def gnuFormatHash (name : Chars) : ℕ :=
  name.foldl (fun h ch => (h * 33 + ch.toNat) % 2 ^ 32) 5381

/-- Clearing the highest four bits and folding them in again, in the two ways. -/
theorem xor_fold (h : BitVec 32) :
    (h ^^^ (h &&& 0xf0000000#32)) ^^^ ((h &&& 0xf0000000#32) >>> 24)
      = (h ^^^ ((h &&& 0xf0000000#32) >>> 24)) &&& ~~~(h &&& 0xf0000000#32) := by
  ext i hi
  interval_cases i <;> simp

theorem elfHashStep_eq (h : BitVec 32) (ch : BitVec 8) :
    Module.elfHashStep h ch = sysvHashStep h ch := by
  rw [Module.elfHashStep, sysvHashStep]
  generalize (h <<< 4) + ch.setWidth 32 = k
  -- without the test there is nothing to fold in
  have htest : (if k &&& 0xf0000000#32 ≠ 0#32 then k ^^^ ((k &&& 0xf0000000#32) >>> 24) else k)
      = k ^^^ ((k &&& 0xf0000000#32) >>> 24) := by
    by_cases hg : k &&& 0xf0000000#32 = 0#32
    · rw [if_neg (not_not_intro hg), hg, BitVec.zero_ushiftRight, BitVec.xor_zero]
    · rw [if_pos hg]
  simp only [htest]
  exact xor_fold k

/-- **`elf_hash` is the hash function of the System V ABI.** -/
theorem elfHash_eq (name : Chars) : Module.elfHash name = sysvHash name := by
  have hstep : Module.elfHashStep = sysvHashStep :=
    funext (fun h => funext (fun ch => elfHashStep_eq h ch))
  rw [Module.elfHash, sysvHash, hstep]

/-- **A round leaves the highest four bits clear**: one of the two exclusive ors clears them,
and what is folded in ends below them. -/
theorem elfHashStep_lt (h : BitVec 32) (ch : BitVec 8) :
    (Module.elfHashStep h ch).toNat < 2 ^ 28 := by
  rw [Module.elfHashStep]
  generalize (h <<< 4) + ch.setWidth 32 = k
  refine Nat.lt_pow_two_of_testBit _ fun i hi => ?_
  rw [BitVec.testBit_toNat]
  rcases Nat.lt_or_ge i 32 with hlt | hge
  · interval_cases i <;> simp
  · exact BitVec.getLsbD_of_ge _ _ hge

/-- **`elf_hash` hashes as the System V ABI does, to 28 bits**: so the shift of the next round
drops none of them. -/
theorem elfHash_sysv (name : Chars) :
    Module.elfHash name = sysvHash name ∧ Module.elfHash name < 2 ^ 28 := by
  refine ⟨elfHash_eq name, ?_⟩
  have hstep : ∀ h : BitVec 32, h.toNat < 2 ^ 28 → ∀ ch ∈ name,
      (Module.elfHashStep h ch).toNat < 2 ^ 28 := fun h _ ch _ => elfHashStep_lt h ch
  exact List.foldlRecOn name Module.elfHashStep (show (0#32).toNat < 2 ^ 28 by decide) hstep

/-- **`gnu_hash` is the hash function of the GNU format.** -/
theorem gnuHash_eq (name : Chars) : Module.gnuHash name = gnuFormatHash name := by
  have key : ∀ h : BitVec 32,
      (name.foldl (fun h ch => h * 33#32 + ch.setWidth 32) h).toNat
        = name.foldl (fun h ch => (h * 33 + ch.toNat) % 2 ^ 32) h.toNat := by
    induction name with
    | nil => exact fun h => rfl
    | cons ch name ih =>
      intro h
      rw [List.foldl_cons, List.foldl_cons, ih]
      congr 1
      rw [BitVec.toNat_add, BitVec.toNat_mul, BitVec.toNat_setWidth, Nat.mod_add_mod,
        Nat.add_mod_mod]
      rfl
  exact key 5381#32

/-! ## Symbol tables -/

/-- **A dynamic symbol table**, by the names of its symbols. Symbol 0 has the empty name,
and the names are distinct, so the others are not empty; the index of a symbol is an
`int`. -/
structure SymbolTable where
  names : List Chars
  nul_free : ∀ s ∈ names, ∀ ch ∈ s, ch ≠ 0#8
  zero : names[0]? = some []
  nodup : names.Nodup
  length_lt : names.length < 2 ^ 31

namespace SymbolTable

variable (T : SymbolTable) (m : Module c) (mem : c.Mem)

/-- The name of a symbol. -/
def name (i : ℕ) : Chars := (T.names[i]?).getD []

/-- The index of a name. -/
def index (s : Chars) : Option ℕ := T.names.idxOf? s

/-- **The table is the module's**: at the string and symbol tables of the module stand the
names. -/
structure LiesAt : Prop where
  symPtr_ne : m.symPtr ≠ 0
  symstrPtr_ne : m.symstrPtr ≠ 0
  name_at : ∀ i s, T.names[i]? = some s → m.nameIs mem i s = true

/-- **What a lookup is for**: the symbol of a name, if there is one. -/
def lookup (s : Chars) : Module.Lookup c :=
  match T.index s with
  | some i => ⟨true, m.symAt i, i⟩
  | none => ⟨false, 0, 0⟩

variable {T m mem} {s : Chars} {i : ℕ}

theorem name_of_getElem? (h : T.names[i]? = some s) : T.name i = s := by
  rw [name, h]
  rfl

theorem getElem?_of_lt (h : i < T.names.length) : T.names[i]? = some (T.name i) := by
  rw [name, List.getElem?_eq_getElem h]
  rfl

/-- A name has one index. -/
theorem eq_of_getElem? {j : ℕ} (hi : T.names[i]? = some s) (hj : T.names[j]? = some s) : i = j :=
  (List.getElem?_inj (List.getElem?_eq_some_iff.mp hi).1 T.nodup).mp (hi.trans hj.symm)

theorem index_eq_some_iff : T.index s = some i ↔ T.names[i]? = some s := by
  constructor
  · intro h
    obtain ⟨hi, hs, -⟩ := List.idxOf?_eq_some_iff.mp h
    rw [List.getElem?_eq_getElem hi, hs]
  · intro h
    cases hx : T.index s with
    | none => exact absurd (List.mem_of_getElem? h) (List.idxOf?_eq_none_iff.mp hx)
    | some j =>
      obtain ⟨hj, hs, -⟩ := List.idxOf?_eq_some_iff.mp hx
      rw [eq_of_getElem? h (by rw [List.getElem?_eq_getElem hj, hs])]

/-- **Comparing with the name of a symbol of the table.** -/
theorem LiesAt.nameIs_iff (hT : T.LiesAt m mem) (hs : ∀ ch ∈ s, ch ≠ 0#8)
    (hi : i < T.names.length) : m.nameIs mem i s = true ↔ T.names[i]? = some s := by
  refine ⟨fun h => ?_, hT.name_at i s⟩
  have hname := getElem?_of_lt hi
  have heq := strEq_unique hs (T.nul_free _ (List.mem_of_getElem? hname)) h (hT.name_at i _ hname)
  rw [hname, heq]

/-- The empty name of symbol 0 is not the one looked for. -/
theorem LiesAt.nameIs_zero (hT : T.LiesAt m mem) (hs : ∀ ch ∈ s, ch ≠ 0#8) (hne : s ≠ []) :
    m.nameIs mem 0 s = false := by
  have h0 : 0 < T.names.length := (List.getElem?_eq_some_iff.mp T.zero).1
  refine Bool.eq_false_iff.mpr (fun h => hne ?_)
  exact (Option.some.inj (T.zero.symm.trans ((hT.nameIs_iff hs h0).mp h))).symm

/-- **Symbols among which the name must be**: the first of them with that name is the
symbol of that name. -/
theorem LiesAt.find?_eq_index (hT : T.LiesAt m mem) (hs : ∀ ch ∈ s, ch ≠ 0#8) {l : List ℕ}
    (hlt : ∀ i ∈ l, i < T.names.length) (hc : ∀ i, T.names[i]? = some s → i ∈ l) :
    l.find? (fun i => m.nameIs mem i s) = T.index s := by
  cases hf : l.find? (fun i => m.nameIs mem i s) with
  | some i =>
    have hi := hlt i (List.mem_of_find?_eq_some hf)
    have hn : m.nameIs mem i s = true := by simpa using List.find?_some hf
    exact (index_eq_some_iff.mpr ((hT.nameIs_iff hs hi).mp hn)).symm
  | none =>
    cases hx : T.index s with
    | none => rfl
    | some i =>
      have hi := index_eq_some_iff.mp hx
      exact absurd (hT.name_at i s hi) (List.find?_eq_none.mp hf i (hc i hi))

end SymbolTable

/-! ## The two formats -/

/-- Word `k` of a table. -/
def wordAt (mem : c.Mem) (raw : c.Addr) (k : ℕ) : ℕ := readWord mem (elem raw 4 k)

/-- An index, where 0 stands for none. -/
def nonzero (n : ℕ) : Option ℕ := if n = 0 then none else some n

theorem nonzero_eq_none {n : ℕ} : nonzero n = none ↔ n = 0 := by
  rw [nonzero]
  split_ifs with h <;> simp [h]

theorem nonzero_eq_some {n i : ℕ} : nonzero n = some i ↔ n = i ∧ i ≠ 0 := by
  rw [nonzero]
  split_ifs with h
  · simp only [false_iff, not_and, not_not]
    exact fun hi => hi.symm.trans h
  · rw [Option.some.injEq]
    exact ⟨fun hi => ⟨hi, hi ▸ h⟩, fun hi => hi.1⟩

/-- **The table of the System V ABI**: the numbers of buckets and of symbols, the buckets,
and the links of the chains. -/
def sysvTable (mem : c.Mem) (raw : c.Addr) : ChainTable ℕ ℕ where
  head b := nonzero (wordAt mem raw (2 + b))
  next i := nonzero (wordAt mem raw (2 + wordAt mem raw 0 + i))

/-- **A well-formed table of the System V ABI** for the symbols of `T`. Its words are
indices of symbols, every chain ends in 0, and every symbol but symbol 0 is on the chain of
its bucket. -/
structure SysvHash (T : SymbolTable) (mem : c.Mem) (raw : c.Addr) : Prop where
  nbucket_pos : 0 < wordAt mem raw 0
  nchain_eq : wordAt mem raw 1 = T.names.length
  bucket_lt : ∀ b < wordAt mem raw 0, wordAt mem raw (2 + b) < T.names.length
  chain_lt : ∀ i < T.names.length,
    wordAt mem raw (2 + wordAt mem raw 0 + i) < T.names.length
  covers : (sysvTable mem raw).Covers {b | b < wordAt mem raw 0}
    {i | 0 < i ∧ i < T.names.length} (fun i => sysvHash (T.name i) % wordAt mem raw 0)

/-- The Bloom filter of a GNU table, behind four words. -/
def bloomAt (mem : c.Mem) (raw : c.Addr) (k : ℕ) : ℕ :=
  readAddr mem (elem (plus raw 16) c.addrBytes k)

/-- The buckets and chain words of a GNU table, behind the Bloom filter. -/
def gnuWords (mem : c.Mem) (raw : c.Addr) : c.Addr :=
  elem (plus raw 16) c.addrBytes (wordAt mem raw 2)

/-- The chain word of a symbol of a GNU table; they begin with that of symbol `symndx`. -/
def gnuChainWord (mem : c.Mem) (raw : c.Addr) (i : ℕ) : ℕ :=
  wordAt mem (gnuWords mem raw) (wordAt mem raw 0 + (i - wordAt mem raw 1))

/-- **The GNU table**: the buckets, and the chains, which go on to the next symbol unless
the lowest bit of the chain word is set. A bucket that is empty is 0. -/
def gnuTable (mem : c.Mem) (raw : c.Addr) : ChainTable ℕ ℕ where
  head b := nonzero (wordAt mem (gnuWords mem raw) b)
  next i := if gnuChainWord mem raw i % 2 = 0 then some (i + 1) else none

/-- **A well-formed GNU table** for the symbols of `T`. The symbols from `symndx` on are
sorted by bucket, each with the higher bits of its hash in its chain word and its two bits
in the Bloom filter. -/
structure GnuHash (T : SymbolTable) (mem : c.Mem) (raw : c.Addr) : Prop where
  nbucket_pos : 0 < wordAt mem raw 0
  maskwords_eq : ∃ k, wordAt mem raw 2 = 2 ^ k
  symndx_le : wordAt mem raw 1 ≤ T.names.length
  runs : (gnuTable mem raw).SortedRuns {b | b < wordAt mem raw 0} (wordAt mem raw 1)
    T.names.length (fun i => gnuFormatHash (T.name i) % wordAt mem raw 0)
  hash_eq : ∀ i, wordAt mem raw 1 ≤ i → i < T.names.length →
    gnuChainWord mem raw i / 2 = gnuFormatHash (T.name i) / 2
  bloom : ∀ i, wordAt mem raw 1 ≤ i → i < T.names.length →
    let hash := gnuFormatHash (T.name i)
    let word := bloomAt mem raw (hash / c.bits % wordAt mem raw 2)
    word.testBit (hash % c.bits) = true ∧
      word.testBit ((hash >>> wordAt mem raw 3) % c.bits) = true

namespace Module

/-- **The module uses the table of the System V ABI at an address**: `get_segment_view` has
parsed it, and none of the pointers is null, which would stand for no table. -/
structure UsesSysv (m : Module c) (mem : c.Mem) (raw : c.Addr) : Prop where
  not_gnu : m.isGnuHash = false
  parsed : m.parseHash mem raw = m
  bucket_ne : m.bucket ≠ 0
  chain_ne : m.chain ≠ 0

/-- **The module uses the GNU table at an address.** -/
structure UsesGnu (m : Module c) (mem : c.Mem) (raw : c.Addr) : Prop where
  parsed : m.parseGnuHash mem raw = (true, m)
  bloom_ne : m.gnuBloomFilter ≠ 0
  bucket_ne : m.gnuBucket ≠ 0
  chain_ne : m.gnuChain ≠ 0

variable {m : Module c} {mem : c.Mem} {raw : c.Addr}

/-- **A module whose dynamic section was read uses the last System V table** it has an entry
for, if there is no entry for a GNU table. -/
theorem usesSysv_of_view {base : c.Addr} {junk : Module c}
    (h : getSegmentView mem (construct base junk) = (true, m))
    (hno : ∀ d ∈ dynEntries mem m.dynSize m.dynPtr, d.tag ≠ .gnuHash) {v : ℕ}
    (hv : lastValue .hash (dynEntries mem m.dynSize m.dynPtr) = some v)
    (hbucket : m.bucket ≠ 0) (hchain : m.chain ≠ 0) : m.UsesSysv mem (plus m.biasAddr v) := by
  obtain ⟨m₁, hbias, -, hgnu, hp⟩ := parse_of_view h
  obtain ⟨hkept, hparsed⟩ := parse_hash hp hno hv
  rw [hbias] at hparsed
  exact ⟨hkept.trans hgnu, hparsed, hbucket, hchain⟩

/-- **It uses the last GNU table** it has an entry for, whatever else there is. -/
theorem usesGnu_of_view {base : c.Addr} {junk : Module c}
    (h : getSegmentView mem (construct base junk) = (true, m)) {v : ℕ}
    (hv : lastValue .gnuHash (dynEntries mem m.dynSize m.dynPtr) = some v)
    (hbloom : m.gnuBloomFilter ≠ 0) (hbucket : m.gnuBucket ≠ 0) (hchain : m.gnuChain ≠ 0) :
    m.UsesGnu mem (plus m.biasAddr v) := by
  obtain ⟨m₁, hbias, -, -, hp⟩ := parse_of_view h
  have hparsed := parse_gnuHash hp hv
  rw [hbias] at hparsed
  exact ⟨hparsed, hbloom, hbucket, hchain⟩

/-! ## Where the members point -/

theorem elem_elem (a : c.Addr) (n i j : ℕ) : elem (elem a n i) n j = elem a n (i + j) := by
  rw [elem, elem, elem, BitVec.add_assoc, ← BitVec.ofNat_add, Nat.mul_add]

theorem elem_zero (a : c.Addr) (n : ℕ) : elem a n 0 = a := by
  rw [elem, Nat.mul_zero, BitVec.add_zero]

theorem wordAt_zero (mem : c.Mem) (raw : c.Addr) : wordAt mem raw 0 = readWord mem raw := by
  rw [wordAt, elem_zero]

theorem UsesSysv.nbucket_eq (h : m.UsesSysv mem raw) : m.nbucket = wordAt mem raw 0 := by
  rw [wordAt_zero]
  exact (parseHash_eq_iff.mp h.parsed).1

theorem UsesSysv.bucket_word (h : m.UsesSysv mem raw) (b : ℕ) :
    readWord mem (elem m.bucket 4 b) = wordAt mem raw (2 + b) := by
  have hb : m.bucket = elem raw 4 2 := by
    rw [← h.parsed]
    rfl
  rw [wordAt, hb, elem_elem]

theorem UsesSysv.chain_word (h : m.UsesSysv mem raw) (i : ℕ) :
    readWord mem (elem m.chain 4 i) = wordAt mem raw (2 + wordAt mem raw 0 + i) := by
  have hb : m.chain = elem (elem raw 4 2) 4 (readWord mem raw) := by
    rw [← h.parsed]
    rfl
  rw [wordAt, hb, elem_elem, elem_elem, wordAt_zero, Nat.add_assoc]

/-! ## Lookup in a table of the System V ABI -/

/-- **The loop of `elf_lookup` is a walk** along the links behind an index. -/
theorem elfWalk_eq (h : m.UsesSysv mem raw) {s : Chars} (h0 : m.nameIs mem 0 s = false)
    {l : List ℕ} {index fuel : ℕ}
    (hl : (sysvTable mem raw).Walk ((sysvTable mem raw).next index) l) (hf : l.length < fuel) :
    m.elfWalk mem s fuel index = some (l.find? (fun i => m.nameIs mem i s)) := by
  induction l generalizing index fuel with
  | nil =>
    obtain ⟨fuel, rfl⟩ := Nat.exists_eq_succ_of_ne_zero (Nat.ne_of_gt hf)
    cases hn : (sysvTable mem raw).next index with
    | some j => rw [hn] at hl; cases hl
    | none =>
      have hz := nonzero_eq_none.mp hn
      simp only [elfWalk, h.chain_word, hz, h0]
      rfl
  | cons j l ih =>
    obtain ⟨fuel, rfl⟩ := Nat.exists_eq_succ_of_ne_zero (Nat.ne_of_gt (Nat.zero_lt_of_lt hf))
    cases hn : (sysvTable mem raw).next index with
    | none => rw [hn] at hl; cases hl
    | some k =>
      rw [hn] at hl
      cases hl with
      | visit hl =>
        obtain ⟨hj, hj0⟩ := nonzero_eq_some.mp hn
        simp only [elfWalk, h.chain_word, hj]
        cases hname : m.nameIs mem j s with
        | true => simp [hname]
        | false =>
          rw [if_neg (by simp), if_pos hj0, ih hl (Nat.lt_of_succ_lt_succ hf)]
          simp [hname]

end Module

namespace SysvHash

variable {T : SymbolTable} {mem : c.Mem} {raw : c.Addr}

/-- What follows a symbol on its chain is a symbol. -/
theorem next_lt (h : SysvHash T mem raw) {i j : ℕ} (hi : i < T.names.length)
    (hn : (sysvTable mem raw).next i = some j) : 0 < j ∧ j < T.names.length := by
  obtain ⟨rfl, hj⟩ := nonzero_eq_some.mp hn
  exact ⟨Nat.pos_of_ne_zero hj, h.chain_lt i hi⟩

/-- **Behind every symbol the links end**, also behind symbol 0, where the walk through an
empty bucket starts. -/
theorem exists_walk_next (h : SysvHash T mem raw) {i : ℕ} (hi : i < T.names.length) :
    ∃ l, (sysvTable mem raw).Walk ((sysvTable mem raw).next i) l ∧ ∀ j ∈ l, j < T.names.length := by
  have hw : ∃ l, (sysvTable mem raw).Walk ((sysvTable mem raw).next i) l := by
    cases hn : (sysvTable mem raw).next i with
    | none => exact ⟨[], ChainTable.Walk.stop⟩
    | some j => exact h.covers.exists_walk (h.next_lt hi hn) (Nat.mod_lt _ h.nbucket_pos)
  obtain ⟨l, hl⟩ := hw
  exact ⟨l, hl, hl.forall_mem (fun j hj => (h.next_lt hi hj).2)
    (fun j k hj hk => (h.next_lt hj hk).2)⟩

/-- **The chain of its bucket carries a name**: the symbol is the first one of the bucket or
follows it. -/
theorem mem_chain (h : SysvHash T mem raw) {s : Chars} {i : ℕ} (hi : T.names[i]? = some s)
    (h0 : i ≠ 0) {index : ℕ}
    (hindex : wordAt mem raw (2 + sysvHash s % wordAt mem raw 0) = index) {l : List ℕ}
    (hl : (sysvTable mem raw).Walk ((sysvTable mem raw).next index) l) : i ∈ index :: l := by
  have hlt := (List.getElem?_eq_some_iff.mp hi).1
  have hb : sysvHash (T.name i) % wordAt mem raw 0 = sysvHash s % wordAt mem raw 0 := by
    rw [SymbolTable.name_of_getElem? hi]
  obtain ⟨l₀, hl₀⟩ := h.covers.ends _ (Nat.mod_lt (sysvHash (T.name i)) h.nbucket_pos)
  have hmem := h.covers.complete i ⟨Nat.pos_of_ne_zero h0, hlt⟩ l₀ hl₀
  rw [hb] at hl₀
  have hhead : (sysvTable mem raw).head (sysvHash s % wordAt mem raw 0) = nonzero index :=
    congrArg nonzero hindex
  rw [hhead, nonzero] at hl₀
  split_ifs at hl₀ with hz
  · cases hl₀
    exact absurd hmem List.not_mem_nil
  · cases hl₀ with
    | visit hl₀ => rwa [hl₀.unique hl] at hmem

end SysvHash

namespace Module

/-- **`elf_lookup` finds the symbol of a name, and only that.** -/
theorem elfLookup_eq {T : SymbolTable} {m : Module c} {mem : c.Mem} {raw : c.Addr}
    (hT : T.LiesAt m mem) (h : m.UsesSysv mem raw) (hw : SysvHash T mem raw) {s : Chars}
    (hs : ∀ ch ∈ s, ch ≠ 0#8) (hne : s ≠ []) :
    ∃ N, ∀ fuel ≥ N, m.elfLookup mem fuel s 0 0 = some (T.lookup m s) := by
  obtain ⟨index, hindex⟩ : ∃ i, wordAt mem raw (2 + sysvHash s % wordAt mem raw 0) = i := ⟨_, rfl⟩
  have hilt : index < T.names.length := hindex ▸ hw.bucket_lt _ (Nat.mod_lt _ hw.nbucket_pos)
  obtain ⟨l, hl, hlt⟩ := hw.exists_walk_next hilt
  have hzero := hT.nameIs_zero hs hne
  have hfind : (index :: l).find? (fun i => m.nameIs mem i s) = T.index s := by
    refine hT.find?_eq_index hs (List.forall_mem_cons.mpr ⟨hilt, hlt⟩) (fun i hi => ?_)
    refine hw.mem_chain hi ?_ hindex hl
    rintro rfl
    exact hne (Option.some.inj (hi.symm.trans T.zero))
  refine ⟨l.length + 1, fun fuel hfuel => ?_⟩
  have hwalk := elfWalk_eq h hzero hl hfuel
  rw [elfLookup, if_neg (not_or.mpr ⟨h.bucket_ne, h.chain_ne⟩), elfHash_eq, h.nbucket_eq]
  simp only [h.bucket_word, hindex]
  rw [SymbolTable.lookup, ← hfind]
  cases hname : m.nameIs mem index s with
  | true => simp [hname]
  | false =>
    rw [if_neg (by simp), hwalk, List.find?_cons_of_neg (by simp [hname])]
    cases l.find? (fun i => m.nameIs mem i s) <;> rfl

/-! ## Lookup in a GNU table -/

variable {T : SymbolTable} {m : Module c} {mem : c.Mem} {raw : c.Addr}

/-- What the parser leaves in the members of the GNU table. -/
theorem UsesGnu.members (h : m.UsesGnu mem raw) :
    m.isGnuHash = true ∧ m.gnuNbucket = wordAt mem raw 0 ∧ m.gnuSymndx = wordAt mem raw 1 ∧
      m.gnuMaskwords = (wordAt mem raw 2 + (2 ^ 32 - 1)) % 2 ^ 32 ∧
      m.gnuShift2 = wordAt mem raw 3 ∧ m.gnuBloomFilter = plus raw 16 ∧
      m.gnuBucket = gnuWords mem raw ∧
      m.gnuChain = elem (gnuWords mem raw) 4 (wordAt mem raw 0)
        - BitVec.ofNat c.bits (4 * wordAt mem raw 1) := by
  have hz := wordAt_zero mem raw
  obtain ⟨-, hgnu, hnb, hsymndx, hmask, hshift, hbloom, hbucket, hchain⟩ :=
    parseGnuHash_eq_iff.mp h.parsed
  refine ⟨hgnu, hnb.trans hz.symm, hsymndx, hmask, hshift, hbloom, hbucket, ?_⟩
  rw [hchain, hz]
  rfl

/-- An array whose pointer was moved back by elements that are not stored. -/
theorem elem_sub (a : c.Addr) (n i j : ℕ) :
    elem (a - BitVec.ofNat c.bits (n * i)) n (i + j) = elem a n j := by
  rw [elem, elem, Nat.mul_add, BitVec.ofNat_add, ← BitVec.add_assoc, BitVec.sub_add_cancel]

theorem UsesGnu.chain_word (h : m.UsesGnu mem raw) {i : ℕ} (hi : wordAt mem raw 1 ≤ i) :
    readWord mem (elem m.gnuChain 4 i) = gnuChainWord mem raw i := by
  obtain ⟨k, rfl⟩ := Nat.exists_eq_add_of_le hi
  obtain ⟨-, -, -, -, -, -, -, hc⟩ := h.members
  rw [hc, elem_sub, elem_elem, gnuChainWord, Nat.add_sub_cancel_left]
  rfl

/-- The word of the Bloom filter is picked by the remainder of the division. -/
theorem UsesGnu.bloom_word (h : m.UsesGnu mem raw) (hw : GnuHash T mem raw) (hash : ℕ) :
    readAddr mem (elem m.gnuBloomFilter c.addrBytes (hash / c.bits &&& m.gnuMaskwords))
      = bloomAt mem raw (hash / c.bits % wordAt mem raw 2) := by
  obtain ⟨k, hk⟩ := hw.maskwords_eq
  obtain ⟨-, -, -, hmask, -, hbloom, -, -⟩ := h.members
  have hlt : wordAt mem raw 2 < 2 ^ 32 := read_lt _ _ 4
  have hpos : 0 < 2 ^ k := Nat.two_pow_pos k
  have hsub : (2 ^ k + (2 ^ 32 - 1)) % 2 ^ 32 = 2 ^ k - 1 := by
    rw [hk] at hlt
    omega
  rw [hmask, hk, hsub, Nat.and_two_pow_sub_one_eq_mod, hbloom]
  rfl

/-- The two tests of a chain word. -/
theorem chainWord_test (word hash : ℕ) : (word ^^^ hash) >>> 1 = 0 ↔ word / 2 = hash / 2 := by
  rw [Nat.shiftRight_xor_distrib, Nat.xor_eq_zero_iff, Nat.shiftRight_one, Nat.shiftRight_one]

/-- **The loop of `gnu_lookup` is a walk** along the run of a bucket. -/
theorem gnuWalk_eq (hT : T.LiesAt m mem) (h : m.UsesGnu mem raw) (hw : GnuHash T mem raw)
    {s : Chars} (hs : ∀ ch ∈ s, ch ≠ 0#8) {l : List ℕ} {n fuel : ℕ} (hlo : wordAt mem raw 1 ≤ n)
    (hhi : n < T.names.length) (hl : (gnuTable mem raw).Walk (some n) l) (hf : l.length ≤ fuel) :
    m.gnuWalk mem s (gnuFormatHash s) fuel n = some (l.find? (fun i => m.nameIs mem i s)) := by
  induction l generalizing n fuel with
  | nil => cases hl
  | cons j l ih =>
    cases hl with
    | visit hl =>
      obtain ⟨fuel, rfl⟩ := Nat.exists_eq_succ_of_ne_zero (Nat.ne_of_gt (Nat.zero_lt_of_lt hf))
      simp only [gnuWalk, h.chain_word hlo, chainWord_test, hw.hash_eq j hlo hhi]
      cases hname : m.nameIs mem j s with
      | true =>
        have hn := (hT.nameIs_iff hs hhi).mp hname
        simp [hname, SymbolTable.name_of_getElem? hn]
      | false =>
        rw [if_neg (by simp), Nat.and_one_is_mod, List.find?_cons_of_neg (by simp [hname])]
        have hnext : (gnuTable mem raw).next j
            = if gnuChainWord mem raw j % 2 = 0 then some (j + 1) else none := rfl
        by_cases hlast : gnuChainWord mem raw j % 2 = 0
        · rw [if_pos hlast] at hnext
          rw [hnext] at hl
          -- the bit is not set, so the next symbol is of the bucket
          have hrange : j + 1 < T.names.length := by
            have hrun := (hw.runs.next_eq j hlo hhi).symm.trans hnext
            by_contra hge
            rw [if_neg (fun hc => hge hc.1)] at hrun
            cases hrun
          have hmod : (j + 1) % 2 ^ 32 = j + 1 := by
            have hlen := T.length_lt
            omega
          rw [if_pos hlast, hmod]
          exact ih (Nat.le_succ_of_le hlo) hrange hl (Nat.le_of_succ_le_succ hf)
        · rw [if_neg hlast] at hnext
          rw [hnext] at hl
          cases hl
          rw [if_neg hlast]
          rfl

end Module

namespace GnuHash

variable {T : SymbolTable} {mem : c.Mem} {raw : c.Addr}

/-- What is on a chain are hashed symbols. -/
theorem mem_range (h : GnuHash T mem raw) {n : ℕ} {l : List ℕ} (hlo : wordAt mem raw 1 ≤ n)
    (hhi : n < T.names.length) (hl : (gnuTable mem raw).Walk (some n) l) :
    ∀ i ∈ l, wordAt mem raw 1 ≤ i ∧ i < T.names.length := by
  refine hl.forall_mem ?_ ?_
  · rintro i hi
    cases hi
    exact ⟨hlo, hhi⟩
  · intro i j hi hj
    rw [h.runs.next_eq i hi.1 hi.2] at hj
    split_ifs at hj with hc
    cases hj
    exact ⟨Nat.le_succ_of_le hi.1, hc.1⟩

theorem covers (h : GnuHash T mem raw) :
    (gnuTable mem raw).Covers {b | b < wordAt mem raw 0}
      {i | wordAt mem raw 1 ≤ i ∧ i < T.names.length}
      (fun i => gnuFormatHash (T.name i) % wordAt mem raw 0) :=
  h.runs.covers (fun _ _ _ => Nat.mod_lt _ h.nbucket_pos)

/-- A hashed symbol passes the Bloom filter. -/
theorem bloom_pass (h : GnuHash T mem raw) {s : Chars} {i : ℕ} (hi : T.names[i]? = some s)
    (hlo : wordAt mem raw 1 ≤ i) :
    let word := bloomAt mem raw (gnuFormatHash s / c.bits % wordAt mem raw 2)
    1 &&& (word >>> (gnuFormatHash s % c.bits))
      &&& (word >>> ((gnuFormatHash s >>> wordAt mem raw 3) % c.bits)) ≠ 0 := by
  obtain ⟨h₁, h₂⟩ := h.bloom i hlo (List.getElem?_eq_some_iff.mp hi).1
  rw [SymbolTable.name_of_getElem? hi] at h₁ h₂
  intro word hzero
  have hbit := congrArg (fun x => x.testBit 0) hzero
  simp only [Nat.testBit_and, Nat.testBit_shiftRight, Nat.add_zero, Nat.zero_testBit] at hbit
  rw [h₁, h₂] at hbit
  exact absurd hbit (by decide)

end GnuHash

namespace Module

variable {T : SymbolTable} {m : Module c} {mem : c.Mem} {raw : c.Addr}

/-- **`gnu_lookup` looks through the hashed symbols**: through some of them, among which
every one of the name is. -/
theorem gnuLookup_eq (hT : T.LiesAt m mem) (h : m.UsesGnu mem raw) (hw : GnuHash T mem raw)
    {s : Chars} (hs : ∀ ch ∈ s, ch ≠ 0#8) :
    ∃ l : List ℕ, (∀ i ∈ l, i < T.names.length) ∧
      (∀ i, wordAt mem raw 1 ≤ i → T.names[i]? = some s → i ∈ l) ∧
      ∀ fuel ≥ l.length, m.gnuLookup mem fuel s 0 0
        = some (match l.find? (fun i => m.nameIs mem i s) with
          | some i => ⟨true, m.symAt i, i⟩
          | none => ⟨false, 0, 0⟩) := by
  obtain ⟨-, hnb, -, -, hshift, -, hbucket, -⟩ := h.members
  have hlookup (fuel : ℕ) : m.gnuLookup mem fuel s 0 0
      = if 1 &&& (bloomAt mem raw (gnuFormatHash s / c.bits % wordAt mem raw 2)
            >>> (gnuFormatHash s % c.bits))
          &&& (bloomAt mem raw (gnuFormatHash s / c.bits % wordAt mem raw 2)
            >>> ((gnuFormatHash s >>> wordAt mem raw 3) % c.bits)) = 0 then
          some ⟨false, 0, 0⟩
        else if wordAt mem (gnuWords mem raw) (gnuFormatHash s % wordAt mem raw 0) = 0 then
          some ⟨false, 0, 0⟩
        else
          (m.gnuWalk mem s (gnuFormatHash s) fuel
            (wordAt mem (gnuWords mem raw) (gnuFormatHash s % wordAt mem raw 0))).bind
            (fun r => match r with
              | some n => some ⟨true, m.symAt n, n⟩
              | none => some ⟨false, 0, 0⟩) := by
    rw [gnuLookup, if_neg (not_or.mpr ⟨h.bloom_ne, not_or.mpr ⟨h.bucket_ne, h.chain_ne⟩⟩),
      gnuHash_eq, hnb, hshift, hbucket]
    have hbits : c.addrBytes * 8 = c.bits := Nat.mul_comm _ _
    simp only [hbits, h.bloom_word hw]
    rfl
  simp only [hlookup]
  split_ifs with hb hn
  · exact ⟨[], by simp, fun i hlo hi => absurd hb (hw.bloom_pass hi hlo), fun _ _ => rfl⟩
  · refine ⟨[], by simp, fun i hlo hi => ?_, fun _ _ => rfl⟩
    have hlt := (List.getElem?_eq_some_iff.mp hi).1
    have hnone := (hw.runs.head_eq_none _ (Nat.mod_lt _ hw.nbucket_pos)).mp
      (nonzero_eq_none.mpr hn) i hlo hlt
    rw [SymbolTable.name_of_getElem? hi] at hnone
    exact absurd rfl hnone
  · have hhead : (gnuTable mem raw).head (gnuFormatHash s % wordAt mem raw 0)
        = some (wordAt mem (gnuWords mem raw) (gnuFormatHash s % wordAt mem raw 0)) :=
      nonzero_eq_some.mpr ⟨rfl, hn⟩
    obtain ⟨hlo, hhi, -, -⟩ :=
      hw.runs.head_eq_some _ (Nat.mod_lt _ hw.nbucket_pos) _ hhead
    obtain ⟨l, hl⟩ := hw.covers.ends _ (Nat.mod_lt (gnuFormatHash s) hw.nbucket_pos)
    have hl' := hl
    rw [hhead] at hl'
    refine ⟨l, fun i hi => (hw.mem_range hlo hhi hl' i hi).2, fun i hi hname => ?_,
      fun fuel hfuel => ?_⟩
    · have hlt := (List.getElem?_eq_some_iff.mp hname).1
      refine hw.covers.complete i ⟨hi, hlt⟩ l ?_
      rwa [SymbolTable.name_of_getElem? hname]
    · rw [gnuWalk_eq hT h hw hs hlo hhi hl' hfuel]
      cases l.find? (fun i => m.nameIs mem i s) <;> rfl

/-- A loop that keeps the last match keeps the only one. -/
theorem foldl_match {α : Type*} (p : ℕ → Bool) (f : ℕ → α) (l : List ℕ) (r : α)
    (hu : ∀ i ∈ l, ∀ j ∈ l, p i = true → p j = true → i = j) :
    l.foldl (fun r i => if p i then f i else r) r = ((l.find? p).map f).getD r := by
  induction l generalizing r with
  | nil => rfl
  | cons i l ih =>
    have hu' : ∀ j ∈ l, ∀ k ∈ l, p j = true → p k = true → j = k :=
      fun j hj k hk => hu j (List.mem_cons_of_mem _ hj) k (List.mem_cons_of_mem _ hk)
    rw [List.foldl_cons, ih _ hu', List.find?_cons]
    cases hi : p i with
    | false => rfl
    | true =>
      cases hf : l.find? p with
      | none => rfl
      | some j =>
        have hj := List.mem_cons_of_mem i (List.mem_of_find?_eq_some hf)
        rw [hu i List.mem_cons_self j hj hi (List.find?_some hf)]
        rfl

/-- **The loop over the symbols that are not hashed** finds the one of the name. -/
theorem prefixLoop_eq (hT : T.LiesAt m mem) (h : m.UsesGnu mem raw) (hw : GnuHash T mem raw)
    {s : Chars} (hs : ∀ ch ∈ s, ch ≠ 0#8) (r : Lookup c) :
    m.prefixLoop mem s r
      = match (List.range (wordAt mem raw 1)).find? (fun i => m.nameIs mem i s) with
        | some i => ⟨true, m.symAt i, i⟩
        | none => r := by
  obtain ⟨-, -, hsymndx, -⟩ := h.members
  have hlt : wordAt mem raw 1 < 2 ^ 31 := lt_of_le_of_lt hw.symndx_le T.length_lt
  rw [prefixLoop, hsymndx, if_pos hlt, foldl_match]
  · cases (List.range (wordAt mem raw 1)).find? (fun i => m.nameIs mem i s) <;> rfl
  · intro i hi j hj hni hnj
    have hi' := lt_of_lt_of_le (List.mem_range.mp hi) hw.symndx_le
    have hj' := lt_of_lt_of_le (List.mem_range.mp hj) hw.symndx_le
    exact SymbolTable.eq_of_getElem? ((hT.nameIs_iff hs hi').mp hni)
      ((hT.nameIs_iff hs hj').mp hnj)

/-- **The lookup in the GNU format** finds the symbol of a name, hashed or not. -/
theorem findSymbolByName_gnu (hT : T.LiesAt m mem) (h : m.UsesGnu mem raw)
    (hw : GnuHash T mem raw) {s : Chars} (hs : ∀ ch ∈ s, ch ≠ 0#8) :
    ∃ N, ∀ fuel ≥ N, m.findSymbolByName mem fuel s 0 0 = some (T.lookup m s) := by
  obtain ⟨l, hlt, hc, hlookup⟩ := gnuLookup_eq hT h hw hs
  have hindex : (l ++ List.range (wordAt mem raw 1)).find? (fun i => m.nameIs mem i s)
      = T.index s := by
    refine hT.find?_eq_index hs (fun i hi => ?_) (fun i hi => ?_)
    · rcases List.mem_append.mp hi with hi | hi
      · exact hlt i hi
      · exact lt_of_lt_of_le (List.mem_range.mp hi) hw.symndx_le
    · rcases Nat.lt_or_ge i (wordAt mem raw 1) with hlo | hlo
      · exact List.mem_append_right _ (List.mem_range.mpr hlo)
      · exact List.mem_append_left _ (hc i hlo hi)
  rw [List.find?_append] at hindex
  refine ⟨l.length, fun fuel hfuel => ?_⟩
  rw [findSymbolByName, if_neg (not_or.mpr ⟨hT.symstrPtr_ne, hT.symPtr_ne⟩),
    if_pos h.members.1, hlookup fuel hfuel, SymbolTable.lookup, ← hindex]
  cases l.find? (fun i => m.nameIs mem i s) with
  | some i => rfl
  | none =>
    show some (m.prefixLoop mem s ⟨false, 0, 0⟩) = _
    rw [prefixLoop_eq hT h hw hs, Option.none_or]

/-- **The lookup in the System V format** finds the symbol of a name. -/
theorem findSymbolByName_sysv (hT : T.LiesAt m mem) (h : m.UsesSysv mem raw)
    (hw : SysvHash T mem raw) {s : Chars} (hs : ∀ ch ∈ s, ch ≠ 0#8) (hne : s ≠ []) :
    ∃ N, ∀ fuel ≥ N, m.findSymbolByName mem fuel s 0 0 = some (T.lookup m s) := by
  obtain ⟨N, hlookup⟩ := elfLookup_eq hT h hw hs hne
  refine ⟨N, fun fuel hfuel => ?_⟩
  rw [findSymbolByName, if_neg (not_or.mpr ⟨hT.symstrPtr_ne, hT.symPtr_ne⟩),
    if_neg (by rw [h.not_gnu]; exact Bool.false_ne_true), hlookup fuel hfuel]

/-- **The module has a hash table of its symbols**, well-formed and in one of the two
formats. -/
def HasHash (T : SymbolTable) (m : Module c) (mem : c.Mem) : Prop :=
  (∃ raw, m.UsesSysv mem raw ∧ SysvHash T mem raw) ∨ ∃ raw, m.UsesGnu mem raw ∧ GnuHash T mem raw

/-- **A lookup finds the symbol of a name, and only that**, in either format. -/
theorem findSymbolByName_eq (hT : T.LiesAt m mem) (hh : HasHash T m mem) {s : Chars}
    (hs : ∀ ch ∈ s, ch ≠ 0#8) (hne : s ≠ []) :
    ∃ N, ∀ fuel ≥ N, m.findSymbolByName mem fuel s 0 0 = some (T.lookup m s) := by
  rcases hh with ⟨raw, h, hw⟩ | ⟨raw, h, hw⟩
  · exact findSymbolByName_sysv hT h hw hs hne
  · exact findSymbolByName_gnu hT h hw hs

/-- **A module whose dynamic section describes a hash table**: the table is well-formed, and
the pointers into it are not null. With entries for both formats it is the GNU table. -/
inductive DescribesHash (T : SymbolTable) (m : Module c) (mem : c.Mem) : Prop
  | sysv (v : ℕ) (hno : ∀ d ∈ dynEntries mem m.dynSize m.dynPtr, d.tag ≠ .gnuHash)
      (hv : lastValue .hash (dynEntries mem m.dynSize m.dynPtr) = some v)
      (hbucket : m.bucket ≠ 0) (hchain : m.chain ≠ 0)
      (hw : SysvHash T mem (plus m.biasAddr v)) : DescribesHash T m mem
  | gnu (v : ℕ) (hv : lastValue .gnuHash (dynEntries mem m.dynSize m.dynPtr) = some v)
      (hbloom : m.gnuBloomFilter ≠ 0) (hbucket : m.gnuBucket ≠ 0) (hchain : m.gnuChain ≠ 0)
      (hw : GnuHash T mem (plus m.biasAddr v)) : DescribesHash T m mem

/-- **Loading and looking up**: a module whose dynamic section was read looks up the symbols
of the hash table that the section describes. -/
theorem findSymbolByName_of_view {base : c.Addr} {junk : Module c}
    (h : getSegmentView mem (construct base junk) = (true, m)) (hd : DescribesHash T m mem)
    (hT : T.LiesAt m mem) {s : Chars} (hs : ∀ ch ∈ s, ch ≠ 0#8) (hne : s ≠ []) :
    ∃ N, ∀ fuel ≥ N, m.findSymbolByName mem fuel s 0 0 = some (T.lookup m s) := by
  have hh : HasHash T m mem := by
    cases hd with
    | sysv v hno hv hbucket hchain hw =>
      exact .inl ⟨_, usesSysv_of_view h hno hv hbucket hchain, hw⟩
    | gnu v hv hbloom hbucket hchain hw =>
      exact .inr ⟨_, usesGnu_of_view h hv hbloom hbucket hchain, hw⟩
  exact findSymbolByName_eq hT hh hs hne

/-- **Symbol lookup is right, and the formats agree**: a lookup of a name that is not empty
gives the symbol of that name or, if there is none, no symbol; and another module with the
same symbols at the same address gives the same answer, whatever the format of its hash
table. -/
theorem findSymbolByName_agree (hT : T.LiesAt m mem) (hh : HasHash T m mem) {s : Chars}
    (hs : ∀ ch ∈ s, ch ≠ 0#8) (hne : s ≠ []) :
    (∃ N, ∀ fuel ≥ N, m.findSymbolByName mem fuel s 0 0 = some (T.lookup m s)) ∧
      ∀ (m' : Module c) (mem' : c.Mem), T.LiesAt m' mem' → HasHash T m' mem' →
        m'.symPtr = m.symPtr →
        ∃ N, ∀ fuel ≥ N,
          m'.findSymbolByName mem' fuel s 0 0 = m.findSymbolByName mem fuel s 0 0 := by
  obtain ⟨N, hN⟩ := findSymbolByName_eq hT hh hs hne
  refine ⟨⟨N, hN⟩, fun m' mem' hT' hh' hsym => ?_⟩
  obtain ⟨N', hN'⟩ := findSymbolByName_eq hT' hh' hs hne
  refine ⟨max N N', fun fuel hfuel => ?_⟩
  have hlookup : T.lookup m' s = T.lookup m s := by
    simp only [SymbolTable.lookup, symAt, hsym]
  rw [hN fuel (le_of_max_le_left hfuel), hN' fuel (le_of_max_le_right hfuel), hlookup]

/-! ### An image with both tables -/

/-- The words of an image: the strings at 16, the symbols at 24, the table of the System V
ABI at 88 and the GNU table, in which symbol 1 is not hashed, at 120. -/
def sampleWords : List ℕ :=
  [0, 0, 0, 0, 0x62006100, 0x00006300,
   0, 0, 0, 0, 1, 0, 0, 0, 3, 0, 0, 0, 5, 0, 0, 0,
   2, 4, 2, 1, 0, 3, 0, 0,
   1, 2, 1, 5, 0x10180, 2, 177670, 177673]

def sampleMem : ElfClass.elf32.Mem := fun a =>
  byteOf (sampleWords.getD (a.toNat / 4) 0) (a.toNat % 4)

def sampleSysv : Module .elf32 :=
  parseHash sampleMem 88 { (default : Module .elf32) with symPtr := 24, symstrPtr := 16 }

def sampleGnu : Module .elf32 :=
  (parseGnuHash sampleMem 120 { (default : Module .elf32) with symPtr := 24, symstrPtr := 16 }).2

def sampleTable : SymbolTable where
  names := [[], [0x61], [0x62], [0x63]]
  nul_free := by decide
  zero := rfl
  nodup := by decide
  length_lt := by decide

theorem sampleTable_liesAt_sysv : sampleTable.LiesAt sampleSysv sampleMem where
  symPtr_ne := by decide
  symstrPtr_ne := by decide
  name_at i s h := by
    have hi : i < 4 := (List.getElem?_eq_some_iff.mp h).1
    interval_cases i <;> cases h <;> decide

theorem sampleTable_liesAt_gnu : sampleTable.LiesAt sampleGnu sampleMem where
  symPtr_ne := by decide
  symstrPtr_ne := by decide
  name_at i s h := by
    have hi : i < 4 := (List.getElem?_eq_some_iff.mp h).1
    interval_cases i <;> cases h <;> decide

theorem sampleTable_sysvHash : SysvHash sampleTable sampleMem 88 where
  nbucket_pos := by decide
  nchain_eq := by decide
  bucket_lt := by decide
  chain_lt := by decide
  covers := by
    have hb : wordAt sampleMem 88 0 = 2 := by decide
    refine ChainTable.Covers.of_entries 4 ?_ ?_
    · rw [hb]
      rintro b (hb : b < 2)
      interval_cases b <;> decide
    · rintro i ⟨h0, h4 : i < 4⟩
      interval_cases i
      · exact ⟨[1, 3], by decide, by decide⟩
      · exact ⟨[2], by decide, by decide⟩
      · exact ⟨[1, 3], by decide, by decide⟩

theorem sampleTable_gnuHash : GnuHash sampleTable sampleMem 120 where
  nbucket_pos := by decide
  maskwords_eq := ⟨0, by decide⟩
  symndx_le := by decide
  runs := by
    have hnb : wordAt sampleMem 120 0 = 1 := by decide
    have hlo : wordAt sampleMem 120 1 = 2 := by decide
    have hhead : (gnuTable sampleMem 120).head 0 = some 2 := by decide
    rw [hnb, hlo]
    refine ⟨fun i j _ _ _ => ?_, ?_, ?_, ?_⟩
    · rw [Nat.mod_one, Nat.mod_one]
    · rintro b (hb : b < 1)
      interval_cases b
      rw [hhead]
      exact ⟨fun h => absurd h (Option.some_ne_none 2),
        fun h => absurd (Nat.mod_one _) (h 2 le_rfl (by decide))⟩
    · rintro b (hb : b < 1) i hi
      interval_cases b
      rw [hhead] at hi
      cases hi
      exact ⟨le_rfl, by decide, Nat.mod_one _, fun j h2 hj => absurd h2 (Nat.not_le.mpr hj)⟩
    · rintro i h2 (h4 : i < 4)
      interval_cases i <;> decide
  hash_eq i h2 h4 := by
    have hlo : wordAt sampleMem 120 1 = 2 := by decide
    rw [hlo] at h2
    replace h4 : i < 4 := h4
    interval_cases i <;> decide
  bloom i h2 h4 := by
    have hlo : wordAt sampleMem 120 1 = 2 := by decide
    rw [hlo] at h2
    replace h4 : i < 4 := h4
    interval_cases i <;> decide

theorem sampleSysv_uses : sampleSysv.UsesSysv sampleMem 88 where
  not_gnu := by decide
  parsed := parseHash_parseHash sampleMem 88 _
  bucket_ne := by decide
  chain_ne := by decide

theorem sampleGnu_uses : sampleGnu.UsesGnu sampleMem 120 where
  parsed := parseGnuHash_parseGnuHash (by decide) _
  bloom_ne := by decide
  bucket_ne := by decide
  chain_ne := by decide

/-- The symbol `a` of the image, by its System V table, and by its GNU table as well. -/
theorem findSymbolByName_agree_sample :
    (∃ N, ∀ fuel ≥ N, sampleSysv.findSymbolByName sampleMem fuel [0x61] 0 0
        = some (sampleTable.lookup sampleSysv [0x61])) ∧
      ∃ N, ∀ fuel ≥ N, sampleGnu.findSymbolByName sampleMem fuel [0x61] 0 0
        = sampleSysv.findSymbolByName sampleMem fuel [0x61] 0 0 :=
  have h := findSymbolByName_agree sampleTable_liesAt_sysv
    (.inl ⟨88, sampleSysv_uses, sampleTable_sysvHash⟩) (by decide) (by decide)
  ⟨h.1, h.2 sampleGnu sampleMem sampleTable_liesAt_gnu
    (.inr ⟨120, sampleGnu_uses, sampleTable_gnuHash⟩) rfl⟩

end Module

end Elf
