import AndroidReverse.ChainTable
import AndroidReverse.ElfModule
import Mathlib.Tactic.IntervalCases

/-!
# When the walk along a chain ends

The loop of `elf_lookup` follows the links of the chain until it comes to the symbol or to
index 0. Nothing in it counts the links, though the number of entries is at hand, so on a
table whose links lead in a circle it need not end. It is said here when it does: as long as
the links stay in the table, what they do not reach within its number of entries they never
reach.
-/

open ByteMemory

namespace Elf

variable {c : ElfClass}

namespace Module

variable (m : Module c) (mem : c.Mem) (symbol : Chars)

/-- `m_bucket[i]`. -/
def bucketAt (i : ℕ) : ℕ := readWord mem (elem m.bucket 4 i)

/-- `m_chain[i]`. -/
def chainAt (i : ℕ) : ℕ := readWord mem (elem m.chain 4 i)

/-- **A hash table whose numbers are in range**: there is a bucket, and every bucket and
every link is the number of an entry. -/
structure HashInRange : Prop where
  nbucket_pos : 0 < m.nbucket
  bucket_lt : ∀ i < m.nbucket, m.bucketAt mem i < m.nchain
  chain_lt : ∀ i < m.nchain, m.chainAt mem i < m.nchain

/-- **An index at which the loop of `elf_lookup` ends**: the symbol's, or 0. -/
def EndsAt (i : ℕ) : Prop := m.nameIs mem i symbol = true ∨ i = 0

instance (i : ℕ) : Decidable (m.EndsAt mem symbol i) := inferInstanceAs (Decidable (_ ∨ _))

/-- **The links from an index on lead to an end** after one link or more, `n` at most. -/
def ReachesEnd (n i : ℕ) : Prop :=
  ∃ k < n, m.EndsAt mem symbol ((m.chainAt mem)^[k] (m.chainAt mem i))

instance (n i : ℕ) : Decidable (m.ReachesEnd mem symbol n i) := Nat.decidableExistsLT n

variable {m mem symbol}

theorem elfWalk_succ (fuel i : ℕ) :
    m.elfWalk mem symbol (fuel + 1) i
      = if m.nameIs mem (m.chainAt mem i) symbol then some (some (m.chainAt mem i))
        else if m.chainAt mem i ≠ 0 then m.elfWalk mem symbol fuel (m.chainAt mem i)
        else some none :=
  rfl

/-- **The loop is over within `fuel` rounds** if the links reach an end in as many steps. -/
theorem isSome_elfWalk {fuel i : ℕ} :
    (m.elfWalk mem symbol fuel i).isSome = true ↔ m.ReachesEnd mem symbol fuel i := by
  induction fuel generalizing i with
  | zero => simp [elfWalk, ReachesEnd]
  | succ fuel ih =>
    have hrest : (∃ k < fuel, m.EndsAt mem symbol ((m.chainAt mem)^[k + 1] (m.chainAt mem i)))
        ↔ (m.elfWalk mem symbol fuel (m.chainAt mem i)).isSome = true := ih.symm
    rw [ReachesEnd, Nat.exists_lt_succ_left, hrest, Function.iterate_zero_apply, EndsAt,
      elfWalk_succ]
    split_ifs with hname h0
    · simp [hname]
    · simp [hname, h0]
    · simp [not_not.mp h0]

/-- **`elf_lookup` returns within `fuel` rounds** if there is no table, the bucket of the name
has the symbol, or the links from there reach an end. -/
theorem isSome_elfLookup {fuel symidx : ℕ} {sym : c.Addr} :
    (m.elfLookup mem fuel symbol sym symidx).isSome = true
      ↔ m.bucket = 0 ∨ m.chain = 0 ∨
        m.nameIs mem (m.bucketAt mem (elfHash symbol % m.nbucket)) symbol = true ∨
        m.ReachesEnd mem symbol fuel (m.bucketAt mem (elfHash symbol % m.nbucket)) := by
  rw [← isSome_elfWalk, ← or_assoc, elfLookup]
  by_cases htable : m.bucket = 0 ∨ m.chain = 0
  · rw [if_pos htable]
    exact iff_of_true rfl (.inl htable)
  rw [if_neg htable, or_iff_right htable]
  change (if m.nameIs mem (m.bucketAt mem (elfHash symbol % m.nbucket)) symbol = true then _
    else (m.elfWalk mem symbol fuel (m.bucketAt mem (elfHash symbol % m.nbucket))).bind _
      : Option (Lookup c)).isSome = true ↔ _
  split_ifs with hname
  · exact iff_of_true rfl (.inl hname)
  rw [or_iff_right hname]
  cases m.elfWalk mem symbol fuel (m.bucketAt mem (elfHash symbol % m.nbucket)) with
  | none => exact Iff.rfl
  | some r => cases r <;> exact Iff.rfl

/-- **Within a table in range, an end is reached early or never.** -/
theorem HashInRange.reachesEnd (h : m.HashInRange mem) {fuel i : ℕ} (hi : i < m.nchain)
    (hend : m.ReachesEnd mem symbol fuel i) : m.ReachesEnd mem symbol m.nchain i := by
  obtain ⟨k, -, hk⟩ := hend
  have hlinks : ∀ j ∈ Finset.range m.nchain, m.chainAt mem j ∈ Finset.range m.nchain :=
    fun j hj => Finset.mem_range.mpr (h.chain_lt j (Finset.mem_range.mp hj))
  have hstart : m.chainAt mem i ∈ Finset.range m.nchain := Finset.mem_range.mpr (h.chain_lt i hi)
  have hearly := ChainTable.exists_iterate_lt_card hlinks hstart ⟨k, hk⟩
  rwa [Finset.card_range] at hearly

/-- **When `elf_lookup` returns.** On a table whose numbers are in range it does if, and only
if, there is no table, the bucket of the name has the symbol, or the links from there lead
to the symbol or to index 0; it then returns within as many rounds as there are entries. -/
theorem elfLookup_returns_iff (h : m.HashInRange mem) (symbol : Chars) (sym : c.Addr) (symidx : ℕ) :
    ((∃ fuel, (m.elfLookup mem fuel symbol sym symidx).isSome = true)
        ↔ m.bucket = 0 ∨ m.chain = 0 ∨
          m.nameIs mem (m.bucketAt mem (elfHash symbol % m.nbucket)) symbol = true ∨
          m.ReachesEnd mem symbol m.nchain (m.bucketAt mem (elfHash symbol % m.nbucket))) ∧
      ((∃ fuel, (m.elfLookup mem fuel symbol sym symidx).isSome = true) →
        (m.elfLookup mem m.nchain symbol sym symidx).isSome = true) := by
  have hbucket := h.bucket_lt _ (Nat.mod_lt (elfHash symbol) h.nbucket_pos)
  have hearly : (∃ fuel, (m.elfLookup mem fuel symbol sym symidx).isSome = true) →
      (m.elfLookup mem m.nchain symbol sym symidx).isSome = true := by
    rintro ⟨fuel, hfuel⟩
    rw [isSome_elfLookup] at hfuel ⊢
    exact hfuel.imp id (Or.imp id (Or.imp id (h.reachesEnd hbucket)))
  refine ⟨Iff.trans ⟨hearly, fun hs => ⟨_, hs⟩⟩ isSome_elfLookup, hearly⟩

/-! ### A table with one bucket -/

/-- An image with two symbols, both without a name, and a hash table at 40 with one bucket,
in which the chain of the bucket starts at symbol 1 and goes on to `next`. -/
def sampleChainMem (next : ℕ) : ElfClass.elf32.Mem := fun a =>
  byteOf ([0, 0, 0, 0, 0, 0, 0, 0, 0, 0, 1, 2, 1, 0, next].getD (a.toNat / 4) 0) (a.toNat % 4)

def sampleChainModule : Module .elf32 :=
  parseHash (sampleChainMem 0) 40 { (default : Module .elf32) with symPtr := 8, symstrPtr := 4 }

theorem sampleChain_inRange {next : ℕ} (hnext : next < 2) :
    sampleChainModule.HashInRange (sampleChainMem next) := by
  have hnbucket : sampleChainModule.nbucket = 1 := by decide
  have hnchain : sampleChainModule.nchain = 2 := by decide
  refine ⟨by rw [hnbucket]; exact Nat.one_pos, ?_, ?_⟩
  · rw [hnbucket, hnchain]
    interval_cases next <;> decide
  · rw [hnchain]
    interval_cases next <;> decide

/-- A chain that ends. -/
theorem elfLookup_returns_iff_ends :
    (sampleChainModule.elfLookup (sampleChainMem 0) sampleChainModule.nchain [0x61] 0 0).isSome
      = true :=
  have h := elfLookup_returns_iff (sampleChain_inRange Nat.two_pos) [0x61] 0 0
  h.2 (h.1.mpr (.inr (.inr (.inr ⟨0, by decide, by decide⟩))))

/-- **A chain that leads in a circle.** Symbol 1 follows itself, and no symbol has the name:
the numbers of the table are in range, and the lookup does not return. -/
theorem elfLookup_circle :
    sampleChainModule.HashInRange (sampleChainMem 1) ∧
      ∀ fuel, sampleChainModule.elfLookup (sampleChainMem 1) fuel [0x61] 0 0 = none := by
  refine ⟨sampleChain_inRange Nat.one_lt_two, fun fuel => ?_⟩
  have hlink : sampleChainModule.chainAt (sampleChainMem 1) 1 = 1 := by decide
  have hends : ¬ sampleChainModule.EndsAt (sampleChainMem 1) [0x61] 1 := by decide
  rw [← Option.not_isSome_iff_eq_none, isSome_elfLookup]
  have hfirst : sampleChainModule.bucketAt (sampleChainMem 1)
      (elfHash [0x61] % sampleChainModule.nbucket) = 1 := by decide
  rw [hfirst]
  rintro (h0 | h0 | h0 | ⟨k, -, hk⟩)
  · exact absurd h0 (by decide)
  · exact absurd h0 (by decide)
  · exact hends (.inl h0)
  · rw [hlink, Function.iterate_fixed hlink] at hk
    exact hends hk

end Module

end Elf
