import AndroidReverse.ArmRun
import AndroidReverse.SectionTable
import Mathlib.Data.List.Find
import Mathlib.Data.List.Range

/-!
# The GOT hook of the process itself

`Hook` of `hookall` reads the headers of the sections one after the other, and where a section
is a GOT it looks for the function to replace among its words. Both loops count with `i`:
behind a GOT in which nothing is replaced, the loop over the sections goes on from where the
scan of the words came to, with a header that is the next one all the same. So it stops in
front of sections it has not seen, or reads headers behind the table. `Reaches` says exactly
when neither matters (`hook_iff`).
-/

namespace HookAll

open Arm SectionTable
open ExportUtil (Fd Ehdr)

/-! ## `Hook` -/

/-- How the scan of a GOT ends. -/
inductive Scan where
  /-- At the function to replace. -/
  | found
  /-- At the function that replaces it. -/
  | hooked
  | ended
deriving DecidableEq

/-- The loop over the words of a GOT: where it ends, and how. -/
def scanGot (mem : Mem) (old_func new_func : Word) (out_addr : Word) (out_size i : ℕ) : ℕ × Scan :=
  if i < out_size then
    let got_item := mem.read32 (out_addr + BitVec.ofNat 32 i)
    if got_item = old_func then (i, .found)
    else if got_item = new_func then (i, .hooked)
    else scanGot mem old_func new_func out_addr out_size (i + 4)
  else (i, .ended)
termination_by out_size - i

/-- What does not change in the loop over the sections. -/
structure Params where
  base_addr : Word
  old_func : Word
  new_func : Word
  shnum : ℕ
  shent_size : ℕ
  string_table : List Byte

/-- What changes in it. -/
structure Vars where
  i : ℕ
  fd : Fd
  shdr : List Byte
  mem : Mem
  /-- Where in the file the headers stand that have been read. -/
  examined : List ℕ

/-- `read(fd, &shdr, shent_size)`. -/
def readHeader (p : Params) (s : Vars) : Vars :=
  let (_, bytes, fd) := s.fd.read p.shent_size
  { s with fd := fd, shdr := fill s.shdr bytes, examined := s.examined ++ [s.fd.pos] }

/-- The body of the loop over the sections, and whether it breaks. -/
def body (p : Params) (s : Vars) : Vars × Bool :=
  let s := readHeader p s
  let shdr := Shdr.ofBytes s.shdr
  if shdr.sh_type = SHT_PROGBITS then
    if strcmp p.string_table shdr.sh_name gotPltName
        || strcmp p.string_table shdr.sh_name gotName then
      let out_addr := p.base_addr + BitVec.ofNat 32 shdr.sh_addr
      let out_size := shdr.sh_size
      match scanGot s.mem p.old_func p.new_func out_addr out_size 0 with
      | (i, .found) =>
        ({ s with i := i, mem := s.mem.write 4 (out_addr + BitVec.ofNat 32 i) p.new_func }, true)
      -- `i` is that of the loop over the sections
      | (i, _) => ({ s with i := i }, false)
    else (s, false)
  else (s, false)

/-- The loop over the sections, of some number of rounds at most. -/
def loop (p : Params) : ℕ → Vars → Option Vars
  | 0, _ => none
  | n + 1, s =>
    if s.i < p.shnum then
      match body p s with
      | (s, true) => some s
      | (s, false) => loop p n { s with i := s.i + 1 }
    else some s

/-- `Hook`, where `base_addr` is the address of the library and `data` its file: the variables
when it returns. `shdr` is what the variable holds at first. -/
def hook (base_addr new_func old_func : Word) (data shdr : List Byte) (mem : Mem) (n : ℕ) :
    Option Vars :=
  let fd : Fd := ⟨data, 0⟩
  let (_, bytes, fd) := fd.read Ehdr.size
  let ehdr := Ehdr.ofBytes bytes
  let (_, bytes, fd) := (fd.lseek (ehdr.shoff + ehdr.shstrndx * ehdr.shentsize)).read ehdr.shentsize
  let shdr := fill shdr bytes
  let strings := Shdr.ofBytes shdr
  let (_, string_table, fd) := (fd.lseek strings.sh_offset).read strings.sh_size
  loop ⟨base_addr, old_func, new_func, ehdr.shnum, ehdr.shentsize, string_table⟩ n
    ⟨0, fd.lseek ehdr.shoff, shdr, mem, []⟩

/-! ## What it is for -/

section Spec

variable (base_addr new_func old_func : Word) (data : List Byte) (mem : Mem)

/-- Whether a section is a GOT. -/
def isGot (k : ℕ) : Bool := named data k gotPltName || named data k gotName

/-- The addresses of the words of a section. -/
def words (k : ℕ) : List Word :=
  (List.range (((header data k).sh_size + 3) / 4)).map fun j =>
    base_addr + BitVec.ofNat 32 (header data k).sh_addr + BitVec.ofNat 32 (4 * j)

/-- The sections from one on that are a GOT. -/
def gotsFrom (k : ℕ) : List ℕ :=
  (List.range' k ((ehdr data).shnum - k)).filter (isGot data)

/-- The words of the sections from one on that are a GOT. -/
def gotWordsFrom (k : ℕ) : List Word := (gotsFrom data k).flatMap (words base_addr data)

/-- No word of a GOT is the new function. -/
def Unhooked : Prop := ∀ a ∈ gotWordsFrom base_addr data 0, mem.read32 a ≠ new_func

/-- **The hook visits every section**: it returns, it has read headers of the table only, none
of them twice, and where no word of a GOT is the new function the first one that is the old
function has become the new one, and nothing else has changed. -/
def Visits (shdr : List Byte) : Prop :=
  ∃ n s, hook base_addr new_func old_func data shdr mem n = some s
    ∧ s.examined.Nodup
    ∧ (∀ pos ∈ s.examined, ∃ k < (ehdr data).shnum, pos = headerAt data k)
    ∧ (Unhooked base_addr new_func data mem →
        ∀ a, (gotWordsFrom base_addr data 0).find? (mem.read32 · = old_func) = some a →
          s.mem = mem.write 4 a new_func)

/-! ## When it does that -/

/-- Whether a word is one of the two functions. -/
def isHit (a : Word) : Bool := mem.read32 a = old_func ∨ mem.read32 a = new_func

/-- Where the scan of a section ends: at the first one of the two functions, or behind it. -/
def stop (k : ℕ) : ℕ := 4 * (words base_addr data k).findIdx (isHit new_func old_func mem)

/-- The first one of the two functions in a section is the old one. -/
def Patched (k : ℕ) : Prop :=
  ∃ a, (words base_addr data k).find? (isHit new_func old_func mem) = some a
    ∧ mem.read32 a = old_func

/-- There is something to replace in some sections. -/
def Wanted (ks : List ℕ) : Prop :=
  Unhooked base_addr new_func data mem
    ∧ ∃ k ∈ ks, ∃ a ∈ words base_addr data k, mem.read32 a = old_func

/-- **The counter serves its two ends**, in front of some sections that are a GOT, where it is
`d` ahead of the number of headers that have been read. The next GOT is reached if the counter
is not behind the table then; in that case the function is replaced there, or the counter
goes on from where the scan ended. Otherwise there must not be anything left to replace. And
when no GOT is left, it must not be behind the headers. -/
def Reaches : ℤ → List ℕ → Prop
  | d, [] => 0 ≤ d
  | d, k :: ks =>
    if k + d < (ehdr data).shnum then
      Patched base_addr new_func old_func data mem k
        ∨ Reaches (stop base_addr new_func old_func data mem k - k) ks
    else ¬ Wanted base_addr new_func old_func data mem (k :: ks)

end Spec

/-! ## The scan of a GOT -/

section Scan

variable {new_func old_func : Word} {mem : Mem}

/-- How a scan ends at a word. -/
def verdict (old_func : Word) (mem : Mem) : Option Word → Scan
  | none => .ended
  | some a => if mem.read32 a = old_func then .found else .hooked

/-- **What the scan finds**, from some word on. -/
theorem scanGot_range' {out_addr : Word} {out_size m j : ℕ} (h : j + m = (out_size + 3) / 4) :
    scanGot mem old_func new_func out_addr out_size (4 * j)
      = (4 * (j + ((List.range' j m).map fun j => out_addr + BitVec.ofNat 32 (4 * j)).findIdx
            (isHit new_func old_func mem)),
          verdict old_func mem (((List.range' j m).map fun j =>
            out_addr + BitVec.ofNat 32 (4 * j)).find? (isHit new_func old_func mem))) := by
  induction m generalizing j with
  | zero =>
    rw [scanGot, if_neg (by omega)]
    rfl
  | succ m ih =>
    rw [scanGot, if_pos (by omega), List.range'_succ, List.map_cons, List.findIdx_cons,
      List.find?_cons]
    dsimp only
    split
    · next hold =>
      have hhit : isHit new_func old_func mem (out_addr + BitVec.ofNat 32 (4 * j)) = true :=
        decide_eq_true (Or.inl hold)
      rw [hhit]
      exact Prod.ext rfl (if_pos hold).symm
    · next hold =>
      split
      · next hnew =>
        have hhit : isHit new_func old_func mem (out_addr + BitVec.ofNat 32 (4 * j)) = true :=
          decide_eq_true (Or.inr hnew)
        rw [hhit]
        exact Prod.ext rfl (if_neg hold).symm
      · next hnew =>
        have hmiss : isHit new_func old_func mem (out_addr + BitVec.ofNat 32 (4 * j)) = false :=
          decide_eq_false (not_or.mpr ⟨hold, hnew⟩)
        rw [hmiss, show 4 * j + 4 = 4 * (j + 1) from rfl, ih (by omega)]
        refine Prod.ext ?_ rfl
        show 4 * (j + 1 + _) = 4 * (j + (_ + 1))
        rw [Nat.add_right_comm, Nat.add_assoc]

/-- **The scan of a section.** -/
theorem scanGot_words (base_addr : Word) (data : List (BitVec 8)) (k : ℕ) :
    scanGot mem old_func new_func (base_addr + BitVec.ofNat 32 (header data k).sh_addr)
        (header data k).sh_size 0
      = (stop base_addr new_func old_func data mem k,
        verdict old_func mem
          ((words base_addr data k).find? (isHit new_func old_func mem))) := by
  have h := @scanGot_range' new_func old_func mem
    (base_addr + BitVec.ofNat 32 (header data k).sh_addr) (header data k).sh_size _ 0
    (Nat.zero_add _)
  rw [Nat.mul_zero, Nat.zero_add, ← List.range_eq_range'] at h
  exact h

end Scan

/-! ## The headers that are read -/

section Examined

variable {p : Params} {s : Vars}

theorem examined_body : (body p s).1.examined = s.examined ++ [s.fd.pos] := by
  unfold body
  dsimp only
  split
  · split
    · split <;> rfl
    · rfl
  · rfl

/-- What has been read stays read. -/
theorem prefix_examined {n : ℕ} {f : Vars} (h : loop p n s = some f) :
    s.examined <+: f.examined := by
  induction n generalizing s with
  | zero => cases h
  | succ n ih =>
    rw [loop] at h
    have hbody := examined_body (p := p) (s := s)
    split at h
    · split at h
      · next s' hs' =>
        rw [hs'] at hbody
        rw [← Option.some.inj h, hbody]
        exact List.prefix_append _ _
      · next s' hs' =>
        rw [hs'] at hbody
        have hs : s'.examined = s.examined ++ [s.fd.pos] := hbody
        have hle := ih h
        dsimp only at hle
        rw [hs] at hle
        exact (List.prefix_append _ _).trans hle
    · rw [← Option.some.inj h]

/-- **A round reads a header.** -/
theorem mem_examined {n : ℕ} {f : Vars} (h : loop p n s = some f) (hi : s.i < p.shnum) :
    s.fd.pos ∈ f.examined := by
  cases n with
  | zero => cases h
  | succ n =>
    rw [loop, if_pos hi] at h
    have hbody := examined_body (p := p) (s := s)
    have hmem : s.fd.pos ∈ (body p s).1.examined := by
      rw [hbody]
      exact List.mem_append_right _ List.mem_cons_self
    split at h
    · next s' hs' =>
      rw [hs'] at hmem
      rw [← Option.some.inj h]
      exact hmem
    · next s' hs' =>
      rw [hs'] at hmem
      exact (prefix_examined h).subset hmem

end Examined

/-! ## The loop over the sections -/

section Run

variable (base_addr new_func old_func : Word) (data : List (BitVec 8)) (mem : Mem)

/-- What does not change where the file is valid. -/
def params : Params :=
  ⟨base_addr, old_func, new_func, (ehdr data).shnum, Shdr.sizeof, names data⟩

/-- **The variables in front of a section**, as long as nothing has been replaced. -/
structure At (k : ℕ) (s : Vars) : Prop where
  fd : s.fd = ⟨data, headerAt data k⟩
  mem : s.mem = mem
  examined : s.examined = (List.range k).map (headerAt data)

/-- What is left to do in front of a section. -/
def VisitsFrom (k : ℕ) (s : Vars) : Prop :=
  ∃ n f, loop (params base_addr new_func old_func data) n s = some f
    ∧ f.examined.Nodup
    ∧ (∀ pos ∈ f.examined, ∃ k < (ehdr data).shnum, pos = headerAt data k)
    ∧ (Unhooked base_addr new_func data mem →
        ∀ a, (gotWordsFrom base_addr data k).find? (mem.read32 · = old_func) = some a →
          f.mem = mem.write 4 a new_func)

variable {base_addr new_func old_func : Word} {data : List (BitVec 8)} {mem : Mem} {k : ℕ}
  {s : Vars}

theorem gotsFrom_of_le (hk : (ehdr data).shnum ≤ k) : gotsFrom data k = [] := by
  rw [gotsFrom, Nat.sub_eq_zero_of_le hk]
  rfl

theorem gotsFrom_succ (hk : k < (ehdr data).shnum) :
    gotsFrom data k =
      if isGot data k then k :: gotsFrom data (k + 1) else gotsFrom data (k + 1) := by
  obtain ⟨n, hn⟩ := Nat.exists_eq_add_of_lt hk
  have hsub : (ehdr data).shnum - k = n + 1 := by omega
  have hsub' : (ehdr data).shnum - (k + 1) = n := by omega
  rw [gotsFrom, gotsFrom, hsub, hsub', List.range'_succ, List.filter_cons]

theorem le_of_mem_gotsFrom {k' : ℕ} (h : k' ∈ gotsFrom data k) : k ≤ k' :=
  (List.mem_range'_1.mp (List.mem_filter.mp h).1).1

/-- The headers of a number of sections are in the table, each of them once. -/
theorem headers_of_le (hk : k ≤ (ehdr data).shnum) :
    ((List.range k).map (headerAt data)).Nodup
      ∧ ∀ pos ∈ (List.range k).map (headerAt data), ∃ j < (ehdr data).shnum,
        pos = headerAt data j := by
  refine ⟨List.nodup_range.map (headerAt_injective data), fun pos hpos => ?_⟩
  obtain ⟨j, hj, rfl⟩ := List.mem_map.mp hpos
  exact ⟨j, (List.mem_range.mp hj).trans_le hk, rfl⟩

/-- **A header is read.** -/
theorem readHeader_at (hv : Valid data) (hs : At data mem k s) (hk : k < (ehdr data).shnum) :
    ∃ shdr, Shdr.ofBytes shdr = header data k
      ∧ readHeader (params base_addr new_func old_func data) s
        = ⟨s.i, ⟨data, headerAt data (k + 1)⟩, shdr, mem,
          (List.range (k + 1)).map (headerAt data)⟩ := by
  refine ⟨_, ofBytes_fill hv s.shdr hk, ?_⟩
  have hsize : (params base_addr new_func old_func data).shent_size = Shdr.sizeof := rfl
  rw [readHeader, hsize, hs.fd, read_header hv hk]
  simp only [hs.mem, hs.examined, List.range_succ, List.map_append, List.map_singleton]

/-- A section that is not a GOT. -/
theorem body_of_not_got (hv : Valid data) (hs : At data mem k s) (hk : k < (ehdr data).shnum)
    (hgot : isGot data k = false) :
    ∃ s', body (params base_addr new_func old_func data) s = (s', false)
      ∧ At data mem (k + 1) s' ∧ s'.i = s.i := by
  obtain ⟨shdr, hshdr, hread⟩ := @readHeader_at base_addr new_func old_func data mem k s hv hs hk
  refine ⟨⟨s.i, ⟨data, headerAt data (k + 1)⟩, shdr, mem, (List.range (k + 1)).map (headerAt data)⟩,
    ?_, ⟨rfl, rfl, rfl⟩, rfl⟩
  rw [body, hread]
  dsimp only
  rw [hshdr]
  split
  · exact if_neg fun h => absurd (hgot.symm.trans h) Bool.false_ne_true
  · rfl

/-- **A section that is a GOT.** -/
theorem body_of_got (hv : Valid data) (hs : At data mem k s) (hk : k < (ehdr data).shnum)
    (hgot : isGot data k = true) :
    ∃ s', At data mem (k + 1) s' ∧ s'.i = stop base_addr new_func old_func data mem k
      ∧ body (params base_addr new_func old_func data) s
        = match verdict old_func mem
              ((words base_addr data k).find? (isHit new_func old_func mem)) with
          | .found => ({ s' with mem := mem.write 4 (base_addr
              + BitVec.ofNat 32 (header data k).sh_addr
              + BitVec.ofNat 32 (stop base_addr new_func old_func data mem k)) new_func }, true)
          | _ => (s', false) := by
  obtain ⟨shdr, hshdr, hread⟩ := @readHeader_at base_addr new_func old_func data mem k s hv hs hk
  refine ⟨⟨stop base_addr new_func old_func data mem k, ⟨data, headerAt data (k + 1)⟩, shdr, mem,
    (List.range (k + 1)).map (headerAt data)⟩, ⟨rfl, rfl, rfl⟩, rfl, ?_⟩
  rw [body, hread]
  dsimp only
  rw [hshdr, if_pos (hv.got_type k hk hgot)]
  refine (if_pos hgot).trans ?_
  have hscan := @scanGot_words new_func old_func mem base_addr data k
  show (match scanGot mem old_func new_func (base_addr + BitVec.ofNat 32 (header data k).sh_addr)
    (header data k).sh_size 0 with
    | (i, .found) => _
    | (i, _) => _) = _
  rw [hscan]
  cases verdict old_func mem ((words base_addr data k).find? (isHit new_func old_func mem)) <;> rfl

/-- The word where a scan ends. -/
theorem eq_of_find? {p : Word → Bool} {a : Word} (h : (words base_addr data k).find? p = some a) :
    a = base_addr + BitVec.ofNat 32 (header data k).sh_addr
      + BitVec.ofNat 32 (4 * (words base_addr data k).findIdx p) := by
  rw [List.find?_eq_getElem?_findIdx] at h
  obtain ⟨hlt, hget⟩ := List.getElem?_eq_some_iff.mp h
  have hword : (words base_addr data k)[(words base_addr data k).findIdx p]
      = base_addr + BitVec.ofNat 32 (header data k).sh_addr
        + BitVec.ofNat 32 (4 * (words base_addr data k).findIdx p) := by
    simp only [words, List.getElem_map, List.getElem_range]
  rw [← hget, hword]

theorem patched_iff :
    Patched base_addr new_func old_func data mem k ↔
      verdict old_func mem ((words base_addr data k).find? (isHit new_func old_func mem))
        = .found := by
  unfold Patched
  cases h : (words base_addr data k).find? (isHit new_func old_func mem) with
  | none => exact iff_of_false (fun ⟨a, ha, _⟩ => Option.some_ne_none a ha.symm) Scan.noConfusion
  | some a =>
    rw [verdict]
    constructor
    · rintro ⟨b, hb, hold⟩
      rw [Option.some.inj hb, if_pos hold]
    · intro hfound
      refine ⟨a, rfl, by_contra fun hne => ?_⟩
      rw [if_neg hne] at hfound
      exact Scan.noConfusion hfound

theorem gotWordsFrom_of_not_got (hk : k < (ehdr data).shnum) (hgot : isGot data k = false) :
    gotWordsFrom base_addr data k = gotWordsFrom base_addr data (k + 1) := by
  rw [gotWordsFrom, gotWordsFrom, gotsFrom_succ hk, hgot]
  rfl

theorem gotWordsFrom_of_got (hk : k < (ehdr data).shnum) (hgot : isGot data k = true) :
    gotWordsFrom base_addr data k
      = words base_addr data k ++ gotWordsFrom base_addr data (k + 1) := by
  rw [gotWordsFrom, gotWordsFrom, gotsFrom_succ hk, if_pos hgot, List.flatMap_cons]

/-- Where no word is the new function, the first word of a section that is one of the two is the
first one that is the old one. -/
theorem find?_isHit (hun : ∀ a ∈ words base_addr data k, mem.read32 a ≠ new_func) :
    (words base_addr data k).find? (isHit new_func old_func mem)
      = (words base_addr data k).find? (mem.read32 · = old_func) := by
  refine List.find?_congr fun a ha => ?_
  exact decide_eq_decide.mpr (or_iff_left (hun a ha))

theorem mem_gotWordsFrom_zero {a : Word} (hk : k < (ehdr data).shnum) (hgot : isGot data k = true)
    (ha : a ∈ words base_addr data k) : a ∈ gotWordsFrom base_addr data 0 :=
  List.mem_flatMap.mpr ⟨k, List.mem_filter.mpr ⟨List.mem_range'_1.mpr ⟨Nat.zero_le k, by omega⟩,
    hgot⟩, ha⟩

theorem gotWordsFrom_subset : gotWordsFrom base_addr data k ⊆ gotWordsFrom base_addr data 0 := by
  intro a ha
  obtain ⟨j, hj, ha⟩ := List.mem_flatMap.mp ha
  obtain ⟨hrange, hgot⟩ := List.mem_filter.mp hj
  have hlt := List.mem_range'_1.mp hrange
  exact List.mem_flatMap.mpr
    ⟨j, List.mem_filter.mpr ⟨List.mem_range'_1.mpr ⟨Nat.zero_le j, by omega⟩, hgot⟩, ha⟩

/-- Where no word is the new function and nothing is replaced, the old one is further on. -/
theorem find?_of_not_patched (hk : k < (ehdr data).shnum) (hgot : isGot data k = true)
    (hp : ¬ Patched base_addr new_func old_func data mem k)
    (hun : Unhooked base_addr new_func data mem) :
    (gotWordsFrom base_addr data k).find? (mem.read32 · = old_func)
      = (gotWordsFrom base_addr data (k + 1)).find? (mem.read32 · = old_func) := by
  have hunk : ∀ a ∈ words base_addr data k, mem.read32 a ≠ new_func := fun a ha =>
    hun a (mem_gotWordsFrom_zero hk hgot ha)
  have hnone : (words base_addr data k).find? (mem.read32 · = old_func) = none := by
    refine Option.eq_none_iff_forall_ne_some.mpr fun a ha => hp ⟨a, ?_, ?_⟩
    · rw [find?_isHit hunk, ha]
    · have hold := List.find?_some ha
      exact of_decide_eq_true hold
  rw [gotWordsFrom_of_got hk hgot, List.find?_append, hnone, Option.none_or]

/-! ### The rounds of the loop -/

/-- **Behind the table** the counter must not go on. -/
theorem not_visitsFrom (hs : At data mem (ehdr data).shnum s) (hi : s.i < (ehdr data).shnum) :
    ¬ VisitsFrom base_addr new_func old_func data mem (ehdr data).shnum s := by
  rintro ⟨n, f, hrun, -, htable, -⟩
  have hmem := mem_examined hrun hi
  rw [hs.fd] at hmem
  obtain ⟨k, hk, hpos⟩ := htable _ hmem
  exact absurd (headerAt_injective data hpos) hk.ne'

/-- **The counter ends the loop.** -/
theorem visitsFrom_of_le (hs : At data mem k s) (hk : k ≤ (ehdr data).shnum)
    (hi : (ehdr data).shnum ≤ s.i) :
    VisitsFrom base_addr new_func old_func data mem k s
      ↔ ¬ Wanted base_addr new_func old_func data mem (gotsFrom data k) := by
  have hrun (n : ℕ) : loop (params base_addr new_func old_func data) (n + 1) s = some s :=
    if_neg (Nat.not_lt.mpr hi)
  constructor
  · rintro ⟨n, f, hf, -, -, hmem⟩ ⟨hun, j, hj, a, ha, hold⟩
    have hsome : ((gotWordsFrom base_addr data k).find? (mem.read32 · = old_func)).isSome :=
      List.find?_isSome.mpr ⟨a, List.mem_flatMap.mpr ⟨j, hj, ha⟩, decide_eq_true hold⟩
    obtain ⟨b, hb⟩ := Option.isSome_iff_exists.mp hsome
    cases n with
    | zero => cases hf
    | succ n =>
      rw [hrun n] at hf
      have hwrite := hmem hun b hb
      rw [← Option.some.inj hf, hs.mem] at hwrite
      have hnew : mem.read32 b = new_func := by
        rw [hwrite]
        exact Mem.read32_write mem b new_func
      exact hun b (gotWordsFrom_subset (List.mem_of_find?_eq_some hb)) hnew
  · intro hnot
    obtain ⟨hnodup, htable⟩ := headers_of_le hk
    refine ⟨1, s, hrun 0, hs.examined ▸ hnodup, hs.examined ▸ htable, fun hun a ha => ?_⟩
    obtain ⟨j, hj, hmem⟩ := List.mem_flatMap.mp (List.mem_of_find?_eq_some ha)
    have hold := List.find?_some ha
    exact absurd ⟨hun, j, hj, a, hmem, of_decide_eq_true hold⟩ hnot

/-- **A section in which nothing is replaced.** -/
theorem visitsFrom_succ {s' : Vars} (hi : s.i < (ehdr data).shnum)
    (hbody : body (params base_addr new_func old_func data) s = (s', false))
    (hfind : Unhooked base_addr new_func data mem →
      (gotWordsFrom base_addr data k).find? (mem.read32 · = old_func)
        = (gotWordsFrom base_addr data (k + 1)).find? (mem.read32 · = old_func)) :
    VisitsFrom base_addr new_func old_func data mem k s
      ↔ VisitsFrom base_addr new_func old_func data mem (k + 1) { s' with i := s'.i + 1 } := by
  have hrun (n : ℕ) : loop (params base_addr new_func old_func data) (n + 1) s
      = loop (params base_addr new_func old_func data) n { s' with i := s'.i + 1 } := by
    rw [loop, hbody]
    exact if_pos hi
  constructor
  · rintro ⟨n, f, hf, hnodup, htable, hmem⟩
    cases n with
    | zero => cases hf
    | succ n =>
      exact ⟨n, f, hrun n ▸ hf, hnodup, htable, fun hun => hfind hun ▸ hmem hun⟩
  · rintro ⟨n, f, hf, hnodup, htable, hmem⟩
    exact ⟨n + 1, f, (hrun n).trans hf, hnodup, htable, fun hun => hfind hun ▸ hmem hun⟩

/-- **A section in which the function is replaced.** -/
theorem visitsFrom_of_patched (hv : Valid data) (hs : At data mem k s) (hk : k < (ehdr data).shnum)
    (hi : s.i < (ehdr data).shnum) (hgot : isGot data k = true)
    (hp : Patched base_addr new_func old_func data mem k) :
    VisitsFrom base_addr new_func old_func data mem k s := by
  obtain ⟨s', hs', -, hbody⟩ := @body_of_got base_addr new_func old_func data mem k s hv hs hk hgot
  rw [patched_iff.mp hp] at hbody
  obtain ⟨hnodup, htable⟩ := headers_of_le (Nat.succ_le_of_lt hk)
  rw [← hs'.examined] at hnodup htable
  refine ⟨1, { s' with mem := mem.write 4 (base_addr + BitVec.ofNat 32 (header data k).sh_addr
    + BitVec.ofNat 32 (stop base_addr new_func old_func data mem k)) new_func }, ?_, hnodup, htable,
    fun hun a ha => ?_⟩
  · rw [loop, hbody]
    exact if_pos hi
  · obtain ⟨b, hb, -⟩ := hp
    have hunk : ∀ a ∈ words base_addr data k, mem.read32 a ≠ new_func := fun a ha =>
      hun a (mem_gotWordsFrom_zero hk hgot ha)
    rw [find?_isHit hunk] at hb
    rw [gotWordsFrom_of_got hk hgot, List.find?_append, hb, Option.some_or] at ha
    rw [← find?_isHit hunk] at hb
    rw [← Option.some.inj ha, eq_of_find? hb]
    rfl

/-- **What is left to do in front of a section is done** exactly if the counter serves its two
ends from there on. -/
theorem visitsFrom_iff (hv : Valid data) {n : ℕ} (hn : k + n = (ehdr data).shnum)
    (hs : At data mem k s) :
    VisitsFrom base_addr new_func old_func data mem k s
      ↔ Reaches base_addr new_func old_func data mem (s.i - k) (gotsFrom data k) := by
  induction n generalizing k s with
  | zero =>
    obtain rfl : k = (ehdr data).shnum := hn
    have hnil := gotsFrom_of_le (le_refl (ehdr data).shnum)
    rw [hnil, Reaches]
    rcases Nat.lt_or_ge s.i (ehdr data).shnum with hi | hi
    · exact iff_of_false (not_visitsFrom hs hi) (by omega)
    · refine iff_of_true ((visitsFrom_of_le hs (le_refl _) hi).mpr ?_) (by omega)
      rintro ⟨-, j, hj, -⟩
      rw [hnil] at hj
      exact List.not_mem_nil hj
  | succ n ih =>
    have hk : k < (ehdr data).shnum := by omega
    rcases Nat.lt_or_ge s.i (ehdr data).shnum with hi | hi
    · cases hgot : isGot data k with
      | false =>
        obtain ⟨s', hbody, hs', hi'⟩ := body_of_not_got hv hs hk hgot
        have hnext : At data mem (k + 1) { s' with i := s'.i + 1 } :=
          ⟨hs'.fd, hs'.mem, hs'.examined⟩
        have hd : ((s'.i + 1 : ℕ) : ℤ) - ((k + 1 : ℕ) : ℤ) = s.i - k := by omega
        rw [visitsFrom_succ hi hbody fun _ => by rw [gotWordsFrom_of_not_got hk hgot],
          ih (by omega) hnext, gotsFrom_succ hk, hgot, hd]
        rfl
      | true =>
        rw [gotsFrom_succ hk, if_pos hgot, Reaches, if_pos (by omega)]
        by_cases hp : Patched base_addr new_func old_func data mem k
        · exact iff_of_true (visitsFrom_of_patched hv hs hk hi hgot hp) (Or.inl hp)
        · obtain ⟨s', hs', hi', hbody⟩ :=
            @body_of_got base_addr new_func old_func data mem k s hv hs hk hgot
          have hnext : At data mem (k + 1) { s' with i := s'.i + 1 } :=
            ⟨hs'.fd, hs'.mem, hs'.examined⟩
          have hbody' : body (params base_addr new_func old_func data) s = (s', false) := by
            rw [patched_iff] at hp
            rw [hbody]
            split
            · next hfound => exact absurd hfound hp
            · rfl
          have hd : ((s'.i + 1 : ℕ) : ℤ) - ((k + 1 : ℕ) : ℤ)
              = stop base_addr new_func old_func data mem k - k := by omega
          rw [visitsFrom_succ hi hbody' (find?_of_not_patched hk hgot hp), ih (by omega) hnext, hd,
            or_iff_right hp]
    · rw [visitsFrom_of_le hs hk.le hi]
      cases hgots : gotsFrom data k with
      | nil =>
        refine iff_of_true ?_ (by rw [Reaches]; omega)
        rintro ⟨-, j, hj, -⟩
        exact List.not_mem_nil hj
      | cons j js =>
        have hj : k ≤ j := le_of_mem_gotsFrom (hgots ▸ List.mem_cons_self)
        rw [Reaches, if_neg (by omega)]

end Run

/-! ## The hook -/

section Hook

variable (base_addr new_func old_func : Word) (mem : Mem) (f : ElfFile) (shdr : List (BitVec 8))

/-- What `Hook` reads in front of the loop. -/
theorem hook_eq (hn : (header f.data (ehdr f.data).shstrndx).sh_size ≤ Fd.maxCount) :
    ∃ s, At f.data mem 0 s ∧ s.i = 0 ∧ ∀ n, hook base_addr new_func old_func f.data shdr mem n
      = loop (params base_addr new_func old_func f.data) n s := by
  have hlt := f.valid.length_lt
  have hstrings := f.valid.strings
  have hindex := headerAt_le f.valid f.valid.shstrndx
  have hzero := headerAt_le f.valid (Nat.zero_lt_of_lt f.valid.shstrndx)
  have hat : (ehdr f.data).shoff + (ehdr f.data).shstrndx * Shdr.sizeof
      = headerAt f.data (ehdr f.data).shstrndx := by rw [headerAt, Nat.mul_comm]
  have hat0 : (ehdr f.data).shoff = headerAt f.data 0 := rfl
  have hseek (pos : ℕ) {offset : ℕ} (h : offset < 2 ^ 31) :
      Fd.lseek ⟨f.data, pos⟩ offset = ⟨f.data, offset⟩ := if_pos h
  refine ⟨⟨0, ⟨f.data, headerAt f.data 0⟩,
    fill shdr ((f.data.drop (headerAt f.data (ehdr f.data).shstrndx)).take Shdr.sizeof), mem, []⟩,
    ⟨rfl, rfl, rfl⟩, rfl, fun n => ?_⟩
  rw [hook, read_ehdr f.valid]
  dsimp only
  rw [show Ehdr.ofBytes (f.data.take Ehdr.size) = ehdr f.data from rfl, f.valid.shentsize, hat,
    hseek _ (show headerAt f.data (ehdr f.data).shstrndx < 2 ^ 31 by omega),
    read_header f.valid f.valid.shstrndx]
  dsimp only
  rw [ofBytes_fill f.valid shdr f.valid.shstrndx,
    hseek _ (show (header f.data (ehdr f.data).shstrndx).sh_offset < 2 ^ 31 by omega),
    read_names f.valid hn]
  dsimp only
  rw [hat0, hseek _ (show headerAt f.data 0 < 2 ^ 31 by omega)]
  rfl

/-- The hook is the loop over the sections from the first one on. -/
theorem visits_iff_visitsFrom
    (hn : (header f.data (ehdr f.data).shstrndx).sh_size ≤ Fd.maxCount) :
    ∃ s, At f.data mem 0 s ∧ s.i = 0 ∧ (Visits base_addr new_func old_func f.data mem shdr
      ↔ VisitsFrom base_addr new_func old_func f.data mem 0 s) := by
  obtain ⟨s, hs, hi, heq⟩ := hook_eq base_addr new_func old_func mem f shdr hn
  refine ⟨s, hs, hi, ?_⟩
  unfold Visits VisitsFrom
  simp only [heq]

/-- **The hook visits every section exactly if its counter serves its two ends.** For every
file with a valid section table, whose names one `read` transfers, and any memory, it returns
having read headers of the table only, none of them twice, and has replaced the first word
that is the old function where no word is the new one, if and only if the counter reaches
every GOT in which there is something to replace, and is not behind the headers when none is
left. -/
theorem hook_iff (hn : (header f.data (ehdr f.data).shstrndx).sh_size ≤ Fd.maxCount) :
    Visits base_addr new_func old_func f.data mem shdr
      ↔ Reaches base_addr new_func old_func f.data mem 0 (gotsFrom f.data 0) := by
  obtain ⟨s, hs, hi, hiff⟩ := visits_iff_visitsFrom base_addr new_func old_func mem f shdr hn
  rw [hiff, visitsFrom_iff f.valid (Nat.zero_add _) hs, hi]
  rfl

end Hook

/-! ## Two sections of a GOT -/

set_option maxRecDepth 8000 in
theorem gotsFrom_sampleFile : gotsFrom sampleFile.data 0 = [1, 2] := by
  have hnum : (ehdr sampleFile.data).shnum = 4 := ehdr_sampleData.2.2.1
  have hgot : ∀ k < (ehdr sampleFile.data).shnum,
      isGot sampleFile.data k = decide (k = 1 ∨ k = 2) := by
    unfold isGot named
    show ∀ k < (ehdr sampleData).shnum, _
    rw [show names sampleFile.data = _ from names_sampleData]
    exact @forall_lt_sampleData (fun k h => (strcmp _ h.sh_name _ || strcmp _ h.sh_name _)
      = decide (k = 1 ∨ k = 2)) (by decide) (by decide) (by decide) (by decide)
  rw [gotsFrom, hnum, List.filter_congr fun k hk => hgot k (by
    rw [hnum]
    exact (List.mem_range'_1.mp hk).2)]
  decide

theorem words_sampleFile : words 0#32 sampleFile.data 1 = [0x1000#32]
    ∧ words 0#32 sampleFile.data 2 = [0x1004#32] := by
  obtain ⟨-, h1, h2, -⟩ := header_sampleData
  unfold words sampleFile
  rw [h1, h2]
  decide

/-- A memory of zeros but for one word. -/
def oneWord (a v : Word) : Mem := Mem.write (fun _ => 0#8) 4 a v

theorem size_names_sampleFile :
    (header sampleFile.data (ehdr sampleFile.data).shstrndx).sh_size ≤ Fd.maxCount := by
  unfold sampleFile
  rw [ehdr_sampleData.2.2.2, header_sampleData.2.2.2]
  decide

/-- **The second section is not visited**: the scan of the first one leaves the counter behind
the table. -/
theorem not_visits_second :
    ¬ Visits 0#32 0xB#32 0xA#32 sampleFile.data (oneWord 0x1004#32 0xA#32) [] := by
  obtain ⟨s, hs, hi, hiff⟩ := visits_iff_visitsFrom 0#32 0xB#32 0xA#32 (oneWord 0x1004#32 0xA#32)
    sampleFile [] size_names_sampleFile
  obtain ⟨hw1, hw2⟩ := words_sampleFile
  have hnum : (ehdr sampleFile.data).shnum = 4 := ehdr_sampleData.2.2.1
  have hfirst : (oneWord 0x1004#32 0xA#32).read32 0x1000#32 = 0#32 := by decide
  have hsecond : (oneWord 0x1004#32 0xA#32).read32 0x1004#32 = 0xA#32 := by decide
  have hstop : stop 0#32 0xB#32 0xA#32 sampleFile.data (oneWord 0x1004#32 0xA#32) 1 = 4 := by
    rw [stop, hw1]
    decide
  have hpatched : ¬ Patched 0#32 0xB#32 0xA#32 sampleFile.data (oneWord 0x1004#32 0xA#32) 1 := by
    have hnone : [0x1000#32].find? (isHit 0xB#32 0xA#32 (oneWord 0x1004#32 0xA#32)) = none := by
      decide
    rintro ⟨a, ha, -⟩
    rw [hw1, hnone] at ha
    cases ha
  rw [hiff, visitsFrom_iff sampleFile.valid (Nat.zero_add _) hs, hi, gotsFrom_sampleFile, Reaches,
    hnum, if_pos (by decide), or_iff_right hpatched, hstop, Reaches, hnum, if_neg (by decide),
    not_not]
  refine ⟨fun a ha => ?_, 2, List.mem_cons_self, 0x1004#32, hw2 ▸ List.mem_cons_self, hsecond⟩
  rw [gotWordsFrom, gotsFrom_sampleFile, List.flatMap_cons, List.flatMap_cons, List.flatMap_nil,
    hw1, hw2] at ha
  rcases List.mem_cons.mp ha with rfl | ha
  · rw [hfirst]
    decide
  · rw [List.mem_singleton.mp ha, hsecond]
    decide

/-- The function in the first section is replaced. -/
theorem hook_iff_first :
    Visits 0#32 0xB#32 0xA#32 sampleFile.data (oneWord 0x1000#32 0xA#32) [] := by
  obtain ⟨hw1, hw2⟩ := words_sampleFile
  refine (hook_iff 0#32 0xB#32 0xA#32 (oneWord 0x1000#32 0xA#32) sampleFile []
    size_names_sampleFile).mpr ?_
  have hnum : (ehdr sampleFile.data).shnum = 4 := ehdr_sampleData.2.2.1
  rw [gotsFrom_sampleFile, Reaches, hnum, if_pos (by decide)]
  refine Or.inl ⟨0x1000#32, ?_, by decide⟩
  rw [hw1]
  decide

end HookAll
