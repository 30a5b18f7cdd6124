import AndroidReverse.MapsText
import AndroidReverse.ElfModule
import Mathlib.Data.List.Find

/-!
# The class `elf_hooker`: finding the modules

`phrase_proc_maps` reads `/proc/self/maps` into the map of the modules. It takes
the lines apart with `strtok_r`, at white space, and keeps of each module the
first mapping that passes its tests.

The name of a module is the sixth field of its line, so it ends at the first
white space of the path. `lookup_phraseProcMaps` says what the map is then: it
has the modules by these names. It has the files by theirs exactly if no
mapping that passes the tests is of a file with white space in its path
(`discovers_iff`).

Whether an ELF header starts at an address is a parameter, `elf_module::is_elf_module`.
The members that the constructor of a module does not set are those of `junk`.
-/

namespace Elf.Hooker

open ProcMaps TextTable Numerals

variable {c : ElfClass}

/-! ## The parser -/

/-- `phrase_proc_base_addr`. -/
def phraseProcBaseAddr (c : ElfClass) (addr : Chars) : Option (c.Addr × c.Addr) :=
  match addr.dropWhile (· ≠ chr '-') with
  | [] => none
  | _ :: split =>
    some (BitVec.ofNat c.bits (strtoul c.bits addr), BitVec.ofNat c.bits (strtoul c.bits split))

/-- `phrase_dev_num`, with the two numbers it stores. -/
def phraseDevNum (c : ElfClass) (devno : Option Chars) : Bool × BitVec 32 × BitVec 32 :=
  match devno with
  | none => (false, 0#32, 0#32)
  | some devno =>
    match devno.dropWhile (· ≠ chr ':') with
    | [] => (false, 0#32, 0#32)
    | _ :: second => (true, BitVec.ofNat 32 (strtoul c.bits devno),
        BitVec.ofNat 32 (strtoul c.bits second))

/-- `m_modules`, a `std::map`. -/
abbrev Modules (c : ElfClass) : Type := AList fun _ : Chars => Module c

/-- The body of the loop of `phrase_proc_maps`, on a string that `fgets` has
read. The characters of `sep` are those that `isBlank` accepts. -/
def phraseLine (isElf : c.Addr → Bool) (junk : Module c) (modules : Modules c) (buff : Chars) :
    Modules c :=
  let (addr, line) := token isBlank (buff.takeWhile (· ≠ 0#8))
  match addr with
  | none => modules
  | some addr =>
    let (flags, line) := token isBlank line
    match flags with
    | none => modules
    | some flags =>
      -- `strtok_r` has put the terminator of the field where the separator was
      let bytes := flags ++ 0#8 :: line
      if bytes[0]? ≠ some (chr 'r') ∨ bytes[3]? = some (chr 's') then modules
      else
        let (_, line) := token isBlank line
        let (dev, line) := token isBlank line
        let (isDev, major, _) := phraseDevNum c dev
        if !isDev ∨ major = 0#32 then modules
        else
          let (_, line) := token isBlank line
          let (filename, _) := token isBlank line
          match filename with
          | none => modules
          | some moduleName =>
            if moduleName ∈ modules then modules
            else
              match phraseProcBaseAddr c addr with
              | none => modules
              | some (baseAddr, _) =>
                if isElf baseAddr then modules.insert moduleName (Module.construct baseAddr junk)
                else modules

/-- `phrase_proc_maps`, where `fd` is the text of the file if it can be opened.
The numbers it returns, 0 and −1, are a `bool`. -/
def phraseProcMaps (isElf : c.Addr → Bool) (junk : Module c) (fd : Option Chars) :
    Bool × Modules c :=
  match fd with
  | none => (true, ∅)
  | some text => (false, (buffers newline 2047 [] text).foldl (phraseLine isElf junk) ∅)

/-! ## A line -/

/-- **The range of a line.** -/
theorem phraseProcBaseAddr_range (l : Line c.bits) :
    phraseProcBaseAddr c l.range = some (l.start, l.stop) := by
  have hstop : BitVec.ofNat c.bits (strtoul c.bits (hex 8 l.stop.toNat)) = l.stop :=
    ofNat_strtoul_hex (by decide) l.stop
  have hstart : strtoul c.bits l.range = l.start.toNat :=
    strtoul_hex (by decide) l.start.isLt (fun x hx => by
      rw [← Option.some_inj.mp hx]
      decide)
  rw [phraseProcBaseAddr, hstart, Line.range, dropWhile_hex fun d hd => (digitChar_plain d hd).2.1]
  simp only [hstop, BitVec.ofNat_toNat, BitVec.setWidth_eq]

/-- **The device of a line.** -/
theorem phraseDevNum_device (l : Line c.bits) :
    ∃ minor, phraseDevNum c (some l.device) = (true, l.major.setWidth 32, minor) := by
  have hbits : 2 ^ 32 ≤ 2 ^ c.bits := by cases c <;> decide
  have hmajor : strtoul c.bits l.device = l.major.toNat :=
    strtoul_hex (by decide) (by have := l.major.isLt; omega) (fun x hx => by
      rw [← Option.some_inj.mp hx]
      decide)
  refine ⟨BitVec.ofNat 32 (strtoul c.bits (hex 2 l.minor.toNat)), ?_⟩
  rw [phraseDevNum]
  simp only [hmajor, BitVec.ofNat_toNat]
  rw [Line.device, dropWhile_hex fun d hd => (digitChar_plain d hd).2.2.2.1]

section Lines

variable {isElf : c.Addr → Bool} {junk : Module c} {m : Modules c}

/-- **A line that stands for a module**: its mapping can be read and is not
shared, its file is on a device, and there is an ELF header at its start. -/
def qualifies (isElf : c.Addr → Bool) (l : Line c.bits) : Bool :=
  l.read && !l.shared && l.major != 0#12 && isElf l.start

/-- The part of a path that is a field. -/
def firstField (p : FilePath) : Chars := p.chars.takeWhile (!isBlank ·)

/-- The name that a line gives its module. -/
def lineKey (isElf : c.Addr → Bool) (l : Line c.bits) : Option Chars :=
  if qualifies isElf l then l.path.map firstField else none

/-- The module of a line. -/
def lineModule (junk : Module c) (l : Line c.bits) : Module c := Module.construct l.start junk

/-- The last field of a line. -/
theorem token_name (l : Line c.bits) {tail : Chars} (htail : ∀ x ∈ tail, isBlank x = true) :
    (token isBlank (List.replicate l.pad (chr ' ') ++ (l.name ++ tail))).1
      = l.path.map firstField := by
  rw [token_append (fun y hy => by rw [List.eq_of_mem_replicate hy]; decide)]
  cases hp : l.path with
  | none => rw [Line.name, hp, List.nil_append, token_blank htail, Option.map_none]
  | some p =>
    rw [l.name_of_path hp, List.append_assoc, token_takeWhile p.ne_nil p.head_not_blank ?_]
    · rfl
    intro x hx
    unfold Line.mark at hx
    split at hx
    · rw [← Option.some_inj.mp hx]
      decide
    · exact htail x (List.mem_of_head? hx)

/-- **A line of the text**, with its end or without. -/
theorem phraseLine_text (l : Line c.bits) {tail : Chars} (htail : tail = [] ∨ tail = [newline]) :
    phraseLine isElf junk m (l.text ++ tail)
      = insertFirst (lineKey isElf) (lineModule junk) m l := by
  have hblank : ∀ x ∈ tail, isBlank x = true := by
    rcases htail with rfl | rfl <;> decide
  have hfield : ∀ {field : Chars}, Dense field → field ≠ [] → ∀ s,
      token isBlank (field ++ chr ' ' :: s) = (some field, s) :=
    fun hd hne s => token_field (hd.isField hne) (by decide)
  have hrange := hfield l.dense_range (List.append_ne_nil_of_left_ne_nil (hex_ne_nil (by decide)) _)
  have hperms := hfield l.dense_perms (List.cons_ne_nil _ _)
  have hoffset := hfield (dense_hex 8 l.offset) (hex_ne_nil (by decide))
  have hdevice := hfield l.dense_device
    (List.append_ne_nil_of_left_ne_nil (hex_ne_nil (by decide)) _)
  have hinode := hfield (dense_dec l.inode) (dec_ne_nil _)
  obtain ⟨rest, hname⟩ : ∃ rest, token isBlank (List.replicate l.pad (chr ' ') ++ (l.name ++ tail))
      = (l.path.map firstField, rest) := ⟨_, Prod.ext (token_name l hblank) rfl⟩
  obtain ⟨minor, hdev⟩ := phraseDevNum_device l
  have hflags : ∀ s : Chars,
    ((l.perms ++ s)[0]? ≠ some (chr 'r') ∨ (l.perms ++ s)[3]? = some (chr 's'))
      ↔ ¬ (l.read = true ∧ l.shared = false) := by
    intro s
    show (some _ ≠ some _ ∨ some _ = some _) ↔ _
    cases l.read <;> cases l.shared <;> decide
  have hmajor : l.major.setWidth 32 = 0#32 ↔ l.major = 0#12 := by
    have := l.major.isLt
    rw [← BitVec.toNat_inj, ← BitVec.toNat_inj, BitVec.toNat_setWidth, Nat.mod_eq_of_lt (by omega)]
    rfl
  rw [phraseLine, l.takeWhile_text htail]
  simp only [Line.text, List.append_assoc, List.cons_append, hrange, hperms, hoffset, hdevice, hinode,
    hname, hdev, hflags, hmajor, phraseProcBaseAddr_range]
  unfold insertFirst lineKey qualifies
  by_cases hrs : l.read = true ∧ l.shared = false
  · by_cases hm : l.major = 0#12
    · simp [hrs, hm]
    · cases hp : l.path with
      | none => simp [hrs, hm]
      | some p => by_cases he : isElf l.start = true <;> simp [hrs, hm, he, lineModule]
  · rw [if_pos hrs]
    have hq : (l.read && !l.shared) = false := by
      revert hrs
      cases l.read <;> cases l.shared <;> decide
    simp [hq]

/-! ## The whole text -/

/-- **The loop over the lines.** A line of 2047 characters leaves its end to the
next call of `fgets`, which reads a string without a field. -/
theorem foldl_phraseLine {ls : List (Line c.bits)} (hlen : ∀ l ∈ ls, l.text.length < 2048)
    (m : Modules c) :
    (buffers newline 2047 [] (text ls)).foldl (phraseLine isElf junk) m
      = ls.foldl (insertFirst (lineKey isElf) (lineModule junk)) m := by
  induction ls generalizing m with
  | nil => rfl
  | cons l ls ih =>
    have hl := hlen l List.mem_cons_self
    rw [text_cons, List.foldl_cons, ← ih fun l' h => hlen l' (List.mem_cons_of_mem l h)]
    rcases Nat.lt_or_eq_of_le (Nat.le_of_lt_succ hl) with h | h
    · rw [buffers_line l.newline_not_mem h, List.foldl_cons, phraseLine_text l (.inr rfl)]
    · have hend : ∀ m : Modules c, phraseLine isElf junk m [newline] = m := fun m => rfl
      rw [buffers_line_full l.newline_not_mem h (by decide), List.foldl_cons, List.foldl_cons, hend]
      have hfirst := @phraseLine_text c isElf junk m l [] (.inl rfl)
      rw [List.append_nil] at hfirst
      rw [hfirst]

/-- **What the map of the modules is**: by the first field of its path, each
module has the first line that qualifies. -/
theorem lookup_phraseProcMaps {ls : List (Line c.bits)} (hlen : ∀ l ∈ ls, l.text.length < 2048)
    (name : Chars) :
    (phraseProcMaps isElf junk (some (text ls))).2.lookup name
      = (ls.find? fun l => lineKey isElf l = some name).map (lineModule junk) := by
  show ((buffers newline 2047 [] (text ls)).foldl (phraseLine isElf junk) ∅).lookup name = _
  rw [foldl_phraseLine hlen, lookup_foldl, AList.lookup_empty, Option.none_or]

end Lines

/-! ## The files of a process -/

/-- The name of the file of a line. -/
def fileName (l : Line c.bits) : Option Chars := l.path.map FilePath.chars

/-- **The map has the modules of a process**: one for each file that has a line
that qualifies, at the start of the first such line. -/
structure Discovers (isElf : c.Addr → Bool) (ls : List (Line c.bits)) (modules : Modules c) :
    Prop where
  /-- There is at most one module of a name. -/
  nodup : modules.keys.Nodup
  /-- There is one of the name of each file that a line qualifies for. -/
  present : ∀ name, name ∈ modules ↔ ∃ l ∈ ls, qualifies isElf l = true ∧ fileName l = some name
  /-- It is where the first of these lines begins. -/
  base : ∀ name m, modules.lookup name = some m →
    (ls.find? fun l => qualifies isElf l ∧ fileName l = some name).map Line.start
      = some m.baseAddr

/-- Whether a path is a single field. -/
def IsSingleField (p : FilePath) : Prop := ∀ x ∈ p.chars, isBlank x = false

section Discovers

variable {isElf : c.Addr → Bool} {junk : Module c} {ls : List (Line c.bits)}

theorem firstField_eq_iff (p : FilePath) : firstField p = p.chars ↔ IsSingleField p := by
  rw [firstField, List.takeWhile_eq_self_iff]
  simp [IsSingleField]

/-- A first field has no white space. -/
theorem not_isBlank_of_mem_firstField {p : FilePath} {x : BitVec 8} (hx : x ∈ firstField p) :
    isBlank x = false := by
  have := List.mem_takeWhile_imp hx
  simpa using this

/-- **The modules are the files** exactly if the path of each line that
qualifies is a single field. -/
theorem discovers_iff (isElf : c.Addr → Bool) (junk : Module c) (ls : List (Line c.bits))
    (hlen : ∀ l ∈ ls, l.text.length < 2048) :
    Discovers isElf ls (phraseProcMaps isElf junk (some (text ls))).2
      ↔ ∀ l ∈ ls, qualifies isElf l = true → ∀ p, l.path = some p → IsSingleField p := by
  have hlookup := @lookup_phraseProcMaps c isElf junk ls hlen
  constructor
  · intro h l hl hq p hp
    -- the module has the name of the file, so a line gives it that name
    have hmem := (h.present p.chars).mpr ⟨l, hl, hq, by rw [fileName, hp]; rfl⟩
    rw [← AList.lookup_isSome, hlookup, Option.isSome_map, List.find?_isSome] at hmem
    obtain ⟨l', -, hkey⟩ := hmem
    have hkey := of_decide_eq_true hkey
    unfold lineKey at hkey
    split at hkey
    · obtain ⟨p', -, hp'⟩ := Option.map_eq_some_iff.mp hkey
      intro x hx
      rw [← hp'] at hx
      exact not_isBlank_of_mem_firstField hx
    · exact absurd hkey (Option.some_ne_none _).symm
  · intro h
    have hkey : ∀ l ∈ ls, ∀ name, lineKey isElf l = some name
        ↔ qualifies isElf l = true ∧ fileName l = some name := by
      intro l hl name
      by_cases hq : qualifies isElf l = true
      · have hname : l.path.map firstField = fileName l := by
          unfold fileName
          cases hp : l.path with
          | none => rfl
          | some p => exact congrArg some ((firstField_eq_iff p).mpr (h l hl hq p hp))
        rw [lineKey, if_pos hq, hname]
        exact (and_iff_right hq).symm
      · rw [lineKey, if_neg hq]
        exact iff_of_false (Option.some_ne_none name).symm fun h => hq h.1
    have hfind : ∀ name, (ls.find? fun l => lineKey isElf l = some name)
        = ls.find? fun l => qualifies isElf l ∧ fileName l = some name :=
      fun name => List.find?_congr fun l hl => decide_eq_decide.mpr (hkey l hl name)
    refine ⟨AList.keys_nodup _, fun name => ?_, fun name m hm => ?_⟩
    · rw [← AList.lookup_isSome, hlookup, Option.isSome_map, hfind, List.find?_isSome]
      simp only [decide_eq_true_eq]
    · rw [hlookup, hfind] at hm
      obtain ⟨l, hl, rfl⟩ := Option.map_eq_some_iff.mp hm
      rw [hl]
      rfl

/-- One of two libraries in a directory, with a blank in its name or not. -/
def libraryPath (blank second : Bool) : FilePath where
  chars := [chr '/', chr 'a', if blank then chr ' ' else chr '-', chr 'b', chr '/',
    if second then chr 'y' else chr 'x']
  ne_nil := List.cons_ne_nil _ _
  head_not_blank := by
    rintro x ⟨⟩
    decide
  plain := by cases blank <;> cases second <;> decide

/-- Its first mapping. -/
def libraryLine (blank second : Bool) : Line ElfClass.elf32.bits where
  start := if second then 0x500000#32 else 0x400000#32
  stop := if second then 0x501000#32 else 0x401000#32
  read := true
  write := false
  exec := true
  shared := false
  offset := 0
  major := 0xB3#12
  minor := 0x17#20
  inode := 99
  pad := 24
  path := some (libraryPath blank second)
  deleted := false

/-- The lines of the two. -/
def libraryLines (blank : Bool) : List (Line ElfClass.elf32.bits) :=
  [libraryLine blank false, libraryLine blank true]

theorem length_libraryLines : ∀ blank, ∀ l ∈ libraryLines blank, l.text.length < 2048 := by
  decide

/-- Without the blank the map has both. -/
theorem discovers_libraries :
    Discovers (fun _ => true) (libraryLines false)
      (phraseProcMaps (fun _ => true) (default : Module .elf32)
          (some (text (libraryLines false)))).2 :=
  (discovers_iff (fun _ => true) default (libraryLines false) (length_libraryLines false)).mpr (by
    intro l hl _ p hp
    rcases List.mem_pair.mp hl with rfl | rfl <;> obtain rfl := Option.some_inj.mp hp <;>
      unfold IsSingleField <;> decide)

/-- **With it the map has neither** by its name. -/
theorem not_discovers_libraries :
    (∀ l ∈ libraryLines true, l.text.length < 2048)
      ∧ ¬ Discovers (fun _ => true) (libraryLines true)
        (phraseProcMaps (fun _ => true) (default : Module .elf32)
          (some (text (libraryLines true)))).2 := by
  refine ⟨length_libraryLines true, fun h => ?_⟩
  have hmem := (h.present (libraryPath true true).chars).mpr
    ⟨libraryLine true true, List.mem_cons_of_mem _ List.mem_cons_self, rfl, rfl⟩
  rw [← AList.lookup_isSome, lookup_phraseProcMaps (length_libraryLines true)] at hmem
  revert hmem
  decide

end Discovers

end Elf.Hooker
