import AndroidReverse.Coalescing
import AndroidReverse.MapsText
import Mathlib.Data.List.DropRight
import Mathlib.Data.Set.Image

/-!
# The memory map of a process

`load_memmap` reads the text of `/proc/<pid>/maps` into a buffer, takes it apart line by
line, and makes a table of it: the lines that begin their path alike up to the first white
space are one entry, from the least start to the greatest end, and a line without a path is
an entry of its own (`loadMemmap_coalesces`).

The table is one of `AndroidReverse.Coalescing`. The code looks for the entry from the end
of the table, and it does not matter where it begins, as there is one entry for a name.
-/

namespace MemMaps

open Coalescing Numerals ProcMaps TextTable

/-- A character. -/
abbrev Char8 := BitVec 8

/-! ## `read` -/

/-- **The answers of `read`**: the number of bytes, or an error. -/
structure Reader where
  /-- The answer, where some bytes are left and some number is asked for. -/
  amount : List Char8 → ℕ → Option ℕ
  /-- No more than that. -/
  amount_le : ∀ rest count n, amount rest count = some n → n ≤ count ∧ n ≤ rest.length
  /-- And something, as long as there is something. -/
  amount_pos : ∀ rest count n, amount rest count = some n → rest ≠ [] → 0 < count → 0 < n

/-- The loop that fills `raw`, of a size, from what is left of the file. -/
def readAll (rd : Reader) (size : ℕ) (acc rest : List Char8) : Option (List Char8) :=
  match h : rd.amount rest (size - acc.length) with
  | none => none
  | some 0 => some acc
  | some (n + 1) =>
    if size ≤ acc.length + (n + 1) then none
    else readAll rd size (acc ++ rest.take (n + 1)) (rest.drop (n + 1))
termination_by rest.length
decreasing_by
  have hle := (rd.amount_le _ _ _ h).2
  rw [List.length_drop]
  omega

/-! ## `strtok` -/

theorem length_token_lt {sep : Char8 → Bool} {s field rest : List Char8}
    (h : token sep s = (some field, rest)) : rest.length < s.length := by
  have hdrop := (List.dropWhile_suffix sep (l := s)).length_le
  unfold token at h
  split at h
  · cases h
  · next x t hx =>
    rw [hx] at hdrop
    have htail := (List.dropWhile_suffix (fun y => !sep y) (l := x :: t)).length_le
    cases h
    rw [List.length_cons] at hdrop htail
    rw [List.length_tail]
    omega

/-- The fields that `strtok` returns one after the other. -/
def strtok (sep : Char8 → Bool) (s : List Char8) : List (List Char8) :=
  match _h : token sep s with
  | (none, _) => []
  | (some field, rest) => field :: strtok sep rest
termination_by s.length
decreasing_by exact length_token_lt ‹_›

/-! ## `sscanf` -/

/-- A directive of a format. -/
inductive Directive where
  /-- White space. -/
  | white
  /-- A character. -/
  | lit (x : Char8)
  /-- `%lx` with a width. -/
  | hex (width : ℕ)
  /-- `%s`, or `%*s`, which assigns nothing. -/
  | word (assign : Bool)
deriving DecidableEq

/-- What a directive assigns. -/
inductive Item where
  | num (n : ℕ)
  | str (s : List Char8)
deriving DecidableEq

/-- A number in hexadecimal of at most `width` characters, and what follows it. -/
def scanHex (width : ℕ) (s : List Char8) : Option (ℕ × List Char8) :=
  let field := s.take width
  let body := if field.head? = some (chr '-') ∨ field.head? = some (chr '+') then field.tail
    else field
  let number := skip0x body
  let ds := leading hexDigit number
  if ds = [] then none
  else some (strtoul 32 field, s.drop (field.length - number.length + ds.length))

/-- **`sscanf`**: what is assigned up to the first directive that fails. -/
def sscanf : List Directive → List Char8 → List Item
  | [], _ => []
  | .white :: ds, s => sscanf ds (s.dropWhile isSpace)
  | .lit x :: ds, s => if s.head? = some x then sscanf ds s.tail else []
  | .hex width :: ds, s =>
    match scanHex width (s.dropWhile isSpace) with
    | some (n, s) => .num n :: sscanf ds s
    | none => []
  | .word assign :: ds, s =>
    match s.dropWhile isSpace with
    | [] => []
    | x :: s =>
      (if assign then [.str ((x :: s).takeWhile (!isSpace ·))] else [])
        ++ sscanf ds ((x :: s).dropWhile (!isSpace ·))

/-- `"%08lx-%08lx %*s %*s %*s %*s %s\n"`. -/
def format : List Directive :=
  [.hex 8, .lit (chr '-'), .hex 8, .white, .word false, .white, .word false, .white, .word false,
    .white, .word false, .white, .word true, .white]

/-! ## `load_memmap` -/

/-- `struct mm`. -/
structure Mm where
  name : List Char8
  start : ℕ
  stop : ℕ
deriving DecidableEq

/-- `MEMORY_ONLY`. -/
def memoryOnly : List Char8 := "[memory]".toList.map chr

/-- The variables that `sscanf` assigns to. -/
structure Vars where
  start : ℕ
  stop : ℕ
  name : List Char8

/-- What `sscanf` assigns. -/
def Vars.assign (v : Vars) : List Item → Vars
  | .num start :: .num stop :: .str name :: _ => ⟨start, stop, name⟩
  | .num start :: .num stop :: _ => { v with start := start, stop := stop }
  | .num start :: _ => { v with start := start }
  | _ => v

/-- The loop that searches backward for a mapping with a name. -/
def searchBackward (mm : List Mm) (name : List Char8) : ℕ → Option ℕ
  | 0 => none
  | i + 1 => if mm[i]?.map Mm.name = some name then some i else searchBackward mm name i

/-- A new entry; `none` where it is not in the array. -/
def push (size : ℕ) (mm : List Mm) (m : Mm) : Option (List Mm) :=
  if size ≤ mm.length then none else some (mm ++ [m])

/-- What is assigned fits in its variable, a string in `MAX_NAME_LEN` characters. -/
def Item.fits : Item → Bool
  | .num _ => true
  | .str s => s.length < 256

/-- The body of the loop over the lines; `none` where it writes outside an array. -/
def parseLine (size : ℕ) : List Mm × Vars → List Char8 → Option (List Mm × Vars)
  | (mm, v), p =>
    let items := sscanf format p
    let rv := items.length
    let v := v.assign items
    if items.all Item.fits = false then none
    else if rv = 2 then (push size mm ⟨memoryOnly, v.start, v.stop⟩).map (·, v)
    else
      match searchBackward mm v.name mm.length with
      | some i => some (mm.modify i fun m => { m with
          start := if v.start < m.start then v.start else m.start
          stop := if v.stop > m.stop then v.stop else m.stop }, v)
      | none => (push size mm ⟨v.name, v.start, v.stop⟩).map (·, v)

/-- `load_memmap`, where `fd` is the text of the file if it can be opened, `size` the length
of the array `mm`, and `junk` what the variables hold at first: the answer and the entries. -/
def loadMemmap (rd : Reader) (fd : Option (List Char8)) (size : ℕ) (junk : Vars) :
    Option (ℤ × List Mm) :=
  match fd with
  | none => some (-1, [])
  | some content =>
    match readAll rd 190000 [] content with
    | none => some (-1, [])
    | some raw =>
      ((strtok (· = newline) (raw.takeWhile (· ≠ 0#8))).foldlM (parseLine size) ([], junk)).map
        fun s => (0, s.1)

/-! ## Reading the text -/

/-- **A text that fits is read whole**, in whatever pieces. -/
theorem readAll_eq {rd : Reader} (hread : ∀ rest count, rd.amount rest count ≠ none) {size : ℕ}
    {acc rest : List Char8} (hfit : acc.length + rest.length < size) :
    readAll rd size acc rest = some (acc ++ rest) := by
  fun_induction readAll rd size acc rest with
  | case1 acc rest h => exact absurd h (hread _ _)
  | case2 acc rest h =>
    have hnil : rest = [] := by
      by_contra hne
      exact absurd (rd.amount_pos _ _ _ h hne (by omega)) (lt_irrefl 0)
    rw [hnil, List.append_nil]
  | case3 acc rest n h hsize =>
    have hle := (rd.amount_le _ _ _ h).2
    omega
  | case4 acc rest n h hsize ih =>
    have hle := (rd.amount_le _ _ _ h).2
    rw [ih (by rw [List.length_append, List.length_take, List.length_drop]; omega),
      List.append_assoc, List.take_append_drop]

theorem strtok_of_token {sep : Char8 → Bool} {s field rest : List Char8}
    (h : token sep s = (some field, rest)) : strtok sep s = field :: strtok sep rest := by
  rw [strtok]
  split
  · next hnone => rw [h] at hnone; cases hnone
  · next hsome => rw [h] at hsome; cases hsome; rfl

theorem strtok_nil (sep : Char8 → Bool) : strtok sep [] = [] := by
  rw [strtok]
  rfl

section Text

variable {w : ℕ} (ls : List (Line w))

/-- **The lines of the text.** -/
theorem strtok_text : strtok (· = newline) (text ls) = ls.map Line.text := by
  induction ls with
  | nil => exact strtok_nil _
  | cons l ls ih =>
    have hfield : IsField (fun x => decide (x = newline)) l.text := by
      refine ⟨fun hnil => ?_, fun x hx => decide_eq_false (l.text_plain x hx).1⟩
      rw [Line.text] at hnil
      exact List.cons_ne_nil _ _ (List.append_eq_nil_iff.mp hnil).2
    rw [text_cons, strtok_of_token (token_field hfield (decide_eq_true rfl)), ih, List.map_cons]

/-- No string ends in the text. -/
theorem text_takeWhile : (text ls).takeWhile (· ≠ 0#8) = text ls := by
  refine List.takeWhile_eq_self_iff.mpr fun x hx => decide_eq_true ?_
  obtain ⟨l, -, hl⟩ := List.mem_flatMap.mp hx
  rcases List.mem_append.mp hl with h | h
  · exact (l.text_plain x h).2
  · rw [List.mem_singleton.mp h]
    decide

end Text

/-! ## Reading a line -/

/-- **The path of a line as `%s` reads it**: what stands behind the inode, up to white
space. -/
def pathToken {w : ℕ} (l : Line w) : Option (List Char8) :=
  match l.name.dropWhile isSpace with
  | [] => none
  | x :: s => some ((x :: s).takeWhile (!isSpace ·))

section Scan

variable {ds : List Directive} {s rest : List Char8}

/-- **A number of eight digits.** -/
theorem scanHex_hex {n : ℕ} (hn : n < 2 ^ 32) : scanHex 8 (hex 8 n ++ rest) = some (n, rest) := by
  have hdlen : (digits 16 8 n).length = 8 := length_digits (by decide) (hn.trans_le (by decide))
  have hlen : (hex 8 n).length = 8 := (List.length_map digitChar).trans hdlen
  have htake : (hex 8 n ++ rest).take 8 = hex 8 n := List.take_left' hlen
  have hdrop : (hex 8 n ++ rest).drop 8 = rest := List.drop_left' hlen
  have hstop : ∀ x ∈ ([] : List Char8).head?, Stops x :=
    fun x hx => absurd hx (Option.not_mem_none x)
  have hskip : skip0x (hex 8 n) = hex 8 n := by
    have h := skip0x_hex (n := n) (show 0 < 8 by decide) hstop
    rwa [List.append_nil] at h
  have hvalue : strtoul 32 (hex 8 n) = n := by
    have h := strtoul_hex (show 0 < 8 by decide) hn hstop
    rwa [List.append_nil] at h
  have hdigits : leading hexDigit (hex 8 n) = digits 16 8 n := by
    have h : leading hexDigit ((digits 16 8 n).map digitChar ++ []) = digits 16 8 n :=
      leading_append (fun d hd => hexDigit_digitChar d (digits_lt (by decide) hd))
        fun x hx => absurd hx (Option.not_mem_none x)
    rwa [List.append_nil] at h
  obtain ⟨y, ys, hy⟩ := List.exists_cons_of_ne_nil (hex_ne_nil (n := n) (show 0 < 8 by decide))
  obtain ⟨d, hd, rfl⟩ := @exists_digitChar 8 n y (by rw [hy]; exact List.mem_cons_self)
  obtain ⟨-, hminus, hplus, -⟩ := digitChar_plain d hd
  have hsign : ¬ ((hex 8 n).head? = some (chr '-') ∨ (hex 8 n).head? = some (chr '+')) := by
    rw [hy, List.head?_cons, Option.some_inj, Option.some_inj]
    exact not_or.mpr ⟨hminus, hplus⟩
  have hsome : digits 16 8 n ≠ [] := digits_ne_nil (by decide)
  rw [scanHex]
  simp only [htake, if_neg hsign, hskip, hdigits, hvalue, if_neg hsome, hlen, hdlen, Nat.sub_self,
    Nat.zero_add, hdrop]

/-- The characters of a number are not white space. -/
theorem isSpace_hex {width n : ℕ} : ∀ x ∈ hex width n, isSpace x = false := by
  intro x hx
  obtain ⟨d, hd, rfl⟩ := exists_digitChar hx
  exact (digitChar_plain d hd).1

theorem isSpace_dec {n : ℕ} : ∀ x ∈ dec n, isSpace x = false := by
  intro x hx
  obtain ⟨d, hd, rfl⟩ := List.mem_map.mp hx
  exact (digitChar_plain d (lt_trans (digits_lt (by decide) hd) (by decide))).1

/-- There is no white space in front of a field. -/
theorem dropWhile_field (hs : ∀ x ∈ s, isSpace x = false) (hne : s ≠ []) :
    (s ++ rest).dropWhile isSpace = s ++ rest := by
  obtain ⟨x, s, rfl⟩ := List.exists_cons_of_ne_nil hne
  rw [List.cons_append, List.dropWhile_cons_of_neg]
  rw [hs x List.mem_cons_self]
  exact Bool.false_ne_true

theorem sscanf_hex {n : ℕ} (hn : n < 2 ^ 32) :
    sscanf (.hex 8 :: ds) (hex 8 n ++ rest) = .num n :: sscanf ds rest := by
  rw [sscanf, dropWhile_field isSpace_hex (hex_ne_nil (by decide)), scanHex_hex hn]

theorem sscanf_white :
    sscanf (.white :: ds) (chr ' ' :: rest) = sscanf ds (rest.dropWhile isSpace) := by
  rw [sscanf, List.dropWhile_cons_of_pos (by decide)]

/-- A field that is not assigned. -/
theorem sscanf_skip (hs : ∀ x ∈ s, isSpace x = false) (hne : s ≠ []) :
    sscanf (.white :: .word false :: ds) (chr ' ' :: (s ++ chr ' ' :: rest))
      = sscanf ds (chr ' ' :: rest) := by
  have hkeep : ∀ x ∈ s, (!isSpace x) = true := fun x hx => by rw [hs x hx]; rfl
  rw [sscanf_white, dropWhile_field hs hne, sscanf, dropWhile_field hs hne]
  obtain ⟨x, s, rfl⟩ := List.exists_cons_of_ne_nil hne
  rw [List.cons_append]
  dsimp only
  rw [← List.cons_append, List.dropWhile_append_of_pos hkeep,
    List.dropWhile_cons_of_neg (by decide)]
  rfl

theorem isSpace_perms {w : ℕ} (l : Line w) : ∀ x ∈ l.perms, isSpace x = false := by
  intro x hx
  simp only [Line.perms, List.mem_cons, List.not_mem_nil, or_false] at hx
  rcases hx with rfl | rfl | rfl | rfl <;> split <;> decide

theorem isSpace_device {w : ℕ} (l : Line w) : ∀ x ∈ l.device, isSpace x = false := by
  intro x hx
  rcases List.mem_append.mp hx with h | h
  · exact isSpace_hex x h
  · rcases List.mem_cons.mp h with rfl | h
    · decide
    · exact isSpace_hex x h

/-- **What is assigned from a line.** -/
theorem sscanf_text (l : Line 32) : sscanf format l.text
    = .num l.start.toNat :: .num l.stop.toNat :: ((pathToken l).map Item.str).toList := by
  have hdevice : l.device ≠ [] := fun h => hex_ne_nil (by decide) (List.append_eq_nil_iff.mp h).1
  rw [Line.text, Line.range, List.append_assoc, List.cons_append, format, sscanf_hex l.start.isLt,
    sscanf, List.head?_cons, if_pos rfl, List.tail_cons, sscanf_hex l.stop.isLt,
    sscanf_skip (isSpace_perms l) (List.cons_ne_nil _ _),
    sscanf_skip isSpace_hex (hex_ne_nil (by decide)), sscanf_skip (isSpace_device l) hdevice,
    sscanf_skip isSpace_dec (dec_ne_nil _), sscanf_white, List.dropWhile_append_of_pos, sscanf,
    pathToken]
  · have hidem : (l.name.dropWhile isSpace).dropWhile isSpace = l.name.dropWhile isSpace :=
      List.dropWhile_idempotent isSpace l.name
    rw [hidem]
    cases l.name.dropWhile isSpace with
    | nil => rfl
    | cons x s => rfl
  · intro x hx
    rw [List.eq_of_mem_replicate hx]
    decide

end Scan

/-! ## The table -/

/-- The entry that an entry of the table is in the array. -/
def toMm (e : Entry (List Char8) ℕ) : Mm := ⟨e.key.getD memoryOnly, e.lo, e.hi⟩

/-- The table of some lines. -/
def lineTable (ls : List (Line 32)) : List (Entry (List Char8) ℕ) :=
  table pathToken (fun l => l.start.toNat) (fun l => l.stop.toNat) ls

theorem searchBackward_some {mm : List Mm} {name : List Char8} {n i : ℕ}
    (h : searchBackward mm name n = some i) : mm[i]?.map Mm.name = some name := by
  induction n with
  | zero => cases h
  | succ n ih =>
    rw [searchBackward] at h
    split at h
    · next hn => exact Option.some.inj h ▸ hn
    · exact ih h

theorem searchBackward_none {mm : List Mm} {name : List Char8} {n : ℕ}
    (h : searchBackward mm name n = none) : ∀ i < n, mm[i]?.map Mm.name ≠ some name := by
  induction n with
  | zero => exact fun i hi => absurd hi (Nat.not_lt_zero i)
  | succ n ih =>
    rw [searchBackward] at h
    split at h
    · cases h
    · next hn =>
      intro i hi
      rcases Nat.lt_succ_iff_lt_or_eq.mp hi with hi | rfl
      · exact ih h i hi
      · exact hn

/-- No line has the name of the entries without a path. -/
theorem getD_eq_iff {key : Option (List Char8)} {t : List Char8} (ht : t ≠ memoryOnly) :
    key.getD memoryOnly = t ↔ key = some t := by
  cases key with
  | none => exact iff_of_false ht.symm (Option.some_ne_none t).symm
  | some s => exact Option.some_inj.symm

theorem toMm_widen (e : Entry (List Char8) ℕ) (start stop : ℕ) :
    toMm (e.widen start stop) = { toMm e with
      start := if start < (toMm e).start then start else (toMm e).start
      stop := if stop > (toMm e).stop then stop else (toMm e).stop } := by
  have hstart : min e.lo start = if start < (toMm e).start then start else (toMm e).start := by
    rw [min_comm]
    exact min_def_lt start e.lo
  have hstop : max e.hi stop = if stop > (toMm e).stop then stop else (toMm e).stop :=
    max_def_lt e.hi stop
  rw [← hstart, ← hstop]
  rfl

theorem map_modify_widen (es : List (Entry (List Char8) ℕ)) (i start stop : ℕ) :
    (es.modify i fun e => e.widen start stop).map toMm
      = (es.map toMm).modify i fun m => { m with
          start := if start < m.start then start else m.start
          stop := if stop > m.stop then stop else m.stop } := by
  refine List.ext_getElem? fun n => ?_
  simp only [List.getElem?_map, List.getElem?_modify, Option.map_eq_map, Option.map_map]
  refine congrArg (Option.map · _) (funext fun e => ?_)
  by_cases hn : i = n
  · simp only [Function.comp_apply, if_pos hn, toMm_widen]
  · simp only [Function.comp_apply, if_neg hn]

theorem getElem?_lineTable (ls : List (Line 32)) {t : List Char8} (ht : t ≠ memoryOnly) (i : ℕ) :
    ((lineTable ls).map toMm)[i]?.map Mm.name = some t
      ↔ ((lineTable ls).map Entry.key)[i]? = some (some t) := by
  rw [List.getElem?_map, List.getElem?_map]
  cases (lineTable ls)[i]? with
  | none => exact iff_of_false (Option.some_ne_none _).symm (Option.some_ne_none _).symm
  | some e =>
    rw [Option.map_some, Option.map_some, Option.map_some, Option.some_inj, Option.some_inj]
    exact getD_eq_iff ht

section Parse

variable {ls : List (Line 32)} {l : Line 32} {size : ℕ} (v : Vars)

theorem push_lineTable (hsize : (lineTable (ls ++ [l])).length ≤ size)
    (hnew : lineTable (ls ++ [l]) = lineTable ls ++ [⟨pathToken l, l.start.toNat, l.stop.toNat⟩]) :
    push size ((lineTable ls).map toMm)
        ⟨(pathToken l).getD memoryOnly, l.start.toNat, l.stop.toNat⟩
      = some ((lineTable (ls ++ [l])).map toMm) := by
  rw [hnew, List.length_append, List.length_singleton] at hsize
  rw [push, if_neg (by rw [List.length_map]; omega), hnew, List.map_append]
  rfl

theorem parseLine_of_none {mm : List Mm} (hp : pathToken l = none) :
    parseLine size (mm, v) l.text
      = (push size mm ⟨memoryOnly, l.start.toNat, l.stop.toNat⟩).map
        (·, { v with start := l.start.toNat, stop := l.stop.toNat }) := by
  rw [parseLine, sscanf_text, hp]
  rfl

theorem parseLine_of_some {mm : List Mm} {t : List Char8} (hp : pathToken l = some t)
    (ht : t.length < 256) :
    parseLine size (mm, v) l.text
      = match searchBackward mm t mm.length with
        | some i => some (mm.modify i fun m => { m with
            start := if l.start.toNat < m.start then l.start.toNat else m.start
            stop := if l.stop.toNat > m.stop then l.stop.toNat else m.stop },
            ⟨l.start.toNat, l.stop.toNat, t⟩)
        | none => (push size mm ⟨t, l.start.toNat, l.stop.toNat⟩).map
            (·, ⟨l.start.toNat, l.stop.toNat, t⟩) := by
  have hfits : [Item.num l.start.toNat, .num l.stop.toNat, .str t].all Item.fits ≠ false := by
    simp [Item.fits, ht]
  rw [parseLine, sscanf_text, hp]
  exact (if_neg hfits).trans (if_neg (show 3 ≠ 2 by decide))

/-- **A line is entered in the table.** -/
theorem parseLine_text (hname : ∀ t ∈ pathToken l, t.length < 256 ∧ t ≠ memoryOnly)
    (hsize : (lineTable (ls ++ [l])).length ≤ size) :
    ∃ v', parseLine size ((lineTable ls).map toMm, v) l.text
      = some ((lineTable (ls ++ [l])).map toMm, v') := by
  have hadd : lineTable (ls ++ [l]) = add pathToken (fun l => l.start.toNat)
      (fun l => l.stop.toNat) (lineTable ls) l := table_append
  have hpush (hnew : ¬ (pathToken l ≠ none ∧ pathToken l ∈ (lineTable ls).map Entry.key)) :=
    push_lineTable hsize (hadd.trans (if_neg hnew))
  cases hp : pathToken l with
  | none =>
    rw [parseLine_of_none v hp]
    rw [hp, Option.getD_none] at hpush
    rw [hpush fun h => h.1 rfl]
    exact ⟨_, rfl⟩
  | some t =>
    obtain ⟨hlen, hne⟩ := hname t hp
    rw [hp, Option.getD_some] at hpush
    rw [parseLine_of_some v hp hlen]
    cases hsearch : searchBackward ((lineTable ls).map toMm) t ((lineTable ls).map toMm).length with
    | none =>
      rw [hpush]
      · exact ⟨_, rfl⟩
      · rintro ⟨-, hmem⟩
        obtain ⟨i, hi⟩ := List.getElem?_of_mem hmem
        have hlt := (List.getElem?_eq_some_iff.mp hi).1
        rw [List.length_map] at hlt
        exact searchBackward_none hsearch i (by rwa [List.length_map])
          ((getElem?_lineTable ls hne i).mpr hi)
    | some i =>
      have hi := (getElem?_lineTable ls hne i).mp (searchBackward_some hsearch)
      rw [← hp] at hi
      have hmodify := hadd.trans
        (add_eq_modify (pairwise_keys ls) (hp ▸ Option.some_ne_none t) hi)
      rw [hmodify, map_modify_widen]
      exact ⟨_, rfl⟩

/-- The lines are entered one after the other. -/
theorem foldlM_parseLine (hname : ∀ l ∈ ls, ∀ t ∈ pathToken l, t.length < 256 ∧ t ≠ memoryOnly)
    (hsize : (lineTable ls).length ≤ size) :
    ∃ v', (ls.map Line.text).foldlM (parseLine size) ([], v)
      = some ((lineTable ls).map toMm, v') := by
  induction ls using List.reverseRecOn with
  | nil => exact ⟨v, rfl⟩
  | append_singleton ls l ih =>
    have hle : (lineTable ls).length ≤ (lineTable (ls ++ [l])).length := by
      rw [lineTable, lineTable, table_append]
      exact length_le_add
    obtain ⟨v₁, hrun⟩ := ih (fun l' hl' => hname l' (List.mem_append_left _ hl')) (hle.trans hsize)
    obtain ⟨v₂, hline⟩ := parseLine_text v₁ (hname l (List.mem_append_right _ List.mem_cons_self))
      hsize
    refine ⟨v₂, ?_⟩
    rw [List.map_append, List.map_singleton, List.foldlM_append, hrun, Option.bind_eq_bind,
      Option.bind_some, List.foldlM_cons, hline]
    rfl

end Parse

/-! ## The memory map -/

/-- **An entry of the memory map**, and the line that it begins with: that of a line without
a path is as that line says, and any other goes from the least start to the greatest end of
the lines with its path. -/
structure IsEntry (ls : List (Line 32)) (l : Line 32) (m : Mm) : Prop where
  name_eq : m.name = (pathToken l).getD memoryOnly
  own : pathToken l = none → m.start = l.start.toNat ∧ m.stop = l.stop.toNat
  least : pathToken l ≠ none →
    IsLeast (Set.image (fun l' => l'.start.toNat) (group pathToken ls l)) m.start
  greatest : pathToken l ≠ none →
    IsGreatest (Set.image (fun l' => l'.stop.toNat) (group pathToken ls l)) m.stop

section Load

variable {ls : List (Line 32)} {size : ℕ}

theorem isEntry_toMm {l : Line 32} {e : Entry (List Char8) ℕ}
    (h : Summarizes pathToken (fun l => l.start.toNat) (fun l => l.stop.toNat) ls l e) :
    IsEntry ls l (toMm e) :=
  ⟨congrArg (Option.getD · memoryOnly) h.key_eq, h.own, h.least, h.greatest⟩

/-- **There is one entry for a path.** -/
theorem countP_name {l : Line 32} {t : List Char8} (hl : l ∈ ls) (hp : pathToken l = some t)
    (ht : t ≠ memoryOnly) : ((lineTable ls).map toMm).countP (fun m => m.name = t) = 1 := by
  have hcount : (lineTable ls).countP (fun e => e.key = pathToken l) = 1 :=
    countP_key hl (hp ▸ Option.some_ne_none t)
  rw [List.countP_map, ← hcount, hp]
  refine List.countP_congr fun e _ => ?_
  rw [Function.comp_apply, decide_eq_true_iff, decide_eq_true_iff]
  exact getD_eq_iff ht

/-- **The mappings with the same path are one entry.** Where `read` does not fail, the text is
not too long, no path is longer than `name` or looks like that of no file, and there are
enough entries, the entries are, in order, those that the first lines with their paths begin
and those of the lines without a path. There is one entry for a path. -/
theorem loadMemmap_coalesces (rd : Reader) (hread : ∀ rest count, rd.amount rest count ≠ none)
    (ls : List (Line 32)) (hfit : (text ls).length < 190000)
    (hname : ∀ l ∈ ls, ∀ t ∈ pathToken l, t.length < 256 ∧ t ≠ memoryOnly)
    (hsize : (firsts pathToken ls).length ≤ size) (junk : Vars) :
    ∃ mm, loadMemmap rd (some (text ls)) size junk = some (0, mm)
      ∧ List.Forall₂ (IsEntry ls) (firsts pathToken ls) mm
      ∧ ∀ l ∈ ls, ∀ t ∈ pathToken l, mm.countP (fun m => m.name = t) = 1 := by
  have htable := @forall₂_table _ _ _ _ _ pathToken (fun l : Line 32 => l.start.toNat)
    (fun l => l.stop.toNat) ls
  have hraw : readAll rd 190000 [] (text ls) = some (text ls) :=
    readAll_eq hread (by rwa [List.length_nil, Nat.zero_add])
  obtain ⟨v', hrun⟩ := foldlM_parseLine junk hname (htable.length_eq ▸ hsize)
  refine ⟨(lineTable ls).map toMm, ?_, ?_, fun l hl t ht => countP_name hl ht (hname l hl t ht).2⟩
  · simp only [loadMemmap, hraw]
    rw [text_takeWhile, strtok_text, hrun]
    rfl
  · exact List.forall₂_map_right_iff.mpr (htable.imp fun l e => isEntry_toMm)

/-- A file that is read in one piece. -/
def Reader.whole : Reader where
  amount rest count := some (min count rest.length)
  amount_le _ _ _ h := Option.some.inj h ▸ ⟨min_le_left _ _, min_le_right _ _⟩
  amount_pos _ _ _ h hne hpos :=
    Option.some.inj h ▸ lt_min hpos (List.length_pos_iff.mpr hne)

/-- A line of a library, or of no file. -/
def sampleLine (start stop : BitVec 32) (path : Option FilePath) : Line 32 :=
  ⟨start, stop, true, false, true, false, 0, 8, 1, 0, 4, path, false⟩

/-- `/lib`. -/
def samplePath : FilePath := ⟨"/lib".toList.map chr, by decide, by decide, by decide⟩

set_option maxRecDepth 4000 in
/-- A library in two pieces around a mapping of no file. -/
theorem loadMemmap_coalesces_sample :
    ∃ mm, loadMemmap .whole (some (text [sampleLine 0x3000#32 0x4000#32 (some samplePath),
        sampleLine 0x4000#32 0x5000#32 none, sampleLine 0x1000#32 0x2000#32 (some samplePath)]))
        2 ⟨0, 0, []⟩ = some (0, mm)
      ∧ List.Forall₂ (IsEntry [sampleLine 0x3000#32 0x4000#32 (some samplePath),
          sampleLine 0x4000#32 0x5000#32 none, sampleLine 0x1000#32 0x2000#32 (some samplePath)])
        [sampleLine 0x3000#32 0x4000#32 (some samplePath), sampleLine 0x4000#32 0x5000#32 none] mm
      ∧ mm.countP (fun m => m.name = samplePath.chars) = 1 := by
  obtain ⟨mm, hload, hentry, hcount⟩ := @loadMemmap_coalesces 2 .whole
    (fun _ _ => Option.some_ne_none _)
    [sampleLine 0x3000#32 0x4000#32 (some samplePath), sampleLine 0x4000#32 0x5000#32 none,
      sampleLine 0x1000#32 0x2000#32 (some samplePath)]
    (by decide) (by decide) (by decide) ⟨0, 0, []⟩
  exact ⟨mm, hload, hentry, hcount _ List.mem_cons_self _ (by decide)⟩

end Load

end MemMaps
