import AndroidReverse.Numerals
import AndroidReverse.TextTable

/-!
# The text of `/proc/<pid>/maps`

What the kernel prints for a process: a line for each mapping, with its range,
its permissions, the offset in the file, the device and the inode of the file,
and, behind some padding, the path of the file. Of an unlinked file the line
says so behind the path. The kernel replaces the ends of lines in a path, and
nothing else: the path may hold any other character, blanks included, and is not
a single field of the line (`FilePath`).
-/

namespace ProcMaps

open Numerals TextTable

/-- A character as the byte it is. -/
def chr (ch : Char) : BitVec 8 := BitVec.ofNat 8 ch.toNat

/-- The end of a line. -/
def newline : BitVec 8 := 0x0A#8

/-- White space that the readers of the text take for the end of a field. -/
def isBlank (x : BitVec 8) : Bool := x = 0x09#8 ∨ x = chr ' ' ∨ x = 0x0D#8 ∨ x = newline

/-! ## Numbers -/

/-- The character of a digit. -/
def digitChar (d : ℕ) : BitVec 8 := BitVec.ofNat 8 (if d < 10 then 48 + d else 87 + d)

/-- The hexadecimal digit that a character is. -/
def hexDigit (x : BitVec 8) : Option ℕ :=
  if 48 ≤ x.toNat ∧ x.toNat ≤ 57 then some (x.toNat - 48)
  else if 97 ≤ x.toNat ∧ x.toNat ≤ 102 then some (x.toNat - 87)
  else if 65 ≤ x.toNat ∧ x.toNat ≤ 70 then some (x.toNat - 55)
  else none

/-- A number in hexadecimal. -/
def hex (width n : ℕ) : List (BitVec 8) := (digits 16 width n).map digitChar

/-- A number in decimal. -/
def dec (n : ℕ) : List (BitVec 8) := (digits 10 1 n).map digitChar

theorem hexDigit_digitChar : ∀ d < 16, hexDigit (digitChar d) = some d := by
  decide

theorem isBlank_digitChar : ∀ d < 16, isBlank (digitChar d) = false ∧ digitChar d ≠ 0#8 := by
  decide

/-- **Reading a number back.** -/
theorem value_hex {width n : ℕ} {rest : List (BitVec 8)}
    (hrest : ∀ x ∈ rest.head?, hexDigit x = none) :
    value 16 (leading hexDigit (hex width n ++ rest)) = n := by
  rw [hex, leading_append (fun d hd => hexDigit_digitChar d (digits_lt (by decide) hd)) hrest,
    value_digits]

theorem hex_ne_nil {width n : ℕ} (hw : 0 < width) : hex width n ≠ [] :=
  fun h => digits_ne_nil hw (List.map_eq_nil_iff.mp h)

/-- What `isspace` accepts. -/
def isSpace (x : BitVec 8) : Bool := x = chr ' ' ∨ (9 ≤ x.toNat ∧ x.toNat ≤ 13)

/-- A prefix `0x` in front of a digit. -/
def skip0x (s : List (BitVec 8)) : List (BitVec 8) :=
  if s[0]? = some (chr '0') ∧ (s[1]? = some (chr 'x') ∨ s[1]? = some (chr 'X'))
    ∧ (s[2]?.bind hexDigit).isSome then s.drop 2
  else s

/-- `strtoul` in base 16, where a `long` has some bits: white space, a sign, a
prefix and digits. What is too large is `ULONG_MAX`. -/
def strtoul (bits : ℕ) (s : List (BitVec 8)) : ℕ :=
  let s := s.dropWhile isSpace
  let negative : Bool := s.head? = some (chr '-')
  let s := if negative ∨ s.head? = some (chr '+') then s.tail else s
  let v := value 16 (leading hexDigit (skip0x s))
  if 2 ^ bits ≤ v then 2 ^ bits - 1
  else if negative then (2 ^ bits - v) % 2 ^ bits
  else v

theorem digitChar_plain : ∀ d < 16, isSpace (digitChar d) = false ∧ digitChar d ≠ chr '-'
    ∧ digitChar d ≠ chr '+' ∧ digitChar d ≠ chr ':' ∧ digitChar d ≠ chr 'x'
    ∧ digitChar d ≠ chr 'X' := by
  decide

section Numbers

variable {width n bits : ℕ} {rest : List (BitVec 8)}

theorem exists_digitChar {x : BitVec 8} (hx : x ∈ hex width n) : ∃ d < 16, digitChar d = x := by
  obtain ⟨d, hd, rfl⟩ := List.mem_map.mp hx
  exact ⟨d, digits_lt (by decide) hd, rfl⟩

/-- A character behind which no number goes on. -/
def Stops (x : BitVec 8) : Prop := hexDigit x = none ∧ x ≠ chr 'x' ∧ x ≠ chr 'X'

instance (x : BitVec 8) : Decidable (Stops x) := inferInstanceAs (Decidable (_ ∧ _))

/-- There is no prefix in front of what the kernel prints. -/
theorem skip0x_hex (hw : 0 < width) (hrest : ∀ x ∈ rest.head?, Stops x) :
    skip0x (hex width n ++ rest) = hex width n ++ rest := by
  have hsecond : ∀ x ∈ (hex width n ++ rest)[1]?, x ≠ chr 'x' ∧ x ≠ chr 'X' := by
    intro x hx
    by_cases hlen : 1 < (hex width n).length
    · rw [List.getElem?_append_left hlen] at hx
      obtain ⟨d, hd, rfl⟩ := exists_digitChar (List.mem_of_getElem? hx)
      exact (digitChar_plain d hd).2.2.2.2
    · have hone : (hex width n).length = 1 :=
        Nat.le_antisymm (Nat.le_of_not_lt hlen) (List.length_pos_iff.mpr (hex_ne_nil hw))
      rw [List.getElem?_append_right (by omega), hone, Nat.sub_self, ← List.head?_eq_getElem?] at hx
      exact (hrest x hx).2
  refine if_neg fun ⟨_, h, _⟩ => ?_
  rcases h with h | h
  · exact (hsecond _ h).1 rfl
  · exact (hsecond _ h).2 rfl

/-- **`strtoul` reads back what the kernel prints.** -/
theorem strtoul_hex (hw : 0 < width) (hn : n < 2 ^ bits) (hrest : ∀ x ∈ rest.head?, Stops x) :
    strtoul bits (hex width n ++ rest) = n := by
  obtain ⟨y, ys, hy⟩ := List.exists_cons_of_ne_nil (hex_ne_nil (n := n) hw)
  obtain ⟨d, hd, rfl⟩ := @exists_digitChar width n _
    (by rw [hy]; exact List.mem_cons_self)
  obtain ⟨hspace, hminus, hplus, -⟩ := digitChar_plain d hd
  have hdrop : (hex width n ++ rest).dropWhile isSpace = hex width n ++ rest := by
    rw [hy, List.cons_append, List.dropWhile_cons_of_neg (by rw [hspace]; exact Bool.false_ne_true)]
  have hhead : (hex width n ++ rest).head? = some (digitChar d) := by rw [hy]; rfl
  rw [strtoul, hdrop, hhead]
  simp only [Option.some_inj, hminus, hplus, decide_false, Bool.false_eq_true, or_self, if_false]
  rw [skip0x_hex hw hrest, value_hex fun x hx => (hrest x hx).1, if_neg (Nat.not_le.mpr hn)]

/-- **An address is read back.** -/
theorem ofNat_strtoul_hex (hw : 0 < width) (v : BitVec bits) :
    BitVec.ofNat bits (strtoul bits (hex width v.toNat)) = v := by
  have h := @strtoul_hex width v.toNat bits [] hw v.isLt
    (fun x hx => absurd hx (Option.not_mem_none x))
  rw [List.append_nil] at h
  rw [h, BitVec.ofNat_toNat, BitVec.setWidth_eq]

/-- A field that begins with a number and goes on behind a character. -/
theorem dropWhile_hex {x : BitVec 8} (hx : ∀ d < 16, digitChar d ≠ x) :
    (hex width n ++ x :: rest).dropWhile (· ≠ x) = x :: rest := by
  rw [List.dropWhile_append_of_pos fun y hy => ?_, List.dropWhile_cons_of_neg (by simp)]
  obtain ⟨d, hd, rfl⟩ := exists_digitChar hy
  exact decide_eq_true (hx d hd)

end Numbers

/-! ## Lines -/

/-- **A path** as the kernel prints it. -/
structure FilePath where
  /-- Its characters. -/
  chars : List (BitVec 8)
  /-- There are some. -/
  ne_nil : chars ≠ []
  /-- The first one is not white space; it is `/`, or `[` for what is no file. -/
  head_not_blank : ∀ x ∈ chars.head?, isBlank x = false
  /-- No line ends in it, and no string. -/
  plain : ∀ x ∈ chars, x ≠ newline ∧ x ≠ 0#8
deriving DecidableEq

/-- **A line of the text**, for addresses of `w` bits. -/
structure Line (w : ℕ) where
  start : BitVec w
  stop : BitVec w
  read : Bool
  write : Bool
  exec : Bool
  shared : Bool
  offset : ℕ
  major : BitVec 12
  minor : BitVec 20
  inode : ℕ
  /-- The number of blanks in front of the path, after the first. -/
  pad : ℕ
  path : Option FilePath
  /-- Whether the file has been unlinked. -/
  deleted : Bool
deriving DecidableEq

namespace Line

variable {w : ℕ} (l : Line w)

/-- The range of addresses. -/
def range : List (BitVec 8) := hex 8 l.start.toNat ++ chr '-' :: hex 8 l.stop.toNat

/-- The permissions. -/
def perms : List (BitVec 8) :=
  [if l.read then chr 'r' else chr '-', if l.write then chr 'w' else chr '-',
    if l.exec then chr 'x' else chr '-', if l.shared then chr 's' else chr 'p']

/-- The device. -/
def device : List (BitVec 8) := hex 2 l.major.toNat ++ chr ':' :: hex 2 l.minor.toNat

/-- What is said of an unlinked file. -/
def mark : List (BitVec 8) := if l.deleted then " (deleted)".toList.map chr else []

/-- The path, and whether the file has been unlinked. -/
def name : List (BitVec 8) :=
  match l.path with
  | some p => p.chars ++ l.mark
  | none => []

/-- **The characters of a line**, without its end. -/
def text : List (BitVec 8) :=
  l.range ++ chr ' ' :: (l.perms ++ chr ' ' :: (hex 8 l.offset ++ chr ' ' ::
    (l.device ++ chr ' ' ::
        (dec l.inode ++ chr ' ' :: (List.replicate l.pad (chr ' ') ++ l.name)))))

end Line

/-- **The whole text.** -/
def text {w : ℕ} (ls : List (Line w)) : List (BitVec 8) := ls.flatMap fun l => l.text ++ [newline]

/-! ## What the fields are made of -/

/-- Characters of a field: no white space, and no end of a string. -/
def Dense (s : List (BitVec 8)) : Prop := ∀ x ∈ s, isBlank x = false ∧ x ≠ 0#8

section Dense

variable {s t : List (BitVec 8)} {x : BitVec 8}

theorem Dense.append_cons (hs : Dense s) (hx : isBlank x = false ∧ x ≠ 0#8) (ht : Dense t) :
    Dense (s ++ x :: t) := by
  intro y hy
  rcases List.mem_append.mp hy with h | h
  · exact hs y h
  · rcases List.mem_cons.mp h with rfl | h
    · exact hx
    · exact ht y h

theorem dense_map {ds : List ℕ} (h : ∀ d ∈ ds, d < 16) : Dense (ds.map digitChar) := by
  intro x hx
  obtain ⟨d, hd, rfl⟩ := List.mem_map.mp hx
  exact isBlank_digitChar d (h d hd)

theorem dense_hex (width n : ℕ) : Dense (hex width n) :=
  dense_map fun _ hd => digits_lt (by decide) hd

theorem dense_dec (n : ℕ) : Dense (dec n) :=
  dense_map fun _ hd => lt_trans (digits_lt (by decide) hd) (by decide)

theorem dec_ne_nil (n : ℕ) : dec n ≠ [] :=
  fun h => digits_ne_nil (by decide) (List.map_eq_nil_iff.mp h)

theorem Dense.isField (hs : Dense s) (hne : s ≠ []) : IsField isBlank s :=
  ⟨hne, fun x hx => (hs x hx).1⟩

end Dense

namespace Line

variable {w : ℕ} (l : Line w)

theorem dense_range : Dense l.range := (dense_hex _ _).append_cons (by decide) (dense_hex _ _)

theorem dense_device : Dense l.device := (dense_hex _ _).append_cons (by decide) (dense_hex _ _)

theorem dense_perms : Dense l.perms := by
  intro x hx
  simp only [perms, List.mem_cons, List.not_mem_nil, or_false] at hx
  rcases hx with rfl | rfl | rfl | rfl <;> split <;> decide

/-- The path is the last field of the line, or begins with it. -/
theorem name_of_path {p : FilePath} (hp : l.path = some p) : l.name = p.chars ++ l.mark := by
  rw [name, hp]

/-- There is no end inside the name, of a line or of a string. -/
theorem name_plain : ∀ x ∈ l.name, x ≠ newline ∧ x ≠ 0#8 := by
  have hmark : ∀ x ∈ l.mark, x ≠ newline ∧ x ≠ 0#8 := by
    unfold mark
    cases l.deleted <;> decide
  intro x hx
  cases hp : l.path with
  | none =>
    rw [name, hp] at hx
    exact absurd hx List.not_mem_nil
  | some p =>
    rw [l.name_of_path hp] at hx
    exact (List.mem_append.mp hx).elim (p.plain x) (hmark x)

/-- No white space is in front of the name. -/
theorem head_name : ∀ x ∈ l.name.head?, isBlank x = false := by
  intro x hx
  cases hp : l.path with
  | none =>
    rw [name, hp] at hx
    exact absurd hx (Option.not_mem_none x)
  | some p =>
    obtain ⟨y, s, hy⟩ := List.exists_cons_of_ne_nil p.ne_nil
    rw [l.name_of_path hp, hy] at hx
    exact p.head_not_blank x (by rw [hy]; exact hx)

/-- **Nor inside the line.** -/
theorem text_plain : ∀ x ∈ l.text, x ≠ newline ∧ x ≠ 0#8 := by
  have hdense : ∀ {s}, Dense s → ∀ x ∈ s, x ≠ newline ∧ x ≠ 0#8 := fun hs x hx =>
    ⟨by rintro rfl; exact absurd (hs _ hx).1 (by decide), (hs x hx).2⟩
  have hspace : chr ' ' ≠ newline ∧ chr ' ' ≠ 0#8 := by decide
  have hcons : ∀ {s t : List (BitVec 8)}, (∀ x ∈ s, x ≠ newline ∧ x ≠ 0#8) →
      (∀ x ∈ t, x ≠ newline ∧ x ≠ 0#8) →
      ∀ x ∈ s ++ chr ' ' :: t, x ≠ newline ∧ x ≠ 0#8 := by
    intro s t hs ht x hx
    rcases List.mem_append.mp hx with h | h
    · exact hs x h
    · rcases List.mem_cons.mp h with rfl | h
      · exact hspace
      · exact ht x h
  refine hcons (hdense l.dense_range) (hcons (hdense l.dense_perms) (hcons (hdense (dense_hex _ _))
    (hcons (hdense l.dense_device) (hcons (hdense (dense_dec _)) fun x hx => ?_))))
  rcases List.mem_append.mp hx with h | h
  · rw [List.eq_of_mem_replicate h]
    exact hspace
  · exact l.name_plain x h

theorem newline_not_mem : newline ∉ l.text := fun h => (l.text_plain _ h).1 rfl

/-- **A string that holds the line** ends behind it, with the end of the line or without. -/
theorem takeWhile_text {tail : List (BitVec 8)} (htail : tail = [] ∨ tail = [newline]) :
    (l.text ++ tail).takeWhile (· ≠ 0#8) = l.text ++ tail := by
  refine List.takeWhile_eq_self_iff.mpr fun x hx => decide_eq_true ?_
  rcases List.mem_append.mp hx with h | h
  · exact (l.text_plain x h).2
  · rcases htail with rfl | rfl
    · exact absurd h List.not_mem_nil
    · rw [List.mem_singleton.mp h]
      decide

end Line

section Text

variable {w : ℕ} {ls : List (Line w)}

theorem text_cons (l : Line w) (ls : List (Line w)) :
    text (l :: ls) = l.text ++ newline :: text ls := by
  rw [text, List.flatMap_cons, List.append_assoc]
  rfl

/-- **Lines that fit are read one by one.** -/
theorem buffers_text {size : ℕ} (hlen : ∀ l ∈ ls, l.text.length < size) :
    buffers newline size [] (text ls) = ls.map fun l => l.text ++ [newline] := by
  induction ls with
  | nil => rfl
  | cons l ls ih =>
    rw [text_cons, buffers_line l.newline_not_mem (hlen l List.mem_cons_self), List.map_cons,
      ih fun l' h => hlen l' (List.mem_cons_of_mem l h)]

end Text

end ProcMaps
