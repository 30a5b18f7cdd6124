import AndroidReverse.InlineHook
import AndroidReverse.MapsText

/-!
# The test for executable addresses

`registerInlineHook` asks of the target and of the new function whether they are executable, and
`isExecutableAddr` looks them up in `/proc/self/maps`: a line that has `r-xp` in it is taken apart,
and its range tested. That is not the permissions of the mapping. A mapping that can be written
or is shared is executable without these four characters, and a path may have them in a mapping
that is not; besides, the end of the range passes the test. `answers_iff` says for which addresses
this makes no difference.
-/

namespace InlineHook

open Arm ProcMaps TextTable

/-! ## The code -/

/-- The string that is looked for in a line. -/
def rxp : List Byte := "r-xp".toList.map chr

/-- The range of a line, by `strtok` and `strtoul`; `none` where `strtok` returns `NULL`. -/
def lineRange (line : List Byte) : Option (Word × Word) := do
  let (start, rest) := token (· = chr '-') line
  let start ← start
  let (stop, _) := token (· = chr ' ') rest
  let stop ← stop
  some (BitVec.ofNat 32 (strtoul 32 start), BitVec.ofNat 32 (strtoul 32 stop))

/-- The loop of `isExecutableAddr`, over what `fgets` reads. -/
def executableLoop (addr : Word) : List (List Byte) → Option Bool
  | [] => some false
  | line :: lines =>
    let line := line.takeWhile (· ≠ 0#8)
    if rxp <:+: line then do
      let (start, stop) ← lineRange line
      if addr ≥ start ∧ addr ≤ stop then some true else executableLoop addr lines
    else executableLoop addr lines

/-- `isExecutableAddr`; `fp` is the text of `/proc/self/maps`, if it can be opened. -/
def isExecutableAddr (fp : Option (List Byte)) (addr : Word) : Option Bool :=
  match fp with
  | none => some false
  | some maps => executableLoop addr (buffers newline 1023 [] maps)

/-! ## A line -/

section Lines

variable {w : ℕ} (l : Line w)

/-- **A line that is taken apart**: its mapping is private and can be read and executed, but not
written, or its path has the four characters in it. -/
def Listed : Prop :=
  (l.read = true ∧ l.write = false ∧ l.exec = true ∧ l.shared = false)
    ∨ ∃ p ∈ l.path, rxp <:+: p.chars

instance : Decidable (Listed l) := inferInstanceAs (Decidable (_ ∨ _))

/-- The word is in no field without its first character. -/
theorem rxp_absent {s : List Byte} (hs : chr 'r' ∉ s) : ¬ rxp <:+: s := fun h =>
  hs (h.subset List.mem_cons_self)

theorem r_not_mem_map {ds : List ℕ} (h : ∀ d ∈ ds, d < 16) : chr 'r' ∉ ds.map digitChar := by
  intro hr
  obtain ⟨d, hd, heq⟩ := List.mem_map.mp hr
  have hne : ∀ d < 16, digitChar d ≠ chr 'r' := by decide
  exact hne d (h d hd) heq

theorem r_not_mem_hex (width n : ℕ) : chr 'r' ∉ hex width n :=
  r_not_mem_map fun _ hd => Numerals.digits_lt (by decide) hd

theorem r_not_mem_dec (n : ℕ) : chr 'r' ∉ dec n :=
  r_not_mem_map fun _ hd => lt_trans (Numerals.digits_lt (by decide) hd) (by decide)

/-- Two numbers with a character between them. -/
theorem r_not_mem_pair {s t : List Byte} {x : Byte} (hs : chr 'r' ∉ s) (hx : chr 'r' ≠ x)
    (ht : chr 'r' ∉ t) : chr 'r' ∉ s ++ x :: t := fun h =>
  (List.mem_append.mp h).elim hs fun h => (List.mem_cons.mp h).elim hx ht

theorem rxp_perms_iff : rxp <:+: l.perms
    ↔ l.read = true ∧ l.write = false ∧ l.exec = true ∧ l.shared = false := by
  have heq : rxp <:+: l.perms ↔ rxp = l.perms :=
    ⟨fun h => h.eq_of_length rfl, fun h => h ▸ List.infix_rfl⟩
  rw [heq, Line.perms]
  cases l.read <;> cases l.write <;> cases l.exec <;> cases l.shared <;> decide

theorem rxp_name_iff : rxp <:+: l.name ↔ ∃ p ∈ l.path, rxp <:+: p.chars := by
  cases hp : l.path with
  | none =>
    have hname : l.name = [] := by rw [Line.name, hp]
    rw [hname]
    refine iff_of_false (by decide) ?_
    rintro ⟨p, h, -⟩
    exact Option.some_ne_none p h.symm
  | some p =>
    have hmark : rxp <:+: p.chars ++ l.mark ↔ rxp <:+: p.chars := by
      unfold Line.mark
      cases l.deleted with
      | false => rw [if_neg Bool.false_ne_true, List.append_nil]
      | true =>
        have hsplit : " (deleted)".toList.map chr = chr ' ' :: "(deleted)".toList.map chr := rfl
        rw [if_pos rfl, hsplit, infix_append_cons_iff (by decide)]
        exact or_iff_left (rxp_absent (by decide))
    rw [l.name_of_path hp, hmark]
    constructor
    · intro h
      exact ⟨p, rfl, h⟩
    · rintro ⟨q, hq, h⟩
      exact Option.some.inj hq ▸ h

/-- Blanks in front of the name. -/
theorem rxp_replicate_iff (n : ℕ) {s : List Byte} :
    rxp <:+: List.replicate n (chr ' ') ++ s ↔ rxp <:+: s := by
  induction n with
  | zero => rfl
  | succ n ih =>
    have hskip := @infix_append_cons_iff Byte rxp [] (List.replicate n (chr ' ') ++ s) (chr ' ')
      (by decide)
    rw [List.replicate_succ, List.cons_append, ← ih]
    exact hskip.trans (or_iff_right (by decide))

/-- **Where the four characters are in a line**: in the permissions or in the path. -/
theorem rxp_text_iff {tail : List Byte} (htail : tail = [] ∨ tail = [newline]) :
    rxp <:+: l.text ++ tail ↔ Listed l := by
  have hend : rxp <:+: l.text ++ tail ↔ rxp <:+: l.text := by
    rcases htail with rfl | rfl
    · rw [List.append_nil]
    · rw [infix_append_cons_iff (by decide)]
      exact or_iff_left (by decide)
  have hspace : chr ' ' ∉ rxp := by decide
  have hrange : ¬ rxp <:+: l.range :=
    rxp_absent (r_not_mem_pair (r_not_mem_hex _ _) (by decide) (r_not_mem_hex _ _))
  have hdevice : ¬ rxp <:+: l.device :=
    rxp_absent (r_not_mem_pair (r_not_mem_hex _ _) (by decide) (r_not_mem_hex _ _))
  rw [hend, Line.text, infix_append_cons_iff hspace, infix_append_cons_iff hspace,
    infix_append_cons_iff hspace, infix_append_cons_iff hspace, infix_append_cons_iff hspace,
    rxp_replicate_iff, rxp_perms_iff, rxp_name_iff, or_iff_right hrange,
    or_iff_right (rxp_absent (r_not_mem_hex _ _)), or_iff_right hdevice,
    or_iff_right (rxp_absent (r_not_mem_dec _))]
  rfl

/-- **The range of a line.** -/
theorem lineRange_text (l : Line 32) (tail : List Byte) :
    lineRange (l.text ++ tail) = some (l.start, l.stop) := by
  have hfield : ∀ {x : Byte}, (∀ d < 16, digitChar d ≠ x) → ∀ v : Word,
      IsField (fun y => decide (y = x)) (hex 8 v.toNat) := by
    refine fun hx v => ⟨hex_ne_nil (by decide), fun y hy => ?_⟩
    obtain ⟨d, hd, rfl⟩ := exists_digitChar hy
    exact decide_eq_false (hx d hd)
  have hstart := fun s => token_field (hfield (x := chr '-') (by decide) l.start)
    (decide_eq_true rfl) (s := s)
  have hstop := fun s => token_field (hfield (x := chr ' ') (by decide) l.stop)
    (decide_eq_true rfl) (s := s)
  simp only [lineRange, Line.text, Line.range, List.append_assoc, List.cons_append, hstart, hstop,
    @ofNat_strtoul_hex 8 32 (by decide), Option.bind_eq_bind, Option.bind_some]

/-- The range of a line, its end included. -/
def Spans (l : Line 32) (addr : Word) : Prop := l.start ≤ addr ∧ addr ≤ l.stop

instance (l : Line 32) (addr : Word) : Decidable (Spans l addr) :=
  inferInstanceAs (Decidable (_ ∧ _))

/-- **A line decides the loop** if it is taken apart and its range passes the test. -/
theorem executableLoop_text (addr : Word) (l : Line 32) {tail : List Byte}
    (htail : tail = [] ∨ tail = [newline]) (lines : List (List Byte)) :
    executableLoop addr ((l.text ++ tail) :: lines)
      = if Listed l ∧ Spans l addr then some true else executableLoop addr lines := by
  rw [executableLoop, l.takeWhile_text htail]
  simp only [rxp_text_iff l htail, lineRange_text, Option.bind_eq_bind, Option.bind_some]
  by_cases hlisted : Listed l
  · rw [if_pos hlisted]
    exact if_congr (and_iff_right hlisted).symm rfl rfl
  · rw [if_neg hlisted, if_neg fun h => hlisted h.1]

end Lines

/-! ## The text -/

section Text

variable {ls : List (Line 32)} {addr : Word}

/-- **The loop over the lines.** A line of 1023 characters leaves its end to the next call of
`fgets`, which reads a string without the four characters. -/
theorem executableLoop_buffers (hlen : ∀ l ∈ ls, l.text.length < 1024) :
    executableLoop addr (buffers newline 1023 [] (text ls))
      = some (decide (∃ l ∈ ls, Listed l ∧ Spans l addr)) := by
  induction ls with
  | nil =>
    rw [decide_eq_false fun ⟨l, hl, _⟩ => List.not_mem_nil hl]
    rfl
  | cons l ls ih =>
    have hl := hlen l List.mem_cons_self
    have hread : executableLoop addr (buffers newline 1023 [] (text (l :: ls)))
        = if Listed l ∧ Spans l addr then some true
          else executableLoop addr (buffers newline 1023 [] (text ls)) := by
      rw [text_cons]
      rcases Nat.lt_or_eq_of_le (Nat.le_of_lt_succ hl) with h | h
      · rw [buffers_line l.newline_not_mem h, executableLoop_text addr l (.inr rfl)]
      · have hend : ∀ lines, executableLoop addr ([newline] :: lines) = executableLoop addr lines :=
          fun lines => by
            rw [executableLoop]
            exact if_neg (by decide)
        have hfirst := executableLoop_text addr l (.inl rfl)
        rw [List.append_nil] at hfirst
        rw [buffers_line_full l.newline_not_mem h (by decide), hfirst, hend]
    rw [hread, ih fun l' h => hlen l' (List.mem_cons_of_mem l h)]
    by_cases h : Listed l ∧ Spans l addr
    · rw [if_pos h, decide_eq_true ⟨l, List.mem_cons_self, h⟩]
    · rw [if_neg h]
      refine congrArg some (decide_eq_decide.mpr ?_)
      rw [List.exists_mem_cons_iff]
      exact (or_iff_right h).symm

/-- **What `isExecutableAddr` answers**: whether a line that is taken apart spans the address. -/
theorem isExecutableAddr_text (hlen : ∀ l ∈ ls, l.text.length < 1024) :
    isExecutableAddr (some (text ls)) addr
      = some (decide (∃ l ∈ ls, Listed l ∧ Spans l addr)) :=
  executableLoop_buffers hlen

end Text

/-! ## Executable addresses -/

/-- **An address is executable**: it is in a mapping that can be read and executed. -/
def Executable (ls : List (Line 32)) (addr : Word) : Prop :=
  ∃ l ∈ ls, l.read = true ∧ l.exec = true ∧ l.start ≤ addr ∧ addr < l.stop

/-- **The answer is right.** -/
def Answers (ls : List (Line 32)) (addr : Word) : Prop :=
  ∃ b, isExecutableAddr (some (text ls)) addr = some b ∧ (b = true ↔ Executable ls addr)

/-- **An address for which the lines that are taken apart are the right ones**: where it is in a
mapping that can be read and executed, but also written or shared, another line stands in for
that one; and it is neither the end of a mapping that is taken apart nor in one that cannot be
read or executed, unless it is in another mapping that can. -/
structure Plain (ls : List (Line 32)) (addr : Word) : Prop where
  /-- It is found in spite of the permissions. -/
  found : ∀ l ∈ ls, l.read = true → l.exec = true → l.start ≤ addr → addr < l.stop →
    l.write = true ∨ l.shared = true → ∃ l' ∈ ls, Listed l' ∧ Spans l' addr
  /-- It is not found by mistake. -/
  meant : ∀ l ∈ ls, Listed l → Spans l addr →
    addr = l.stop ∨ l.read = false ∨ l.exec = false → Executable ls addr

/-- **The answer is right exactly for plain addresses.** -/
theorem answers_iff (ls : List (Line 32)) (addr : Word) (hlen : ∀ l ∈ ls, l.text.length < 1024) :
    Answers ls addr ↔ Plain ls addr := by
  have hanswers : Answers ls addr
      ↔ ((∃ l ∈ ls, Listed l ∧ Spans l addr) ↔ Executable ls addr) := by
    rw [Answers, isExecutableAddr_text hlen]
    constructor
    · rintro ⟨b, hb, h⟩
      rwa [← Option.some.inj hb, decide_eq_true_iff] at h
    · exact fun h => ⟨_, rfl, decide_eq_true_iff.trans h⟩
  rw [hanswers]
  constructor
  · intro h
    refine ⟨fun l hl hr hx hstart hstop _ => h.mpr ⟨l, hl, hr, hx, hstart, hstop⟩, ?_⟩
    exact fun l hl hlisted hspans _ => h.mp ⟨l, hl, hlisted, hspans⟩
  · rintro ⟨hfound, hmeant⟩
    constructor
    · rintro ⟨l, hl, hlisted, hspans⟩
      by_cases hstray : addr = l.stop ∨ l.read = false ∨ l.exec = false
      · exact hmeant l hl hlisted hspans hstray
      · rw [not_or, not_or, Bool.not_eq_false, Bool.not_eq_false] at hstray
        exact ⟨l, hl, hstray.2.1, hstray.2.2, hspans.1, BitVec.lt_of_le_ne hspans.2 hstray.1⟩
    · rintro ⟨l, hl, hr, hx, hstart, hstop⟩
      by_cases hother : l.write = true ∨ l.shared = true
      · exact hfound l hl hr hx hstart hstop hother
      · rw [not_or, Bool.not_eq_true, Bool.not_eq_true] at hother
        exact ⟨l, hl, Or.inl ⟨hr, hother.1, hx, hother.2⟩, hstart, BitVec.le_of_lt hstop⟩

/-- The mapping of the code of a library, at `0x1000`, and that of its data behind it. -/
def codeLines : List (Line 32) :=
  [⟨0x1000#32, 0x2000#32, true, false, true, false, 0, 0#12, 0#20, 0, 0, none, false⟩,
    ⟨0x2000#32, 0x3000#32, true, true, false, false, 0, 0#12, 0#20, 0, 0, none, false⟩]

theorem length_codeLines : ∀ l ∈ codeLines, l.text.length < 1024 := by
  decide

/-- An address in the code. -/
theorem answers_iff_code : Answers codeLines 0x1800#32 ↔ Plain codeLines 0x1800#32 :=
  answers_iff codeLines 0x1800#32 length_codeLines

/-- **The end of the code passes the test**, though it is in the data. -/
theorem not_answers_end : ¬ Answers codeLines 0x2000#32 := by
  rintro ⟨b, hb, h⟩
  have htrue : b = true := by
    rw [isExecutableAddr_text length_codeLines] at hb
    rw [← Option.some.inj hb]
    decide
  obtain ⟨l, hl, -, hx, hstart, hstop⟩ := h.mp htrue
  rcases List.mem_pair.mp hl with rfl | rfl
  · exact absurd hstop (by decide)
  · cases hx

/-! ## Registration -/

/-- What the system answers, where `maps` is the text of `/proc/self/maps`. -/
def Os.ofMaps (maps : Option (List Byte)) (malloc mmap : Word) : Os where
  isExecutableAddr addr := InlineHook.isExecutableAddr maps addr == some true
  malloc := malloc
  mmap := mmap

/-- **A registration is refused** exactly if one of its addresses is not in a line that is taken
apart. -/
theorem registerInlineHook_notExecutable_iff {ls : List (Line 32)}
    (hlen : ∀ l ∈ ls, l.text.length < 1024) (malloc mmap target_addr new_addr proto_addr : Word)
    (p : Process) :
    registerInlineHook (Os.ofMaps (some (text ls)) malloc mmap) target_addr new_addr proto_addr p
        = some (.errorNotExecutable, p)
      ↔ ¬ ((∃ l ∈ ls, Listed l ∧ Spans l target_addr)
        ∧ ∃ l ∈ ls, Listed l ∧ Spans l new_addr) := by
  have htest : ∀ addr, (Os.ofMaps (some (text ls)) malloc mmap).isExecutableAddr addr
      = decide (∃ l ∈ ls, Listed l ∧ Spans l addr) := by
    intro addr
    show (InlineHook.isExecutableAddr (some (text ls)) addr == some true) = _
    rw [isExecutableAddr_text hlen]
    cases decide (∃ l ∈ ls, Listed l ∧ Spans l addr) <;> rfl
  rw [registerInlineHook, htest, htest, not_and_or]
  by_cases ht : ∃ l ∈ ls, Listed l ∧ Spans l target_addr
  · by_cases hn : ∃ l ∈ ls, Listed l ∧ Spans l new_addr
    · refine iff_of_false (fun h => ?_) (not_or.mpr ⟨not_not_intro ht, not_not_intro hn⟩)
      rw [decide_eq_true ht, decide_eq_true hn, if_neg (by decide)] at h
      split at h
      · split_ifs at h
        all_goals cases (Prod.mk.inj (Option.some.inj h)).1
      · obtain ⟨x, -, hx⟩ := Option.map_eq_some_iff.mp h
        cases (Prod.mk.inj hx).1
    · refine iff_of_true (if_pos ?_) (Or.inr hn)
      rw [decide_eq_false hn, Bool.not_false, Bool.or_true]
  · refine iff_of_true (if_pos ?_) (Or.inl ht)
    rw [decide_eq_false ht, Bool.not_false, Bool.true_or]

end InlineHook
