import Mathlib.Data.List.TakeWhile
import AndroidReverse.Base64Code

/-!
# The decoder on any string

`b64_decode_ex` is not only given encodings. Its loop ends at the length it is passed, or
before that at the first character that is not in the table, `=` and the terminator
included; what is left in `tmp` is one to three characters, of which it makes one byte
less. Everything it returns is therefore a function of the longest prefix of characters of
the table, among the first `len`: as many leading bits of their values as fill whole bytes.

The model's accesses are all checked, so a result also says that no byte was read from
outside `src` or written past the end of the allocation as it had been resized. The
`int` indices of the source count characters of one object, of which the 32-bit platform
the module is built for has fewer than `2 ^ 31`.
-/

open Buffer

namespace B64

/-- **`src` begins with the characters `s`, and they are all that is read**: there are `len`
of them, or one of them is not in the table. -/
structure Holds (src : Buffer) (s : List UInt8) (len : ℕ) : Prop where
  begins : ∃ rest, src = ofBytes s ++ rest
  ends : len ≤ s.length ∨ ∃ c ∈ s, c ∉ b64Table

/-- The longest prefix of characters of the table, among the first `len`. -/
def tablePrefix (s : List UInt8) (len : ℕ) : List UInt8 :=
  (s.take len).takeWhile (· ∈ b64Table)

/-- The values of characters: their places in the table. -/
def tableValues (l : List UInt8) : List ℕ := l.map fun c => b64Table.idxOf c

/-- A string with its terminator can be decoded with any length. -/
theorem holds_of_isCString {src : Buffer} {s : List UInt8} (h : IsCString src s) (len : ℕ) :
    Holds src (s ++ [0]) len := by
  obtain ⟨-, rest, rfl⟩ := h
  refine ⟨⟨rest, ?_⟩, Or.inr ⟨0, List.mem_append_right s (List.mem_singleton_self 0), by decide⟩⟩
  rw [ofBytes_append, List.append_assoc]
  rfl

/-- The loop goes on with the characters of the table. -/
theorem isChar_iff_mem {c : UInt8} : isChar c = true ↔ c ∈ b64Table := by
  constructor
  · intro h
    obtain ⟨hlt, hc⟩ := translate_of_isChar c h
    have hget := b64Table_eq _ hlt
    rw [hc] at hget
    exact List.mem_of_getElem? hget
  · intro h
    obtain ⟨v, hv⟩ := List.mem_iff_getElem?.mp h
    have hlt : v < 64 := (List.getElem?_eq_some_iff.mp hv).1
    obtain rfl : Base64.alphabet v = c := Option.some.inj ((b64Table_eq v hlt).symm.trans hv)
    exact (isChar_alphabet v hlt).1

/-- A character is translated to its place in the table. -/
theorem translate_toNat {c : UInt8} (h : c ∈ b64Table) :
    (translate c).toNat = b64Table.idxOf c := by
  have hlt : b64Table.idxOf c < 64 := List.idxOf_lt_length_of_mem h
  have hfind : b64Table.findIdx? (· == c) = some (b64Table.idxOf c) :=
    List.findIdx?_eq_some_of_exists ⟨c, h, beq_self_eq_true c⟩
  rw [translate, hfind, UInt8.toNat_ofNat', Nat.mod_eq_of_lt (by omega)]

theorem mem_table_of_mem_tablePrefix {s : List UInt8} {len : ℕ} {c : UInt8}
    (hc : c ∈ tablePrefix s len) : c ∈ b64Table := by
  have h : decide (c ∈ b64Table) = true :=
    List.mem_takeWhile_imp (p := fun a : UInt8 => decide (a ∈ b64Table)) hc
  exact of_decide_eq_true h

theorem vals_tablePrefix (s : List UInt8) (len : ℕ) :
    vals (tablePrefix s len) = tableValues (tablePrefix s len) :=
  List.map_congr_left fun _ hc => translate_toNat (mem_table_of_mem_tablePrefix hc)

theorem isChar_of_mem_tablePrefix {s : List UInt8} {len : ℕ} :
    ∀ c ∈ tablePrefix s len, isChar c = true := fun _ hc =>
  isChar_iff_mem.mpr (mem_table_of_mem_tablePrefix hc)

/-- **Where the loop stops**: at the length, or at a character that is not in the table. -/
theorem Holds.stop {src : Buffer} {s : List UInt8} {len : ℕ} (h : Holds src s len) :
    ∃ rest, src = ofBytes (tablePrefix s len) ++ rest
      ∧ (len = (tablePrefix s len).length ∨ ((tablePrefix s len).length < len
        ∧ ∃ c rest', rest = some c :: rest' ∧ isChar c = false)) := by
  obtain ⟨rest, rfl⟩ := h.begins
  have hsplit : tablePrefix s len ++ (s.take len).dropWhile (· ∈ b64Table) = s.take len :=
    List.takeWhile_append_dropWhile
  have hs : s = tablePrefix s len ++ ((s.take len).dropWhile (· ∈ b64Table) ++ s.drop len) := by
    rw [← List.append_assoc, hsplit, List.take_append_drop]
  have hlen := congrArg List.length hsplit
  rw [List.length_append, List.length_take] at hlen
  refine ⟨ofBytes ((s.take len).dropWhile (· ∈ b64Table) ++ s.drop len) ++ rest, ?_, ?_⟩
  · rw [← List.append_assoc, ← ofBytes_append, ← hs]
  cases hd : (s.take len).dropWhile (· ∈ b64Table) with
  | nil =>
    -- all of the first `len` characters are in the table, so there are `len`
    rw [hd, List.append_nil] at hsplit
    rw [hd, List.length_nil, Nat.add_zero] at hlen
    refine Or.inl ?_
    rcases h.ends with hle | ⟨c, hc, hout⟩
    · omega
    · by_cases hle : len ≤ s.length
      · omega
      · rw [List.take_of_length_le (Nat.le_of_not_le hle)] at hsplit
        have hmem : c ∈ tablePrefix s len := by rwa [hsplit]
        exact absurd (mem_table_of_mem_tablePrefix hmem) hout
  | cons c d =>
    rw [hd, List.length_cons] at hlen
    have hc : isChar c = false := by
      have hne : (s.take len).dropWhile (· ∈ b64Table) ≠ [] := by
        rw [hd]
        exact List.cons_ne_nil c d
      have hhead := List.head_dropWhile_not (fun c : UInt8 => decide (c ∈ b64Table)) hne
      simp only [hd, List.head_cons] at hhead
      rw [Bool.eq_false_iff, Ne, isChar_iff_mem]
      exact of_decide_eq_false hhead
    exact Or.inr ⟨by omega, c, ofBytes (d ++ s.drop len) ++ rest, rfl, hc⟩

/-- **The decoder on any string.** It succeeds, inside its allocations, with a result that
depends only on the longest prefix of characters of the table: of `m` characters,
`3 * (m / 4)` bytes and one less than are left over, which are the leading bits of the
characters' values, and a zero byte after them. -/
theorem b64DecodeEx_prefix {src : Buffer} {s : List UInt8} {len : ℕ} (h : Holds src s len) :
    (∃ out : List UInt8, b64DecodeEx src len = some (ofBytes out ++ [some 0], out.length)
      ∧ out.length = 3 * ((tablePrefix s len).length / 4) + ((tablePrefix s len).length % 4 - 1)
      ∧ Base64.bytesBits out
        = (Base64.sextetBits (tableValues (tablePrefix s len))).take (8 * out.length))
    ∧ ∀ src' s' len', Holds src' s' len' → tablePrefix s' len' = tablePrefix s len →
      b64DecodeEx src' len' = b64DecodeEx src len := by
  have hdecode : ∀ {src : Buffer} {s : List UInt8} {len : ℕ}, Holds src s len →
      b64DecodeEx src len
        = some (ofBytes (Base64.decode (tableValues (tablePrefix s len))) ++ [some 0],
          (Base64.decode (tableValues (tablePrefix s len))).length) := by
    intro src s len h
    obtain ⟨rest, hsrc, hstop⟩ := h.stop
    have hdec := b64DecodeEx_eq isChar_of_mem_tablePrefix hstop
    rwa [← hsrc, vals_tablePrefix] at hdec
  refine ⟨⟨_, hdecode h, ?_, Base64.bytesBits_decode _⟩, fun src' s' len' h' heq => ?_⟩
  · rw [Base64.length_decode, tableValues, List.length_map]
  · rw [hdecode h', hdecode h, heq]

/-- Five characters and then another: the byte of the last one needs more than its six
bits. -/
theorem b64DecodeEx_prefix_foreign :
    (∃ out : List UInt8,
      b64DecodeEx (ofBytes [0x54, 0x57, 0x46, 0x75, 0x54, 0x2d, 0x51, 0]) 7
        = some (ofBytes out ++ [some 0], out.length)
      ∧ out.length = 3 * ((tablePrefix [0x54, 0x57, 0x46, 0x75, 0x54, 0x2d, 0x51, 0] 7).length / 4)
        + ((tablePrefix [0x54, 0x57, 0x46, 0x75, 0x54, 0x2d, 0x51, 0] 7).length % 4 - 1)
      ∧ Base64.bytesBits out = (Base64.sextetBits (tableValues
        (tablePrefix [0x54, 0x57, 0x46, 0x75, 0x54, 0x2d, 0x51, 0] 7))).take (8 * out.length))
    ∧ ∀ src' s' len', Holds src' s' len' →
      tablePrefix s' len' = tablePrefix [0x54, 0x57, 0x46, 0x75, 0x54, 0x2d, 0x51, 0] 7 →
      b64DecodeEx src' len'
        = b64DecodeEx (ofBytes [0x54, 0x57, 0x46, 0x75, 0x54, 0x2d, 0x51, 0]) 7 :=
  b64DecodeEx_prefix ⟨⟨[], (List.append_nil _).symm⟩, Or.inl (by decide)⟩

example : (b64DecodeEx (ofBytes [0x54, 0x57, 0x46, 0x75, 0x54, 0x2d, 0x51, 0]) 7).map Prod.snd
    = some 3 := by decide

end B64
