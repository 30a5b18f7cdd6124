import Mathlib.Data.List.Basic
import Mathlib.Data.Nat.Bitwise
import Mathlib.Tactic.Ring

/-!
# Base 64

The encoding of RFC 4648 on strings of bits. The bytes are concatenated, highest bit
first, the bits are cut into groups of six, the last of which is filled with zeros, and
each group is a character of the alphabet; as many `=` follow as fill the last four
characters (`Base64.encode`). A decoder reads the characters' values as bits again and
keeps the whole bytes (`Base64.decode`).

`encode_cons` and `decode_cons` are the same two maps three bytes, or four characters, at
a time, which is how programs compute them; `decode_sextets` is the round trip.
-/

namespace Base64

/-! ## Strings of bits -/

/-- The `w` lowest bits of a number, highest first. -/
def toBits : ℕ → ℕ → List Bool
  | 0, _ => []
  | w + 1, v => v.testBit w :: toBits w v

/-- The number with given bits, highest first. -/
def ofBits : List Bool → ℕ
  | [] => 0
  | b :: l => b.toNat * 2 ^ l.length + ofBits l

@[simp] theorem length_toBits (w v : ℕ) : (toBits w v).length = w := by
  induction w with
  | zero => rfl
  | succ w ih => rw [toBits, List.length_cons, ih]

theorem ofBits_append (l l' : List Bool) :
    ofBits (l ++ l') = ofBits l * 2 ^ l'.length + ofBits l' := by
  induction l with
  | nil => rw [List.nil_append, ofBits, Nat.zero_mul, Nat.zero_add]
  | cons b l ih =>
    rw [List.cons_append, ofBits, ofBits, ih, List.length_append, pow_add]
    ring

theorem ofBits_lt (l : List Bool) : ofBits l < 2 ^ l.length := by
  induction l with
  | nil => exact Nat.one_pos
  | cons b l ih =>
    have hb : b.toNat * 2 ^ l.length ≤ 2 ^ l.length :=
      (Nat.mul_le_mul_right _ (Bool.toNat_le b)).trans (Nat.one_mul _).le
    rw [ofBits, List.length_cons, pow_succ]
    omega

theorem ofBits_toBits_mod (w v : ℕ) : ofBits (toBits w v) = v % 2 ^ w := by
  induction w with
  | zero => rw [toBits, ofBits, pow_zero, Nat.mod_one]
  | succ w ih =>
    rw [toBits, ofBits, ih, length_toBits, Nat.testBit_eq_decide_div_mod_eq, Nat.pow_succ,
      Nat.mod_mul]
    have hb : (decide (v / 2 ^ w % 2 = 1)).toNat = v / 2 ^ w % 2 := by
      rcases Nat.mod_two_eq_zero_or_one (v / 2 ^ w) with h | h <;> rw [h] <;> rfl
    rw [hb, Nat.mul_comm, Nat.add_comm]

/-- A number is its bits, when they are wide enough. -/
theorem ofBits_toBits {w v : ℕ} (h : v < 2 ^ w) : ofBits (toBits w v) = v :=
  (ofBits_toBits_mod w v).trans (Nat.mod_eq_of_lt h)

/-- **Strings of bits of one length are told apart by their numbers.** -/
theorem ofBits_inj {l l' : List Bool} (hlen : l.length = l'.length) (h : ofBits l = ofBits l') :
    l = l' := by
  induction l generalizing l' with
  | nil => exact (List.length_eq_zero_iff.mp hlen.symm).symm
  | cons b l ih =>
    obtain ⟨b', l', rfl⟩ := List.exists_cons_of_length_eq_add_one hlen.symm
    have hl : l.length = l'.length := Nat.succ.inj hlen
    have h1 := ofBits_lt l
    have h2 := ofBits_lt l'
    rw [ofBits, ofBits, ← hl] at h
    rw [← hl] at h2
    have hb : b = b' := by
      cases b <;> cases b' <;>
        first | rfl | (simp only [Bool.toNat_true, Bool.toNat_false] at h; omega)
    rw [hb] at h ⊢
    rw [ih hl (Nat.add_left_cancel h)]

/-! ## Groups -/

/-- A list cut into groups of `n`, the last of which may be shorter. -/
def groups (n : ℕ) (l : List Bool) : List (List Bool) :=
  if l = [] ∨ n = 0 then [] else l.take n :: groups n (l.drop n)
termination_by l.length
decreasing_by
  rename_i h
  rw [not_or] at h
  rw [List.length_drop]
  exact Nat.sub_lt (List.length_pos_of_ne_nil h.1) (Nat.pos_of_ne_zero h.2)

@[simp] theorem groups_nil (n : ℕ) : groups n [] = [] := by
  rw [groups, if_pos (Or.inl rfl)]

/-- A first group of full length. -/
theorem groups_append {n : ℕ} (hn : 0 < n) {g : List Bool} (hg : g.length = n) (l : List Bool) :
    groups n (g ++ l) = g :: groups n l := by
  have hne : g ++ l ≠ [] := fun h => by
    have := congrArg List.length h
    rw [List.length_append, hg, List.length_nil] at this
    omega
  rw [groups, if_neg (not_or.mpr ⟨hne, hn.ne'⟩), ← hg, List.take_left, List.drop_left]

/-- A last group. -/
theorem groups_of_length_le {n : ℕ} {l : List Bool} (h0 : 0 < l.length) (h : l.length ≤ n) :
    groups n l = [l] := by
  rw [groups, if_neg (not_or.mpr ⟨List.ne_nil_of_length_pos h0, (h0.trans_le h).ne'⟩),
    List.take_of_length_le h, List.drop_of_length_le h, groups_nil]

/-! ## The encoding -/

/-- The alphabet: capital letters, small letters, digits, `+` and `/`. -/
def alphabet (v : ℕ) : UInt8 :=
  if v < 26 then UInt8.ofNat (65 + v)
  else if v < 52 then UInt8.ofNat (97 + (v - 26))
  else if v < 62 then UInt8.ofNat (48 + (v - 52))
  else if v = 62 then 43 else 47

/-- The padding character `=`. -/
def pad : UInt8 := 61

/-- The bits of a string of bytes. -/
def bytesBits (b : List UInt8) : List Bool := b.flatMap fun c => toBits 8 c.toNat

/-- The groups of six bits, the last one filled with zeros, as numbers. -/
def sextets (b : List UInt8) : List ℕ :=
  (groups 6 (bytesBits b)).map fun g => ofBits (g ++ List.replicate (6 - g.length) false)

/-- **The encoding of a string of bytes.** -/
def encode (b : List UInt8) : List UInt8 :=
  (sextets b).map alphabet ++ List.replicate ((4 - (sextets b).length % 4) % 4) pad

/-- The bits of a string of values of characters. -/
def sextetBits (vs : List ℕ) : List Bool := vs.flatMap (toBits 6)

/-- **The whole bytes of the bits of a string of values.** -/
def decode (vs : List ℕ) : List UInt8 :=
  ((groups 8 (sextetBits vs)).filter fun g => g.length = 8).map fun g => UInt8.ofNat (ofBits g)

/-! ## Three bytes, four characters at a time -/

theorem ofBits_replicate_false (n : ℕ) : ofBits (List.replicate n false) = 0 := by
  induction n with
  | zero => rfl
  | succ n ih => rw [List.replicate_succ, ofBits, ih, Bool.toNat_false, Nat.zero_mul]

/-- A group filled up with zeros. -/
theorem ofBits_fill {k v : ℕ} (hv : v < 2 ^ k) :
    ofBits (toBits k v ++ List.replicate (6 - (toBits k v).length) false) = v * 2 ^ (6 - k) := by
  rw [ofBits_append, ofBits_toBits hv, ofBits_replicate_false, List.length_replicate,
    length_toBits, Nat.add_zero]

theorem bytesBits_cons (a : UInt8) (l : List UInt8) :
    bytesBits (a :: l) = toBits 8 a.toNat ++ bytesBits l := List.flatMap_cons

theorem sextetBits_cons (v : ℕ) (vs : List ℕ) :
    sextetBits (v :: vs) = toBits 6 v ++ sextetBits vs := List.flatMap_cons

@[simp] theorem sextets_nil : sextets [] = [] := by
  rw [sextets, bytesBits, List.flatMap_nil, groups_nil, List.map_nil]

/-- The characters of one last byte. -/
theorem sextets_one (a : UInt8) : sextets [a] = [a.toNat / 4, a.toNat % 4 * 16] := by
  have ha := a.toNat_lt
  have hbits : bytesBits [a] = toBits 6 (a.toNat / 4) ++ toBits 2 (a.toNat % 4) := by
    rw [bytesBits_cons, bytesBits, List.flatMap_nil, List.append_nil]
    refine ofBits_inj (by simp) ?_
    rw [ofBits_append, ofBits_toBits (by omega), ofBits_toBits (by omega), ofBits_toBits (by omega),
      length_toBits]
    omega
  rw [sextets, hbits, groups_append (by decide) (length_toBits _ _),
    groups_of_length_le (by rw [length_toBits]; decide) (by rw [length_toBits]; decide),
    List.map_cons, List.map_cons, List.map_nil, ofBits_fill (by omega), ofBits_fill (by omega)]
  simp

/-- The characters of two last bytes. -/
theorem sextets_two (a b : UInt8) :
    sextets [a, b] = [a.toNat / 4, a.toNat % 4 * 16 + b.toNat / 16, b.toNat % 16 * 4] := by
  have ha := a.toNat_lt
  have hb := b.toNat_lt
  have hbits : bytesBits [a, b] = toBits 6 (a.toNat / 4)
      ++ (toBits 6 (a.toNat % 4 * 16 + b.toNat / 16) ++ toBits 4 (b.toNat % 16)) := by
    rw [bytesBits_cons, bytesBits_cons, bytesBits, List.flatMap_nil, List.append_nil]
    refine ofBits_inj (by simp) ?_
    rw [ofBits_append, ofBits_append, ofBits_append, ofBits_toBits (by omega),
      ofBits_toBits (by omega), ofBits_toBits (by omega), ofBits_toBits (by omega),
      ofBits_toBits (by omega), List.length_append, length_toBits, length_toBits, length_toBits]
    omega
  rw [sextets, hbits, groups_append (by decide) (length_toBits _ _),
    groups_append (by decide) (length_toBits _ _),
    groups_of_length_le (by rw [length_toBits]; decide) (by rw [length_toBits]; decide),
    List.map_cons, List.map_cons, List.map_cons, List.map_nil, ofBits_fill (by omega),
    ofBits_fill (by omega), ofBits_fill (by omega)]
  simp

/-- **The characters of the first three bytes.** -/
theorem sextets_cons (a b c : UInt8) (l : List UInt8) :
    sextets (a :: b :: c :: l) = a.toNat / 4 :: (a.toNat % 4 * 16 + b.toNat / 16)
      :: (b.toNat % 16 * 4 + c.toNat / 64) :: c.toNat % 64 :: sextets l := by
  have ha := a.toNat_lt
  have hb := b.toNat_lt
  have hc := c.toNat_lt
  have hbits : bytesBits (a :: b :: c :: l) = toBits 6 (a.toNat / 4)
      ++ (toBits 6 (a.toNat % 4 * 16 + b.toNat / 16)
      ++ (toBits 6 (b.toNat % 16 * 4 + c.toNat / 64)
      ++ (toBits 6 (c.toNat % 64) ++ bytesBits l))) := by
    rw [bytesBits_cons, bytesBits_cons, bytesBits_cons, ← List.append_assoc, ← List.append_assoc,
      ← List.append_assoc, ← List.append_assoc, ← List.append_assoc]
    refine congrArg (· ++ bytesBits l) (ofBits_inj (by simp) ?_)
    simp only [ofBits_append, length_toBits]
    rw [ofBits_toBits (by omega), ofBits_toBits (by omega), ofBits_toBits (by omega),
      ofBits_toBits (by omega), ofBits_toBits (by omega), ofBits_toBits (by omega),
      ofBits_toBits (by omega)]
    omega
  rw [sextets, hbits, groups_append (by decide) (length_toBits _ _),
    groups_append (by decide) (length_toBits _ _), groups_append (by decide) (length_toBits _ _),
    groups_append (by decide) (length_toBits _ _), List.map_cons, List.map_cons, List.map_cons,
    List.map_cons, ofBits_fill (by omega), ofBits_fill (by omega), ofBits_fill (by omega),
    ofBits_fill (by omega)]
  simp only [Nat.sub_self, pow_zero, Nat.mul_one]
  rfl

/-- The characters of one or two last bytes are the first of those of the bytes filled up
with zeros. -/
theorem sextets_eq_take {b : List UInt8} (h0 : 0 < b.length) (h : b.length < 3) :
    sextets b = (sextets (b ++ List.replicate (3 - b.length) 0)).take (b.length + 1) := by
  match b, h0, h with
  | [a], _, _ =>
    show sextets [a] = (sextets [a, 0, 0]).take 2
    rw [sextets_one, sextets_cons]
    rfl
  | [a, b], _, _ =>
    show sextets [a, b] = (sextets [a, b, 0]).take 3
    rw [sextets_two, sextets_cons]
    rfl

/-- The bytes of the whole groups of eight bits. -/
def wholeBytes (l : List Bool) : List UInt8 :=
  ((groups 8 l).filter fun g => g.length = 8).map fun g => UInt8.ofNat (ofBits g)

theorem wholeBytes_of_length_lt {l : List Bool} (h : l.length < 8) : wholeBytes l = [] := by
  unfold wholeBytes
  rcases Nat.eq_zero_or_pos l.length with h0 | h0
  · rw [List.length_eq_zero_iff.mp h0, groups_nil, List.filter_nil, List.map_nil]
  · rw [groups_of_length_le h0 h.le, List.filter_cons_of_neg (by simp; omega), List.filter_nil,
      List.map_nil]

theorem wholeBytes_append {g : List Bool} (hg : g.length = 8) (l : List Bool) :
    wholeBytes (g ++ l) = UInt8.ofNat (ofBits g) :: wholeBytes l := by
  unfold wholeBytes
  rw [groups_append (by decide) hg, List.filter_cons_of_pos (by simp [hg]), List.map_cons]

/-- Fewer bits than a byte decode to nothing. -/
theorem decode_eq_nil {vs : List ℕ} (h : (sextetBits vs).length < 8) : decode vs = [] :=
  wholeBytes_of_length_lt h

/-- A byte taken off the bits of a string of values. -/
theorem decode_of_sextetBits {vs : List ℕ} {v : ℕ} {l : List Bool} (hv : v < 256)
    (h : sextetBits vs = toBits 8 v ++ l) : decode vs = UInt8.ofNat v :: wholeBytes l := by
  have hbyte := wholeBytes_append (length_toBits 8 v) l
  rw [← h, ofBits_toBits hv] at hbyte
  exact hbyte

@[simp] theorem decode_nil : decode [] = [] := decode_eq_nil (by decide)

theorem decode_one (v : ℕ) : decode [v] = [] :=
  decode_eq_nil (by rw [sextetBits_cons, List.length_append, length_toBits]; decide)

/-- The byte of two last characters. -/
theorem decode_two {v w : ℕ} (hv : v < 64) (hw : w < 64) :
    decode [v, w] = [UInt8.ofNat (v * 4 + w / 16)] := by
  have hbits : sextetBits [v, w] = toBits 8 (v * 4 + w / 16) ++ toBits 4 (w % 16) := by
    rw [sextetBits_cons, sextetBits_cons, sextetBits, List.flatMap_nil, List.append_nil]
    refine ofBits_inj (by simp) ?_
    rw [ofBits_append, ofBits_append, ofBits_toBits (by omega), ofBits_toBits (by omega),
      ofBits_toBits (by omega), ofBits_toBits (by omega), length_toBits, length_toBits]
    omega
  rw [decode_of_sextetBits (by omega) hbits,
    wholeBytes_of_length_lt (by rw [length_toBits]; decide)]

/-- The bytes of three last characters. -/
theorem decode_three {v w y : ℕ} (hv : v < 64) (hw : w < 64) (hy : y < 64) :
    decode [v, w, y] = [UInt8.ofNat (v * 4 + w / 16), UInt8.ofNat (w % 16 * 16 + y / 4)] := by
  have hbits : sextetBits [v, w, y] = toBits 8 (v * 4 + w / 16)
      ++ (toBits 8 (w % 16 * 16 + y / 4) ++ toBits 2 (y % 4)) := by
    rw [sextetBits_cons, sextetBits_cons, sextetBits_cons, sextetBits, List.flatMap_nil,
      List.append_nil]
    refine ofBits_inj (by simp) ?_
    simp only [ofBits_append, length_toBits, List.length_append]
    rw [ofBits_toBits (by omega), ofBits_toBits (by omega), ofBits_toBits (by omega),
      ofBits_toBits (by omega), ofBits_toBits (by omega), ofBits_toBits (by omega)]
    omega
  rw [decode_of_sextetBits (by omega) hbits, wholeBytes_append (length_toBits 8 _),
    wholeBytes_of_length_lt (by rw [length_toBits]; decide), ofBits_toBits (by omega)]

/-- **The bytes of the first four characters.** -/
theorem decode_cons {v w y z : ℕ} (hv : v < 64) (hw : w < 64) (hy : y < 64) (hz : z < 64)
    (vs : List ℕ) :
    decode (v :: w :: y :: z :: vs) = UInt8.ofNat (v * 4 + w / 16)
      :: UInt8.ofNat (w % 16 * 16 + y / 4) :: UInt8.ofNat (y % 4 * 64 + z) :: decode vs := by
  have hbits : sextetBits (v :: w :: y :: z :: vs) = toBits 8 (v * 4 + w / 16)
      ++ (toBits 8 (w % 16 * 16 + y / 4) ++ (toBits 8 (y % 4 * 64 + z) ++ sextetBits vs)) := by
    rw [sextetBits_cons, sextetBits_cons, sextetBits_cons, sextetBits_cons, ← List.append_assoc,
      ← List.append_assoc, ← List.append_assoc, ← List.append_assoc, ← List.append_assoc]
    refine congrArg (· ++ sextetBits vs) (ofBits_inj (by simp) ?_)
    simp only [ofBits_append, length_toBits]
    rw [ofBits_toBits (by omega), ofBits_toBits (by omega), ofBits_toBits (by omega),
      ofBits_toBits (by omega), ofBits_toBits (by omega), ofBits_toBits (by omega),
      ofBits_toBits (by omega)]
    omega
  rw [decode_of_sextetBits (by omega) hbits, wholeBytes_append (length_toBits 8 _),
    wholeBytes_append (length_toBits 8 _), ofBits_toBits (by omega), ofBits_toBits (by omega)]
  rfl

/-- Four characters are three bytes, whatever follows them. -/
theorem decode_append {vs : List ℕ} (h : vs.length = 4) (hvs : ∀ v ∈ vs, v < 64) (l : List ℕ) :
    decode (vs ++ l) = decode vs ++ decode l ∧ (decode vs).length = 3 := by
  match vs, h, hvs with
  | [v, w, y, z], _, hvs =>
    simp only [List.forall_mem_cons] at hvs
    obtain ⟨hv, hw, hy, hz, -⟩ := hvs
    have hfour := decode_cons hv hw hy hz []
    rw [decode_nil] at hfour
    rw [hfour]
    exact ⟨decode_cons hv hw hy hz l, rfl⟩

/-- The bytes of one to three last characters are the first of those of the characters
filled up with zeros. -/
theorem decode_eq_take {vs : List ℕ} (h0 : 0 < vs.length) (h : vs.length < 4)
    (hvs : ∀ v ∈ vs, v < 64) :
    decode vs = (decode (vs ++ List.replicate (4 - vs.length) 0)).take (vs.length - 1) := by
  have hz : (0 : ℕ) < 64 := by decide
  match vs, h0, h, hvs with
  | [v], _, _, hvs =>
    show decode [v] = (decode [v, 0, 0, 0]).take 0
    rw [decode_one, List.take_zero]
  | [v, w], _, _, hvs =>
    simp only [List.forall_mem_cons] at hvs
    show decode [v, w] = (decode [v, w, 0, 0]).take 1
    rw [decode_two hvs.1 hvs.2.1, decode_cons hvs.1 hvs.2.1 hz hz]
    rfl
  | [v, w, y], _, _, hvs =>
    simp only [List.forall_mem_cons] at hvs
    show decode [v, w, y] = (decode [v, w, y, 0]).take 2
    rw [decode_three hvs.1 hvs.2.1 hvs.2.2.1, decode_cons hvs.1 hvs.2.1 hvs.2.2.1 hz]
    rfl

/-! ## Round trip and format -/

/-- The values of the characters are below 64. -/
theorem sextets_lt : ∀ (b : List UInt8), ∀ v ∈ sextets b, v < 64
  | [] => fun _ h => absurd h (by rw [sextets_nil]; exact List.not_mem_nil)
  | [a] => by
    have ha := a.toNat_lt
    rw [sextets_one]
    simp only [List.forall_mem_cons]
    exact ⟨by omega, by omega, fun _ h => absurd h List.not_mem_nil⟩
  | [a, b] => by
    have ha := a.toNat_lt
    have hb := b.toNat_lt
    rw [sextets_two]
    simp only [List.forall_mem_cons]
    exact ⟨by omega, by omega, by omega, fun _ h => absurd h List.not_mem_nil⟩
  | a :: b :: c :: l => by
    have ha := a.toNat_lt
    have hb := b.toNat_lt
    have hc := c.toNat_lt
    rw [sextets_cons]
    simp only [List.forall_mem_cons]
    exact ⟨by omega, by omega, by omega, by omega, sextets_lt l⟩

/-- **The round trip**: the values of the characters decode to the bytes. -/
theorem decode_sextets : ∀ b : List UInt8, decode (sextets b) = b
  | [] => by rw [sextets_nil, decode_nil]
  | [a] => by
    have ha := a.toNat_lt
    rw [sextets_one, decode_two (by omega) (by omega),
      show a.toNat / 4 * 4 + a.toNat % 4 * 16 / 16 = a.toNat by omega, UInt8.ofNat_toNat]
  | [a, b] => by
    have ha := a.toNat_lt
    have hb := b.toNat_lt
    rw [sextets_two, decode_three (by omega) (by omega) (by omega),
      show a.toNat / 4 * 4 + (a.toNat % 4 * 16 + b.toNat / 16) / 16 = a.toNat by omega,
      show (a.toNat % 4 * 16 + b.toNat / 16) % 16 * 16 + b.toNat % 16 * 4 / 4 = b.toNat by omega,
      UInt8.ofNat_toNat, UInt8.ofNat_toNat]
  | a :: b :: c :: l => by
    have ha := a.toNat_lt
    have hb := b.toNat_lt
    have hc := c.toNat_lt
    rw [sextets_cons, decode_cons (by omega) (by omega) (by omega) (by omega), decode_sextets l,
      show a.toNat / 4 * 4 + (a.toNat % 4 * 16 + b.toNat / 16) / 16 = a.toNat by omega,
      show (a.toNat % 4 * 16 + b.toNat / 16) % 16 * 16
        + (b.toNat % 16 * 4 + c.toNat / 64) / 4 = b.toNat by omega,
      show (b.toNat % 16 * 4 + c.toNat / 64) % 4 * 64 + c.toNat % 64 = c.toNat by omega,
      UInt8.ofNat_toNat, UInt8.ofNat_toNat, UInt8.ofNat_toNat]

theorem length_sextets : ∀ b : List UInt8, (sextets b).length = (4 * b.length + 2) / 3
  | [] => by rw [sextets_nil]; rfl
  | [a] => by rw [sextets_one]; simp only [List.length_cons, List.length_nil]
  | [a, b] => by rw [sextets_two]; simp only [List.length_cons, List.length_nil]
  | a :: b :: c :: l => by
    rw [sextets_cons]
    simp only [List.length_cons]
    rw [length_sextets l]
    omega

@[simp] theorem encode_nil : encode [] = [] := by
  rw [encode, sextets_nil]
  rfl

/-- The encoding of the first three bytes. -/
theorem encode_cons (a b c : UInt8) (l : List UInt8) :
    encode (a :: b :: c :: l) = (sextets [a, b, c]).map alphabet ++ encode l := by
  rw [encode, encode, sextets_cons, sextets_cons, sextets_nil, ← List.append_assoc,
    ← List.map_append]
  simp only [List.length_cons, Nat.add_mod_right, Nat.add_assoc, Nat.reduceAdd]
  rfl

/-- The encoding of one or two last bytes. -/
theorem encode_of_length_lt {b : List UInt8} (h0 : 0 < b.length) (h : b.length < 3) :
    encode b = (sextets b).map alphabet ++ List.replicate (3 - b.length) pad := by
  have hpad : ∀ n < 3, 0 < n → (4 - (4 * n + 2) / 3 % 4) % 4 = 3 - n := by decide
  rw [encode, length_sextets, hpad b.length h h0]

/-- **Four characters for every three bytes**, begun or not. -/
theorem length_encode (b : List UInt8) : (encode b).length = 4 * ((b.length + 2) / 3) := by
  rw [encode, List.length_append, List.length_map, List.length_replicate, length_sextets]
  omega

/-- **Every character is of the alphabet, but for padding in the last two places.** -/
theorem encode_format {b : List UInt8} {i : ℕ} {c : UInt8} (h : (encode b)[i]? = some c) :
    (∃ v < 64, c = alphabet v) ∨ (c = pad ∧ (encode b).length ≤ i + 2) := by
  have hlen := length_encode b
  have hsextets := length_sextets b
  rw [encode] at h
  by_cases hi : i < (sextets b).length
  · rw [List.getElem?_append_left (by rwa [List.length_map]), List.getElem?_map,
      List.getElem?_eq_getElem hi] at h
    exact Or.inl ⟨(sextets b)[i], sextets_lt b _ (List.getElem_mem hi), (Option.some.inj h).symm⟩
  · rw [List.getElem?_append_right (by rw [List.length_map]; omega)] at h
    have hmem := List.mem_of_getElem? h
    exact Or.inr ⟨List.eq_of_mem_replicate hmem, by omega⟩

theorem alphabet_ne_zero {v : ℕ} (hv : v < 64) : alphabet v ≠ 0 := by
  revert v
  decide

/-- No character is the zero byte. -/
theorem encode_ne_zero (b : List UInt8) : ∀ c ∈ encode b, c ≠ 0 := by
  intro c hc
  obtain ⟨i, hi⟩ := List.mem_iff_getElem?.mp hc
  rcases encode_format hi with ⟨v, hv, rfl⟩ | ⟨rfl, -⟩
  · exact alphabet_ne_zero hv
  · decide

/-! ## The bits that are decoded -/

/-- A string of bits is the bits of its number. -/
theorem toBits_ofBits (l : List Bool) : toBits l.length (ofBits l) = l :=
  ofBits_inj (length_toBits _ _) (ofBits_toBits (ofBits_lt l))

@[simp] theorem length_sextetBits (vs : List ℕ) : (sextetBits vs).length = 6 * vs.length := by
  induction vs with
  | nil => rfl
  | cons v vs ih =>
    rw [sextetBits_cons, List.length_append, length_toBits, ih, List.length_cons]
    ring

/-- **The bytes of a string of bits are its leading bits**, as many as fill whole bytes. -/
theorem bytesBits_wholeBytes (l : List Bool) :
    (wholeBytes l).length = l.length / 8
      ∧ bytesBits (wholeBytes l) = l.take (8 * (l.length / 8)) := by
  induction hn : l.length / 8 generalizing l with
  | zero =>
    rw [wholeBytes_of_length_lt (by omega)]
    exact ⟨rfl, (List.take_zero).symm⟩
  | succ n ih =>
    have htake : (l.take 8).length = 8 := by rw [List.length_take]; omega
    have hdrop := ih (l.drop 8) (by rw [List.length_drop]; omega)
    have hsplit : l = l.take 8 ++ l.drop 8 := (List.take_append_drop 8 l).symm
    have hbyte : toBits 8 (UInt8.ofNat (ofBits (l.take 8))).toNat = l.take 8 := by
      have hlt := ofBits_lt (l.take 8)
      rw [htake] at hlt
      rw [UInt8.toNat_ofNat', Nat.mod_eq_of_lt hlt]
      have h := toBits_ofBits (l.take 8)
      rwa [htake] at h
    rw [hsplit, wholeBytes_append htake, List.length_cons, bytesBits_cons, hdrop.1, hdrop.2, hbyte,
      show 8 * (n + 1) = (l.take 8).length + 8 * n by omega, List.take_length_add_append]
    exact ⟨rfl, rfl⟩

/-- The number of bytes of `m` characters: three for every four, and one less than are left
over. -/
theorem length_decode (vs : List ℕ) :
    (decode vs).length = 3 * (vs.length / 4) + (vs.length % 4 - 1) := by
  have h := (bytesBits_wholeBytes (sextetBits vs)).1
  rw [length_sextetBits] at h
  exact h.trans (by omega)

/-- **The decoded bytes are the leading bits of the values.** -/
theorem bytesBits_decode (vs : List ℕ) :
    bytesBits (decode vs) = (sextetBits vs).take (8 * (decode vs).length) := by
  have h := bytesBits_wholeBytes (sextetBits vs)
  have hlen : (decode vs).length = (sextetBits vs).length / 8 := h.1
  rw [hlen]
  exact h.2

end Base64
