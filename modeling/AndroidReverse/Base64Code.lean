import Mathlib.Data.FinEnum
import AndroidReverse.Base64
import AndroidReverse.ByteBuffer

/-!
# The encoder and decoder of `base64.c`

`b64_encode` and `b64_decode_ex` as the file computes them: a loop that collects characters
in `tmp`, translates a full `tmp` into `buf` and appends `buf` to an allocation that is
grown for it, and after the loop the remainder in `tmp`. Every access to `src`, `tmp`,
the table and the allocation is one to a buffer with bounds, so that a result is also
the statement that the accesses stayed inside. An allocation is taken to succeed, and
`isalnum` is that of the C locale.

The encoder computes the encoding of RFC 4648 (`b64Encode_eq`), the decoder the bytes of
the longest prefix of characters of the alphabet (`b64DecodeEx_eq`), so the second undoes
the first (`b64DecodeEx_b64Encode`).
-/

open Buffer

namespace B64

/-- The array `b64_table`. -/
def b64Table : List UInt8 :=
  ['A', 'B', 'C', 'D', 'E', 'F', 'G', 'H',
   'I', 'J', 'K', 'L', 'M', 'N', 'O', 'P',
   'Q', 'R', 'S', 'T', 'U', 'V', 'W', 'X',
   'Y', 'Z', 'a', 'b', 'c', 'd', 'e', 'f',
   'g', 'h', 'i', 'j', 'k', 'l', 'm', 'n',
   'o', 'p', 'q', 'r', 's', 't', 'u', 'v',
   'w', 'x', 'y', 'z', '0', '1', '2', '3',
   '4', '5', '6', '7', '8', '9', '+', '/'].map fun c => UInt8.ofNat c.toNat

/-! ## The encoder -/

/-- The variables of `b64_encode`. -/
structure EncodeState where
  i : ℕ
  tmp : Buffer
  enc : Buffer
  size : ℕ

/-- `buf`, from `tmp`. -/
def encodeBuf (tmp : Buffer) : Option (List UInt8) := do
  let t0 ← tmp.read 0
  let t1 ← tmp.read 1
  let t2 ← tmp.read 2
  return [(t0 &&& 0xfc) >>> 2,
    ((t0 &&& 0x03) <<< 4) + ((t1 &&& 0xf0) >>> 4),
    ((t1 &&& 0x0f) <<< 2) + ((t2 &&& 0xc0) >>> 6),
    t2 &&& 0x3f]

/-- The characters of `buf`, `b64_table[buf[j]]` each. -/
def tableChars (buf : List UInt8) : Option (List UInt8) := buf.mapM fun v => b64Table[v.toNat]?

/-- The body of the loop of `b64_encode`, on the character read. -/
def encodeStep (c : UInt8) (s : EncodeState) : Option EncodeState := do
  let tmp ← write s.tmp s.i c
  if s.i + 1 = 3 then
    let buf ← encodeBuf tmp
    let chars ← tableChars buf
    let enc ← writes (realloc s.enc (s.size + 4)) s.size chars
    return { i := 0, tmp := tmp, enc := enc, size := s.size + 4 }
  else
    return { s with i := s.i + 1, tmp := tmp }

/-- The loop of `b64_encode`, `k` characters into `src`. -/
def encodeLoop (src : Buffer) : (len k : ℕ) → EncodeState → Option EncodeState
  | 0, _, s => some s
  | len + 1, k, s => do
    let c ← read src k
    let s ← encodeStep c s
    encodeLoop src len (k + 1) s

/-- A loop that grows the allocation by one for each character it appends. -/
def pushes (b : Buffer) (size : ℕ) : List UInt8 → Option (Buffer × ℕ)
  | [] => some (b, size)
  | c :: l => do
    let b ← write (realloc b (size + 1)) size c
    pushes b (size + 1) l

/-- The remainder after the loop of `b64_encode`. -/
def encodeRemainder (s : EncodeState) : Option (Buffer × ℕ) :=
  if s.i > 0 then do
    let tmp ← memset s.tmp s.i 0 (3 - s.i)
    let buf ← encodeBuf tmp
    let chars ← tableChars (buf.take (s.i + 1))
    let (enc, size) ← pushes s.enc s.size chars
    pushes enc size (List.replicate (3 - s.i) 61)  -- `=`
  else
    some (s.enc, s.size)

/-- **`b64_encode(src, len)`**. -/
def b64Encode (src : Buffer) (len : ℕ) : Option Buffer := do
  let s ← encodeLoop src len 0 { i := 0, tmp := malloc 3, enc := malloc 0, size := 0 }
  let (enc, size) ← encodeRemainder s
  write (realloc enc (size + 1)) size 0

/-! ## The decoder -/

/-- The variables of `b64_decode_ex`. -/
structure DecodeState where
  i : ℕ
  j : ℕ
  tmp : Buffer
  dec : Buffer
  size : ℕ

/-- `isalnum(c)`, in the C locale. -/
def isalnum (c : UInt8) : Bool :=
  (48 ≤ c && c ≤ 57) || (65 ≤ c && c ≤ 90) || (97 ≤ c && c ≤ 122)

/-- The character is one the loop goes on with: neither of the two `break`s is taken. -/
def isChar (c : UInt8) : Bool := c != 61 && (isalnum c || c == 43 || c == 47)

/-- The index of a character in `b64_table`, or the character itself where it has none. -/
def translate (c : UInt8) : UInt8 :=
  match b64Table.findIdx? (· == c) with
  | some l => UInt8.ofNat l
  | none => c

/-- `tmp`, each of its four characters translated. -/
def translateTmp (tmp : Buffer) : Option Buffer := do
  let t ← reads tmp 0 4
  writes tmp 0 (t.map translate)

/-- `buf`, from a translated `tmp`. -/
def decodeBuf (tmp : Buffer) : Option (List UInt8) := do
  let t0 ← read tmp 0
  let t1 ← read tmp 1
  let t2 ← read tmp 2
  let t3 ← read tmp 3
  return [(t0 <<< 2) + ((t1 &&& 0x30) >>> 4),
    ((t1 &&& 0xf) <<< 4) + ((t2 &&& 0x3c) >>> 2),
    ((t2 &&& 0x3) <<< 6) + t3]

/-- The body of the loop of `b64_decode_ex`, on a character it goes on with. -/
def decodeStep (c : UInt8) (s : DecodeState) : Option DecodeState := do
  let tmp ← write s.tmp s.i c
  if s.i + 1 = 4 then
    let tmp ← translateTmp tmp
    let buf ← decodeBuf tmp
    let dec ← writes (realloc s.dec (s.size + 3)) s.size buf
    return { i := 0, j := s.j + 1, tmp := tmp, dec := dec, size := s.size + 3 }
  else
    return { s with i := s.i + 1, j := s.j + 1, tmp := tmp }

/-- The loop of `b64_decode_ex`. -/
def decodeLoop (src : Buffer) : (len : ℕ) → DecodeState → Option DecodeState
  | 0, s => some s
  | len + 1, s => do
    let c ← read src s.j
    if isChar c then
      let s ← decodeStep c s
      decodeLoop src len s
    else
      return s

/-- The remainder after the loop of `b64_decode_ex`. -/
def decodeRemainder (s : DecodeState) : Option (Buffer × ℕ) :=
  if s.i > 0 then do
    let tmp ← memset s.tmp s.i 0 (4 - s.i)
    let tmp ← translateTmp tmp
    let buf ← decodeBuf tmp
    let dec ← writes (realloc s.dec (s.size + (s.i - 1))) s.size (buf.take (s.i - 1))
    return (dec, s.size + (s.i - 1))
  else
    some (s.dec, s.size)

/-- **`b64_decode_ex(src, len, &decsize)`**: the allocation and `decsize`. -/
def b64DecodeEx (src : Buffer) (len : ℕ) : Option (Buffer × ℕ) := do
  let s ← decodeLoop src len { i := 0, j := 0, tmp := malloc 4, dec := malloc 0, size := 0 }
  let (dec, size) ← decodeRemainder s
  let dec ← write (realloc dec (size + 1)) size 0
  return (dec, size)

/-- `b64_decode(src, len)`. -/
def b64Decode (src : Buffer) (len : ℕ) : Option Buffer := do
  let (dec, _) ← b64DecodeEx src len
  return dec

/-! ## The encoder computes the encoding -/

theorem b64Table_eq : ∀ v < 64, b64Table[v]? = some (Base64.alphabet v) := by
  decide

/-- The characters of values below 64. -/
theorem tableChars_eq {buf : List UInt8} {vs : List ℕ} (h : buf.map UInt8.toNat = vs)
    (hv : ∀ v ∈ vs, v < 64) : tableChars buf = some (vs.map Base64.alphabet) := by
  induction buf generalizing vs with
  | nil => rw [← h]; rfl
  | cons c buf ih =>
    rw [← h, List.map_cons, List.forall_mem_cons] at hv
    have hc := b64Table_eq c.toNat hv.1
    have htail := ih rfl hv.2
    rw [tableChars] at htail
    rw [← h, tableChars, List.mapM_cons, hc, htail]
    rfl

/-- `buf` holds the four groups of six bits of the three bytes in `tmp`. -/
theorem encodeBuf_eq (a b c : UInt8) :
    ∃ buf, encodeBuf (ofBytes [a, b, c]) = some buf
      ∧ buf.map UInt8.toNat = Base64.sextets [a, b, c] := by
  have ha := a.toNat_lt
  have hb := b.toNat_lt
  have h0 : ∀ a : UInt8, ((a &&& 0xfc) >>> 2).toNat = a.toNat / 4 := by decide +kernel
  have h1 : ∀ a : UInt8, ((a &&& 0x03) <<< 4).toNat = a.toNat % 4 * 16 := by decide +kernel
  have h2 : ∀ a : UInt8, ((a &&& 0xf0) >>> 4).toNat = a.toNat / 16 := by decide +kernel
  have h3 : ∀ a : UInt8, ((a &&& 0x0f) <<< 2).toNat = a.toNat % 16 * 4 := by decide +kernel
  have h4 : ∀ a : UInt8, ((a &&& 0xc0) >>> 6).toNat = a.toNat / 64 := by decide +kernel
  have h5 : ∀ a : UInt8, (a &&& 0x3f).toNat = a.toNat % 64 := by decide +kernel
  refine ⟨_, rfl, ?_⟩
  rw [Base64.sextets_cons, Base64.sextets_nil]
  simp only [List.map_cons, List.map_nil, UInt8.toNat_add, h0, h1, h2, h3, h4, h5]
  have hc := c.toNat_lt
  rw [Nat.mod_eq_of_lt (show a.toNat % 4 * 16 + b.toNat / 16 < 2 ^ 8 by omega),
    Nat.mod_eq_of_lt (show b.toNat % 16 * 4 + c.toNat / 64 < 2 ^ 8 by omega)]

/-- The variables of the encoder: `done` is written and `pending` is in `tmp`. -/
structure EncodeInv (s : EncodeState) (done pending : List UInt8) : Prop where
  enc : s.enc = ofBytes done
  size : s.size = done.length
  i : s.i = pending.length
  pending_lt : pending.length < 3
  tmp : ∃ rest, s.tmp = ofBytes pending ++ rest ∧ pending.length + rest.length = 3

/-- **A round of the loop**: what is written and what is still to be encoded together
stay the same. -/
theorem encodeStep_inv {s : EncodeState} {done pending : List UInt8}
    (h : EncodeInv s done pending) (c : UInt8) :
    ∃ s' done' pending', encodeStep c s = some s' ∧ EncodeInv s' done' pending'
      ∧ ∀ l, done' ++ Base64.encode (pending' ++ l)
          = done ++ Base64.encode (pending ++ c :: l) := by
  have hlt := h.pending_lt
  obtain ⟨rest, htmp, hlen⟩ := h.tmp
  obtain ⟨o, rest, rfl⟩ : ∃ o rest', rest = o :: rest' :=
    List.exists_cons_of_length_pos (by omega)
  rw [List.length_cons] at hlen
  have hw : write s.tmp s.i c = some (ofBytes (pending ++ [c]) ++ rest) := by
    have hw := write_append (ofBytes pending) o rest c
    rw [length_ofBytes] at hw
    rw [htmp, h.i, hw, ofBytes_append, List.append_assoc]
    rfl
  by_cases hfull : pending.length + 1 = 3
  · -- the third byte: `tmp` is translated and written out
    obtain ⟨a, b, rfl⟩ := List.length_eq_two.mp (Nat.succ.inj hfull)
    rw [List.length_eq_zero_iff.mp (show rest.length = 0 by omega), List.append_nil] at hw
    obtain ⟨buf, hbuf, hvals⟩ := encodeBuf_eq a b c
    have hchars := tableChars_eq hvals (Base64.sextets_lt _)
    have hwrite := writes_realloc done ((Base64.sextets [a, b, c]).map Base64.alphabet)
    have hi : s.i + 1 = 3 := by rw [h.i, hfull]
    have hfour : ((Base64.sextets [a, b, c]).map Base64.alphabet).length = 4 := by
      rw [List.length_map, Base64.sextets_cons, Base64.sextets_nil]
      rfl
    rw [hfour] at hwrite
    refine ⟨⟨0, ofBytes [a, b, c], ofBytes (done ++ (Base64.sextets [a, b, c]).map Base64.alphabet),
      s.size + 4⟩, done ++ (Base64.sextets [a, b, c]).map Base64.alphabet, [], ?_,
      ⟨rfl, ?_, rfl, by decide, ofBytes [a, b, c], rfl, rfl⟩, fun l => ?_⟩
    · rw [encodeStep, hw]
      show (if s.i + 1 = 3 then (encodeBuf (ofBytes [a, b, c])).bind _ else _) = _
      rw [if_pos hi, hbuf]
      show (tableChars buf).bind _ = _
      rw [hchars, h.enc, h.size]
      show (writes (realloc (ofBytes done) (done.length + 4)) done.length _).bind _ = _
      rw [hwrite]
      rfl
    · rw [List.length_append, hfour, h.size]
    · rw [List.nil_append, List.append_assoc, ← Base64.encode_cons]
      rfl
  · refine ⟨{ s with i := s.i + 1, tmp := ofBytes (pending ++ [c]) ++ rest }, done, pending ++ [c],
      ?_, ⟨h.enc, h.size, ?_, ?_, rest, rfl, ?_⟩, fun l => ?_⟩
    · rw [encodeStep, hw, h.i]
      exact if_neg hfull
    · rw [List.length_append, h.i]
      rfl
    · rw [List.length_append, List.length_singleton]
      omega
    · rw [List.length_append, List.length_singleton]
      omega
    · rw [List.append_assoc]
      rfl

/-- **The loop of the encoder**, over the characters `l` after those before them. -/
theorem encodeLoop_inv (pre l : List UInt8) (rest : Buffer) {s : EncodeState}
    {done pending : List UInt8} (h : EncodeInv s done pending) :
    ∃ s' done' pending', encodeLoop (ofBytes (pre ++ l) ++ rest) l.length pre.length s = some s'
      ∧ EncodeInv s' done' pending'
      ∧ done' ++ Base64.encode pending' = done ++ Base64.encode (pending ++ l) := by
  induction l generalizing pre s done pending with
  | nil => exact ⟨s, done, pending, rfl, h, by rw [List.append_nil]⟩
  | cons c l ih =>
    obtain ⟨s₁, done₁, pending₁, hs₁, hinv₁, heq₁⟩ := encodeStep_inv h c
    obtain ⟨s₂, done₂, pending₂, hs₂, hinv₂, heq₂⟩ := ih (pre ++ [c]) hinv₁
    rw [List.append_assoc, List.length_append] at hs₂
    have hread : read (ofBytes (pre ++ c :: l) ++ rest) pre.length = some c := by
      rw [ofBytes_append, List.append_assoc]
      exact read_append_cons pre c _
    refine ⟨s₂, done₂, pending₂, ?_, hinv₂, heq₂.trans (heq₁ l)⟩
    rw [List.length_cons, encodeLoop, hread]
    show (encodeStep c s).bind _ = _
    rw [hs₁]
    exact hs₂

/-- Characters appended one at a time. -/
theorem pushes_eq (l l' : List UInt8) :
    pushes (ofBytes l) l.length l' = some (ofBytes (l ++ l'), (l ++ l').length) := by
  induction l' generalizing l with
  | nil => rw [List.append_nil]; rfl
  | cons c l' ih =>
    have hw : write (realloc (ofBytes l) (l.length + 1)) l.length c
      = some (ofBytes (l ++ [c])) := by
      have h := writes_realloc l [c]
      exact (Option.bind_fun_some _).symm.trans h
    have hl := ih (l ++ [c])
    rw [List.append_assoc, List.length_append] at hl
    rw [pushes, hw]
    exact hl

/-- The remainder of the encoder. -/
theorem encodeRemainder_eq {s : EncodeState} {done pending : List UInt8}
    (h : EncodeInv s done pending) :
    encodeRemainder s = some (ofBytes (done ++ Base64.encode pending),
      (done ++ Base64.encode pending).length) := by
  obtain ⟨rest, htmp, hlen⟩ := h.tmp
  by_cases h0 : pending.length = 0
  · have hi : ¬ s.i > 0 := by rw [h.i, h0]; decide
    rw [encodeRemainder, if_neg hi, List.length_eq_zero_iff.mp h0, Base64.encode_nil,
      List.append_nil, h.enc, h.size]
  · have hpos : 0 < pending.length := Nat.pos_of_ne_zero h0
    set zeros := List.replicate (3 - pending.length) (0 : UInt8) with hzeros
    -- `tmp` filled up with zeros
    have hmem : memset s.tmp s.i 0 (3 - s.i) = some (ofBytes (pending ++ zeros)) := by
      have hw := writes_append (ofBytes pending) rest [] zeros
        (by rw [hzeros, List.length_replicate]; omega)
      rw [List.append_nil, List.append_nil, length_ofBytes, ← ofBytes_append] at hw
      rw [memset, htmp, h.i, hw]
    obtain ⟨a, b, c, habc⟩ := List.length_eq_three.mp (show (pending ++ zeros).length = 3 by
      rw [List.length_append, hzeros, List.length_replicate]
      omega)
    obtain ⟨buf, hbuf, hvals⟩ := encodeBuf_eq a b c
    have hchars : tableChars (buf.take (s.i + 1))
        = some ((Base64.sextets pending).map Base64.alphabet) := by
      refine tableChars_eq ?_ (Base64.sextets_lt pending)
      rw [List.map_take, hvals, ← habc, h.i, hzeros, ← Base64.sextets_eq_take hpos h.pending_lt]
    have hi : s.i > 0 := by rw [h.i]; exact hpos
    have hsize : s.size = done.length := h.size
    rw [encodeRemainder, if_pos hi]
    simp only [hmem, habc, hbuf, hchars, h.enc, hsize, pushes_eq, Option.bind_eq_bind,
      Option.bind_some]
    rw [h.i, List.append_assoc, Base64.encode_of_length_lt hpos h.pending_lt]
    rfl

/-- **`b64_encode` computes the encoding**, with a zero byte after it. -/
theorem b64Encode_eq (b : List UInt8) (rest : Buffer) :
    b64Encode (ofBytes b ++ rest) b.length = some (ofBytes (Base64.encode b) ++ [some 0]) := by
  have hinit : EncodeInv { i := 0, tmp := malloc 3, enc := malloc 0, size := 0 } [] [] :=
    ⟨rfl, rfl, rfl, by decide, malloc 3, rfl, rfl⟩
  obtain ⟨s, done, pending, hs, hinv, heq⟩ := encodeLoop_inv [] b rest hinit
  have hrem := encodeRemainder_eq hinv
  have hlast := writes_realloc (done ++ Base64.encode pending) [0]
  rw [heq] at hrem hlast
  rw [List.nil_append, List.length_nil] at hs
  rw [b64Encode]
  simp only [hs, hrem, Option.bind_eq_bind, Option.bind_some]
  exact (Option.bind_fun_some _).symm.trans (hlast.trans (congrArg some (ofBytes_append _ _)))

/-! ## The decoder computes the bytes -/

/-- The values of characters in the table. -/
def vals (l : List UInt8) : List ℕ := l.map fun c => (translate c).toNat

@[simp] theorem vals_append (l l' : List UInt8) : vals (l ++ l') = vals l ++ vals l' :=
  List.map_append

@[simp] theorem length_vals (l : List UInt8) : (vals l).length = l.length := List.length_map _

/-- The characters the decoder goes on with are those of the alphabet. -/
theorem translate_of_isChar : ∀ c : UInt8, isChar c = true →
    (translate c).toNat < 64 ∧ Base64.alphabet (translate c).toNat = c := by
  decide +kernel

theorem vals_lt {l : List UInt8} (hl : ∀ c ∈ l, isChar c = true) : ∀ v ∈ vals l, v < 64 := by
  intro v hv
  obtain ⟨c, hc, rfl⟩ := List.mem_map.mp hv
  exact (translate_of_isChar c (hl c hc)).1

/-- `tmp` translated. -/
theorem translateTmp_eq {t : List UInt8} (ht : t.length = 4) :
    translateTmp (ofBytes t) = some (ofBytes (t.map translate)) := by
  have hr := reads_append [] t []
  have hw := writes_append [] (ofBytes t) [] (t.map translate)
    (by rw [length_ofBytes, List.length_map])
  rw [List.append_nil, List.nil_append, List.length_nil, ht] at hr
  rw [List.append_nil, List.nil_append, List.append_nil, List.nil_append, List.length_nil] at hw
  rw [translateTmp, hr]
  exact hw

/-- **`buf` holds the three bytes of the four values in `tmp`.** -/
theorem decodeBuf_eq {t : List UInt8} (ht : t.length = 4) (hlt : ∀ c ∈ t, c.toNat < 64) :
    decodeBuf (ofBytes t) = some (Base64.decode (t.map UInt8.toNat)) := by
  match t, ht with
  | [t0, t1, t2, t3], _ =>
    simp only [List.forall_mem_cons] at hlt
    obtain ⟨h0, h1, h2, h3, -⟩ := hlt
    have e0 : ∀ a : UInt8, (a <<< 2).toNat = a.toNat * 4 % 256 := by decide +kernel
    have e1 : ∀ a : UInt8, ((a &&& 0x30) >>> 4).toNat = a.toNat / 16 % 4 := by decide +kernel
    have e2 : ∀ a : UInt8, ((a &&& 0xf) <<< 4).toNat = a.toNat % 16 * 16 := by decide +kernel
    have e3 : ∀ a : UInt8, ((a &&& 0x3c) >>> 2).toNat = a.toNat / 4 % 16 := by decide +kernel
    have e4 : ∀ a : UInt8, ((a &&& 0x3) <<< 6).toNat = a.toNat % 4 * 64 := by decide +kernel
    have hb0 : (t0 <<< 2) + ((t1 &&& 0x30) >>> 4) = UInt8.ofNat (t0.toNat * 4 + t1.toNat / 16) := by
      refine UInt8.toNat_inj.mp ?_
      rw [UInt8.toNat_add, e0, e1, UInt8.toNat_ofNat']
      omega
    have hb1 : ((t1 &&& 0xf) <<< 4) + ((t2 &&& 0x3c) >>> 2)
        = UInt8.ofNat (t1.toNat % 16 * 16 + t2.toNat / 4) := by
      refine UInt8.toNat_inj.mp ?_
      rw [UInt8.toNat_add, e2, e3, UInt8.toNat_ofNat']
      omega
    have hb2 : ((t2 &&& 0x3) <<< 6) + t3 = UInt8.ofNat (t2.toNat % 4 * 64 + t3.toNat) := by
      refine UInt8.toNat_inj.mp ?_
      rw [UInt8.toNat_add, e4, UInt8.toNat_ofNat']
    show some _ = some (Base64.decode [t0.toNat, t1.toNat, t2.toNat, t3.toNat])
    rw [Base64.decode_cons h0 h1 h2 h3, Base64.decode_nil, hb0, hb1, hb2]

/-- A `tmp` of four characters of the alphabet, or of zeros in their place, translated and
decoded. -/
theorem decodeBuf_translate {t : List UInt8} (ht : t.length = 4)
    (hlt : ∀ c ∈ t, (translate c).toNat < 64) :
    decodeBuf (ofBytes (t.map translate)) = some (Base64.decode (vals t)) := by
  rw [decodeBuf_eq (by rw [List.length_map, ht]) (fun c hc => by
    obtain ⟨a, ha, rfl⟩ := List.mem_map.mp hc
    exact hlt a ha), List.map_map]
  rfl

/-- The variables of the decoder: `done` is written and `pending` is in `tmp`. -/
structure DecodeInv (s : DecodeState) (done pending : List UInt8) : Prop where
  dec : s.dec = ofBytes done
  size : s.size = done.length
  i : s.i = pending.length
  pending_lt : pending.length < 4
  isChar : ∀ c ∈ pending, isChar c = true
  tmp : ∃ rest, s.tmp = ofBytes pending ++ rest ∧ pending.length + rest.length = 4

/-- **A round of the loop**: what is written and what is still to be decoded together stay
the same. -/
theorem decodeStep_inv {s : DecodeState} {done pending : List UInt8}
    (h : DecodeInv s done pending) {c : UInt8} (hc : isChar c = true) :
    ∃ s' done' pending', decodeStep c s = some s' ∧ DecodeInv s' done' pending'
      ∧ s'.j = s.j + 1
      ∧ ∀ l, done' ++ Base64.decode (vals (pending' ++ l))
        = done ++ Base64.decode (vals (pending ++ c :: l)) := by
  have hlt := h.pending_lt
  obtain ⟨rest, htmp, hlen⟩ := h.tmp
  obtain ⟨o, rest, rfl⟩ : ∃ o rest', rest = o :: rest' :=
    List.exists_cons_of_length_pos (by omega)
  rw [List.length_cons] at hlen
  have hchars : ∀ a ∈ pending ++ [c], isChar a = true := fun a ha =>
    (List.mem_append.mp ha).elim (h.isChar a) fun ha => List.mem_singleton.mp ha ▸ hc
  have hw : write s.tmp s.i c = some (ofBytes (pending ++ [c]) ++ rest) := by
    have hw := write_append (ofBytes pending) o rest c
    rw [length_ofBytes] at hw
    rw [htmp, h.i, hw, ofBytes_append, List.append_assoc]
    rfl
  have hlen' : (pending ++ [c]).length = pending.length + 1 := by
    rw [List.length_append, List.length_singleton]
  by_cases hfull : pending.length + 1 = 4
  · -- the fourth character: `tmp` is translated, decoded and written out
    rw [List.length_eq_zero_iff.mp (show rest.length = 0 by omega), List.append_nil] at hw
    have hi : s.i + 1 = 4 := by rw [h.i, hfull]
    have ht := translateTmp_eq (hlen'.trans hfull)
    have hbuf := decodeBuf_translate (hlen'.trans hfull) fun a ha =>
      (translate_of_isChar a (hchars a ha)).1
    set buf := Base64.decode (vals (pending ++ [c])) with hbufdef
    have hvals : (vals (pending ++ [c])).length = 4 := by rw [length_vals, hlen', hfull]
    have hthree := fun l => Base64.decode_append hvals (vals_lt hchars) (vals l)
    have hwrite := writes_realloc done buf
    rw [(hthree []).2] at hwrite
    refine ⟨⟨0, s.j + 1, ofBytes ((pending ++ [c]).map translate), ofBytes (done ++ buf),
      s.size + 3⟩, done ++ buf, [], ?_, ⟨rfl, ?_, rfl, by decide, fun _ h => absurd h
      List.not_mem_nil, _, rfl, ?_⟩, rfl, fun l => ?_⟩
    · have hsize : s.size = done.length := h.size
      rw [decodeStep]
      simp only [hw, if_pos hi, ht, hbuf, h.dec, hsize, hwrite, Option.bind_eq_bind,
        Option.bind_some]
      rfl
    · rw [List.length_append, (hthree []).2, h.size]
    · show 0 + (ofBytes ((pending ++ [c]).map translate)).length = 4
      rw [length_ofBytes, List.length_map, hlen', hfull]
    · rw [List.nil_append, List.append_assoc, ← (hthree l).1, ← vals_append, List.append_assoc]
      rfl
  · refine ⟨{ s with i := s.i + 1, j := s.j + 1, tmp := ofBytes (pending ++ [c]) ++ rest }, done,
      pending ++ [c], ?_, ⟨h.dec, h.size, ?_, ?_, hchars, rest, rfl, ?_⟩, rfl, fun l => ?_⟩
    · have hi : ¬ s.i + 1 = 4 := by rw [h.i]; exact hfull
      rw [decodeStep, hw]
      exact if_neg hi
    · rw [hlen', h.i]
    · omega
    · omega
    · rw [List.append_assoc]
      rfl

/-- **The loop of the decoder goes through the characters of the alphabet**, `l` after those
before them, whatever length is left for the rest. -/
theorem decodeLoop_inv (pre l : List UInt8) (rest : Buffer) (hl : ∀ c ∈ l, isChar c = true)
    {s : DecodeState} {done pending : List UInt8} (h : DecodeInv s done pending)
    (hj : s.j = pre.length) :
    ∃ s' done' pending', (∀ k, decodeLoop (ofBytes (pre ++ l) ++ rest) (l.length + k) s
        = decodeLoop (ofBytes (pre ++ l) ++ rest) k s')
      ∧ DecodeInv s' done' pending' ∧ s'.j = (pre ++ l).length
      ∧ done' ++ Base64.decode (vals pending') = done ++ Base64.decode (vals (pending ++ l)) := by
  induction l generalizing pre s done pending with
  | nil =>
    refine ⟨s, done, pending, fun k => ?_, h, by rw [hj, List.append_nil], by rw [List.append_nil]⟩
    rw [List.length_nil, Nat.zero_add]
  | cons c l ih =>
    rw [List.forall_mem_cons] at hl
    obtain ⟨s₁, done₁, pending₁, hs₁, hinv₁, hj₁, heq₁⟩ := decodeStep_inv h hl.1
    obtain ⟨s₂, done₂, pending₂, hs₂, hinv₂, hj₂, heq₂⟩ := ih (pre ++ [c]) hl.2 hinv₁
      (by rw [hj₁, hj, List.length_append]; rfl)
    rw [List.append_assoc] at hs₂ hj₂
    have hread : read (ofBytes (pre ++ c :: l) ++ rest) s.j = some c := by
      rw [hj, ofBytes_append, List.append_assoc]
      exact read_append_cons pre c _
    refine ⟨s₂, done₂, pending₂, fun k => ?_, hinv₂, hj₂, heq₂.trans (heq₁ l)⟩
    rw [List.length_cons, Nat.add_right_comm, decodeLoop]
    simp only [hread, if_pos hl.1, hs₁, Option.bind_eq_bind, Option.bind_some]
    exact hs₂ k

/-- The remainder of the decoder. -/
theorem decodeRemainder_eq {s : DecodeState} {done pending : List UInt8}
    (h : DecodeInv s done pending) :
    decodeRemainder s = some (ofBytes (done ++ Base64.decode (vals pending)),
      (done ++ Base64.decode (vals pending)).length) := by
  obtain ⟨rest, htmp, hlen⟩ := h.tmp
  by_cases h0 : pending.length = 0
  · have hi : ¬ s.i > 0 := by rw [h.i, h0]; decide
    rw [decodeRemainder, if_neg hi, List.length_eq_zero_iff.mp h0, vals, List.map_nil,
      Base64.decode_nil, List.append_nil, h.dec, h.size]
  · have hpos : 0 < pending.length := Nat.pos_of_ne_zero h0
    have hi : s.i > 0 := by rw [h.i]; exact hpos
    set zeros := List.replicate (4 - pending.length) (0 : UInt8) with hzeros
    have hfour : (pending ++ zeros).length = 4 := by
      rw [List.length_append, hzeros, List.length_replicate]
      have := h.pending_lt
      omega
    -- `tmp` filled up with zeros, which have no character and stay zeros
    have hmem : memset s.tmp s.i 0 (4 - s.i) = some (ofBytes (pending ++ zeros)) := by
      have hw := writes_append (ofBytes pending) rest [] zeros
        (by rw [hzeros, List.length_replicate]; omega)
      rw [List.append_nil, List.append_nil, length_ofBytes, ← ofBytes_append] at hw
      rw [memset, htmp, h.i, hw]
    have hlt : ∀ c ∈ pending ++ zeros, (translate c).toNat < 64 := fun c hc =>
      (List.mem_append.mp hc).elim (fun hc => (translate_of_isChar c (h.isChar c hc)).1)
        fun hc => by rw [List.eq_of_mem_replicate hc]; decide
    have hvals : vals (pending ++ zeros)
        = vals pending ++ List.replicate (4 - (vals pending).length) 0 := by
      rw [vals_append, length_vals, hzeros]
      exact congrArg (vals pending ++ ·) List.map_replicate
    have htake : Base64.decode (vals pending)
        = (Base64.decode (vals (pending ++ zeros))).take (s.i - 1) := by
      rw [hvals, h.i, ← length_vals]
      exact Base64.decode_eq_take (by rwa [length_vals]) (by rw [length_vals]; exact h.pending_lt)
        (vals_lt h.isChar)
    have hthree := (Base64.decode_append (by rw [length_vals, hfour])
      (fun v hv => by
        obtain ⟨c, hc, rfl⟩ := List.mem_map.mp hv
        exact hlt c hc) []).2
    have hone : (Base64.decode (vals pending)).length = s.i - 1 := by
      have := h.pending_lt
      have := h.i
      rw [htake, List.length_take, hthree]
      omega
    have hwrite := writes_realloc done (Base64.decode (vals pending))
    rw [hone] at hwrite
    have hsize : s.size = done.length := h.size
    rw [decodeRemainder, if_pos hi]
    simp only [hmem, translateTmp_eq hfour, decodeBuf_translate hfour hlt, ← htake, h.dec, hsize,
      hwrite, Option.bind_eq_bind, Option.bind_some]
    rw [List.length_append, hone]
    rfl

/-- **`b64_decode_ex` computes the bytes of the longest prefix of characters of the
alphabet**, with a zero byte after them: the prefix ends with the length or with another
character. -/
theorem b64DecodeEx_eq {l : List UInt8} (hl : ∀ c ∈ l, isChar c = true) {rest : Buffer} {len : ℕ}
    (hlen : len = l.length
      ∨ (l.length < len ∧ ∃ c rest', rest = some c :: rest' ∧ isChar c = false)) :
    b64DecodeEx (ofBytes l ++ rest) len
      = some (ofBytes (Base64.decode (vals l)) ++ [some 0], (Base64.decode (vals l)).length) := by
  have hinit : DecodeInv { i := 0, j := 0, tmp := malloc 4, dec := malloc 0, size := 0 } [] [] :=
    ⟨rfl, rfl, rfl, by decide, fun _ h => absurd h List.not_mem_nil, malloc 4, rfl, rfl⟩
  obtain ⟨s, done, pending, hs, hinv, hj, heq⟩ := decodeLoop_inv [] l rest hl hinit rfl
  have hrem := decodeRemainder_eq hinv
  have hlast := writes_realloc (done ++ Base64.decode (vals pending)) [0]
  rw [heq, List.nil_append, List.nil_append] at hrem hlast
  rw [List.nil_append] at hs hj
  have hloop : decodeLoop (ofBytes l ++ rest) len
      { i := 0, j := 0, tmp := malloc 4, dec := malloc 0, size := 0 } = some s := by
    rcases hlen with rfl | ⟨hlt, c, rest', rfl, hc⟩
    · exact hs 0
    · obtain ⟨k, rfl⟩ : ∃ k, len = l.length + (k + 1) := ⟨len - l.length - 1, by omega⟩
      rw [hs, decodeLoop]
      simp only [hj, read_append_cons, hc, Option.bind_eq_bind, Option.bind_some]
      rfl
  have hw : write (realloc (ofBytes (Base64.decode (vals l))) ((Base64.decode (vals l)).length + 1))
      (Base64.decode (vals l)).length 0 = some (ofBytes (Base64.decode (vals l)) ++ [some 0]) :=
    (Option.bind_fun_some _).symm.trans (hlast.trans (congrArg some (ofBytes_append _ _)))
  rw [b64DecodeEx]
  simp only [hloop, hrem, hw, Option.bind_eq_bind, Option.bind_some]
  rfl

/-! ## The round trip -/

theorem isChar_alphabet : ∀ v < 64,
    isChar (Base64.alphabet v) = true ∧ (translate (Base64.alphabet v)).toNat = v := by
  decide

/-- **The decoder undoes the encoding**: the padding, where there is some, stops it. -/
theorem b64DecodeEx_encode (b : List UInt8) (rest : Buffer) :
    b64DecodeEx (ofBytes (Base64.encode b) ++ rest) (Base64.encode b).length
      = some (ofBytes b ++ [some 0], b.length) := by
  set chars := (Base64.sextets b).map Base64.alphabet with hchars
  have hl : ∀ c ∈ chars, isChar c = true := by
    intro c hc
    obtain ⟨v, hv, rfl⟩ := List.mem_map.mp hc
    exact (isChar_alphabet v (Base64.sextets_lt b v hv)).1
  have hvals : vals chars = Base64.sextets b := by
    rw [hchars, vals, List.map_map]
    refine (List.map_congr_left fun v hv => ?_).trans (List.map_id _)
    exact (isChar_alphabet v (Base64.sextets_lt b v hv)).2
  obtain ⟨k, hk⟩ : ∃ k, Base64.encode b = chars ++ List.replicate k Base64.pad := ⟨_, rfl⟩
  have hlen : (Base64.encode b).length = chars.length ∨ (chars.length < (Base64.encode b).length
      ∧ ∃ c rest', ofBytes (List.replicate k Base64.pad) ++ rest = some c :: rest'
        ∧ isChar c = false) := by
    rw [hk, List.length_append, List.length_replicate]
    cases k with
    | zero => exact Or.inl rfl
    | succ k => exact Or.inr ⟨by omega, Base64.pad, _, rfl, rfl⟩
  have h := b64DecodeEx_eq hl hlen
  rwa [hvals, Base64.decode_sextets, ← List.append_assoc, ← ofBytes_append, ← hk] at h

/-- **Round trip and format.** The encoding of a byte sequence is a string of four
characters for every three bytes, the string of RFC 4648, all of whose characters are in
the table but for `=` in the last two places, and the decoder on that string, with its
`strlen`, returns the byte sequence and its length. -/
theorem b64_roundTrip (b : List UInt8) :
    ∃ enc : Buffer, b64Encode (ofBytes b) b.length = some enc
      ∧ IsCString enc (Base64.encode b)
      ∧ (Base64.encode b).length = 4 * ((b.length + 2) / 3)
      ∧ (∀ i c, (Base64.encode b)[i]? = some c →
        c ∈ b64Table ∨ (c = 61 ∧ (Base64.encode b).length ≤ i + 2))
      ∧ ∃ len, strlen enc = some len
        ∧ b64DecodeEx enc len = some (ofBytes b ++ [some 0], b.length) := by
  have hstring : IsCString (ofBytes (Base64.encode b) ++ [some 0]) (Base64.encode b) :=
    ⟨Base64.encode_ne_zero b, [], rfl⟩
  have henc := b64Encode_eq b []
  rw [List.append_nil] at henc
  refine ⟨_, henc, hstring, Base64.length_encode b, fun i c hc => ?_, _, strlen_eq hstring,
    b64DecodeEx_encode b _⟩
  rcases Base64.encode_format hc with ⟨v, hv, rfl⟩ | hpad
  · exact Or.inl (List.mem_of_getElem? (b64Table_eq v hv))
  · exact Or.inr hpad

end B64
