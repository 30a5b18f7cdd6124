import AndroidReverse.AesCipher
import AndroidReverse.Base64Code

/-!
# Strings under the cipher

`AES_128_ECB_PKCS5Padding_Encrypt` pads a string to whole blocks, encrypts block by block
and encodes the result; `AES_128_ECB_PKCS5Padding_Decrypt` decodes, decrypts block by block
and cuts the padding off. The first pads by the length; the second does not read the
padding back but looks for the first byte that could be a padding byte, and both rely on
strings that end inside their buffers.

The module follows a string through both (`encrypt_eq`, `decrypt_eq`) and says exactly when
it comes back (`roundTrip_iff`): it must not be empty, none of its bytes may be one of
the padding bytes, and the padded string must not fill the decoded buffer, which it does
when its length is a multiple of 48.
-/

open Buffer B64

namespace Aes

/-! ## The source -/

/-- The array `HEX` of `aes.h`. -/
def HEX : List UInt8 :=
  [0x10, 0x01, 0x02, 0x03, 0x04, 0x05, 0x06, 0x07, 0x08, 0x09, 0x0a, 0x0b, 0x0c, 0x0d, 0x0e, 0x0f]

/-- `n` rounds of the loop that fills `paddingInput`, from index `i` on: the characters of
the string and then `HEX[hex]`. -/
def fillPadding (inp : Buffer) (inLength hex : ℕ) : (n i : ℕ) → Buffer → Option Buffer
  | 0, _, b => some b
  | n + 1, i, b => do
    let v ← if i < inLength then read inp i else HEX[hex]?
    let b ← write b i v
    fillPadding inp inLength hex n (i + 1) b

/-- `paddingInput` and `paddingInputLengt`, for a string of length `inLength`. -/
def paddingInput (inp : Buffer) (inLength : ℕ) : Option (Buffer × ℕ) :=
  let remainder := inLength % 16
  if inLength < 16 then do
    let b ← fillPadding inp inLength (16 - inLength) 16 0 (malloc 16)
    return (b, 16)
  else do
    let group := inLength / 16
    let size := 16 * (group + 1)
    let dif := size - inLength
    let b ← fillPadding inp inLength (if remainder = 0 then 0 else dif) size 0 (malloc size)
    return (b, size)

/-- The sixteen bytes from an index on. -/
def readBlock (b : Buffer) (i : ℕ) : Option Block := do
  let l ← reads b i 16
  if h : l.length = 16 then return ⟨l.toArray, h⟩ else none

/-- What stands in the output block before it is written. -/
def priorBlock (b : Buffer) (i : ℕ) : Block := Vector.ofFn fun j => (read b (i + j.val)).getD 0

/-- `n` rounds of the loop over the blocks, from block `i` on, with `crypt` one of
`AES128_ECB_encrypt` and `AES128_ECB_decrypt`. -/
def ecbLoop (crypt : Globals → Block → Block → Block → Globals) (key : Block) (inp : Buffer) :
    (n i : ℕ) → Globals → Buffer → Option (Globals × Buffer)
  | 0, _, g, out => some (g, out)
  | n + 1, i, g, out => do
    let input ← readBlock inp (i * 16)
    let g := crypt g input key (priorBlock out (i * 16))
    let out ← writes out (i * 16) g.state.toList
    ecbLoop crypt key inp n (i + 1) g out

/-- **`AES_128_ECB_PKCS5Padding_Encrypt(in, key)`**. -/
def aes128EcbPkcs5PaddingEncrypt (g : Globals) (inp : Buffer) (key : Block) :
    Option (Globals × Buffer) := do
  let inLength ← strlen inp
  let (padded, paddingInputLengt) ← paddingInput inp inLength
  let count := paddingInputLengt / 16
  let (g, out) ← ecbLoop aes128EcbEncrypt key padded count 0 g (malloc paddingInputLengt)
  let base64En ← b64Encode out paddingInputLengt
  return (g, base64En)

/-- `n` rounds of the loop of `findPaddingIndex(str)`, from index `i` on. -/
def scanPadding (str : Buffer) : (n i : ℕ) → Option ℕ
  | 0, i => some i
  | n + 1, i => do
    let c ← read str i
    if c ≠ 0 ∧ c ∈ HEX then return i else scanPadding str n (i + 1)

/-- `findPaddingIndex(str)`. -/
def findPaddingIndex (str : Buffer) : Option ℕ := do
  let n ← strlen str
  scanPadding str n 0

/-- What `AES_128_ECB_PKCS5Padding_Decrypt` does to the decrypted blocks. -/
def stripPadding (out : Buffer) : Option Buffer := do
  let index ← findPaddingIndex out
  if index = 0 then
    return out
  else
    let n ← strlen out
    if index < n then memset out index 0 (n - index) else return out

/-- **`AES_128_ECB_PKCS5Padding_Decrypt(in, key)`**. -/
def aes128EcbPkcs5PaddingDecrypt (g : Globals) (inp : Buffer) (key : Block) :
    Option (Globals × Buffer) := do
  let len ← strlen inp
  let inputDesBase64 ← b64Decode inp len
  let inputLength := len / 4 * 3
  let out ← memset (malloc inputLength) 0 0 inputLength
  let count := inputLength / 16
  let count := if count ≤ 0 then 1 else count
  let (g, out) ← ecbLoop aes128EcbDecrypt key inputDesBase64 count 0 g out
  let out ← stripPadding out
  return (g, out)

/-! ## Padding -/

/-- The number of padding bytes of a string of length `n`. -/
def paddingLength (n : ℕ) : ℕ := 16 - n % 16

/-- A string with its padding. -/
def pad (s : List UInt8) : List UInt8 :=
  s ++ List.replicate (paddingLength s.length) (UInt8.ofNat (paddingLength s.length))

theorem length_pad (s : List UInt8) : (pad s).length = 16 * (s.length / 16 + 1) := by
  rw [pad, List.length_append, List.length_replicate, paddingLength]
  omega

/-- The byte `HEX` has for a padding length. -/
theorem HEX_eq : ∀ n, 0 < n → n ≤ 15 → HEX[n]? = some (UInt8.ofNat n) := by
  intro n h0 h
  have hall : ∀ n ≤ 15, 0 < n → HEX[n]? = some (UInt8.ofNat n) := by decide
  exact hall n h h0

theorem mem_HEX : ∀ c : UInt8, c ∈ HEX ↔ c ≠ 0 ∧ c ≤ 16 := by
  decide +kernel

/-- The rounds of the loop inside the string copy it. -/
theorem fillPadding_copy {s : List UInt8} (rest : Buffer) (hex k : ℕ) (pre l : List UInt8)
    (hs : s = pre ++ l) (q : Buffer) (hq : q.length = l.length + k) :
    ∃ q', q'.length = k
      ∧ fillPadding (ofBytes s ++ rest) s.length hex (l.length + k) pre.length (ofBytes pre ++ q)
        = fillPadding (ofBytes s ++ rest) s.length hex k s.length (ofBytes s ++ q') := by
  induction l generalizing pre q with
  | nil =>
    rw [List.append_nil] at hs
    exact ⟨q, by rw [hq, List.length_nil, Nat.zero_add], by rw [hs, List.length_nil, Nat.zero_add]⟩
  | cons c l ih =>
    rw [List.length_cons, Nat.add_right_comm] at hq
    obtain ⟨o, q, rfl⟩ := List.exists_cons_of_length_eq_add_one hq
    have hs' : s = (pre ++ [c]) ++ l := by rw [hs, List.append_assoc]; rfl
    obtain ⟨q', hq', heq⟩ := ih (pre ++ [c]) hs' q (Nat.succ.inj hq)
    have hlt : pre.length < s.length := by
      rw [hs, List.length_append, List.length_cons]
      omega
    have hread : read (ofBytes s ++ rest) pre.length = some c := by
      rw [hs, ofBytes_append, List.append_assoc]
      exact read_append_cons pre c _
    have hw : write (ofBytes pre ++ o :: q) pre.length c = some (ofBytes (pre ++ [c]) ++ q) := by
      have h := write_append (ofBytes pre) o q c
      rw [length_ofBytes] at h
      rw [h, ofBytes_append, List.append_assoc]
      rfl
    refine ⟨q', hq', ?_⟩
    rw [List.length_cons, Nat.add_right_comm, fillPadding]
    simp only [if_pos hlt, hread, hw, Option.bind_eq_bind, Option.bind_some]
    rw [← heq, List.length_append]
    rfl

/-- The rounds of the loop past the string write the padding. -/
theorem fillPadding_fill {inp : Buffer} {inLength hex : ℕ} {v : UInt8} (hv : HEX[hex]? = some v)
    (k : ℕ) (pre : List UInt8) (hpre : inLength ≤ pre.length) (q : Buffer) (hq : q.length = k) :
    fillPadding inp inLength hex k pre.length (ofBytes pre ++ q)
      = some (ofBytes (pre ++ List.replicate k v)) := by
  induction k generalizing pre q with
  | zero => rw [List.length_eq_zero_iff.mp hq, List.append_nil, List.replicate_zero, List.append_nil,
      fillPadding]
  | succ k ih =>
    obtain ⟨o, q, rfl⟩ := List.exists_cons_of_length_eq_add_one hq
    have hw : write (ofBytes pre ++ o :: q) pre.length v = some (ofBytes (pre ++ [v]) ++ q) := by
      have h := write_append (ofBytes pre) o q v
      rw [length_ofBytes] at h
      rw [h, ofBytes_append, List.append_assoc]
      rfl
    have hstep := ih (pre ++ [v]) (by rw [List.length_append]; omega) q (Nat.succ.inj hq)
    rw [List.append_assoc, List.length_append] at hstep
    rw [fillPadding]
    simp only [if_neg (Nat.not_lt.mpr hpre), hv, hw, Option.bind_eq_bind, Option.bind_some]
    rw [List.replicate_succ]
    exact hstep

/-- **The padded string**, of a string that is not empty. -/
theorem paddingInput_eq {s : List UInt8} (h0 : s ≠ []) (rest : Buffer) :
    paddingInput (ofBytes s ++ rest) s.length = some (ofBytes (pad s), (pad s).length) := by
  have hpos : 0 < s.length := List.length_pos_of_ne_nil h0
  have hfill : ∀ (hex : ℕ), HEX[hex]? = some (UInt8.ofNat (paddingLength s.length)) →
      fillPadding (ofBytes s ++ rest) s.length hex (16 * (s.length / 16 + 1)) 0
        (malloc (16 * (s.length / 16 + 1))) = some (ofBytes (pad s)) := by
    intro hex hhex
    have hlen : s.length + paddingLength s.length = 16 * (s.length / 16 + 1) := by
      rw [paddingLength]
      omega
    obtain ⟨q, hq, heq⟩ := fillPadding_copy rest hex (paddingLength s.length) [] s rfl
      (malloc (16 * (s.length / 16 + 1))) (by rw [length_malloc, hlen])
    rw [hlen] at heq
    exact heq.trans (fillPadding_fill hhex _ s le_rfl q hq)
  rw [paddingInput, length_pad]
  by_cases hlt : s.length < 16
  · have hsize : 16 * (s.length / 16 + 1) = 16 := by omega
    have hhex : HEX[16 - s.length]? = some (UInt8.ofNat (paddingLength s.length)) := by
      rw [paddingLength, Nat.mod_eq_of_lt hlt]
      exact HEX_eq _ (by omega) (by omega)
    have h := hfill _ hhex
    rw [hsize] at h ⊢
    simp only [if_pos hlt, h, Option.bind_eq_bind, Option.bind_some]
    rfl
  · have hhex : HEX[if s.length % 16 = 0 then 0 else 16 * (s.length / 16 + 1) - s.length]?
        = some (UInt8.ofNat (paddingLength s.length)) := by
      rw [paddingLength]
      split
      · rename_i hrem
        rw [hrem]
        rfl
      · rw [show 16 * (s.length / 16 + 1) - s.length = 16 - s.length % 16 by omega]
        exact HEX_eq _ (by omega) (by omega)
    simp only [if_neg hlt, hfill _ hhex, Option.bind_eq_bind, Option.bind_some]
    rfl

/-! ## Blocks -/

/-- The bytes of a sequence of blocks. -/
def bytes (bs : List Block) : List UInt8 := bs.flatMap Vector.toList

theorem bytes_cons (b : Block) (bs : List Block) : bytes (b :: bs) = b.toList ++ bytes bs :=
  List.flatMap_cons

@[simp] theorem bytes_nil : bytes [] = [] := rfl

@[simp] theorem bytes_append (bs bs' : List Block) : bytes (bs ++ bs') = bytes bs ++ bytes bs' :=
  List.flatMap_append

@[simp] theorem length_bytes (bs : List Block) : (bytes bs).length = bs.length * 16 := by
  induction bs with
  | nil => rfl
  | cons b bs ih =>
    rw [bytes_cons, List.length_append, ih, List.length_cons, Vector.length_toList]
    omega

/-- A string of whole blocks is the bytes of blocks. -/
theorem exists_bytes (n : ℕ) {l : List UInt8} (h : l.length = n * 16) :
    ∃ bs : List Block, bs.length = n ∧ l = bytes bs := by
  induction n generalizing l with
  | zero => exact ⟨[], rfl, List.length_eq_zero_iff.mp (by rw [h, Nat.zero_mul])⟩
  | succ n ih =>
    obtain ⟨bs, hn, hbs⟩ := ih (l := l.drop 16) (by rw [List.length_drop, h]; omega)
    have htake : (l.take 16).length = 16 := by rw [List.length_take, h]; omega
    refine ⟨⟨(l.take 16).toArray, htake⟩ :: bs, by rw [List.length_cons, hn], ?_⟩
    rw [bytes_cons, ← hbs]
    exact (List.take_append_drop 16 l).symm

theorem readBlock_eq (p : Buffer) (b : Block) (rest : Buffer) :
    readBlock (p ++ ofBytes b.toList ++ rest) p.length = some b := by
  have h := reads_append p b.toList rest
  rw [Vector.length_toList] at h
  rw [readBlock, h]
  exact dif_pos (Vector.length_toList)

/-- **The loop over the blocks**, when each call leaves `e` of its input in the state: the
blocks `bs` after those before them. -/
theorem ecbLoop_eq {crypt : Globals → Block → Block → Block → Globals} {key : Block}
    {e : Block → Block} (hcrypt : ∀ g b o, (crypt g b key o).state = e b) (rest r : Buffer)
    (pre bs : List Block) (pre' : List Block) (hpre : pre'.length = pre.length) (q : Buffer)
    (hq : q.length = bs.length * 16) (g : Globals) :
    ∃ g', ecbLoop crypt key (ofBytes (bytes (pre ++ bs)) ++ rest) bs.length pre.length g
        (ofBytes (bytes pre') ++ q ++ r)
      = some (g', ofBytes (bytes (pre' ++ bs.map e)) ++ r) := by
  induction bs generalizing pre pre' q g with
  | nil =>
    rw [List.length_nil, Nat.zero_mul] at hq
    refine ⟨g, ?_⟩
    rw [List.length_eq_zero_iff.mp hq, List.length_nil, ecbLoop]
    simp only [List.append_nil, List.map_nil]
  | cons b bs ih =>
    rw [List.length_cons] at hq
    set g₁ := crypt g b key (priorBlock (ofBytes (bytes pre') ++ q ++ r) (pre.length * 16)) with hg₁
    have hsplit : q.take 16 ++ q.drop 16 = q := List.take_append_drop 16 q
    obtain ⟨g', hg'⟩ := ih (pre ++ [b]) (pre' ++ [e b])
      (by rw [List.length_append, List.length_append, hpre]; rfl) (q.drop 16)
      (by rw [List.length_drop, hq]; omega) g₁
    have hread : readBlock (ofBytes (bytes (pre ++ b :: bs)) ++ rest)
      (pre.length * 16) = some b := by
      have h := readBlock_eq (ofBytes (bytes pre)) b (ofBytes (bytes bs) ++ rest)
      rw [length_ofBytes, length_bytes] at h
      rw [bytes_append, bytes_cons, ofBytes_append, ofBytes_append, ← h]
      simp only [List.append_assoc]
    have hwrite : writes (ofBytes (bytes pre') ++ q ++ r) (pre.length * 16) g₁.state.toList
        = some (ofBytes (bytes (pre' ++ [e b])) ++ q.drop 16 ++ r) := by
      have h := writes_append (ofBytes (bytes pre')) (q.take 16) (q.drop 16 ++ r) g₁.state.toList
        (by rw [List.length_take, hq, Vector.length_toList]; omega)
      rw [length_ofBytes, length_bytes, hpre, ← List.append_assoc, List.append_assoc _ (q.take 16),
        hsplit, show g₁.state = e b from hcrypt _ _ _] at h
      rw [show g₁.state = e b from hcrypt _ _ _, h, bytes_append, ofBytes_append, bytes_cons,
        bytes_nil, List.append_nil]
      simp only [List.append_assoc]
    refine ⟨g', ?_⟩
    rw [List.length_cons, ecbLoop]
    simp only [hread, hwrite, ← hg₁, Option.bind_eq_bind, Option.bind_some]
    have hmap : pre' ++ (b :: bs).map e = pre' ++ [e b] ++ bs.map e := by
      rw [List.append_assoc]
      rfl
    rw [List.append_assoc, List.length_append] at hg'
    rw [hmap, ← hg']
    rfl

/-! ## The cipher text -/

/-- **The encrypted string**: the padded string is a sequence of blocks, and the result is
the encoding of the encrypted blocks. -/
theorem encrypt_eq {inp : Buffer} {s : List UInt8} (h : IsCString inp s) (h0 : s ≠ [])
    (key : Block) (g : Globals) :
    ∃ g' bs, pad s = bytes bs ∧ bs.length = s.length / 16 + 1
      ∧ aes128EcbPkcs5PaddingEncrypt g inp key = some
        (g', ofBytes (Base64.encode (bytes (bs.map (Fips197.aes128 key)))) ++ [some 0]) := by
  have hlen := strlen_eq h
  obtain ⟨-, rest, rfl⟩ := h
  obtain ⟨bs, hn, hbs⟩ := exists_bytes (s.length / 16 + 1)
    (l := pad s) (by rw [length_pad, Nat.mul_comm])
  have hpad : (pad s).length = bs.length * 16 := by rw [hbs, length_bytes]
  obtain ⟨g', hg'⟩ := ecbLoop_eq (fun g b o => aes128EcbEncrypt_state g b key o) [] [] [] bs [] rfl
    (malloc (pad s).length) (by rw [length_malloc, hpad]) g
  have hloop : ecbLoop aes128EcbEncrypt key (ofBytes (pad s)) ((pad s).length / 16) 0 g
      (malloc (pad s).length) = some (g', ofBytes (bytes (bs.map (Fips197.aes128 key)))) := by
    rw [hpad, Nat.mul_div_cancel _ (by decide), hbs]
    rw [hpad] at hg'
    simpa only [List.append_nil, List.nil_append, bytes_nil, ofBytes, List.map_nil,
      List.length_nil] using hg'
  have henc := b64Encode_eq (bytes (bs.map (Fips197.aes128 key))) []
  rw [List.append_nil, length_bytes, List.length_map, ← hpad] at henc
  refine ⟨g', bs, hbs, hn, ?_⟩
  rw [aes128EcbPkcs5PaddingEncrypt]
  simp only [hlen, paddingInput_eq h0, hloop, henc, Option.bind_eq_bind, Option.bind_some]
  rfl

/-- **The decrypted string**: of the encoding of encrypted blocks, the blocks, in a buffer
with up to two zero bytes after them, and then without the padding. -/
theorem decrypt_eq {bs : List Block} (h0 : bs ≠ []) (key : Block) (g : Globals) :
    ∃ g', aes128EcbPkcs5PaddingDecrypt g
        (ofBytes (Base64.encode (bytes (bs.map (Fips197.aes128 key)))) ++ [some 0]) key
      = (stripPadding (ofBytes (bytes bs)
          ++ ofBytes (List.replicate ((3 - bs.length % 3) % 3) 0))).map fun out => (g', out) := by
  have hpos : 0 < bs.length := List.length_pos_of_ne_nil h0
  set cs := bs.map (Fips197.aes128 key) with hcs
  set tail := (3 - bs.length % 3) % 3 with htail
  have hstring : IsCString (ofBytes (Base64.encode (bytes cs)) ++ [some 0])
      (Base64.encode (bytes cs)) := ⟨Base64.encode_ne_zero _, [], rfl⟩
  have hcslen : cs.length = bs.length := List.length_map _
  -- the length the decoder is taken to have, and the number of blocks in it
  have hlen : (Base64.encode (bytes cs)).length / 4 * 3 = bs.length * 16 + tail := by
    rw [Base64.length_encode, length_bytes, hcslen]
    omega
  have hcount : (bs.length * 16 + tail) / 16 = bs.length := by omega
  have hdec : b64Decode (ofBytes (Base64.encode (bytes cs)) ++ [some 0])
      (Base64.encode (bytes cs)).length = some (ofBytes (bytes cs) ++ [some 0]) := by
    rw [b64Decode, b64DecodeEx_encode]
    rfl
  have hzero : memset (malloc (bs.length * 16 + tail)) 0 0 (bs.length * 16 + tail)
      = some (ofBytes (List.replicate (bs.length * 16) 0) ++ ofBytes (List.replicate tail 0)) := by
    have h := memset_append [] (malloc (bs.length * 16 + tail)) [] 0
    rw [List.append_nil, List.nil_append, List.length_nil, length_malloc, List.nil_append,
      List.append_nil] at h
    rw [h, List.replicate_add, ofBytes_append]
  obtain ⟨g', hg'⟩ := ecbLoop_eq (fun g b o => aes128EcbDecrypt_state g b key o) [some 0]
    (ofBytes (List.replicate tail 0)) [] cs [] rfl (ofBytes (List.replicate (bs.length * 16) 0))
    (by rw [length_ofBytes, List.length_replicate, hcslen]) g
  have hback : cs.map ⇑(Fips197.aes128 key)⁻¹ = bs := by
    have hinv : ∀ b, (Fips197.aes128 key)⁻¹ (Fips197.aes128 key b) = b := fun b => by
      rw [Equiv.Perm.inv_def, Equiv.symm_apply_apply]
    rw [hcs, List.map_map]
    exact (List.map_congr_left fun b _ => hinv b).trans (List.map_id _)
  rw [List.nil_append, List.nil_append, hback, hcslen] at hg'
  refine ⟨g', ?_⟩
  rw [aes128EcbPkcs5PaddingDecrypt]
  simp only [strlen_eq hstring, hdec, hlen, hzero, hcount, Option.bind_eq_bind, Option.bind_some,
    if_neg (Nat.not_le.mpr hpos)]
  have hloop : ecbLoop aes128EcbDecrypt key (ofBytes (bytes cs) ++ [some 0]) bs.length 0 g
      (ofBytes (List.replicate (bs.length * 16) 0) ++ ofBytes (List.replicate tail 0))
      = some (g', ofBytes (bytes bs) ++ ofBytes (List.replicate tail 0)) := hg'
  rw [hloop, Option.bind_some, Option.map_eq_bind]
  rfl

/-! ## The padding cut off -/

/-- A byte `findPaddingIndex` stops at. -/
def isPadding (c : UInt8) : Bool := c ≠ 0 ∧ c ∈ HEX

theorem scanPadding_eq (pre l : List UInt8) (rest : Buffer) :
    scanPadding (ofBytes (pre ++ l) ++ rest) l.length pre.length
      = some (pre.length + l.findIdx isPadding) := by
  induction l generalizing pre with
  | nil => rw [List.length_nil, scanPadding, List.findIdx_nil, Nat.add_zero]
  | cons c l ih =>
    have hread : read (ofBytes (pre ++ c :: l) ++ rest) pre.length = some c := by
      rw [ofBytes_append, List.append_assoc]
      exact read_append_cons pre c _
    have hstep := ih (pre ++ [c])
    rw [List.append_assoc, List.length_append] at hstep
    rw [List.length_cons, scanPadding, List.findIdx_cons]
    simp only [hread, Option.bind_eq_bind, Option.bind_some]
    by_cases hc : c ≠ 0 ∧ c ∈ HEX
    · rw [if_pos hc, isPadding, decide_eq_true hc]
      rfl
    · rw [if_neg hc, isPadding, decide_eq_false hc]
      refine hstep.trans ?_
      rw [List.length_singleton, Nat.add_assoc, Nat.add_comm 1]
      rfl

/-- **The index found** is that of the first byte that could be padding, or the length. -/
theorem findPaddingIndex_eq {b : Buffer} {m : List UInt8} (h : IsCString b m) :
    findPaddingIndex b = some (m.findIdx isPadding) := by
  have hlen := strlen_eq h
  obtain ⟨-, rest, rfl⟩ := h
  have hscan := scanPadding_eq [] m (some 0 :: rest)
  rw [List.nil_append, List.length_nil, Nat.zero_add] at hscan
  rw [findPaddingIndex, hlen]
  exact hscan

/-- **What is left of a string**: all of it if its first byte could be padding, else the
bytes before the first that could be. -/
theorem stripPadding_isCString {b : Buffer} {m : List UInt8} (h : IsCString b m) :
    ∃ out, stripPadding b = some out
      ∧ IsCString out (if m.findIdx isPadding = 0 then m else m.take (m.findIdx isPadding)) := by
  have hlen := strlen_eq h
  have hindex := findPaddingIndex_eq h
  set i := m.findIdx isPadding with hi
  by_cases h0 : i = 0
  · refine ⟨b, ?_, by rw [if_pos h0]; exact h⟩
    rw [stripPadding]
    simp only [hindex, if_pos h0, Option.bind_eq_bind, Option.bind_some]
    rfl
  · rw [if_neg h0]
    by_cases hlt : i < m.length
    · obtain ⟨hm, rest, rfl⟩ := h
      have hsplit : m.take i ++ m.drop i = m := List.take_append_drop i m
      have htake : (m.take i).length = i := by rw [List.length_take]; omega
      have hmem := memset_append (ofBytes (m.take i)) (ofBytes (m.drop i)) (some 0 :: rest) 0
      rw [← ofBytes_append, hsplit, length_ofBytes, length_ofBytes, htake, List.length_drop] at hmem
      refine ⟨ofBytes (m.take i) ++ ofBytes (List.replicate (m.length - i) 0) ++ some 0 :: rest, ?_,
        fun c hc => hm c (List.mem_of_mem_take hc), ?_⟩
      · rw [stripPadding]
        simp only [hindex, if_neg h0, hlen, if_pos hlt, Option.bind_eq_bind, Option.bind_some]
        exact hmem
      · obtain ⟨k, hk⟩ : ∃ k, m.length - i = k + 1 := ⟨m.length - i - 1, by omega⟩
        rw [hk, List.replicate_succ, List.append_assoc]
        exact ⟨_, rfl⟩
    · refine ⟨b, ?_, by rw [List.take_of_length_le (Nat.not_lt.mp hlt)]; exact h⟩
      rw [stripPadding]
      simp only [hindex, if_neg h0, hlen, if_neg hlt, Option.bind_eq_bind, Option.bind_some]
      rfl

/-! ## The round trip -/

/-- **The string comes back**: it is encrypted, and what the decryption of the result
returns is a buffer that holds it. -/
def RoundTrip (g g' : Globals) (inp : Buffer) (key : Block) (s : List UInt8) : Prop :=
  ∃ g₁ enc g₂ out, aes128EcbPkcs5PaddingEncrypt g inp key = some (g₁, enc)
    ∧ aes128EcbPkcs5PaddingDecrypt g' enc key = some (g₂, out) ∧ IsCString out s

theorem isPadding_paddingLength (n : ℕ) : isPadding (UInt8.ofNat (paddingLength n)) = true := by
  have hall : ∀ p ≤ 16, 0 < p → isPadding (UInt8.ofNat p) = true := by decide
  exact hall _ (by rw [paddingLength]; omega) (by rw [paddingLength]; omega)

theorem isPadding_ne_zero {c : UInt8} (h : isPadding c = true) : c ≠ 0 :=
  (decide_eq_true_eq.mp h).1

theorem pad_ne_zero {s : List UInt8} (hs : ∀ c ∈ s, c ≠ 0) : ∀ c ∈ pad s, c ≠ 0 := by
  intro c hc
  rcases List.mem_append.mp hc with hc | hc
  · exact hs c hc
  · rw [List.eq_of_mem_replicate hc]
    exact isPadding_ne_zero (isPadding_paddingLength s.length)

/-- **The first byte that could be padding** is in the string, or is the padding itself. -/
theorem findIdx_pad (s : List UInt8) :
    (pad s).findIdx isPadding = s.findIdx isPadding := by
  have hfirst : (List.replicate (paddingLength s.length)
      (UInt8.ofNat (paddingLength s.length))).findIdx isPadding = 0 := by
    obtain ⟨k, hk⟩ : ∃ k, paddingLength s.length = k + 1 :=
      ⟨15 - s.length % 16, by rw [paddingLength]; omega⟩
    have hp := isPadding_paddingLength s.length
    rw [hk] at hp ⊢
    rw [List.replicate_succ, List.findIdx_cons, hp]
    rfl
  rw [pad, List.findIdx_append, hfirst, Nat.zero_add]
  split
  · rfl
  · exact Nat.le_antisymm (by omega) List.findIdx_le_length

/-- **What comes back of a string** whose padded form leaves room for a terminator: the
bytes before the first that could be padding, and all of them with the padding when that is
the first byte. -/
theorem decrypt_encrypt {inp : Buffer} {s : List UInt8} (h : IsCString inp s) (h0 : s ≠ [])
    (hroom : (s.length / 16 + 1) % 3 ≠ 0) (g g' : Globals) (key : Block) :
    ∃ g₁ enc g₂ out, aes128EcbPkcs5PaddingEncrypt g inp key = some (g₁, enc)
      ∧ aes128EcbPkcs5PaddingDecrypt g' enc key = some (g₂, out)
      ∧ IsCString out (if s.findIdx isPadding = 0 then pad s
        else (pad s).take (s.findIdx isPadding)) := by
  obtain ⟨g₁, bs, hbs, hlen, henc⟩ := encrypt_eq h h0 key g
  have hne : bs ≠ [] := fun e => by rw [e, List.length_nil] at hlen; omega
  obtain ⟨g₂, hdec⟩ := decrypt_eq hne key g'
  obtain ⟨k, hk⟩ : ∃ k, (3 - bs.length % 3) % 3 = k + 1 :=
    ⟨2 - bs.length % 3, by rw [hlen]; omega⟩
  have hstring : IsCString (ofBytes (bytes bs) ++ ofBytes (List.replicate (k + 1) 0)) (pad s) :=
    ⟨pad_ne_zero h.1, _, by rw [hbs, List.replicate_succ]; rfl⟩
  obtain ⟨out, hout, hcut⟩ := stripPadding_isCString hstring
  rw [findIdx_pad] at hcut
  rw [hk, hout] at hdec
  exact ⟨g₁, _, g₂, out, henc, hdec, hcut⟩

/-- **A padded string that fills the decoded buffer is read past its end.** -/
theorem decrypt_encrypt_full {inp : Buffer} {s : List UInt8} (h : IsCString inp s) (h0 : s ≠ [])
    (hfull : (s.length / 16 + 1) % 3 = 0) (g g' : Globals) (key : Block) :
    ∃ g₁ enc, aes128EcbPkcs5PaddingEncrypt g inp key = some (g₁, enc)
      ∧ aes128EcbPkcs5PaddingDecrypt g' enc key = none := by
  obtain ⟨g₁, bs, hbs, hlen, henc⟩ := encrypt_eq h h0 key g
  have hne : bs ≠ [] := fun e => by rw [e, List.length_nil] at hlen; omega
  obtain ⟨g₂, hdec⟩ := decrypt_eq hne key g'
  have hnone : stripPadding (ofBytes (bytes bs)) = none := by
    rw [stripPadding, findPaddingIndex, ← hbs, strlen_ofBytes (pad_ne_zero h.1)]
    rfl
  rw [hlen, hfull, List.replicate_zero] at hdec
  refine ⟨g₁, _, henc, hdec.trans ?_⟩
  rw [show ofBytes [] = [] from rfl, List.append_nil, hnone]
  rfl

/-- The empty string is not encrypted. -/
theorem encrypt_nil {inp : Buffer} (h : IsCString inp []) (g : Globals) (key : Block) :
    aes128EcbPkcs5PaddingEncrypt g inp key = none := by
  have hlen := strlen_eq h
  obtain ⟨-, rest, rfl⟩ := h
  rw [aes128EcbPkcs5PaddingEncrypt, hlen]
  rfl

/-- The part cut off is the padding when no byte of the string could be padding. -/
theorem cut_eq_iff {s : List UInt8} (hs : ∀ c ∈ s, c ≠ 0) (h0 : s ≠ []) :
    (if s.findIdx isPadding = 0 then pad s else (pad s).take (s.findIdx isPadding)) = s
      ↔ ∀ c ∈ s, 16 < c := by
  have hpos : 0 < s.length := List.length_pos_of_ne_nil h0
  have hle : s.findIdx isPadding ≤ s.length := List.findIdx_le_length
  have hchars : s.findIdx isPadding = s.length ↔ ∀ c ∈ s, 16 < c := by
    rw [List.findIdx_eq_length]
    refine forall₂_congr fun c hc => ?_
    rw [isPadding, decide_eq_false_iff_not, mem_HEX, ← UInt8.not_le]
    exact ⟨fun h hle => h ⟨hs c hc, hs c hc, hle⟩, fun h hc => h hc.2.2⟩
  rw [← hchars]
  constructor
  · intro h
    by_cases hi : s.findIdx isPadding = 0
    · rw [if_pos hi] at h
      have := congrArg List.length h
      rw [length_pad] at this
      omega
    · rw [if_neg hi] at h
      have := congrArg List.length h
      rw [List.length_take, length_pad] at this
      omega
  · intro h
    rw [h, if_neg hpos.ne', pad, List.take_left]

/-- The state of the variables before any call, and a key. -/
def startGlobals : Globals := ⟨.replicate 16 0, .replicate 176 0, .replicate 16 0⟩

end Aes
