import AndroidReverse.AesPadding
import AndroidReverse.Base64Prefix

/-!
# What the decryption reads and writes on any string

`AES_128_ECB_PKCS5Padding_Decrypt` takes three lengths from three places. The decoded
buffer has the bytes of the longest prefix of characters of the table and a terminator;
the output has `strlen(in) / 4 * 3` bytes, whatever the characters are; and the loop runs
over the whole blocks of the output, but at least once. After the loop two calls of
`strlen` look for the end of the output, which is a zero byte only if the loop left one
of the zeros of `memset` behind, or decrypted one.

`staysInBounds_iff` says when the three agree. On an encoding they do, up to the last
condition; a string of fewer than 24 characters has no room for a block, and a string with
another character near its start has nothing to decrypt.
-/

open Buffer B64

namespace Aes

/-- **The decryption stays in bounds**: it runs to its end without an access outside of an
allocation. -/
def StaysInBounds (g : Globals) (inp : Buffer) (key : Block) : Prop :=
  (aes128EcbPkcs5PaddingDecrypt g inp key).isSome

/-- The bytes of the decoded buffer of a string, its zero byte included. -/
def decodedBytes (s : List UInt8) : List UInt8 :=
  Base64.decode (tableValues (tablePrefix s s.length)) ++ [0]

/-- The size of the output of a string. -/
def outLength (s : List UInt8) : ℕ := s.length / 4 * 3

/-- The `i`-th block of a string of bytes. -/
def blockAt (l : List UInt8) (i : ℕ) : Block := Vector.ofFn fun j => l.getD (16 * i + j.val) 0

/-- The first blocks of a string of bytes. -/
def blocks (l : List UInt8) (n : ℕ) : List Block := (List.range n).map (blockAt l)

@[simp] theorem length_blocks (l : List UInt8) (n : ℕ) : (blocks l n).length = n := by
  rw [blocks, List.length_map, List.length_range]

/-- A block is sixteen of the bytes. -/
theorem toList_blockAt {l : List UInt8} {i : ℕ} (h : 16 * (i + 1) ≤ l.length) :
    (blockAt l i).toList = (l.drop (16 * i)).take 16 := by
  have hlen : ((l.drop (16 * i)).take 16).length = 16 := by
    rw [List.length_take, List.length_drop]
    omega
  refine List.ext_getElem (by rw [Vector.length_toList, hlen]) fun j hj hj' => ?_
  rw [Vector.length_toList] at hj
  have hget : l.getD (16 * i + j) 0 = l[16 * i + j] := by
    rw [List.getD_eq_getElem?_getD, List.getElem?_eq_getElem, Option.getD_some]
  simp only [Vector.getElem_toList, blockAt, Vector.getElem_ofFn, List.getElem_take,
    List.getElem_drop, hget]

/-- The blocks cut off a string are its bytes. -/
theorem bytes_blocks {l : List UInt8} {n : ℕ} (h : 16 * n ≤ l.length) :
    bytes (blocks l n) = l.take (16 * n) := by
  induction n with
  | zero => rfl
  | succ n ih =>
    have hsucc : blocks l (n + 1) = blocks l n ++ [blockAt l n] := by
      rw [blocks, List.range_succ, List.map_append]
      rfl
    rw [hsucc, bytes_append, ih (by omega), bytes_cons, bytes_nil, List.append_nil,
      toList_blockAt h, Nat.mul_succ, List.take_add]

/-! ## What a result says of the bounds -/

/-- Bytes that are read are in the buffer. -/
theorem le_length_of_reads {b : Buffer} {n i : ℕ} {l : List UInt8}
    (h : reads b i (n + 1) = some l) : i + n + 1 ≤ b.length := by
  induction n generalizing i l with
  | zero =>
    obtain ⟨c, hc, -⟩ := Option.bind_eq_some_iff.mp h
    by_contra hlt
    rw [Buffer.read, List.getElem?_eq_none (by omega)] at hc
    cases hc
  | succ n ih =>
    obtain ⟨c, -, h⟩ := Option.bind_eq_some_iff.mp h
    obtain ⟨l', hl', -⟩ := Option.bind_eq_some_iff.mp h
    have := ih hl'
    omega

/-- Bytes that are written are in the buffer, and leave its length. -/
theorem length_of_writes {b b' : Buffer} {i : ℕ} {l : List UInt8} (h : writes b i l = some b') :
    b'.length = b.length ∧ (l ≠ [] → i + l.length ≤ b.length) := by
  induction l generalizing b i with
  | nil =>
    obtain rfl : b = b' := Option.some.inj h
    exact ⟨rfl, fun hne => absurd rfl hne⟩
  | cons v l ih =>
    obtain ⟨b₁, hb₁, h⟩ := Option.bind_eq_some_iff.mp h
    unfold write at hb₁
    split_ifs at hb₁ with hi
    obtain rfl := Option.some.inj hb₁
    obtain ⟨hlen, hle⟩ := ih h
    rw [List.length_set] at hlen hle
    refine ⟨hlen, fun _ => ?_⟩
    rw [List.length_cons]
    by_cases hl : l = []
    · rw [hl, List.length_nil]
      omega
    · have := hle hl
      omega

/-- **The loop over the blocks has read and written all of them.** -/
theorem ecbLoop_bounds {crypt : Globals → Block → Block → Block → Globals} {key : Block}
    {inp out : Buffer} {n i : ℕ} {g : Globals} {r : Globals × Buffer}
    (h : ecbLoop crypt key inp (n + 1) i g out = some r) :
    16 * (i + n + 1) ≤ inp.length ∧ 16 * (i + n + 1) ≤ out.length := by
  induction n generalizing i g out with
  | zero =>
    obtain ⟨input, hinput, h⟩ := Option.bind_eq_some_iff.mp h
    obtain ⟨l, hl, -⟩ := Option.bind_eq_some_iff.mp hinput
    obtain ⟨out', hout', -⟩ := Option.bind_eq_some_iff.mp h
    have hread := le_length_of_reads hl
    have hwrite := (length_of_writes hout').2 (by simp)
    rw [Vector.length_toList] at hwrite
    constructor <;> omega
  | succ n ih =>
    obtain ⟨input, -, h⟩ := Option.bind_eq_some_iff.mp h
    obtain ⟨out', hout', h⟩ := Option.bind_eq_some_iff.mp h
    have hlen := (length_of_writes hout').1
    have := ih h
    rw [hlen] at this
    constructor <;> omega

/-- **The padding is looked for inside the output exactly if there is a zero byte.** -/
theorem stripPadding_isSome_iff (l : List UInt8) :
    (stripPadding (ofBytes l)).isSome ↔ 0 ∈ l := by
  constructor
  · intro h
    by_contra h0
    have hnone : stripPadding (ofBytes l) = none := by
      rw [stripPadding, findPaddingIndex, strlen_ofBytes fun c hc e => h0 (e ▸ hc)]
      rfl
    rw [hnone] at h
    cases h
  · intro h0
    obtain ⟨t, rest, rfl, ht⟩ := List.eq_append_cons_of_mem h0
    have hstring : IsCString (ofBytes (t ++ 0 :: rest)) t :=
      ⟨fun c hc e => ht (e ▸ hc), ofBytes rest, ofBytes_append t (0 :: rest)⟩
    obtain ⟨out, hout, -⟩ := stripPadding_isCString hstring
    rw [hout]
    rfl

/-! ## The bounds -/

/-- The decoded buffer of a string. -/
theorem b64Decode_decodedBytes {inp : Buffer} {s : List UInt8} (h : IsCString inp s) :
    b64Decode inp s.length = some (ofBytes (decodedBytes s)) := by
  have htable : tablePrefix (s ++ [0]) s.length = tablePrefix s s.length := by
    rw [tablePrefix, tablePrefix, List.take_left, List.take_length]
  obtain ⟨rest, hinp, hstop⟩ := (holds_of_isCString h s.length).stop
  have hdec := b64DecodeEx_eq isChar_of_mem_tablePrefix hstop
  rw [← hinp, vals_tablePrefix, htable] at hdec
  rw [b64Decode, hdec, decodedBytes, ofBytes_append]
  rfl

/-- The output, after `memset`. -/
theorem memset_malloc (n : ℕ) : memset (malloc n) 0 0 n = some (ofBytes (List.replicate n 0)) := by
  have h := memset_append [] (malloc n) [] 0
  rwa [List.append_nil, List.nil_append, List.length_nil, length_malloc, List.nil_append,
    List.append_nil] at h

/-- **The loop over the blocks of the decoded buffer**, when they and their places in the
output are there: the output holds the decrypted blocks and the zeros after them. -/
theorem ecbLoop_blocks (key : Block) (g : Globals) {l : List UInt8} {n m : ℕ}
    (hin : 16 * n ≤ l.length) (hout : 16 * n ≤ m) :
    ∃ g', ecbLoop aes128EcbDecrypt key (ofBytes l) n 0 g (ofBytes (List.replicate m 0))
      = some (g', ofBytes (bytes ((blocks l n).map ⇑(Fips197.aes128 key)⁻¹)
        ++ List.replicate (m - 16 * n) 0)) := by
  obtain ⟨g', hg'⟩ := ecbLoop_eq (fun g b o => aes128EcbDecrypt_state g b key o)
    (ofBytes (l.drop (16 * n))) (ofBytes (List.replicate (m - 16 * n) 0)) [] (blocks l n) [] rfl
    (ofBytes (List.replicate (16 * n) 0))
    (by rw [length_ofBytes, List.length_replicate, length_blocks, Nat.mul_comm]) g
  have hin' : ofBytes (bytes (blocks l n)) ++ ofBytes (l.drop (16 * n)) = ofBytes l := by
    rw [bytes_blocks hin, ← ofBytes_append, List.take_append_drop]
  have hout' : ofBytes (List.replicate (16 * n) 0) ++ ofBytes (List.replicate (m - 16 * n) 0)
      = ofBytes (List.replicate m 0) := by
    rw [← ofBytes_append, ← List.replicate_add, Nat.add_sub_cancel' hout]
  rw [List.nil_append, List.nil_append, hin', length_blocks, List.length_nil, bytes_nil,
    ← ofBytes_append (bytes (List.map _ _))] at hg'
  refine ⟨g', ?_⟩
  rw [← hout']
  exact hg'

/-- A zero byte of the output is one of the zeros after the blocks, or is decrypted. -/
theorem zero_mem_output (e : Block → Block) (bs : List Block) (k : ℕ) :
    0 ∈ bytes (bs.map e) ++ List.replicate k 0 ↔ 0 < k ∨ ∃ b ∈ bs, 0 ∈ (e b).toList := by
  rw [List.mem_append, List.mem_replicate, bytes, List.mem_flatMap, or_comm]
  simp only [List.mem_map, exists_exists_and_eq_and, and_true, Nat.pos_iff_ne_zero]

/-- **The decryption of a string stays in bounds exactly when** the output has room for a
block, the blocks of the output are in the decoded buffer, and the output is not all
blocks or one of the blocks has a zero byte in it. -/
theorem staysInBounds_iff {inp : Buffer} {s : List UInt8} (h : IsCString inp s) (g : Globals)
    (key : Block) :
    StaysInBounds g inp key ↔ 24 ≤ s.length
      ∧ 16 * (outLength s / 16) ≤ (decodedBytes s).length
      ∧ (¬ 16 ∣ outLength s ∨ ∃ b ∈ blocks (decodedBytes s) (outLength s / 16),
        0 ∈ ((Fips197.aes128 key)⁻¹ b).toList) := by
  have hroom : 24 ≤ s.length ↔ 16 ≤ outLength s := by
    rw [outLength]
    omega
  set n := outLength s / 16 with hn
  have hrun : aes128EcbPkcs5PaddingDecrypt g inp key
      = (ecbLoop aes128EcbDecrypt key (ofBytes (decodedBytes s)) (if n ≤ 0 then 1 else n) 0 g
        (ofBytes (List.replicate (outLength s) 0))).bind
          fun r => (stripPadding r.2).map fun out => (r.1, out) := by
    rw [aes128EcbPkcs5PaddingDecrypt]
    simp only [strlen_eq h, b64Decode_decodedBytes h, memset_malloc, Option.bind_eq_bind,
      Option.bind_some, Option.map_eq_bind]
    rfl
  rw [StaysInBounds, hrun, hroom]
  constructor
  · intro hsome
    obtain ⟨r, hr⟩ := Option.isSome_iff_exists.mp hsome
    obtain ⟨⟨g', out⟩, hloop, -⟩ := Option.bind_eq_some_iff.mp hr
    -- the loop has run, so there is a block and all of them are inside
    have hbounds : 0 < n ∧ 16 * n ≤ (decodedBytes s).length := by
      by_cases h0 : n ≤ 0
      · rw [if_pos h0] at hloop
        have := (ecbLoop_bounds hloop).2
        rw [length_ofBytes, List.length_replicate] at this
        omega
      · obtain ⟨k, hk⟩ : ∃ k, n = k + 1 := ⟨n - 1, by omega⟩
        rw [if_neg h0, hk] at hloop
        have := (ecbLoop_bounds hloop).1
        rw [length_ofBytes] at this
        omega
    refine ⟨by omega, hbounds.2, ?_⟩
    obtain ⟨g₁, hg₁⟩ := ecbLoop_blocks key g hbounds.2 (show 16 * n ≤ outLength s by omega)
    rw [if_neg (by omega), hg₁, Option.bind_some, Option.isSome_map] at hsome
    rw [stripPadding_isSome_iff, zero_mem_output] at hsome
    refine hsome.imp_left fun hpos hdvd => ?_
    omega
  · rintro ⟨hlen, hle, hzero⟩
    obtain ⟨g₁, hg₁⟩ := ecbLoop_blocks key g hle (show 16 * n ≤ outLength s by omega)
    rw [if_neg (by omega), hg₁, Option.bind_some, Option.isSome_map, stripPadding_isSome_iff,
      zero_mem_output]
    refine hzero.imp_left fun hdvd => ?_
    omega

/-- A string of one block, as the encryption makes them. -/
theorem staysInBounds_iff_block :
    StaysInBounds startGlobals (ofBytes (List.replicate 22 0x41 ++ [0x3d, 0x3d]) ++ [some 0])
        (.replicate 16 0x31)
      ↔ 24 ≤ (List.replicate 22 (0x41 : UInt8) ++ [0x3d, 0x3d]).length
        ∧ 16 * (outLength (List.replicate 22 0x41 ++ [0x3d, 0x3d]) / 16)
          ≤ (decodedBytes (List.replicate 22 0x41 ++ [0x3d, 0x3d])).length
        ∧ (¬ 16 ∣ outLength (List.replicate 22 0x41 ++ [0x3d, 0x3d])
          ∨ ∃ b ∈ blocks (decodedBytes (List.replicate 22 0x41 ++ [0x3d, 0x3d]))
              (outLength (List.replicate 22 0x41 ++ [0x3d, 0x3d]) / 16),
            0 ∈ ((Fips197.aes128 (.replicate 16 0x31))⁻¹ b).toList) :=
  staysInBounds_iff ⟨by simp, [], rfl⟩ startGlobals _

/-- **Four characters make three bytes, of which a block is read.** -/
theorem not_staysInBounds_short :
    ¬ StaysInBounds startGlobals (ofBytes [0x41, 0x41, 0x41, 0x41] ++ [some 0])
      (.replicate 16 0x31) := by
  have hnone : aes128EcbPkcs5PaddingDecrypt startGlobals
      (ofBytes [0x41, 0x41, 0x41, 0x41] ++ [some 0]) (.replicate 16 0x31) = none := by
    decide
  rw [StaysInBounds, hnone]
  exact Bool.false_ne_true

end Aes
