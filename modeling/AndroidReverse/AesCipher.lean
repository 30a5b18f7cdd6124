import AndroidReverse.Aes
import AndroidReverse.Fips197

/-!
# The block cipher is AES-128

Each function of `aes.c` computes the transformation of the standard of its name, read on
the field elements its bytes denote. The tables are the S-box and its inverse
(`ofByte_getSBoxValue`, `ofByte_getSBoxInvert`), the three `xtime`s of a column are its
product with `{03}x³ + {01}x² + {01}x + {02}` (`stateOf_mixColumns`), and the truncated
`Multiply` is the product for the factors `InvMixColumns` uses (`Multiply_eq_mul`). The
array `RoundKey` holds the words of the key schedule whatever it held before
(`byte_keyExpansion`).

So `AES128_ECB_encrypt` is AES-128 and `AES128_ECB_decrypt` its inverse
(`aes128EcbEncrypt_state`, `aes128EcbDecrypt_state`), from any state of the global
variables; that they undo one another is then a fact about permutations.
-/

open Gf256

namespace Aes

/-! ## The S-box -/

/-- The affine map of the S-box on a byte, by its rotations. -/
def affineByte (b : UInt8) : UInt8 :=
  b ^^^ rotl b 1 ^^^ rotl b 2 ^^^ rotl b 3 ^^^ rotl b 4 ^^^ 0x63
where
  rotl (b n : UInt8) : UInt8 := (b <<< n) ||| (b >>> (8 - n))

theorem bits_affineByte : ∀ (b : UInt8) (i : Fin 8),
    bits (affineByte b) i = Fips197.affine (bits b) i := by
  decide +kernel

theorem sbox_eq : sbox.toList = invTable.toList.map affineByte := by
  decide +kernel

theorem getSBoxValue_eq (b : UInt8) : getSBoxValue b = affineByte (inv b) := by
  have h : sbox = invTable.map affineByte :=
    Vector.toList_inj.mp (by rw [sbox_eq, Vector.toList_map])
  rw [getSBoxValue, inv, h]
  exact Vector.getElem_map _ _

/-- **The table `sbox` is the S-box.** -/
theorem ofByte_getSBoxValue (b : UInt8) : ofByte (getSBoxValue b) = Fips197.sBox (ofByte b) := by
  rw [Fips197.sBox_apply, ← ofByte_inv, coeffs_ofByte, ofByte_apply, getSBoxValue_eq]
  exact congrArg modulus.residue (funext (bits_affineByte _))

theorem getSBoxValue_getSBoxInvert : ∀ b : UInt8, getSBoxValue (getSBoxInvert b) = b := by
  have htable : ∀ p ∈ rsbox.toList.zipIdx, sbox.toList.getD p.1.toNat 0 = UInt8.ofNat p.2 := by
    decide +kernel
  intro b
  have h := htable _ (mem_zipIdx_get rsbox ⟨b.toNat, b.toNat_lt⟩)
  rw [UInt8.ofNat_toNat] at h
  refine Eq.trans ?_ h
  rw [List.getD_eq_getElem?_getD, Vector.getElem?_toList,
    Vector.getElem?_eq_getElem (UInt8.toNat_lt _)]
  rfl

/-- **The table `rsbox` is the inverse S-box.** -/
theorem ofByte_getSBoxInvert (b : UInt8) :
    ofByte (getSBoxInvert b) = Fips197.sBox⁻¹ (ofByte b) := by
  rw [Equiv.Perm.eq_inv_iff_eq, ← ofByte_getSBoxValue, getSBoxValue_getSBoxInvert]

/-! ## The transformations -/

/-- The state of the standard, cell by cell: column `c` is `(*state)[c]`. -/
theorem stateOf_apply (s : State) (r c : Fin 4) :
    Fips197.stateOf s r c = ofByte (cell s c r) :=
  congrArg ofByte (getElem_congr_idx (by omega))

theorem stateOf_subBytes (s : State) :
    Fips197.stateOf (subBytes s) = Fips197.subBytes (Fips197.stateOf s) := by
  funext r c
  rw [Fips197.subBytes_apply, stateOf_apply, stateOf_apply, subBytes, cell_forCellsByRow,
    ofByte_getSBoxValue]

theorem stateOf_invSubBytes (s : State) :
    Fips197.stateOf (invSubBytes s) = Fips197.subBytes⁻¹ (Fips197.stateOf s) := by
  funext r c
  rw [Fips197.subBytes_inv_apply, stateOf_apply, stateOf_apply, invSubBytes, cell_forCellsByRow,
    ofByte_getSBoxInvert]

theorem stateOf_shiftRows (s : State) :
    Fips197.stateOf (shiftRows s) = Fips197.shiftRows (Fips197.stateOf s) := by
  funext r c
  rw [Fips197.shiftRows_apply, stateOf_apply, stateOf_apply, cell_shiftRows]

theorem stateOf_invShiftRows (s : State) :
    Fips197.stateOf (invShiftRows s) = Fips197.shiftRows⁻¹ (Fips197.stateOf s) := by
  funext r c
  rw [Fips197.shiftRows_inv_apply, stateOf_apply, stateOf_apply, cell_invShiftRows]

@[simp] theorem ofByte_xtime (b : UInt8) : ofByte (xtime b) = x * ofByte b := ofByte_timesX b

theorem ofByte_two : ofByte 2 = x := by
  rw [show (2 : UInt8) = timesX 1 from rfl, ofByte_timesX, ofByte_one, mul_one]

theorem ofByte_three : ofByte 3 = x + 1 := by
  rw [show (3 : UInt8) = 2 ^^^ 1 from rfl, ofByte_xor, ofByte_two, ofByte_one]

/-- **The trick with the sum of a column is its product with the fixed polynomial.** -/
theorem stateOf_mixColumns (s : State) :
    Fips197.stateOf (mixColumns s) = Fips197.mixColumns (Fips197.stateOf s) := by
  funext r c
  rw [Fips197.mixColumns_apply, stateOf_apply, cell_mixColumns, Fin.sum_univ_four]
  simp only [stateOf_apply]
  fin_cases r <;> simp [mixColumn, Fips197.mixBytes, ofByte_two, ofByte_three]
  · linear_combination ofByte (cell s c 0) * two_eq_zero
  · linear_combination ofByte (cell s c 1) * two_eq_zero
  · linear_combination ofByte (cell s c 2) * two_eq_zero
  · linear_combination ofByte (cell s c 3) * two_eq_zero

/-- A bit of a factor of `Multiply`, as a factor of its own. -/
theorem bit_mul (y z : UInt8) {n : ℕ} (hn : n < 8) :
    (y >>> UInt8.ofNat n &&& (1 : UInt8)) * z = if y.toNat.testBit n then z else 0 := by
  have hbit : ∀ y : UInt8, ∀ n < 8,
      y >>> UInt8.ofNat n &&& (1 : UInt8) = if y.toNat.testBit n then 1 else 0 := by
    decide +kernel
  rw [hbit y n hn]
  split
  · exact UInt8.one_mul z
  · exact UInt8.zero_mul

/-- **`Multiply` is the product for the factors below 32.** -/
theorem Multiply_eq_mul (b y : UInt8) (hy : y < 32) : Multiply b y = mul b y := by
  have hhigh : ∀ n, 5 ≤ n → y.toNat.testBit n = false := fun n hn =>
    Nat.testBit_lt_two_pow (hy.trans_le (Nat.pow_le_pow_right (by decide) hn))
  have hmul : mul b y = 0 ^^^ (if y.toNat.testBit 0 then b else 0)
      ^^^ (if y.toNat.testBit 1 then xtime b else 0)
      ^^^ (if y.toNat.testBit 2 then xtime (xtime b) else 0)
      ^^^ (if y.toNat.testBit 3 then xtime (xtime (xtime b)) else 0)
      ^^^ (if y.toNat.testBit 4 then xtime (xtime (xtime (xtime b))) else 0)
      ^^^ (if y.toNat.testBit 5 then timesX^[5] b else 0)
      ^^^ (if y.toNat.testBit 6 then timesX^[6] b else 0)
      ^^^ (if y.toNat.testBit 7 then timesX^[7] b else 0) := rfl
  rw [hmul, hhigh 5 (by decide), hhigh 6 (by decide), hhigh 7 (by decide), if_neg Bool.false_ne_true,
    if_neg Bool.false_ne_true, if_neg Bool.false_ne_true, UInt8.xor_zero, UInt8.xor_zero,
    UInt8.xor_zero, UInt8.zero_xor, ← bit_mul y b (show 0 < 8 by decide),
    ← bit_mul y (xtime b) (show 1 < 8 by decide),
    ← bit_mul y (xtime (xtime b)) (show 2 < 8 by decide),
    ← bit_mul y (xtime (xtime (xtime b))) (show 3 < 8 by decide),
    ← bit_mul y (xtime (xtime (xtime (xtime b)))) (show 4 < 8 by decide),
    show UInt8.ofNat 0 = 0 from rfl, UInt8.shiftRight_zero]
  rfl

/-- **The four products of a cell are a coefficient of the product with the inverse
polynomial.** -/
theorem stateOf_invMixColumns (s : State) :
    Fips197.stateOf (invMixColumns s) = Fips197.mixColumns⁻¹ (Fips197.stateOf s) := by
  have hmul : ∀ b y : UInt8, y < 32 → ofByte (Multiply b y) = ofByte y * ofByte b :=
    fun b y hy => by rw [Multiply_eq_mul b y hy, ofByte_mul, mul_comm]
  funext r c
  rw [Fips197.mixColumns_inv_apply, stateOf_apply, cell_invMixColumns, Fin.sum_univ_four]
  simp only [stateOf_apply]
  fin_cases r <;> simp [invMixColumn, Fips197.invMixBytes, hmul]

theorem stateOf_addRoundKey (rk : RoundKey) (round : Fin 11) (s : State) :
    Fips197.stateOf (addRoundKey rk round s)
      = Fips197.addRoundKey (fun r c => ofByte (rk.byte ⟨4 * round.val + c.val, by omega⟩ r))
        (Fips197.stateOf s) := by
  funext r c
  rw [Fips197.addRoundKey_apply, Pi.add_apply, Pi.add_apply, stateOf_apply, stateOf_apply,
    addRoundKey, cell_forCells, ofByte_xor]
  exact congrArg (_ + ofByte ·) (getElem_congr_idx (by ring))

/-! ## The key schedule -/

theorem ofByte_Rcon {i : ℕ} (hi : i < 255) (h0 : 0 < i) (h : i ≤ 10) :
    ofByte Rcon[i] = x ^ (i - 1) := by
  have htable : ∀ i (hi : i < 255), 0 < i → i ≤ 10 → Rcon[i] = timesX^[i - 1] 1 := by
    intro i hi h0 h
    interval_cases i <;> rfl
  rw [htable i hi h0 h, ofByte_timesX_iterate, ofByte_one, mul_one]

/-- `tempa` is the transformed word before, as the key schedule has it. -/
theorem ofByte_tempaOf {rk : RoundKey} {w : Fin 4 → Field256} {i : Fin 44} (h4 : 4 ≤ i.val)
    (hw : ∀ j, ofByte (rk.byte ⟨i.val - 1, by omega⟩ j) = w j) (j : Fin 4) :
    ofByte (tempaOf rk i)[j.val]
      = (if i.val % 4 = 0 then Fips197.subWord (Fips197.rotWord w) + Fips197.rcon (i.val / 4)
          else w) j := by
  have hrcon : ofByte Rcon[i.val / 4] = x ^ (i.val / 4 - 1) :=
    ofByte_Rcon (by omega) (by omega) (by omega)
  rw [tempaOf]
  by_cases h : i.val % 4 = 0
  · rw [if_pos h, if_pos h]
    fin_cases j <;>
      simp [subWord, rotWord, Fips197.subWord, Fips197.rotWord, Fips197.rcon, hw, hrcon,
        ofByte_getSBoxValue]
  · rw [if_neg h, if_neg h, if_neg (fun h => absurd h.1 (by decide)), Vector.getElem_ofFn, hw]

/-- The word a round of the loop writes, and the words it leaves alone. -/
theorem byte_expandWord (rk : RoundKey) {i : Fin 44} (h4 : 4 ≤ i.val) (i' : Fin 44) (j : Fin 4) :
    (expandWord rk i).byte i' j
      = if i' = i then rk.byte ⟨i.val - 4, by omega⟩ j ^^^ (tempaOf rk i)[j.val]
        else rk.byte i' j := by
  have hne : ⟨i.val - 4, by omega⟩ ≠ i := fun h => by
    have := congrArg Fin.val h
    dsimp only at this
    omega
  by_cases hi : i' = i
  · rw [if_pos hi, hi]
    fin_cases j <;> simp [expandWord, hne]
  · rw [if_neg hi]
    simp [expandWord, hi]

theorem byte_copyKey (key : Block) (rk : RoundKey) (i j : Fin 4) :
    (copyKey key rk).byte (i.castLE (by decide)) j = key[4 * i.val + j.val] := by
  fin_cases i <;> fin_cases j <;> simp [copyKey, for4]

/-- The words written by the first rounds of the loop. -/
theorem byte_expandWords (key : Block) (rk : RoundKey) (j : Fin 4) (n : ℕ) (hn : n ≤ 40)
    (i : Fin 44) (hi : i.val < 4 + n) :
    ofByte ((expandWords (copyKey key rk) n hn).byte i j)
      = Fips197.word (Fips197.keyWords key) i j := by
  induction n generalizing i j with
  | zero =>
    rw [expandWords, show i = (⟨i.val, hi⟩ : Fin 4).castLE (by decide) from rfl, byte_copyKey]
    obtain ⟨i, hi44⟩ := i
    have hi' : i < 4 := hi
    interval_cases i <;> rfl
  | succ n ih =>
    have hprev : ∀ (i : Fin 44) (j : Fin 4), i.val < 4 + n →
        ofByte ((expandWords (copyKey key rk) n (by omega)).byte i j)
          = Fips197.word (Fips197.keyWords key) i j := fun i j hi => ih j (by omega) i hi
    have hn4 : 4 ≤ (⟨4 + n, by omega⟩ : Fin 44).val := Nat.le_add_right 4 n
    rw [expandWords, byte_expandWord _ hn4]
    by_cases h : i = ⟨4 + n, by omega⟩
    · have hbefore : ∀ j, ofByte ((expandWords (copyKey key rk) n (by omega)).byte
          ⟨4 + n - 1, by omega⟩ j) = Fips197.word (Fips197.keyWords key) (n + 3) j := fun j =>
        (hprev _ j (show 4 + n - 1 < 4 + n by omega)).trans
          (congrArg (Fips197.word _ · j) (show 4 + n - 1 = n + 3 by omega))
      have hfourth : ofByte ((expandWords (copyKey key rk) n (by omega)).byte
          ⟨4 + n - 4, by omega⟩ j) = Fips197.word (Fips197.keyWords key) n j :=
        (hprev _ j (show 4 + n - 4 < 4 + n by omega)).trans
          (congrArg (Fips197.word _ · j) (show 4 + n - 4 = n by omega))
      rw [if_pos h, ofByte_xor, ofByte_tempaOf hn4 hbefore, hfourth, h,
        show (⟨4 + n, by omega⟩ : Fin 44).val = n + 4 from add_comm 4 n, Fips197.word]
      rfl
    · rw [if_neg h]
      exact hprev i j (by
        have : i.val ≠ 4 + n := fun e => h (Fin.ext e)
        omega)

/-- **The array `RoundKey` holds the words of the key schedule**, whatever it held before. -/
theorem byte_keyExpansion (key : Block) (rk : RoundKey) (i : Fin 44) (j : Fin 4) :
    ofByte ((keyExpansion key rk).byte i j) = Fips197.word (Fips197.keyWords key) i j :=
  byte_expandWords key rk j 40 le_rfl i i.isLt

/-! ## The cipher -/

section Cipher

variable {rk : RoundKey} {k : ℕ → Fips197.State}

/-- The round keys in the array are `k`. -/
def HoldsRoundKeys (rk : RoundKey) (k : ℕ → Fips197.State) : Prop :=
  ∀ (round : Fin 11) (r c : Fin 4),
    ofByte (rk.byte ⟨4 * round.val + c.val, by omega⟩ r) = k round.val r c

theorem HoldsRoundKeys.addRoundKey (hk : HoldsRoundKeys rk k) (round : Fin 11) (s : State) :
    Fips197.stateOf (addRoundKey rk round s)
      = Fips197.addRoundKey (k round.val) (Fips197.stateOf s) := by
  rw [stateOf_addRoundKey]
  exact congrArg (fun k => Fips197.addRoundKey k (Fips197.stateOf s))
    (funext fun r => funext fun c => hk round r c)

theorem stateOf_cipherRounds (hk : HoldsRoundKeys rk k) (n : ℕ) (hn : n < 11) (s : State) :
    Fips197.stateOf (cipherRounds rk n hn s) = Fips197.rounds k n (Fips197.stateOf s) := by
  induction n with
  | zero => rfl
  | succ n ih =>
    rw [cipherRounds, hk.addRoundKey, stateOf_mixColumns, stateOf_shiftRows, stateOf_subBytes, ih]
    rfl

/-- **`Cipher()` is the cipher of ten rounds.** -/
theorem stateOf_cipher (hk : HoldsRoundKeys rk k) (s : State) :
    Fips197.stateOf (cipher rk s) = Fips197.cipher k 9 (Fips197.stateOf s) := by
  have hfirst : ∀ s, Fips197.stateOf (addRoundKey rk 0 s)
      = Fips197.addRoundKey (k 0) (Fips197.stateOf s) := hk.addRoundKey 0
  have hlast : ∀ s, Fips197.stateOf (addRoundKey rk 10 s)
      = Fips197.addRoundKey (k (9 + 1)) (Fips197.stateOf s) := hk.addRoundKey 10
  rw [cipher, hlast, stateOf_shiftRows, stateOf_subBytes, stateOf_cipherRounds hk, hfirst,
    Fips197.cipher, Equiv.Perm.mul_apply, Equiv.Perm.mul_apply, Equiv.Perm.mul_apply,
    Equiv.Perm.mul_apply]

theorem stateOf_invCipherRounds (hk : HoldsRoundKeys rk k) (n : ℕ) (hn : n < 11) (s : State) :
    Fips197.stateOf (invCipherRounds rk n hn s) = Fips197.invRounds k n (Fips197.stateOf s) := by
  induction n generalizing s with
  | zero => rfl
  | succ n ih =>
    rw [invCipherRounds, ih, stateOf_invMixColumns, hk.addRoundKey, stateOf_invSubBytes,
      stateOf_invShiftRows]
    rfl

/-- **`InvCipher()` is the inverse cipher.** -/
theorem stateOf_invCipher (hk : HoldsRoundKeys rk k) (s : State) :
    Fips197.stateOf (invCipher rk s) = Fips197.invCipher k 9 (Fips197.stateOf s) := by
  have hfirst : ∀ s, Fips197.stateOf (addRoundKey rk 10 s)
      = Fips197.addRoundKey (k (9 + 1)) (Fips197.stateOf s) := hk.addRoundKey 10
  have hlast : ∀ s, Fips197.stateOf (addRoundKey rk 0 s)
      = Fips197.addRoundKey (k 0) (Fips197.stateOf s) := hk.addRoundKey 0
  rw [invCipher, hlast, stateOf_invSubBytes, stateOf_invShiftRows, stateOf_invCipherRounds hk,
    hfirst, Fips197.invCipher, Equiv.Perm.mul_apply, Equiv.Perm.mul_apply,
    Equiv.Perm.mul_apply, Equiv.Perm.mul_apply]

end Cipher

theorem holdsRoundKeys_keyExpansion (key : Block) (rk : RoundKey) :
    HoldsRoundKeys (keyExpansion key rk) (Fips197.roundKey (Fips197.keyWords key)) :=
  fun _ r _ => byte_keyExpansion key rk _ r

/-- The copy of a block is the block. -/
theorem blockCopy_eq (output input : Block) : blockCopy output input = input := by
  have hcopy : ∀ (l : List (Fin 16)) (output : Block) (i : Fin 16),
      (l.foldl (fun output i => output.set i.val input[i.val]) output)[i.val]
        = if i ∈ l then input[i.val] else output[i.val] := by
    intro l
    induction l with
    | nil => exact fun _ _ => rfl
    | cons a l ih =>
      intro output i
      rw [List.foldl_cons, ih]
      by_cases hl : i ∈ l
      · rw [if_pos hl, if_pos (List.mem_cons_of_mem a hl)]
      · by_cases ha : i = a
        · rw [if_neg hl, ha, if_pos List.mem_cons_self, Vector.getElem_set_self]
        · rw [if_neg hl, if_neg (fun h => (List.mem_cons.mp h).elim ha hl),
            Vector.getElem_set_ne _ _ (fun h => ha (Fin.ext h.symm))]
  exact Vector.ext fun i hi =>
    (hcopy _ output ⟨i, hi⟩).trans (if_pos (List.mem_finRange _))

/-- **`AES128_ECB_encrypt` is AES-128**, from any state of the variables of file scope and
any contents of the output buffer. -/
theorem aes128EcbEncrypt_state (g : Globals) (input key output : Block) :
    (aes128EcbEncrypt g input key output).state = Fips197.aes128 key input := by
  refine Fips197.stateOf.injective ?_
  show Fips197.stateOf (cipher (keyExpansion key g.roundKey) (blockCopy output input)) = _
  rw [blockCopy_eq, stateOf_cipher (holdsRoundKeys_keyExpansion key g.roundKey),
    Fips197.stateOf_aes128]

/-- **`AES128_ECB_decrypt` is the inverse of AES-128.** -/
theorem aes128EcbDecrypt_state (g : Globals) (input key output : Block) :
    (aes128EcbDecrypt g input key output).state = (Fips197.aes128 key)⁻¹ input := by
  refine Fips197.stateOf.injective ?_
  show Fips197.stateOf (invCipher (keyExpansion key g.roundKey) (blockCopy output input)) = _
  rw [blockCopy_eq, stateOf_invCipher (holdsRoundKeys_keyExpansion key g.roundKey),
    Fips197.stateOf_aes128_inv]

/-- **The encrypted block, element by element**: the cipher of ten rounds under the key
schedule of the key, on the state that the block fills column by column. -/
theorem aes128EcbEncrypt_conforms (g : Globals) (input key output : Block) (r c : Fin 4) :
    ofByte (aes128EcbEncrypt g input key output).state[r.val + 4 * c.val]
      = Fips197.cipher (Fips197.roundKey fun i j => ofByte key[4 * i.val + j.val]) 9
        (fun r c => ofByte input[r.val + 4 * c.val]) r c := by
  have hkey : Fips197.keyWords key = fun i j => ofByte key[4 * i.val + j.val] := rfl
  have hinput : Fips197.stateOf input = fun r c => ofByte input[r.val + 4 * c.val] := rfl
  rw [← hkey, ← hinput, ← Fips197.stateOf_aes128, aes128EcbEncrypt_state]
  rfl

/-- **Encryption and decryption undo one another**, under one key, from any two states of
the variables of file scope. -/
theorem aes128Ecb_inverse (g g' : Globals) (b k output output' : Block) :
    (aes128EcbDecrypt g' (aes128EcbEncrypt g b k output).state k output').state = b
      ∧ (aes128EcbEncrypt g' (aes128EcbDecrypt g b k output).state k output').state = b := by
  constructor
  · rw [aes128EcbDecrypt_state, aes128EcbEncrypt_state, Equiv.Perm.inv_def, Equiv.symm_apply_apply]
  · rw [aes128EcbEncrypt_state, aes128EcbDecrypt_state, Equiv.Perm.inv_def, Equiv.apply_symm_apply]

end Aes
