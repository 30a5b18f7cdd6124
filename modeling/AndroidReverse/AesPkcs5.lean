import AndroidReverse.AesPadding
import Mathlib.Order.Bounds.Basic

/-!
# What the encryption pads with

`AES_128_ECB_PKCS5Padding_Encrypt` reads the value of a padding byte off a table of
sixteen entries, in three places with three expressions for the index. Entry 0 is 16, the
others are their own index, so the index of a padding length `p` is `p mod 16`. Two of
the places agree with that; the one for strings shorter than a block uses the length
itself, which is 16 when the string is empty.

The lengths are `int`s in the source, and here: a padded length that no `int` holds is an
overflow.
-/

open Buffer

namespace Aes

/-- The value of an `int` expression, none if it overflows. -/
def intValue (v : ℤ) : Option ℤ := if -2 ^ 31 ≤ v ∧ v < 2 ^ 31 then some v else none

/-- `(int) strlen(in)`. -/
def intLength (n : ℕ) : ℤ := (BitVec.ofNat 32 n).toInt

/-- **The index into `HEX`** of the padding bytes of a string of length `inLength`. -/
def hexIndex (inLength : ℤ) : Option ℤ :=
  if inLength < 16 then intValue (16 - inLength)
  else (intValue (16 * (inLength / 16 + 1))).map fun size =>
    if inLength % 16 = 0 then 0 else size - inLength

/-- `paddingInput` and `paddingInputLengt`, in the integers of the source. -/
def paddingInputInt (inp : Buffer) (inLength : ℤ) : Option (Buffer × ℕ) :=
  if inLength < 16 then do
    let hex ← intValue (16 - inLength)
    let b ← fillPadding inp inLength.toNat hex.toNat 16 0 (malloc 16)
    return (b, 16)
  else do
    let size ← intValue (16 * (inLength / 16 + 1))
    let dif := size - inLength
    let b ← fillPadding inp inLength.toNat (if inLength % 16 = 0 then 0 else dif).toNat size.toNat
      0 (malloc size.toNat)
    return (b, size.toNat)

/-- **The padding is right**: the buffer that is encrypted is the string and its padding,
its length is the least multiple of 16 greater than that of the string, and the index into
`HEX` is in the table. -/
structure PadsRight (inp : Buffer) (s : List UInt8) : Prop where
  buffer : paddingInputInt inp (intLength s.length)
    = some (ofBytes (s ++ List.replicate (16 - s.length % 16) (UInt8.ofNat (16 - s.length % 16))),
      16 * (s.length / 16 + 1))
  least : IsLeast {m | 16 ∣ m ∧ s.length < m} (16 * (s.length / 16 + 1))
  index : ∃ i, hexIndex (intLength s.length) = some i ∧ 0 ≤ i ∧ i < 16

theorem intValue_eq_some {v w : ℤ} : intValue v = some w ↔ v = w ∧ -2 ^ 31 ≤ v ∧ v < 2 ^ 31 := by
  unfold intValue
  split_ifs with h
  · rw [Option.some.injEq]
    exact (and_iff_left h).symm
  · exact ⟨fun h' => absurd h' (by simp), fun h' => absurd h'.2 h⟩

/-- A length that is an `int` is itself. -/
theorem intLength_eq {n : ℕ} (h : n < 2 ^ 31) : intLength n = n := by
  unfold intLength
  have hn : (BitVec.ofNat 32 n).toNat = n := by
    rw [BitVec.toNat_ofNat]
    exact Nat.mod_eq_of_lt (lt_trans h (by decide))
  rw [BitVec.toInt_eq_toNat_of_lt (by rw [hn]; omega), hn]

theorem isLeast_paddedLength (n : ℕ) : IsLeast {m | 16 ∣ m ∧ n < m} (16 * (n / 16 + 1)) := by
  refine ⟨⟨Nat.dvd_mul_right 16 _, by omega⟩, ?_⟩
  rintro m ⟨⟨k, rfl⟩, hm⟩
  have : n / 16 < k := by omega
  omega

/-- While nothing overflows, the padding is that of the natural numbers. -/
theorem paddingInputInt_eq (inp : Buffer) {n : ℕ} (h : n < 2 ^ 31 - 16) :
    paddingInputInt inp n = paddingInput inp n := by
  unfold paddingInputInt paddingInput
  dsimp only
  by_cases hlt : n < 16
  · have hv : intValue (16 - (n : ℤ)) = some (16 - (n : ℤ)) :=
      intValue_eq_some.mpr ⟨rfl, by omega, by omega⟩
    rw [if_pos (by omega : (n : ℤ) < 16), if_pos hlt, hv]
    simp only [Option.bind_eq_bind, Option.bind_some, Int.toNat_natCast]
    rw [show (16 - (n : ℤ)).toNat = 16 - n by omega]
  · have hv : intValue (16 * ((n : ℤ) / 16 + 1)) = some (16 * ((n : ℤ) / 16 + 1)) :=
      intValue_eq_some.mpr ⟨rfl, by omega, by omega⟩
    have hsize : (16 * ((n : ℤ) / 16 + 1)).toNat = 16 * (n / 16 + 1) := by omega
    have hhex : (if (n : ℤ) % 16 = 0 then 0 else 16 * ((n : ℤ) / 16 + 1) - n).toNat
        = if n % 16 = 0 then 0 else 16 * (n / 16 + 1) - n := by
      split_ifs <;> omega
    rw [if_neg (by omega : ¬ (n : ℤ) < 16), if_neg hlt, hv]
    simp only [Option.bind_eq_bind, Option.bind_some, Int.toNat_natCast, hsize, hhex]

/-- The length returned is an `int`, and a multiple of 16. -/
theorem paddingInputInt_length {inp b : Buffer} {inLength : ℤ} {m : ℕ}
    (h : paddingInputInt inp inLength = some (b, m)) : m ≤ 2 ^ 31 - 16 := by
  unfold paddingInputInt at h
  by_cases hlt : inLength < 16
  · rw [if_pos hlt] at h
    obtain ⟨hex, -, h⟩ := Option.bind_eq_some_iff.mp h
    obtain ⟨b', -, h⟩ := Option.bind_eq_some_iff.mp h
    obtain rfl : 16 = m := congrArg Prod.snd (Option.some.inj h)
    omega
  · rw [if_neg hlt] at h
    obtain ⟨size, hs, h⟩ := Option.bind_eq_some_iff.mp h
    obtain ⟨b', -, h⟩ := Option.bind_eq_some_iff.mp h
    obtain rfl : size.toNat = m := congrArg Prod.snd (Option.some.inj h)
    obtain ⟨rfl, -, hlt⟩ := intValue_eq_some.mp hs
    omega

/-- **The padding is right exactly for a string that is not empty**, of a length whose
padded length is an `int`. -/
theorem padsRight_iff {inp : Buffer} {s : List UInt8} (h : IsCString inp s) :
    PadsRight inp s ↔ 0 < s.length ∧ s.length < 2 ^ 31 - 16 := by
  constructor
  · intro hp
    have hm := paddingInputInt_length hp.buffer
    refine ⟨Nat.pos_of_ne_zero (fun h0 => ?_), by omega⟩
    obtain ⟨i, hi, -, hlt⟩ := hp.index
    rw [h0] at hi
    obtain rfl : 16 = i := Option.some.inj hi
    omega
  · rintro ⟨h0, hlt⟩
    obtain ⟨-, rest, rfl⟩ := h
    have hint := intLength_eq (show s.length < 2 ^ 31 by omega)
    refine ⟨?_, isLeast_paddedLength s.length, ?_⟩
    · rw [hint, paddingInputInt_eq _ hlt,
        paddingInput_eq (List.ne_nil_of_length_pos h0), length_pad]
      rfl
    · rw [hint, hexIndex]
      by_cases h16 : s.length < 16
      · rw [if_pos (by omega : (s.length : ℤ) < 16)]
        exact ⟨_, intValue_eq_some.mpr ⟨rfl, by omega, by omega⟩, by omega, by omega⟩
      · rw [if_neg (by omega : ¬ (s.length : ℤ) < 16),
          intValue_eq_some.mpr ⟨rfl, by omega, by omega⟩]
        refine ⟨_, rfl, ?_, ?_⟩ <;> dsimp only <;> split_ifs <;> omega

/-- A whole block gets another block of padding. -/
theorem padsRight_iff_block :
    PadsRight (ofBytes (List.replicate 16 0x41) ++ [some 0]) (List.replicate 16 0x41)
      ↔ 0 < (List.replicate 16 (0x41 : UInt8)).length
        ∧ (List.replicate 16 (0x41 : UInt8)).length < 2 ^ 31 - 16 :=
  padsRight_iff ⟨by simp, [], rfl⟩

/-- **The empty string is padded with `HEX[16]`**, behind the table. -/
theorem not_padsRight_empty : IsCString [some 0] [] ∧ ¬ PadsRight [some 0] [] := by
  refine ⟨⟨List.forall_mem_nil _, [], rfl⟩, fun h => ?_⟩
  obtain ⟨i, hi, -, hlt⟩ := h.index
  obtain rfl : 16 = i := Option.some.inj hi
  omega

end Aes
