import Mathlib.Algebra.Group.Fin.Basic
import Mathlib.Algebra.GroupWithZero.Nat
import Mathlib.Data.Fintype.Basic
import Mathlib.Tactic.FinCases

/-!
# The block cipher of `aes.c`

`AES128_ECB_encrypt` and `AES128_ECB_decrypt` as the file computes them, over its tables and
with its loops. `state` is a pointer into the output buffer cast to `uint8_t[4][4]`, so
`(*state)[i][j]` is byte `4 * i + j` of that buffer (`cell`, `setCell`), and the file scope
variables `state`, `RoundKey` and `Key` are a record (`Globals`) that the two entry points
take and return. Integer arithmetic on `uint8_t` operands is carried out in `int` and cut
back to eight bits on assignment; none of it depends on the bits that are cut, so it is
written in `UInt8`.

Beside each transformation stands what it leaves in a cell.
-/

namespace Aes

/-- Sixteen bytes: a block, or a key. -/
abbrev Block : Type := Vector UInt8 16

/-- The intermediate result, `state_t`. -/
abbrev State : Type := Vector UInt8 16

/-- The array `RoundKey`. -/
abbrev RoundKey : Type := Vector UInt8 176

/-- The indices below 4 have a zero. -/
local instance neZeroFour : NeZero 4 := ⟨by decide⟩

/-- The loop `for (i = 0; i < 4; ++i)`. -/
def for4 {α : Type} (body : Fin 4 → α → α) (a : α) : α := body 3 (body 2 (body 1 (body 0 a)))

/-! ## Tables -/

set_option maxRecDepth 4000 in
def sbox : Vector UInt8 256 :=
  #v[0x63, 0x7c, 0x77, 0x7b, 0xf2, 0x6b, 0x6f, 0xc5, 0x30, 0x01, 0x67, 0x2b, 0xfe, 0xd7, 0xab, 0x76,
    0xca, 0x82, 0xc9, 0x7d, 0xfa, 0x59, 0x47, 0xf0, 0xad, 0xd4, 0xa2, 0xaf, 0x9c, 0xa4, 0x72, 0xc0,
    0xb7, 0xfd, 0x93, 0x26, 0x36, 0x3f, 0xf7, 0xcc, 0x34, 0xa5, 0xe5, 0xf1, 0x71, 0xd8, 0x31, 0x15,
    0x04, 0xc7, 0x23, 0xc3, 0x18, 0x96, 0x05, 0x9a, 0x07, 0x12, 0x80, 0xe2, 0xeb, 0x27, 0xb2, 0x75,
    0x09, 0x83, 0x2c, 0x1a, 0x1b, 0x6e, 0x5a, 0xa0, 0x52, 0x3b, 0xd6, 0xb3, 0x29, 0xe3, 0x2f, 0x84,
    0x53, 0xd1, 0x00, 0xed, 0x20, 0xfc, 0xb1, 0x5b, 0x6a, 0xcb, 0xbe, 0x39, 0x4a, 0x4c, 0x58, 0xcf,
    0xd0, 0xef, 0xaa, 0xfb, 0x43, 0x4d, 0x33, 0x85, 0x45, 0xf9, 0x02, 0x7f, 0x50, 0x3c, 0x9f, 0xa8,
    0x51, 0xa3, 0x40, 0x8f, 0x92, 0x9d, 0x38, 0xf5, 0xbc, 0xb6, 0xda, 0x21, 0x10, 0xff, 0xf3, 0xd2,
    0xcd, 0x0c, 0x13, 0xec, 0x5f, 0x97, 0x44, 0x17, 0xc4, 0xa7, 0x7e, 0x3d, 0x64, 0x5d, 0x19, 0x73,
    0x60, 0x81, 0x4f, 0xdc, 0x22, 0x2a, 0x90, 0x88, 0x46, 0xee, 0xb8, 0x14, 0xde, 0x5e, 0x0b, 0xdb,
    0xe0, 0x32, 0x3a, 0x0a, 0x49, 0x06, 0x24, 0x5c, 0xc2, 0xd3, 0xac, 0x62, 0x91, 0x95, 0xe4, 0x79,
    0xe7, 0xc8, 0x37, 0x6d, 0x8d, 0xd5, 0x4e, 0xa9, 0x6c, 0x56, 0xf4, 0xea, 0x65, 0x7a, 0xae, 0x08,
    0xba, 0x78, 0x25, 0x2e, 0x1c, 0xa6, 0xb4, 0xc6, 0xe8, 0xdd, 0x74, 0x1f, 0x4b, 0xbd, 0x8b, 0x8a,
    0x70, 0x3e, 0xb5, 0x66, 0x48, 0x03, 0xf6, 0x0e, 0x61, 0x35, 0x57, 0xb9, 0x86, 0xc1, 0x1d, 0x9e,
    0xe1, 0xf8, 0x98, 0x11, 0x69, 0xd9, 0x8e, 0x94, 0x9b, 0x1e, 0x87, 0xe9, 0xce, 0x55, 0x28, 0xdf,
    0x8c, 0xa1, 0x89, 0x0d, 0xbf, 0xe6, 0x42, 0x68, 0x41, 0x99, 0x2d, 0x0f, 0xb0, 0x54, 0xbb, 0x16]

set_option maxRecDepth 4000 in
def rsbox : Vector UInt8 256 :=
  #v[0x52, 0x09, 0x6a, 0xd5, 0x30, 0x36, 0xa5, 0x38, 0xbf, 0x40, 0xa3, 0x9e, 0x81, 0xf3, 0xd7, 0xfb,
    0x7c, 0xe3, 0x39, 0x82, 0x9b, 0x2f, 0xff, 0x87, 0x34, 0x8e, 0x43, 0x44, 0xc4, 0xde, 0xe9, 0xcb,
    0x54, 0x7b, 0x94, 0x32, 0xa6, 0xc2, 0x23, 0x3d, 0xee, 0x4c, 0x95, 0x0b, 0x42, 0xfa, 0xc3, 0x4e,
    0x08, 0x2e, 0xa1, 0x66, 0x28, 0xd9, 0x24, 0xb2, 0x76, 0x5b, 0xa2, 0x49, 0x6d, 0x8b, 0xd1, 0x25,
    0x72, 0xf8, 0xf6, 0x64, 0x86, 0x68, 0x98, 0x16, 0xd4, 0xa4, 0x5c, 0xcc, 0x5d, 0x65, 0xb6, 0x92,
    0x6c, 0x70, 0x48, 0x50, 0xfd, 0xed, 0xb9, 0xda, 0x5e, 0x15, 0x46, 0x57, 0xa7, 0x8d, 0x9d, 0x84,
    0x90, 0xd8, 0xab, 0x00, 0x8c, 0xbc, 0xd3, 0x0a, 0xf7, 0xe4, 0x58, 0x05, 0xb8, 0xb3, 0x45, 0x06,
    0xd0, 0x2c, 0x1e, 0x8f, 0xca, 0x3f, 0x0f, 0x02, 0xc1, 0xaf, 0xbd, 0x03, 0x01, 0x13, 0x8a, 0x6b,
    0x3a, 0x91, 0x11, 0x41, 0x4f, 0x67, 0xdc, 0xea, 0x97, 0xf2, 0xcf, 0xce, 0xf0, 0xb4, 0xe6, 0x73,
    0x96, 0xac, 0x74, 0x22, 0xe7, 0xad, 0x35, 0x85, 0xe2, 0xf9, 0x37, 0xe8, 0x1c, 0x75, 0xdf, 0x6e,
    0x47, 0xf1, 0x1a, 0x71, 0x1d, 0x29, 0xc5, 0x89, 0x6f, 0xb7, 0x62, 0x0e, 0xaa, 0x18, 0xbe, 0x1b,
    0xfc, 0x56, 0x3e, 0x4b, 0xc6, 0xd2, 0x79, 0x20, 0x9a, 0xdb, 0xc0, 0xfe, 0x78, 0xcd, 0x5a, 0xf4,
    0x1f, 0xdd, 0xa8, 0x33, 0x88, 0x07, 0xc7, 0x31, 0xb1, 0x12, 0x10, 0x59, 0x27, 0x80, 0xec, 0x5f,
    0x60, 0x51, 0x7f, 0xa9, 0x19, 0xb5, 0x4a, 0x0d, 0x2d, 0xe5, 0x7a, 0x9f, 0x93, 0xc9, 0x9c, 0xef,
    0xa0, 0xe0, 0x3b, 0x4d, 0xae, 0x2a, 0xf5, 0xb0, 0xc8, 0xeb, 0xbb, 0x3c, 0x83, 0x53, 0x99, 0x61,
    0x17, 0x2b, 0x04, 0x7e, 0xba, 0x77, 0xd6, 0x26, 0xe1, 0x69, 0x14, 0x63, 0x55, 0x21, 0x0c, 0x7d]

set_option maxRecDepth 4000 in
def Rcon : Vector UInt8 255 :=
  #v[0x8d, 0x01, 0x02, 0x04, 0x08, 0x10, 0x20, 0x40, 0x80, 0x1b, 0x36, 0x6c, 0xd8, 0xab, 0x4d, 0x9a,
    0x2f, 0x5e, 0xbc, 0x63, 0xc6, 0x97, 0x35, 0x6a, 0xd4, 0xb3, 0x7d, 0xfa, 0xef, 0xc5, 0x91, 0x39,
    0x72, 0xe4, 0xd3, 0xbd, 0x61, 0xc2, 0x9f, 0x25, 0x4a, 0x94, 0x33, 0x66, 0xcc, 0x83, 0x1d, 0x3a,
    0x74, 0xe8, 0xcb, 0x8d, 0x01, 0x02, 0x04, 0x08, 0x10, 0x20, 0x40, 0x80, 0x1b, 0x36, 0x6c, 0xd8,
    0xab, 0x4d, 0x9a, 0x2f, 0x5e, 0xbc, 0x63, 0xc6, 0x97, 0x35, 0x6a, 0xd4, 0xb3, 0x7d, 0xfa, 0xef,
    0xc5, 0x91, 0x39, 0x72, 0xe4, 0xd3, 0xbd, 0x61, 0xc2, 0x9f, 0x25, 0x4a, 0x94, 0x33, 0x66, 0xcc,
    0x83, 0x1d, 0x3a, 0x74, 0xe8, 0xcb, 0x8d, 0x01, 0x02, 0x04, 0x08, 0x10, 0x20, 0x40, 0x80, 0x1b,
    0x36, 0x6c, 0xd8, 0xab, 0x4d, 0x9a, 0x2f, 0x5e, 0xbc, 0x63, 0xc6, 0x97, 0x35, 0x6a, 0xd4, 0xb3,
    0x7d, 0xfa, 0xef, 0xc5, 0x91, 0x39, 0x72, 0xe4, 0xd3, 0xbd, 0x61, 0xc2, 0x9f, 0x25, 0x4a, 0x94,
    0x33, 0x66, 0xcc, 0x83, 0x1d, 0x3a, 0x74, 0xe8, 0xcb, 0x8d, 0x01, 0x02, 0x04, 0x08, 0x10, 0x20,
    0x40, 0x80, 0x1b, 0x36, 0x6c, 0xd8, 0xab, 0x4d, 0x9a, 0x2f, 0x5e, 0xbc, 0x63, 0xc6, 0x97, 0x35,
    0x6a, 0xd4, 0xb3, 0x7d, 0xfa, 0xef, 0xc5, 0x91, 0x39, 0x72, 0xe4, 0xd3, 0xbd, 0x61, 0xc2, 0x9f,
    0x25, 0x4a, 0x94, 0x33, 0x66, 0xcc, 0x83, 0x1d, 0x3a, 0x74, 0xe8, 0xcb, 0x8d, 0x01, 0x02, 0x04,
    0x08, 0x10, 0x20, 0x40, 0x80, 0x1b, 0x36, 0x6c, 0xd8, 0xab, 0x4d, 0x9a, 0x2f, 0x5e, 0xbc, 0x63,
    0xc6, 0x97, 0x35, 0x6a, 0xd4, 0xb3, 0x7d, 0xfa, 0xef, 0xc5, 0x91, 0x39, 0x72, 0xe4, 0xd3, 0xbd,
    0x61, 0xc2, 0x9f, 0x25, 0x4a, 0x94, 0x33, 0x66, 0xcc, 0x83, 0x1d, 0x3a, 0x74, 0xe8, 0xcb]

def getSBoxValue (num : UInt8) : UInt8 := sbox.get ⟨num.toNat, num.toNat_lt⟩

def getSBoxInvert (num : UInt8) : UInt8 := rsbox.get ⟨num.toNat, num.toNat_lt⟩

/-! ## The key schedule -/

/-- `RoundKey[i * 4 + j]`. -/
def RoundKey.byte (rk : RoundKey) (i : Fin 44) (j : Fin 4) : UInt8 := rk[i.val * 4 + j.val]

/-- `RoundKey[i * 4 + j] = v`. -/
def RoundKey.setByte (rk : RoundKey) (i : Fin 44) (j : Fin 4) (v : UInt8) : RoundKey :=
  rk.set (i.val * 4 + j.val) v

@[simp] theorem RoundKey.byte_setByte (rk : RoundKey) (i i' : Fin 44) (j j' : Fin 4) (v : UInt8) :
    (rk.setByte i j v).byte i' j' = if i' = i ∧ j' = j then v else rk.byte i' j' := by
  rw [byte, setByte, Vector.getElem_set]
  by_cases h : i' = i ∧ j' = j
  · rw [if_pos h, if_pos (by rw [h.1, h.2])]
  · rw [if_neg h, if_neg (fun e => h ⟨Fin.ext (by omega), Fin.ext (by omega)⟩), byte]

/-- Function RotWord(). -/
def rotWord (tempa : Vector UInt8 4) : Vector UInt8 4 :=
  let k := tempa[0]
  let tempa := tempa.set 0 tempa[1]
  let tempa := tempa.set 1 tempa[2]
  let tempa := tempa.set 2 tempa[3]
  tempa.set 3 k

/-- Function Subword(). -/
def subWord (tempa : Vector UInt8 4) : Vector UInt8 4 :=
  let tempa := tempa.set 0 (getSBoxValue tempa[0])
  let tempa := tempa.set 1 (getSBoxValue tempa[1])
  let tempa := tempa.set 2 (getSBoxValue tempa[2])
  tempa.set 3 (getSBoxValue tempa[3])

/-- The loop that copies the key into the first round key. -/
def copyKey (key : Block) (rk : RoundKey) : RoundKey :=
  for4 (fun i rk =>
    let rk := RoundKey.setByte rk (i.castLE (by decide)) 0 key[i.val * 4 + 0]
    let rk := RoundKey.setByte rk (i.castLE (by decide)) 1 key[i.val * 4 + 1]
    let rk := RoundKey.setByte rk (i.castLE (by decide)) 2 key[i.val * 4 + 2]
    RoundKey.setByte rk (i.castLE (by decide)) 3 key[i.val * 4 + 3]) rk

/-- `tempa` of word `i`, from the word before it. -/
def tempaOf (rk : RoundKey) (i : Fin 44) : Vector UInt8 4 :=
  let tempa := Vector.ofFn fun j => rk.byte ⟨i.val - 1, by omega⟩ j
  if i.val % 4 = 0 then
    let tempa := subWord (rotWord tempa)
    tempa.set 0 (tempa[0] ^^^ Rcon[i.val / 4])
  else if 4 > 6 ∧ i.val % 4 = 4 then  -- `Nk > 6 && i % Nk == 4`, with `Nk` four
    subWord tempa
  else tempa

/-- The body of the loop over the words after the first round key. -/
def expandWord (rk : RoundKey) (i : Fin 44) : RoundKey :=
  let tempa := tempaOf rk i
  let rk := rk.setByte i 0 (rk.byte ⟨i.val - 4, by omega⟩ 0 ^^^ tempa[0])
  let rk := rk.setByte i 1 (rk.byte ⟨i.val - 4, by omega⟩ 1 ^^^ tempa[1])
  let rk := rk.setByte i 2 (rk.byte ⟨i.val - 4, by omega⟩ 2 ^^^ tempa[2])
  rk.setByte i 3 (rk.byte ⟨i.val - 4, by omega⟩ 3 ^^^ tempa[3])

/-- The first `n` rounds of the loop `for (; i < Nb * (Nr + 1); ++i)`, which `i` enters
as `Nk`. -/
def expandWords (rk : RoundKey) : (n : ℕ) → n ≤ 40 → RoundKey
  | 0, _ => rk
  | n + 1, h => expandWord (expandWords rk n (by omega)) ⟨4 + n, by omega⟩

/-- **The round keys of a key**, over what the array held before. -/
def keyExpansion (key : Block) (rk : RoundKey) : RoundKey :=
  expandWords (copyKey key rk) 40 le_rfl

/-! ## The transformations -/

/-- `(*state)[i][j]`. -/
def cell (s : State) (i j : Fin 4) : UInt8 := s[i.val * 4 + j.val]

/-- `(*state)[i][j] = v`. -/
def setCell (s : State) (i j : Fin 4) (v : UInt8) : State := s.set (i.val * 4 + j.val) v

@[simp] theorem cell_setCell (s : State) (i i' j j' : Fin 4) (v : UInt8) :
    cell (setCell s i j v) i' j' = if i' = i ∧ j' = j then v else cell s i' j' := by
  rw [cell, setCell, Vector.getElem_set]
  by_cases h : i' = i ∧ j' = j
  · rw [if_pos h, if_pos (by rw [h.1, h.2])]
  · rw [if_neg h, if_neg (fun e => h ⟨Fin.ext (by omega), Fin.ext (by omega)⟩), cell]

/-- Two loops over the cells, each of which is replaced by a function of itself. -/
def forCells (f : Fin 4 → Fin 4 → UInt8 → UInt8) (s : State) : State :=
  for4 (fun i => for4 fun j s => setCell s i j (f i j (cell s i j))) s

@[simp] theorem cell_forCells (f : Fin 4 → Fin 4 → UInt8 → UInt8) (s : State) (i j : Fin 4) :
    cell (forCells f s) i j = f i j (cell s i j) := by
  fin_cases i <;> fin_cases j <;> simp [forCells, for4]

/-- `AddRoundKey(round)`. -/
def addRoundKey (rk : RoundKey) (round : Fin 11) (s : State) : State :=
  forCells (fun i j b => b ^^^ rk[round.val * 4 * 4 + i.val * 4 + j.val]) s

/-- The same two loops with the indices of the cell exchanged. -/
def forCellsByRow (f : UInt8 → UInt8) (s : State) : State :=
  for4 (fun i => for4 fun j s => setCell s j i (f (cell s j i))) s

@[simp] theorem cell_forCellsByRow (f : UInt8 → UInt8) (s : State) (i j : Fin 4) :
    cell (forCellsByRow f s) i j = f (cell s i j) := by
  fin_cases i <;> fin_cases j <;> simp [forCellsByRow, for4]

/-- `SubBytes()`. -/
def subBytes (s : State) : State := forCellsByRow getSBoxValue s

/-- `InvSubBytes()`. -/
def invSubBytes (s : State) : State := forCellsByRow getSBoxInvert s

/-- `ShiftRows()`. -/
def shiftRows (s : State) : State :=
  -- Rotate first row 1 columns to left
  let temp := cell s 0 1
  let s := setCell s 0 1 (cell s 1 1)
  let s := setCell s 1 1 (cell s 2 1)
  let s := setCell s 2 1 (cell s 3 1)
  let s := setCell s 3 1 temp
  -- Rotate second row 2 columns to left
  let temp := cell s 0 2
  let s := setCell s 0 2 (cell s 2 2)
  let s := setCell s 2 2 temp
  let temp := cell s 1 2
  let s := setCell s 1 2 (cell s 3 2)
  let s := setCell s 3 2 temp
  -- Rotate third row 3 columns to left
  let temp := cell s 0 3
  let s := setCell s 0 3 (cell s 3 3)
  let s := setCell s 3 3 (cell s 2 3)
  let s := setCell s 2 3 (cell s 1 3)
  setCell s 1 3 temp

@[simp] theorem cell_shiftRows (s : State) (i j : Fin 4) :
    cell (shiftRows s) i j = cell s (i + j) j := by
  fin_cases i <;> fin_cases j <;> simp [shiftRows]

/-- `InvShiftRows()`. -/
def invShiftRows (s : State) : State :=
  -- Rotate first row 1 columns to right
  let temp := cell s 3 1
  let s := setCell s 3 1 (cell s 2 1)
  let s := setCell s 2 1 (cell s 1 1)
  let s := setCell s 1 1 (cell s 0 1)
  let s := setCell s 0 1 temp
  -- Rotate second row 2 columns to right
  let temp := cell s 0 2
  let s := setCell s 0 2 (cell s 2 2)
  let s := setCell s 2 2 temp
  let temp := cell s 1 2
  let s := setCell s 1 2 (cell s 3 2)
  let s := setCell s 3 2 temp
  -- Rotate third row 3 columns to right
  let temp := cell s 0 3
  let s := setCell s 0 3 (cell s 1 3)
  let s := setCell s 1 3 (cell s 2 3)
  let s := setCell s 2 3 (cell s 3 3)
  setCell s 3 3 temp

@[simp] theorem cell_invShiftRows (s : State) (i j : Fin 4) :
    cell (invShiftRows s) i j = cell s (i - j) j := by
  -- what the simplifier makes of `i - j` is evaluated in the end
  fin_cases i <;> fin_cases j <;> simp [invShiftRows] <;> rfl

def xtime (x : UInt8) : UInt8 := (x <<< 1) ^^^ (((x >>> 7) &&& 1) * 0x1b)

/-- The body of the loop of `MixColumns()`. -/
def mixColumn (i : Fin 4) (s : State) : State :=
  let t := cell s i 0
  let Tmp := cell s i 0 ^^^ cell s i 1 ^^^ cell s i 2 ^^^ cell s i 3
  let Tm := xtime (cell s i 0 ^^^ cell s i 1)
  let s := setCell s i 0 (cell s i 0 ^^^ (Tm ^^^ Tmp))
  let Tm := xtime (cell s i 1 ^^^ cell s i 2)
  let s := setCell s i 1 (cell s i 1 ^^^ (Tm ^^^ Tmp))
  let Tm := xtime (cell s i 2 ^^^ cell s i 3)
  let s := setCell s i 2 (cell s i 2 ^^^ (Tm ^^^ Tmp))
  let Tm := xtime (cell s i 3 ^^^ t)
  setCell s i 3 (cell s i 3 ^^^ (Tm ^^^ Tmp))

/-- `MixColumns()`. -/
def mixColumns (s : State) : State := for4 mixColumn s

/-- `Multiply(x, y)`, which reads the five lowest bits of `y`. -/
def Multiply (x y : UInt8) : UInt8 :=
  (y &&& (1 : UInt8)) * x
    ^^^ (y >>> 1 &&& (1 : UInt8)) * xtime x
    ^^^ (y >>> 2 &&& (1 : UInt8)) * xtime (xtime x)
    ^^^ (y >>> 3 &&& (1 : UInt8)) * xtime (xtime (xtime x))
    ^^^ (y >>> 4 &&& (1 : UInt8)) * xtime (xtime (xtime (xtime x)))

/-- The body of the loop of `InvMixColumns()`. -/
def invMixColumn (i : Fin 4) (s : State) : State :=
  let a := cell s i 0
  let b := cell s i 1
  let c := cell s i 2
  let d := cell s i 3
  let s := setCell s i 0
    (Multiply a 0x0e ^^^ Multiply b 0x0b ^^^ Multiply c 0x0d ^^^ Multiply d 0x09)
  let s := setCell s i 1
    (Multiply a 0x09 ^^^ Multiply b 0x0e ^^^ Multiply c 0x0b ^^^ Multiply d 0x0d)
  let s := setCell s i 2
    (Multiply a 0x0d ^^^ Multiply b 0x09 ^^^ Multiply c 0x0e ^^^ Multiply d 0x0b)
  setCell s i 3 (Multiply a 0x0b ^^^ Multiply b 0x0d ^^^ Multiply c 0x09 ^^^ Multiply d 0x0e)

/-- `InvMixColumns()`. -/
def invMixColumns (s : State) : State := for4 invMixColumn s

/-- **A loop over the columns whose body writes its own column only, from that column only**,
leaves in each column what the body leaves there. -/
theorem cell_for4_column (body : Fin 4 → State → State)
    (hframe : ∀ i s i' j, i' ≠ i → cell (body i s) i' j = cell s i' j)
    (hcongr : ∀ i s s', (∀ j, cell s i j = cell s' i j) →
      ∀ j, cell (body i s) i j = cell (body i s') i j)
    (s : State) (i j : Fin 4) : cell (for4 body s) i j = cell (body i s) i j := by
  rw [for4]
  fin_cases i
  · show cell _ 0 j = cell (body 0 s) 0 j
    rw [hframe 3 _ 0 j (by decide), hframe 2 _ 0 j (by decide), hframe 1 _ 0 j (by decide)]
  · show cell _ 1 j = cell (body 1 s) 1 j
    rw [hframe 3 _ 1 j (by decide), hframe 2 _ 1 j (by decide)]
    exact hcongr 1 _ _ (fun j => hframe 0 s 1 j (by decide)) j
  · show cell _ 2 j = cell (body 2 s) 2 j
    rw [hframe 3 _ 2 j (by decide)]
    exact hcongr 2 _ _ (fun j => by
      rw [hframe 1 _ 2 j (by decide), hframe 0 _ 2 j (by decide)]) j
  · show cell _ 3 j = cell (body 3 s) 3 j
    exact hcongr 3 _ _ (fun j => by
      rw [hframe 2 _ 3 j (by decide), hframe 1 _ 3 j (by decide), hframe 0 _ 3 j (by decide)]) j

theorem cell_mixColumns (s : State) (i j : Fin 4) :
    cell (mixColumns s) i j = cell (mixColumn i s) i j := by
  refine cell_for4_column mixColumn (fun i s i' j h => ?_) (fun i s s' h j => ?_) s i j
  · simp [mixColumn, h]
  · fin_cases j <;> simp [mixColumn, h]

theorem cell_invMixColumns (s : State) (i j : Fin 4) :
    cell (invMixColumns s) i j = cell (invMixColumn i s) i j := by
  refine cell_for4_column invMixColumn (fun i s i' j h => ?_) (fun i s s' h j => ?_) s i j
  · simp [invMixColumn, h]
  · fin_cases j <;> simp [invMixColumn, h]

/-! ## The cipher and the entry points -/

/-- The first `n` rounds of the loop of `Cipher()`, which `round` enters as `1`. -/
def cipherRounds (rk : RoundKey) : (n : ℕ) → n < 11 → State → State
  | 0, _, s => s
  | n + 1, h, s =>
    addRoundKey rk ⟨n + 1, h⟩ (mixColumns (shiftRows (subBytes
      (cipherRounds rk n (by omega) s))))

/-- `Cipher()`. -/
def cipher (rk : RoundKey) (s : State) : State :=
  let s := addRoundKey rk 0 s
  let s := cipherRounds rk 9 (by decide) s
  addRoundKey rk 10 (shiftRows (subBytes s))

/-- The rounds of the loop of `InvCipher()` from `round = n` down to `1`. -/
def invCipherRounds (rk : RoundKey) : (n : ℕ) → n < 11 → State → State
  | 0, _, s => s
  | n + 1, h, s =>
    invCipherRounds rk n (by omega)
      (invMixColumns (addRoundKey rk ⟨n + 1, h⟩ (invSubBytes (invShiftRows s))))

/-- `InvCipher()`. -/
def invCipher (rk : RoundKey) (s : State) : State :=
  let s := addRoundKey rk 10 s
  let s := invCipherRounds rk 9 (by decide) s
  addRoundKey rk 0 (invSubBytes (invShiftRows s))

/-- `BlockCopy(output, input)`. -/
def blockCopy (output input : Block) : Block :=
  (List.finRange 16).foldl (fun output i => output.set i.val input[i.val]) output

/-- **The variables of file scope**: what `state` and `Key` point at, and the array
`RoundKey`. -/
structure Globals where
  state : State
  roundKey : RoundKey
  key : Block

/-- **`AES128_ECB_encrypt(input, key, output)`**, whose output is what `state` points at
afterwards. -/
def aes128EcbEncrypt (g : Globals) (input key output : Block) : Globals :=
  let g := { g with state := blockCopy output input }
  let g := { g with key := key }
  let g := { g with roundKey := keyExpansion g.key g.roundKey }
  { g with state := cipher g.roundKey g.state }

/-- **`AES128_ECB_decrypt(input, key, output)`**. -/
def aes128EcbDecrypt (g : Globals) (input key output : Block) : Globals :=
  let g := { g with state := blockCopy output input }
  let g := { g with key := key }
  let g := { g with roundKey := keyExpansion g.key g.roundKey }
  { g with state := invCipher g.roundKey g.state }

end Aes
