import AndroidReverse.ByteMemory

/-!
# Output to a byte memory

Bytes that are copied to a memory one run after the other. `copy m a bs` is the memory after
`bs` was copied to `a`, and `Holds m a bs` says that they stand there. What is copied stands
where it was copied to (`holds_copy`), and a later run behind it leaves it there, as long as
the two together are no longer than the address space (`Holds.copy_behind`).
-/

namespace ByteMemory

variable {w : ℕ}

/-- A memory after bytes were copied to an address. -/
def copy (m : ByteMemory w) (a : BitVec w) (bs : List (BitVec 8)) : ByteMemory w := fun x =>
  bs[(x - a).toNat]?.getD (m x)

/-- Bytes stand at an address. -/
def Holds (m : ByteMemory w) (a : BitVec w) (bs : List (BitVec 8)) : Prop :=
  ∀ ⦃i : ℕ⦄ ⦃v : BitVec 8⦄, bs[i]? = some v → m (a + BitVec.ofNat w i) = v

theorem holds_copy (m : ByteMemory w) (a : BitVec w) {bs : List (BitVec 8)}
    (h : bs.length ≤ 2 ^ w) : Holds (copy m a bs) a bs := by
  intro i v hv
  have hi : i < 2 ^ w := lt_of_lt_of_le (List.getElem?_eq_some_iff.mp hv).1 h
  have hoff : (a + BitVec.ofNat w i - a).toNat = i := by
    rw [BitVec.add_comm, BitVec.add_sub_cancel, BitVec.toNat_ofNat, Nat.mod_eq_of_lt hi]
  rw [copy, hoff, hv, Option.getD_some]

/-- A copy changes no byte outside it. -/
theorem copy_of_out (m : ByteMemory w) {a x : BitVec w} {bs : List (BitVec 8)}
    (h : bs.length ≤ (x - a).toNat) : copy m a bs x = m x := by
  rw [copy, List.getElem?_eq_none h, Option.getD_none]

/-- **What stands in front of a copy stays there.** Offsets count from the same address, and
the copy does not come round to it. -/
theorem Holds.copy_behind {m : ByteMemory w} {a : BitVec w} {bs cs : List (BitVec 8)}
    {j k : ℕ} (h : Holds m (a + BitVec.ofNat w j) bs) (hj : j + bs.length ≤ k)
    (hk : k + cs.length ≤ 2 ^ w) :
    Holds (copy m (a + BitVec.ofNat w k) cs) (a + BitVec.ofNat w j) bs := by
  intro i v hv
  have hi : i < bs.length := (List.getElem?_eq_some_iff.mp hv).1
  rcases List.eq_nil_or_concat cs with rfl | ⟨cs', c, rfl⟩
  · exact h hv
  rw [copy_of_out, h hv]
  have hc : 0 < (cs'.concat c).length := by rw [List.length_concat]; exact Nat.succ_pos _
  have hlt : k < 2 ^ w := lt_of_lt_of_le (Nat.lt_add_of_pos_right hc) hk
  have hji : j + i < k := lt_of_lt_of_le (Nat.add_lt_add_left hi j) hj
  -- the byte is as far behind the copy as it is once around the memory
  have hsub : a + BitVec.ofNat w j + BitVec.ofNat w i - (a + BitVec.ofNat w k)
      = BitVec.ofNat w (j + i) - BitVec.ofNat w k := by
    rw [BitVec.add_assoc, ← BitVec.ofNat_add, add_sub_add_left_eq_sub]
  rw [hsub, BitVec.toNat_sub, BitVec.toNat_ofNat, BitVec.toNat_ofNat, Nat.mod_eq_of_lt hlt,
    Nat.mod_eq_of_lt (lt_trans hji hlt), Nat.mod_eq_of_lt (by omega)]
  omega

end ByteMemory
