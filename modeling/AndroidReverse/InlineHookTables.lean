import AndroidReverse.InlineHookResume

/-!
# The room in the boundary tables

An item has four entries for the boundaries of the prologue and twenty for
those of the trampoline. The relocator is given the tables without their
lengths, and appends to both as long as it decodes. Here the indices it stores
at are noted along with what it stores. In a slot that was never used they
count up from zero, one for each instruction that begins in the prologue; six
Thumb instructions of sixteen bits begin in twelve bytes.
-/

namespace InlineHook

open Arm Relocate

/-- One boundary, with the indices of its two stores noted: the index into the
second table is read again after the first store. -/
def recordNoted (pos : ℕ) (s : InlineHookInfo × List (ℕ × ℕ)) (orig_pos trampoline_pos : ℕ) :
    InlineHookInfo × List (ℕ × ℕ) :=
  let i := (s.1.item pos).count.toNat
  let j := ((s.1.setWord pos (4 + i) (BitVec.ofNat 32 orig_pos)).item pos).count.toNat
  (recordBoundary pos s.1 orig_pos trampoline_pos, s.2 ++ [(i, j)])

section Registration

variable (os : Os) (t n a : Word) (p : Process)

/-- The relocation of a registration, with the stores to the tables noted. -/
def notedRelocation : Trampoline × InlineHookInfo × List (ℕ × ℕ) :=
  relocateInstruction (recordNoted p.info.size) p.code t
    (fun k => memcpy p.heap os.malloc p.code (clearBit0 t) (windowLength t)
      (os.malloc + BitVec.ofNat 32 k)) (windowLength t)
    (InlineHookInfo.setItem { p.info with size := p.info.size + 1 } p.info.size
      (preparedItem os t n a p), [])

/-- **The stores of a registration to the two tables**: for each boundary the
index into `orig_boundaries` and that into `trampoline_boundaries`. -/
def tableStores : List (ℕ × ℕ) := (notedRelocation os t n a p).2.2

variable {os t n a p}

/-- **The noted relocation is the relocation**: it leaves the registry that the
registration leaves. -/
theorem fillItem_info_noted :
    (fillItem os t n a p.info.size { p.info with size := p.info.size + 1 } p).info
      = (notedRelocation os t n a p).2.1.setItem p.info.size
          { (notedRelocation os t n a p).2.1.item p.info.size with status := REGISTERED } := by
  have h := relocateInstruction_map (recordNoted p.info.size) p.code Prod.fst
    (recordBoundary p.info.size) (fun _ _ _ => rfl) t
    (fun k => memcpy p.heap os.malloc p.code (clearBit0 t) (windowLength t)
      (os.malloc + BitVec.ofNat 32 k)) (windowLength t)
    (InlineHookInfo.setItem { p.info with size := p.info.size + 1 } p.info.size
      (preparedItem os t n a p), [])
  exact congrArg (fun r : Trampoline × InlineHookInfo =>
    r.2.setItem p.info.size { r.2.item p.info.size with status := REGISTERED }) h

/-- The first store to the tables leaves the count alone. -/
theorem setWord_count {info : InlineHookInfo} {pos k : ℕ} (hpos : pos < 1024) (h4 : 4 ≤ k)
    (h28 : k < 28) (v : Word) :
    ((info.setWord pos k v).item pos).count = (info.item pos).count := by
  obtain ⟨ob, tb, h⟩ := InlineHookItem.setWord_eq_withBoundaries (info.item pos) v h4 h28
  rw [setWord_item hpos (by omega), setItem_item_self, h]
  rfl

/-- **The indices count up**, from where the count was. -/
theorem foldl_recordNoted {info : InlineHookInfo} {pos : ℕ} (hpos : pos < 1024)
    (bs : List (ℕ × ℕ)) {c : ℕ} (hc : (info.item pos).count.toNat = c) (h20 : c + bs.length ≤ 20)
    (log : List (ℕ × ℕ)) :
    (bs.foldl (fun s x => recordNoted pos s x.1 x.2) (info, log)).2
      = log ++ (List.range' c bs.length).map (fun k => (k, k)) := by
  induction bs generalizing info c log with
  | nil => exact (List.append_nil log).symm
  | cons b bs ih =>
    rw [List.length_cons] at h20
    have hj : ((info.setWord pos (4 + c) (BitVec.ofNat 32 b.1)).item pos).count.toNat = c := by
      rw [setWord_count hpos (by omega) (by omega), hc]
    have hstep : recordNoted pos (info, log) b.1 b.2
        = (recordBoundary pos info b.1 b.2, log ++ [(c, c)]) := by
      unfold recordNoted
      dsimp only
      rw [hc, hj]
    have hc' : ((recordBoundary pos info b.1 b.2).item pos).count.toNat = c + 1 := by
      rw [recordBoundary_eq info hpos (by omega), setItem_item_self]
      exact InlineHookItem.record_count hc (by omega)
    rw [List.foldl_cons, hstep, ih hc' (by omega), List.append_assoc, List.length_cons,
      List.range'_succ, List.map_cons, List.singleton_append]

/-- The boundaries of a target, one for each instruction that begins in its
window. -/
theorem targetBoundaries_eq (code : Mem) (t : Word) :
    targetBoundaries code t
      = (List.range (begunCount t (codeAt code t) (windowLength t))).map
          (fun j => (insnOffset t (codeAt code t) j, blockOffset code t (codeAt code t) j)) :=
  boundaries_eq (le_trans (by decide) (four_le_windowLength t))

theorem targetBoundaries_length (code : Mem) (t : Word) :
    (targetBoundaries code t).length = begunCount t (codeAt code t) (windowLength t) := by
  rw [targetBoundaries_eq, List.length_map, List.length_range]

theorem targetBoundaries_length_le (code : Mem) (t : Word) :
    (targetBoundaries code t).length ≤ 6 := by
  have h := boundaries_length_le code t
    (fun k => code (clearBit0 t + BitVec.ofNat 32 k)) (four_le_windowLength t)
  have hw := windowLength_le t
  unfold targetBoundaries
  omega

/-- **In an unused slot the stores are at `0, 1, …`**, one for each instruction
that begins in the window. -/
theorem tableStores_eq (hsize : p.info.size < 1024) (hfresh : leftoverCount p.info = 0) :
    tableStores os t n a p
      = (List.range (begunCount t (codeAt p.code t) (windowLength t))).map (fun k => (k, k)) := by
  have hc : ((InlineHookInfo.setItem { p.info with size := p.info.size + 1 } p.info.size
      (preparedItem os t n a p)).item p.info.size).count.toNat = 0 := by
    rw [setItem_item_self]
    exact hfresh
  have h6 := targetBoundaries_length_le p.code t
  have hrec := relocateInstruction_recorded (recordNoted p.info.size) p.code t
    (fun k => memcpy p.heap os.malloc p.code (clearBit0 t) (windowLength t)
      (os.malloc + BitVec.ofNat 32 k)) (windowLength t)
    (InlineHookInfo.setItem { p.info with size := p.info.size + 1 } p.info.size
      (preparedItem os t n a p), [])
  rw [boundaries_memcpy] at hrec
  refine (congrArg Prod.snd hrec).trans ?_
  rw [foldl_recordNoted hsize _ hc (by omega), List.nil_append, targetBoundaries_length,
    ← List.range_eq_range']

/-- **The tables are large enough exactly for a prologue in which at most four
instructions begin.** An ARM prologue is two. -/
theorem tableStores_inBounds_iff {p' : Process}
    (h : registerInlineHook os t n a p = some (.ok, p')) (hfresh : leftoverCount p.info = 0) :
    (∀ s ∈ tableStores os t n a p, s.1 < 4 ∧ s.2 < 20)
      ↔ begunCount t (codeAt p.code t) (windowLength t) ≤ 4 := by
  have h6 := targetBoundaries_length_le p.code t
  rw [targetBoundaries_length] at h6
  rw [tableStores_eq (registerInlineHook_ok h).2.1 hfresh, List.forall_mem_map]
  constructor
  · intro hall
    by_contra h5
    have := (hall 4 (List.mem_range.mpr (by omega))).1
    omega
  · intro h4 k hk
    have := List.mem_range.mp hk
    omega

end Registration

/-- The ARM function at `0x9000`. -/
theorem tableStores_inBounds_iff_arm :
    (∀ s ∈ tableStores reusingOs 0x9000#32 0xA000#32 0#32 startProcess, s.1 < 4 ∧ s.2 < 20)
      ↔ begunCount 0x9000#32 (codeAt startProcess.code 0x9000#32) (windowLength 0x9000#32) ≤ 4 :=
  tableStores_inBounds_iff (show registerInlineHook reusingOs 0x9000#32 0xA000#32 0#32 startProcess
    = some (.ok, _) from rfl) rfl

/-- **Five or six Thumb instructions overrun the first table**: the Thumb
function at `0x8000` begins with six, and the fifth store is at index 4. -/
theorem tableStores_overrun :
    (∃ p', registerInlineHook reusingOs 0x8001#32 0xA001#32 0#32 startProcess = some (.ok, p'))
      ∧ startProcess.info = .zero
      ∧ ¬ ∀ s ∈ tableStores reusingOs 0x8001#32 0xA001#32 0#32 startProcess,
        s.1 < 4 ∧ s.2 < 20 := by
  refine ⟨⟨_, rfl⟩, rfl, fun h => ?_⟩
  have h4 : ((4, 4) : ℕ × ℕ) ∈ tableStores reusingOs 0x8001#32 0xA001#32 0#32 startProcess := by
    decide
  exact absurd (h (4, 4) h4).1 (by decide)

end InlineHook
