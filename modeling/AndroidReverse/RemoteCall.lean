import AndroidReverse.ArmRun
import Mathlib.Tactic.FinCases
import Mathlib.Tactic.IntervalCases

/-!
# Calls in a traced process

The injector, the `poison` tool and `gothook` call a function in a process they trace by
the same steps: the first four parameters go to R0 to R3, the others to the stack of the
target, LR becomes 0 and PC the function, in the state that bit 0 of its address says.
Then the target is resumed.

The calling convention asks for more than the code looks at: the stack pointer of a
function is a multiple of eight. The three subtract four bytes for each parameter on the
stack and leave it there. And `poison` takes the parameter after the fourth for the
address of the parameters after the fourth.
-/

namespace RemoteCall

open Arm

/-! ## Registers and parameters -/

/-- `struct pt_regs`: `uregs` of R0 to R15, the status register and the old R0. -/
abbrev PtRegs := Fin 18 → Word

/-- There are registers. -/
instance neZero_registers : NeZero 18 := ⟨by decide⟩

/-- `ARM_sp`. -/
def ARM_sp : Fin 18 := 13

/-- `ARM_lr`. -/
def ARM_lr : Fin 18 := 14

/-- `ARM_pc`. -/
def ARM_pc : Fin 18 := 15

/-- `ARM_cpsr`. -/
def ARM_cpsr : Fin 18 := 16

/-- `CPSR_T_MASK`. -/
def CPSR_T_MASK : Word := 1#32 <<< 5

/-- **The parameters of a call**: an array of `long`, which fits in the address space. -/
structure Params where
  values : List Word
  fits : 4 * values.length ≤ 2 ^ 32

/-- The parameters that go to the stack. -/
def Params.stacked (params : Params) : List Word := params.values.drop 4

/-- The target when it is resumed: its registers and its memory. -/
structure Target where
  regs : PtRegs
  mem : Mem

/-! ## Writing to the target -/

/-- The word of four bytes from `k` on. -/
def wordOf (data : ℕ → Byte) (k : ℕ) : Word :=
  (data (k + 3) ++ data (k + 2)) ++ (data (k + 1) ++ data k)

/-- `PTRACE_POKETEXT` of one word after the other, and at the end of the bytes that are
left together with those that stand behind them. -/
def poke (mem : Mem) (dest : Word) (data : ℕ → Byte) (size : ℕ) : Mem :=
  let j := size / 4
  let remain := size % 4
  let mem := (List.range j).foldl
    (fun mem i => mem.write 4 (dest + BitVec.ofNat 32 (4 * i)) (wordOf data (4 * i))) mem
  if remain > 0 then
    let dest := dest + BitVec.ofNat 32 (4 * j)
    let chars := fun k => if k < remain then data (4 * j + k) else mem (dest + BitVec.ofNat 32 k)
    mem.write 4 dest (wordOf chars 0)
  else mem

/-- `ptrace_writedata`. -/
def ptraceWritedata : Mem → Word → (ℕ → Byte) → ℕ → Mem := poke

/-- `PtraceWrite`. -/
def ptraceWrite : Mem → Word → (ℕ → Byte) → ℕ → Mem := poke

/-- The bytes of an array of words. -/
def arrayBytes (ws : List Word) (k : ℕ) : Byte := Mem.byteOf (ws.getD (k / 4) 0#32) (k % 4)

/-! ## The calls -/

/-- The loop over the first four parameters. -/
def passInRegs (params : Params) (regs : PtRegs) : PtRegs :=
  (List.range (min params.values.length 4)).foldl
    (fun regs i => Function.update regs (Fin.ofNat 18 i) (params.values.getD i 0#32)) regs

/-- The state of the function: `regs->ARM_pc` is its address. -/
def setState (regs : PtRegs) : PtRegs :=
  if regs ARM_pc &&& 1#32 ≠ 0#32 then
    let regs := Function.update regs ARM_pc (regs ARM_pc &&& ~~~1#32)
    Function.update regs ARM_cpsr (regs ARM_cpsr ||| CPSR_T_MASK)
  else Function.update regs ARM_cpsr (regs ARM_cpsr &&& ~~~CPSR_T_MASK)

/-- The size of the parameters on the stack, a `size_t`. -/
def stackedSize (params : Params) : ℕ := (params.values.length - 4) * 4 % 2 ^ 32

/-- The stack pointer below the parameters on the stack. -/
def pushed (params : Params) (regs : PtRegs) : PtRegs :=
  Function.update regs ARM_sp (regs ARM_sp - BitVec.ofNat 32 (stackedSize params))

/-- `ptrace_call` of the injector, up to `ptrace_continue`. -/
def Inject.ptraceCall (params : Params) (addr : Word) (t : Target) : Target :=
  let regs := passInRegs params t.regs
  let t : Target :=
    if 4 < params.values.length then
      let regs := pushed params regs
      ⟨regs, ptraceWritedata t.mem (regs ARM_sp) (arrayBytes params.stacked) (stackedSize params)⟩
    else ⟨regs, t.mem⟩
  let regs := setState (Function.update t.regs ARM_pc addr)
  ⟨Function.update regs ARM_lr 0#32, t.mem⟩

/-- `ptrace_call` of `poison`. `tool` is the memory of the tool itself, which is killed
where it has none. -/
def Poison.ptraceCall (tool : Word → Option Byte) (params : Params) (addr : Word) (t : Target) :
    Option Target := do
  let regs := passInRegs params t.regs
  let t : Target ←
    if 4 < params.values.length then do
      let regs := pushed params regs
      -- the parameter, not its address
      let data := params.values.getD 4 0#32
      let bytes ← (List.range (stackedSize params)).mapM fun k => tool (data + BitVec.ofNat 32 k)
      pure ⟨regs, ptraceWritedata t.mem (regs ARM_sp) (fun k => bytes.getD k 0#8)
        (stackedSize params)⟩
    else pure ⟨regs, t.mem⟩
  let regs := setState (Function.update t.regs ARM_pc addr)
  pure ⟨Function.update regs ARM_lr 0#32, t.mem⟩

/-- `CallRemoteFunction`, up to `PTRACE_CONT`. -/
def Gothook.callRemoteFunction (params : Params) (function_addr : Word) (t : Target) : Target :=
  let regs := passInRegs params t.regs
  let t : Target :=
    if params.values.length > 4 then
      let regs := pushed params regs
      ⟨regs, ptraceWrite t.mem (regs ARM_sp) (arrayBytes params.stacked) (stackedSize params)⟩
    else ⟨regs, t.mem⟩
  let regs := Function.update t.regs ARM_lr 0#32
  ⟨setState (Function.update regs ARM_pc function_addr), t.mem⟩

/-! ## The calling convention -/

/-- **A target as the calling convention wants it** at the entry of a function. -/
structure Marshalled (params : Params) (addr : Word) (t : Target) : Prop where
  /-- The first four parameters. -/
  inRegs : ∀ (i : Fin 18) v, i < 4 → params.values[(i : ℕ)]? = some v → t.regs i = v
  /-- The others, in order. -/
  onStack : WordsAt t.mem (t.regs ARM_sp) params.stacked
  aligned : (t.regs ARM_sp).toNat % 8 = 0
  lr : t.regs ARM_lr = 0#32
  pc : t.regs ARM_pc = addr &&& ~~~1#32
  thumb : (t.regs ARM_cpsr).getLsbD 5 = addr.getLsbD 0

/-! ## The stack of the target -/

/-- One more word behind the others. -/
theorem place_append_singleton (m : Mem) (dest : Word) (ws : List Word) (v : Word)
    (hlen : 4 * (ws.length + 1) ≤ 2 ^ 32) :
    m.place 4 dest (ws ++ [v])
      = (m.place 4 dest ws).write 4 (dest + BitVec.ofNat 32 (4 * ws.length)) v := by
  funext x
  have hx : (x - (dest + BitVec.ofNat 32 (4 * ws.length))).toNat
      = ((x - dest).toNat + (2 ^ 32 - 4 * ws.length)) % 2 ^ 32 := by
    have hx := x.isLt
    have hdest := dest.isLt
    rw [BitVec.toNat_sub, BitVec.toNat_sub, BitVec.toNat_add, BitVec.toNat_ofNat]
    omega
  have hlt := (x - dest).isLt
  unfold Mem.place Mem.write
  dsimp only
  rcases Nat.lt_trichotomy ((x - dest).toNat / 4) ws.length with h | h | h
  · rw [List.getElem?_append_left h, List.getElem?_eq_getElem h, if_neg (by omega)]
  · have hk : (x - (dest + BitVec.ofNat 32 (4 * ws.length))).toNat = (x - dest).toNat % 4 := by
      omega
    rw [List.getElem?_append_right h.ge, h, Nat.sub_self, hk, if_pos (Nat.mod_lt _ (by decide))]
    rfl
  · have hnone : (ws ++ [v])[(x - dest).toNat / 4]? = none := by
      rw [List.getElem?_eq_none_iff, List.length_append]
      exact h
    rw [hnone, List.getElem?_eq_none h.le, if_neg (by omega)]

/-- **A number of words is poked one behind the other.** -/
theorem poke_words (m : Mem) (dest : Word) (data : ℕ → Byte) {n : ℕ} (hn : 4 * n ≤ 2 ^ 32) :
    poke m dest data (4 * n)
      = m.place 4 dest ((List.range n).map fun i => wordOf data (4 * i)) := by
  have hloop : (List.range n).foldl
      (fun mem i => mem.write 4 (dest + BitVec.ofNat 32 (4 * i)) (wordOf data (4 * i))) m
      = m.place 4 dest ((List.range n).map fun i => wordOf data (4 * i)) := by
    induction n with
    | zero => rfl
    | succ n ih =>
      have h := place_append_singleton m dest ((List.range n).map fun i => wordOf data (4 * i))
        (wordOf data (4 * n)) (by rwa [List.length_map, List.length_range])
      rw [List.length_map, List.length_range] at h
      rw [List.range_succ, List.foldl_append, ih (by omega), List.map_append, List.map_singleton, h]
      rfl
  have hmod : 4 * n % 4 = 0 := Nat.mul_mod_right 4 n
  rw [poke, Nat.mul_div_cancel_left n (by decide), hmod, hloop]
  exact if_neg (Nat.lt_irrefl 0)

/-- The words of an array. -/
theorem wordOf_arrayBytes (ws : List Word) (i : ℕ) :
    wordOf (arrayBytes ws) (4 * i) = ws.getD i 0#32 := by
  have hbyte : ∀ k < 4, arrayBytes ws (4 * i + k) = Mem.byteOf (ws.getD i 0#32) k := by
    intro k hk
    rw [arrayBytes, Nat.mul_add_div (by decide), Nat.div_eq_of_lt hk, Nat.mul_add_mod,
      Nat.mod_eq_of_lt hk]
    rfl
  have h0 : arrayBytes ws (4 * i) = Mem.byteOf (ws.getD i 0#32) 0 := hbyte 0 (by decide)
  rw [wordOf, hbyte 3 (by decide), hbyte 2 (by decide), hbyte 1 (by decide), h0]
  refine BitVec.eq_of_getLsbD_eq (fun k hk => ?_)
  simp only [Mem.byteOf, BitVec.getLsbD_append, BitVec.getLsbD_extractLsb']
  interval_cases k <;> simp

/-- Two lists of words at one place are the same as far as they go. -/
theorem wordsAt_place_iff (m : Mem) (dest : Word) {ws ws' : List Word}
    (hlen : ws'.length = ws.length) (h : 4 * ws.length ≤ 2 ^ 32) :
    WordsAt (m.place 4 dest ws) dest ws' ↔ ws' = ws := by
  have hws := wordsAt_place m dest ws h
  refine ⟨fun hws' => List.ext_getElem hlen fun i hi hi' => ?_, fun h => by rw [h]; exact hws⟩
  rw [← hws' i _ (List.getElem?_eq_getElem hi), ← hws i _ (List.getElem?_eq_getElem hi')]

/-! ## The registers of the target -/

/-- The registers after the loop over the parameters. -/
theorem passInRegs_apply (params : Params) (regs : PtRegs) (r : Fin 18) :
    passInRegs params regs r = if (r : ℕ) < min params.values.length 4
      then params.values.getD r 0#32 else regs r := by
  have hloop : ∀ n ≤ 18, (List.range n).foldl
      (fun regs i => Function.update regs (Fin.ofNat 18 i) (params.values.getD i 0#32)) regs r
      = if (r : ℕ) < n then params.values.getD r 0#32 else regs r := by
    intro n hn
    induction n with
    | zero => rfl
    | succ n ih =>
      have hval : ((Fin.ofNat 18 n : Fin 18) : ℕ) = n := Nat.mod_eq_of_lt hn
      rw [List.range_succ, List.foldl_append, List.foldl_cons, List.foldl_nil,
        Function.update_apply, ih (Nat.le_of_succ_le hn)]
      by_cases hr : r = Fin.ofNat 18 n
      · have hrn : (r : ℕ) = n := by rw [hr, hval]
        rw [if_pos hr, if_pos (by omega), hrn]
      · have hrn : (r : ℕ) ≠ n := fun h => hr (Fin.ext (h.trans hval.symm))
        rw [if_neg hr]
        exact if_congr (by omega) rfl rfl
  exact hloop _ ((min_le_right _ _).trans (by decide))

/-- PC, the status register and LR. -/
def enter (addr : Word) (regs : PtRegs) : PtRegs :=
  Function.update (setState (Function.update regs ARM_pc addr)) ARM_lr 0#32

/-- LR can be set before the others. -/
theorem setState_update_lr (addr : Word) (regs : PtRegs) :
    setState (Function.update (Function.update regs ARM_lr 0#32) ARM_pc addr)
        = enter addr regs := by
  funext r
  have hpc : (Function.update (Function.update regs ARM_lr 0#32) ARM_pc addr) ARM_pc = addr :=
    Function.update_self _ _ _
  have hpc' : (Function.update regs ARM_pc addr) ARM_pc = addr := Function.update_self _ _ _
  rw [enter, setState, setState, hpc, hpc']
  split_ifs
  all_goals
    simp only [Function.update_apply]
    fin_cases r <;> rfl

theorem enter_of_lt (addr : Word) (regs : PtRegs) {r : Fin 18} (hr : r < 14) :
    enter addr regs r = regs r := by
  have hlr : r ≠ ARM_lr := fun h => by rw [h] at hr; exact absurd hr (by decide)
  have hpc : r ≠ ARM_pc := fun h => by rw [h] at hr; exact absurd hr (by decide)
  have hcpsr : r ≠ ARM_cpsr := fun h => by rw [h] at hr; exact absurd hr (by decide)
  rw [enter, Function.update_of_ne hlr, setState]
  split_ifs
  · rw [Function.update_of_ne hcpsr, Function.update_of_ne hpc, Function.update_of_ne hpc]
  · rw [Function.update_of_ne hcpsr, Function.update_of_ne hpc]

theorem enter_lr (addr : Word) (regs : PtRegs) : enter addr regs ARM_lr = 0#32 :=
  Function.update_self _ _ _

/-- Bit 0 of an address. -/
theorem and_one_ne_zero_iff (addr : Word) : addr &&& 1#32 ≠ 0#32 ↔ addr.getLsbD 0 = true := by
  rw [BitVec.and_one_eq_setWidth_ofBool_getLsbD]
  cases addr.getLsbD 0 <;> decide

theorem enter_pc (addr : Word) (regs : PtRegs) :
    enter addr regs ARM_pc = addr &&& ~~~1#32 := by
  have hne : ARM_pc ≠ ARM_lr := by decide
  have hne' : ARM_pc ≠ ARM_cpsr := by decide
  have hpc : Function.update regs ARM_pc addr ARM_pc = addr := Function.update_self _ _ _
  rw [enter, Function.update_of_ne hne, setState, hpc]
  split_ifs with h
  · rw [Function.update_of_ne hne', Function.update_self]
  · rw [Function.update_of_ne hne', hpc]
    rw [and_one_ne_zero_iff, Bool.not_eq_true] at h
    refine BitVec.eq_of_getLsbD_eq fun i hi => ?_
    rw [BitVec.getLsbD_and, BitVec.getLsbD_not]
    rcases Nat.eq_zero_or_pos i with rfl | hi0
    · rw [h, Bool.false_and]
    · have hone : (1#32).getLsbD i = false := by
        rw [BitVec.getLsbD_one, decide_eq_false (Nat.ne_of_gt hi0), Bool.and_false]
      rw [hone, decide_eq_true hi]
      exact (Bool.and_true _).symm

theorem enter_cpsr (addr : Word) (regs : PtRegs) :
    (enter addr regs ARM_cpsr).getLsbD 5 = addr.getLsbD 0 := by
  have hne : ARM_cpsr ≠ ARM_lr := by decide
  have hpc : Function.update regs ARM_pc addr ARM_pc = addr := Function.update_self _ _ _
  rw [enter, Function.update_of_ne hne, setState, hpc]
  split_ifs with h
  · rw [Function.update_self, BitVec.getLsbD_or, (and_one_ne_zero_iff addr).mp h]
    exact Bool.or_true _
  · rw [and_one_ne_zero_iff, Bool.not_eq_true] at h
    rw [Function.update_self, BitVec.getLsbD_and, h]
    exact Bool.and_false _

/-! ## Bytes and words -/

/-- The values of a list that has a value everywhere. -/
theorem mapM_eq_some_iff {α β : Type*} {f : α → Option β} {l : List α} {bs : List β} :
    l.mapM f = some bs ↔ l.map f = bs.map some := by
  induction l generalizing bs with
  | nil =>
    cases bs with
    | nil => exact iff_of_true rfl rfl
    | cons b bs => exact iff_of_false nofun nofun
  | cons a l ih =>
    rw [List.mapM_cons, List.map_cons]
    simp only [Option.bind_eq_bind, Option.pure_def, Option.bind_eq_some_iff, Option.some_inj, ih]
    constructor
    · rintro ⟨v, ha, bs', hl, rfl⟩
      rw [ha, hl, List.map_cons]
    · intro h
      cases bs with
      | nil => cases h
      | cons b bs =>
        obtain ⟨ha, hl⟩ := List.cons.inj h
        exact ⟨b, ha, bs, hl, rfl⟩

/-- The bytes of a word. -/
theorem byteOf_wordOf (data : ℕ → Byte) (k : ℕ) {j : ℕ} (hj : j < 4) :
    Mem.byteOf (wordOf data k) j = data (k + j) := by
  refine BitVec.eq_of_getLsbD_eq fun i hi => ?_
  interval_cases j <;>
    simp only [wordOf, Mem.byteOf, BitVec.getLsbD_append, BitVec.getLsbD_extractLsb'] <;>
    interval_cases i <;> simp

/-! ## What the calls leave -/

section Calls

variable {params : Params} {addr : Word} {t : Target} {tool : Word → Option Byte}

theorem length_stacked (params : Params) :
    params.stacked.length = params.values.length - 4 := List.length_drop

theorem stackedSize_eq (params : Params) : stackedSize params = 4 * params.stacked.length := by
  have := params.fits
  rw [stackedSize, length_stacked]
  omega

/-- The registers before the function is entered. -/
def arguments (params : Params) (regs : PtRegs) : PtRegs :=
  if 4 < params.values.length then pushed params (passInRegs params regs)
  else passInRegs params regs

/-- **A target that is entered** with some words on its stack. -/
def entered (params : Params) (addr : Word) (ws : List Word) (t : Target) : Target :=
  ⟨enter addr (arguments params t.regs),
    if 4 < params.values.length then t.mem.place 4 (arguments params t.regs ARM_sp) ws else t.mem⟩

/-- The bytes of the array are its words. -/
theorem poke_arrayBytes (m : Mem) (dest : Word) {ws : List Word} (h : 4 * ws.length ≤ 2 ^ 32) :
    poke m dest (arrayBytes ws) (4 * ws.length) = m.place 4 dest ws := by
  have hws : (List.range ws.length).map (fun i => wordOf (arrayBytes ws) (4 * i)) = ws := by
    refine List.ext_getElem (by rw [List.length_map, List.length_range]) fun i _ hi => ?_
    rw [List.getElem_map, List.getElem_range, wordOf_arrayBytes, List.getD_eq_getElem?_getD,
      List.getElem?_eq_getElem hi, Option.getD_some]
  rw [poke_words m dest _ h, hws]

theorem fits_stacked (params : Params) : 4 * params.stacked.length ≤ 2 ^ 32 := by
  have := params.fits
  rw [length_stacked]
  omega

/-- **What the injector leaves.** -/
theorem Inject.ptraceCall_eq :
    Inject.ptraceCall params addr t = entered params addr params.stacked t := by
  unfold Inject.ptraceCall entered arguments
  split_ifs
  · simp only [ptraceWritedata, stackedSize_eq, poke_arrayBytes _ _ (fits_stacked params)]
    rfl
  · rfl

/-- `gothook` leaves the same. -/
theorem Gothook.callRemoteFunction_eq :
    Gothook.callRemoteFunction params addr t = entered params addr params.stacked t := by
  unfold Gothook.callRemoteFunction entered arguments
  simp only [setState_update_lr, gt_iff_lt]
  split_ifs
  · simp only [ptraceWrite, stackedSize_eq, poke_arrayBytes _ _ (fits_stacked params)]
  · rfl

/-- The words that some bytes are. -/
def wordsOf (bytes : List Byte) (n : ℕ) : List Word :=
  (List.range n).map fun i => wordOf (fun k => bytes.getD k 0#8) (4 * i)

/-- `poison` leaves what it reads. -/
theorem Poison.ptraceCall_eq (hn : 4 < params.values.length) :
    Poison.ptraceCall tool params addr t
      = ((List.range (4 * params.stacked.length)).mapM fun k =>
          tool (params.values.getD 4 0#32 + BitVec.ofNat 32 k)).map fun bytes =>
        entered params addr (wordsOf bytes params.stacked.length) t := by
  unfold Poison.ptraceCall entered arguments
  simp only [if_pos hn, stackedSize_eq, ptraceWritedata, poke_words _ _ _ (fits_stacked params)]
  cases (List.range (4 * params.stacked.length)).mapM fun k =>
      tool (params.values.getD 4 0#32 + BitVec.ofNat 32 k) with
  | none => rfl
  | some bytes => rfl

/-- Without parameters on the stack it leaves what the others leave. -/
theorem Poison.ptraceCall_of_le (hn : params.values.length ≤ 4) :
    Poison.ptraceCall tool params addr t = some (entered params addr params.stacked t) := by
  unfold Poison.ptraceCall entered arguments
  simp only [if_neg (Nat.not_lt.mpr hn)]
  rfl

/-- **What `poison` reads are the parameters.** -/
theorem wordsOf_eq_iff {bytes : List Byte} {ws : List Word} :
    wordsOf bytes ws.length = ws
      ↔ ∀ k < 4 * ws.length, bytes.getD k 0#8 = arrayBytes ws k := by
  constructor
  · intro h k hk
    have hi : k / 4 < ws.length := by omega
    have hword : (ws.getD (k / 4) 0#32) = wordOf (fun k => bytes.getD k 0#8) (4 * (k / 4)) := by
      conv_lhs => rw [← h, wordsOf]
      rw [List.getD_eq_getElem?_getD, List.getElem?_map, List.getElem?_range hi]
      rfl
    have hbyte := byteOf_wordOf (fun k => bytes.getD k 0#8) (4 * (k / 4))
      (Nat.mod_lt k (by decide : 0 < 4))
    rw [Nat.div_add_mod] at hbyte
    rw [arrayBytes, hword, hbyte]
  · intro h
    refine List.ext_getElem (by rw [wordsOf, List.length_map, List.length_range]) fun i _ hi => ?_
    have hbytes : ∀ j < 4, bytes.getD (4 * i + j) 0#8 = arrayBytes ws (4 * i + j) :=
      fun j hj => h _ (by omega)
    have hword : wordOf (fun k => bytes.getD k 0#8) (4 * i) = wordOf (arrayBytes ws) (4 * i) := by
      have h0 := hbytes 0 (by decide)
      rw [Nat.add_zero] at h0
      rw [wordOf, wordOf, hbytes 1 (by decide), hbytes 2 (by decide), hbytes 3 (by decide), h0]
    simp only [wordsOf, List.getElem_map, List.getElem_range]
    rw [hword, wordOf_arrayBytes, List.getD_eq_getElem?_getD, List.getElem?_eq_getElem hi,
      Option.getD_some]

/-- **When `poison` leaves what the others leave.** -/
theorem Poison.ptraceCall_eq_iff (hn : 4 < params.values.length) :
    Poison.ptraceCall tool params addr t = some (entered params addr params.stacked t)
      ↔ ∀ k < 4 * params.stacked.length,
        tool (params.values.getD 4 0#32 + BitVec.ofNat 32 k)
            = some (arrayBytes params.stacked k) := by
  have hlength : ∀ bytes : List Byte,
      (wordsOf bytes params.stacked.length).length = params.stacked.length :=
    fun bytes => by rw [wordsOf, List.length_map, List.length_range]
  rw [Poison.ptraceCall_eq hn, Option.map_eq_some_iff]
  constructor
  · rintro ⟨bytes, hbytes, heq⟩ k hk
    -- the words are those of the parameters, since they are in the same place
    have hwords : wordsOf bytes params.stacked.length = params.stacked := by
      have hmem := congrArg Target.mem heq
      simp only [entered, if_pos hn] at hmem
      refine (wordsAt_place_iff t.mem (arguments params t.regs ARM_sp) (hlength bytes)
        (fits_stacked params)).mp ?_
      rw [← hmem]
      exact wordsAt_place _ _ _ (by rw [hlength]; exact fits_stacked params)
    rw [mapM_eq_some_iff] at hbytes
    have hk' := congrArg (·[k]?) hbytes
    simp only [List.getElem?_map, List.getElem?_range hk, Option.map_some] at hk'
    have hbyte := wordsOf_eq_iff.mp hwords k hk
    rw [List.getD_eq_getElem?_getD] at hbyte
    cases hb : bytes[k]? with
    | none =>
      rw [hb] at hk'
      exact absurd hk' (Option.some_ne_none _)
    | some b =>
      rw [hb, Option.map_some, Option.some_inj] at hk'
      rw [hb, Option.getD_some] at hbyte
      rw [hk', hbyte]
  · intro h
    refine ⟨(List.range (4 * params.stacked.length)).map (arrayBytes params.stacked), ?_, ?_⟩
    · rw [mapM_eq_some_iff, List.map_map]
      exact List.map_congr_left fun k hk => h k (List.mem_range.mp hk)
    · rw [wordsOf_eq_iff.mpr fun k hk => ?_]
      rw [List.getD_eq_getElem?_getD, List.getElem?_map, List.getElem?_range hk, Option.map_some,
        Option.getD_some]

/-! ## The stack pointer -/

theorem arguments_sp : arguments params t.regs ARM_sp
    = t.regs ARM_sp - BitVec.ofNat 32 (4 * params.stacked.length) := by
  have hkeep : passInRegs params t.regs ARM_sp = t.regs ARM_sp := by
    rw [passInRegs_apply]
    refine if_neg fun h => ?_
    have := lt_of_lt_of_le h (min_le_right _ _)
    exact absurd this (by decide)
  unfold arguments
  split_ifs with h
  · rw [pushed, Function.update_self, hkeep, stackedSize_eq]
  · have hzero : params.stacked.length = 0 := by
      rw [length_stacked]
      omega
    rw [hkeep, hzero]
    exact (BitVec.sub_zero _).symm

/-- A parameter on the stack too many or too few for its alignment. -/
theorem aligned_iff (hsp : (t.regs ARM_sp).toNat % 8 = 0) (hn : 4 < params.values.length) :
    (arguments params t.regs ARM_sp).toNat % 8 = 0 ↔ params.values.length % 2 = 0 := by
  have hlt := (t.regs ARM_sp).isLt
  have hfits := params.fits
  rw [arguments_sp, length_stacked, BitVec.toNat_sub, BitVec.toNat_ofNat]
  omega

/-- **When a target is as the calling convention wants it.** -/
theorem marshalled_entered_iff (hsp : (t.regs ARM_sp).toNat % 8 = 0) :
    Marshalled params addr (entered params addr params.stacked t)
      ↔ params.values.length ≤ 4 ∨ params.values.length % 2 = 0 := by
  have hregs : ∀ r : Fin 18, r < 14 →
      (entered params addr params.stacked t).regs r = arguments params t.regs r :=
    fun r hr => enter_of_lt addr _ hr
  have hspr : (entered params addr params.stacked t).regs ARM_sp
      = arguments params t.regs ARM_sp := hregs ARM_sp (by decide)
  have hwords : WordsAt (entered params addr params.stacked t).mem
      (arguments params t.regs ARM_sp) params.stacked := by
    unfold entered
    by_cases hn : 4 < params.values.length
    · simp only [if_pos hn]
      exact wordsAt_place _ _ _ (fits_stacked params)
    · have hnil : params.stacked = [] := List.drop_eq_nil_of_le (Nat.not_lt.mp hn)
      rw [hnil]
      exact fun i v hv => absurd hv (by rw [List.getElem?_nil]; exact (Option.some_ne_none v).symm)
  constructor
  · intro h
    rcases Nat.lt_or_ge 4 params.values.length with hn | hn
    · have hal := h.aligned
      rw [hspr] at hal
      exact .inr ((aligned_iff hsp hn).mp hal)
    · exact .inl hn
  · intro h
    let regs := arguments params t.regs
    refine ⟨fun i v hi hv => ?_, by rw [hspr]; exact hwords, ?_, enter_lr addr regs,
      enter_pc addr regs, enter_cpsr addr regs⟩
    · have hi' : (i : ℕ) < 4 := hi
      have hlen : (i : ℕ) < params.values.length := (List.getElem?_eq_some_iff.mp hv).1
      have hpass : passInRegs params t.regs i = v := by
        rw [passInRegs_apply, if_pos (lt_min hlen hi'), List.getD_eq_getElem?_getD, hv,
          Option.getD_some]
      have hne : i ≠ ARM_sp := fun h => by
        rw [h] at hi
        exact absurd hi (by decide)
      rw [hregs i (lt_trans hi (by decide)), arguments]
      split_ifs
      · rw [pushed, Function.update_of_ne hne, hpass]
      · exact hpass
    · rw [hspr]
      rcases Nat.lt_or_ge 4 params.values.length with hn | hn
      · exact (aligned_iff hsp hn).mpr (h.resolve_left (Nat.not_le.mpr hn))
      · have hzero : params.stacked.length = 0 := by
          rw [length_stacked]
          omega
        rw [arguments_sp, hzero]
        exact (congrArg (fun a : Word => a.toNat % 8) (BitVec.sub_zero _)).trans hsp

/-! ## All three -/

/-- **The three calls marshal the parameters**, and leave the target in the same
state. -/
structure MarshalsAll (tool : Word → Option Byte) (params : Params) (addr : Word) (t : Target) :
    Prop where
  inject : Marshalled params addr (Inject.ptraceCall params addr t)
  poison : ∃ u, Poison.ptraceCall tool params addr t = some u ∧ Marshalled params addr u
  gothook : Marshalled params addr (Gothook.callRemoteFunction params addr t)
  same : Poison.ptraceCall tool params addr t = some (Inject.ptraceCall params addr t)
    ∧ Gothook.callRemoteFunction params addr t = Inject.ptraceCall params addr t

/-- **When the three calls marshal the parameters**: there are at most four of
them, or an even number, and the fifth is the address of a copy of the fifth and
all others in the memory of the tool. -/
theorem marshalsAll_iff (tool : Word → Option Byte) (params : Params) (addr : Word) (t : Target)
    (hsp : (t.regs ARM_sp).toNat % 8 = 0) :
    MarshalsAll tool params addr t
      ↔ params.values.length ≤ 4 ∨ params.values.length % 2 = 0
        ∧ ∀ k < 4 * params.stacked.length,
          tool (params.values.getD 4 0#32 + BitVec.ofNat 32 k)
            = some (arrayBytes params.stacked k) := by
  have hmarshal := @marshalled_entered_iff params addr t hsp
  constructor
  · intro h
    have hinject := h.inject
    have hsame := h.same.1
    rw [Inject.ptraceCall_eq] at hinject hsame
    rcases Nat.lt_or_ge 4 params.values.length with hn | hn
    · exact .inr ⟨(hmarshal.mp hinject).resolve_left (Nat.not_le.mpr hn),
        (Poison.ptraceCall_eq_iff hn).mp hsame⟩
    · exact .inl hn
  · intro h
    have hentered := hmarshal.mpr (h.imp_right And.left)
    have hpoison : Poison.ptraceCall tool params addr t
        = some (entered params addr params.stacked t) := by
      rcases Nat.lt_or_ge 4 params.values.length with hn | hn
      · exact (Poison.ptraceCall_eq_iff hn).mpr (h.resolve_left (Nat.not_le.mpr hn)).2
      · exact Poison.ptraceCall_of_le hn
    constructor
    · rwa [Inject.ptraceCall_eq]
    · exact ⟨_, hpoison, hentered⟩
    · rwa [Gothook.callRemoteFunction_eq]
    · rw [Inject.ptraceCall_eq, Gothook.callRemoteFunction_eq]
      exact ⟨hpoison, rfl⟩

/-- A target with its stack at `0x1000`. -/
def sampleTarget : Target := ⟨Function.update (fun _ => 0#32) ARM_sp 0x1000#32, fun _ => 0#8⟩

/-- Three parameters. -/
theorem marshalsAll_three :
    MarshalsAll (fun _ => none) ⟨[1#32, 2#32, 3#32], by decide⟩ 0x8001#32 sampleTarget :=
  (marshalsAll_iff _ ⟨[1#32, 2#32, 3#32], by decide⟩ _ sampleTarget (by decide)).mpr
    (.inl (by decide))

/-- **Five parameters** leave the stack pointer off its alignment. -/
theorem not_marshalsAll_five :
    (sampleTarget.regs ARM_sp).toNat % 8 = 0
      ∧ ¬ MarshalsAll (fun _ => none) ⟨[1#32, 2#32, 3#32, 4#32, 5#32], by decide⟩ 0x8001#32
        sampleTarget := by
  refine ⟨by decide, fun h => ?_⟩
  have hal := h.inject.aligned
  revert hal
  decide

end Calls

end RemoteCall
