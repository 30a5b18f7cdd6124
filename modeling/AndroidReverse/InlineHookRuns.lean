import AndroidReverse.InlineHookSteps
import AndroidReverse.Patching

/-!
# Runs of the registry

Runs of the interface, in any order and of any length, and what they leave of
the code. `Call.exec_changes` takes a call apart into the changes of
`AndroidReverse.InlineHookSteps`; what the changes preserve, runs preserve.

The registry is a patching tool. `Process.tool` is what it looks like as one,
and `Change.refines` shows that every change is a move of the tool, as long as
the blocks that the prologues are saved in are apart. So what the code is after
a run is said by `Patching.Tool.Inv`: it is the original outside the windows
that are hooked, and unhooking brings the rest back.

All this is under the condition that the boundary tables have room at every
registration. `count` is never reset, so a slot that is used again and again
runs out of it, and `codeIntact_overflow` is such a run: the registration
overwrites the length of its own item, and unhooking it destroys code.
-/

namespace InlineHook

open Arm Relocate Patching

/-- The registry a process starts with. -/
def InlineHookInfo.zero : InlineHookInfo where
  item := fun _ => ⟨0, 0, 0, 0, fun _ => 0, fun _ => 0, 0, 0, 0, 0, 0⟩
  size := 0

/-- A call that meets `ok`, if it adds an item to the registry. -/
def Call.Allowed (ok : Os → Word → Process → Prop) (p : Process) : Call → Prop
  | .registerInlineHook os t n _ =>
    os.isExecutableAddr t = true → os.isExecutableAddr n = true →
      findInlineHookItem p.info t = none → ok os t p
  | _ => True

/-- **Runs**: calls one after the other, none of which crashes. -/
def Reachable (ok : Os → Word → Process → Prop) : Process → Process → Prop :=
  Relation.ReflTransGen (fun p p' => ∃ c : Call, c.Allowed ok p ∧ c.exec p = some p')

/-! ## From calls to changes -/

section Calls

variable {ok : Os → Word → Process → Prop}

/-- A registration adds an item or changes nothing. -/
theorem registerInlineHook_cases {os : Os} {t n a : Word} {p : Process}
    {r : Ele7enStatus × Process} (h : registerInlineHook os t n a p = some r) :
    r.2 = p ∨ (os.isExecutableAddr t = true ∧ os.isExecutableAddr n = true ∧
      findInlineHookItem p.info t = none ∧ p.info.size < 1024 ∧
      r.2 = fillItem os t n a p.info.size { p.info with size := p.info.size + 1 } p) := by
  unfold registerInlineHook at h
  by_cases he : (!os.isExecutableAddr t || !os.isExecutableAddr n) = true
  · rw [if_pos he] at h
    exact Or.inl (congrArg Prod.snd (Option.some.inj h)).symm
  · rw [if_neg he] at h
    cases hf : findInlineHookItem p.info t with
    | some i =>
      simp only [hf] at h
      split_ifs at h <;> exact Or.inl (congrArg Prod.snd (Option.some.inj h)).symm
    | none =>
      simp only [hf, addInlineHookItem] at h
      by_cases hs : p.info.size ≥ 1024
      · simp [hs] at h
      · rw [if_neg hs] at h
        simp only [Bool.or_eq_true, Bool.not_eq_true', not_or, Bool.not_eq_false] at he
        exact Or.inr ⟨he.1, he.2, rfl, Nat.lt_of_not_le hs,
          (congrArg Prod.snd (Option.some.inj h)).symm⟩

theorem inlineHookAll_changes (l : List ℕ) (p : Process) (hl : ∀ i ∈ l, i < p.info.size) :
    Relation.ReflTransGen (Change ok) p
      (l.foldl (fun p i => if (p.info.item i).status = REGISTERED then doInlineHook i p else p)
        p) := by
  induction l generalizing p with
  | nil => exact .refl
  | cons i l ih =>
    obtain ⟨hi, hl⟩ := List.forall_mem_cons.mp hl
    rw [List.foldl_cons]
    split_ifs with hs
    · exact .head (doInlineHook_change hi hs) (ih (doInlineHook i p) hl)
    · exact ih p hl

theorem unHookAllLoop_changes (fuel i : ℕ) (p : Process) :
    Relation.ReflTransGen (Change ok) p (unHookAllLoop fuel i p) := by
  induction fuel generalizing i p with
  | zero => exact .refl
  | succ fuel ih =>
    unfold unHookAllLoop
    split_ifs with hi hs
    · exact .head (doInlineUnHook_change hi hs) (ih i (doInlineUnHook i p))
    · exact ih (i + 1) p
    · exact .refl

/-- **No hooked item is left** before the position of the loop, and so at its
end none at all: the item that fills a gap is looked at next. -/
theorem unHookAllLoop_status (fuel i : ℕ) (p : Process) (hfuel : p.info.size ≤ fuel + i)
    (hi : ∀ j, j < i → j < p.info.size → (p.info.item j).status ≠ HOOKED) :
    ∀ x ∈ (unHookAllLoop fuel i p).info.live, x.status ≠ HOOKED := by
  induction fuel generalizing i p with
  | zero =>
    intro x hx
    obtain ⟨j, hj, rfl⟩ := SlotArray.mem_live.mp hx
    have hj : j < p.info.size := hj
    exact hi j (by omega) hj
  | succ fuel ih =>
    unfold unHookAllLoop
    split_ifs with hlt hs
    -- slot `i` is looked at again, and the deletion does not touch those before it
    · refine ih i (doInlineUnHook i p) ?_ (fun j hj hjs => ?_)
      · show p.info.size - 1 ≤ fuel + i
        omega
      · show (Function.update p.info.item i _ j).status ≠ HOOKED
        rw [Function.update_of_ne (Nat.ne_of_lt hj)]
        exact hi j hj (by omega)
    · refine ih (i + 1) p (by omega) (fun j hj hjs => ?_)
      rcases Nat.lt_succ_iff_lt_or_eq.mp hj with hj | rfl
      · exact hi j hj hjs
      · exact hs
    · intro x hx
      obtain ⟨j, hj, rfl⟩ := SlotArray.mem_live.mp hx
      exact hi j (by omega) hj

/-- **What `inlineUnHook` does**: it unhooks a hooked item of the target, or nothing. -/
theorem inlineUnHook_cases (t : Word) (p : Process) :
    (∃ i < p.info.size, (p.info.item i).targetAddr = t ∧ (p.info.item i).status = HOOKED
        ∧ (InlineHook.inlineUnHook t p).2 = doInlineUnHook i p)
      ∨ (InlineHook.inlineUnHook t p).2 = p := by
  unfold InlineHook.inlineUnHook
  split
  case h_1 i hf =>
    have hi := List.mem_range.mp (List.mem_of_find?_eq_some hf)
    have hs := List.find?_some hf
    rw [Bool.and_eq_true, beq_iff_eq, beq_iff_eq] at hs
    exact Or.inl ⟨i, hi, hs.1, hs.2, rfl⟩
  case h_2 => exact Or.inr rfl

/-- **What `inlineHook` does**: it hooks a registered item, or nothing. -/
theorem inlineHook_cases (t : Word) (p : Process) :
    (∃ i < p.info.size, (p.info.item i).status = REGISTERED
        ∧ (InlineHook.inlineHook t p).2 = doInlineHook i p)
      ∨ (InlineHook.inlineHook t p).2 = p := by
  unfold InlineHook.inlineHook
  cases hf : findInlineHookItem p.info t with
  | none => exact Or.inr rfl
  | some i =>
    dsimp only
    split_ifs with hs
    · exact Or.inl ⟨i, lt_of_findInlineHookItem hf, hs, rfl⟩
    · exact Or.inr rfl
    · exact Or.inr rfl

/-- **A call is a sequence of changes**, if its registration fits. -/
theorem Call.exec_changes (hfit : ∀ os t p, ok os t p → Fits t p) {c : Call} {p p' : Process}
    (hc : c.Allowed ok p) (h : c.exec p = some p') :
    Relation.ReflTransGen (Change ok) p p' := by
  cases c with
  | registerInlineHook os t n a =>
    obtain ⟨r, hr, rfl⟩ := Option.map_eq_some_iff.mp h
    obtain hp | ⟨ht, hn, hf, hs, hp⟩ := registerInlineHook_cases hr
    · rw [hp]
    · rw [hp]
      have hok := hc ht hn hf
      exact .single (fillItem_change hok (hfit os t p hok) hf hs)
  | inlineHook t =>
    obtain rfl := Option.some.inj h
    rcases inlineHook_cases t p with ⟨i, hi, hs, hp⟩ | hp
    · rw [hp]
      exact .single (doInlineHook_change hi hs)
    · rw [hp]
  | inlineHookAll =>
    obtain rfl := Option.some.inj h
    exact inlineHookAll_changes _ p (fun i hi => List.mem_range.mp hi)
  | inlineUnHook t =>
    obtain rfl := Option.some.inj h
    rcases inlineUnHook_cases t p with ⟨i, hi, -, hs, hp⟩ | hp
    · rw [hp]
      exact .single (doInlineUnHook_change hi hs)
    · rw [hp]
  | inlineUnHookAll =>
    obtain rfl := Option.some.inj h
    exact unHookAllLoop_changes p.info.size 0 p

/-- **What the changes preserve, runs preserve.** -/
theorem Reachable.induction {I : Process → Prop} (hfit : ∀ os t p, ok os t p → Fits t p)
    (hstep : ∀ p p', I p → Change ok p p' → I p') {p p' : Process} (h : Reachable ok p p')
    (hp : I p) : I p' := by
  have hchanges : ∀ q q', Relation.ReflTransGen (Change ok) q q' → I q → I q' := by
    intro q q' hq hi
    induction hq with
    | refl => exact hi
    | tail _ hs ih => exact hstep _ _ ih hs
  induction h with
  | refl => exact hp
  | tail _ hs ih =>
    obtain ⟨c, hc, hex⟩ := hs
    exact hchanges _ _ (Call.exec_changes hfit hc hex) ih

end Calls

/-! ## The items of a run -/

/-- The block `malloc` returns is none that is in use. -/
def Fresh (os : Os) (target_addr : Word) (p : Process) : Prop :=
  ∀ x ∈ p.info.live, Disjoint (block x) {a | InBlock os.malloc (windowLength target_addr) a}

/-- **The items are well formed**: each has the length of its window, and no
two share a part of the heap. -/
structure WellFormed (p : Process) : Prop where
  length : ∀ x ∈ p.info.live, x.length = BitVec.ofNat 32 (windowLength x.targetAddr)
  apart : SlotArray.Apart (fun x y => Disjoint (block x) (block y)) p.info.live

section Items

variable {ok : Os → Word → Process → Prop} {p p' : Process}

theorem wellFormed_initial (h : p.info = .zero) : WellFormed p := by
  have hl : p.info.live = 0 := by
    rw [h]
    rfl
  refine ⟨?_, ?_⟩
  · rw [hl]
    exact fun x hx => absurd hx (Multiset.notMem_zero x)
  · rw [hl]
    exact SlotArray.apart_zero

theorem Registered.block_eq {os : Os} {t n a : Word} {x : InlineHookItem}
    (hx : Registered os t n a p x) : block x = {a | InBlock os.malloc (windowLength t) a} := by
  unfold block
  rw [hx.origInstructions, hx.targetAddr]

/-- **A change keeps the items well formed.** -/
theorem WellFormed.change (hfresh : ∀ os t p, ok os t p → Fresh os t p) (hp : WellFormed p)
    (h : Change ok p p') : WellFormed p' := by
  have hsymm : ∀ x y : InlineHookItem, Disjoint (block x) (block y) →
      Disjoint (block y) (block x) := fun _ _ h => h.symm
  cases h with
  | register os t n a x hok hnew hx hlive hcode hheap =>
    refine ⟨?_, ?_⟩
    · rw [hlive]
      exact Multiset.forall_mem_cons.mpr ⟨by rw [hx.length, hx.targetAddr], hp.length⟩
    · rw [hlive]
      refine hp.apart.cons hsymm (fun y hy => ?_)
      rw [hx.block_eq]
      exact (hfresh os t p hok y hy).symm
  | hook x rest hx hlive hlive' hcode hheap =>
    obtain ⟨hl, ha⟩ := hp
    rw [hlive] at hl ha
    refine ⟨?_, ?_⟩
    · rw [hlive']
      exact Multiset.forall_mem_cons.mpr (Multiset.forall_mem_cons.mp hl)
    · rw [hlive']
      exact ha.replace hsymm (fun _ h => h)
  | unHook x rest hx hlive hlive' hcode hheap =>
    obtain ⟨hl, ha⟩ := hp
    rw [hlive] at hl ha
    refine ⟨?_, ?_⟩
    · rw [hlive']
      exact (Multiset.forall_mem_cons.mp hl).2
    · rw [hlive']
      exact ha.tail

/-- A registration writes to no block in use. -/
theorem heap_kept {os : Os} {t : Word} (hf : Fresh os t p) {x : InlineHookItem}
    (hx : x ∈ p.info.live) {a : Word} (ha : a ∈ block x) :
    memcpy p.heap os.malloc p.code (clearBit0 t) (windowLength t) a = p.heap a :=
  memcpy_of_out (Set.disjoint_left.mp (hf x hx) ha)

end Items

/-! ## The registry as a patching tool -/

/-- What an item saves of its window. -/
def savedWindow (heap : Mem) (x : InlineHookItem) : Saved Byte window where
  site := x.targetAddr
  content := fun a => heap (x.origInstructions + (a - clearBit0 x.targetAddr))
  active := x.status == HOOKED

/-- The process as a patching tool. -/
def Process.tool (p : Process) : Tool Byte window where
  mem := p.code
  saved := p.info.live.map (savedWindow p.heap)

section Refinement

variable {ok : Os → Word → Process → Prop} {T : Set Word} {p p' : Process}

/-- The address of a saved byte. -/
theorem mem_block {x : InlineHookItem} {a : Word} (ha : a ∈ window x.targetAddr) :
    x.origInstructions + (a - clearBit0 x.targetAddr) ∈ block x := inBlock_shift ha

/-- **Every change is a move of the tool.** -/
theorem Change.refines (hok : ∀ os t p, ok os t p → t ∈ T ∧ Fresh os t p) (hp : WellFormed p)
    (h : Change ok p p') : Tool.Step T p.tool p'.tool := by
  cases h with
  | register os t n a x hokp hnew hx hlive hcode hheap =>
    obtain ⟨ht, hf⟩ := hok os t p hokp
    -- the new block is none of those in use, so they keep what they saved
    have hold : p.info.live.map (savedWindow p'.heap) = p.info.live.map (savedWindow p.heap) := by
      refine Multiset.map_congr rfl (fun y hy => ?_)
      refine congrArg (fun c => Saved.mk y.targetAddr c (y.status == HOOKED)) (funext (fun b => ?_))
      rw [hheap]
      exact heap_kept hf hy (mem_block b.2)
    have hnew' : savedWindow p'.heap x = ⟨t, (window t).domRestrict p.code, false⟩ := by
      obtain rfl := hx.targetAddr
      unfold savedWindow
      rw [hx.status, hx.origInstructions, hheap]
      refine congrArg (fun c => Saved.mk x.targetAddr c false) (funext (fun b => ?_))
      rw [memcpy_of_in (inBlock_shift b.2), BitVec.add_comm os.malloc, BitVec.add_sub_cancel,
        BitVec.add_comm, BitVec.sub_add_cancel]
      rfl
    unfold Process.tool
    rw [hlive, Multiset.map_cons, hold, hnew', hcode]
    refine .save t ht (fun r hr => ?_)
    obtain ⟨y, hy, rfl⟩ := Multiset.mem_map.mp hr
    exact hnew y hy
  | hook x rest hx hlive hlive' hcode hheap =>
    unfold Process.tool
    rw [hlive, hlive', hheap, Multiset.map_cons, Multiset.map_cons]
    have hactive : savedWindow p.heap { x with status := HOOKED }
        = { savedWindow p.heap x with active := true } := rfl
    rw [hactive]
    exact .patch (savedWindow p.heap x) (by simp [savedWindow, hx, REGISTERED, HOOKED]) hcode
  | unHook x rest hx hlive hlive' hcode hheap =>
    have hlen : x.length.toNat = windowLength x.targetAddr := by
      rw [hp.length x (hlive ▸ Multiset.mem_cons_self x rest), windowLength_toNat]
    unfold Process.tool
    rw [hlive, hlive', hheap, hcode, hlen, Multiset.map_cons]
    refine .restore (savedWindow p.heap x) (by simp [savedWindow, hx]) (fun a ha => ?_)
      (funext (fun a => ?_))
    · exact memcpy_of_out ha
    · exact memcpy_of_in a.2

/-- **What holds in a run** of the registry. -/
structure RunInv (T : Set Word) (code₀ : Mem) (p : Process) : Prop where
  wellFormed : WellFormed p
  tool : Tool.Inv T code₀ p.tool

theorem runInv_initial (h : p.info = .zero) : RunInv T p.code p := by
  refine ⟨wellFormed_initial h, ?_⟩
  unfold Process.tool
  rw [h]
  exact Tool.inv_initial

theorem RunInv.change {code₀ : Mem} (hT : T.PairwiseDisjoint window)
    (hok : ∀ os t p, ok os t p → t ∈ T ∧ Fresh os t p) (h : RunInv T code₀ p)
    (hc : Change ok p p') : RunInv T code₀ p' :=
  ⟨h.wellFormed.change (fun os t p ho => (hok os t p ho).2) hc,
    h.tool.step hT (hc.refines hok h.wellFormed)⟩

/-- The hooked windows of the tool are those of the hooked items. -/
theorem activeSites_tool :
    p.tool.activeSites = {t | ∃ x ∈ p.info.live, x.status = HOOKED ∧ x.targetAddr = t} := by
  ext t
  simp [Tool.activeSites, Process.tool, savedWindow]

end Refinement

/-! ## The code is intact -/

/-- **The code is intact**, where `p₀` is the process at the start: it is
changed in the windows of the hooked items only, these windows are saved as
they were, and unhooking all restores the whole. -/
structure CodeIntact (p₀ p : Process) : Prop where
  outside : ∀ a, (∀ x ∈ p.info.live, x.status = HOOKED → a ∉ window x.targetAddr) →
    p.code a = p₀.code a
  saved : ∀ x ∈ p.info.live, x.status = HOOKED → ∀ k, k < windowLength x.targetAddr →
    p.heap (x.origInstructions + BitVec.ofNat 32 k)
      = p₀.code (clearBit0 x.targetAddr + BitVec.ofNat 32 k)
  restored : (inlineUnHookAll p).code = p₀.code

/-- **Hooks leave the code intact** over every run in which the windows of the
targets are disjoint, `malloc` returns free blocks and the boundary tables have
room for every registration. -/
theorem codeIntact_of_fits {T : Set Word} (hT : T.PairwiseDisjoint window) {p₀ p : Process}
    (h₀ : p₀.info = .zero)
    (h : Reachable (fun os t p => t ∈ T ∧ Fresh os t p ∧ Fits t p) p₀ p) :
    CodeIntact p₀ p := by
  have hok : ∀ (os : Os) (t : Word) (p : Process), t ∈ T ∧ Fresh os t p ∧ Fits t p →
      t ∈ T ∧ Fresh os t p := fun _ _ _ ho => ⟨ho.1, ho.2.1⟩
  have hinv : RunInv T p₀.code p :=
    h.induction (fun _ _ _ ho => ho.2.2) (fun _ _ hi hc => hi.change hT hok hc)
      (runInv_initial h₀)
  refine ⟨fun a ha => ?_, fun x hx _ k hk => ?_, ?_⟩
  · refine hinv.tool.patched a (fun t ht => ?_)
    rw [activeSites_tool] at ht
    obtain ⟨x, hx, hs, rfl⟩ := ht
    exact ha x hx hs
  · have hc := hinv.tool.content _ (Multiset.mem_map_of_mem (savedWindow p.heap) hx)
    have hk' : k < 2 ^ 32 := by
      have := windowLength_le x.targetAddr
      omega
    have hw : clearBit0 x.targetAddr + BitVec.ofNat 32 k ∈ window x.targetAddr :=
      inBlock_offset hk hk'
    have hb : p.heap (x.origInstructions
          + (clearBit0 x.targetAddr + BitVec.ofNat 32 k - clearBit0 x.targetAddr))
        = p₀.code (clearBit0 x.targetAddr + BitVec.ofNat 32 k) := congrFun hc ⟨_, hw⟩
    rwa [BitVec.add_comm (clearBit0 x.targetAddr), BitVec.add_sub_cancel,
      BitVec.add_comm (BitVec.ofNat 32 k)] at hb
  · have hall : RunInv T p₀.code (inlineUnHookAll p) :=
      Reachable.induction (fun _ _ _ ho => ho.2.2) (fun _ _ hi hc => hi.change hT hok hc)
        (.single ⟨.inlineUnHookAll, trivial, rfl⟩) hinv
    refine hall.tool.mem_eq (fun r hr => ?_)
    obtain ⟨x, hx, rfl⟩ :=
      Multiset.mem_map.mp (show r ∈ (inlineUnHookAll p).info.live.map _ from hr)
    have hs : x.status ≠ HOOKED :=
      unHookAllLoop_status p.info.size 0 p (Nat.le_refl _)
        (fun j hj => absurd hj (Nat.not_lt_zero j)) x hx
    exact beq_eq_false_iff_ne.mpr hs

/-! ### Two runs

They start from the same process. Its code is a Thumb prologue at `0x8000`,
`ADD R0, PC` and `NOP`s from there on. -/

/-- The code. -/
def thumbPrologue : Mem := fun a =>
  if a = 0x8000#32 then 0x78#8
  else if a = 0x8001#32 then 0x44#8
  else if a.getLsbD 0 then 0xBF#8
  else 0x00#8

/-- The process. -/
def startProcess : Process where
  code := thumbPrologue
  heap := fun _ => 0xFF#8
  pages := fun _ => none
  cells := fun _ => 0#32
  info := .zero
  flushed := []

/-- The system of these runs. Their registry has at most one item, so a block
that was freed may be returned again. -/
def reusingOs : Os where
  isExecutableAddr := fun _ => true
  malloc := 0x100#32
  mmap := 0x200#32

/-- Register a target and hook it. -/
def hookTarget (target_addr : Word) (p : Process) : Process :=
  (inlineHook target_addr
    (fillItem reusingOs target_addr 0xA001#32 0#32 p.info.size
      { p.info with size := p.info.size + 1 } p)).2

/-- Hook it and unhook it again. -/
def hookCycle (target_addr : Word) (p : Process) : Process :=
  (inlineUnHook target_addr (hookTarget target_addr p)).2

section Runs

variable {ok : Os → Word → Process → Prop} {p₀ p : Process}

theorem live_of_size (hs : p.info.size = 0) : p.info.live = 0 := by
  unfold InlineHookInfo.live
  rw [hs]
  rfl

theorem fresh_of_size (os : Os) (t : Word) (hs : p.info.size = 0) : Fresh os t p := by
  intro x hx
  rw [live_of_size hs] at hx
  exact absurd hx (Multiset.notMem_zero x)

theorem reachable_hookTarget {t : Word} (h : Reachable ok p₀ p) (hs : p.info.size = 0)
    (hok : ok reusingOs t p) : Reachable ok p₀ (hookTarget t p) := by
  have hfind : findInlineHookItem p.info t = none := by
    refine findInlineHookItem_eq_none.mpr (fun x hx => ?_)
    rw [live_of_size hs] at hx
    exact absurd hx (Multiset.notMem_zero x)
  have hreg : registerInlineHook reusingOs t 0xA001#32 0#32 p
      = some (.ok, fillItem reusingOs t 0xA001#32 0#32 p.info.size
          { p.info with size := p.info.size + 1 } p) := by
    unfold registerInlineHook addInlineHookItem
    rw [hfind, if_neg (by omega : ¬ p.info.size ≥ 1024)]
    rfl
  refine (h.tail ⟨.registerInlineHook reusingOs t 0xA001#32 0#32, ?_, ?_⟩).tail
    ⟨.inlineHook t, trivial, rfl⟩
  · exact fun _ _ _ => hok
  · exact congrArg (Option.map Prod.snd) hreg

theorem reachable_hookCycle {t : Word} (h : Reachable ok p₀ p) (hs : p.info.size = 0)
    (hok : ok reusingOs t p) : Reachable ok p₀ (hookCycle t p) :=
  (reachable_hookTarget h hs hok).tail ⟨.inlineUnHook t, trivial, rfl⟩

end Runs

theorem codeIntact_of_fits_prologue :
    CodeIntact startProcess (hookTarget 0x8001#32 startProcess) :=
  codeIntact_of_fits (Set.pairwiseDisjoint_singleton 0x8001#32 window) rfl
    (reachable_hookTarget .refl rfl
      ⟨rfl, fresh_of_size _ _ rfl, by
        unfold Fits
        decide⟩)

/-- Hook the prologue and unhook it again, so many times. -/
def hookCycles : ℕ → Process
  | 0 => startProcess
  | n + 1 => hookCycle 0x8001#32 (hookCycles n)

theorem reachable_hookCycles (n : ℕ) (hs : ∀ k, k < n → (hookCycles k).info.size = 0) :
    Reachable (fun os t p => t ∈ ({0x8001#32} : Set Word) ∧ Fresh os t p) startProcess
      (hookCycles n) := by
  induction n with
  | zero => exact .refl
  | succ n ih =>
    have hn := hs n (Nat.lt_succ_self n)
    exact reachable_hookCycle (ih (fun k hk => hs k (by omega))) hn ⟨rfl, fresh_of_size _ _ hn⟩

/-- **A run that destroys code.** The prologue has six instructions. It is
registered, hooked and unhooked four times, and the last registration runs past
the tables. It leaves an item of length 28, and unhooking it writes 28 bytes
over a window of 12. -/
theorem codeIntact_overflow :
    ({0x8001#32} : Set Word).PairwiseDisjoint window ∧ startProcess.info = .zero ∧
      Reachable (fun os t p => t ∈ ({0x8001#32} : Set Word) ∧ Fresh os t p) startProcess
        (hookCycles 4) ∧
      ¬ CodeIntact startProcess (hookCycles 4) := by
  have hsize : ∀ k, k < 5 → (hookCycles k).info.size = 0 := by decide
  have hcode : (hookCycles 4).code 0x800C#32 ≠ startProcess.code 0x800C#32 := by decide
  refine ⟨Set.pairwiseDisjoint_singleton 0x8001#32 window, rfl,
    reachable_hookCycles 4 (fun k hk => hsize k (by omega)), fun h => ?_⟩
  refine hcode (h.outside 0x800C#32 (fun x hx => ?_))
  rw [live_of_size (hsize 4 (by omega))] at hx
  exact absurd hx (Multiset.notMem_zero x)

end InlineHook
