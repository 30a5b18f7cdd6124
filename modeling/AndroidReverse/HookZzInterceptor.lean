import AndroidReverse.HookZzInvoke
import AndroidReverse.Patching

/-!
# Enabling and disabling hooks

The interceptor of HookZz, `interceptor.c`: a list of entries, found by their
targets, with a backend to build their trampolines. A hook is built once and
may be enabled and disabled any number of times after that. Enabling writes a
jump over the target, which `ZzActivateTrampoline` puts together; disabling
writes back what `ZzPrepareTrampoline` has saved.

The two functions choose their lengths on their own, and the hook is undone
only because the lengths agree (`activateCode_size`). The rest is a matter of
patched memories (`AndroidReverse.Patching`), with the windows of the entries.
-/

namespace HookZz

open Arm Patching

/-! ## Activating -/

/-- What `ZzActivateTrampoline` writes. -/
def activateCode (entry : HookFunctionEntry) (redirectCodeSize : ℕ) (dataPtr : Word) :
    AssemblerWriter :=
  let addr := targetAddr entry.targetPtr
  let address := if entry.hookType = .functionViaReplace then entry.onEnterTransferTrampoline
    else entry.onEnterTrampoline
  if instructionIsThumb entry.targetPtr then
    let writer := AssemblerWriter.thumbReset dataPtr addr
    if redirectCodeSize = tinyRedirectSize then
      writer.thumbPutBImm32 ((entry.onEnterTransferTrampoline &&& ~~~1#32) - writer.startPc)
    else
      -- target address is not aligned, need align
      let writer := if addr.toNat % 4 ≠ 0 ∧ redirectCodeSize = fullRedirectSize + 2 then
        writer.thumbPutNop else writer
      writer.thumbPutLdrRegAddress PC address
  else
    let writer := AssemblerWriter.armReset dataPtr addr
    if redirectCodeSize = tinyRedirectSize then
      writer.armPutBImm (entry.onEnterTransferTrampoline - writer.startPc)
    else writer.armPutLdrRegAddress PC address

/-- `ZzActivateTrampoline`; `none` if there is no backend to read. -/
def activateTrampoline (s : HookState) : Option (Status × HookState) :=
  s.entry.redirectCodeSize.map fun redirectCodeSize =>
    let writer := activateCode s.entry redirectCodeSize s.world.tempCodeSlice
    let r := s.world.memoryPatchCode (targetAddr s.entry.targetPtr) writer.code
    let s := if instructionIsThumb s.entry.targetPtr then s.withThumbWriter writer
      else s.withArmWriter writer
    (if r.1 then .doneHook else .failed, { s with world := r.2 })

/-! ### The number of bytes -/

/-- A writer that has counted what it has written. -/
def AssemblerWriter.Exact (w : AssemblerWriter) : Prop := w.size = 2 * w.buffer.length

namespace AssemblerWriter

theorem Exact.put {w : AssemblerWriter} (h : w.Exact) (e : Emission) : (w.put e).Exact := by
  show w.size + e.size = 2 * (w.buffer ++ e.halves).length
  rw [List.length_append, Nat.mul_add, h]
  rfl

theorem Exact.emit {w : AssemblerWriter} (h : w.Exact) (es : List Emission) :
    (w.emit es).Exact := by
  induction es generalizing w with
  | nil => exact h
  | cons e es ih => exact ih (h.put e)

/-- All of it is patched. -/
theorem Exact.length_code {w : AssemblerWriter} (h : w.Exact) : w.code.length = w.size := by
  unfold code
  rw [List.length_take, List.length_flatMap, h]
  simp only [List.length_cons, List.length_nil, List.map_const',
    List.sum_replicate_nat]
  omega

end AssemblerWriter

section Activate

variable {entry : HookFunctionEntry} {k : ℕ} {dataPtr : Word}

theorem activateCode_exact : (activateCode entry k dataPtr).Exact := by
  have hthumb : ∀ address, (AssemblerWriter.thumbReset dataPtr address).Exact := fun _ => rfl
  have harm : ∀ address, (AssemblerWriter.armReset dataPtr address).Exact := fun _ => rfl
  unfold activateCode
  dsimp only
  split
  · split
    · exact ((hthumb _).put _).put _
    · rw [AssemblerWriter.thumbPutLdrRegAddress_pc]
      split
      · exact ((hthumb _).put _).emit _
      · exact (hthumb _).emit _
  · split
    · exact (harm _).put _
    · exact ((harm _).put _).put _

/-- **As many bytes are written as have been saved.** -/
theorem activateCode_size (hk : k = 4 ∨ k = if instructionIsThumb entry.targetPtr
      ∧ (targetAddr entry.targetPtr).toNat % 4 ≠ 0 then 10 else 8) :
    (activateCode entry k dataPtr).size = k := by
  unfold activateCode
  dsimp only
  rcases hk with rfl | hk
  · split
    · rfl
    · rfl
  · have h4 : k ≠ tinyRedirectSize := by
      split at hk <;> rw [hk] <;> decide
    by_cases ht : instructionIsThumb entry.targetPtr = true
    · rw [if_pos ht, if_neg h4, AssemblerWriter.thumbPutLdrRegAddress_pc, AssemblerWriter.emit_size]
      have heven := targetAddr_even entry.targetPtr
      by_cases hodd : (targetAddr entry.targetPtr).toNat % 4 ≠ 0
      · -- the NOP brings the jump to a word boundary
        rw [if_pos ⟨ht, hodd⟩] at hk
        have hoff : ((AssemblerWriter.thumbReset dataPtr
          (targetAddr entry.targetPtr)).thumbPutNop).offWord
            = false := by
          show ((targetAddr entry.targetPtr + 4#32 + 2#32).toNat % 4 != 0) = false
          rw [BitVec.add_assoc, BitVec.toNat_add, show (4#32 + 2#32 : Word).toNat = 6 from rfl,
            bne_eq_false_iff_eq]
          omega
        rw [if_pos ⟨hodd, hk⟩, hoff, hk]
        rfl
      · rw [if_neg (fun h => hodd h.2)] at hk
        have hoff : (AssemblerWriter.thumbReset dataPtr (targetAddr entry.targetPtr)).offWord
            = false := by
          show ((targetAddr entry.targetPtr + 4#32).toNat % 4 != 0) = false
          rw [BitVec.toNat_add, show (4#32 : Word).toNat = 4 from rfl, bne_eq_false_iff_eq]
          omega
        rw [if_neg (fun h => hodd h.1), hoff, hk]
        rfl
    · rw [if_neg (fun h => ht h.1)] at hk
      rw [if_neg ht, if_neg h4, hk]
      rfl

/-- What activating does to the world. -/
theorem activateTrampoline_world {s : HookState} {r : Status × HookState}
    (h : activateTrampoline s = some r) :
    ∃ k, s.entry.redirectCodeSize = some k
      ∧ r.2.world = (s.world.memoryPatchCode (targetAddr s.entry.targetPtr)
          (activateCode s.entry k s.world.tempCodeSlice).code).2 := by
  obtain ⟨k, hk, rfl⟩ := Option.map_eq_some_iff.mp h
  exact ⟨k, hk, rfl⟩

end Activate

/-! ## The interceptor -/

/-- `ZzInterceptor`, with the world it is in. -/
structure Interceptor where
  /-- The backend. -/
  backend : InterceptorBackend
  /-- `hook_function_entry_set`. -/
  entries : List HookFunctionEntry
  /-- The world. -/
  world : World

namespace Interceptor

/-- `ZzFindHookFunctionEntry`. -/
def findHookFunctionEntry (self : Interceptor) (targetPtr : Word) : Option HookFunctionEntry :=
  self.entries.find? (fun entry => entry.targetPtr == targetPtr)

/-- `ZzInitializeHookFunctionEntry` of an entry at an address, with the key it
gets. -/
def initializeHookFunctionEntry (self : Interceptor) (ptr threadLocalKey : Word)
    (hookType : HookType)
    (targetPtr replaceCall preCall postCall : Word) (tryNearJump : Bool) : HookFunctionEntry where
  ptr := ptr
  hookType := hookType
  id := self.entries.length
  isEnabled := false
  tryNearJump := tryNearJump
  threadLocalKey := threadLocalKey
  targetPtr := targetPtr
  nextInsnAddr := 0#32
  preCall := preCall
  postCall := postCall
  stubCall := 0#32
  replaceCall := replaceCall
  onEnterTransferTrampoline := 0#32
  onEnterTrampoline := 0#32
  onInsnLeaveTrampoline := 0#32
  onInvokeTrampoline := 0#32
  onLeaveTrampoline := 0#32
  onDynamicBinaryInstrumentationTrampoline := 0#32
  originPrologue := ⟨targetPtr, 0, []⟩
  redirectCodeSize := none

/-- The trampolines of an entry are built, and it is added:
`ZzBuildTrampoline` and `ZzAddHookFunctionEntry`. -/
def addHook (self : Interceptor) (entry : HookFunctionEntry) : Option Interceptor :=
  (buildTrampoline ⟨self.backend, entry, self.world⟩).map fun r =>
    ⟨r.2.backend, self.entries ++ [r.2.entry], r.2.world⟩

/-- `ZzBuildHook`, with the addresses the new entry and its key get. -/
def buildHook (self : Interceptor)
    (ptr threadLocalKey targetPtr replaceCall preCall postCall : Word)
    (tryNearJump : Bool) (hookType : HookType) : Option (Status × Interceptor) :=
  if (self.findHookFunctionEntry targetPtr).isSome then some (.alreadyHook, self)
  else
    (self.addHook (self.initializeHookFunctionEntry ptr threadLocalKey hookType targetPtr replaceCall
      preCall postCall tryNearJump)).map fun self => (.doneHook, self)

/-- An assignment to `isEnabled` of the entry that is found for a target. -/
def setEnabled (targetPtr : Word) (enabled : Bool) : List HookFunctionEntry → List HookFunctionEntry
  | [] => []
  | entry :: entries =>
    if entry.targetPtr = targetPtr then { entry with isEnabled := enabled } :: entries
    else entry :: setEnabled targetPtr enabled entries

/-- `ZzEnableHook`. -/
def enableHook (self : Interceptor) (targetPtr : Word) : Option (Status × Interceptor) :=
  match self.findHookFunctionEntry targetPtr with
  | none => some (.noBuildHook, self)
  | some entry =>
    if entry.isEnabled then some (.alreadyEnabled, self)
    else
      (activateTrampoline ⟨self.backend, { entry with isEnabled := true }, self.world⟩).map fun r =>
        (r.1, ⟨r.2.backend, setEnabled targetPtr true self.entries, r.2.world⟩)

/-- `ZzDisableHook`; `none` if there is no such hook, which is not checked. The
entries of a table are taken out by a function that does nothing on this
platform. -/
def disableHook (self : Interceptor) (targetPtr : Word) : Option (Status × Interceptor) :=
  (self.findHookFunctionEntry targetPtr).map fun entry =>
    let world := if entry.hookType = .functionViaGot then self.world
      else (self.world.memoryPatchCode entry.originPrologue.address
        (entry.originPrologue.data.take entry.originPrologue.size)).2
    (.doneEnable, { self with world := world, entries := setEnabled targetPtr false self.entries })

/-- A call of one of the two. -/
inductive Command where
  | enable (targetPtr : Word)
  | disable (targetPtr : Word)
deriving DecidableEq, Repr

/-- The target of a call. -/
def Command.targetPtr : Command → Word
  | enable targetPtr => targetPtr
  | disable targetPtr => targetPtr

/-- What a call does. -/
def step (self : Interceptor) : Command → Option Interceptor
  | .enable targetPtr => (self.enableHook targetPtr).map Prod.snd
  | .disable targetPtr => (self.disableHook targetPtr).map Prod.snd

/-- What a sequence of calls does. -/
def run (self : Interceptor) (commands : List Command) : Option Interceptor :=
  commands.foldlM step self

/-! ## What a call changes -/

end Interceptor

/-- **The window of an entry**: the bytes that enabling and disabling it may
write. -/
def HookFunctionEntry.window (entry : HookFunctionEntry) : Set Word :=
  {a | (∃ k dataPtr, entry.redirectCodeSize = some k
      ∧ (a - targetAddr entry.targetPtr).toNat < (activateCode entry k dataPtr).size)
    ∨ (a - entry.originPrologue.address).toNat < entry.originPrologue.size}

/-- An entry without the flag that the two calls change. -/
def HookFunctionEntry.core (entry : HookFunctionEntry) : HookFunctionEntry :=
  { entry with isEnabled := false }

/-- Patching always succeeds. -/
def World.PatchesSucceed (w : World) : Prop := ∀ b ∈ w.patches, b = true

namespace World

variable {w : World} {address : Word} {codedata : List Byte}

/-- What a patch changes. -/
theorem memoryPatchCode_frame {a : Word} (h : codedata.length ≤ (a - address).toNat) :
    (w.memoryPatchCode address codedata).2.mem a = w.mem a := by
  unfold memoryPatchCode
  split
  · exact Mem.place_of_out Nat.one_pos ((Nat.one_mul _).trans_le h)
  · rfl

/-- What it writes. -/
theorem memoryPatchCode_at (hw : w.PatchesSucceed) {a : Word} {b : Byte}
    (h : codedata[(a - address).toNat]? = some b) :
    (w.memoryPatchCode address codedata).2.mem a = b := by
  have hhead : w.patches.headD true = true := by
    cases hp : w.patches with
    | nil => rfl
    | cons x xs => exact hw x (by rw [hp]; exact List.mem_cons_self)
  unfold memoryPatchCode
  rw [if_pos hhead]
  show w.mem.place 1 address codedata a = b
  unfold Mem.place
  simp only [Nat.div_one, h, Nat.mod_one, Nat.mul_zero]
  exact BitVec.extractLsb'_eq_self

theorem memoryPatchCode_succeed (hw : w.PatchesSucceed) :
    (w.memoryPatchCode address codedata).2.PatchesSucceed := by
  have htail : ∀ b ∈ w.patches.tail, b = true := fun b hb => hw b (List.mem_of_mem_tail hb)
  unfold memoryPatchCode
  split
  · exact htail
  · exact htail

end World

namespace Interceptor

/-- The window of a target that is hooked. -/
def window (self : Interceptor) (targetPtr : Word) : Set Word :=
  {a | ∃ entry, self.findHookFunctionEntry targetPtr = some entry ∧ a ∈ entry.window}

section Step

variable {self self' : Interceptor} {command : Command} {commands : List Command}
  {targetPtr : Word} {entry : HookFunctionEntry}

theorem map_core_setEnabled (targetPtr : Word) (enabled : Bool) (entries : List HookFunctionEntry) :
    (setEnabled targetPtr enabled entries).map HookFunctionEntry.core
      = entries.map HookFunctionEntry.core := by
  induction entries with
  | nil => rfl
  | cons entry entries ih =>
    unfold setEnabled
    split
    · rfl
    · rw [List.map_cons, List.map_cons, ih]

/-- An entry is found by what the calls do not change. -/
theorem find_core (self : Interceptor) (targetPtr : Word) :
    (self.findHookFunctionEntry targetPtr).map HookFunctionEntry.core
      = (self.entries.map HookFunctionEntry.core).find? (fun e => e.targetPtr == targetPtr) := by
  rw [List.find?_map]
  rfl

theorem find_of_core (h : self'.entries.map HookFunctionEntry.core
      = self.entries.map HookFunctionEntry.core) (targetPtr : Word) :
    (self'.findHookFunctionEntry targetPtr).map HookFunctionEntry.core
      = (self.findHookFunctionEntry targetPtr).map HookFunctionEntry.core := by
  rw [find_core, find_core, h]

theorem window_of_core (h : self'.entries.map HookFunctionEntry.core
      = self.entries.map HookFunctionEntry.core) : self'.window = self.window := by
  have hwin : ∀ (s : Interceptor) (t : Word), s.window t
      = {a | ∃ e, (s.findHookFunctionEntry t).map HookFunctionEntry.core = some e
          ∧ a ∈ e.window} := by
    intro s t
    ext a
    constructor
    · rintro ⟨e, he, ha⟩
      exact ⟨e.core, by rw [he]; rfl, ha⟩
    · rintro ⟨e, he, ha⟩
      obtain ⟨e', he', rfl⟩ := Option.map_eq_some_iff.mp he
      exact ⟨e', he', ha⟩
  funext t
  rw [hwin, hwin, find_of_core h]

/-- **What a call does**: it changes flags of entries, and bytes in the window
of its target. -/
theorem step_spec (h : self.step command = some self') :
    self'.entries.map HookFunctionEntry.core = self.entries.map HookFunctionEntry.core
      ∧ Set.EqOn self'.world.mem self.world.mem (self.window command.targetPtr)ᶜ
      ∧ (self.world.PatchesSucceed → self'.world.PatchesSucceed) := by
  cases command with
  | enable t =>
    obtain ⟨⟨status, s⟩, hs, rfl⟩ := Option.map_eq_some_iff.mp h
    unfold enableHook at hs
    split at hs
    · cases hs
      exact ⟨rfl, fun a _ => rfl, id⟩
    · rename_i entry hfind
      split at hs
      · cases hs
        exact ⟨rfl, fun a _ => rfl, id⟩
      · obtain ⟨r, hr, hs⟩ := Option.map_eq_some_iff.mp hs
        cases hs
        obtain ⟨k, hk, hworld⟩ := activateTrampoline_world hr
        refine ⟨map_core_setEnabled _ _ _, fun a ha => ?_, fun hw => ?_⟩
        · show r.2.world.mem a = self.world.mem a
          rw [hworld]
          refine World.memoryPatchCode_frame ?_
          rw [activateCode_exact.length_code]
          by_contra hlt
          exact ha ⟨entry, hfind, Or.inl ⟨k, self.world.tempCodeSlice, hk, Nat.lt_of_not_le hlt⟩⟩
        · show r.2.world.PatchesSucceed
          rw [hworld]
          exact World.memoryPatchCode_succeed hw
  | disable t =>
    obtain ⟨⟨status, s⟩, hs, rfl⟩ := Option.map_eq_some_iff.mp h
    obtain ⟨entry, hfind, hs⟩ := Option.map_eq_some_iff.mp hs
    cases hs
    refine ⟨map_core_setEnabled _ _ _, fun a ha => ?_, fun hw => ?_⟩
    · show (if entry.hookType = .functionViaGot then self.world else _).mem a = self.world.mem a
      split
      · rfl
      · refine World.memoryPatchCode_frame ?_
        by_contra hlt
        refine ha ⟨entry, hfind, Or.inr ((Nat.lt_of_not_le hlt).trans_le ?_)⟩
        rw [List.length_take]
        exact Nat.min_le_left _ _
    · show (if entry.hookType = .functionViaGot then self.world else _).PatchesSucceed
      split
      · exact hw
      · exact World.memoryPatchCode_succeed hw

theorem run_append_iff {post : List Command} :
    self.run (commands ++ post) = some self'
      ↔ ∃ s, self.run commands = some s ∧ s.run post = some self' := by
  unfold run
  rw [List.foldlM_append]
  exact Option.bind_eq_some_iff

theorem run_cons_iff {c : Command} :
    self.run (c :: commands) = some self'
      ↔ ∃ s, self.step c = some s ∧ s.run commands = some self' := by
  unfold run
  rw [List.foldlM_cons]
  exact Option.bind_eq_some_iff

/-- **What any sequence of calls changes**: flags, and bytes in the windows of
the targets it is about. -/
theorem run_spec (h : self.run commands = some self') :
    self'.entries.map HookFunctionEntry.core = self.entries.map HookFunctionEntry.core
      ∧ Patched self.world.mem self.window {t | ∃ c ∈ commands, c.targetPtr = t} self'.world.mem
      ∧ (self.world.PatchesSucceed → self'.world.PatchesSucceed) := by
  induction commands using List.reverseRecOn generalizing self' with
  | nil =>
    cases h
    exact ⟨rfl, fun a _ => rfl, id⟩
  | append_singleton commands c ih =>
    obtain ⟨s, hs, hlast⟩ := run_append_iff.mp h
    obtain ⟨hcore, hpatched, hsucc⟩ := ih hs
    obtain ⟨s', hstep, hnil⟩ := run_cons_iff.mp hlast
    cases hnil
    obtain ⟨hcore', heq, hsucc'⟩ := step_spec hstep
    rw [window_of_core hcore] at heq
    refine ⟨hcore'.trans hcore, ?_, fun hw => hsucc' (hsucc hw)⟩
    refine (hpatched.patch heq).mono ?_
    rintro t (rfl | ⟨c', hc', rfl⟩)
    · exact ⟨c, List.mem_append_right _ List.mem_cons_self, rfl⟩
    · exact ⟨c', List.mem_append_left _ hc', rfl⟩

/-- **Disabling writes back what was saved.** -/
theorem disable_restores (hw : self.world.PatchesSucceed)
    (hfind : self.findHookFunctionEntry targetPtr = some entry)
    (htype : entry.hookType ≠ .functionViaGot) (h : self.step (.disable targetPtr) = some self')
    {a : Word} {b : Byte}
    (hlt : (a - entry.originPrologue.address).toNat < entry.originPrologue.size)
    (hb : entry.originPrologue.data[(a - entry.originPrologue.address).toNat]? = some b) :
    self'.world.mem a = b := by
  obtain ⟨⟨status, s⟩, hs, rfl⟩ := Option.map_eq_some_iff.mp h
  obtain ⟨entry', hfind', hs⟩ := Option.map_eq_some_iff.mp hs
  cases hs
  rw [← Option.some_inj.mp (hfind.symm.trans hfind')]
  show (if entry.hookType = .functionViaGot then self.world else _).mem a = b
  rw [if_neg htype]
  refine World.memoryPatchCode_at hw ?_
  rw [List.getElem?_take_of_lt hlt]
  exact hb

end Step

/-! ## A hook that was built -/

/-- The byte that was saved of an address. -/
theorem memBytes_getElem? {mem : Mem} {addr a : Word} {k : ℕ} (h : (a - addr).toNat < k) :
    (memBytes mem addr k)[(a - addr).toNat]? = some (mem a) := by
  have ha : addr + BitVec.ofNat 32 (a - addr).toNat = a := by
    rw [BitVec.ofNat_toNat, BitVec.setWidth_eq, BitVec.add_comm, BitVec.sub_add_cancel]
  unfold memBytes
  rw [List.getElem?_map, List.getElem?_range h]
  exact congrArg (fun x => some (mem x)) ha

/-- A call for a hook with a backend returns. -/
theorem step_isSome {self : Interceptor} {command : Command} {entry : HookFunctionEntry} {k : ℕ}
    (hfind : self.findHookFunctionEntry command.targetPtr = some entry)
    (hk : entry.redirectCodeSize = some k) : (self.step command).isSome := by
  cases command with
  | enable t =>
    show ((self.enableHook t).map Prod.snd).isSome
    rw [Option.isSome_map]
    unfold enableHook
    rw [show self.findHookFunctionEntry t = some entry from hfind]
    dsimp only
    split
    · rfl
    · rw [Option.isSome_map]
      unfold activateTrampoline
      rw [Option.isSome_map]
      exact Option.isSome_of_eq_some hk
  | disable t =>
    show ((self.disableHook t).map Prod.snd).isSome
    unfold disableHook
    rw [Option.isSome_map, Option.isSome_map]
    exact Option.isSome_of_eq_some hfind

/-- **Enabling and disabling a hook restores its target.** A hook of any type
but those of a table is built, the preparation succeeding, and patches succeed
after that. Then enabling writes as many bytes as were saved. Every sequence of
calls for the hook goes through, and any sequence changes only bytes in the
windows of the targets it is about. After a call that disables the hook its
window holds the original bytes, until there is a call for a target whose
window is not apart from it. -/
theorem enableDisable_restores {self self' : Interceptor}
    {ptr threadLocalKey targetPtr replaceCall preCall postCall : Word} {tryNearJump : Bool}
    {hookType : HookType} (htype : hookType ≠ .functionViaGot)
    (hprep : (prepareTrampoline ⟨self.backend, self.initializeHookFunctionEntry ptr threadLocalKey
      hookType targetPtr replaceCall preCall postCall tryNearJump, self.world⟩).1 = .success)
    (hbuild : self.buildHook ptr threadLocalKey targetPtr replaceCall preCall postCall tryNearJump
      hookType = some (.doneHook, self'))
    (hpatches : self'.world.PatchesSucceed) :
    ∃ entry, self'.findHookFunctionEntry targetPtr = some entry
      ∧ (∃ k, entry.redirectCodeSize = some k ∧ ∀ dataPtr,
        (activateCode entry k dataPtr).size = entry.originPrologue.size)
      ∧ self'.window targetPtr
        = {a | (a - targetAddr targetPtr).toNat < entry.originPrologue.size}
      ∧ (∀ commands : List Command, (∀ c ∈ commands, c.targetPtr = targetPtr) →
        (self'.run commands).isSome)
      ∧ (∀ commands self'', self'.run commands = some self'' →
        ∀ a, (∀ c ∈ commands, a ∉ self'.window c.targetPtr) →
          self''.world.mem a = self'.world.mem a)
      ∧ ∀ commands post self'',
        self'.run (commands ++ .disable targetPtr :: post) = some self'' →
        (∀ c ∈ post, Disjoint (self'.window c.targetPtr) (self'.window targetPtr)) →
        Set.EqOn self''.world.mem self.world.mem (self'.window targetPtr) := by
  unfold buildHook at hbuild
  split at hbuild
  · cases hbuild
  rename_i hnone
  obtain ⟨self', hadd, hbuild⟩ := Option.map_eq_some_iff.mp hbuild
  cases hbuild
  obtain ⟨r, hr, rfl⟩ := Option.map_eq_some_iff.mp hadd
  obtain ⟨_, k, hk, hsize, htarget, horigin, -⟩ := prepareTrampoline_success hprep
  have hkeeps := buildTrampoline_entry htype hr
  have htarget' : r.2.entry.targetPtr = targetPtr := hkeeps.targetPtr.trans htarget
  have horigin' := hkeeps.originPrologue.trans horigin
  have hsize' := hkeeps.redirectCodeSize.trans hsize
  have htype' : r.2.entry.hookType = hookType :=
    hkeeps.hookType.trans (prepareTrampoline_hookType _)
  have hactivate : ∀ dataPtr, (activateCode r.2.entry k dataPtr).size = k := by
    intro dataPtr
    refine activateCode_size ?_
    rw [htarget']
    exact chooseRedirect_size hk
  set self' : Interceptor := ⟨r.2.backend, self.entries ++ [r.2.entry], r.2.world⟩ with hself'
  have hfind : self'.findHookFunctionEntry targetPtr = some r.2.entry := by
    have hold : self.entries.find? (fun entry => entry.targetPtr == targetPtr) = none :=
      Option.not_isSome_iff_eq_none.mp hnone
    show (self.entries ++ [r.2.entry]).find? (fun entry => entry.targetPtr == targetPtr) = _
    rw [List.find?_append, hold, Option.none_or, List.find?_singleton,
      if_pos (beq_iff_eq.mpr htarget')]
  have hwindow : self'.window targetPtr = {a | (a - targetAddr targetPtr).toNat < k} := by
    ext a
    constructor
    · rintro ⟨e, he, ha⟩
      rw [Option.some_inj.mp (he.symm.trans hfind)] at ha
      rcases ha with ⟨k', dataPtr, hk', ha⟩ | ha
      · rw [Option.some_inj.mp (hk'.symm.trans hsize'), hactivate, htarget'] at ha
        exact ha
      · rw [horigin'] at ha
        exact ha
    · intro ha
      refine ⟨r.2.entry, hfind, Or.inr ?_⟩
      rw [horigin']
      exact ha
  -- whatever calls are made, the entry that is found is this one but for its flag
  have hfound : ∀ {commands : List Command} {s : Interceptor}, self'.run commands = some s →
      ∃ e, s.findHookFunctionEntry targetPtr = some e ∧ e.core = r.2.entry.core := by
    intro commands s hs
    have hcore := find_of_core (run_spec hs).1 targetPtr
    rw [hfind] at hcore
    exact Option.map_eq_some_iff.mp hcore
  refine ⟨r.2.entry, hfind, ⟨k, hsize', ?_⟩, ?_, ?_, ?_, ?_⟩
  · rw [horigin']
    exact hactivate
  · rw [hwindow, horigin']
  · intro commands hcommands
    induction commands using List.reverseRecOn with
    | nil => rfl
    | append_singleton commands c ih =>
      obtain ⟨s, hs⟩ := Option.isSome_iff_exists.mp
        (ih (fun c' hc' => hcommands c' (List.mem_append_left _ hc')))
      obtain ⟨e, he, hecore⟩ := hfound hs
      have hc := hcommands c (List.mem_append_right _ List.mem_cons_self)
      have hek : e.redirectCodeSize = some k :=
        (congrArg HookFunctionEntry.redirectCodeSize hecore).trans hsize'
      rw [← hc] at he
      obtain ⟨s', hs'⟩ := Option.isSome_iff_exists.mp (step_isSome he hek)
      exact Option.isSome_of_eq_some
        (run_append_iff.mpr ⟨s, hs, run_cons_iff.mpr ⟨s', hs', rfl⟩⟩)
  · intro commands self'' hrun a ha
    refine (run_spec hrun).2.1 a ?_
    rintro t ⟨c, hc, rfl⟩
    exact ha c hc
  · intro commands post self'' hrun hpost a ha
    obtain ⟨s, hs, hrest⟩ := run_append_iff.mp hrun
    obtain ⟨s', hstep, hrest⟩ := run_cons_iff.mp hrest
    obtain ⟨e, he, hecore⟩ := hfound hs
    have heorigin : e.originPrologue = ⟨targetAddr targetPtr, k,
        memBytes self.world.mem (targetAddr targetPtr) k⟩ :=
      (congrArg HookFunctionEntry.originPrologue hecore).trans horigin'
    have hetype : e.hookType ≠ .functionViaGot := by
      rw [show e.hookType = hookType from
        (congrArg HookFunctionEntry.hookType hecore).trans htype']
      exact htype
    have ha' : (a - targetAddr targetPtr).toNat < k := by rwa [hwindow] at ha
    have hrestored : s'.world.mem a = self.world.mem a := by
      refine disable_restores ((run_spec hs).2.2 hpatches) he hetype hstep ?_ ?_
      · rw [heorigin]
        exact ha'
      · rw [heorigin]
        exact memBytes_getElem? ha'
    have hwin : s'.window = self'.window :=
      window_of_core ((step_spec hstep).1.trans (run_spec hs).1)
    rw [← hrestored]
    refine (run_spec hrest).2.1 a ?_
    rintro t ⟨c, hc, rfl⟩ hac
    rw [hwin] at hac
    exact Set.disjoint_left.mp (hpost c hc) hac ha

/-- An interceptor without hooks, in a world of halfwords from 0x8000 on. -/
def interceptorAt (hs : List Half) : Interceptor :=
  ⟨(hookAt hs .functionViaPrePost 0#32 false).backend, [],
    (hookAt hs .functionViaPrePost 0#32 false).world⟩

/-- The Thumb function at 0x8002, whose jump needs a `NOP`, is hooked with
calls before and after it. -/
theorem enableDisable_restores_prePost :
    ∃ self' entry, (interceptorAt [0xBF00#16, 0xB510#16, 0xF04F#16, 0x0000#16, 0x4770#16, 0xBF00#16,
        0xBF00#16]).buildHook 0x1000#32 0x3000#32 0x8003#32 0#32 0x5001#32 0x6001#32 false
          .functionViaPrePost = some (.doneHook, self')
      ∧ self'.findHookFunctionEntry 0x8003#32 = some entry
      ∧ self'.window 0x8003#32
        = {a | (a - targetAddr 0x8003#32).toNat < entry.originPrologue.size} := by
  obtain ⟨⟨status, self'⟩, h⟩ := Option.isSome_iff_exists.mp (by decide :
    ((interceptorAt [0xBF00#16, 0xB510#16, 0xF04F#16, 0x0000#16, 0x4770#16, 0xBF00#16,
      0xBF00#16]).buildHook 0x1000#32 0x3000#32 0x8003#32 0#32 0x5001#32 0x6001#32 false
        .functionViaPrePost).isSome = true)
  have hstatus := congrArg (Option.map Prod.fst) h
  have hpatches := congrArg (Option.map fun r => r.2.world.patches) h
  rw [show Option.map Prod.fst _ = some Status.doneHook from rfl] at hstatus
  rw [show Option.map (fun r : Status × Interceptor => r.2.world.patches) _ = some [] from rfl]
    at hpatches
  have hs : Status.doneHook = status := Option.some_inj.mp hstatus
  have hp : [] = self'.world.patches := Option.some_inj.mp hpatches
  subst hs
  obtain ⟨entry, hfind, -, hwindow, -⟩ := enableDisable_restores (by decide) (by decide) h (by
    intro b hb
    rw [← hp] at hb
    cases hb)
  exact ⟨self', entry, h, hfind, hwindow⟩

end Interceptor

end HookZz
