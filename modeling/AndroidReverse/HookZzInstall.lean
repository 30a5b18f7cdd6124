import AndroidReverse.HookZzInterceptor

/-!
# Installing a hook

`ZzBuildHook`, and the two calls that build a hook and enable it, when steps of
them fail: there may be no room in front of the end of the function, no code
slice, or a patch may not be let through. Every builder answers whether it has
done its part. `buildAnswers` are these answers, which `ZzBuildTrampoline`
looks at none of and `ZzBuildHook` could not tell apart from one another
anyway, as the answer it is given is always the same.

What a hook needs is known in advance: room for the jump, and as many slices
and patches as trampolines (`HookCall.supplied`). All answers are good if and
only if it is there (`HookCall.run_spec`). If it is not, the call goes on as if
nothing had happened (`hook_atomic_iff`).
-/

namespace HookZz

open Arm

/-! ## Supplies -/

namespace World

/-- Whether the next trampoline can be placed. -/
def ready (w : World) : Bool := (w.slices.headD none).isSome && w.patches.headD true

/-- The world after that, as far as requests go. -/
def next (w : World) : World := { w with slices := w.slices.tail, patches := w.patches.tail }

/-- Whether the next `n` trampolines can be placed. -/
def provides : ℕ → World → Bool
  | 0, _ => true
  | n + 1, w => w.ready && provides n w.next

/-- Requests are answered by what is left of the answers. -/
theorem provides_congr {w w' : World} (hs : w'.slices = w.slices) (hp : w'.patches = w.patches)
    (n : ℕ) : provides n w' = provides n w := by
  induction n generalizing w w' with
  | zero => rfl
  | succ n ih =>
    have hready : w'.ready = w.ready := by rw [ready, ready, hs, hp]
    have hnext : provides n w'.next = provides n w.next :=
      ih (congrArg List.tail hs) (congrArg List.tail hp)
    rw [provides, provides, hready, hnext]

/-- Fewer trampolines need less. -/
theorem provides_mono {w : World} {n k : ℕ} (hnk : n ≤ k) (h : provides k w = true) :
    provides n w = true := by
  induction n generalizing w k with
  | zero => rfl
  | succ n ih =>
    obtain ⟨k, rfl⟩ : ∃ j, k = j + 1 := Nat.exists_eq_succ_of_ne_zero (by omega)
    obtain ⟨hready, hrest⟩ := (Bool.and_eq_true _ _).mp h
    exact (Bool.and_eq_true _ _).mpr ⟨hready, ih (by omega) hrest⟩

end World

/-! ## The answers of the builders -/

/-- The answer of the jump in reach of the target, if it is built. -/
def transferAnswers (r : Status × HookState) : List Status :=
  if r.1 = .success ∧ r.2.entry.redirectCodeSize = some tinyRedirectSize then
    [(buildEnterTransferTrampoline r.2).1]
  else []

/-- The answers within `ZzBuildEnterTrampoline`. -/
def enterAnswers (s : HookState) : List Status :=
  let r := buildThunkJump s s.backend.enterThunk
    fun entry data => { entry with onEnterTrampoline := data + 1#32 }
  r.1 :: if s.entry.hookType ≠ .functionViaGot then transferAnswers r else []

/-- The answers within `ZzBuildDynamicBinaryInstrumentationTrampoline`. -/
def instrumentationAnswers (s : HookState) : List Status :=
  let r := buildThunkJump s s.backend.dynamicBinaryInstrumentationThunk
    fun entry data => { entry with onDynamicBinaryInstrumentationTrampoline := data + 1#32 }
  r.1 :: transferAnswers r

/-- **The answers of the steps** of `ZzBuildTrampoline`, in their order. -/
def buildAnswers (s : HookState) : Option (List Status) :=
  match s.entry.hookType with
  | .oneInstruction =>
    let p := prepareTrampoline s
    let l := buildInsnLeaveTrampoline (buildEnterTrampoline p.2).2
    (buildInvokeTrampoline l.2).map fun r => p.1 :: (enterAnswers p.2 ++ [l.1, r.1])
  | .functionViaPrePost =>
    let p := prepareTrampoline s
    (buildInvokeTrampoline (buildEnterTrampoline p.2).2).map fun r =>
      p.1 :: (enterAnswers p.2 ++ [r.1, (buildLeaveTrampoline r.2).1])
  | .functionViaReplace =>
    let p := prepareTrampoline s
    let t := buildEnterTransferTrampoline p.2
    (buildInvokeTrampoline t.2).map fun r => [p.1, t.1, r.1]
  | .functionViaGot =>
    some (enterAnswers s ++ [(buildLeaveTrampoline (buildEnterTrampoline s).2).1])
  | .dbi =>
    let p := prepareTrampoline s
    (buildInvokeTrampoline (buildDynamicBinaryInstrumentationTrampoline p.2).2).map fun r =>
      p.1 :: (instrumentationAnswers p.2 ++ [r.1])

/-! ## What a builder asks for -/

/-- **A builder of one trampoline**: it fails if and only if the trampoline
cannot be placed, and leaves the rest of the supplies to the others. -/
structure Asks (w : World) (answer : Status) (w' : World) : Prop where
  failed : answer = .failed ↔ w.ready = false
  slices : w.ready = true → w'.slices = w.slices.tail
  patches : w.ready = true → w'.patches = w.patches.tail

/-- Builders one after the other, with their answers. -/
inductive Answered : World → List Status → World → Prop
  | nil (w : World) : Answered w [] w
  | cons {w w' w'' : World} {answer : Status} {answers : List Status} (h : Asks w answer w')
      (hrest : Answered w' answers w'') : Answered w (answer :: answers) w''

section Asks

variable {w w' w'' : World} {answer : Status} {answers answers' : List Status} {s : HookState}
  {r : Status × HookState}

theorem Answered.append (h : Answered w answers w') (h' : Answered w' answers' w'') :
    Answered w (answers ++ answers') w'' := by
  induction h with
  | nil w => exact h'
  | cons ha _ ih => exact .cons ha (ih h')

theorem Answered.single (h : Asks w answer w') : Answered w [answer] w' := .cons h (.nil w')

/-- **One fails if and only if the supplies run out.** -/
theorem Answered.failed_iff (h : Answered w answers w') :
    .failed ∈ answers ↔ w.provides answers.length = false := by
  induction h with
  | nil w => exact ⟨nofun, nofun⟩
  | @cons w w' w'' answer answers ha _ ih =>
    rw [List.mem_cons, List.length_cons, World.provides, Bool.and_eq_false_iff, eq_comm, ha.failed]
    by_cases hready : w.ready = true
    · have hnext : w'.provides answers.length = w.next.provides answers.length :=
        World.provides_congr (ha.slices hready) (ha.patches hready) _
      rw [ih, hnext]
    · exact iff_of_true (Or.inl (Bool.eq_false_iff.mpr hready))
        (Or.inl (Bool.eq_false_iff.mpr hready))

/-- Where none fails, as many patches are used up as there are answers. -/
theorem Answered.patches (h : Answered w answers w') (hf : .failed ∉ answers) :
    w'.patches = w.patches.drop answers.length := by
  induction h with
  | nil w => rfl
  | @cons w w' w'' answer answers ha _ ih =>
    have hready : w.ready = true := by
      by_contra hn
      exact hf (List.mem_cons.mpr (Or.inl (ha.failed.mpr (Bool.eq_false_iff.mpr hn)).symm))
    rw [ih (fun hm => hf (List.mem_cons_of_mem _ hm)), ha.patches hready, List.length_cons,
      List.drop_tail]

theorem codePatch_asks (writer : AssemblerWriter) (w : World) :
    ((codePatch writer w).1 = none ↔ w.ready = false)
      ∧ (w.ready = true → (codePatch writer w).2.slices = w.slices.tail
        ∧ (codePatch writer w).2.patches = w.patches.tail) := by
  unfold codePatch World.newCodeSlice World.memoryPatchCode World.ready
  cases w.slices.headD none with
  | none => exact ⟨iff_of_true rfl rfl, nofun⟩
  | some data =>
    dsimp only
    cases w.patches.headD true with
    | false => exact ⟨iff_of_true rfl rfl, nofun⟩
    | true => exact ⟨iff_of_false nofun nofun, fun _ => ⟨rfl, rfl⟩⟩

theorem place_asks (hw : s.world = w) (writer : AssemblerWriter)
    (set : HookFunctionEntry → Word → HookFunctionEntry) :
    Asks w (s.place writer set).1 (s.place writer set).2.world := by
  subst hw
  obtain ⟨hfail, hrest⟩ := codePatch_asks writer s.world
  unfold HookState.place
  match h : codePatch writer s.world with
  | (some data, world) =>
    rw [h] at hfail hrest
    exact ⟨iff_of_false nofun (fun hn => absurd (hfail.mpr hn) nofun), fun hr => (hrest hr).1,
      fun hr => (hrest hr).2⟩
  | (none, world) =>
    rw [h] at hfail hrest
    exact ⟨iff_of_true rfl (hfail.mp rfl), fun hr => (hrest hr).1, fun hr => (hrest hr).2⟩

theorem place_answer (s : HookState) (writer : AssemblerWriter)
    (set : HookFunctionEntry → Word → HookFunctionEntry) :
    (s.place writer set).1 = .success ∨ (s.place writer set).1 = .failed := by
  unfold HookState.place
  split
  · exact Or.inl rfl
  · exact Or.inr rfl

theorem buildEnterTransferTrampoline_asks (s : HookState) :
    Asks s.world (buildEnterTransferTrampoline s).1 (buildEnterTransferTrampoline s).2.world := by
  unfold buildEnterTransferTrampoline
  dsimp only
  split
  · refine place_asks ?_ _ _
    rfl
  · refine place_asks ?_ _ _
    rfl

theorem buildThunkJump_asks (s : HookState) (thunk : Word)
    (set : HookFunctionEntry → Word → HookFunctionEntry) :
    Asks s.world (buildThunkJump s thunk set).1 (buildThunkJump s thunk set).2.world := by
  unfold buildThunkJump
  generalize putThunkJump _ _ _ = writer
  exact place_asks (s := s.withThumbWriter writer) rfl writer set

theorem buildInsnLeaveTrampoline_asks (s : HookState) :
    Asks s.world (buildInsnLeaveTrampoline s).1 (buildInsnLeaveTrampoline s).2.world :=
  buildThunkJump_asks s _ _

theorem buildLeaveTrampoline_asks (s : HookState) :
    Asks s.world (buildLeaveTrampoline s).1 (buildLeaveTrampoline s).2.world := by
  have h := buildThunkJump_asks s s.backend.leaveThunk
    (fun entry data => { entry with onLeaveTrampoline := data + 1#32 })
  unfold buildLeaveTrampoline
  split
  · rename_i t ht
    rw [ht] at h
    exact ⟨iff_of_false nofun (fun hn => absurd (h.failed.mpr hn) nofun), h.slices, h.patches⟩
  · exact h

theorem relocateCodePatch_asks {thumb : Bool} {relocator relocator' : Relocator}
    {slice : Option Word}
    (h : relocateCodePatch thumb relocator w = some (slice, relocator', w')) :
    (slice = none ↔ w.ready = false)
      ∧ (w.ready = true → w'.slices = w.slices.tail ∧ w'.patches = w.patches.tail) := by
  unfold relocateCodePatch World.newCodeSlice World.memoryPatchCode at h
  unfold World.ready
  cases hs : w.slices.headD none with
  | none =>
    rw [hs] at h
    rw [← (Prod.mk.inj (Option.some_inj.mp h)).1]
    exact ⟨iff_of_true rfl rfl, nofun⟩
  | some data =>
    rw [hs] at h
    obtain ⟨r, -, hr⟩ := Option.map_eq_some_iff.mp h
    dsimp only at hr
    cases hp : w.patches.headD true with
    | false =>
      rw [hp] at hr
      rw [← (Prod.mk.inj hr).1]
      exact ⟨iff_of_true rfl rfl, nofun⟩
    | true =>
      rw [hp] at hr
      rw [← (Prod.mk.inj hr).1, ← (Prod.mk.inj (Prod.mk.inj hr).2).2]
      exact ⟨iff_of_false nofun nofun, fun _ => ⟨rfl, rfl⟩⟩

theorem buildInvokeTrampoline_asks (h : buildInvokeTrampoline s = some r) :
    Asks s.world r.1 r.2.world := by
  obtain ⟨⟨slice, relocator, world⟩, hr, hs⟩ := Option.map_eq_some_iff.mp h
  obtain ⟨hfail, hrest⟩ := relocateCodePatch_asks hr
  cases slice with
  | none =>
    rw [← hs]
    exact ⟨iff_of_true rfl (hfail.mp rfl), fun hr => (hrest hr).1, fun hr => (hrest hr).2⟩
  | some data =>
    rw [← hs]
    exact ⟨iff_of_false nofun (fun hn => absurd (hfail.mpr hn) nofun), fun hr => (hrest hr).1,
      fun hr => (hrest hr).2⟩

/-! ## What a hook asks for -/

theorem transferAnswers_answered (r : Status × HookState) :
    Answered r.2.world (transferAnswers r) (buildTransferIfTiny r).2.world := by
  unfold transferAnswers buildTransferIfTiny
  split
  · exact .single (buildEnterTransferTrampoline_asks r.2)
  · exact .nil _

theorem enterAnswers_answered (s : HookState) :
    Answered s.world (enterAnswers s) (buildEnterTrampoline s).2.world := by
  refine .cons (buildThunkJump_asks s _ _) ?_
  unfold buildEnterTrampoline
  dsimp only
  split
  · exact transferAnswers_answered _
  · exact .nil _

theorem instrumentationAnswers_answered (s : HookState) :
    Answered s.world (instrumentationAnswers s)
      (buildDynamicBinaryInstrumentationTrampoline s).2.world :=
  .cons (buildThunkJump_asks s _ _) (transferAnswers_answered _)

/-- One if four bytes have to do. -/
def tinyCount (redirectCodeSize : Option ℕ) : ℕ :=
  if redirectCodeSize = some tinyRedirectSize then 1 else 0

/-- Fewer answers than `n` only where one is a failure. -/
def CountedBy (n : ℕ) (answers : List Status) : Prop :=
  answers.length ≤ n ∧ (.failed ∉ answers → answers.length = n)

theorem transferAnswers_counted {size : Option ℕ} (hsize : r.2.entry.redirectCodeSize = size)
    (hr : r.1 = .success ∨ r.1 = .failed) :
    CountedBy (1 + tinyCount size) (r.1 :: transferAnswers r) := by
  unfold transferAnswers
  rw [hsize]
  rcases hr with hr | hr
  · rw [hr]
    by_cases ht : size = some tinyRedirectSize
    · rw [if_pos ⟨rfl, ht⟩, show tinyCount size = 1 from if_pos ht]
      exact ⟨Nat.le_refl 2, fun _ => rfl⟩
    · rw [if_neg (fun h => ht h.2), show tinyCount size = 0 from if_neg ht]
      exact ⟨Nat.le_refl 1, fun _ => rfl⟩
  · rw [hr, if_neg (fun h => absurd h.1 (by decide))]
    exact ⟨Nat.le_add_right 1 _, fun h => absurd List.mem_cons_self h⟩

theorem CountedBy.append {n k : ℕ} (h : CountedBy n answers) (h' : CountedBy k answers') :
    CountedBy (n + k) (answers ++ answers') := by
  unfold CountedBy
  rw [List.length_append]
  refine ⟨Nat.add_le_add h.1 h'.1, fun hf => ?_⟩
  rw [h.2 (fun hm => hf (List.mem_append_left _ hm)),
    h'.2 (fun hm => hf (List.mem_append_right _ hm))]

theorem countedBy_length (answers : List Status) : CountedBy answers.length answers :=
  ⟨Nat.le_refl _, fun _ => rfl⟩

theorem buildThunkJump_answer (s : HookState) (thunk : Word)
    (set : HookFunctionEntry → Word → HookFunctionEntry) :
    (buildThunkJump s thunk set).1 = .success ∨ (buildThunkJump s thunk set).1 = .failed :=
  place_answer _ _ set

theorem enterAnswers_counted (h : s.entry.hookType ≠ .functionViaGot) :
    CountedBy (1 + tinyCount s.entry.redirectCodeSize) (enterAnswers s) := by
  unfold enterAnswers
  dsimp only
  rw [if_pos h]
  refine transferAnswers_counted (HookFunctionEntry.Keeps.redirectCodeSize ?_)
    (buildThunkJump_answer s _ _)
  refine HookState.Keeps.toKeeps (buildThunkJump_keeps s _ ?_)
  exact fun _ _ => ⟨rfl, rfl, rfl, rfl, rfl, rfl⟩

theorem instrumentationAnswers_counted (s : HookState) :
    CountedBy (1 + tinyCount s.entry.redirectCodeSize) (instrumentationAnswers s) := by
  refine transferAnswers_counted (HookFunctionEntry.Keeps.redirectCodeSize ?_)
    (buildThunkJump_answer s _ _)
  refine HookState.Keeps.toKeeps (buildThunkJump_keeps s _ ?_)
  exact fun _ _ => ⟨rfl, rfl, rfl, rfl, rfl, rfl⟩

/-- **As many answers as trampolines**: one of them fails if and only if not all
can be placed, and otherwise the patches are used up. -/
theorem Answered.counted {n : ℕ} (h : Answered w answers w') (hn : CountedBy n answers) :
    (.failed ∈ answers ↔ w.provides n = false)
      ∧ (w.provides n = true → w'.patches = w.patches.drop n) := by
  have hiff : .failed ∈ answers ↔ w.provides n = false := by
    constructor
    · intro hf
      by_contra hp
      have hlen := World.provides_mono hn.1 (Bool.not_eq_false _ ▸ hp)
      exact absurd (h.failed_iff.mp hf) (by rw [hlen]; decide)
    · intro hp
      by_contra hf
      rw [← hn.2 hf] at hp
      exact hf (h.failed_iff.mpr hp)
  refine ⟨hiff, fun hp => ?_⟩
  have hf : .failed ∉ answers := fun hf => absurd (hiff.mp hf) (by rw [hp]; decide)
  rw [h.patches hf, hn.2 hf]

/-- **The number of trampolines** of a hook, with those in reach of the target. -/
def trampolineCount (tiny : ℕ) : HookType → ℕ
  | .oneInstruction => 1 + tiny + 2
  | .functionViaPrePost => 1 + tiny + 2
  | .functionViaReplace => 2
  | .functionViaGot => 2
  | .dbi => 1 + tiny + 1

theorem prepareTrampoline_world (s : HookState) : (prepareTrampoline s).2.world = s.world := by
  unfold prepareTrampoline
  split <;> rfl

/-- **What the steps of a hook ask for**: a slice and a patch for every
trampoline, once it is prepared. -/
theorem buildAnswers_answered (h : buildTrampoline s = some r) :
    ∃ answers, Answered s.world answers r.2.world
      ∧ CountedBy (trampolineCount (tinyCount (prepareTrampoline s).2.entry.redirectCodeSize)
        s.entry.hookType) answers
      ∧ buildAnswers s = some (if s.entry.hookType = .functionViaGot then answers
        else (prepareTrampoline s).1 :: answers) := by
  have hworld := prepareTrampoline_world s
  have htype := prepareTrampoline_hookType s
  have henter := enterAnswers_answered (prepareTrampoline s).2
  rw [hworld] at henter
  unfold buildTrampoline at h
  unfold buildAnswers
  cases ht : s.entry.hookType with
  | oneInstruction =>
    rw [ht] at h
    obtain ⟨r', hr', h⟩ := Option.bind_eq_some_iff.mp h
    cases h
    have hinvoke := buildInvokeTrampoline_asks hr'
    have hcount := enterAnswers_counted (s := (prepareTrampoline s).2) (by rw [htype, ht]; decide)
    refine ⟨_, henter.append (.cons (buildInsnLeaveTrampoline_asks _)
      (.single hinvoke)), hcount.append (countedBy_length _), ?_⟩
    dsimp only
    rw [hr']
    rfl
  | functionViaPrePost =>
    rw [ht] at h
    obtain ⟨r', hr', h⟩ := Option.bind_eq_some_iff.mp h
    cases h
    have hinvoke := buildInvokeTrampoline_asks hr'
    have hcount := enterAnswers_counted (s := (prepareTrampoline s).2) (by rw [htype, ht]; decide)
    refine ⟨_, henter.append (.cons hinvoke
      (.single (buildLeaveTrampoline_asks _))), hcount.append (countedBy_length _), ?_⟩
    dsimp only
    rw [hr']
    rfl
  | functionViaReplace =>
    rw [ht] at h
    obtain ⟨r', hr', h⟩ := Option.bind_eq_some_iff.mp h
    cases h
    have hinvoke := buildInvokeTrampoline_asks hr'
    have htransfer := buildEnterTransferTrampoline_asks (prepareTrampoline s).2
    rw [hworld] at htransfer
    refine ⟨_, .cons htransfer (.single hinvoke), countedBy_length _, ?_⟩
    dsimp only
    rw [hr']
    rfl
  | functionViaGot =>
    rw [ht] at h
    cases h
    have henter : CountedBy 1 (enterAnswers s) := by
      unfold enterAnswers
      rw [ht]
      exact countedBy_length _
    exact ⟨_, (enterAnswers_answered s).append (.single (buildLeaveTrampoline_asks _)),
      henter.append (countedBy_length _), rfl⟩
  | dbi =>
    rw [ht] at h
    obtain ⟨r', hr', h⟩ := Option.bind_eq_some_iff.mp h
    cases h
    have hinvoke := buildInvokeTrampoline_asks hr'
    have henter := instrumentationAnswers_answered (prepareTrampoline s).2
    rw [hworld] at henter
    refine ⟨_, henter.append (.single hinvoke),
      (instrumentationAnswers_counted _).append (countedBy_length _), ?_⟩
    dsimp only
    rw [hr']
    rfl

end Asks

/-! ## The calls -/

/-- The answers that report that nothing has been installed. -/
def Status.reportsFailure : Status → Bool
  | .done | .success | .doneHook | .doneEnable => false
  | _ => true

namespace Interceptor

/-- `ZzHookPrePost`. -/
def hookPrePost (self : Interceptor) (ptr threadLocalKey targetPtr preCall postCall : Word) :
    Option (Status × Interceptor) := do
  let r ← self.buildHook ptr threadLocalKey targetPtr 0#32 preCall postCall false .functionViaPrePost
  r.2.enableHook targetPtr

/-- `ZzHookReplace`. What it writes to `*origin_ptr` is the invoke trampoline
of the entry. -/
def hookReplace (self : Interceptor) (ptr threadLocalKey targetPtr replacePtr : Word) :
    Option (Status × Interceptor) := do
  let r ← self.buildHook ptr threadLocalKey targetPtr replacePtr 0#32 0#32 false .functionViaReplace
  r.2.enableHook targetPtr

/-- The answer of `ZzEnableHook`, if it gets to activating. -/
def activationAnswers (self : Interceptor) (targetPtr : Word) : Option (List Status) :=
  match self.findHookFunctionEntry targetPtr with
  | none => some []
  | some entry =>
    if entry.isEnabled then some []
    else
      (activateTrampoline ⟨self.backend, { entry with isEnabled := true }, self.world⟩).map fun r =>
        [r.1]

end Interceptor

/-- **A call that installs a hook.** -/
inductive HookCall where
  | buildHook (targetPtr replaceCall preCall postCall : Word) (tryNearJump : Bool)
    (hookType : HookType)
  | hookPrePost (targetPtr preCall postCall : Word)
  | hookReplace (targetPtr replacePtr : Word)
deriving DecidableEq, Repr

namespace HookCall

/-- What is hooked. -/
def targetPtr : HookCall → Word
  | buildHook targetPtr _ _ _ _ _ => targetPtr
  | hookPrePost targetPtr _ _ => targetPtr
  | hookReplace targetPtr _ => targetPtr

/-- How. -/
def hookType : HookCall → HookType
  | buildHook _ _ _ _ _ hookType => hookType
  | hookPrePost _ _ _ => .functionViaPrePost
  | hookReplace _ _ => .functionViaReplace

/-- Whether four bytes are to be enough. -/
def tryNearJump : HookCall → Bool
  | buildHook _ _ _ _ tryNearJump _ => tryNearJump
  | _ => false

/-- Whether the hook is enabled as well. -/
def enables : HookCall → Bool
  | buildHook _ _ _ _ _ _ => false
  | _ => true

/-- The entry before its trampolines are built, at the addresses it and its key
get. -/
def entry (self : Interceptor) (ptr threadLocalKey : Word) : HookCall → HookFunctionEntry
  | buildHook targetPtr replaceCall preCall postCall tryNearJump hookType =>
    self.initializeHookFunctionEntry ptr threadLocalKey hookType targetPtr replaceCall preCall
      postCall tryNearJump
  | hookPrePost targetPtr preCall postCall =>
    self.initializeHookFunctionEntry ptr threadLocalKey .functionViaPrePost targetPtr 0#32 preCall
      postCall false
  | hookReplace targetPtr replacePtr =>
    self.initializeHookFunctionEntry ptr threadLocalKey .functionViaReplace targetPtr replacePtr
      0#32 0#32 false

/-- What the call does. -/
def run (self : Interceptor) (ptr threadLocalKey : Word) :
    HookCall → Option (Status × Interceptor)
  | buildHook targetPtr replaceCall preCall postCall tryNearJump hookType =>
    self.buildHook ptr threadLocalKey targetPtr replaceCall preCall postCall tryNearJump hookType
  | hookPrePost targetPtr preCall postCall =>
    self.hookPrePost ptr threadLocalKey targetPtr preCall postCall
  | hookReplace targetPtr replacePtr => self.hookReplace ptr threadLocalKey targetPtr replacePtr

/-- The part of a call that is `ZzBuildHook`. -/
def built (self : Interceptor) (ptr threadLocalKey : Word) (call : HookCall) :
    Option (Status × Interceptor) :=
  if (self.findHookFunctionEntry call.targetPtr).isSome then some (.alreadyHook, self)
  else (self.addHook (call.entry self ptr threadLocalKey)).map fun self => (.doneHook, self)

theorem run_eq (self : Interceptor) (ptr threadLocalKey : Word) (call : HookCall) :
    call.run self ptr threadLocalKey = (call.built self ptr threadLocalKey).bind fun r =>
      if call.enables then r.2.enableHook call.targetPtr else some r := by
  cases call with
  | buildHook =>
    show _ = (HookCall.built self ptr threadLocalKey _).bind some
    rw [Option.bind_fun_some]
    rfl
  | hookPrePost => rfl
  | hookReplace => rfl

/-- The answers of the builders, if the target is not hooked yet. -/
def buildingAnswers (self : Interceptor) (ptr threadLocalKey : Word) (call : HookCall) :
    Option (List Status) :=
  if (self.findHookFunctionEntry call.targetPtr).isSome then some []
  else buildAnswers ⟨self.backend, call.entry self ptr threadLocalKey, self.world⟩

/-- The answer of activating, if the call gets there. -/
def enablingAnswers (self : Interceptor) (call : HookCall) : Option (List Status) :=
  if call.enables then self.activationAnswers call.targetPtr else some []

/-- **The answers of the steps of a call.** -/
def answers (self : Interceptor) (ptr threadLocalKey : Word) (call : HookCall) :
    Option (List Status) := do
  let building ← call.buildingAnswers self ptr threadLocalKey
  let r ← call.built self ptr threadLocalKey
  let enabling ← call.enablingAnswers r.2
  some (building ++ enabling)

/-- **Installing has been undone**: failure is reported, the entries are those
from before or the hook is at least not enabled, and no byte of the function is
another. -/
structure Undone (call : HookCall) (function : Set Word) (before : Interceptor)
    (r : Status × Interceptor) : Prop where
  reported : r.1.reportsFailure = true
  entries : r.2.entries = before.entries
    ∨ ∀ entry, r.2.findHookFunctionEntry call.targetPtr = some entry → entry.isEnabled = false
  target : Set.EqOn r.2.world.mem before.world.mem function

/-- The number of trampolines a new hook gets. -/
def count (self : Interceptor) (call : HookCall) : ℕ :=
  trampolineCount (tinyCount
    ((chooseRedirect self.world.mem call.targetPtr call.tryNearJump).map Prod.snd)) call.hookType

/-- Whether there is all that building needs: room for the jump, and a slice
and a patch for every trampoline. -/
def buildable (self : Interceptor) (call : HookCall) : Bool :=
  (call.hookType == .functionViaGot
      || (chooseRedirect self.world.mem call.targetPtr call.tryNearJump).isSome)
    && self.world.provides (call.count self)

/-- **Everything the steps of a call need is there**: what building needs, if
the target is not hooked yet, and a patch for the jump, if it is not
enabled. -/
def supplied (self : Interceptor) (call : HookCall) : Bool :=
  match self.findHookFunctionEntry call.targetPtr with
  | some entry => !call.enables || entry.isEnabled || self.world.patches.headD true
  | none => call.buildable self
    && (!call.enables || (self.world.patches.drop (call.count self)).headD true)

/-! ## When nothing fails -/

section Supplied

variable {self self' : Interceptor} {call : HookCall} {ptr threadLocalKey targetPtr : Word}
  {entry : HookFunctionEntry} {r : Status × Interceptor} {answers : List Status}

theorem find_setEnabled {enabled : Bool} {entries : List HookFunctionEntry}
    (h : entries.find? (fun entry => entry.targetPtr == targetPtr) = some entry) :
    (Interceptor.setEnabled targetPtr enabled entries).find?
        (fun entry => entry.targetPtr == targetPtr)
      = some { entry with isEnabled := enabled } := by
  induction entries with
  | nil => cases h
  | cons e entries ih =>
    unfold Interceptor.setEnabled
    by_cases ht : e.targetPtr = targetPtr
    · have hb : (e.targetPtr == targetPtr) = true := beq_iff_eq.mpr ht
      rw [if_pos ht]
      simp only [List.find?_cons, hb] at h ⊢
      rw [Option.some_inj.mp h]
    · have hb : (e.targetPtr == targetPtr) = false := beq_eq_false_iff_ne.mpr ht
      rw [if_neg ht]
      simp only [List.find?_cons, hb] at h ⊢
      exact ih h

/-- **Enabling a hook that is not enabled** succeeds if and only if the patch
does; it is enabled after that in any case. -/
theorem enableHook_spec (hfind : self.findHookFunctionEntry targetPtr = some entry)
    (hoff : entry.isEnabled = false) (h : self.enableHook targetPtr = some r) :
    self.activationAnswers targetPtr = some [r.1]
      ∧ r.1 = (if self.world.patches.headD true then .doneHook else .failed)
      ∧ r.2.findHookFunctionEntry targetPtr = some { entry with isEnabled := true } := by
  unfold Interceptor.enableHook at h
  unfold Interceptor.activationAnswers
  rw [hfind] at h ⊢
  dsimp only at h ⊢
  rw [if_neg (by rw [hoff]; decide)] at h ⊢
  obtain ⟨a, ha, hr⟩ := Option.map_eq_some_iff.mp h
  refine ⟨by rw [ha, ← hr]; rfl, ?_, ?_⟩
  · rw [← hr]
    obtain ⟨k, -, rfl⟩ := Option.map_eq_some_iff.mp ha
    unfold World.memoryPatchCode
    dsimp only
    cases self.world.patches.headD true with
    | false => rfl
    | true => rfl
  · rw [← hr]
    exact find_setEnabled hfind

theorem prepareTrampoline_answer (s : HookState) :
    ((prepareTrampoline s).1 = .failed
        ↔ chooseRedirect s.world.mem s.entry.targetPtr s.entry.tryNearJump = none)
      ∧ ∀ tryNearJump k, chooseRedirect s.world.mem s.entry.targetPtr s.entry.tryNearJump
        = some (tryNearJump, k) → (prepareTrampoline s).2.entry.redirectCodeSize = some k := by
  unfold prepareTrampoline
  cases chooseRedirect s.world.mem s.entry.targetPtr s.entry.tryNearJump with
  | none => exact ⟨iff_of_true rfl rfl, nofun⟩
  | some c =>
    refine ⟨iff_of_false nofun nofun, fun near k hc => ?_⟩
    rw [Option.some_inj.mp hc]

/-- What building changes neither of. -/
theorem buildTrampoline_found {s : HookState} {b : Status × HookState}
    (h : buildTrampoline s = some b) :
    b.2.entry.targetPtr = s.entry.targetPtr ∧ b.2.entry.isEnabled = s.entry.isEnabled := by
  have hprep : (prepareTrampoline s).2.entry.targetPtr = s.entry.targetPtr
      ∧ (prepareTrampoline s).2.entry.isEnabled = s.entry.isEnabled := by
    unfold prepareTrampoline
    split <;> exact ⟨rfl, rfl⟩
  by_cases ht : s.entry.hookType = .functionViaGot
  · unfold buildTrampoline at h
    rw [ht] at h
    have hkeeps := (buildEnterTrampoline_keeps s).trans
      (buildLeaveTrampoline_keeps (buildEnterTrampoline s).2)
    rw [← Option.some_inj.mp h]
    exact ⟨hkeeps.targetPtr, hkeeps.isEnabled⟩
  · have hkeeps := buildTrampoline_entry ht h
    exact ⟨hkeeps.targetPtr.trans hprep.1, hkeeps.isEnabled.trans hprep.2⟩

/-- **Building a new hook**: one of the answers is a failure if and only if
something is missing. In any case the call answers that the hook is done, and
there is an entry for it. -/
theorem built_new (hfind : self.findHookFunctionEntry call.targetPtr = none)
    (h : call.built self ptr threadLocalKey = some r) :
    ∃ answers, buildAnswers ⟨self.backend, call.entry self ptr threadLocalKey, self.world⟩
        = some answers
      ∧ (.failed ∈ answers ↔ call.buildable self = false)
      ∧ r.1 = .doneHook
      ∧ (∃ entry, r.2.findHookFunctionEntry call.targetPtr = some entry ∧ entry.isEnabled = false)
      ∧ (call.buildable self = true →
        r.2.world.patches = self.world.patches.drop (call.count self)) := by
  unfold built at h
  rw [hfind] at h
  obtain ⟨self', hadd, hr⟩ := Option.map_eq_some_iff.mp h
  obtain ⟨b, hb, hself⟩ := Option.map_eq_some_iff.mp hadd
  obtain ⟨answers, hanswered, ⟨hle, heq⟩, hanswers⟩ := buildAnswers_answered hb
  obtain ⟨htarget, henabled⟩ := buildTrampoline_found hb
  obtain ⟨hfail, hsize⟩ := prepareTrampoline_answer
    ⟨self.backend, call.entry self ptr threadLocalKey, self.world⟩
  have hentry : (call.entry self ptr threadLocalKey).targetPtr = call.targetPtr
      ∧ (call.entry self ptr threadLocalKey).tryNearJump = call.tryNearJump
      ∧ (call.entry self ptr threadLocalKey).hookType = call.hookType
      ∧ (call.entry self ptr threadLocalKey).isEnabled = false := by
    cases call <;> exact ⟨rfl, rfl, rfl, rfl⟩
  obtain ⟨h₁, h₂, h₃, h₄⟩ := hentry
  dsimp only at hanswered hle heq hanswers htarget henabled hfail hsize
  rw [h₁, h₂] at hfail hsize
  rw [h₃] at hle heq hanswers
  have hfound : ∃ entry, r.2.findHookFunctionEntry call.targetPtr = some entry
      ∧ entry.isEnabled = false := by
    refine ⟨b.2.entry, ?_, henabled.trans h₄⟩
    rw [← hr, ← hself]
    unfold Interceptor.findHookFunctionEntry at hfind ⊢
    rw [List.find?_append, hfind, Option.none_or, List.find?_cons, htarget, h₁, beq_self_eq_true]
  have hworld : r.2.world = b.2.world := by rw [← hr, ← hself]
  refine ⟨_, hanswers, ?_⟩
  rw [hworld]
  unfold buildable count
  by_cases ht : call.hookType = .functionViaGot
  · rw [ht] at hle heq ⊢
    obtain ⟨hiff, hpatches⟩ := hanswered.counted (n := 2) ⟨hle, heq⟩
    exact ⟨hiff, hr ▸ rfl, hfound, hpatches⟩
  · rw [if_neg ht, beq_eq_false_iff_ne.mpr ht, Bool.false_or, List.mem_cons, eq_comm, hfail]
    match hc : chooseRedirect self.world.mem call.targetPtr call.tryNearJump with
    | none => exact ⟨iff_of_true (Or.inl rfl) rfl, hr ▸ rfl, hfound, nofun⟩
    | some (near, k) =>
      rw [hsize near k hc] at hle heq
      obtain ⟨hiff, hpatches⟩ := hanswered.counted ⟨hle, heq⟩
      exact ⟨(or_iff_right nofun).trans hiff, hr ▸ rfl, hfound, hpatches⟩

/-- The answers of a call, by those of its two halves. -/
theorem answers_eq {b : Status × Interceptor} {building enabling : List Status}
    (hbuilding : call.buildingAnswers self ptr threadLocalKey = some building)
    (hb : call.built self ptr threadLocalKey = some b)
    (henabling : call.enablingAnswers b.2 = some enabling) :
    call.answers self ptr threadLocalKey = some (building ++ enabling) := by
  unfold HookCall.answers
  rw [hbuilding, hb]
  show (call.enablingAnswers b.2).bind _ = _
  rw [henabling]
  rfl

/-- A hook that has been enabled is not undone: it was not enabled before. -/
theorem not_undone_of_enabled {function : Set Word} {entry : HookFunctionEntry}
    (hbefore : ∀ e, self.findHookFunctionEntry call.targetPtr = some e → e.isEnabled = false)
    (hafter : r.2.findHookFunctionEntry call.targetPtr = some { entry with isEnabled := true }) :
    ¬ call.Undone function self r := by
  intro hundone
  rcases hundone.entries with heq | hoff
  · have hfind : self.findHookFunctionEntry call.targetPtr
        = r.2.findHookFunctionEntry call.targetPtr := by
      unfold Interceptor.findHookFunctionEntry
      rw [heq]
    exact Bool.noConfusion (hbefore _ (hfind.trans hafter))
  · exact Bool.noConfusion (hoff _ hafter)

/-- **The answers of a call**: one of them is a failure if and only if something
is missing, and then nothing is undone. -/
theorem run_spec (h : call.run self ptr threadLocalKey = some r) :
    ∃ answers, call.answers self ptr threadLocalKey = some answers
      ∧ (.failed ∈ answers ↔ call.supplied self = false)
      ∧ (.failed ∈ answers → ∀ function, ¬ call.Undone function self r) := by
  rw [run_eq] at h
  obtain ⟨b, hb, h⟩ := Option.bind_eq_some_iff.mp h
  unfold supplied
  match hfind : self.findHookFunctionEntry call.targetPtr with
  | some entry =>
    have hself : b = (.alreadyHook, self) := by
      unfold built at hb
      rw [hfind] at hb
      exact (Option.some_inj.mp hb).symm
    subst hself
    have hbuilding : call.buildingAnswers self ptr threadLocalKey = some [] := by
      unfold buildingAnswers
      rw [hfind]
      rfl
    by_cases he : call.enables = true
    · rw [if_pos he] at h
      by_cases hon : entry.isEnabled = true
      · have hact : self.activationAnswers call.targetPtr = some [] := by
          unfold Interceptor.activationAnswers
          rw [hfind]
          exact if_pos hon
        refine ⟨_, answers_eq hbuilding hb ((if_pos he).trans hact), ?_, nofun⟩
        dsimp only
        rw [he, hon]
        exact iff_of_false nofun nofun
      · have hoff := Bool.not_eq_true _ ▸ hon
        obtain ⟨hact, hr, hafter⟩ := enableHook_spec hfind hoff h
        refine ⟨_, answers_eq hbuilding hb ((if_pos he).trans hact), ?_, fun _ function =>
          not_undone_of_enabled (fun e he => ?_) hafter⟩
        · dsimp only
          rw [he, hoff, hr]
          cases self.world.patches.headD true <;> decide
        · rw [← Option.some_inj.mp (hfind.symm.trans he), hoff]
    · refine ⟨_, answers_eq hbuilding hb (if_neg he), ?_, nofun⟩
      dsimp only
      rw [Bool.eq_false_iff.mpr he]
      exact iff_of_false nofun nofun
  | none =>
    obtain ⟨answers, hanswers, hiff, hdone, ⟨entry, hentry, hoff⟩, hpatches⟩ := built_new hfind hb
    have hbuilding : call.buildingAnswers self ptr threadLocalKey = some answers := by
      unfold buildingAnswers
      rw [hfind]
      exact hanswers
    by_cases he : call.enables = true
    · rw [if_pos he] at h
      obtain ⟨hact, hr, hafter⟩ := enableHook_spec hentry hoff h
      refine ⟨_, answers_eq hbuilding hb ((if_pos he).trans hact), ?_, fun _ function =>
        not_undone_of_enabled (fun e he => absurd (hfind.symm.trans he) nofun) hafter⟩
      rw [he, hr, List.mem_append, hiff, Bool.not_true, Bool.false_or]
      by_cases hbuild : call.buildable self = true
      · rw [hbuild, hpatches hbuild, Bool.true_and]
        dsimp only
        cases (self.world.patches.drop (call.count self)).headD true <;> decide
      · exact iff_of_true (Or.inl (Bool.eq_false_iff.mpr hbuild))
          (by rw [Bool.eq_false_iff.mpr hbuild, Bool.false_and])
    · rw [if_neg he] at h
      refine ⟨_, answers_eq hbuilding hb (if_neg he), ?_, fun _ function hundone => ?_⟩
      · rw [Bool.eq_false_iff.mpr he, List.append_nil, hiff, Bool.not_false, Bool.true_or,
          Bool.and_true]
      · have hreported := hundone.reported
        rw [← Option.some_inj.mp h, hdone] at hreported
        exact absurd hreported (by decide)

end Supplied

/-- The Thumb function at 0x8000, of four instructions and twelve bytes, before
anything is hooked. -/
def functionAt8000 (slices : List (Option Word)) : Interceptor :=
  let self := Interceptor.interceptorAt
    [0xB510#16, 0xF04F#16, 0x0000#16, 0x4770#16, 0xBF00#16, 0xBF00#16]
  { self with world := { self.world with slices := slices } }

end HookCall

end HookZz
