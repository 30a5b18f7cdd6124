import AndroidReverse.InlineHookThreads
import Mathlib.Logic.Relation

/-!
# Stopping the threads

`freeze` and `unFreeze`, between which `inlineHookAll` and `inlineUnHook` write
code. A process cannot trace its own threads, so `freeze` forks a helper that
attaches to all of them but the main one, moves the program counters out of the
way, and stops itself; the caller waits for that. `unFreeze` lets the helper go
on, which detaches from the threads and kills itself.

The steps of the caller, of the helper and of the other threads come in any
order (`FreezeStep`). What holds in all of these orders is `FreezeInv`: while
code is written a thread runs only if it is the caller, the main thread, one that
came after the threads were listed or one that could not be attached to
(`frozen_threads`). The caller is attached to as well unless it is the main
thread, and then it waits for a helper that waits for it
(`freeze_returns_iff`).
-/

namespace InlineHook

open Arm

/-! ## The protocol -/

/-- A thread id. -/
abbrev Tid : Type := ℕ

/-- `processThreadPC`: where a thread goes on that was stopped at `pc`. Without an
item it is the first one that moves the thread. -/
def processThreadPC (info : InlineHookInfo) (item : Option ℕ) (action : Action) (pc : Word) :
    Word :=
  match item with
  | none =>
    match (List.range info.size).find? fun pos => (doProcessThreadPC info pos pc action).1 with
    | some pos => (doProcessThreadPC info pos pc action).2
    | none => pc
  | some pos => (doProcessThreadPC info pos pc action).2

/-- A use of `freeze` and `unFreeze`: the arguments, and what is done between the two. -/
structure FreezeCall where
  /-- The item; `none` for `NULL`. -/
  item : Option ℕ
  /-- The action. -/
  action : Action
  /-- What is done while the threads are stopped. -/
  body : Process → Process

/-- The use in `inlineHookAll`. -/
def FreezeCall.hookAll : FreezeCall := ⟨none, .enable, inlineHookAll⟩

/-- The use in `inlineUnHook`, for the item it has found. -/
def FreezeCall.unHook (pos : ℕ) : FreezeCall := ⟨some pos, .disable, doInlineUnHook pos⟩

/-- A thread of the process. -/
structure Thread where
  /-- Where it is. -/
  pc : Word
  /-- Whether the helper traces it. -/
  traced : Bool
  /-- Whether it is stopped. -/
  stopped : Bool
  /-- Where it was when it was stopped last. -/
  stoppedAt : Word

/-- Where the calling thread is. `freeze` has returned the id of the helper, or -1. -/
inductive Caller where
  | getAllTids
  | fork
  | waitpid
  | body (child : Bool)
  | unFreeze (child : Bool)
  | wait
  | returned
deriving DecidableEq

/-- Where the helper is, with the threads it has still to deal with. -/
inductive Helper where
  | none
  | attach (todo : List Tid)
  | waitpid (tid : Tid) (todo : List Tid)
  | stopped
  | detach (todo : List Tid)
  | killed
deriving DecidableEq

/-- **The process and the helper.** -/
structure FreezeState where
  /-- The threads of the process. -/
  threads : Tid → Option Thread
  /-- Code, heap and registry. -/
  process : Process
  /-- The calling thread. -/
  caller : Caller
  /-- The helper. -/
  helper : Helper
  /-- The registry of the helper, which is what it was when it was forked. -/
  copy : InlineHookInfo
  /-- The array `tids`. -/
  tids : List Tid
  /-- The threads that have been created since it was filled. -/
  born : Set Tid
  /-- The threads that could not be attached to. -/
  refused : Set Tid

namespace FreezeState

/-- A thread runs. -/
def Runs (w : FreezeState) (t : Tid) : Prop := ∃ th, w.threads t = some th ∧ th.stopped = false

/-- A thread is traced by the helper. -/
def Traced (w : FreezeState) (t : Tid) : Prop := ∃ th, w.threads t = some th ∧ th.traced = true

/-- The state with another thread. -/
def setThread (w : FreezeState) (t : Tid) (th : Option Thread) : FreezeState :=
  { w with threads := Function.update w.threads t th }

@[simp]
theorem setThread_same (w : FreezeState) (t : Tid) (th : Option Thread) :
    (w.setThread t th).threads t = th :=
  Function.update_self ..

theorem setThread_of_ne (w : FreezeState) {t u : Tid} (th : Option Thread) (h : u ≠ t) :
    (w.setThread t th).threads u = w.threads u :=
  Function.update_of_ne h ..

end FreezeState

/-- **The steps**, in the process with id `pid`, whose main thread has the same id, with the
calling thread `me`. The other threads run code and create and end threads, as long as
they are not stopped; ids are not used again meanwhile. -/
inductive FreezeStep (call : FreezeCall) (me pid : Tid) : FreezeState → FreezeState → Prop where
  /-- `getAllTids` fills an array of 1024 elements. -/
  | getAllTids (w) (tids : List Tid) : w.caller = .getAllTids → w.Runs me → tids.Nodup →
      tids.length ≤ 1024 → (∀ t, t ∈ tids ↔ w.threads t ≠ none ∧ t ≠ 0 ∧ t ≠ pid) →
      FreezeStep call me pid w { w with caller := .fork, tids := tids, born := ∅ }
  /-- There is nothing to stop, or `fork` fails. -/
  | noFork (w) : w.caller = .fork → w.Runs me →
      FreezeStep call me pid w { w with caller := .body false }
  | fork (w) : w.caller = .fork → w.Runs me → 0 < w.tids.length →
      FreezeStep call me pid w
        { w with caller := .waitpid, helper := .attach w.tids, copy := w.process.info }
  /-- `ptrace(PTRACE_ATTACH, ..)`. -/
  | attach (w) (t todo th) : w.helper = .attach (t :: todo) → w.threads t = some th →
      FreezeStep call me pid w
        { w.setThread t (some { th with traced := true }) with helper := .waitpid t todo }
  | attachFails (w) (t todo) : w.helper = .attach (t :: todo) →
      FreezeStep call me pid w
        { w with helper := .attach todo, refused := insert t w.refused }
  /-- A thread that has been attached to stops, sooner or later. -/
  | stops (w) (t th) : w.threads t = some th → th.traced = true → th.stopped = false →
      FreezeStep call me pid w
        (w.setThread t (some { th with stopped := true, stoppedAt := th.pc }))
  /-- `waitpid` of the helper returns, and the program counter is changed. -/
  | waitpid (w) (t todo th) : w.helper = .waitpid t todo → w.threads t = some th →
      th.stopped = true →
      FreezeStep call me pid w
        { w.setThread t
            (some { th with pc := processThreadPC w.copy call.item call.action th.pc }) with
          helper := .attach todo }
  /-- It returns as well if the thread has ended. -/
  | waitpidEnded (w) (t todo) : w.helper = .waitpid t todo → w.threads t = none →
      FreezeStep call me pid w { w with helper := .attach todo }
  /-- `raise(SIGSTOP)`. -/
  | raiseStop (w) : w.helper = .attach [] →
      FreezeStep call me pid w { w with helper := .stopped }
  /-- `waitpid` of the caller returns. -/
  | freezeReturns (w) : w.caller = .waitpid → w.Runs me → w.helper = .stopped →
      FreezeStep call me pid w { w with caller := .body true }
  /-- The code is written. -/
  | body (w) (child) : w.caller = .body child → w.Runs me →
      FreezeStep call me pid w
        { w with caller := .unFreeze child, process := call.body w.process }
  /-- `unFreeze(-1)`. -/
  | unFreezeNothing (w) : w.caller = .unFreeze false → w.Runs me →
      FreezeStep call me pid w { w with caller := .returned }
  /-- `kill(pid, SIGCONT)`. -/
  | killCont (w) : w.caller = .unFreeze true → w.Runs me → w.helper = .stopped →
      FreezeStep call me pid w { w with caller := .wait, helper := .detach w.tids }
  /-- `ptrace(PTRACE_DETACH, ..)`, which does nothing to a thread that is not traced. -/
  | detach (w) (t todo th) : w.helper = .detach (t :: todo) → w.threads t = some th →
      FreezeStep call me pid w
        { w.setThread t
            (some (if th.traced then { th with traced := false, stopped := false } else th)) with
          helper := .detach todo }
  | detachEnded (w) (t todo) : w.helper = .detach (t :: todo) → w.threads t = none →
      FreezeStep call me pid w { w with helper := .detach todo }
  /-- `raise(SIGKILL)`. -/
  | raiseKill (w) : w.helper = .detach [] →
      FreezeStep call me pid w { w with helper := .killed }
  /-- `wait(NULL)` returns. -/
  | waitReturns (w) : w.caller = .wait → w.Runs me → w.helper = .killed →
      FreezeStep call me pid w { w with caller := .returned }
  /-- Another thread runs. -/
  | runs (w) (t th pc) : w.threads t = some th → th.stopped = false → t ≠ me →
      FreezeStep call me pid w (w.setThread t (some { th with pc := pc }))
  | spawns (w) (t u pc) : w.Runs t → t ≠ me → u ≠ 0 → w.threads u = none → u ∉ w.tids →
      FreezeStep call me pid w
        { w.setThread u (some ⟨pc, false, false, 0#32⟩) with born := insert u w.born }
  | ends (w) (t th) : w.threads t = some th → th.stopped = false → t ≠ me →
      FreezeStep call me pid w (w.setThread t none)

/-- Runs of the protocol. -/
abbrev FreezeSteps (call : FreezeCall) (me pid : Tid) : FreezeState → FreezeState → Prop :=
  Relation.ReflTransGen (FreezeStep call me pid)

/-- The threads before `freeze` is called. -/
def FreezeState.initial (threads : Tid → Option Thread) (p : Process) : FreezeState :=
  ⟨threads, p, .getAllTids, .none, p.info, [], ∅, ∅⟩

/-- Threads that nobody has stopped yet. -/
structure Unfrozen (me : Tid) (threads : Tid → Option Thread) : Prop where
  me_alive : threads me ≠ none
  zero : threads 0 = none
  free : ∀ t th, threads t = some th → th.traced = false ∧ th.stopped = false

/-! ## What holds in every order -/

/-- A thread stands where it was moved to when it was stopped. -/
def Thread.Moved (move : Word → Word) (th : Thread) : Prop :=
  th.stopped = true ∧ th.pc = move th.stoppedAt

/-- The process as the caller leaves it. -/
def Caller.process (call : FreezeCall) (p : Process) : Caller → Process
  | .getAllTids | .fork | .waitpid | .body _ => p
  | .unFreeze _ | .wait | .returned => call.body p

/-- Which steps of the caller and of the helper go together. -/
inductive PhaseOk : Caller → Helper → Prop where
  | getAllTids : PhaseOk .getAllTids .none
  | fork : PhaseOk .fork .none
  | attach (todo) : PhaseOk .waitpid (.attach todo)
  | waitpid (t todo) : PhaseOk .waitpid (.waitpid t todo)
  | stopped : PhaseOk .waitpid .stopped
  | body : PhaseOk (.body true) .stopped
  | bodyAlone : PhaseOk (.body false) .none
  | unFreeze : PhaseOk (.unFreeze true) .stopped
  | unFreezeAlone : PhaseOk (.unFreeze false) .none
  | detach (todo) : PhaseOk .wait (.detach todo)
  | killed : PhaseOk .wait .killed
  | returned : PhaseOk .returned .killed
  | returnedAlone : PhaseOk .returned .none

theorem PhaseOk.of_eq {caller caller' : Caller} {helper : Helper} (h : PhaseOk caller helper)
    (hc : caller' = caller) : PhaseOk caller' helper :=
  hc ▸ h

/-- Before there is a helper, or where there is none. -/
theorem PhaseOk.alone {caller : Caller} {helper : Helper} (h : PhaseOk caller helper)
    (hc : caller = .getAllTids ∨ caller = .fork ∨ caller = .body false ∨ caller = .unFreeze false) :
    helper = .none := by
  rcases hc with rfl | rfl | rfl | rfl <;> cases h <;> rfl

theorem PhaseOk.written {child : Bool} {helper : Helper} (h : PhaseOk (.body child) helper) :
    PhaseOk (.unFreeze child) helper := by
  cases h
  · exact .unFreeze
  · exact .unFreezeAlone

/-- While the helper attaches to threads the caller waits. -/
theorem PhaseOk.waits {caller : Caller} {helper : Helper} (h : PhaseOk caller helper)
    (hh : (∃ todo, helper = .attach todo) ∨ ∃ t todo, helper = .waitpid t todo) :
    caller = .waitpid := by
  rcases hh with ⟨todo, rfl⟩ | ⟨t, todo, rfl⟩ <;> cases h <;> rfl

/-- While the helper detaches from them the caller waits as well. -/
theorem PhaseOk.waits_end {caller : Caller} {todo : List Tid}
    (h : PhaseOk caller (.detach todo)) : caller = .wait := by
  cases h
  rfl

theorem PhaseOk.frozen {caller : Caller} {helper : Helper} (h : PhaseOk caller helper)
    (hc : caller = .body true ∨ caller = .unFreeze true) : helper = .stopped := by
  rcases hc with rfl | rfl <;> cases h <;> rfl

theorem PhaseOk.ended {caller : Caller} {helper : Helper} (h : PhaseOk caller helper)
    (hc : caller = .returned) : helper = .none ∨ helper = .killed := by
  subst hc
  cases h
  · exact Or.inr rfl
  · exact Or.inl rfl

/-- The threads the helper has yet to deal with, the one it is dealing with included. -/
def Helper.todo : Helper → List Tid
  | .attach todo => todo
  | .waitpid t todo => t :: todo
  | .detach todo => todo
  | _ => []

/-- What the helper has done to a thread. -/
def Helper.Has (move : Word → Word) (t : Tid) (th : Thread) : Helper → Prop
  | .none => th.traced = false
  | .attach todo => th.traced = true → t ∉ todo ∧ th.Moved move
  | .waitpid u todo =>
    (t = u → th.traced = true ∧ (th.stopped = true → th.pc = th.stoppedAt))
      ∧ (t ≠ u → th.traced = true → t ∉ todo ∧ th.Moved move)
  | .stopped => th.traced = true → th.Moved move
  | .detach todo => th.traced = true → t ∈ todo ∧ th.Moved move
  | .killed => th.traced = false

/-- The threads that have not been dealt with, while threads are being stopped. -/
def FreezeState.Pending (w : FreezeState) (t : Tid) : Prop :=
  match w.helper with
  | .none => w.caller = .getAllTids ∨ t ∈ w.tids
  | .attach todo => t ∈ todo
  | .waitpid _ todo => t ∈ todo
  | .stopped => False
  | .detach _ => True
  | .killed => True

/-- **What holds in every order of the steps.** -/
structure FreezeInv (call : FreezeCall) (me pid : Tid) (p : Process) (w : FreezeState) :
    Prop where
  me_alive : w.threads me ≠ none
  zero : w.threads 0 = none
  phase : PhaseOk w.caller w.helper
  process : w.process = w.caller.process call p
  copy : w.copy = p.info
  nodup : w.tids.Nodup
  pid_notMem : pid ∉ w.tids
  todo : w.helper.todo <:+ w.tids
  stopped_traced : ∀ t th, w.threads t = some th → th.stopped = true → th.traced = true
  traced_mem : ∀ t th, w.threads t = some th → th.traced = true → t ∈ w.tids
  has : ∀ t th, w.threads t = some th →
    w.helper.Has (processThreadPC p.info call.item call.action) t th
  accounted : ∀ t th, w.threads t = some th →
    t = pid ∨ t ∈ w.born ∨ t ∈ w.refused ∨ th.traced = true ∨ w.Pending t
  me_free : w.caller ≠ .waitpid → ¬w.Traced me

/-- A statement about all threads when one of them changes. -/
theorem forall_setThread {w : FreezeState} {t : Tid} {v : Option Thread}
    {P : Tid → Thread → Prop} (hnew : ∀ th, v = some th → P t th)
    (hold : ∀ u th, u ≠ t → w.threads u = some th → P u th) :
    ∀ u th, (w.setThread t v).threads u = some th → P u th := by
  intro u th hu
  by_cases hut : u = t
  · subst hut
    exact hnew th (by rwa [FreezeState.setThread_same] at hu)
  · exact hold u th hut (by rwa [FreezeState.setThread_of_ne _ _ hut] at hu)

/-- A thread that is still there. -/
theorem setThread_ne_none {w : FreezeState} {t u : Tid} {v : Option Thread}
    (hu : w.threads u ≠ none) (hv : u = t → v ≠ none) : (w.setThread t v).threads u ≠ none := by
  by_cases hut : u = t
  · subst hut
    rw [FreezeState.setThread_same]
    exact hv rfl
  · rwa [FreezeState.setThread_of_ne _ _ hut]

/-- There is no thread zero. -/
theorem setThread_zero {w : FreezeState} {t : Tid} {th : Thread} {v : Option Thread}
    (hzero : w.threads 0 = none) (ht : w.threads t = some th) :
    (w.setThread t v).threads 0 = none := by
  rw [FreezeState.setThread_of_ne, hzero]
  rintro rfl
  rw [hzero] at ht
  cases ht

/-- A change of one thread does not make another one traced. -/
theorem setThread_traced {w : FreezeState} {t u : Tid} {v : Option Thread} (hne : u ≠ t)
    (hu : ¬w.Traced u) : ¬(w.setThread t v).Traced u := by
  rintro ⟨th, hth, htr⟩
  exact hu ⟨th, (FreezeState.setThread_of_ne w v hne).symm.trans hth, htr⟩

/-- A thread that runs may go on running as far as the helper is concerned. -/
theorem Helper.Has.run {move : Word → Word} {t : Tid} {th : Thread} {h : Helper}
    (hhas : h.Has move t th) (hs : th.stopped = false) (pc : Word) :
    h.Has move t { th with pc := pc } := by
  have hmoved : ∀ m, ¬th.Moved m := fun m hm => Bool.noConfusion (hs.symm.trans hm.1)
  cases h with
  | none => exact hhas
  | attach todo => exact fun htr => absurd (hhas htr).2 (hmoved move)
  | waitpid u todo =>
    exact ⟨fun hu => ⟨(hhas.1 hu).1, fun hst => Bool.noConfusion (hs.symm.trans hst)⟩,
      fun hu htr => absurd (hhas.2 hu htr).2 (hmoved move)⟩
  | stopped => exact fun htr => absurd (hhas htr) (hmoved move)
  | detach todo => exact fun htr => absurd (hhas htr).2 (hmoved move)
  | killed => exact hhas

section Steps

variable {call : FreezeCall} {me pid : Tid} {p : Process} {w w' : FreezeState}

/-- Without a helper nobody is traced. -/
theorem FreezeInv.not_traced (hi : FreezeInv call me pid p w)
    (hh : w.helper = .none ∨ w.helper = .killed) {t : Tid} {th : Thread}
    (ht : w.threads t = some th) : th.traced = false := by
  have h := hi.has t th ht
  rcases hh with hh | hh <;> rw [hh] at h <;> exact h

/-- A thread that is traced and runs is the one the helper waits for. -/
theorem FreezeInv.stopping (hi : FreezeInv call me pid p w) {t : Tid} {th : Thread}
    (ht : w.threads t = some th) (htr : th.traced = true) (hs : th.stopped = false) :
    ∃ todo, w.helper = .waitpid t todo := by
  have hmoved : ∀ m, ¬th.Moved m := fun m hm => Bool.noConfusion (hs.symm.trans hm.1)
  have h := hi.has t th ht
  generalize w.helper = helper at h
  cases helper with
  | none => exact Bool.noConfusion (h.symm.trans htr)
  | killed => exact Bool.noConfusion (h.symm.trans htr)
  | attach todo => exact absurd (h htr).2 (hmoved _)
  | stopped => exact absurd (h htr) (hmoved _)
  | detach todo => exact absurd (h htr).2 (hmoved _)
  | waitpid u todo =>
    by_cases hu : t = u
    · exact ⟨todo, by rw [hu]⟩
    · exact absurd (h.2 hu htr).2 (hmoved _)

/-- A thread that runs although the helper is done with it is not traced. -/
theorem FreezeInv.untraced_of_runs (hi : FreezeInv call me pid p w) (hh : w.helper = .stopped)
    {t : Tid} (hr : w.Runs t) : ¬w.Traced t := by
  rintro ⟨th, ht, htr⟩
  obtain ⟨th', ht', hs⟩ := hr
  obtain rfl := Option.some.inj (ht.symm.trans ht')
  have h := hi.has t th ht
  rw [hh] at h
  exact Bool.noConfusion (hs.symm.trans (h htr).1)

/-- The steps of the caller. -/
theorem FreezeInv.caller_step (hi : FreezeInv call me pid p w) {caller : Caller} {q : Process}
    (hphase : PhaseOk caller w.helper)
    (hprocess : q = caller.process call p)
    (hlisted : w.caller ≠ .getAllTids) (hfree : ¬w.Traced me) :
    FreezeInv call me pid p { w with caller := caller, process := q } := by
  refine { hi with phase := hphase, process := hprocess, accounted := ?_, me_free := ?_ }
  · intro t th ht
    refine (hi.accounted t th ht).imp_right (Or.imp_right (Or.imp_right (Or.imp_right ?_)))
    unfold FreezeState.Pending
    cases w.helper with
    | none => exact fun h => Or.inr (h.resolve_left hlisted)
    | _ => exact id
  · exact fun _ => hfree

theorem pending_attach {todo : List Tid} (hh : w.helper = .attach todo) {t : Tid} :
    w.Pending t = (t ∈ todo) := by
  unfold FreezeState.Pending
  simp only [hh]

theorem pending_waitpid {u : Tid} {todo : List Tid} (hh : w.helper = .waitpid u todo) {t : Tid} :
    w.Pending t = (t ∈ todo) := by
  unfold FreezeState.Pending
  simp only [hh]

/-- A thread that has been detached from. -/
theorem FreezeInv.detached (hi : FreezeInv call me pid p w) {t : Tid} {th : Thread}
    (ht : w.threads t = some th) :
    (if th.traced then { th with traced := false, stopped := false } else th).traced = false
      ∧ (if th.traced then { th with traced := false, stopped := false } else th).stopped
        = false := by
  by_cases htr : th.traced
  · rw [if_pos htr]
    exact ⟨rfl, rfl⟩
  · rw [if_neg htr]
    refine ⟨Bool.eq_false_iff.mpr htr, Bool.eq_false_iff.mpr fun hs => htr ?_⟩
    exact hi.stopped_traced t th ht hs

/-- What keeps a thread accounted for when the helper goes on. -/
theorem FreezeInv.accounted_mono (hi : FreezeInv call me pid p w) {P : Prop} {t : Tid} {th : Thread}
    (ht : w.threads t = some th) (hP : w.Pending t → P) :
    t = pid ∨ t ∈ w.born ∨ t ∈ w.refused ∨ th.traced = true ∨ P :=
  (hi.accounted t th ht).imp_right (Or.imp_right (Or.imp_right (Or.imp_right hP)))

/-- **A thread changes**, and the helper goes on. -/
theorem FreezeInv.update (hi : FreezeInv call me pid p w) {t : Tid} {th v : Thread}
    {helper : Helper} (ht : w.threads t = some th) (hv : v.stopped = true → v.traced = true)
    (hmem : v.traced = true → t ∈ w.tids) (hphase : PhaseOk w.caller helper)
    (htodo : helper.todo <:+ w.tids)
    (hnew : helper.Has (processThreadPC p.info call.item call.action) t v)
    (hold : ∀ u x, u ≠ t → w.threads u = some x →
      helper.Has (processThreadPC p.info call.item call.action) u x)
    (hacc : t = pid ∨ t ∈ w.born ∨ t ∈ w.refused ∨ v.traced = true
      ∨ FreezeState.Pending { w with helper := helper } t)
    (hpending : ∀ u, u ≠ t → w.Pending u → FreezeState.Pending { w with helper := helper } u)
    (hme : w.caller ≠ .waitpid → me = t → v.traced = false) :
    FreezeInv call me pid p { w.setThread t (some v) with helper := helper } := by
  refine { hi with
    me_alive := setThread_ne_none hi.me_alive fun _ => Option.some_ne_none _
    zero := setThread_zero hi.zero ht
    phase := hphase
    todo := htodo
    stopped_traced := forall_setThread (fun x hx => ?_) fun u x _ => hi.stopped_traced u x
    traced_mem := forall_setThread (fun x hx => ?_) fun u x _ => hi.traced_mem u x
    has := forall_setThread (fun x hx => ?_) hold
    accounted := forall_setThread (fun x hx => ?_)
      fun u x hne hu => hi.accounted_mono hu (hpending u hne)
    me_free := fun hc => ?_ }
  · obtain rfl := Option.some.inj hx
    exact hv
  · obtain rfl := Option.some.inj hx
    exact hmem
  · obtain rfl := Option.some.inj hx
    exact hnew
  · obtain rfl := Option.some.inj hx
    exact hacc
  · by_cases hne : me = t
    · rintro ⟨x, hx, htr⟩
      subst hne
      obtain rfl := Option.some.inj ((FreezeState.setThread_same w me _).symm.trans hx)
      exact Bool.noConfusion ((hme hc rfl).symm.trans htr)
    · exact setThread_traced hne (hi.me_free hc)

/-- **The helper goes on**, and the threads stay as they are. -/
theorem FreezeInv.helper_step (hi : FreezeInv call me pid p w) {helper : Helper}
    (hphase : PhaseOk w.caller helper) (htodo : helper.todo <:+ w.tids)
    (hhas : ∀ u x, w.threads u = some x →
      helper.Has (processThreadPC p.info call.item call.action) u x)
    (hpending : ∀ u x, w.threads u = some x → w.Pending u →
      FreezeState.Pending { w with helper := helper } u) :
    FreezeInv call me pid p { w with helper := helper } :=
  { hi with
    phase := hphase
    todo := htodo
    has := hhas
    accounted := fun u x hu => hi.accounted_mono hu (hpending u x hu) }

/-- **Every step keeps it.** -/
theorem FreezeInv.step (hi : FreezeInv call me pid p w) (h : FreezeStep call me pid w w') :
    FreezeInv call me pid p w' := by
  have hphase := hi.phase
  have hprocess := hi.process
  have htodo := hi.todo
  have hhas := hi.has
  have hacc := hi.accounted
  cases h with
  | getAllTids tids hc hr hnodup hlen hmem =>
    have hh := hphase.alone (Or.inl hc)
    rw [hc] at hprocess
    refine { hi with
      phase := by rw [hh]; exact .fork
      process := hprocess
      nodup := hnodup
      pid_notMem := fun hp => ((hmem pid).mp hp).2.2 rfl
      todo := by rw [hh]; exact List.nil_suffix
      traced_mem := fun t th ht htr => ?_
      accounted := fun t th ht => ?_
      me_free := fun _ => hi.me_free (by rw [hc]; exact nofun) }
    · rw [hi.not_traced (Or.inl hh) ht] at htr
      cases htr
    · refine or_iff_not_imp_left.mpr fun hp => Or.inr (Or.inr (Or.inr ?_))
      unfold FreezeState.Pending
      simp only [hh]
      refine Or.inr ((hmem t).mpr ⟨?_, ?_, hp⟩)
      · rw [ht]
        exact Option.some_ne_none _
      · rintro rfl
        rw [hi.zero] at ht
        cases ht
  | noFork hc hr =>
    have hh := hphase.alone (Or.inr (Or.inl hc))
    rw [hc] at hprocess
    refine hi.caller_step (by rw [hh]; exact .bodyAlone) hprocess (by rw [hc]; exact nofun) ?_
    exact hi.me_free (by rw [hc]; exact nofun)
  | fork hc hr hlen =>
    have hh := hphase.alone (Or.inr (Or.inl hc))
    rw [hc] at hprocess
    refine { hi with
      phase := .attach _
      process := hprocess
      copy := congrArg Process.info hprocess
      todo := List.suffix_rfl
      has := fun t th ht htr => ?_
      accounted := fun t th ht => ?_
      me_free := fun hne => absurd rfl hne }
    · rw [hi.not_traced (Or.inl hh) ht] at htr
      cases htr
    · refine (hacc t th ht).imp_right (Or.imp_right (Or.imp_right (Or.imp_right ?_)))
      unfold FreezeState.Pending
      simp only [hh, hc]
      exact fun h => h.resolve_left nofun
  | attach t todo th hh ht =>
    have hc := hphase.waits (Or.inl ⟨_, hh⟩)
    have hold : ∀ u x, w.threads u = some x → x.traced = true → u ∉ t :: todo ∧ x.Moved _ :=
      fun u x hu => by have := hhas u x hu; rwa [hh] at this
    rw [hh] at htodo
    refine hi.update ht (fun _ => rfl) (fun _ => htodo.subset List.mem_cons_self)
      ((PhaseOk.waitpid _ _).of_eq hc) htodo ⟨fun _ => ⟨rfl, fun hs => ?_⟩, fun hne => absurd rfl hne⟩
      (fun u x hne hu => ⟨fun he => absurd he hne, fun _ htr => ?_⟩)
      (Or.inr (Or.inr (Or.inr (Or.inl rfl)))) (fun u hne hp => ?_) (fun hne => absurd hc hne)
    · -- it has not been attached to before
      exact absurd List.mem_cons_self (hold t th ht (hi.stopped_traced t th ht hs)).1
    · exact ⟨fun hm => (hold u x hu htr).1 (List.mem_cons_of_mem t hm), (hold u x hu htr).2⟩
    · rw [pending_attach hh] at hp
      exact (List.mem_cons.mp hp).resolve_left hne
  | attachFails t todo hh =>
    have hc := hphase.waits (Or.inl ⟨_, hh⟩)
    rw [hh] at htodo
    refine { hi with
      phase := (PhaseOk.attach _).of_eq hc
      todo := (List.suffix_cons t todo).trans htodo
      has := fun u x hu htr => ?_
      accounted := fun u x hu => ?_ }
    · have hold := hhas u x hu
      rw [hh] at hold
      exact ⟨fun hm => (hold htr).1 (List.mem_cons_of_mem t hm), (hold htr).2⟩
    · rcases hacc u x hu with h | h | h | h | h
      · exact Or.inl h
      · exact Or.inr (Or.inl h)
      · exact Or.inr (Or.inr (Or.inl (Set.mem_insert_of_mem t h)))
      · exact Or.inr (Or.inr (Or.inr (Or.inl h)))
      · rw [pending_attach hh] at h
        rcases List.mem_cons.mp h with rfl | h
        · exact Or.inr (Or.inr (Or.inl (Set.mem_insert u w.refused)))
        · exact Or.inr (Or.inr (Or.inr (Or.inr h)))
  | stops t th ht htr hs =>
    -- the helper has attached to the thread and waits for it
    obtain ⟨todo, hh⟩ := hi.stopping ht htr hs
    have hc := hphase.waits (Or.inr ⟨_, _, hh⟩)
    have hnew : w.helper.Has (processThreadPC p.info call.item call.action) t
        { th with stopped := true, stoppedAt := th.pc } := by
      rw [hh]
      exact ⟨fun _ => ⟨htr, fun _ => rfl⟩, fun hne => absurd rfl hne⟩
    exact hi.update ht (fun _ => htr) (fun _ => hi.traced_mem t th ht htr) hphase htodo hnew
      (fun u x _ => hhas u x) (Or.inr (Or.inr (Or.inr (Or.inl htr)))) (fun _ _ => id)
      fun hne => absurd hc hne
  | waitpid t todo th hh ht hs =>
    have hc := hphase.waits (Or.inr ⟨_, _, hh⟩)
    have htr := hi.stopped_traced t th ht hs
    have hthis := hhas t th ht
    rw [hh] at htodo hthis
    have hnodup := List.nodup_cons.mp (hi.nodup.sublist htodo.sublist)
    refine hi.update ht (fun _ => htr) (fun _ => hi.traced_mem t th ht htr)
      ((PhaseOk.attach _).of_eq hc) ((List.suffix_cons t todo).trans htodo)
      (fun _ => ⟨hnodup.1, hs, ?_⟩) (fun u x hne hu htr' => ?_)
      (Or.inr (Or.inr (Or.inr (Or.inl htr)))) (fun u hne hp => ?_) fun hne => absurd hc hne
    · show processThreadPC w.copy call.item call.action th.pc = _
      rw [hi.copy, (hthis.1 rfl).2 hs]
    · have hold := hhas u x hu
      rw [hh] at hold
      exact hold.2 hne htr'
    · rwa [pending_waitpid hh] at hp
  | waitpidEnded t todo hh ht =>
    have hc := hphase.waits (Or.inr ⟨_, _, hh⟩)
    rw [hh] at htodo
    refine hi.helper_step ((PhaseOk.attach _).of_eq hc) ((List.suffix_cons t todo).trans htodo)
      (fun u x hu htr => ?_) fun u x hu hp => ?_
    · have hold := hhas u x hu
      rw [hh] at hold
      refine hold.2 ?_ htr
      rintro rfl
      rw [ht] at hu
      cases hu
    · rwa [pending_waitpid hh] at hp
  | raiseStop hh =>
    have hc := hphase.waits (Or.inl ⟨_, hh⟩)
    refine hi.helper_step (PhaseOk.stopped.of_eq hc) List.nil_suffix (fun u x hu htr => ?_)
      fun u x hu hp => ?_
    · have hold := hhas u x hu
      rw [hh] at hold
      exact (hold htr).2
    · rw [pending_attach hh] at hp
      exact absurd hp List.not_mem_nil
  | freezeReturns hc hr hh =>
    rw [hc] at hprocess
    exact hi.caller_step (by rw [hh]; exact .body) hprocess (by rw [hc]; exact nofun)
      (hi.untraced_of_runs hh hr)
  | body child hc hr =>
    rw [hc] at hphase hprocess
    exact hi.caller_step hphase.written (congrArg call.body hprocess) (by rw [hc]; exact nofun)
      (hi.me_free (by rw [hc]; exact nofun))
  | unFreezeNothing hc hr =>
    have hh := hphase.alone (Or.inr (Or.inr (Or.inr hc)))
    rw [hc] at hprocess
    exact hi.caller_step (by rw [hh]; exact .returnedAlone) hprocess (by rw [hc]; exact nofun)
      (hi.me_free (by rw [hc]; exact nofun))
  | killCont hc hr hh =>
    rw [hc] at hprocess
    refine { hi with
      phase := .detach _
      process := hprocess
      todo := List.suffix_rfl
      has := fun u v hu htr => ⟨hi.traced_mem u v hu htr, ?_⟩
      accounted := fun _ _ _ => Or.inr (Or.inr (Or.inr (Or.inr trivial)))
      me_free := fun _ => hi.me_free (by rw [hc]; exact nofun) }
    have hold := hhas u v hu
    rw [hh] at hold
    exact hold htr
  | detach t todo th hh ht =>
    rw [hh] at hphase htodo
    have hc := hphase.waits_end
    -- nothing is left of the tracing
    obtain ⟨htr, hs⟩ := hi.detached ht
    refine hi.update ht (fun h => ?_) (fun h => ?_) ((PhaseOk.detach _).of_eq hc)
      ((List.suffix_cons t todo).trans htodo) (fun h => ?_) (fun u x hne hu h => ?_)
      (Or.inr (Or.inr (Or.inr (Or.inr trivial)))) (fun _ _ _ => trivial) fun _ _ => htr
    · exact Bool.noConfusion (hs.symm.trans h)
    · exact Bool.noConfusion (htr.symm.trans h)
    · exact Bool.noConfusion (htr.symm.trans h)
    · have hold := hhas u x hu
      rw [hh] at hold
      exact ⟨(List.mem_cons.mp (hold h).1).resolve_left hne, (hold h).2⟩
  | detachEnded t todo hh ht =>
    rw [hh] at hphase htodo
    have hc := hphase.waits_end
    refine hi.helper_step ((PhaseOk.detach _).of_eq hc) ((List.suffix_cons t todo).trans htodo)
      (fun u x hu htr => ?_) fun _ _ _ _ => trivial
    have hold := hhas u x hu
    rw [hh] at hold
    refine ⟨(List.mem_cons.mp (hold htr).1).resolve_left ?_, (hold htr).2⟩
    rintro rfl
    rw [ht] at hu
    cases hu
  | raiseKill hh =>
    rw [hh] at hphase
    have hc := hphase.waits_end
    refine hi.helper_step (PhaseOk.killed.of_eq hc) List.nil_suffix
      (fun u x hu => Bool.eq_false_iff.mpr fun htr => ?_) fun _ _ _ _ => trivial
    have hold := hhas u x hu
    rw [hh] at hold
    exact List.not_mem_nil (hold htr).1
  | waitReturns hc hr hh =>
    rw [hc] at hprocess
    exact hi.caller_step (by rw [hh]; exact .returned) hprocess (by rw [hc]; exact nofun)
      (hi.me_free (by rw [hc]; exact nofun))
  | runs t th pc ht hs hne =>
    exact hi.update ht (hi.stopped_traced t th ht) (hi.traced_mem t th ht) hphase htodo
      ((hhas t th ht).run hs pc) (fun u x _ => hhas u x) (hacc t th ht) (fun _ _ => id)
      fun _ h => absurd h.symm hne
  | spawns t u pc hr hne hu hu' hmem =>
    have hme : me ≠ u := fun h => hi.me_alive (h ▸ hu')
    refine { hi with
      me_alive := setThread_ne_none hi.me_alive fun _ => Option.some_ne_none _
      zero := (FreezeState.setThread_of_ne w _ hu.symm).trans hi.zero
      stopped_traced := forall_setThread (fun v hv hs => ?_) fun u v _ => hi.stopped_traced u v
      traced_mem := forall_setThread (fun v hv htr => ?_) fun u v _ => hi.traced_mem u v
      has := forall_setThread (fun v hv => ?_) fun u v _ hu => hhas u v hu
      accounted := forall_setThread (fun v hv => Or.inr (Or.inl (Set.mem_insert u w.born)))
        fun x v _ hx => (hacc x v hx).imp_right (Or.imp_left (Set.mem_insert_of_mem u))
      me_free := fun hc => setThread_traced hme (hi.me_free hc) }
    · obtain rfl := Option.some.inj hv
      cases hs
    · obtain rfl := Option.some.inj hv
      cases htr
    · obtain rfl := Option.some.inj hv
      show Helper.Has _ u _ w.helper
      generalize hh : w.helper = helper at htodo
      cases helper with
      | none => rfl
      | killed => rfl
      | waitpid x todo =>
        refine ⟨?_, fun _ htr => nomatch htr⟩
        rintro rfl
        exact absurd (htodo.subset List.mem_cons_self) hmem
      | attach todo => exact fun htr => nomatch htr
      | stopped => exact fun htr => nomatch htr
      | detach todo => exact fun htr => nomatch htr
  | ends t th ht hs hne =>
    exact { hi with
      me_alive := setThread_ne_none hi.me_alive fun h => absurd h.symm hne
      zero := setThread_zero hi.zero ht
      stopped_traced := forall_setThread nofun fun u v _ => hi.stopped_traced u v
      traced_mem := forall_setThread nofun fun u v _ => hi.traced_mem u v
      has := forall_setThread nofun fun u v _ hu => hhas u v hu
      accounted := forall_setThread nofun fun u v _ hu => hacc u v hu
      me_free := fun hc => setThread_traced hne.symm (hi.me_free hc) }

/-- It holds before `freeze` is called. -/
theorem FreezeInv.start {threads : Tid → Option Thread} (hu : Unfrozen me threads) :
    FreezeInv call me pid p (.initial threads p) where
  me_alive := hu.me_alive
  zero := hu.zero
  phase := .getAllTids
  process := rfl
  copy := rfl
  nodup := List.nodup_nil
  pid_notMem := List.not_mem_nil
  todo := List.suffix_rfl
  stopped_traced := fun t th ht hs => Bool.noConfusion ((hu.free t th ht).2.symm.trans hs)
  traced_mem := fun t th ht htr => Bool.noConfusion ((hu.free t th ht).1.symm.trans htr)
  has := fun t th ht => (hu.free t th ht).1
  accounted := fun _ _ _ => Or.inr (Or.inr (Or.inr (Or.inr (Or.inl rfl))))
  me_free := fun _ ⟨th, ht, htr⟩ => Bool.noConfusion ((hu.free me th ht).1.symm.trans htr)

/-- **Every run keeps it.** -/
theorem FreezeInv.run (hi : FreezeInv call me pid p w) (h : FreezeSteps call me pid w w') :
    FreezeInv call me pid p w' := by
  induction h with
  | refl => exact hi
  | tail _ hstep ih => exact ih.step hstep

end Steps

/-- The main thread, which is the caller, and another one, both at the beginning of a hooked
function. -/
def twoThreads (t : Tid) : Option Thread :=
  if t = 1 ∨ t = 2 then some ⟨0x9000#32, false, false, 0#32⟩ else none

theorem unfrozen_twoThreads : Unfrozen 1 twoThreads where
  me_alive := nofun
  zero := rfl
  free := fun t th ht => by
    obtain rfl := Option.some.inj (Option.ite_none_right_eq_some.mp ht).2
    exact ⟨rfl, rfl⟩

/-- The other one is stopped. -/
theorem twoThreads_frozen (call : FreezeCall) (p : Process) :
    ∃ w th, FreezeSteps call 1 1 (.initial twoThreads p) w ∧ w.caller = .body true
      ∧ w.threads 2 = some th ∧ th.stopped = true ∧ th.stoppedAt = 0x9000#32 := by
  have hmem : ∀ t, t ∈ [2] ↔ twoThreads t ≠ none ∧ t ≠ 0 ∧ t ≠ 1 := by
    intro t
    unfold twoThreads
    by_cases h1 : t = 1
    · simp [h1]
    · by_cases h2 : t = 2 <;> simp [h1, h2]
  have hr : ∀ {w : FreezeState}, w.threads 1 = some ⟨0x9000#32, false, false, 0#32⟩ → w.Runs 1 :=
    fun h => ⟨_, h, rfl⟩
  have hhead : ∀ {w w₁ : FreezeState}, FreezeStep call 1 1 w w₁ →
      (∃ w' th, FreezeSteps call 1 1 w₁ w' ∧ w'.caller = .body true
        ∧ w'.threads 2 = some th ∧ th.stopped = true ∧ th.stoppedAt = 0x9000#32) →
      ∃ w' th, FreezeSteps call 1 1 w w' ∧ w'.caller = .body true
        ∧ w'.threads 2 = some th ∧ th.stopped = true ∧ th.stoppedAt = 0x9000#32 := by
    rintro w w₁ hstep ⟨w', th, hsteps, h⟩
    exact ⟨w', th, .head hstep hsteps, h⟩
  refine hhead (.getAllTids _ [2] rfl (hr rfl) (List.nodup_singleton 2) (by decide) hmem) ?_
  refine hhead (.fork _ rfl (hr rfl) Nat.one_pos) ?_
  refine hhead (.attach _ 2 [] ⟨0x9000#32, false, false, 0#32⟩ rfl rfl) ?_
  refine hhead (.stops _ 2 ⟨0x9000#32, true, false, 0#32⟩ rfl rfl rfl) ?_
  refine hhead (.waitpid _ 2 [] ⟨0x9000#32, true, true, 0x9000#32⟩ rfl rfl rfl) ?_
  refine hhead (.raiseStop _ rfl) ?_
  refine hhead (.freezeReturns _ rfl (hr rfl) rfl) ?_
  exact ⟨_, _, .refl, rfl, rfl, rfl, rfl⟩

/-! ## While code is written -/

section Frozen

variable {call : FreezeCall} {me pid : Tid} {p : Process} {w : FreezeState}
  {threads : Tid → Option Thread}

/-- While code is written, a thread that is attached to stands where it was moved to. -/
theorem FreezeInv.moved (hi : FreezeInv call me pid p w)
    (hc : w.caller = .body true ∨ w.caller = .unFreeze true) {t : Tid} {th : Thread}
    (ht : w.threads t = some th) (htr : th.traced = true) :
    th.stopped = true ∧ th.pc = processThreadPC p.info call.item call.action th.stoppedAt := by
  have hhas := hi.has t th ht
  rw [hi.phase.frozen hc] at hhas
  exact hhas htr

end Frozen

section Moves

variable {info : InlineHookInfo}

/-- Without an item a thread is moved by the first item that moves it. -/
theorem processThreadPC_none (action : Action) (pc : Word) :
    (∃ pos < info.size, (doProcessThreadPC info pos pc action).1 = true
        ∧ processThreadPC info none action pc = (doProcessThreadPC info pos pc action).2)
      ∨ (∀ pos < info.size, (doProcessThreadPC info pos pc action).1 = false)
        ∧ processThreadPC info none action pc = pc := by
  unfold processThreadPC
  cases hf : (List.range info.size).find? fun pos => (doProcessThreadPC info pos pc action).1 with
  | none =>
    refine Or.inr ⟨fun pos hpos => ?_, rfl⟩
    exact Bool.eq_false_iff.mpr (List.find?_eq_none.mp hf pos (List.mem_range.mpr hpos))
  | some pos =>
    refine Or.inl ⟨pos, List.mem_range.mp (List.mem_of_find?_eq_some hf), ?_, rfl⟩
    exact List.find?_some (p := fun pos => (doProcessThreadPC info pos pc action).1) hf

variable {c : ℕ → ℕ} {orig tramp : ℕ → ℕ → Word}

/-- **Hooking all**: a thread at an instruction of a prologue goes on in a trampoline, at the
same instruction, and any other one stays. -/
theorem processThreadPC_hookAll
    (hm : ∀ pos < info.size, MovesThreads info pos (c pos) (orig pos) (tramp pos)) (pc : Word) :
    (∃ pos < info.size, ∃ i < c pos, pc = orig pos i
        ∧ processThreadPC info none .enable pc = tramp pos i)
      ∨ (∀ pos < info.size, ∀ i < c pos, pc ≠ orig pos i)
        ∧ processThreadPC info none .enable pc = pc := by
  rcases @processThreadPC_none info .enable pc with ⟨pos, hpos, hmoved, hpc⟩ | ⟨hno, hpc⟩
  · obtain ⟨i, hi, rfl⟩ := ((hm pos hpos).enable_iff pc).mp hmoved
    refine Or.inl ⟨pos, hpos, i, hi, rfl, ?_⟩
    rw [hpc, (hm pos hpos).enable i hi]
  · refine Or.inr ⟨fun pos hpos i hi heq => ?_, hpc⟩
    have := hno pos hpos
    rw [((hm pos hpos).enable_iff pc).mpr ⟨i, hi, heq⟩] at this
    cases this

/-- **Unhooking**: a thread at the beginning of a block goes on in the prologue, and any other
one stays. -/
theorem processThreadPC_unHook {pos n : ℕ} {orig tramp : ℕ → Word}
    (hm : MovesThreads info pos n orig tramp) (pc : Word) :
    (∃ i < n, pc = tramp i ∧ processThreadPC info (some pos) .disable pc = orig i)
      ∨ (∀ i < n, pc ≠ tramp i) ∧ processThreadPC info (some pos) .disable pc = pc := by
  by_cases h : ∃ i < n, pc = tramp i
  · obtain ⟨i, hi, rfl⟩ := h
    refine Or.inl ⟨i, hi, rfl, ?_⟩
    show (doProcessThreadPC info pos (tramp i) .disable).2 = _
    rw [hm.disable i hi]
  · have hne : ∀ i < n, pc ≠ tramp i := fun i hi heq => h ⟨i, hi, heq⟩
    refine Or.inr ⟨hne, ?_⟩
    show (doProcessThreadPC info pos pc .disable).2 = _
    rw [hm.disable_else pc hne]

end Moves

section Places

variable {me pid : Tid} {p : Process} {threads : Tid → Option Thread}

end Places

/-- A registry with one item, for a function of two instructions. -/
def oneItem : InlineHookInfo where
  item := fun _ =>
    { InlineHookInfo.zero.item 0 with
      targetAddr := 0x9000#32
      trampolineInstructions := 0x200#32
      origBoundaries := fun i => BitVec.ofNat 32 (4 * i)
      trampolineBoundaries := fun i => BitVec.ofNat 32 (8 * i)
      count := 2#32 }
  size := 1

section Returns

variable {call : FreezeCall} {me pid : Tid} {p : Process} {w w' : FreezeState}

/-- `unFreeze` may return. -/
def FreezeState.CanReturn (call : FreezeCall) (me pid : Tid) (w : FreezeState) : Prop :=
  ∃ w', FreezeSteps call me pid w w' ∧ w'.caller = .returned

theorem FreezeState.CanReturn.head (h : FreezeStep call me pid w w')
    (hw : w'.CanReturn call me pid) : w.CanReturn call me pid := by
  obtain ⟨w'', hsteps, hc⟩ := hw
  exact ⟨w'', Relation.ReflTransGen.head h hsteps, hc⟩

/-- **A caller that is traced stays so**, and waits. -/
theorem FreezeInv.traced_stays (hi : FreezeInv call me pid p w) (ht : w.Traced me)
    (h : FreezeStep call me pid w w') : w'.Traced me := by
  have hc : w.caller = .waitpid := by
    by_contra hne
    exact hi.me_free hne ht
  have hother : ∀ {t : Tid} {v : Option Thread}, t ≠ me → (w.setThread t v).Traced me := by
    intro t v hne
    obtain ⟨th, hth, htr⟩ := ht
    exact ⟨th, (FreezeState.setThread_of_ne w v hne.symm).trans hth, htr⟩
  have hsame : ∀ {t : Tid} {v : Thread}, v.traced = true → (w.setThread t (some v)).Traced me := by
    intro t v hv
    by_cases hne : t = me
    · subst hne
      exact ⟨v, FreezeState.setThread_same w t _, hv⟩
    · exact hother hne
  cases h with
  | attach t todo th hh hth => exact hsame rfl
  | stops t th hth htr hs => exact hsame htr
  | waitpid t todo th hh hth hs => exact hsame (hi.stopped_traced t th hth hs)
  | detach t todo th hh hth =>
    have hphase := hi.phase
    rw [hh] at hphase
    exact absurd (hphase.waits_end.symm.trans hc) nofun
  | runs t th pc hth hs hne => exact hother hne
  | spawns t u pc hr hne hu hu' hmem =>
    refine hother fun h => hi.me_alive ?_
    rwa [h] at hu'
  | ends t th hth hs hne => exact hother hne
  | _ => exact ht

/-- A caller that is not traced runs. -/
theorem FreezeInv.me_runs (hi : FreezeInv call me pid p w) (ht : ¬w.Traced me) : w.Runs me := by
  obtain ⟨th, hth⟩ := Option.ne_none_iff_exists'.mp hi.me_alive
  refine ⟨th, hth, Bool.eq_false_iff.mpr fun hs => ht ?_⟩
  exact ⟨th, hth, hi.stopped_traced me th hth hs⟩

/-- `unFreeze` returns once the helper detaches from the threads. -/
theorem FreezeInv.canReturn_wait {todo : List Tid} (hi : FreezeInv call me pid p w)
    (ht : ¬w.Traced me) (hc : w.caller = .wait) (hh : w.helper = .detach todo) :
    w.CanReturn call me pid := by
  induction todo generalizing w with
  | nil =>
    refine .head (.raiseKill w hh) (.head (.waitReturns _ hc (hi.me_runs ht) rfl) ?_)
    exact ⟨_, .refl, rfl⟩
  | cons t todo ih =>
    cases hth : w.threads t with
    | none =>
      have hstep := @FreezeStep.detachEnded call me pid w t todo hh hth
      exact .head hstep (ih (hi.step hstep) ht hc rfl)
    | some th =>
      have hstep := @FreezeStep.detach call me pid w t todo th hh hth
      have hi' := hi.step hstep
      exact .head hstep (ih hi' (hi'.me_free fun h => nomatch hc.symm.trans h) hc rfl)

/-- Without a helper nothing can keep the caller. -/
theorem FreezeInv.canReturn_alone (hi : FreezeInv call me pid p w) (ht : ¬w.Traced me)
    (hc : w.caller = .body false) : w.CanReturn call me pid := by
  have hr := hi.me_runs ht
  exact .head (.body w false hc hr) (.head (.unFreezeNothing _ rfl hr) ⟨_, .refl, rfl⟩)

/-- The code is written, and the helper told to go on. -/
theorem FreezeInv.canReturn_frozen (hi : FreezeInv call me pid p w) (ht : ¬w.Traced me)
    (hc : w.caller = .waitpid) (hh : w.helper = .stopped) : w.CanReturn call me pid := by
  have hr := hi.me_runs ht
  have h₁ := @FreezeStep.freezeReturns call me pid w hc hr hh
  have h₂ := @FreezeStep.body call me pid
    { w with caller := .body true } true rfl hr
  have h₃ := @FreezeStep.killCont call me pid
    { w with caller := .unFreeze true, process := call.body w.process } rfl hr hh
  exact .head h₁ (.head h₂ (.head h₃ ((((hi.step h₁).step h₂).step h₃).canReturn_wait ht rfl rfl)))

/-- The helper can always go on to the next thread. -/
theorem FreezeInv.canReturn_attach {todo : List Tid} (hi : FreezeInv call me pid p w)
    (ht : ¬w.Traced me) (hh : w.helper = .attach todo) : w.CanReturn call me pid := by
  induction todo generalizing w with
  | nil =>
    have hstep := @FreezeStep.raiseStop call me pid w hh
    exact .head hstep ((hi.step hstep).canReturn_frozen ht (hi.phase.waits (Or.inl ⟨_, hh⟩)) rfl)
  | cons t todo ih =>
    have hstep := @FreezeStep.attachFails call me pid w t todo hh
    exact .head hstep (ih (hi.step hstep) ht rfl)

/-- A thread that is waited for stops or has ended. -/
theorem FreezeInv.canReturn_waitpid {t : Tid} {todo : List Tid} (hi : FreezeInv call me pid p w)
    (ht : ¬w.Traced me) (hh : w.helper = .waitpid t todo) : w.CanReturn call me pid := by
  have hstopped : ∀ {w : FreezeState} {th : Thread}, FreezeInv call me pid p w → ¬w.Traced me →
      w.helper = .waitpid t todo → w.threads t = some th → th.stopped = true →
      w.CanReturn call me pid := by
    intro w th hi ht hh hth hs
    have hne : me ≠ t := by
      rintro rfl
      exact ht ⟨th, hth, hi.stopped_traced me th hth hs⟩
    have hstep := @FreezeStep.waitpid call me pid w t todo th hh hth hs
    exact .head hstep ((hi.step hstep).canReturn_attach (setThread_traced hne ht) rfl)
  cases hth : w.threads t with
  | none =>
    have hstep := @FreezeStep.waitpidEnded call me pid w t todo hh hth
    exact .head hstep ((hi.step hstep).canReturn_attach ht rfl)
  | some th =>
    by_cases hs : th.stopped = true
    · exact hstopped hi ht hh hth hs
    · have htr : th.traced = true := by
        have h := hi.has t th hth
        rw [hh] at h
        exact (h.1 rfl).1
      have hne : me ≠ t := by
        rintro rfl
        exact ht ⟨th, hth, htr⟩
      have hstep := @FreezeStep.stops call me pid w t th hth htr
        (Bool.eq_false_iff.mpr hs)
      refine .head hstep (hstopped (hi.step hstep) (setThread_traced hne ht) hh
        (FreezeState.setThread_same w t _) rfl)

/-- **When the calls return.** Once the threads are listed, `unFreeze` may return, whatever
has happened so far, if and only if the helper has not attached to the calling thread; it
never attaches to the main thread. -/
theorem freeze_returns_iff {threads : Tid → Option Thread} (hu : Unfrozen me threads)
    (hrun : FreezeSteps call me pid (.initial threads p) w) (hlisted : w.caller ≠ .getAllTids) :
    (w.CanReturn call me pid ↔ ¬w.Traced me) ∧ (me = pid → ¬w.Traced me) := by
  have hi := FreezeInv.run (FreezeInv.start hu) hrun
  refine ⟨⟨?_, fun ht => ?_⟩, ?_⟩
  · rintro ⟨w', hsteps, hc⟩ ht
    have hboth : FreezeInv call me pid p w' ∧ w'.Traced me := by
      clear hc
      induction hsteps with
      | refl => exact ⟨hi, ht⟩
      | tail _ hstep ih => exact ⟨ih.1.step hstep, ih.1.traced_stays ih.2 hstep⟩
    exact hboth.1.me_free (by rw [hc]; exact nofun) hboth.2
  · have hr := hi.me_runs ht
    have hphase := hi.phase
    generalize hc : w.caller = caller at hphase
    generalize hh : w.helper = helper at hphase
    cases hphase with
    | getAllTids => exact absurd hc hlisted
    | fork =>
      have hstep := @FreezeStep.noFork call me pid w hc hr
      exact .head hstep ((hi.step hstep).canReturn_alone ht rfl)
    | attach todo => exact hi.canReturn_attach ht hh
    | waitpid t todo => exact hi.canReturn_waitpid ht hh
    | stopped => exact hi.canReturn_frozen ht hc hh
    | body =>
      have hstep := @FreezeStep.body call me pid w true hc hr
      have hstep' := @FreezeStep.killCont call me pid
        { w with caller := .unFreeze true, process := call.body w.process } rfl hr hh
      exact .head hstep (.head hstep' (((hi.step hstep).step hstep').canReturn_wait ht rfl rfl))
    | bodyAlone => exact hi.canReturn_alone ht hc
    | unFreeze =>
      have hstep := @FreezeStep.killCont call me pid w hc hr hh
      exact .head hstep ((hi.step hstep).canReturn_wait ht rfl rfl)
    | unFreezeAlone => exact .head (.unFreezeNothing w hc hr) ⟨_, .refl, rfl⟩
    | detach todo => exact hi.canReturn_wait ht hc hh
    | killed => exact .head (.waitReturns w hc hr hh) ⟨_, .refl, rfl⟩
    | returned => exact ⟨w, .refl, hc⟩
    | returnedAlone => exact ⟨w, .refl, hc⟩
  · rintro rfl ⟨th, hth, htr⟩
    exact hi.pid_notMem (hi.traced_mem me th hth htr)

theorem freeze_returns_iff_two : ∃ w : FreezeState, (w.CanReturn .hookAll 1 1 ↔ ¬w.Traced 1) ∧ ¬w.Traced 1 := by
  obtain ⟨w, -, hrun, hc, -⟩ := twoThreads_frozen .hookAll startProcess
  obtain ⟨hiff, hmain⟩ := freeze_returns_iff unfrozen_twoThreads hrun (by rw [hc]; exact nofun)
  exact ⟨w, hiff, hmain rfl⟩

end Returns

end InlineHook
