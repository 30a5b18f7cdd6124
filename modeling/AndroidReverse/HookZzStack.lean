import AndroidReverse.HookZzTrampoline
import AndroidReverse.GrowableStack

/-!
# The stacks of calls

What happens between the entry of a hooked function and its return: `stack.c`
and the two functions of `thunker-arm.c` that the enter and the leave thunk
call. The first pushes a call stack on the stack that the thread has for the
hook, calls `pre_call`, decides where to go on and replaces the return address;
the second pops a call stack, calls `post_call` and goes on at the address that
was replaced.

Both hand over to code of the user in the middle, and in there anything may
happen that leaves this thread's stack for the hook alone: other threads, other
hooks, more items in a call stack, and calls of the hooked function itself. So
each of the two is modelled in two halves, and a run is a sequence of halves
with other steps in between (`Step`). The calls that are open are listed beside
the process, innermost first, with what the two functions keep in their local
variables.

The stack holds the call stacks of the open calls in their order (`Inv`). That
is what a matching pair needs: the end pops what its begin has pushed, and what
the begin noted in it is still there (`invocations_matched`).
-/

namespace HookZz

open Arm

/-! ## Data -/

/-- `ZzCallStackItem`. -/
structure CallStackItem where
  /-- The string it is found by. -/
  key : Word
  /-- Where its value is. -/
  value : Word
deriving DecidableEq

/-- `ZzCallStack`, with its items in a growing array. -/
structure CallStack extends GrowableStack CallStackItem where
  /-- Its position in the stack of the thread. -/
  callId : ℕ
  /-- The stack of the thread. -/
  threadstack : Word
  /-- Where the call returns to. -/
  callerRetAddr : Word
deriving DecidableEq

/-- `ZzThreadStack`: pointers to call stacks in a growing array. -/
structure ThreadStack extends GrowableStack Word where
  /-- The thread. -/
  threadId : Word
  /-- The key it is found by. -/
  keyPtr : Word
deriving DecidableEq

/-- **A process**: its memory, what its threads have stored under the keys of
the hooks, and the objects that `malloc` has handed out, by their addresses. -/
structure Process where
  /-- The memory, where the stacks of the machine are. -/
  mem : Mem
  /-- `g_thread_local_key_list`. -/
  threadLocalKeys : List Word
  /-- `pthread_getspecific`, for a thread and a key of the list. -/
  specific : Word → Word → Word
  /-- The stacks of the threads. -/
  threadStacks : Word → Option ThreadStack
  /-- The call stacks. -/
  callStacks : Word → Option CallStack

/-- What is handed to `pre_call` and `post_call`, with the pointer that is
called. -/
structure Callback where
  /-- The pointer. -/
  function : Word
  /-- The saved registers. -/
  rs : Word
  /-- The stack of the thread. -/
  threadstack : Word
  /-- The call stack. -/
  callstack : Word
  /-- `hook_id` of the `HookEntryInfo`. -/
  hookId : ℕ
  /-- `hook_address` of the `HookEntryInfo`. -/
  hookAddress : Word
deriving DecidableEq

/-- What `malloc` and `realloc` answer while a call begins. -/
structure Answers where
  /-- For a stack of the thread. -/
  threadstack : Word
  /-- For a call stack. -/
  callstack : Word
  /-- What the items of the call stack hold. -/
  items : ℕ → CallStackItem
  /-- What the new slots of the stack hold, if it grows. -/
  slots : ℕ → Word

namespace Process

/-! ## `stack.c` -/

/-- `ZzThreadGetCurrentThreadData`, and `ZzGetCurrentThreadStack` with it. -/
def getCurrentThreadData (p : Process) (thread keyPtr : Word) : Word :=
  if keyPtr = 0#32 then 0#32
  else if keyPtr ∈ p.threadLocalKeys then p.specific thread keyPtr
  else 0#32

/-- `ZzThreadSetCurrentThreadData`. -/
def setCurrentThreadData (p : Process) (thread keyPtr data : Word) : Process :=
  if keyPtr ∈ p.threadLocalKeys then
    { p with
      specific := Function.update p.specific thread
        (Function.update (p.specific thread) keyPtr data) }
  else p

/-- `ZzNewThreadStack`, at the address it gets. -/
def newThreadStack (p : Process) (thread keyPtr threadstack : Word) : Process :=
  { p with
    threadStacks := Function.update p.threadStacks threadstack (some
      { toGrowableStack := GrowableStack.empty 4 (Nat.succ_pos 3) (fun _ => 0#32)
        threadId := thread
        keyPtr := keyPtr }) }.setCurrentThreadData thread keyPtr threadstack

/-- `ZzNewCallStack`, at the address it gets. -/
def newCallStack (p : Process) (callstack : Word) (items : ℕ → CallStackItem) : Process :=
  { p with
    callStacks := Function.update p.callStacks callstack (some
      { toGrowableStack := GrowableStack.empty 4 (Nat.succ_pos 3) items
        callId := 0
        threadstack := 0#32
        callerRetAddr := 0#32 }) }

/-- `ZzFreeCallStack`. -/
def freeCallStack (p : Process) (callstack : Word) : Process :=
  { p with
    callStacks := Function.update p.callStacks callstack none }

/-- `ZzPopCallStack`; `none` if there is no such stack to read. -/
def popCallStack (p : Process) (stack : Word) : Option (Word × Process) :=
  (p.threadStacks stack).map fun s =>
    match s.pop with
    | none => (0#32, p)
    | some (callstack, t) =>
      (callstack, { p with
        threadStacks := Function.update p.threadStacks stack
          (some { s with toGrowableStack := t }) })

/-- `ZzPushCallStack`; `none` if it is given what does not exist. -/
def pushCallStack (p : Process) (stack callstack : Word) (slots : ℕ → Word) :
    Option (Bool × Process) :=
  if stack = 0#32 then some (false, p)
  else
    (p.threadStacks stack).bind fun s => (p.callStacks callstack).map fun c =>
      (true, { p with
        callStacks := Function.update p.callStacks callstack
          (some { c with callId := s.size, threadstack := stack })
        threadStacks := Function.update p.threadStacks stack
          (some { s with toGrowableStack := s.push slots callstack }) })

/-! ## The functions behind the thunks -/

/-- The call of a callback, if there is one. -/
def callback (entry : HookFunctionEntry) (function rs threadstack callstack : Word) :
    Option Callback :=
  if function = 0#32 then none
  else some ⟨function, rs, threadstack, callstack, entry.id, entry.targetPtr⟩

/-- The stack of the thread, which is made if there is none yet. -/
def obtainThreadStack (p : Process) (thread keyPtr threadstack : Word) : Word × Process :=
  if p.getCurrentThreadData thread keyPtr = 0#32 then
    (threadstack, p.newThreadStack thread keyPtr threadstack)
  else (p.getCurrentThreadData thread keyPtr, p)

/-- `function_context_begin_invocation` up to the call of `pre_call`: the call
stack it has made, and what it calls. -/
def beginInvocation (p : Process) (thread : Word) (entry : HookFunctionEntry) (rs : Word)
    (answers : Answers) : Option (Word × Option Callback × Process) :=
  let r := p.obtainThreadStack thread entry.threadLocalKey answers.threadstack
  let p := r.2.newCallStack answers.callstack answers.items
  (p.pushCallStack r.1 answers.callstack answers.slots).map fun pushed =>
    (answers.callstack, callback entry entry.preCall rs r.1 answers.callstack, pushed.2)

/-- The next hop is set. -/
def setNextHop (p : Process) (entry : HookFunctionEntry) (nextHop : Word) : Process :=
  { p with
    mem := p.mem.write 4 nextHop
      (if entry.replaceCall ≠ 0#32 then entry.replaceCall else entry.onInvokeTrampoline) }

/-- `function_context_begin_invocation` from there on. -/
def beginInvocationRest (p : Process) (entry : HookFunctionEntry)
    (nextHop callerRetAddr callstack : Word) : Option Process :=
  let p := p.setNextHop entry nextHop
  if entry.hookType = .functionViaPrePost then
    (p.callStacks callstack).map fun c =>
      { p with
        callStacks := Function.update p.callStacks callstack
          (some { c with callerRetAddr := p.mem.read32 callerRetAddr })
        mem := p.mem.write 4 callerRetAddr entry.onLeaveTrampoline }
  else some p

/-- `function_context_end_invocation` up to the call of `post_call`: the call
stack it has popped, and what it calls. -/
def endInvocation (p : Process) (thread : Word) (entry : HookFunctionEntry) (rs : Word) :
    Option (Word × Option Callback × Process) :=
  let threadstack := p.getCurrentThreadData thread entry.threadLocalKey
  (p.popCallStack threadstack).map fun popped =>
    (popped.1, callback entry entry.postCall rs threadstack popped.1, popped.2)

/-- `function_context_end_invocation` from there on; `none` if there is no such
call stack to read. -/
def endInvocationRest (p : Process) (nextHop callstack : Word) : Option Process :=
  (p.callStacks callstack).map fun c =>
    { p with mem := p.mem.write 4 nextHop c.callerRetAddr }.freeCallStack callstack

/-! ## What a thread has on its stack -/

/-- The key of a hook is one of the list. -/
def Registered (p : Process) (keyPtr : Word) : Prop :=
  keyPtr ≠ 0#32 ∧ keyPtr ∈ p.threadLocalKeys

/-- The stack of a thread for a hook, if there is one. -/
def stackOf (p : Process) (thread keyPtr : Word) : Option ThreadStack :=
  if p.getCurrentThreadData thread keyPtr = 0#32 then none
  else p.threadStacks (p.getCurrentThreadData thread keyPtr)

/-- The call stacks on it, the outermost first. -/
def contents (p : Process) (thread keyPtr : Word) : List Word :=
  ((p.stackOf thread keyPtr).map fun s => s.elements).getD []

/-- A call stack that belongs to the stack of a thread, whether or not it is
still there. -/
structure Owns (p : Process) (thread keyPtr callstack : Word) (c : CallStack) : Prop where
  data : p.getCurrentThreadData thread keyPtr ≠ 0#32
  found : p.callStacks callstack = some c
  threadstack : c.threadstack = p.getCurrentThreadData thread keyPtr

/-- **A process with sound stacks** for a thread and a hook. -/
structure WellFormed (p : Process) (thread keyPtr : Word) : Prop where
  registered : p.Registered keyPtr
  stack : p.getCurrentThreadData thread keyPtr ≠ 0#32 → (p.stackOf thread keyPtr).isSome
  owns : ∀ callstack ∈ p.contents thread keyPtr, ∃ c, p.Owns thread keyPtr callstack c

/-- **What the rest of the process may do** to the stack of a thread for a hook:
nothing, and to its call stacks nothing but change their items and ids. -/
structure Interferes (p : Process) (thread keyPtr : Word) (q : Process) : Prop where
  registered : p.Registered keyPtr → q.Registered keyPtr
  data : q.getCurrentThreadData thread keyPtr = p.getCurrentThreadData thread keyPtr
  stack : q.stackOf thread keyPtr = p.stackOf thread keyPtr
  callStacks : ∀ callstack c, p.Owns thread keyPtr callstack c → ∃ c',
    q.callStacks callstack = some c' ∧ c'.threadstack = c.threadstack
      ∧ c'.callerRetAddr = c.callerRetAddr

/-- An address that `malloc` may answer. -/
structure Fresh (p : Process) (a : Word) : Prop where
  ne_zero : a ≠ 0#32
  threadStacks : p.threadStacks a = none
  callStacks : p.callStacks a = none

variable {p q : Process} {thread keyPtr callstack : Word}

theorem getCurrentThreadData_eq (h : p.Registered keyPtr) (thread : Word) :
    p.getCurrentThreadData thread keyPtr = p.specific thread keyPtr :=
  (if_neg h.1).trans (if_pos h.2)

theorem contents_of_stackOf {s : ThreadStack} (h : p.stackOf thread keyPtr = some s) :
    p.contents thread keyPtr = s.elements := by
  rw [contents, h]
  rfl

theorem contents_of_data (h : p.getCurrentThreadData thread keyPtr = 0#32) :
    p.contents thread keyPtr = [] := by
  rw [contents, stackOf, if_pos h]
  rfl

/-- A thread that has not called a hooked function has sound stacks for it. -/
theorem WellFormed.of_data (h : p.Registered keyPtr)
    (hdata : p.getCurrentThreadData thread keyPtr = 0#32) : p.WellFormed thread keyPtr where
  registered := h
  stack := fun hne => absurd hdata hne
  owns := by
    rw [contents_of_data hdata]
    exact nofun

theorem Interferes.contents (h : p.Interferes thread keyPtr q) :
    q.contents thread keyPtr = p.contents thread keyPtr := by
  rw [Process.contents, h.stack]
  rfl

theorem Interferes.owns (h : p.Interferes thread keyPtr q) {c : CallStack}
    (hc : p.Owns thread keyPtr callstack c) : ∃ c', q.Owns thread keyPtr callstack c' := by
  obtain ⟨c', hc', hstack, -⟩ := h.callStacks callstack c hc
  exact ⟨c', h.data ▸ hc.data, hc', hstack.trans (hc.threadstack.trans h.data.symm)⟩

end Process

/-! ## Open calls -/

/-- Where an open call is. -/
inductive Phase where
  /-- In `pre_call`. -/
  | before
  /-- In the hooked function, with the return address that was read. -/
  | body (lr : Word)
  /-- In `post_call`, with the call stack that was popped. -/
  | after (lr popped : Word)
deriving DecidableEq

/-- The return address, once it has been read. -/
def Phase.lr : Phase → Option Word
  | before => none
  | body lr => some lr
  | after lr _ => some lr

/-- **An open call**: what its begin has made and called, how many call stacks
there were before, and where it is. -/
structure OpenCall where
  /-- The call stack. -/
  callstack : Word
  /-- How many there were. -/
  size : ℕ
  /-- What was called in front of the function. -/
  pre : Option Callback
  /-- Where the call is. -/
  phase : Phase
deriving DecidableEq

/-- The call stack of an open call, until it is popped. -/
def OpenCall.stacked (call : OpenCall) : Option Word :=
  match call.phase with
  | .after _ _ => none
  | _ => some call.callstack

/-- The call stacks of the open calls that are on the stack, the innermost
first. -/
def stacked (calls : List OpenCall) : List Word := calls.filterMap OpenCall.stacked

/-- **A step of a process with its open calls.** The two halves of a begin and
of an end are steps of the innermost call, and between them the rest of the
process may take steps of its own. -/
inductive Step (thread : Word) (entry : HookFunctionEntry) :
    Process × List OpenCall → Process × List OpenCall → Prop where
  | interfere {p q : Process} {calls : List OpenCall}
      (h : p.Interferes thread entry.threadLocalKey q) : Step thread entry (p, calls) (q, calls)
  | enter {p q : Process} {calls : List OpenCall} {rs callstack : Word} {answers : Answers}
      {pre : Option Callback} (hthread : p.Fresh answers.threadstack)
      (hcall : p.Fresh answers.callstack)
      (h : p.beginInvocation thread entry rs answers = some (callstack, pre, q)) :
      Step thread entry (p, calls)
        (q, ⟨callstack, (p.contents thread entry.threadLocalKey).length, pre, .before⟩ :: calls)
  | proceed {p q : Process} {call : OpenCall} {calls : List OpenCall}
      {nextHop callerRetAddr : Word} (hphase : call.phase = .before)
      (h : p.beginInvocationRest entry nextHop callerRetAddr call.callstack = some q) :
      Step thread entry (p, call :: calls)
        (q, { call with
          phase := .body ((p.setNextHop entry nextHop).mem.read32 callerRetAddr) } :: calls)
  | leave {p q : Process} {call : OpenCall} {calls : List OpenCall} {rs lr popped : Word}
      {post : Option Callback} (hphase : call.phase = .body lr)
      (h : p.endInvocation thread entry rs = some (popped, post, q)) :
      Step thread entry (p, call :: calls) (q, { call with phase := .after lr popped } :: calls)
  | finish {p q : Process} {call : OpenCall} {calls : List OpenCall} {nextHop lr popped : Word}
      (hphase : call.phase = .after lr popped)
      (h : p.endInvocationRest nextHop popped = some q) :
      Step thread entry (p, call :: calls) (q, calls)

/-- **Open calls over the call stacks that were there before**: each has one of
its own, which is what it has handed over and popped, and knows how many there
were. -/
inductive Nested (base : List Word) : List OpenCall → Prop where
  | nil : Nested base []
  | cons {call : OpenCall} {calls : List OpenCall} (h : Nested base calls)
      (hbase : call.callstack ∉ base) (hcalls : call.callstack ∉ calls.map OpenCall.callstack)
      (hsize : call.size = (base ++ (stacked calls).reverse).length)
      (hpre : ∀ pre ∈ call.pre, pre.callstack = call.callstack)
      (hpopped : ∀ lr popped, call.phase = .after lr popped → popped = call.callstack) :
      Nested base (call :: calls)

/-- **The invariant**: the stack of the thread holds what was there before and
then the call stacks of the open calls, in their order. -/
structure Inv (thread keyPtr : Word) (base : List Word) (p : Process) (calls : List OpenCall) :
    Prop where
  registered : p.Registered keyPtr
  stack : p.getCurrentThreadData thread keyPtr ≠ 0#32 → (p.stackOf thread keyPtr).isSome
  contents : p.contents thread keyPtr = base ++ (stacked calls).reverse
  nested : Nested base calls
  owns : ∀ callstack ∈ base ++ calls.map OpenCall.callstack,
    ∃ c, p.Owns thread keyPtr callstack c
  returns : ∀ call ∈ calls, ∀ lr ∈ call.phase.lr, ∀ c, p.callStacks call.callstack = some c →
    c.callerRetAddr = lr

variable {thread keyPtr a callstack : Word} {base : List Word} {p q : Process}
  {call : OpenCall} {calls : List OpenCall} {entry : HookFunctionEntry}

theorem Nested.setPhase (h : Nested base (call :: calls)) {phase : Phase}
    (hphase : ∀ lr popped, phase = .after lr popped → popped = call.callstack) :
    Nested base ({ call with phase := phase } :: calls) := by
  cases h with
  | cons h hbase hcalls hsize hpre _ => exact .cons h hbase hcalls hsize hpre hphase

theorem stacked_cons_of_some (h : call.stacked = some callstack) :
    base ++ (stacked (call :: calls)).reverse = base ++ (stacked calls).reverse ++ [callstack] := by
  rw [stacked, List.filterMap_cons_some h, List.reverse_cons, List.append_assoc]
  rfl

theorem stacked_cons_of_none (h : call.stacked = none) :
    stacked (call :: calls) = stacked calls :=
  List.filterMap_cons_none h

/-! ## Steps of the rest -/

namespace Process

/-- A call stack that is new to the process is none that belongs to a thread. -/
theorem interferes_newCallStack (h : p.callStacks callstack = none) (items : ℕ → CallStackItem) :
    p.Interferes thread keyPtr (p.newCallStack callstack items) where
  registered := id
  data := rfl
  stack := rfl
  callStacks := by
    intro a c hc
    have hne : a ≠ callstack := by
      rintro rfl
      exact absurd (hc.found.symm.trans h) nofun
    exact ⟨c, (Function.update_of_ne hne _ _).trans hc.found, rfl, rfl⟩

theorem interferes_mem (p : Process) (m : Mem) :
    p.Interferes thread keyPtr { p with mem := m } where
  registered := id
  data := rfl
  stack := rfl
  callStacks := fun _ c hc => ⟨c, hc.found, rfl, rfl⟩

end Process

namespace Inv

theorem interferes (h : Inv thread keyPtr base p calls) (hq : p.Interferes thread keyPtr q) :
    Inv thread keyPtr base q calls where
  registered := hq.registered h.registered
  stack := by
    rw [hq.data, hq.stack]
    exact h.stack
  contents := hq.contents.trans h.contents
  nested := h.nested
  owns := by
    intro callstack hmem
    obtain ⟨c, hc⟩ := h.owns callstack hmem
    exact hq.owns hc
  returns := by
    intro call hcall lr hlr c hc
    obtain ⟨c₀, hc₀⟩ := h.owns call.callstack
      (List.mem_append_right base (List.mem_map_of_mem hcall))
    obtain ⟨c', hc', -, hret⟩ := hq.callStacks call.callstack c₀ hc₀
    rw [Option.some_inj.mp (hc.symm.trans hc'), hret]
    exact h.returns call hcall lr hlr c₀ hc₀.found

/-! ## Steps of the innermost call -/

/-- A callback gets the call stack that it is called with. -/
theorem callback_callstack {function rs threadstack : Word} :
    ∀ b ∈ Process.callback entry function rs threadstack callstack, b.callstack = callstack := by
  intro b hb
  unfold Process.callback at hb
  split at hb
  · exact absurd hb nofun
  · rw [← Option.some_inj.mp hb]

/-- Without a stack there is nothing on it, and no call is open. -/
theorem eq_nil (h : Inv thread keyPtr base p calls)
    (hdata : p.getCurrentThreadData thread keyPtr = 0#32) : base = [] ∧ calls = [] := by
  have hnone : base ++ calls.map OpenCall.callstack = [] := by
    refine List.eq_nil_iff_forall_not_mem.mpr (fun callstack hmem => ?_)
    obtain ⟨c, hc⟩ := h.owns callstack hmem
    exact hc.data hdata
  exact ⟨(List.append_eq_nil_iff.mp hnone).1,
    List.map_eq_nil_iff.mp (List.append_eq_nil_iff.mp hnone).2⟩

/-- **The stack of the thread**, found or made. -/
theorem obtain_stack (h : Inv thread keyPtr base p calls) (ha : p.Fresh a) :
    Inv thread keyPtr base (p.obtainThreadStack thread keyPtr a).2 calls
      ∧ (p.obtainThreadStack thread keyPtr a).2.getCurrentThreadData thread keyPtr
        = (p.obtainThreadStack thread keyPtr a).1
      ∧ (p.obtainThreadStack thread keyPtr a).1 ≠ 0#32
      ∧ (p.obtainThreadStack thread keyPtr a).2.callStacks = p.callStacks := by
  by_cases hdata : p.getCurrentThreadData thread keyPtr = 0#32
  · obtain ⟨rfl, rfl⟩ := h.eq_nil hdata
    set q := p.newThreadStack thread keyPtr a with hq
    have hr : p.obtainThreadStack thread keyPtr a = (a, q) := if_pos hdata
    have hset : q = { p with
        threadStacks := q.threadStacks
        specific := Function.update p.specific thread
          (Function.update (p.specific thread) keyPtr a) } := by
      rw [hq, Process.newThreadStack, Process.setCurrentThreadData, if_pos h.registered.2]
    have hreg : q.Registered keyPtr := by
      rw [hset]
      exact h.registered
    have hcur : q.getCurrentThreadData thread keyPtr = a := by
      rw [Process.getCurrentThreadData_eq hreg, hset]
      dsimp only
      rw [Function.update_self, Function.update_self]
    have hstack : q.stackOf thread keyPtr = some
        { toGrowableStack := GrowableStack.empty 4 (Nat.succ_pos 3) (fun _ => 0#32)
          threadId := thread
          keyPtr := keyPtr } := by
      rw [Process.stackOf, hcur, if_neg ha.ne_zero, hq, Process.newThreadStack,
        Process.setCurrentThreadData, if_pos h.registered.2]
      exact Function.update_self _ _ _
    rw [hr]
    refine ⟨⟨hreg, fun _ => ?_, ?_, .nil, nofun, nofun⟩, hcur, ha.ne_zero, ?_⟩
    · rw [hstack]
      rfl
    · rw [Process.contents_of_stackOf hstack]
      exact GrowableStack.elements_empty _ _
    · rw [hset]
  · have hr : p.obtainThreadStack thread keyPtr a
        = (p.getCurrentThreadData thread keyPtr, p) := if_neg hdata
    rw [hr]
    exact ⟨h, rfl, hdata, rfl⟩

/-- **Pushing** a call stack that is nobody's. -/
theorem push (h : Inv thread keyPtr base p calls) {c : CallStack} {pre : Option Callback}
    (hdata : p.getCurrentThreadData thread keyPtr ≠ 0#32)
    (hc : p.callStacks callstack = some c)
    (hnew : callstack ∉ base ++ calls.map OpenCall.callstack)
    (hpre : ∀ b ∈ pre, b.callstack = callstack) (slots : ℕ → Word) :
    ∃ q, p.pushCallStack (p.getCurrentThreadData thread keyPtr) callstack slots = some (true, q)
      ∧ Inv thread keyPtr base q
        (⟨callstack, (p.contents thread keyPtr).length, pre, .before⟩ :: calls) := by
  obtain ⟨s, hs⟩ := Option.isSome_iff_exists.mp (h.stack hdata)
  have hfound : p.threadStacks (p.getCurrentThreadData thread keyPtr) = some s :=
    (if_neg hdata).symm.trans hs
  rw [Process.pushCallStack, if_neg hdata, hfound, Option.bind_some, hc, Option.map_some]
  set q : Process := { p with
    callStacks := Function.update p.callStacks callstack (some
      { c with callId := s.size, threadstack := p.getCurrentThreadData thread keyPtr })
    threadStacks := Function.update p.threadStacks (p.getCurrentThreadData thread keyPtr)
      (some { s with toGrowableStack := s.push slots callstack }) } with hq
  refine ⟨q, rfl, ?_⟩
  have hstack : q.stackOf thread keyPtr
      = some { s with toGrowableStack := s.push slots callstack } :=
    (if_neg hdata).trans (Function.update_self _ _ _)
  have hother : ∀ a, a ≠ callstack → q.callStacks a = p.callStacks a :=
    fun a hne => Function.update_of_ne hne _ _
  refine ⟨h.registered, fun _ => by rw [hstack]; rfl, ?_, ?_, ?_, ?_⟩
  · rw [Process.contents_of_stackOf hstack, GrowableStack.elements_push,
      ← Process.contents_of_stackOf hs, h.contents]
    exact (stacked_cons_of_some rfl).symm
  · exact .cons h.nested (fun hmem => hnew (List.mem_append_left _ hmem))
      (fun hmem => hnew (List.mem_append_right _ hmem)) (congrArg List.length h.contents) hpre nofun
  · intro a hmem
    by_cases hne : a = callstack
    · subst hne
      exact ⟨_, hdata, Function.update_self _ _ _, rfl⟩
    · rw [List.map_cons, List.mem_append, List.mem_cons, or_iff_right hne, ← List.mem_append]
        at hmem
      obtain ⟨c', hc'⟩ := h.owns a hmem
      exact ⟨c', hdata, (hother a hne).trans hc'.found, hc'.threadstack⟩
  · intro call hcall lr hlr c' hc'
    rcases List.mem_cons.mp hcall with rfl | hold
    · exact absurd hlr nofun
    · have hne : call.callstack ≠ callstack := by
        rintro rfl
        exact hnew (List.mem_append_right _ (List.mem_map_of_mem hold))
      exact h.returns call hold lr hlr c' ((hother _ hne).symm.trans hc')

/-- **A begin** adds an open call. -/
theorem begin (h : Inv thread entry.threadLocalKey base p calls) {answers : Answers}
    (hthread : p.Fresh answers.threadstack) (hcall : p.Fresh answers.callstack) (rs : Word) :
    ∃ pre q, p.beginInvocation thread entry rs answers = some (answers.callstack, pre, q)
      ∧ (∀ b ∈ pre, b.callstack = answers.callstack)
      ∧ Inv thread entry.threadLocalKey base q
        (⟨answers.callstack, (p.contents thread entry.threadLocalKey).length, pre, .before⟩
          :: calls) := by
  obtain ⟨hinv, hdata, hne, hstacks⟩ := h.obtain_stack hthread
  set r := p.obtainThreadStack thread entry.threadLocalKey answers.threadstack
  have hfresh : r.2.callStacks answers.callstack = none := hstacks ▸ hcall.callStacks
  have hnew : answers.callstack ∉ base ++ calls.map OpenCall.callstack := by
    intro hmem
    obtain ⟨c, hc⟩ := hinv.owns _ hmem
    exact absurd (hc.found.symm.trans hfresh) nofun
  -- a new call stack is no concern of the others
  have hinv' : Inv thread entry.threadLocalKey base
      (r.2.newCallStack answers.callstack answers.items) calls :=
    hinv.interferes (Process.interferes_newCallStack hfresh answers.items)
  obtain ⟨q, hq, hinvq⟩ := hinv'.push (hdata.trans_ne hne) (Function.update_self _ _ _) hnew
    callback_callstack answers.slots
  refine ⟨Process.callback entry entry.preCall rs r.1 answers.callstack, q, ?_,
    callback_callstack, ?_⟩
  · rw [Process.beginInvocation, ← hdata]
    exact congrArg (Option.map _) hq
  · rwa [hinv'.contents, ← h.contents] at hinvq

/-- **The rest of a begin** notes the return address in the call stack. -/
theorem proceed (h : Inv thread entry.threadLocalKey base p (call :: calls))
    (htype : entry.hookType = .functionViaPrePost) (hphase : call.phase = .before)
    (nextHop callerRetAddr : Word) :
    ∃ q, p.beginInvocationRest entry nextHop callerRetAddr call.callstack = some q
      ∧ Inv thread entry.threadLocalKey base q ({ call with
        phase := .body ((p.setNextHop entry nextHop).mem.read32 callerRetAddr) } :: calls) := by
  obtain ⟨c, hc⟩ := h.owns call.callstack (List.mem_append_right _ List.mem_cons_self)
  set lr := (p.setNextHop entry nextHop).mem.read32 callerRetAddr with hlr
  set q : Process := { p.setNextHop entry nextHop with
    callStacks := Function.update p.callStacks call.callstack (some { c with callerRetAddr := lr })
    mem := (p.setNextHop entry nextHop).mem.write 4 callerRetAddr entry.onLeaveTrampoline } with hq
  have hother : ∀ a, a ≠ call.callstack → q.callStacks a = p.callStacks a :=
    fun a hne => Function.update_of_ne hne _ _
  refine ⟨q, ?_, h.registered, h.stack, ?_, h.nested.setPhase nofun, ?_, ?_⟩
  · have hfound : (p.setNextHop entry nextHop).callStacks call.callstack = some c := hc.found
    rw [Process.beginInvocationRest, if_pos htype, hfound]
    rfl
  · have hstacked : call.stacked = some call.callstack := by rw [OpenCall.stacked, hphase]
    exact h.contents.trans ((stacked_cons_of_some hstacked).trans (stacked_cons_of_some rfl).symm)
  · intro a hmem
    by_cases hne : a = call.callstack
    · subst hne
      exact ⟨_, hc.data, Function.update_self _ _ _, hc.threadstack⟩
    · obtain ⟨c', hc'⟩ := h.owns a hmem
      exact ⟨c', hc'.data, (hother a hne).trans hc'.found, hc'.threadstack⟩
  · intro call' hcall lr' hlr' c' hc'
    rcases List.mem_cons.mp hcall with rfl | hold
    · have hself : q.callStacks call.callstack = some { c with callerRetAddr := lr } :=
        Function.update_self _ _ _
      rw [← Option.some_inj.mp (hself.symm.trans hc')]
      exact Option.some_inj.mp hlr'
    · have hne : call'.callstack ≠ call.callstack := by
        intro he
        cases h.nested with
        | cons _ _ hcalls _ _ _ => exact hcalls (he ▸ List.mem_map_of_mem hold)
      exact h.returns call' (List.mem_cons_of_mem _ hold) lr' hlr' c'
        ((hother _ hne).symm.trans hc')

/-- **An end** pops the call stack of the innermost call. -/
theorem leave (h : Inv thread entry.threadLocalKey base p (call :: calls)) {lr : Word}
    (hphase : call.phase = .body lr) (rs : Word) :
    ∃ post q, p.endInvocation thread entry rs = some (call.callstack, post, q)
      ∧ (∀ b ∈ post, b.callstack = call.callstack)
      ∧ Inv thread entry.threadLocalKey base q
        ({ call with phase := .after lr call.callstack } :: calls) := by
  obtain ⟨c, hc⟩ := h.owns call.callstack (List.mem_append_right _ List.mem_cons_self)
  obtain ⟨s, hs⟩ := Option.isSome_iff_exists.mp (h.stack hc.data)
  have hfound : p.threadStacks (p.getCurrentThreadData thread entry.threadLocalKey) = some s :=
    (if_neg hc.data).symm.trans hs
  have hstacked : call.stacked = some call.callstack := by rw [OpenCall.stacked, hphase]
  have helements : s.elements = base ++ (stacked calls).reverse ++ [call.callstack] := by
    rw [← Process.contents_of_stackOf hs, h.contents]
    exact stacked_cons_of_some hstacked
  obtain ⟨t, hpop, ht⟩ := GrowableStack.pop_of_elements helements
  set q : Process := { p with
    threadStacks := Function.update p.threadStacks
      (p.getCurrentThreadData thread entry.threadLocalKey)
      (some { s with toGrowableStack := t }) } with hq
  have hstack : q.stackOf thread entry.threadLocalKey = some { s with toGrowableStack := t } :=
    (if_neg hc.data).trans (Function.update_self _ _ _)
  refine ⟨Process.callback entry entry.postCall rs
      (p.getCurrentThreadData thread entry.threadLocalKey) call.callstack, q, ?_, ?_,
    h.registered, fun _ => by rw [hstack]; rfl, ?_, ?_, ?_, ?_⟩
  · rw [Process.endInvocation, Process.popCallStack, hfound, Option.map_some, hpop]
    rfl
  · exact callback_callstack
  · rw [Process.contents_of_stackOf hstack, ht, stacked_cons_of_none rfl]
  · refine h.nested.setPhase (fun lr' popped he => ?_)
    injection he with _ he
    exact he.symm
  · intro a hmem
    obtain ⟨c', hc'⟩ := h.owns a hmem
    exact ⟨c', hc'.data, hc'.found, hc'.threadstack⟩
  · intro call' hcall lr' hlr' c' hc'
    rcases List.mem_cons.mp hcall with rfl | hold
    · refine h.returns call List.mem_cons_self lr' ?_ c' hc'
      rw [hphase]
      exact hlr'
    · exact h.returns call' (List.mem_cons_of_mem _ hold) lr' hlr' c' hc'

/-- **The rest of an end** goes on where the call has come from. -/
theorem finish (h : Inv thread keyPtr base p (call :: calls)) {lr popped : Word}
    (hphase : call.phase = .after lr popped) (nextHop : Word) :
    ∃ q, p.endInvocationRest nextHop popped = some q ∧ q.mem.read32 nextHop = lr
      ∧ Inv thread keyPtr base q calls := by
  obtain ⟨c, hc⟩ := h.owns call.callstack (List.mem_append_right _ List.mem_cons_self)
  have hret : c.callerRetAddr = lr :=
    h.returns call List.mem_cons_self lr (by rw [hphase]; rfl) c hc.found
  have hstacked : call.stacked = none := by rw [OpenCall.stacked, hphase]
  cases h.nested with
  | cons hnested hbase hcalls hsize hpre hpopped =>
    obtain rfl := hpopped lr popped hphase
    set q : Process := { p with mem := p.mem.write 4 nextHop c.callerRetAddr }.freeCallStack
      call.callstack with hq
    have hother : ∀ a, a ≠ call.callstack → q.callStacks a = p.callStacks a :=
      fun a hne => Function.update_of_ne hne _ _
    refine ⟨q, ?_, ?_, h.registered, h.stack, ?_, hnested, ?_, ?_⟩
    · rw [Process.endInvocationRest, hc.found]
      rfl
    · exact (Mem.read32_write p.mem nextHop c.callerRetAddr).trans hret
    · rw [← stacked_cons_of_none hstacked]
      exact h.contents
    · intro a hmem
      have hne : a ≠ call.callstack := by
        rintro rfl
        rcases List.mem_append.mp hmem with hmem | hmem
        · exact hbase hmem
        · exact hcalls hmem
      have hmem' : a ∈ base ++ (call :: calls).map OpenCall.callstack := by
        rw [List.map_cons, List.mem_append, List.mem_cons, or_iff_right hne, ← List.mem_append]
        exact hmem
      obtain ⟨c', hc'⟩ := h.owns a hmem'
      exact ⟨c', hc'.data, (hother a hne).trans hc'.found, hc'.threadstack⟩
    · intro call' hcall lr' hlr' c' hc'
      have hne : call'.callstack ≠ call.callstack :=
        fun he => hcalls (he ▸ List.mem_map_of_mem hcall)
      exact h.returns call' (List.mem_cons_of_mem _ hcall) lr' hlr' c'
        ((hother _ hne).symm.trans hc')

/-! ## Runs -/

/-- **What a step preserves.** -/
theorem step (htype : entry.hookType = .functionViaPrePost) {s t : Process × List OpenCall}
    (hstep : Step thread entry s t) (h : Inv thread entry.threadLocalKey base s.1 s.2) :
    Inv thread entry.threadLocalKey base t.1 t.2 := by
  cases hstep with
  | interfere hq => exact h.interferes hq
  | @enter p q calls rs callstack answers pre hthread hcall hbegin =>
    obtain ⟨pre', q', he, -, hinv⟩ := h.begin hthread hcall rs
    obtain ⟨rfl, rfl, rfl⟩ : answers.callstack = callstack ∧ pre' = pre ∧ q' = q := by
      simpa using he.symm.trans hbegin
    exact hinv
  | @proceed p q call calls nextHop callerRetAddr hphase hrest =>
    obtain ⟨q', he, hinv⟩ := h.proceed htype hphase nextHop callerRetAddr
    rwa [Option.some_inj.mp (he.symm.trans hrest)] at hinv
  | @leave p q call calls rs lr popped post hphase hend =>
    obtain ⟨post', q', he, -, hinv⟩ := h.leave hphase rs
    obtain ⟨rfl, -, rfl⟩ : call.callstack = popped ∧ post' = post ∧ q' = q := by
      simpa using he.symm.trans hend
    exact hinv
  | @finish p q call calls nextHop lr popped hphase hrest =>
    obtain ⟨q', he, -, hinv⟩ := h.finish hphase nextHop
    rwa [Option.some_inj.mp (he.symm.trans hrest)] at hinv

/-- **What a run preserves.** -/
theorem run (htype : entry.hookType = .functionViaPrePost) {s t : Process × List OpenCall}
    (hrun : Relation.ReflTransGen (Step thread entry) s t)
    (h : Inv thread entry.threadLocalKey base s.1 s.2) :
    Inv thread entry.threadLocalKey base t.1 t.2 := by
  induction hrun with
  | refl => exact h
  | tail _ hstep ih => exact ih.step htype hstep

/-- Without open calls the stack holds what it holds. -/
theorem of_wellFormed (h : p.WellFormed thread keyPtr) :
    Inv thread keyPtr (p.contents thread keyPtr) p [] where
  registered := h.registered
  stack := h.stack
  contents := (List.append_nil _).symm
  nested := .nil
  owns := by
    rw [List.map_nil, List.append_nil]
    exact h.owns
  returns := nofun

end Inv

/-- **Calls and returns match.** In every run of a thread through a hook, from
any stack it may have had for it, with any number of calls open and anything
going on in between: the stack holds what it held before and the call stacks of
the open calls; a call that begins adds its call stack at the end, also if the
array has to grow; the next end pops the call stack of the innermost call and
hands it to `post_call` as its begin handed it to `pre_call`; and it goes on at
the return address its begin has read, with as many call stacks as before. -/
theorem invocations_matched {p₀ : Process} (htype : entry.hookType = .functionViaPrePost)
    (h₀ : p₀.WellFormed thread entry.threadLocalKey)
    (hrun : Relation.ReflTransGen (Step thread entry) (p₀, []) (p, calls)) :
    p.contents thread entry.threadLocalKey
        = p₀.contents thread entry.threadLocalKey ++ (stacked calls).reverse
      ∧ (∀ rs answers, p.Fresh answers.threadstack → p.Fresh answers.callstack →
        ∃ pre q, p.beginInvocation thread entry rs answers = some (answers.callstack, pre, q)
          ∧ (∀ b ∈ pre, b.callstack = answers.callstack)
          ∧ q.contents thread entry.threadLocalKey
            = p.contents thread entry.threadLocalKey ++ [answers.callstack])
      ∧ (∀ call ∈ calls.head?, ∀ lr, call.phase = .body lr → ∀ rs,
        ∃ post q, p.endInvocation thread entry rs = some (call.callstack, post, q)
          ∧ ∀ b ∈ post, ∀ a ∈ call.pre, b.callstack = a.callstack)
      ∧ ∀ call ∈ calls.head?, ∀ lr popped, call.phase = .after lr popped → ∀ nextHop,
        ∃ q, p.endInvocationRest nextHop popped = some q ∧ q.mem.read32 nextHop = lr
          ∧ (q.contents thread entry.threadLocalKey).length = call.size := by
  have h : Inv thread entry.threadLocalKey (p₀.contents thread entry.threadLocalKey) p calls :=
    (Inv.of_wellFormed h₀).run htype hrun
  refine ⟨h.contents, ?_, ?_, ?_⟩
  · intro rs answers hthread hcall
    obtain ⟨pre, q, he, hpre, hinv⟩ := h.begin hthread hcall rs
    refine ⟨pre, q, he, hpre, ?_⟩
    rw [hinv.contents, h.contents]
    exact stacked_cons_of_some rfl
  · rintro call hcall lr hphase rs
    obtain ⟨rest, rfl⟩ := List.head?_eq_some_iff.mp hcall
    obtain ⟨post, q, he, hpost, -⟩ := h.leave hphase rs
    refine ⟨post, q, he, fun b hb a ha => (hpost b hb).trans ?_⟩
    cases h.nested with
    | cons _ _ _ _ hpre _ => exact (hpre a ha).symm
  · rintro call hcall lr popped hphase nextHop
    obtain ⟨rest, rfl⟩ := List.head?_eq_some_iff.mp hcall
    obtain ⟨q, he, hread, hinv⟩ := h.finish hphase nextHop
    refine ⟨q, he, hread, ?_⟩
    rw [hinv.contents]
    cases h.nested with
    | cons _ _ _ hsize _ _ => exact hsize.symm

/-- A hook with a `pre_call` and a `post_call`, under the key 0x50. -/
def prePostEntry : HookFunctionEntry where
  ptr := 0x100#32
  hookType := .functionViaPrePost
  id := 0
  isEnabled := true
  tryNearJump := false
  threadLocalKey := 0x50#32
  targetPtr := 0x8001#32
  nextInsnAddr := 0#32
  preCall := 0x9001#32
  postCall := 0x9101#32
  stubCall := 0#32
  replaceCall := 0#32
  onEnterTransferTrampoline := 0#32
  onEnterTrampoline := 0xA001#32
  onInsnLeaveTrampoline := 0#32
  onInvokeTrampoline := 0xA101#32
  onLeaveTrampoline := 0xA201#32
  onDynamicBinaryInstrumentationTrampoline := 0#32
  originPrologue := ⟨0x8000#32, 0, []⟩
  redirectCodeSize := none

/-- A process in which no hooked function has been called. -/
def freshProcess : Process where
  mem := fun _ => 0x12#8
  threadLocalKeys := [0x50#32]
  specific := fun _ _ => 0#32
  threadStacks := fun _ => none
  callStacks := fun _ => none

/-- A call that has begun, and the end that comes next. -/
theorem invocations_matched_first :
    ∃ p, Relation.ReflTransGen (Step 1#32 prePostEntry) (freshProcess, [])
        (p, [⟨0x2000#32, 0, some ⟨0x9001#32, 0x700#32, 0x1000#32, 0x2000#32, 0, 0x8001#32⟩,
          .body 0x12121212#32⟩])
      ∧ p.contents 1#32 0x50#32 = [0x2000#32]
      ∧ ∃ post q, p.endInvocation 1#32 prePostEntry 0x700#32 = some (0x2000#32, post, q) := by
  have hbegin : Step 1#32 prePostEntry (freshProcess, []) (_, [⟨0x2000#32, 0,
      some ⟨0x9001#32, 0x700#32, 0x1000#32, 0x2000#32, 0, 0x8001#32⟩, .before⟩]) :=
    @Step.enter 1#32 prePostEntry freshProcess _ [] 0x700#32 _
      ⟨0x1000#32, 0x2000#32, fun _ => ⟨0#32, 0#32⟩, fun _ => 0#32⟩ _
      ⟨by decide, rfl, rfl⟩ ⟨by decide, rfl, rfl⟩ rfl
  have hrun := Relation.ReflTransGen.tail (.single hbegin)
    (@Step.proceed 1#32 prePostEntry _ _ _ [] 0x7F0#32 0x7F8#32 rfl rfl)
  have h := invocations_matched rfl (.of_data ⟨by decide, by decide⟩ rfl) hrun
  obtain ⟨post, q, he, -⟩ := h.2.2.1 _ rfl _ rfl 0x700#32
  exact ⟨_, hrun, h.1, post, q, he⟩

end HookZz
