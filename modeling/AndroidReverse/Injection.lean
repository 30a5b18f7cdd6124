import AndroidReverse.RemoteCall

/-!
# Injecting a library into a process

`inject_remote_process` attaches to the target, calls five functions in it and,
at its end, gives the target its registers back and detaches from it. Any step
may fail, and a step that fails goes to the label at the end of the function,
which is behind both: the target stays attached, with whatever registers it has
then (`injectRemoteProcess_restores_iff`). The tool beside it has its label in
front of `ptrace_detach`.

What the system answers to each request is an input of the model, and so is the
target at each stop: between two stops it has run, and may have changed anything.
`ptrace_call` waits in a loop without a bound, which therefore takes fuel; a
result of `none` means that the fuel ran out.
-/

namespace Injection

open Arm RemoteCall

/-- **The target**, as `ptrace` shows it. -/
structure Traced where
  attached : Bool
  regs : PtRegs
  mem : Mem

/-! ## One call -/

/-- **What comes of one remote call**: the answers to the requests that are made
for it, in their order. -/
structure CallOutcome where
  /-- The memory after the words have been written, or some of them. -/
  poked : Mem → Mem
  /-- Whether the registers can be set. -/
  setregs : Bool
  /-- Whether the target can be resumed. -/
  continued : Bool
  /-- What `waitpid` reports of each stop. -/
  stat : ℕ → ℕ
  /-- The registers and the memory of the target at each stop. -/
  stopped : ℕ → PtRegs × Mem
  /-- Whether it can be resumed after the stop. -/
  resumed : ℕ → Bool
  /-- Whether the registers can be read in the end. -/
  getregs : Bool

/-- The loop of `ptrace_call`, from a stop on: the target has returned when it
stops at the address 0, with the status `0xb7f`. -/
def waitLoop (o : CallOutcome) : ℕ → ℕ → Traced → Option (Bool × Traced)
  | 0, _, _ => none
  | fuel + 1, n, t =>
    let t := { t with regs := (o.stopped n).1, mem := (o.stopped n).2 }
    if o.stat n = 0xb7f then some (true, t)
    else if !o.resumed n then some (false, t)
    else waitLoop o fuel (n + 1) t

/-- `ptrace_call`: whether it succeeds, and `*regs`. -/
def ptraceCall (fuel : ℕ) (o : CallOutcome) (addr : Word) (params : Params) (regs : PtRegs)
    (t : Traced) : Option (Bool × PtRegs × Traced) :=
  let called := Inject.ptraceCall params addr ⟨regs, t.mem⟩
  let t := { t with mem := o.poked called.mem }
  if !o.setregs then some (false, called.regs, t)
  else
    let t := { t with regs := called.regs }
    if !o.continued then some (false, called.regs, t)
    else (waitLoop o fuel 0 t).map fun r => (r.1, called.regs, r.2)

/-- `ptrace_call_wrapper`. -/
def ptraceCallWrapper (fuel : ℕ) (o : CallOutcome) (funcAddr : Word) (parameters : Params)
    (regs : PtRegs) (t : Traced) : Option (Bool × PtRegs × Traced) :=
  (ptraceCall fuel o funcAddr parameters regs t).map fun r =>
    if !r.1 then (false, r.2.1, r.2.2)
    else if !o.getregs then (false, r.2.1, r.2.2)
    else (true, r.2.2.regs, r.2.2)

/-! ## The injection -/

/-- **What comes of the steps** of the injection. -/
structure Outcomes where
  attach : Bool
  getregs : Bool
  mmap : CallOutcome
  dlopen : CallOutcome
  dlsym : CallOutcome
  hookEntry : CallOutcome
  dlclose : CallOutcome
  /-- The memory after each of the strings has been written, or some of it. -/
  poked : ℕ → Mem → Mem
  setregs : Bool
  detach : Bool

/-- The addresses of the functions: what `get_remote_addr` makes of them, and
`dlclose` as it is in the tool. -/
structure Imports where
  mmapAddr : Word
  dlopenAddr : Word
  dlsymAddr : Word
  dlclose : Word

/-- The strings. -/
structure Strings where
  libraryPath : List Byte
  functionName : List Byte
  param : List Byte

/-- `ptrace_writedata` of a string and its terminator. -/
def writeString (s : List Byte) (dest : Word) (poked : Mem → Mem) (t : Traced) : Traced :=
  { t with mem := poked (ptraceWritedata t.mem dest (fun k => s.getD k 0#8) (s.length + 1)) }

/-- A remote call, and `goto exit` if it fails. -/
def callOrExit (fuel : ℕ) (o : CallOutcome) (funcAddr : Word) (parameters : Params)
    (regs : PtRegs) (t : Traced) (next : PtRegs → Traced → Option (ℤ × Traced)) :
    Option (ℤ × Traced) :=
  match ptraceCallWrapper fuel o funcAddr parameters regs t with
  | none => none
  | some (false, _, t) => some (-1, t)
  | some (true, regs, t) => next regs t

/-- The two requests at the end, the answers to which are not looked at. -/
def restore (o : Outcomes) (originalRegs : PtRegs) (t : Traced) : Traced :=
  let t := if o.setregs then { t with regs := originalRegs } else t
  if o.detach then { t with attached := false } else t

/-- `inject_remote_process`. -/
def injectRemoteProcess (fuel : ℕ) (o : Outcomes) (imports : Imports) (strings : Strings)
    (t : Traced) : Option (ℤ × Traced) :=
  if !o.attach then some (-1, t)
  else
    let t := { t with attached := true }
    if !o.getregs then some (-1, t)
    else
      let originalRegs := t.regs
      callOrExit fuel o.mmap imports.mmapAddr
          ⟨[0#32, 0x1000#32, 7#32, 0x22#32, 0#32, 0#32], by simp⟩
        t.regs t fun regs t =>
      let mapBase := regs 0
      let t := writeString strings.libraryPath mapBase (o.poked 0) t
      callOrExit fuel o.dlopen imports.dlopenAddr ⟨[mapBase, 2#32], by simp⟩ regs t fun regs t =>
      let sohandle := regs 0
      let t := writeString strings.functionName (mapBase + 0x100#32) (o.poked 1) t
      callOrExit fuel o.dlsym imports.dlsymAddr ⟨[sohandle, mapBase + 0x100#32], by simp⟩ regs t
        fun regs t =>
      let hookEntryAddr := regs 0
      let t := writeString strings.param (mapBase + 0x200#32) (o.poked 2) t
      callOrExit fuel o.hookEntry hookEntryAddr ⟨[mapBase + 0x200#32], by simp⟩ regs t fun regs t =>
      callOrExit fuel o.dlclose imports.dlclose ⟨[sohandle], by simp⟩ regs t fun _ t =>
      some (if 0 < hookEntryAddr.toNat then 1 else -1, restore o originalRegs t)

/-! ## What comes of one call -/

namespace CallOutcome

/-- The target returns at a stop: the first with the status that is waited for,
after stops that it could be resumed from. -/
def ReturnsAt (o : CallOutcome) (n : ℕ) : Prop :=
  o.stat n = 0xb7f ∧ ∀ m < n, o.stat m ≠ 0xb7f ∧ o.resumed m = true

/-- **Every step of a call succeeds.** -/
structure Succeeds (o : CallOutcome) : Prop where
  setregs : o.setregs = true
  continued : o.continued = true
  returns : ∃ n, o.ReturnsAt n
  getregs : o.getregs = true

end CallOutcome

section Call

variable {o : CallOutcome} {fuel : ℕ} {addr : Word} {params : Params} {regs : PtRegs} {t : Traced}

theorem returnsAt_unique {n k : ℕ} (hn : o.ReturnsAt n) (hk : o.ReturnsAt k) : n = k := by
  rcases Nat.lt_trichotomy n k with h | h | h
  · exact absurd hn.1 (hk.2 n h).1
  · exact h
  · exact absurd hk.1 (hn.2 k h).1

/-- The target at a stop. -/
def stoppedAt (o : CallOutcome) (n : ℕ) (t : Traced) : Traced :=
  { t with regs := (o.stopped n).1, mem := (o.stopped n).2 }

/-- **The loop ends where the target returns**, or where it cannot be resumed. -/
theorem waitLoop_cases {n : ℕ} {t : Traced} {r : Bool × Traced}
    (hn : ∀ m < n, o.stat m ≠ 0xb7f ∧ o.resumed m = true) (h : waitLoop o fuel n t = some r) :
    (r.1 = true ∧ ∃ k, o.ReturnsAt k ∧ r.2 = stoppedAt o k t)
      ∨ (r.1 = false ∧ (¬ ∃ k, o.ReturnsAt k) ∧ r.2.attached = t.attached) := by
  induction fuel generalizing n t with
  | zero => cases h
  | succ fuel ih =>
    rw [waitLoop] at h
    split_ifs at h with hstat hres
    · obtain rfl := Option.some_inj.mp h
      exact .inl ⟨rfl, n, ⟨hstat, hn⟩, rfl⟩
    · obtain rfl := Option.some_inj.mp h
      refine .inr ⟨rfl, fun ⟨k, hk⟩ => ?_, rfl⟩
      -- a stop further on would need this one to be resumed
      rcases Nat.lt_trichotomy k n with hlt | rfl | hlt
      · exact (hn k hlt).1 hk.1
      · exact hstat hk.1
      · have := (hk.2 n hlt).2
        rw [this] at hres
        exact absurd hres Bool.false_ne_true
    · have hn' : ∀ m < n + 1, o.stat m ≠ 0xb7f ∧ o.resumed m = true := by
        intro m hm
        rcases Nat.lt_succ_iff_lt_or_eq.mp hm with hlt | rfl
        · exact hn m hlt
        · exact ⟨hstat, by simpa using hres⟩
      rcases ih hn' h with ⟨hok, k, hk, hr⟩ | hfail
      · exact .inl ⟨hok, k, hk, hr⟩
      · exact .inr hfail

/-- What `ptrace_call_wrapper` does. -/
theorem ptraceCallWrapper_cases {r : Bool × PtRegs × Traced}
    (h : ptraceCallWrapper fuel o addr params regs t = some r) :
    (r.1 = true ∧ ∃ n, o.Succeeds ∧ o.ReturnsAt n ∧ r.2 = ((o.stopped n).1, stoppedAt o n t))
      ∨ (r.1 = false ∧ ¬ o.Succeeds ∧ r.2.2.attached = t.attached) := by
  obtain ⟨call, hcall, rfl⟩ := Option.map_eq_some_iff.mp h
  unfold ptraceCall at hcall
  split_ifs at hcall with hset hcont
  · obtain rfl := Option.some_inj.mp hcall
    refine .inr ⟨rfl, fun hs => ?_, rfl⟩
    rw [hs.setregs] at hset
    exact absurd hset Bool.false_ne_true
  · obtain rfl := Option.some_inj.mp hcall
    refine .inr ⟨rfl, fun hs => ?_, rfl⟩
    rw [hs.continued] at hcont
    exact absurd hcont Bool.false_ne_true
  · obtain ⟨w, hw, rfl⟩ := Option.map_eq_some_iff.mp hcall
    rcases waitLoop_cases (fun m hm => absurd hm (Nat.not_lt_zero m)) hw with
      ⟨hok, n, hn, hstop⟩ | ⟨hok, hnone, hatt⟩
    · simp only [hok, hstop]
      by_cases hget : o.getregs = true
      · refine .inl ⟨by rw [hget]; rfl, n,
          ⟨by simpa using hset, by simpa using hcont, ⟨n, hn⟩, hget⟩, hn, ?_⟩
        rw [hget]
        rfl
      · rw [Bool.not_eq_true] at hget
        refine .inr ⟨by rw [hget]; rfl, fun hs => ?_, by rw [hget]; rfl⟩
        rw [hs.getregs] at hget
        exact absurd hget.symm Bool.false_ne_true
    · simp only [hok]
      exact .inr ⟨rfl, fun hs => hnone hs.returns, hatt⟩

/-- **What a call does**: it succeeds, and goes on from where the target has
returned, or exits with the target attached as it was. -/
theorem callOrExit_cases {next : PtRegs → Traced → Option (ℤ × Traced)} {r : ℤ × Traced}
    (h : callOrExit fuel o addr params regs t next = some r) :
    (∃ n, o.Succeeds ∧ o.ReturnsAt n ∧ next (o.stopped n).1 (stoppedAt o n t) = some r)
      ∨ (¬ o.Succeeds ∧ r.2.attached = t.attached) := by
  unfold callOrExit at h
  cases hw : ptraceCallWrapper fuel o addr params regs t with
  | none =>
    rw [hw] at h
    cases h
  | some w =>
    obtain ⟨ok, regs', t'⟩ := w
    rw [hw] at h
    rcases ptraceCallWrapper_cases hw with ⟨hok, n, hs, hn, heq⟩ | ⟨hok, hs, hatt⟩
    · obtain rfl : ok = true := hok
      obtain ⟨rfl, rfl⟩ := Prod.mk.inj heq
      exact .inl ⟨n, hs, hn, h⟩
    · obtain rfl : ok = false := hok
      obtain rfl := Option.some_inj.mp h
      exact .inr ⟨hs, hatt⟩

end Call

/-! ## What comes of the injection -/

/-- **Every step succeeds** that the target needs to be given back: the registers
can be read, the calls return, and in the end the target can be detached from and
its registers set, or they are what they were. -/
structure Outcomes.AllSucceed (o : Outcomes) (originalRegs : PtRegs) : Prop where
  getregs : o.getregs = true
  mmap : o.mmap.Succeeds
  dlopen : o.dlopen.Succeeds
  dlsym : o.dlsym.Succeeds
  hookEntry : o.hookEntry.Succeeds
  dlclose : o.dlclose.Succeeds
  setregs : o.setregs = true ∨ ∃ n, o.dlclose.ReturnsAt n ∧ (o.dlclose.stopped n).1 = originalRegs
  detach : o.detach = true

section Injection

theorem restore_attached (o : Outcomes) (originalRegs : PtRegs) (t : Traced) :
    (restore o originalRegs t).attached = (t.attached && !o.detach) := by
  unfold restore
  cases o.setregs <;> cases o.detach <;> simp

theorem restore_regs (o : Outcomes) (originalRegs : PtRegs) (t : Traced) :
    (restore o originalRegs t).regs = if o.setregs then originalRegs else t.regs := by
  unfold restore
  cases o.setregs <;> cases o.detach <;> rfl

/-- **The end of the injection**, where `dlclose` has returned. -/
theorem restore_iff {o : Outcomes} {t : Traced} {n : ℕ} (ht : t.attached = true)
    (hn : o.dlclose.ReturnsAt n) (originalRegs : PtRegs) :
    ((restore o originalRegs (stoppedAt o.dlclose n t)).attached = false
        ∧ (restore o originalRegs (stoppedAt o.dlclose n t)).regs = originalRegs)
      ↔ (o.setregs = true ∨ ∃ n, o.dlclose.ReturnsAt n ∧ (o.dlclose.stopped n).1 = originalRegs)
        ∧ o.detach = true := by
  rw [restore_attached, restore_regs, and_comm]
  refine and_congr ?_ ?_
  · by_cases hset : o.setregs = true
    · rw [if_pos hset]
      exact iff_of_true rfl (.inl hset)
    · rw [if_neg hset]
      refine ⟨fun h => .inr ⟨n, hn, h⟩, fun h => ?_⟩
      obtain ⟨k, hk, h⟩ := h.resolve_left hset
      rwa [← returnsAt_unique hn hk] at h
  · show (t.attached && !o.detach) = false ↔ _
    rw [ht, Bool.true_and]
    cases o.detach <;> decide

variable {fuel : ℕ} {o : Outcomes} {imports : Imports} {strings : Strings} {t : Traced}

/-- **When the target is given back**: an injection that has attached to it and
returns has detached from it and restored its registers exactly if every step
succeeds. -/
theorem injectRemoteProcess_restores_iff {r : ℤ × Traced} (hattach : o.attach = true)
    (h : injectRemoteProcess fuel o imports strings t = some r) :
    (r.2.attached = false ∧ r.2.regs = t.regs) ↔ o.AllSucceed t.regs := by
  have hexit : ∀ {t' : Traced}, t'.attached = true → r.2.attached = t'.attached →
      ¬ o.AllSucceed t.regs →
      ((r.2.attached = false ∧ r.2.regs = t.regs) ↔ o.AllSucceed t.regs) := by
    intro t' ht hr hn
    refine iff_of_false (fun hback => ?_) hn
    rw [hback.1, ht] at hr
    exact absurd hr Bool.false_ne_true
  unfold injectRemoteProcess at h
  rw [hattach] at h
  simp only [Bool.not_true, Bool.false_eq_true, if_false] at h
  by_cases hget : o.getregs = true
  case neg =>
    rw [Bool.not_eq_true] at hget
    rw [hget] at h
    obtain rfl := Option.some_inj.mp h
    exact hexit rfl rfl fun hs => Bool.false_ne_true (hget.symm.trans hs.getregs)
  rw [hget] at h
  simp only [Bool.not_true, Bool.false_eq_true, if_false] at h
  rcases callOrExit_cases h with ⟨n₁, hmmap, -, h⟩ | ⟨hmmap, hatt⟩
  case inr => exact hexit rfl hatt fun hs => hmmap hs.mmap
  rcases callOrExit_cases h with ⟨n₂, hdlopen, -, h⟩ | ⟨hdlopen, hatt⟩
  case inr => exact hexit rfl hatt fun hs => hdlopen hs.dlopen
  rcases callOrExit_cases h with ⟨n₃, hdlsym, -, h⟩ | ⟨hdlsym, hatt⟩
  case inr => exact hexit rfl hatt fun hs => hdlsym hs.dlsym
  rcases callOrExit_cases h with ⟨n₄, hhook, -, h⟩ | ⟨hhook, hatt⟩
  case inr => exact hexit rfl hatt fun hs => hhook hs.hookEntry
  rcases callOrExit_cases h with ⟨n₅, hclose, hn, h⟩ | ⟨hclose, hatt⟩
  case inr => exact hexit rfl hatt fun hs => hclose hs.dlclose
  obtain rfl := Option.some_inj.mp h
  refine (restore_iff rfl hn t.regs).trans ⟨fun hend => ?_, fun hs => ⟨hs.setregs, hs.detach⟩⟩
  exact ⟨hget, hmmap, hdlopen, hdlsym, hhook, hclose, hend.1, hend.2⟩

/-- A call that returns at once, if the registers can be set for it. -/
def sampleCall (setregs : Bool) : CallOutcome where
  poked := id
  setregs := setregs
  continued := true
  stat := fun _ => 0xb7f
  stopped := fun _ => (fun _ => 0#32, fun _ => 0#8)
  resumed := fun _ => true
  getregs := true

/-- An injection that `dlopen` can fail in. -/
def sampleOutcomes (dlopen : Bool) : Outcomes where
  attach := true
  getregs := true
  mmap := sampleCall true
  dlopen := sampleCall dlopen
  dlsym := sampleCall true
  hookEntry := sampleCall true
  dlclose := sampleCall true
  poked := fun _ => id
  setregs := true
  detach := true

/-- A target that is about to be attached to. -/
def sampleTraced : Traced := ⟨false, fun _ => 1#32, fun _ => 0#8⟩

theorem sampleCall_succeeds : (sampleCall true).Succeeds :=
  ⟨rfl, rfl, ⟨0, rfl, fun m hm => absurd hm (Nat.not_lt_zero m)⟩, rfl⟩

/-- Where nothing fails, the target is given back. -/
theorem injectRemoteProcess_restores :
    ∃ r, injectRemoteProcess 1 (sampleOutcomes true) ⟨0#32, 0#32, 0#32, 0#32⟩
        ⟨[], [], []⟩ sampleTraced
        = some r
      ∧ r.2.attached = false ∧ r.2.regs = sampleTraced.regs :=
  ⟨_, rfl, (@injectRemoteProcess_restores_iff 1 (sampleOutcomes true) ⟨0#32, 0#32, 0#32, 0#32⟩
    ⟨[], [], []⟩ sampleTraced _ rfl rfl).mpr
      ⟨rfl, sampleCall_succeeds, sampleCall_succeeds, sampleCall_succeeds, sampleCall_succeeds,
        sampleCall_succeeds, .inl rfl, rfl⟩⟩

/-- **Where `dlopen` cannot be called**, the target stays attached. -/
theorem injectRemoteProcess_leaves :
    (sampleOutcomes false).attach = true
      ∧ ∃ r, injectRemoteProcess 1 (sampleOutcomes false) ⟨0#32, 0#32, 0#32, 0#32⟩ ⟨[], [], []⟩
          sampleTraced = some r
        ∧ ¬ (r.2.attached = false ∧ r.2.regs = sampleTraced.regs) :=
  ⟨rfl, _, rfl, fun h => Bool.noConfusion h.1⟩

end Injection

end Injection
