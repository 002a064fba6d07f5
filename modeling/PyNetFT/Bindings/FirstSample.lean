/-
PyNetFT.Bindings.FirstSample — `NativeClient::wait_for_first_sample`
(`bindings/python/native_client.cpp`).

The call captures the queue's generation and then waits in slices of
`kReadSlice`. A slice looks at `running_`, at the fault latch and at the
generation one at a time, asks the core's own `wait_for_first_sample`,
which captures a number of its own, and looks at the generation again
before it believes the answer.

The waiters stand beside the native client of `NativeClient`, unchanged;
the core call of the waiter `n` is `waitId n`.
-/
import PyNetFT.Bindings.Isolation
import PyNetFT.Bindings.Running
import PyNetFT.Core.FirstSample

namespace PyNetFT.Bindings

open PyNetFT.Lib PyNetFT.Core

/-! ## The call -/

/-- The locals of `wait_for_first_sample`; the timeout is in seconds. -/
structure Waiting where
  timeout : ℚ
  generation : Nat
  startedAt : TimePoint
  deriving DecidableEq

/-- Seconds since the wait was entered. -/
def Waiting.elapsed (w : Waiting) (now : TimePoint) : ℚ :=
  ((now : ℚ) - w.startedAt) / ticksPerSecond

/-- The `wait_duration` of one slice. -/
def Waiting.waitDuration (w : Waiting) (now : TimePoint) : ℚ :=
  min readSliceSeconds (max 0 (w.timeout - w.elapsed now))

inductive WaitResult where
  | seen (waiting : Waiting) (answer : Bool)
  | threw (message : String)
  deriving DecidableEq

inductive WaitPc where
  | enter (timeout : Binary64)
  | capture (timeout : ℚ)
  | clock (timeout : ℚ) (generation : Nat)
  | checkRunning (waiting : Waiting)
  | checkFault (waiting : Waiting)
  | checkGeneration (waiting : Waiting)
  | slice (waiting : Waiting)
  | call (waiting : Waiting) (duration : ℚ)
  | await (waiting : Waiting)
  | recheck (waiting : Waiting) (received : Bool)
  | checkTime (waiting : Waiting)
  | returned (result : WaitResult)
  deriving DecidableEq

/-- The core call of the waiter `n`. -/
def waitId (n : Nat) : Nat := 4 * n + 1

/-- The steps of `NativeClient::wait_for_first_sample`. -/
def waitStep (P : Platform) (config : Config) (n : Nat) (s : Native) :
    WaitPc → Option (WaitPc × Native)
  | .enter timeout =>
      match requireRepresentableTimeout timeout "timeout" with
      | .error message => some (.returned (.threw message), s)
      | .ok _ => some (.capture timeout.value, s)
  | .capture timeout => some (.clock timeout s.queue.closeGeneration, s)
  | .clock timeout generation =>
      some (.checkRunning ⟨timeout, generation, s.core.shared.clock⟩, s)
  | .checkRunning w => some (if s.running then .checkFault w else .returned (.seen w false), s)
  | .checkFault w =>
      some (if s.core.shared.faulted then .returned (.seen w false) else .checkGeneration w, s)
  | .checkGeneration w =>
      some (if s.queue.closeGeneration ≠ w.generation then .returned (.seen w false)
        else .slice w, s)
  | .slice w => some (.call w (w.waitDuration s.core.shared.clock), s)
  | .call w duration =>
      (s.coreStep P config
        (.invoke (waitId n) none (.waitForFirstSample (.finite duration)))).map fun u =>
          (.await w, u)
  | .await w =>
      match s.core.calls (waitId n) with
      | some ⟨_, _, .returned (.seen received)⟩ =>
          (s.coreStep P config (.collect (waitId n))).map fun u => (.recheck w received, u)
      | some ⟨_, _, .returned (.threw message)⟩ =>
          (s.coreStep P config (.collect (waitId n))).map fun u =>
            (.returned (.threw message), u)
      | _ => none
  | .recheck w received =>
      some (if s.queue.closeGeneration ≠ w.generation then .returned (.seen w false)
        else if received then .returned (.seen w true)
        else .checkTime w, s)
  | .checkTime w =>
      some (if w.timeout ≤ w.elapsed s.core.shared.clock then .returned (.seen w false)
        else .checkRunning w, s)
  | .returned _ => none

/-! ## The system -/

/-- A call with its argument; `enteredAt` is a ghost. -/
structure WaitCall where
  timeout : Binary64
  enteredAt : TimePoint
  pc : WaitPc
  deriving DecidableEq

structure Waiters where
  native : Native
  waits : Nat → Option WaitCall := fun _ => none

def Waiters.setWait (s : Waiters) (n : Nat) (call : Option WaitCall) : Waiters :=
  { s with waits := Function.update s.waits n call }

/-- The core calls kept for the waiters. -/
def NativeLabel.reserved : NativeLabel → Bool
  | .core (.invoke c _ _) | .core (.collect c) => decide (c % 4 = 1)
  | _ => false

inductive WaitLabel where
  | native (l : NativeLabel)
  | invoke (n : Nat) (timeout : Binary64)
  | wait (n : Nat)
  | collect (n : Nat)
  deriving DecidableEq

def Waiters.step (P : Platform) (config : Config) (s : Waiters) : WaitLabel → Option Waiters
  | .native l =>
      if l.reserved then none
      else (s.native.step P config l).map fun u => { s with native := u }
  | .invoke n timeout =>
      if (s.waits n).isSome then none
      else some (s.setWait n (some ⟨timeout, s.native.core.shared.clock, .enter timeout⟩))
  | .wait n =>
      match s.waits n with
      | none => none
      | some call =>
          (waitStep P config n s.native call.pc).map fun r =>
            ({ s with native := r.2 } : Waiters).setWait n (some { call with pc := r.1 })
  | .collect n =>
      match s.waits n with
      | some ⟨_, _, .returned _⟩ => some (s.setWait n none)
      | _ => none

section Simulation

variable {P : Platform} {config : Config} {n : Nat} {s s' : Native} {pc pc' : WaitPc}

/-- A step of a waiter leaves the native client alone, or makes or takes
off its core call. -/
theorem waitStep_native (h : waitStep P config n s pc = some (pc', s')) :
    s' = s ∨ s.coreStep P config (.collect (waitId n)) = some s' ∨
      ∃ w duration, pc = .call w duration ∧ pc' = .await w ∧ s.coreStep P config
        (.invoke (waitId n) none (.waitForFirstSample (.finite duration))) = some s' := by
  cases pc <;> dsimp only [waitStep] at h
  case call w duration =>
    obtain ⟨u, hu, heq⟩ := Option.map_eq_some_iff.mp h
    cases heq
    exact .inr (.inr ⟨w, duration, rfl, rfl, hu⟩)
  case await w =>
    split at h
    · obtain ⟨u, hu, heq⟩ := Option.map_eq_some_iff.mp h
      cases heq
      exact .inr (.inl hu)
    · obtain ⟨u, hu, heq⟩ := Option.map_eq_some_iff.mp h
      cases heq
      exact .inr (.inl hu)
    · cases h
  all_goals (repeat' split at h) <;> cases h <;> exact .inl rfl

end Simulation

/-! ## What the core has delivered in a run -/

section Seen

variable {P : Platform} {config : Config} {s s' : Native} {n : Nat}

/-- What a step does to the identity of the run: a new one begins on a
closed queue only. -/
structure Native.SameRun (s s' : Native) : Prop where
  generation : s'.run.generation = s.run.generation
  worker : s'.run.worker = s.run.worker
  before : s'.run.deliveredBefore = s.run.deliveredBefore

theorem Native.callback_sameRun (s : Native) (w : Nat) (choice : WorkerChoice) :
    s.SameRun (s.callback w choice) := by
  unfold Native.callback
  split
  · split <;> exact ⟨rfl, rfl, rfl⟩
  · exact ⟨rfl, rfl, rfl⟩

theorem Native.coreStep_sameRun {l : Label} (h : s.coreStep P config l = some s') :
    s.SameRun s' := by
  obtain ⟨-, hqueue, -⟩ := Native.coreStep_cases h
  rcases hqueue with ⟨-, hs'⟩ | ⟨w, choice, -, hs'⟩
  · rw [hs']
    exact ⟨rfl, rfl, rfl⟩
  · have hsame := s.callback_sameRun w choice
    rw [hs']
    exact ⟨hsame.generation, hsame.worker, hsame.before⟩

theorem NativeMove.sameRun {pc pc' : NativePc} (h : NativeMove n s pc pc' s') :
    s.SameRun s' ∧ s.queue.closeGeneration ≤ s'.queue.closeGeneration ∨
      pc = .startReset ∧ s' = s.resetQueue := by
  cases h with
  | reset => exact .inr ⟨rfl, rfl⟩
  | take _ _ _ same => exact .inl ⟨⟨rfl, rfl, rfl⟩, same.2.1.ge⟩
  | close | unwind => exact .inl ⟨⟨rfl, rfl, rfl⟩, Nat.le_succ _⟩
  | _ => exact .inl ⟨⟨rfl, rfl, rfl⟩, Nat.le_refl _⟩

/-- The same for a step of the native client. -/
theorem Native.step_run (hrun : s.RunWf) {l : NativeLabel} (hstep : s.step P config l = some s') :
    s.queue.closeGeneration ≤ s'.queue.closeGeneration ∧
      (s.SameRun s' ∨ s.queue.isClosed = true ∧ s'.core.created = s'.run.worker ∧
        s'.run.deliveredBefore = s'.core.shared.health.deliveredCount) := by
  cases Native.step_move hstep with
  | core step =>
    exact ⟨(Native.coreStep_control step).generation.ge, .inl (Native.coreStep_sameRun step)⟩
  | invoke => exact ⟨Nat.le_refl _, .inl ⟨rfl, rfl, rfl⟩⟩
  | @call n call pc' u present move =>
    rcases move.sameRun with ⟨hsame, hle⟩ | ⟨hpc, rfl⟩
    · exact ⟨hle, .inl ⟨hsame.generation, hsame.worker, hsame.before⟩⟩
    · have hplace := hrun.places n call present
      rw [hpc] at hplace
      exact ⟨Nat.le_refl _, .inr ⟨hplace.2, rfl, rfl⟩⟩
  | collect => exact ⟨Nat.le_refl _, .inl ⟨rfl, rfl, rfl⟩⟩

/-- A run begins with the `reset` of a native `start`. -/
theorem Native.step_resets {l : NativeLabel} (h : s.step P config l = some s') :
    s.SameRun s' ∨ ∃ n call, l = .call n ∧ s.calls n = some call ∧ call.pc = .startReset ∧
      s'.run.generation = s.queue.closeGeneration := by
  cases Native.step_move h with
  | core step => exact .inl (Native.coreStep_sameRun step)
  | invoke => exact .inl ⟨rfl, rfl, rfl⟩
  | @call n call pc' u present move =>
    rcases move.sameRun with ⟨hsame, -⟩ | ⟨hpc, rfl⟩
    · exact .inl ⟨hsame.generation, hsame.worker, hsame.before⟩
    · exact .inr ⟨n, call, rfl, present, hpc, rfl⟩
  | collect => exact .inl ⟨rfl, rfl, rfl⟩

/-- What `delivered_generation_` of the core says about the run once it
has its thread: when it is the current number, the core has counted a
delivery since the run began. -/
structure Native.SeenWf (s : Native) : Prop where
  before : s.run.deliveredBefore ≤ s.core.shared.health.deliveredCount
  seen : s.core.created = s.run.worker + 1 → 0 < s.core.shared.generation →
    s.core.shared.deliveredGeneration = s.core.shared.generation →
    s.run.deliveredBefore < s.core.shared.health.deliveredCount

/-- What a step of the core does to the numbers of the run. -/
inductive NumbersMove (core core' : Sys) : Prop where
  | keep (generation : core'.shared.generation = core.shared.generation)
      (delivered : core'.shared.deliveredGeneration = core.shared.deliveredGeneration)
      (count : core.shared.health.deliveredCount ≤ core'.shared.health.deliveredCount)
  | deliver (count : core'.shared.health.deliveredCount = core.shared.health.deliveredCount + 1)
  | restart {c : Nat} {call : Call} (present : core.calls c = some call)
      (starting : call.pc.part = .start)
      (created : core'.created = core.created)
      (count : core'.shared.health.deliveredCount = core.shared.health.deliveredCount)

theorem Core.numbers_move {core core' : Sys} (hhand : core.HandWf) (hwf : core.Wf) {l : Label}
    (hstep : core.step P config l = some core') : NumbersMove core core' := by
  have hcount : core.shared.health.deliveredCount ≤ core'.shared.health.deliveredCount := by
    rcases Sys.step_hands hhand hwf hstep with ⟨-, hsame, -⟩ | ⟨w, choice, -, -, -, -, hmove⟩
    · exact hsame.ge
    · generalize core.handover w = before at hmove
      generalize core'.handover w = after at hmove
      cases hmove with
      | other kept => exact kept.count.ge
      | offer _ _ count => exact count.ge
      | skip _ _ kept => exact kept.count.ge
      | accept _ _ kept => exact kept.count.ge
      | refuse _ _ _ kept => exact kept.count.ge
      | deliver _ _ count => omega
  cases Sys.step_move hstep with
  | tick => exact .keep rfl rfl hcount
  | places label places => exact .keep (by rw [places.shared]) (by rw [places.shared]) hcount
  | @call c call pc' u choice present step move =>
    have hbooks := move.books
    by_cases hres : call.pc.writes core.shared = core.shared.books
    · rw [hres] at hbooks
      exact .keep (congrArg RunBooks.generation hbooks)
        (congrArg RunBooks.deliveredGeneration hbooks) hcount
    · have hhands := (move.hands hhand present).1
      obtain ⟨caller, op, pc⟩ := call
      dsimp only at move hres
      cases move with
      | reset => exact .restart present rfl rfl hhands
      | restoreData => exact .restart present rfl rfl hhands
      | wait before => exact absurd (CallPc.writes_of_not_resets before.2 _) hres
      | take _ _ before => exact absurd (CallPc.writes_of_not_resets before.2 _) hres
      | save _ _ _ before => rcases before with rfl | rfl <;> exact absurd rfl hres
      | _ => exact absurd rfl hres
  | @worker w t t' shared' choice ht step move =>
    have hbooks := workerStep_books step
    have hgeneration : shared'.generation = core.shared.generation :=
      (congrArg RunBooks.generation hbooks).trans (WorkerPc.writes_generation _ _)
    by_cases hdel : ∃ rx outcome sample, t.pc = .delivered rx outcome sample
    · obtain ⟨rx, outcome, sample, hpc⟩ := hdel
      have hhands := workerStep_hands step
      rw [hpc] at hhands
      generalize t'.pc.handover = after at hhands
      cases hhands with
      | deliver _ _ count => exact .deliver count
    · refine .keep hgeneration ?_ hcount
      refine (congrArg RunBooks.deliveredGeneration hbooks).trans ?_
      exact WorkerPc.writes_deliveredGeneration
        (fun rx outcome sample hpc => hdel ⟨rx, outcome, sample, hpc⟩) _

theorem Native.SeenWf.core (h : s.SeenWf) (hcalls : s.CallsWf) (hrun : s.RunWf)
    (hok : Core.CoreOk s.core) (hhand : s.core.HandWf) (hbegun : s.core.BegunWf) {l : Label}
    (hstep : s.coreStep P config l = some s') : s'.SeenWf := by
  have hcore := (Native.coreStep_cases hstep).1
  obtain ⟨-, hworker, hbefore⟩ := Native.coreStep_sameRun hstep
  have hle := h.before
  constructor
  · rw [hbefore]
    cases Core.numbers_move hhand hok.wf hcore with
    | keep _ _ count => exact hle.trans count
    | deliver count => omega
    | restart _ _ _ count => omega
  · rw [hbefore, hworker]
    intro hthread hpos hseen
    cases Core.numbers_move hhand hok.wf hcore with
    | keep hgeneration hdelivered count =>
      rw [hgeneration] at hpos hseen
      rw [hdelivered] at hseen
      rcases hcalls.created hcore with hsame | ⟨m, mc, call, -, -, hc, harmed, -⟩
      · exact Nat.lt_of_lt_of_le (h.seen (hsame ▸ hthread) hpos hseen) count
      · -- the new thread's run has delivered nothing
        have hnothing : ∃ d, call.pc.began? = some d := by
          cases hpc : call.pc <;> rw [hpc] at harmed <;> first | exact ⟨_, rfl⟩ | cases harmed
        obtain ⟨d, hd⟩ := hnothing
        have hzero := hbegun.nothing _ call d hc hd
        omega
    | deliver count => omega
    | restart present starting created count =>
      obtain ⟨m, mc, rfl, hm, hmpc⟩ := hcalls.starting present starting
      have hplace := hrun.places m mc hm
      rw [hmpc] at hplace
      rcases hplace with hfresh | ⟨call', hc', hdone⟩
      · omega
      · rw [present] at hc'
        cases hc'
        rw [hdone] at starting
        cases starting

theorem Native.SeenWf.step (h : s.SeenWf) (hcalls : s.CallsWf) (hrun : s.RunWf)
    (hok : Core.CoreOk s.core) (hhand : s.core.HandWf) (hbegun : s.core.BegunWf)
    {l : NativeLabel} (hstep : s.step P config l = some s') : s'.SeenWf := by
  cases Native.step_move hstep with
  | core step => exact h.core hcalls hrun hok hhand hbegun step
  | invoke => exact ⟨h.before, h.seen⟩
  | @call n call pc' u present move =>
    have hshared : u.core.shared = s.core.shared := by
      rcases move.core with hsame | ⟨op, hinvoke⟩ | hcollect
      · rw [hsame]
      · rw [(invoke_outside hinvoke).2]
        rfl
      · rw [collect_outside (fun c hc => (hcalls.waits n c hc).1) hcollect]
        rfl
    have hcreated := (hcalls.threads move).2
    rcases move.sameRun with ⟨hsame, -⟩ | ⟨-, rfl⟩
    · constructor
      · show u.run.deliveredBefore ≤ u.core.shared.health.deliveredCount
        rw [hsame.before, hshared]
        exact h.before
      · show u.core.created = u.run.worker + 1 → 0 < u.core.shared.generation →
          u.core.shared.deliveredGeneration = u.core.shared.generation →
          u.run.deliveredBefore < u.core.shared.health.deliveredCount
        rw [hsame.before, hsame.worker, hshared, hcreated]
        exact h.seen
    · refine ⟨Nat.le_refl _, ?_⟩
      intro hthread
      exact absurd hthread (Nat.succ_ne_self _).symm
  | collect => exact ⟨h.before, h.seen⟩

theorem seenWf_of_reachable (h : (nativeLts P config).Reachable s) : s.SeenWf := by
  refine Lts.Reach.invariant_using (K := fun s => (nativeLts P config).Reachable s)
    (fun s hs => hs) ?_ ?_ h
  · rintro s ⟨clock, capacity, queue, -, -, rfl⟩
    exact ⟨Nat.le_refl _, fun hthread => by cases hthread⟩
  · intro s l t _ hstep hs _ hseen
    exact hseen.step (callsWf_of_reachable hs) (runWf_of_reachable hs) (coreOk_of_reachable hs)
      (handWf_of_reachable hs) (begunWf_of_reachable ((native_simulates P config).reachable hs))
      hstep

end Seen

/-! ## The waiters -/

/-- No step turns the clock back. -/
theorem WorkerMove.clock {t t' : Worker} {s s' : Shared} (h : WorkerMove t s t' s') :
    s'.clock = s.clock := by
  cases h with
  | quiet _ quiet => exact congrArg Control.clock quiet.control
  | close event _ control =>
    refine (congrArg Control.clock control).trans ?_
    show (s.stopStreaming event).clock = s.clock
    unfold Shared.stopStreaming
    split <;> rfl
  | latch _ _ _ _ _ rest => exact rest.1
  | finish => split <;> rfl
  | connect | start | fail | exit => rfl

theorem CallMove.clock {config : Config} {c : Nat} {caller : Option Nat} {s s' : Sys}
    {pc pc' : CallPc} (h : CallMove config c caller s pc pc' s') :
    s'.shared.clock = s.shared.clock := by
  cases h with
  | command event =>
    dsimp only [Sys.withShared, Shared.stopCommand, Shared.stopStreaming]
    split <;> rfl
  | stopIdle =>
    dsimp only [Shared.markStopped]
    split <;> rfl
  | reapStop =>
    dsimp only [Sys.reap, Sys.withShared, Shared.markStopped]
    split <;> rfl
  | republish =>
    dsimp only
    split <;> rfl
  | bias first second =>
    dsimp only [Sys.withShared, Shared.bias]
    (repeat' split) <;> rfl
  | wait | take | save | reset | arm | spawn | disarm | restoreRecord | restoreData | clearLatch
  | request | reapStart | snapshot => rfl

theorem Sys.clock_mono {P : Platform} {config : Config} {s s' : Sys} {l : Label}
    (hstep : s.step P config l = some s') : s.shared.clock ≤ s'.shared.clock := by
  cases Sys.step_move hstep with
  | tick ticks => exact Nat.le_add_right _ _
  | places _ places => rw [places.shared]
  | call choice present step move => exact (CallMove.clock move).ge
  | worker choice present step move => exact (WorkerMove.clock move).ge

/-- While the generation is `g`, the run is the one of generation `g` and
has its thread. -/
def Native.Live (s : Native) (g : Nat) : Prop :=
  s.queue.closeGeneration = g → s.run.generation = g ∧ s.core.created = s.run.worker + 1

/-- While the generation is `g`, the run is the one of generation `g` and
the core has counted a delivery in it. -/
def Native.Answered (s : Native) (g : Nat) : Prop :=
  s.queue.closeGeneration = g →
    s.run.generation = g ∧ s.run.deliveredBefore < s.core.shared.health.deliveredCount

section Waits

variable {P : Platform} {config : Config} {s s' : Native} {n g : Nat}

/-- What only grows. -/
theorem Native.step_mono (hcalls : s.CallsWf) (hok : Core.CoreOk s.core) (hhand : s.core.HandWf)
    {l : NativeLabel} (hstep : s.step P config l = some s') :
    s.core.created ≤ s'.core.created ∧
      s.core.shared.health.deliveredCount ≤ s'.core.shared.health.deliveredCount ∧
      s.core.shared.clock ≤ s'.core.shared.clock := by
  cases Native.step_move hstep with
  | core step =>
    have hcore := (Native.coreStep_cases step).1
    refine ⟨Sys.created_mono hcore, ?_, Sys.clock_mono hcore⟩
    cases Core.numbers_move hhand hok.wf hcore with
    | keep _ _ count => exact count
    | deliver count => omega
    | restart _ _ _ count => omega
  | invoke => exact ⟨Nat.le_refl _, Nat.le_refl _, Nat.le_refl _⟩
  | @call n call pc' u present move =>
    rcases move.core with hsame | ⟨op, hinvoke⟩ | hcollect
    · show s.core.created ≤ u.core.created ∧ _ ≤ u.core.shared.health.deliveredCount ∧
        _ ≤ u.core.shared.clock
      rw [hsame]
      exact ⟨Nat.le_refl _, Nat.le_refl _, Nat.le_refl _⟩
    · show s.core.created ≤ u.core.created ∧ _ ≤ u.core.shared.health.deliveredCount ∧
        _ ≤ u.core.shared.clock
      rw [(invoke_outside hinvoke).2]
      exact ⟨Nat.le_refl _, Nat.le_refl _, Nat.le_refl _⟩
    · show s.core.created ≤ u.core.created ∧ _ ≤ u.core.shared.health.deliveredCount ∧
        _ ≤ u.core.shared.clock
      rw [collect_outside (fun c hc => (hcalls.waits n c hc).1) hcollect]
      exact ⟨Nat.le_refl _, Nat.le_refl _, Nat.le_refl _⟩
  | collect => exact ⟨Nat.le_refl _, Nat.le_refl _, Nat.le_refl _⟩

/-- All that is known of a native client. -/
structure Native.Known (P : Platform) (config : Config) (s : Native) : Prop where
  calls : s.CallsWf
  core : Core.CoreOk s.core
  hand : s.core.HandWf
  begun : s.core.BegunWf
  run : s.RunWf
  isOpen : s.OpenWf
  queue : s.QueueWf
  seen : s.SeenWf

theorem known_of_reachable (h : (nativeLts P config).Reachable s) : s.Known P config :=
  ⟨callsWf_of_reachable h, coreOk_of_reachable h, handWf_of_reachable h,
    begunWf_of_reachable ((native_simulates P config).reachable h), runWf_of_reachable h,
    openWf_of_reachable h, queueWf_of_reachable h, seenWf_of_reachable h⟩

/-- `running_` was read as true. -/
theorem Native.Known.live (hk : s.Known P config) (hon : s.running = true)
    (g : Nat) : s.Live g := by
  obtain ⟨hfree, hthread⟩ := hk.isOpen.running hon
  intro hg
  exact ⟨(hk.queue.current hfree).symm.trans hg, hthread⟩

theorem Native.Live.step (h : s.Live g) (hk : s.Known P config) (hrun' : s'.RunWf)
    (hle : g ≤ s.queue.closeGeneration) {l : NativeLabel}
    (hstep : s.step P config l = some s') : s'.Live g := by
  intro heq
  obtain ⟨hmono, hrun⟩ := Native.step_run hk.run hstep
  obtain ⟨hgeneration, hthread⟩ := h (by omega)
  rcases hrun with hsame | ⟨hclosed, -⟩
  · refine ⟨hsame.generation.trans hgeneration, ?_⟩
    have hcreated := (Native.step_mono hk.calls hk.core hk.hand hstep).1
    have hupper := hrun'.upper
    have hworker := hsame.worker
    omega
  · have hlater := hk.queue.closed hclosed
    omega

theorem Native.Answered.step (h : s.Answered g) (hk : s.Known P config)
    (hle : g ≤ s.queue.closeGeneration) {l : NativeLabel}
    (hstep : s.step P config l = some s') : s'.Answered g := by
  intro heq
  obtain ⟨hmono, hrun⟩ := Native.step_run hk.run hstep
  obtain ⟨hgeneration, hcounted⟩ := h (by omega)
  rcases hrun with hsame | ⟨hclosed, -⟩
  · refine ⟨hsame.generation.trans hgeneration, ?_⟩
    rw [hsame.before]
    exact Nat.lt_of_lt_of_le hcounted (Native.step_mono hk.calls hk.core hk.hand hstep).2.1
  · have hlater := hk.queue.closed hclosed
    omega

/-- The core's wait returns true when the current run has delivered. -/
theorem callStep_seen {core u : Sys} {c : Nat} {call : Call} {choice : CallChoice}
    (h : callStep config c call choice core = some (.returned (.seen true), u)) :
    ∃ deadline, call.pc = .waitSleep deadline core.shared.generation ∧
      core.shared.deliveredGeneration = core.shared.generation := by
  obtain ⟨caller, op, pc⟩ := call
  cases pc <;> simp only [callStep, CallPc.part] at h
  case waitSleep deadline generation =>
    simp only [otherStep] at h
    split at h
    · simp only [Option.some.injEq, Prod.mk.injEq, CallPc.returned.injEq, CallResult.seen.injEq,
        Bool.and_eq_true, decide_eq_true_eq] at h
      obtain ⟨⟨rfl, hdelivered⟩, -⟩ := h
      exact ⟨deadline, rfl, hdelivered⟩
    · cases h
  all_goals
    dsimp only [Core.startStep, Core.stopStep, startDecide, otherStep] at h
    (repeat' split at h) <;> cases h

/-- A core call outside the native ones that has returned had returned
before, or its own last step was taken. -/
theorem Native.returned_before (hcalls : s.CallsWf) {l : NativeLabel}
    (hstep : s.step P config l = some s') {c : Nat} (hodd : c % 2 = 1) {call : Call}
    {result : CallResult} (hc : s'.core.calls c = some call)
    (hreturned : call.pc = .returned result) :
    s.core.calls c = some call ∨ ∃ before choice u, s.core.calls c = some before ∧
      callStep config c before choice s.core = some (.returned result, u) := by
  cases Native.step_move hstep with
  | core step =>
    cases hcalls.core_calls step with
    | same calls => exact .inl (calls ▸ hc)
    | @made _ op _ passes after =>
      rw [after] at hc
      rcases Sys.setCall_cases hc with ⟨rfl, heq⟩ | ⟨-, hold⟩
      · cases heq
        cases op <;> cases hreturned
      · exact .inl hold
    | collected _ after =>
      rw [after] at hc
      rcases Sys.setCall_cases hc with ⟨rfl, heq⟩ | ⟨-, hold⟩
      · cases heq
      · exact .inl hold
    | @moved _ before choice pc' u present step after =>
      rw [after] at hc
      rcases Sys.setCall_cases hc with ⟨rfl, heq⟩ | ⟨-, hold⟩
      · cases heq
        obtain rfl : pc' = .returned result := hreturned
        exact .inr ⟨before, choice, u, present, step⟩
      · exact .inl (callMove_calls (callStep_move step) ▸ hold)
  | invoke => exact .inl hc
  | @call n nc pc' u present move =>
    have hc' : u.core.calls c = some call := hc
    left
    rcases move.core with hsame | ⟨op, hinvoke⟩ | hcollect
    · rw [← hsame]
      exact hc'
    · rwa [(invoke_outside hinvoke).2, Sys.setCall_calls_of_ne _ _ (odd_ne_coreId hodd)] at hc'
    · rwa [collect_outside (fun c hc => (hcalls.waits n c hc).1) hcollect,
        Sys.setCall_calls_of_ne _ _ (odd_ne_coreId hodd)] at hc'
  | collect => exact .inl hc

end Waits

/-- The timeout a place works with, in seconds. -/
def WaitPc.timeout? : WaitPc → Option ℚ
  | .capture timeout | .clock timeout _ => some timeout
  | .checkRunning w | .checkFault w | .checkGeneration w | .slice w | .call w _ | .await w
  | .recheck w _ | .checkTime w => some w.timeout
  | _ => none

/-- The locals, once they are all there. -/
def WaitPc.waiting? : WaitPc → Option Waiting
  | .checkRunning w | .checkFault w | .checkGeneration w | .slice w | .call w _ | .await w
  | .recheck w _ | .checkTime w => some w
  | _ => none

/-- The generation captured. -/
def WaitPc.captured? : WaitPc → Option Nat
  | .clock _ generation => some generation
  | pc => pc.waiting?.map Waiting.generation

/-- The places behind a look at `running_` that found it set. -/
def WaitPc.entered? : WaitPc → Option Nat
  | .checkRunning _ => none
  | pc => pc.waiting?.map Waiting.generation

/-- The locals of a waiter that has asked the core. -/
def WaitPc.awaits? : WaitPc → Option Waiting
  | .await w => some w
  | _ => none

/-- The generation for which the core has answered yes. -/
def WaitPc.believes? : WaitPc → Option Nat
  | .recheck w true => some w.generation
  | _ => none

/-- What is known of the waiter `n` at its place. -/
structure WaitOk (s : Native) (n : Nat) (call : WaitCall) : Prop where
  late : call.enteredAt ≤ s.core.shared.clock
  entry : ∀ timeout, call.pc = .enter timeout → timeout = call.timeout
  timeout : ∀ timeout, call.pc.timeout? = some timeout → timeout = call.timeout.value
  started : ∀ w, call.pc.waiting? = some w → call.enteredAt ≤ w.startedAt
  captured : ∀ g, call.pc.captured? = some g → g ≤ s.queue.closeGeneration
  live : ∀ g, call.pc.entered? = some g → s.Live g
  returned : ∀ w core, call.pc.awaits? = some w → s.core.calls (waitId n) = some core →
    core.pc = .returned (.seen true) → s.Answered w.generation
  answered : ∀ g, call.pc.believes? = some g → s.Answered g

def Waiters.Wf (s : Waiters) : Prop := ∀ n call, s.waits n = some call → WaitOk s.native n call

section System

variable {P : Platform} {config : Config}

theorem waitId_odd (n : Nat) : waitId n % 2 = 1 := by
  unfold waitId
  omega

/-- A step of the native client does not concern a waiter. -/
theorem WaitOk.native {s u : Native} {n : Nat} {call : WaitCall} (h : WaitOk s n call)
    (hk : s.Known P config) (hrun' : u.RunWf) {l : NativeLabel}
    (hstep : s.step P config l = some u) : WaitOk u n call := by
  obtain ⟨-, -, hclock⟩ := Native.step_mono hk.calls hk.core hk.hand hstep
  have hgeneration := (Native.step_run hk.run hstep).1
  refine ⟨h.late.trans hclock, h.entry, h.timeout, h.started, ?_, ?_, ?_, ?_⟩
  · exact fun g hg => (h.captured g hg).trans hgeneration
  · intro g hg
    refine (h.live g hg).step hk hrun' (h.captured g ?_) hstep
    cases hpc : call.pc <;> rw [hpc] at hg <;> first | exact hg | cases hg
  · intro w core hw hc hreturned
    have hpc : call.pc = .await w := by
      cases hpc : call.pc <;> rw [hpc] at hw <;> cases hw
      rfl
    have hle := h.captured w.generation (by rw [hpc]; rfl)
    rcases Native.returned_before hk.calls hstep (waitId_odd n) hc hreturned with
      hbefore | ⟨before, choice, v, hbefore, hcall⟩
    · exact (h.returned w core hw hbefore hreturned).step hk hle hstep
    · -- the run is live, so the core answers for it
      obtain ⟨deadline, hsleep, hseen⟩ := callStep_seen hcall
      have hpos := hk.begun.sleeping _ before deadline _ hbefore hsleep
      have hnow : s.Answered w.generation := by
        intro hcurrent
        obtain ⟨hrun, hthread⟩ := h.live w.generation (by rw [hpc]; rfl) hcurrent
        exact ⟨hrun, hk.seen.seen hthread hpos hseen⟩
      exact hnow.step hk hle hstep
  · intro g hg
    refine (h.answered g hg).step hk (h.captured g ?_) hstep
    cases hpc : call.pc <;> rw [hpc] at hg
    case recheck w received =>
      cases received with
      | false => cases hg
      | true =>
        cases hg
        rfl
    all_goals cases hg

/-- A waiter that returns. -/
theorem WaitOk.leave {s : Native} {n : Nat} {call : WaitCall} (h : WaitOk s n call)
    (result : WaitResult) : WaitOk s n { call with pc := .returned result } := by
  refine ⟨h.late, ?_, ?_, ?_, ?_, ?_, ?_, ?_⟩
  all_goals
    intro x
    intros
    contradiction

/-- A waiter that goes on with the same locals. -/
theorem WaitOk.advance {s : Native} {n : Nat} {call : WaitCall} (h : WaitOk s n call)
    {pc' : WaitPc} (hwaiting : pc'.waiting? = call.pc.waiting?)
    (htimeout : pc'.timeout? = call.pc.timeout?) (hcaptured : pc'.captured? = call.pc.captured?)
    (hentry : ∀ timeout, pc' ≠ .enter timeout) (hlive : ∀ g, pc'.entered? = some g → s.Live g)
    (hawaits : pc'.awaits? = none) (hanswered : ∀ g, pc'.believes? = some g → s.Answered g) :
    WaitOk s n { call with pc := pc' } := by
  refine ⟨h.late, ?_, ?_, ?_, ?_, hlive, ?_, hanswered⟩
  · intro timeout hpc
    exact absurd hpc (hentry timeout)
  · intro timeout ht
    exact h.timeout timeout (htimeout ▸ ht)
  · intro w hw
    exact h.started w (hwaiting ▸ hw)
  · intro g hg
    exact h.captured g (hcaptured ▸ hg)
  · intro w core hw
    rw [show pc'.awaits? = some w from hw] at hawaits
    cases hawaits

/-- The waiter's own step. -/
theorem WaitOk.step {s u : Native} {n : Nat} {call : WaitCall} {pc' : WaitPc}
    (h : WaitOk s n call) (hk : s.Known P config) (hrun' : u.RunWf)
    (hstep : waitStep P config n s call.pc = some (pc', u)) :
    WaitOk u n { call with pc := pc' } := by
  have hlive := h.live
  obtain ⟨timeout, enteredAt, pc⟩ := call
  dsimp only at hstep hlive ⊢
  cases pc <;> dsimp only [waitStep] at hstep
  case enter t =>
    split at hstep
    · cases hstep
      exact h.leave _
    · cases hstep
      obtain rfl : t = timeout := h.entry t rfl
      refine ⟨h.late, by simp, ?_, by simp [WaitPc.waiting?], ?_, ?_, ?_, ?_⟩
      · rintro q ⟨⟩
        rfl
      · simp [WaitPc.captured?, WaitPc.waiting?]
      · simp [WaitPc.entered?, WaitPc.waiting?]
      · simp [WaitPc.awaits?]
      · simp [WaitPc.believes?]
  case capture t =>
    cases hstep
    refine ⟨h.late, by simp, h.timeout, by simp [WaitPc.waiting?], ?_, ?_, ?_, ?_⟩
    · rintro g ⟨⟩
      exact Nat.le_refl _
    · simp [WaitPc.entered?, WaitPc.waiting?]
    · simp [WaitPc.awaits?]
    · simp [WaitPc.believes?]
  case clock t g =>
    cases hstep
    refine ⟨h.late, by simp, h.timeout, ?_, h.captured, ?_, ?_, ?_⟩
    · rintro w ⟨⟩
      exact h.late
    · simp [WaitPc.entered?]
    · simp [WaitPc.awaits?]
    · simp [WaitPc.believes?]
  case checkRunning w =>
    cases hstep
    split
    · rename_i hon
      exact h.advance rfl rfl rfl (fun _ h => by cases h) (fun g _ => hk.live hon g) rfl
        (by simp [WaitPc.believes?])
    · exact h.leave _
  case checkFault w =>
    cases hstep
    split
    · exact h.leave _
    · exact h.advance rfl rfl rfl (fun _ h => by cases h) hlive rfl (by simp [WaitPc.believes?])
  case checkGeneration w =>
    cases hstep
    split
    · exact h.leave _
    · exact h.advance rfl rfl rfl (fun _ h => by cases h) hlive rfl (by simp [WaitPc.believes?])
  case slice w =>
    cases hstep
    exact h.advance rfl rfl rfl (fun _ h => by cases h) hlive rfl (by simp [WaitPc.believes?])
  case call w duration =>
    obtain ⟨v, hv, heq⟩ := Option.map_eq_some_iff.mp hstep
    cases heq
    have hafter := h.native hk hrun' (l := .core (.invoke (waitId n) none _)) hv
    refine ⟨hafter.late, by simp, hafter.timeout, hafter.started, hafter.captured, hafter.live, ?_,
      by simp [WaitPc.believes?]⟩
    -- the core call has just been made
    intro w' core _ hc hreturned
    have hcalls := (invoke_outside (Native.coreStep_cases hv).1).2
    rw [hcalls, Sys.setCall_calls_self] at hc
    cases hc
    cases hreturned
  case await w =>
    have hcollected : ∀ {v : Native},
        s.coreStep P config (.collect (waitId n)) = some v → v.RunWf →
        WaitOk v n ⟨timeout, enteredAt, .await w⟩ := fun hv hrun =>
      h.native hk hrun (l := .core (.collect (waitId n))) hv
    split at hstep
    · rename_i caller op received hreturned
      obtain ⟨v, hv, heq⟩ := Option.map_eq_some_iff.mp hstep
      cases heq
      have hafter := hcollected hv hrun'
      refine hafter.advance rfl rfl rfl (fun _ h => by cases h) hafter.live rfl ?_
      intro g hg
      cases received with
      | false => cases hg
      | true =>
        cases hg
        have hanswer := h.returned w _ rfl hreturned rfl
        exact hanswer.step hk (h.captured w.generation rfl) (l := .core (.collect (waitId n))) hv
    · obtain ⟨v, hv, heq⟩ := Option.map_eq_some_iff.mp hstep
      cases heq
      exact (hcollected hv hrun').leave _
    · cases hstep
  case recheck w received =>
    cases hstep
    split
    · exact h.leave _
    · split
      · exact h.leave _
      · exact h.advance rfl rfl rfl (fun _ h => by cases h) hlive rfl (by simp [WaitPc.believes?])
  case checkTime w =>
    cases hstep
    split
    · exact h.leave _
    · exact h.advance rfl rfl rfl (fun _ h => by cases h) (by simp [WaitPc.entered?]) rfl
        (by simp [WaitPc.believes?])
  case returned => cases hstep

theorem Waiters.setWait_cases {s : Waiters} {n m : Nat} {after : Option WaitCall}
    {call : WaitCall} (h : (s.setWait n after).waits m = some call) :
    m = n ∧ after = some call ∨ m ≠ n ∧ s.waits m = some call := by
  by_cases heq : m = n
  · subst heq
    simp only [Waiters.setWait, Function.update_self] at h
    exact .inl ⟨rfl, h⟩
  · simp only [Waiters.setWait, Function.update_of_ne heq] at h
    exact .inr ⟨heq, h⟩

theorem Waiters.Wf.step {s s' : Waiters} (h : s.Wf) (hk : s.native.Known P config)
    (hrun' : s'.native.RunWf) {l : WaitLabel} (hstep : s.step P config l = some s') : s'.Wf := by
  cases l with
  | native l =>
    simp only [Waiters.step] at hstep
    split at hstep
    · cases hstep
    · obtain ⟨u, hu, rfl⟩ := Option.map_eq_some_iff.mp hstep
      exact fun n call hn => (h n call hn).native hk hrun' hu
  | invoke n timeout =>
    simp only [Waiters.step] at hstep
    split at hstep
    · cases hstep
    · cases hstep
      intro m call hm
      rcases Waiters.setWait_cases hm with ⟨rfl, heq⟩ | ⟨-, hold⟩
      · cases heq
        refine ⟨Nat.le_refl _, ?_, ?_, ?_, ?_, ?_, ?_, ?_⟩
        · rintro t ⟨⟩
          rfl
        all_goals
          intro x
          intros
          contradiction
      · exact h m call hold
  | wait n =>
    simp only [Waiters.step] at hstep
    split at hstep
    · cases hstep
    · rename_i call hn
      obtain ⟨⟨pc', u⟩, hu, rfl⟩ := Option.map_eq_some_iff.mp hstep
      intro m call' hm
      rcases Waiters.setWait_cases hm with ⟨rfl, heq⟩ | ⟨-, hold⟩
      · cases heq
        exact (h m call hn).step hk hrun' hu
      · rcases waitStep_native hu with rfl | hcollect | ⟨w, duration, -, -, hinvoke⟩
        · exact h m call' hold
        · exact (h m call' hold).native hk hrun' (l := .core (.collect (waitId n))) hcollect
        · exact (h m call' hold).native hk hrun' (l := .core (.invoke (waitId n) none _)) hinvoke
  | collect n =>
    simp only [Waiters.step] at hstep
    split at hstep
    · cases hstep
      intro m call hm
      rcases Waiters.setWait_cases hm with ⟨-, heq⟩ | ⟨-, hold⟩
      · cases heq
      · exact h m call hold
    · cases hstep

end System

/-! ## A wait answers for its run -/

end PyNetFT.Bindings
