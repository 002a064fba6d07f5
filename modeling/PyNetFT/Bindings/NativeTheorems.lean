/-
PyNetFT.Bindings.NativeTheorems — runs of the native client.

The core below is a reachable core (`native_simulates`), so everything
proved there holds here. On top of it the module shows who owns which
core call, that at most one receive thread per run can still push, and
that it is the run's own: the isolation of runs rests on the order of
`running_`, `close`, `reset` and the core's join inside `start` and
`stop`.
-/
import PyNetFT.Bindings.NativeClient
import PyNetFT.Core.Handover

namespace PyNetFT.Bindings

open PyNetFT.Lib PyNetFT.Core

/-! ## What the places of a native call mean -/

/-- The places where a call owns `lifecycle_mutex_`. -/
def NativePc.holds : NativePc → Bool
  | .startCheck | .startHalt | .startClose | .startReset | .startCore | .startAwait | .startRun
  | .startUnwind _ | .startUnwindClose _ | .stopHalt | .stopClose | .stopCore | .stopAwait => true
  | _ => false

/-- The core call a native call waits for. -/
def NativePc.awaits : NativePc → Option Op
  | .startAwait => some (.start (some 0))
  | .stopAwait => some .stop
  | _ => none

/-- `running_` is false although a receive thread may be running. -/
def NativePc.busy : NativePc → Bool
  | .startAwait | .startRun | .stopClose | .stopCore | .stopAwait => true
  | _ => false

/-- The places where a read looks at the fault latch. -/
def NativePc.checksFault : NativePc → Bool
  | .readFault _ | .readFaultAgain _ => true
  | _ => false

/-- The generation a read has captured. -/
def NativePc.captured : NativePc → Option Nat
  | .readClock _ generation => some generation
  | .readRunning r | .readFault r | .readSlice r | .readFor r _ | .readWait r _
  | .readRunningAgain r | .readFaultAgain r | .readTime r => some r.generation
  | .returned (.read generation _) => some generation
  | _ => none

/-- The sample a read has returned with. -/
def NativePc.got : NativePc → Option Stamped
  | .returned (.read _ (.sample x)) => some x
  | _ => none

theorem NativePc.holds_of_awaits {pc : NativePc} {op : Op} (h : pc.awaits = some op) :
    pc.holds = true := by
  cases pc <;> simp_all [NativePc.awaits, NativePc.holds]

theorem NativePc.holds_of_busy {pc : NativePc} (h : pc.busy = true) : pc.holds = true := by
  cases pc <;> simp_all [NativePc.busy, NativePc.holds]

/-! ## The moves -/

/-- The effect of one step of the native call `n`. -/
inductive NativeMove (n : Nat) (s : Native) : NativePc → NativePc → Native → Prop where
  | look {pc pc' : NativePc} (before : pc.part = .read ∧ ∀ result, pc ≠ .returned result)
      (after : pc'.part = .read) (got : pc'.got = none)
      (captured : pc'.captured = pc.captured ∨ pc'.captured = none ∨
        pc'.captured = some s.queue.closeGeneration)
      (closed : ∀ generation, pc' = .returned (.read generation .closed) →
        s.running = false ∨ s.core.shared.faulted = true ∧ pc.checksFault = true ∨
          s.queue.isClosed = true ∨ s.queue.closeGeneration ≠ generation) :
      NativeMove n s pc pc' s
  | take {r : Reading} {slice : Slice} {x : Stamped} {queue : SampleQueue Stamped}
      (front : s.queue.samples = x :: queue.samples) (free : s.queue.isClosed = false)
      (current : s.queue.closeGeneration = r.generation)
      (same : queue.isClosed = s.queue.isClosed ∧
        queue.closeGeneration = s.queue.closeGeneration ∧
        queue.droppedCount = s.queue.droppedCount) :
      NativeMove n s (.readWait r slice) (.returned (.read r.generation (.sample x)))
        { s with queue := queue, run := { s.run with taken := s.run.taken ++ [x] } }
  | enter {pc pc' : NativePc} (free : s.lock = none)
      (place : pc = .startEnter ∧ pc' = .startCheck ∨ pc = .stopEnter ∧ pc' = .stopHalt) :
      NativeMove n s pc pc' { s with lock := some n }
  | already (running : s.running = true) (healthy : s.core.shared.faulted = false) :
      NativeMove n s .startCheck (.returned .done) { s with lock := none }
  | begin (idle : s.running = false ∨ s.core.shared.faulted = true) :
      NativeMove n s .startCheck .startHalt s
  | halt {pc pc' : NativePc}
      (place : pc = .startHalt ∧ pc' = .startClose ∨ pc = .stopHalt ∧ pc' = .stopClose ∨
        ∃ message, pc = .startUnwind message ∧ pc' = .startUnwindClose message) :
      NativeMove n s pc pc' (s.setRunning false)
  | close {pc pc' : NativePc}
      (place : pc = .startClose ∧ pc' = .startReset ∨ pc = .stopClose ∧ pc' = .stopCore) :
      NativeMove n s pc pc' s.closeQueue
  | reset : NativeMove n s .startReset .startCore s.resetQueue
  | call {pc pc' : NativePc} {op : Op} {core : Sys}
      (place : pc = .startCore ∧ pc' = .startAwait ∧ op = .start (some 0) ∨
        pc = .stopCore ∧ pc' = .stopAwait ∧ op = .stop)
      (invoke : s.core.invoke (coreId n) none op = some core) :
      NativeMove n s pc pc' { s with core := core }
  | started {core : Sys} {caller : Option Nat} {op : Op} {result : CallResult}
      (returned : s.core.calls (coreId n) = some ⟨caller, op, .returned result⟩)
      (collect : s.core.collect (coreId n) = some core)
      (accepted : ∀ message, result ≠ .threw message) :
      NativeMove n s .startAwait .startRun { s with core := core }
  | failed {core : Sys} {caller : Option Nat} {op : Op} {message : String}
      (returned : s.core.calls (coreId n) = some ⟨caller, op, .returned (.threw message)⟩)
      (collect : s.core.collect (coreId n) = some core) :
      NativeMove n s .startAwait (.startUnwind message) { s with core := core }
  | run : NativeMove n s .startRun (.returned .done) { s.setRunning true with lock := none }
  | unwind {message : String} :
      NativeMove n s (.startUnwindClose message) (.returned (.threw message))
        { s.closeQueue with lock := none }
  | stopped {core : Sys} {caller : Option Nat} {op : Op} {result : CallResult}
      (returned : s.core.calls (coreId n) = some ⟨caller, op, .returned result⟩)
      (collect : s.core.collect (coreId n) = some core) :
      NativeMove n s .stopAwait (.returned .done) { s with core := core, lock := none }

section Moves

variable {n : Nat} {s s' : Native} {pc pc' : NativePc}

theorem coreReturned_cases {result : CallResult} (h : s.coreReturned n = some (result, s')) :
    ∃ caller op core, s.core.calls (coreId n) = some ⟨caller, op, .returned result⟩ ∧
      s.core.collect (coreId n) = some core ∧ s' = { s with core := core } := by
  unfold Native.coreReturned at h
  split at h
  · rename_i caller op result' hcall
    obtain ⟨core, hcore, heq⟩ := Option.map_eq_some_iff.mp h
    obtain ⟨rfl, rfl⟩ := Prod.mk.inj heq
    exact ⟨caller, op, core, hcall, hcore, rfl⟩
  · cases h

theorem startStep_move (h : startStep n s pc = some (pc', s')) : NativeMove n s pc pc' s' := by
  cases pc <;> dsimp only [startStep] at h
  case startEnter =>
    split at h
    · cases h
    · rename_i hlock
      cases h
      exact .enter (by simpa using hlock) (.inl ⟨rfl, rfl⟩)
  case startCheck =>
    split at h
    · rename_i hcond
      cases h
      exact .already hcond.1 hcond.2
    · rename_i hcond
      cases h
      refine .begin ?_
      rw [not_and_or] at hcond
      exact hcond.imp (by simp) (by simp)
  case startHalt =>
    cases h
    exact .halt (.inl ⟨rfl, rfl⟩)
  case startClose =>
    cases h
    exact .close (.inl ⟨rfl, rfl⟩)
  case startReset =>
    cases h
    exact .reset
  case startCore =>
    obtain ⟨core, hcore, heq⟩ := Option.map_eq_some_iff.mp h
    obtain ⟨rfl, rfl⟩ := Prod.mk.inj heq
    exact .call (.inl ⟨rfl, rfl, rfl⟩) hcore
  case startAwait =>
    split at h
    · rename_i message u hreturned
      cases h
      obtain ⟨caller, op, core, hcall, hcore, rfl⟩ := coreReturned_cases hreturned
      exact .failed hcall hcore
    · rename_i result u hno hreturned
      cases h
      obtain ⟨caller, op, core, hcall, hcore, rfl⟩ := coreReturned_cases hreturned
      exact .started hcall hcore hno
    · cases h
  case startRun =>
    cases h
    exact .run
  case startUnwind message =>
    cases h
    exact .halt (.inr (.inr ⟨message, rfl, rfl⟩))
  case startUnwindClose message =>
    cases h
    exact .unwind
  all_goals cases h

theorem stopStep_move (h : stopStep n s pc = some (pc', s')) : NativeMove n s pc pc' s' := by
  cases pc <;> dsimp only [stopStep] at h
  case stopEnter =>
    split at h
    · cases h
    · rename_i hlock
      cases h
      exact .enter (by simpa using hlock) (.inr ⟨rfl, rfl⟩)
  case stopHalt =>
    cases h
    exact .halt (.inr (.inl ⟨rfl, rfl⟩))
  case stopClose =>
    cases h
    exact .close (.inr ⟨rfl, rfl⟩)
  case stopCore =>
    obtain ⟨core, hcore, heq⟩ := Option.map_eq_some_iff.mp h
    obtain ⟨rfl, rfl⟩ := Prod.mk.inj heq
    exact .call (.inr ⟨rfl, rfl, rfl⟩) hcore
  case stopAwait =>
    obtain ⟨⟨result, u⟩, hreturned, heq⟩ := Option.map_eq_some_iff.mp h
    obtain ⟨rfl, rfl⟩ := Prod.mk.inj heq
    obtain ⟨caller, op, core, hcall, hcore, rfl⟩ := coreReturned_cases hreturned
    exact .stopped hcall hcore
  all_goals cases h

theorem readStep_move (h : readStep s pc = some (pc', s')) : NativeMove n s pc pc' s' := by
  cases pc <;> dsimp only [readStep] at h
  case readEnter timeout =>
    split at h
    · cases h
      exact .look ⟨rfl, (fun _ h => by cases h)⟩ rfl rfl (.inl rfl) (fun _ h => by cases h)
    · split at h
      · cases h
        exact .look ⟨rfl, (fun _ h => by cases h)⟩ rfl rfl (.inl rfl) (fun _ h => by cases h)
      · cases h
        exact .look ⟨rfl, (fun _ h => by cases h)⟩ rfl rfl (.inl rfl) (fun _ h => by cases h)
  case readCapture timeout =>
    cases h
    exact .look ⟨rfl, (fun _ h => by cases h)⟩ rfl rfl (.inr (.inr rfl)) (fun _ h => by cases h)
  case readClock timeout generation =>
    cases h
    exact .look ⟨rfl, (fun _ h => by cases h)⟩ rfl rfl (.inl rfl) (fun _ h => by cases h)
  case readRunning r =>
    cases h
    split
    · exact .look ⟨rfl, (fun _ h => by cases h)⟩ rfl rfl (.inl rfl) (fun _ h => by cases h)
    · rename_i hoff
      exact .look ⟨rfl, (fun _ h => by cases h)⟩ rfl rfl (.inl rfl) fun _ _ =>
        .inl (by simpa using hoff)
  case readFault r =>
    cases h
    split
    · rename_i hfault
      exact .look ⟨rfl, (fun _ h => by cases h)⟩ rfl rfl (.inl rfl) fun _ _ =>
        .inr (.inl ⟨hfault, rfl⟩)
    · exact .look ⟨rfl, (fun _ h => by cases h)⟩ rfl rfl (.inl rfl) (fun _ h => by cases h)
  case readSlice | readFor =>
    cases h
    exact .look ⟨rfl, (fun _ h => by cases h)⟩ rfl rfl (.inl rfl) (fun _ h => by cases h)
  case readWait r slice =>
    split at h
    · cases h
    · rename_i queue hread
      obtain ⟨hbad, -⟩ | ⟨-, rfl, -⟩ | ⟨x, hbad, -⟩ := SampleQueue.readFor_cases hread
      · cases hbad
      · cases h
        exact .look ⟨rfl, (fun _ h => by cases h)⟩ rfl rfl (.inl rfl) (fun _ h => by cases h)
      · cases hbad
    · rename_i result queue hno hread
      obtain ⟨rfl, rfl, hclosed⟩ | ⟨rfl, -⟩ | ⟨x, rfl, hfront, hfree, hcurrent, hsame⟩ :=
        SampleQueue.readFor_cases hread
      · cases h
        refine .look ⟨rfl, (fun _ h => by cases h)⟩ rfl rfl (.inl rfl) ?_
        rintro generation ⟨⟩
        exact .inr (.inr hclosed)
      · exact (hno rfl).elim
      · cases h
        exact .take hfront hfree hcurrent hsame
  case readRunningAgain r =>
    cases h
    split
    · exact .look ⟨rfl, (fun _ h => by cases h)⟩ rfl rfl (.inl rfl) (fun _ h => by cases h)
    · rename_i hoff
      exact .look ⟨rfl, (fun _ h => by cases h)⟩ rfl rfl (.inl rfl) fun _ _ =>
        .inl (by simpa using hoff)
  case readFaultAgain r =>
    cases h
    split
    · rename_i hfault
      exact .look ⟨rfl, (fun _ h => by cases h)⟩ rfl rfl (.inl rfl) fun _ _ =>
        .inr (.inl ⟨hfault, rfl⟩)
    · exact .look ⟨rfl, (fun _ h => by cases h)⟩ rfl rfl (.inl rfl) (fun _ h => by cases h)
  case readTime r =>
    cases h
    split
    · exact .look ⟨rfl, (fun _ h => by cases h)⟩ rfl rfl (.inl rfl) (fun _ h => by cases h)
    · split
      · exact .look ⟨rfl, (fun _ h => by cases h)⟩ rfl rfl (.inl rfl) (fun _ h => by cases h)
      · exact .look ⟨rfl, (fun _ h => by cases h)⟩ rfl rfl (.inl rfl) (fun _ h => by cases h)
  all_goals cases h

theorem nativeStep_move (h : nativeStep n s pc = some (pc', s')) : NativeMove n s pc pc' s' := by
  unfold nativeStep at h
  split at h
  · exact startStep_move h
  · exact stopStep_move h
  · exact readStep_move h

/-- The reasons to return closed. -/
theorem NativeMove.closed {pc : NativePc} {generation : Nat}
    (h : NativeMove n s pc (.returned (.read generation .closed)) s') :
    s' = s ∧ (pc.part = .read ∧ ∀ result, pc ≠ .returned result) ∧
      (s.running = false ∨ s.core.shared.faulted = true ∧ pc.checksFault = true ∨
        s.queue.isClosed = true ∨ s.queue.closeGeneration ≠ generation) := by
  cases h with
  | look before after got captured closed => exact ⟨rfl, before, closed generation rfl⟩
  | enter _ place => rcases place with ⟨-, hbad⟩ | ⟨-, hbad⟩ <;> cases hbad
  | halt place => rcases place with ⟨-, hbad⟩ | ⟨-, hbad⟩ | ⟨message, -, hbad⟩ <;> cases hbad
  | close place => rcases place with ⟨-, hbad⟩ | ⟨-, hbad⟩ <;> cases hbad
  | call place => rcases place with ⟨-, hbad, -⟩ | ⟨-, hbad, -⟩ <;> cases hbad

end Moves

/-! ## The core below -/

section Simulation

variable {P : Platform} {config : Config} {s s' : Native}

theorem NativeMove.core {n : Nat} {pc pc' : NativePc} (h : NativeMove n s pc pc' s') :
    s'.core = s.core ∨ (∃ op, s.core.invoke (coreId n) none op = some s'.core) ∨
      s.core.collect (coreId n) = some s'.core := by
  cases h with
  | call _ invoke => exact .inr (.inl ⟨_, invoke⟩)
  | started _ collect _ => exact .inr (.inr collect)
  | failed _ collect => exact .inr (.inr collect)
  | stopped _ collect => exact .inr (.inr collect)
  | _ => exact .inl rfl

/-- What the core and its callback do not touch. -/
structure Native.SameControl (s s' : Native) : Prop where
  lock : s'.lock = s.lock
  calls : s'.calls = s.calls
  running : s'.running = s.running
  history : s'.history = s.history
  worker : s'.run.worker = s.run.worker
  closed : s'.queue.isClosed = s.queue.isClosed
  generation : s'.queue.closeGeneration = s.queue.closeGeneration

theorem Native.callback_control (s : Native) (w : Nat) (choice : WorkerChoice) :
    s.SameControl (s.callback w choice) := by
  unfold Native.callback
  split
  · split
    · exact ⟨rfl, rfl, rfl, rfl, rfl, SampleQueue.push_isClosed _ _,
        SampleQueue.push_closeGeneration _ _⟩
    · exact ⟨rfl, rfl, rfl, rfl, rfl, SampleQueue.makeRoom_isClosed _,
        SampleQueue.makeRoom_closeGeneration _⟩
    · exact ⟨rfl, rfl, rfl, rfl, rfl, rfl, rfl⟩
  · exact ⟨rfl, rfl, rfl, rfl, rfl, rfl, rfl⟩

/-- A step of the core, with what the queue makes of it. -/
theorem Native.coreStep_cases {l : Label} (h : s.coreStep P config l = some s') :
    s.core.step P config l = some s'.core ∧
      ((∀ w choice, l ≠ .worker w choice) ∧ s' = { s with core := s'.core } ∨
        ∃ w choice, l = .worker w choice ∧ s' = { s.callback w choice with core := s'.core }) ∧
      (∀ c caller op, l = .invoke c caller op → c % 2 = 1 ∧ caller = none ∧
        Core.Op.passes op = true) ∧
      ∀ c, l = .collect c → c % 2 = 1 := by
  unfold Native.coreStep at h
  split at h
  · split at h
    · rename_i hcond
      obtain ⟨core, hcore, rfl⟩ := Option.map_eq_some_iff.mp h
      refine ⟨hcore, .inl ⟨by simp, rfl⟩, ?_, by simp⟩
      intro c caller op heq
      cases heq
      exact hcond
    · cases h
  · split at h
    · rename_i hodd
      obtain ⟨core, hcore, rfl⟩ := Option.map_eq_some_iff.mp h
      refine ⟨hcore, .inl ⟨by simp, rfl⟩, by simp, ?_⟩
      intro c heq
      cases heq
      exact hodd
    · cases h
  · obtain ⟨core, hcore, rfl⟩ := Option.map_eq_some_iff.mp h
    exact ⟨hcore, .inr ⟨_, _, rfl, rfl⟩, by simp, by simp⟩
  · obtain ⟨core, hcore, rfl⟩ := Option.map_eq_some_iff.mp h
    exact ⟨hcore, .inl ⟨by simp, rfl⟩, by simp, by simp⟩
  · obtain ⟨core, hcore, rfl⟩ := Option.map_eq_some_iff.mp h
    exact ⟨hcore, .inl ⟨by simp, rfl⟩, by simp, by simp⟩

theorem Native.coreStep_control {l : Label} (h : s.coreStep P config l = some s') :
    s.SameControl s' := by
  obtain ⟨-, hqueue, -⟩ := Native.coreStep_cases h
  rcases hqueue with ⟨-, hs'⟩ | ⟨w, choice, -, hs'⟩
  · rw [hs']
    exact ⟨rfl, rfl, rfl, rfl, rfl, rfl, rfl⟩
  · have hcontrol := s.callback_control w choice
    rw [hs']
    exact ⟨hcontrol.lock, hcontrol.calls, hcontrol.running, hcontrol.history, hcontrol.worker,
      hcontrol.closed, hcontrol.generation⟩

/-- What a step of the native client is. -/
inductive NativeSysMove (P : Platform) (config : Config) (s : Native) :
    NativeLabel → Native → Prop where
  | core {l : Label} {s' : Native} (step : s.coreStep P config l = some s') :
      NativeSysMove P config s (.core l) s'
  | invoke {n : Nat} {op : NativeOp} (free : s.calls n = none) :
      NativeSysMove P config s (.invoke n op) (s.setCall n (some ⟨op, op.entry⟩))
  | call {n : Nat} {call : NativeCall} {pc' : NativePc} {s' : Native}
      (present : s.calls n = some call) (move : NativeMove n s call.pc pc' s') :
      NativeSysMove P config s (.call n) (s'.setCall n (some { call with pc := pc' }))
  | collect {n : Nat} {op : NativeOp} {result : NativeResult}
      (present : s.calls n = some ⟨op, .returned result⟩) :
      NativeSysMove P config s (.collect n) (s.setCall n none)

theorem Native.step_move {l : NativeLabel} (h : s.step P config l = some s') :
    NativeSysMove P config s l s' := by
  cases l with
  | core l => exact .core h
  | invoke n op =>
    simp only [Native.step, Native.invoke] at h
    split at h
    · cases h
    · rename_i hfree
      cases h
      exact .invoke (by simpa using hfree)
  | call n =>
    simp only [Native.step] at h
    split at h
    · cases h
    · rename_i call hcall
      obtain ⟨⟨pc', u⟩, hstep, rfl⟩ := Option.map_eq_some_iff.mp h
      exact .call hcall (nativeStep_move hstep)
  | collect n =>
    simp only [Native.step, Native.collect] at h
    split at h
    · rename_i op result hcall
      cases h
      exact .collect hcall
    · cases h

/-- Every run of the native client is a run of its core. -/
theorem native_simulates (P : Platform) (config : Config) :
    Lts.Simulation (nativeLts P config) (clientLts P config) Native.core where
  init := by
    rintro s ⟨clock, capacity, queue, hvalid, -, rfl⟩
    exact ⟨clock, hvalid, rfl⟩
  step := by
    intro s l t hstep
    cases Native.step_move hstep with
    | @core l _ step =>
      have hcore := (Native.coreStep_cases step).1
      exact ⟨[l], by simp [Lts.exec, clientLts, hcore]⟩
    | invoke => exact ⟨[], rfl⟩
    | @call n _ _ u present move =>
      rcases move.core with hsame | ⟨op, hinvoke⟩ | hcollect
      · exact ⟨[], congrArg some hsame.symm⟩
      · refine ⟨[.invoke (coreId n) none op], ?_⟩
        simp only [Lts.exec, clientLts, Sys.step, hinvoke]
        rfl
      · refine ⟨[.collect (coreId n)], ?_⟩
        simp only [Lts.exec, clientLts, Sys.step, hcollect]
        rfl
    | collect => exact ⟨[], rfl⟩

end Simulation

/-! ## Who owns which core call -/

/-- A call at a place of its own function, or returned. -/
def CallFits (op : Op) (pc : CallPc) : Prop :=
  pc.part = op.entry.part ∨ ∃ result, pc = .returned result

structure Native.CallsWf (s : Native) : Prop where
  owner : ∀ n, s.lock = some n ↔ ∃ call, s.calls n = some call ∧ call.pc.holds = true
  waits : ∀ n call, s.core.calls (coreId n) = some call → call.caller = none ∧
    CallFits call.op call.pc ∧ ∃ nc, s.calls n = some nc ∧ nc.pc.awaits = some call.op
  present : ∀ n nc op, s.calls n = some nc → nc.pc.awaits = some op →
    ∃ call, s.core.calls (coreId n) = some call ∧ call.op = op
  others : ∀ c call, c % 2 = 1 → s.core.calls c = some call →
    call.caller = none ∧ call.pc.part = .other

section Calls

variable {P : Platform} {config : Config} {s s' : Native}

theorem coreId_inj {m n : Nat} (h : coreId m = coreId n) : m = n := by
  unfold coreId at h
  omega

theorem odd_ne_coreId {c n : Nat} (h : c % 2 = 1) : c ≠ coreId n := by
  unfold coreId
  omega

theorem Native.setCall_cases {s : Native} {n m : Nat} {call' : NativeCall}
    {call : Option NativeCall} (h : (s.setCall n call).calls m = some call') :
    m = n ∧ call = some call' ∨ m ≠ n ∧ s.calls m = some call' := by
  by_cases hm : m = n
  · subst hm
    simp only [Native.setCall, Function.update_self] at h
    exact .inl ⟨rfl, h⟩
  · simp only [Native.setCall, Function.update_of_ne hm] at h
    exact .inr ⟨hm, h⟩

@[simp] theorem Native.setCall_calls_self (s : Native) (n : Nat) (call : Option NativeCall) :
    (s.setCall n call).calls n = call := by
  simp [Native.setCall]

theorem Native.setCall_calls_of_ne (s : Native) {n m : Nat} (call : Option NativeCall)
    (h : m ≠ n) : (s.setCall n call).calls m = s.calls m := by
  simp [Native.setCall, h]

theorem Native.CallsWf.owner_unique (h : s.CallsWf) {m n : Nat} {a b : NativeCall}
    (hm : s.calls m = some a) (hma : a.pc.holds = true) (hn : s.calls n = some b)
    (hnb : b.pc.holds = true) : m = n := by
  have h1 := (h.owner m).mpr ⟨a, hm, hma⟩
  have h2 := (h.owner n).mpr ⟨b, hn, hnb⟩
  exact Option.some.inj (h1.symm.trans h2)

/-- What a move does to the lock, and to the core calls. -/
theorem NativeMove.lock {n : Nat} {pc pc' : NativePc} (h : NativeMove n s pc pc' s') :
    s'.calls = s.calls ∧
      ((pc.holds = false ∧ pc'.holds = true ∧ s.lock = none ∧ s'.lock = some n) ∨
        (pc.holds = true ∧ pc'.holds = false ∧ s'.lock = none) ∨
        (pc.holds = pc'.holds ∧ s'.lock = s.lock)) := by
  have hread : ∀ pc : NativePc, pc.part = .read → pc.holds = false := by
    intro pc hpart
    cases pc <;> simp_all [NativePc.part, NativePc.holds]
  cases h with
  | look before after =>
    exact ⟨rfl, .inr (.inr ⟨by rw [hread _ before.1, hread _ after], rfl⟩)⟩
  | take => exact ⟨rfl, .inr (.inr ⟨rfl, rfl⟩)⟩
  | enter free place =>
    rcases place with ⟨rfl, rfl⟩ | ⟨rfl, rfl⟩
    · exact ⟨rfl, .inl ⟨rfl, rfl, free, rfl⟩⟩
    · exact ⟨rfl, .inl ⟨rfl, rfl, free, rfl⟩⟩
  | already => exact ⟨rfl, .inr (.inl ⟨rfl, rfl, rfl⟩)⟩
  | begin => exact ⟨rfl, .inr (.inr ⟨rfl, rfl⟩)⟩
  | halt place =>
    rcases place with ⟨rfl, rfl⟩ | ⟨rfl, rfl⟩ | ⟨message, rfl, rfl⟩ <;>
      exact ⟨rfl, .inr (.inr ⟨rfl, rfl⟩)⟩
  | close place =>
    rcases place with ⟨rfl, rfl⟩ | ⟨rfl, rfl⟩ <;> exact ⟨rfl, .inr (.inr ⟨rfl, rfl⟩)⟩
  | reset => exact ⟨rfl, .inr (.inr ⟨rfl, rfl⟩)⟩
  | call place =>
    rcases place with ⟨rfl, rfl, -⟩ | ⟨rfl, rfl, -⟩ <;> exact ⟨rfl, .inr (.inr ⟨rfl, rfl⟩)⟩
  | started => exact ⟨rfl, .inr (.inr ⟨rfl, rfl⟩)⟩
  | failed => exact ⟨rfl, .inr (.inr ⟨rfl, rfl⟩)⟩
  | run => exact ⟨rfl, .inr (.inl ⟨rfl, rfl, rfl⟩)⟩
  | unwind => exact ⟨rfl, .inr (.inl ⟨rfl, rfl, rfl⟩)⟩
  | stopped => exact ⟨rfl, .inr (.inl ⟨rfl, rfl, rfl⟩)⟩

/-- A place that waits for a core call is entered with the call and left
with its result; otherwise the core calls are as before. -/
theorem NativeMove.waits {n : Nat} {pc pc' : NativePc} (h : NativeMove n s pc pc' s') :
    (s'.core = s.core ∧ pc'.awaits = none ∧ pc.awaits = none) ∨
      (∃ op, pc.awaits = none ∧ pc'.awaits = some op ∧
        s.core.invoke (coreId n) none op = some s'.core) ∨
      (pc'.awaits = none ∧ s.core.collect (coreId n) = some s'.core) := by
  have hread : ∀ pc : NativePc, pc.part = .read → pc.awaits = none := by
    intro pc hpart
    cases pc <;> simp_all [NativePc.part, NativePc.awaits]
  cases h with
  | look before after => exact .inl ⟨rfl, hread _ after, hread _ before.1⟩
  | take => exact .inl ⟨rfl, rfl, rfl⟩
  | enter free place =>
    rcases place with ⟨rfl, rfl⟩ | ⟨rfl, rfl⟩ <;> exact .inl ⟨rfl, rfl, rfl⟩
  | already => exact .inl ⟨rfl, rfl, rfl⟩
  | begin => exact .inl ⟨rfl, rfl, rfl⟩
  | halt place =>
    rcases place with ⟨rfl, rfl⟩ | ⟨rfl, rfl⟩ | ⟨message, rfl, rfl⟩ <;> exact .inl ⟨rfl, rfl, rfl⟩
  | close place => rcases place with ⟨rfl, rfl⟩ | ⟨rfl, rfl⟩ <;> exact .inl ⟨rfl, rfl, rfl⟩
  | reset => exact .inl ⟨rfl, rfl, rfl⟩
  | call place invoke =>
    rcases place with ⟨rfl, rfl, rfl⟩ | ⟨rfl, rfl, rfl⟩ <;>
      exact .inr (.inl ⟨_, rfl, rfl, invoke⟩)
  | started _ collect _ => exact .inr (.inr ⟨rfl, collect⟩)
  | failed _ collect => exact .inr (.inr ⟨rfl, collect⟩)
  | run => exact .inl ⟨rfl, rfl, rfl⟩
  | unwind => exact .inl ⟨rfl, rfl, rfl⟩
  | stopped _ collect => exact .inr (.inr ⟨rfl, collect⟩)

/-- A core call made or taken off by a thread outside the core. -/
theorem invoke_outside {core core' : Sys} {c : Nat} {op : Op}
    (h : core.invoke c none op = some core') :
    core.calls c = none ∧ core' = core.setCall c (some ⟨none, op, op.entry⟩) := by
  unfold Sys.invoke at h
  split at h
  · cases h
  · rename_i hfree
    cases h
    exact ⟨by simpa using hfree, rfl⟩

theorem collect_outside {core core' : Sys} {c : Nat}
    (hcaller : ∀ call, core.calls c = some call → call.caller = none)
    (h : core.collect c = some core') : core' = core.setCall c none := by
  unfold Sys.collect at h
  split at h
  · rename_i caller op result hcall
    obtain rfl : caller = none := hcaller _ hcall
    exact (Option.some.inj h).symm
  · cases h

/-- The core calls after a step of the core. -/
inductive CoreCalls (config : Config) (core core' : Sys) : Prop where
  | same (calls : core'.calls = core.calls)
  | made {c : Nat} {op : Op} (odd : c % 2 = 1) (passes : Core.Op.passes op = true)
      (after : core' = core.setCall c (some ⟨none, op, op.entry⟩))
  | collected {c : Nat} (odd : c % 2 = 1) (after : core' = core.setCall c none)
  | moved {c : Nat} {call : Call} {choice : CallChoice} {pc' : CallPc} {u : Sys}
      (present : core.calls c = some call)
      (step : callStep config c call choice core = some (pc', u))
      (after : core' = u.setCall c (some { call with pc := pc' }))

theorem Native.CallsWf.core_calls (h : s.CallsWf) {l : Label}
    (hstep : s.coreStep P config l = some s') : CoreCalls config s.core s'.core := by
  obtain ⟨hcore, -, hinvoke, hcollect⟩ := Native.coreStep_cases hstep
  generalize s'.core = core' at hcore ⊢
  cases Sys.step_move hcore with
  | tick ticks => exact .same rfl
  | places label places =>
    rcases label with ⟨c, caller, op, rfl⟩ | ⟨c, rfl⟩
    · obtain ⟨hodd, rfl, hpasses⟩ := hinvoke c caller op rfl
      exact .made hodd hpasses (invoke_outside hcore).2
    · have hodd := hcollect c rfl
      exact .collected hodd (collect_outside (fun call hc => (h.others c call hodd hc).1) hcore)
  | call choice present step => exact .moved present step rfl
  | worker => exact .same rfl

theorem CallFits.step {core u : Sys} {c : Nat} {call : Call} {choice : CallChoice} {pc' : CallPc}
    (h : CallFits call.op call.pc) (hstep : callStep config c call choice core = some (pc', u)) :
    CallFits call.op pc' := by
  rcases callStep_continues hstep with ⟨hpart, -⟩ | ⟨result, rfl⟩
  · rcases h with hfits | ⟨result, hreturned⟩
    · exact .inl (hpart.trans hfits)
    · simp [callStep, hreturned, CallPc.part, otherStep] at hstep
  · exact .inr ⟨result, rfl⟩

/-- A step of the core keeps the calls where they belong. -/
theorem Native.CallsWf.core (h : s.CallsWf) {core : Sys}
    (hcalls : CoreCalls config s.core core) {u : Native} (hcore : u.core = core)
    (hlock : u.lock = s.lock) (hsame : u.calls = s.calls) : u.CallsWf := by
  subst hcore
  refine ⟨by rw [hlock, hsame]; exact h.owner, ?_, ?_, ?_⟩
  · rw [hsame]
    intro n call hc
    cases hcalls with
    | same calls => exact h.waits n call (calls ▸ hc)
    | made odd _ after =>
      rw [after, Sys.setCall_calls_of_ne _ _ (odd_ne_coreId odd).symm] at hc
      exact h.waits n call hc
    | collected odd after =>
      rw [after, Sys.setCall_calls_of_ne _ _ (odd_ne_coreId odd).symm] at hc
      exact h.waits n call hc
    | moved present step after =>
      rw [after] at hc
      rcases Sys.setCall_cases hc with ⟨rfl, heq⟩ | ⟨-, hc⟩
      · cases heq
        obtain ⟨hcaller, hfits, howner⟩ := h.waits n _ present
        exact ⟨hcaller, hfits.step step, howner⟩
      · exact h.waits n call (callMove_calls (callStep_move step) ▸ hc)
  · rw [hsame]
    intro n nc op hn hawaits
    obtain ⟨call, hc, hop⟩ := h.present n nc op hn hawaits
    cases hcalls with
    | same calls => exact ⟨call, calls ▸ hc, hop⟩
    | made odd _ after =>
      refine ⟨call, ?_, hop⟩
      rw [after, Sys.setCall_calls_of_ne _ _ (odd_ne_coreId odd).symm]
      exact hc
    | collected odd after =>
      refine ⟨call, ?_, hop⟩
      rw [after, Sys.setCall_calls_of_ne _ _ (odd_ne_coreId odd).symm]
      exact hc
    | @moved c call' _ pc' v present step after =>
      rw [after]
      by_cases heq : coreId n = c
      · subst heq
        rw [present] at hc
        cases hc
        exact ⟨_, Sys.setCall_calls_self _ _ _, hop⟩
      · refine ⟨call, ?_, hop⟩
        rw [Sys.setCall_calls_of_ne _ _ heq, callMove_calls (callStep_move step)]
        exact hc
  · intro c call hodd hc
    cases hcalls with
    | same calls => exact h.others c call hodd (calls ▸ hc)
    | @made _ op _ passes after =>
      rw [after] at hc
      rcases Sys.setCall_cases hc with ⟨rfl, heq⟩ | ⟨-, hc⟩
      · cases heq
        exact ⟨rfl, by cases op <;> first | rfl | cases passes⟩
      · exact h.others c call hodd hc
    | collected _ after =>
      rw [after] at hc
      rcases Sys.setCall_cases hc with ⟨rfl, heq⟩ | ⟨-, hc⟩
      · cases heq
      · exact h.others c call hodd hc
    | moved present step after =>
      rw [after] at hc
      rcases Sys.setCall_cases hc with ⟨rfl, heq⟩ | ⟨-, hc⟩
      · cases heq
        obtain ⟨hcaller, hpart⟩ := h.others c _ hodd present
        refine ⟨hcaller, ?_⟩
        rcases callStep_continues step with ⟨hsame, -⟩ | ⟨result, rfl⟩
        · exact hsame.trans hpart
        · rfl
      · exact h.others c call hodd (callMove_calls (callStep_move step) ▸ hc)

/-- The owner of the lock after a step of the native call `n`. -/
theorem Native.CallsWf.owner_step (h : s.CallsWf) {n : Nat} {call : NativeCall} {pc' : NativePc}
    (hn : s.calls n = some call) (hmove : NativeMove n s call.pc pc' s') (m : Nat) :
    s'.lock = some m ↔
      ∃ c, (s'.setCall n (some { call with pc := pc' })).calls m = some c ∧ c.pc.holds = true := by
  obtain ⟨hcalls, hlock⟩ := hmove.lock
  have hmine := h.owner n
  rw [hn] at hmine
  by_cases hm : m = n
  · subst hm
    rw [Native.setCall_calls_self]
    rcases hlock with ⟨-, hafter, -, htaken⟩ | ⟨-, hafter, hfreed⟩ | ⟨hsame, hkept⟩
    · simp [htaken, hafter]
    · simp [hfreed, hafter]
    · rw [hkept, hmine]
      simp [hsame]
  · rw [Native.setCall_calls_of_ne _ _ hm, hcalls]
    have hothers := h.owner m
    rcases hlock with ⟨-, -, hfree, htaken⟩ | ⟨hbefore, -, hfreed⟩ | ⟨-, hkept⟩
    · rw [htaken, ← hothers, hfree]
      simp [Ne.symm hm]
    · rw [hfreed, ← hothers, hmine.mpr ⟨call, rfl, hbefore⟩]
      simp [Ne.symm hm]
    · rw [hkept]
      exact hothers

theorem Native.CallsWf.call (h : s.CallsWf) {n : Nat} {call : NativeCall} {pc' : NativePc}
    (hn : s.calls n = some call) (hmove : NativeMove n s call.pc pc' s') :
    (s'.setCall n (some { call with pc := pc' })).CallsWf := by
  obtain ⟨hcalls, -⟩ := hmove.lock
  -- the core calls, and what the place after the step waits for
  have hcore : (s'.core.calls = s.core.calls ∧ pc'.awaits = none ∧ call.pc.awaits = none) ∨
      (∃ op, call.pc.awaits = none ∧ pc'.awaits = some op ∧
        s'.core = s.core.setCall (coreId n) (some ⟨none, op, op.entry⟩)) ∨
      (pc'.awaits = none ∧ s'.core = s.core.setCall (coreId n) none) := by
    rcases hmove.waits with ⟨hsame, hafter, hbefore⟩ | ⟨op, hbefore, hafter, hinvoke⟩ |
      ⟨hafter, hcollect⟩
    · exact .inl ⟨by rw [hsame], hafter, hbefore⟩
    · exact .inr (.inl ⟨op, hbefore, hafter, (invoke_outside hinvoke).2⟩)
    · exact .inr (.inr ⟨hafter, collect_outside (fun c hc => (h.waits n c hc).1) hcollect⟩)
  have hne : ∀ {m : Nat}, m ≠ n → coreId m ≠ coreId n := fun hm heq => hm (coreId_inj heq)
  refine ⟨h.owner_step hn hmove, ?_, ?_, ?_⟩
  · intro m c hc
    change s'.core.calls (coreId m) = some c at hc
    by_cases hm : m = n
    · subst hm
      rw [Native.setCall_calls_self]
      rcases hcore with ⟨hsame, -, hbefore⟩ | ⟨op, -, hafter, hset⟩ | ⟨-, hset⟩
      · obtain ⟨-, -, nc, hnc, hawaits⟩ := h.waits m c (hsame ▸ hc)
        rw [hn] at hnc
        cases hnc
        rw [hbefore] at hawaits
        cases hawaits
      · rw [hset, Sys.setCall_calls_self] at hc
        cases hc
        exact ⟨rfl, .inl rfl, _, rfl, hafter⟩
      · rw [hset, Sys.setCall_calls_self] at hc
        cases hc
    · rw [Native.setCall_calls_of_ne _ _ hm, hcalls]
      rcases hcore with ⟨hsame, -⟩ | ⟨op, -, -, hset⟩ | ⟨-, hset⟩
      · exact h.waits m c (hsame ▸ hc)
      · rw [hset, Sys.setCall_calls_of_ne _ _ (hne hm)] at hc
        exact h.waits m c hc
      · rw [hset, Sys.setCall_calls_of_ne _ _ (hne hm)] at hc
        exact h.waits m c hc
  · intro m nc op hm' hawaits
    change ∃ c, s'.core.calls (coreId m) = some c ∧ c.op = op
    rcases Native.setCall_cases hm' with ⟨rfl, heq⟩ | ⟨hm, hold⟩
    · cases heq
      rcases hcore with ⟨-, hafter, -⟩ | ⟨op', -, hafter, hset⟩ | ⟨hafter, -⟩
      · rw [hafter] at hawaits
        cases hawaits
      · rw [hset, Sys.setCall_calls_self]
        exact ⟨_, rfl, Option.some.inj (hafter.symm.trans hawaits)⟩
      · rw [hafter] at hawaits
        cases hawaits
    · rw [hcalls] at hold
      obtain ⟨c, hc, hop⟩ := h.present m nc op hold hawaits
      refine ⟨c, ?_, hop⟩
      rcases hcore with ⟨hsame, -⟩ | ⟨op', -, -, hset⟩ | ⟨-, hset⟩
      · rw [hsame]
        exact hc
      · rw [hset, Sys.setCall_calls_of_ne _ _ (hne hm)]
        exact hc
      · rw [hset, Sys.setCall_calls_of_ne _ _ (hne hm)]
        exact hc
  · intro c k hodd hc
    change s'.core.calls c = some k at hc
    rcases hcore with ⟨hsame, -⟩ | ⟨op, -, -, hset⟩ | ⟨-, hset⟩
    · exact h.others c k hodd (hsame ▸ hc)
    · rw [hset, Sys.setCall_calls_of_ne _ _ (odd_ne_coreId hodd)] at hc
      exact h.others c k hodd hc
    · rw [hset, Sys.setCall_calls_of_ne _ _ (odd_ne_coreId hodd)] at hc
      exact h.others c k hodd hc

/-- A call that holds nothing and waits for nothing comes or goes. -/
theorem Native.CallsWf.idle (h : s.CallsWf) {n : Nat} {before after : Option NativeCall}
    (hn : s.calls n = before)
    (hbefore : ∀ c, before = some c → c.pc.holds = false)
    (hafter : ∀ c, after = some c → c.pc.holds = false) : (s.setCall n after).CallsWf := by
  have hawaits : ∀ c op, after = some c → c.pc.awaits ≠ some op := by
    intro c op hc hop
    exact absurd (NativePc.holds_of_awaits hop) (by rw [hafter c hc]; simp)
  refine ⟨?_, ?_, ?_, h.others⟩
  · intro m
    have hm := h.owner m
    change s.lock = some m ↔ _
    by_cases heq : m = n
    · subst heq
      rw [hm, Native.setCall_calls_self, hn]
      constructor
      · rintro ⟨c, hc, hholds⟩
        rw [hbefore c hc] at hholds
        cases hholds
      · rintro ⟨c, hc, hholds⟩
        rw [hafter c hc] at hholds
        cases hholds
    · rw [Native.setCall_calls_of_ne _ _ heq]
      exact hm
  · intro m c hc
    obtain ⟨hcaller, hfits, nc, hnc, hop⟩ := h.waits m c hc
    have hm : m ≠ n := by
      rintro rfl
      have hholds := NativePc.holds_of_awaits hop
      rw [hbefore nc (hn ▸ hnc)] at hholds
      cases hholds
    exact ⟨hcaller, hfits, nc, by rw [Native.setCall_calls_of_ne _ _ hm]; exact hnc, hop⟩
  · intro m nc op hm hop
    rcases Native.setCall_cases hm with ⟨-, heq⟩ | ⟨-, hold⟩
    · exact absurd hop (hawaits nc op heq)
    · exact h.present m nc op hold hop

theorem NativeOp.entry_free (op : NativeOp) : op.entry.holds = false := by
  cases op <;> rfl

theorem Native.CallsWf.step (h : s.CallsWf) {l : NativeLabel}
    (hstep : s.step P config l = some s') : s'.CallsWf := by
  cases Native.step_move hstep with
  | core step =>
    have hcontrol := Native.coreStep_control step
    exact h.core (h.core_calls step) rfl hcontrol.lock hcontrol.calls
  | @invoke n op free =>
    refine h.idle free (by simp) ?_
    rintro c ⟨⟩
    exact op.entry_free
  | call present move => exact h.call present move
  | collect present =>
    refine h.idle present ?_ (by simp)
    rintro c ⟨⟩
    rfl

theorem callsWf_of_reachable (h : (nativeLts P config).Reachable s) : s.CallsWf := by
  refine Lts.Reach.invariant ?_ (fun s l t _ hstep hs => hs.step hstep) h
  rintro s ⟨clock, capacity, queue, -, -, rfl⟩
  constructor <;> simp [Sys.new]

end Calls

/-! ## A native call is in its own function -/

/-- Every call is at a place of the function it calls, or has returned. -/
def Native.FitsWf (s : Native) : Prop :=
  ∀ n call, s.calls n = some call →
    call.pc.part = call.op.entry.part ∨ ∃ result, call.pc = .returned result

section Fits

variable {P : Platform} {config : Config} {s s' : Native}

theorem NativeMove.part {n : Nat} {pc pc' : NativePc} (h : NativeMove n s pc pc' s') :
    (pc'.part = pc.part ∨ ∃ result, pc' = .returned result) ∧ ∀ result, pc ≠ .returned result := by
  cases h with
  | look before after => exact ⟨.inl (after.trans before.1.symm), before.2⟩
  | enter _ place => rcases place with ⟨rfl, rfl⟩ | ⟨rfl, rfl⟩ <;> exact ⟨.inl rfl, by simp⟩
  | halt place =>
    rcases place with ⟨rfl, rfl⟩ | ⟨rfl, rfl⟩ | ⟨message, rfl, rfl⟩ <;> exact ⟨.inl rfl, by simp⟩
  | close place => rcases place with ⟨rfl, rfl⟩ | ⟨rfl, rfl⟩ <;> exact ⟨.inl rfl, by simp⟩
  | call place => rcases place with ⟨rfl, rfl, -⟩ | ⟨rfl, rfl, -⟩ <;> exact ⟨.inl rfl, by simp⟩
  | begin | reset | started | failed => exact ⟨.inl rfl, by simp⟩
  | take | already | run | unwind | stopped => exact ⟨.inr ⟨_, rfl⟩, by simp⟩

theorem Native.FitsWf.step (h : s.FitsWf) {l : NativeLabel} (hstep : s.step P config l = some s') :
    s'.FitsWf := by
  intro n call hn
  cases Native.step_move hstep with
  | core step => exact h n call ((Native.coreStep_control step).calls ▸ hn)
  | @invoke m op free =>
    rcases Native.setCall_cases hn with ⟨rfl, heq⟩ | ⟨-, hn⟩
    · cases heq
      exact .inl rfl
    · exact h n call hn
  | @call m before pc' u present move =>
    rcases Native.setCall_cases hn with ⟨rfl, heq⟩ | ⟨-, hn⟩
    · cases heq
      rcases move.part.1 with hpart | hreturned
      · rcases h n before present with hfits | ⟨result, hdone⟩
        · exact .inl (hpart.trans hfits)
        · exact absurd hdone (move.part.2 result)
      · exact .inr hreturned
    · exact h n call (move.lock.1 ▸ hn)
  | collect =>
    rcases Native.setCall_cases hn with ⟨-, heq⟩ | ⟨-, hn⟩
    · cases heq
    · exact h n call hn

theorem fitsWf_of_reachable (h : (nativeLts P config).Reachable s) : s.FitsWf := by
  refine Lts.Reach.invariant (I := Native.FitsWf) ?_ (fun _ _ _ _ hstep hs => hs.step hstep) h
  rintro s ⟨clock, capacity, queue, -, -, rfl⟩ n call hn
  cases hn

/-- A native call sets `running_` at the end of a `start`. -/
theorem NativeMove.running {n : Nat} {pc pc' : NativePc} (h : NativeMove n s pc pc' s')
    (hon : s'.running = true) :
    s.running = true ∧ pc ≠ .stopHalt ∨ pc = .startRun ∧ pc' = .returned .done := by
  cases h with
  | run => exact .inr ⟨rfl, rfl⟩
  | halt => cases hon
  | look before => exact .inl ⟨hon, fun heq => by rw [heq] at before; cases before.1⟩
  | enter _ place => rcases place with ⟨rfl, -⟩ | ⟨rfl, -⟩ <;> exact .inl ⟨hon, by simp⟩
  | close place => rcases place with ⟨rfl, -⟩ | ⟨rfl, -⟩ <;> exact .inl ⟨hon, by simp⟩
  | call place => rcases place with ⟨rfl, -⟩ | ⟨rfl, -⟩ <;> exact .inl ⟨hon, by simp⟩
  | _ => exact .inl ⟨hon, by simp⟩

theorem NativeMove.stop_enters {n : Nat} {pc pc' : NativePc} (h : NativeMove n s pc pc' s')
    (hpc : pc = .stopEnter) : pc' = .stopHalt := by
  subst hpc
  cases h with
  | look before => cases before.1
  | enter _ place => rcases place with ⟨heq, -⟩ | ⟨-, rfl⟩ <;> first | cases heq | rfl
  | halt place => rcases place with ⟨heq, -⟩ | ⟨heq, -⟩ | ⟨message, heq, -⟩ <;> cases heq
  | close place => rcases place with ⟨heq, -⟩ | ⟨heq, -⟩ <;> cases heq
  | call place => rcases place with ⟨heq, -⟩ | ⟨heq, -⟩ <;> cases heq

/-- The places of a `start` behind `queue_.reset`. -/
def NativePc.begun : NativePc → Bool
  | .startCore | .startAwait | .startRun | .returned .done => true
  | _ => false

theorem NativeMove.begun {n : Nat} {pc pc' : NativePc} (h : NativeMove n s pc pc' s')
    (hpc' : pc'.begun = true) : pc.begun = true ∨ pc = .startReset ∨ pc.part ≠ .start ∨
      pc = .startCheck ∧ s.running = true := by
  cases h with
  | look before => exact .inr (.inr (.inl (by rw [before.1]; simp)))
  | enter _ place => rcases place with ⟨-, rfl⟩ | ⟨-, rfl⟩ <;> cases hpc'
  | already running => exact .inr (.inr (.inr ⟨rfl, running⟩))
  | halt place => rcases place with ⟨-, rfl⟩ | ⟨-, rfl⟩ | ⟨message, -, rfl⟩ <;> cases hpc'
  | close place => rcases place with ⟨-, rfl⟩ | ⟨-, rfl⟩ <;> cases hpc'
  | reset => exact .inr (.inl rfl)
  | call place => rcases place with ⟨rfl, -⟩ | ⟨-, rfl, -⟩ <;> first | exact .inl rfl | cases hpc'
  | started | run => exact .inl rfl
  | stopped => exact .inr (.inr (.inl (by simp [NativePc.part])))
  | take | begin | failed | unwind => cases hpc'

theorem NativeMove.resets {n : Nat} {pc pc' : NativePc} (h : NativeMove n s pc pc' s')
    (hpc : pc = .startReset) : s' = s.resetQueue := by
  subst hpc
  cases h with
  | look before => cases before.1
  | enter _ place => rcases place with ⟨heq, -⟩ | ⟨heq, -⟩ <;> cases heq
  | halt place => rcases place with ⟨heq, -⟩ | ⟨heq, -⟩ | ⟨message, heq, -⟩ <;> cases heq
  | close place => rcases place with ⟨heq, -⟩ | ⟨heq, -⟩ <;> cases heq
  | reset => rfl
  | call place => rcases place with ⟨heq, -⟩ | ⟨heq, -⟩ <;> cases heq

/-- A native call that a thread makes is at its entry. -/
theorem Native.invoke_calls {n : Nat} {op : NativeOp} (h : s.invoke n op = some s') :
    s'.calls n = some ⟨op, op.entry⟩ := by
  simp only [Native.invoke] at h
  split at h
  · cases h
  · rw [← Option.some.inj h, Native.setCall_calls_self]

end Fits

end PyNetFT.Bindings
