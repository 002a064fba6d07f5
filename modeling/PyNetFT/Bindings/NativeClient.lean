/-
PyNetFT.Bindings.NativeClient — `NativeClient` of the Python bindings
(`bindings/python/native_client.cpp`): the core client with a
`SampleQueue` as its sample callback.

The core client is the system of `PyNetFT.Core.System`, unchanged; a
native call of `start` or `stop` makes a core call and waits for it. The
callback is `queue_.push`: when a receive thread returns from its
callback, the sample is in the queue. `start` and `stop` run under
`lifecycle_mutex_`, `read` takes no lock but the queue's, and looks at
`running_` and at the fault latch one at a time.

`Run` and the stamps on samples are ghosts. A run begins when `start`
resets the queue; its receive thread is the next one the core creates.
-/
import PyNetFT.Core.System
import PyNetFT.Bindings.SampleQueue

namespace PyNetFT.Bindings

open PyNetFT.Lib PyNetFT.Core

/-! ## State -/

/-- A sample as pushed: by which receive thread, and as the how-many-th
of its run. -/
structure Stamped where
  worker : Nat
  index : Nat
  sample : Sample
  deriving DecidableEq

/-- What happened in one run: the generation of the queue, the receive
thread, the core's delivered count at the beginning, and the samples
pushed and taken. -/
structure Run where
  generation : Nat := 0
  worker : Nat := 0
  deliveredBefore : Nat := 0
  pushed : List Stamped := []
  taken : List Stamped := []
  deriving DecidableEq

inductive NativeOp where
  | start
  | stop
  | read (timeout : Option Binary64)
  deriving DecidableEq

/-- The locals of `read`; the timeout is in seconds. -/
structure Reading where
  timeout : Option ℚ
  generation : Nat
  startedAt : TimePoint
  deriving DecidableEq

/-- The two readings of the clock for one slice: `wait_duration` is
computed at the first, and `wait_for` adds it to the second. -/
structure Slice where
  measuredAt : TimePoint
  enteredAt : TimePoint
  deriving DecidableEq

inductive NativeResult where
  | done
  | threw (message : String)
  | read (generation : Nat) (result : ReadResult Stamped)
  deriving DecidableEq

inductive NativePc where
  -- start
  | startEnter
  | startCheck
  | startHalt
  | startClose
  | startReset
  | startCore
  | startAwait
  | startRun
  | startUnwind (message : String)
  | startUnwindClose (message : String)
  -- stop
  | stopEnter
  | stopHalt
  | stopClose
  | stopCore
  | stopAwait
  -- read
  | readEnter (timeout : Option Binary64)
  | readCapture (timeout : Option ℚ)
  | readClock (timeout : Option ℚ) (generation : Nat)
  | readRunning (reading : Reading)
  | readFault (reading : Reading)
  | readSlice (reading : Reading)
  | readFor (reading : Reading) (measuredAt : TimePoint)
  | readWait (reading : Reading) (slice : Slice)
  | readRunningAgain (reading : Reading)
  | readFaultAgain (reading : Reading)
  | readTime (reading : Reading)
  | returned (result : NativeResult)
  deriving DecidableEq

structure NativeCall where
  op : NativeOp
  pc : NativePc
  deriving DecidableEq

/-- `lock` is the owner of `lifecycle_mutex_`. -/
structure Native where
  core : Sys
  queue : SampleQueue Stamped
  running : Bool := false
  lock : Option Nat := none
  calls : Nat → Option NativeCall := fun _ => none
  run : Run := {}
  history : List Run := []

/-- All runs, the current one last. -/
def Native.runs (s : Native) : List Run := s.history ++ [s.run]

/-! ## The pieces -/

/-- The core call of the native call `n`; odd numbers are left to the
calls that do not go through the queue. -/
def coreId (n : Nat) : Nat := 2 * n

/-- `require_representable_timeout`. -/
def requireRepresentableTimeout (seconds : Binary64) (name : String) : Except String Unit :=
  if seconds.isFinite = false ∨ seconds.value < 0 then
    .error (name ++ " must be finite and non-negative")
  else if (maxTicks : ℚ) / ticksPerSecond < seconds.value then
    .error (name ++ " exceeds the native clock range")
  else .ok ()

/-- `kReadSlice` in seconds. -/
def readSliceSeconds : ℚ := 1 / 20

/-- Seconds since the read was entered. -/
def Reading.elapsed (r : Reading) (now : TimePoint) : ℚ :=
  ((now : ℚ) - r.startedAt) / ticksPerSecond

/-- The `wait_duration` of one slice. -/
def Reading.waitDuration (r : Reading) (now : TimePoint) : ℚ :=
  match r.timeout with
  | none => readSliceSeconds
  | some timeout => min readSliceSeconds (max 0 (timeout - r.elapsed now))

/-- When the wait of a slice is over. -/
def Reading.deadline (r : Reading) (slice : Slice) : ℚ :=
  slice.enteredAt + r.waitDuration slice.measuredAt * ticksPerSecond

/-- `running_ = ...` and the queue operations. -/
def Native.setRunning (s : Native) (running : Bool) : Native := { s with running := running }

def Native.closeQueue (s : Native) : Native := { s with queue := s.queue.close }

/-- `queue_.reset()` begins a run. -/
def Native.resetQueue (s : Native) : Native :=
  { s with
    queue := s.queue.reset
    history := s.history ++ [s.run]
    run :=
      { generation := s.queue.closeGeneration
        worker := s.core.created
        deliveredBefore := s.core.shared.health.deliveredCount } }

/-- A sample leaves the queue towards a reader. -/
def Native.take (s : Native) (queue : SampleQueue Stamped) : ReadResult Stamped → Native
  | .sample x => { s with queue := queue, run := { s.run with taken := s.run.taken ++ [x] } }
  | _ => { s with queue := queue }

/-- The callback of a receive thread: `queue_.push`. A push that throws
has already made room. -/
def Native.callback (s : Native) (w : Nat) (choice : WorkerChoice) : Native :=
  match s.core.workers w with
  | some ⟨.callback _ _ sample, _, _⟩ =>
      match choice with
      | .callbackReturns =>
          let x : Stamped := ⟨w, s.run.pushed.length, sample⟩
          { s with
            queue := s.queue.push x
            run := { s.run with pushed := s.run.pushed ++ [x] } }
      | .callbackThrows _ => { s with queue := s.queue.makeRoom }
      | _ => s
  | _ => s

/-! ## Native calls -/

/-- The result of the core call a native call waits for, taken off. -/
def Native.coreReturned (s : Native) (n : Nat) : Option (CallResult × Native) :=
  match s.core.calls (coreId n) with
  | some ⟨_, _, .returned result⟩ =>
      (s.core.collect (coreId n)).map fun core => (result, { s with core := core })
  | _ => none

/-- The steps of `NativeClient::start`. -/
def startStep (n : Nat) (s : Native) : NativePc → Option (NativePc × Native)
  | .startEnter => if s.lock.isSome then none else some (.startCheck, { s with lock := some n })
  | .startCheck =>
      if s.running ∧ s.core.shared.faulted = false then
        some (.returned .done, { s with lock := none })
      else some (.startHalt, s)
  | .startHalt => some (.startClose, s.setRunning false)
  | .startClose => some (.startReset, s.closeQueue)
  | .startReset => some (.startCore, s.resetQueue)
  | .startCore =>
      (s.core.invoke (coreId n) none (.start (some 0))).map fun core =>
        (.startAwait, { s with core := core })
  | .startAwait =>
      match s.coreReturned n with
      | some (.threw message, s) => some (.startUnwind message, s)
      | some (_, s) => some (.startRun, s)
      | none => none
  | .startRun => some (.returned .done, { s.setRunning true with lock := none })
  | .startUnwind message => some (.startUnwindClose message, s.setRunning false)
  | .startUnwindClose message =>
      some (.returned (.threw message), { s.closeQueue with lock := none })
  | _ => none

/-- The steps of `NativeClient::stop`. -/
def stopStep (n : Nat) (s : Native) : NativePc → Option (NativePc × Native)
  | .stopEnter => if s.lock.isSome then none else some (.stopHalt, { s with lock := some n })
  | .stopHalt => some (.stopClose, s.setRunning false)
  | .stopClose => some (.stopCore, s.closeQueue)
  | .stopCore =>
      (s.core.invoke (coreId n) none .stop).map fun core => (.stopAwait, { s with core := core })
  | .stopAwait => (s.coreReturned n).map fun r => (.returned .done, { r.2 with lock := none })
  | _ => none

/-- The steps of `NativeClient::read`. -/
def readStep (s : Native) : NativePc → Option (NativePc × Native)
  | .readEnter timeout =>
      match timeout with
      | none => some (.readCapture none, s)
      | some seconds =>
          match requireRepresentableTimeout seconds "timeout" with
          | .error message => some (.returned (.threw message), s)
          | .ok _ => some (.readCapture (some seconds.value), s)
  | .readCapture timeout => some (.readClock timeout s.queue.closeGeneration, s)
  | .readClock timeout generation =>
      some (.readRunning ⟨timeout, generation, s.core.shared.clock⟩, s)
  | .readRunning r =>
      some (if s.running then .readFault r else .returned (.read r.generation .closed), s)
  | .readFault r =>
      some (if s.core.shared.faulted then .returned (.read r.generation .closed)
        else .readSlice r, s)
  | .readSlice r => some (.readFor r s.core.shared.clock, s)
  | .readFor r measuredAt => some (.readWait r ⟨measuredAt, s.core.shared.clock⟩, s)
  | .readWait r slice =>
      match s.queue.readFor r.generation (decide (r.deadline slice ≤ s.core.shared.clock)) with
      | none => none
      | some (.timeout, queue) => some (.readRunningAgain r, { s with queue := queue })
      | some (result, queue) => some (.returned (.read r.generation result), s.take queue result)
  | .readRunningAgain r =>
      some (if s.running then .readFaultAgain r else .returned (.read r.generation .closed), s)
  | .readFaultAgain r =>
      some (if s.core.shared.faulted then .returned (.read r.generation .closed)
        else .readTime r, s)
  | .readTime r =>
      some (match r.timeout with
        | none => .readRunning r
        | some timeout =>
            if timeout ≤ r.elapsed s.core.shared.clock then
              .returned (.read r.generation .timeout)
            else .readRunning r, s)
  | _ => none

/-- Which function a place belongs to. -/
inductive NativePart where
  | start | stop | read
  deriving DecidableEq

def NativePc.part : NativePc → NativePart
  | .startEnter | .startCheck | .startHalt | .startClose | .startReset | .startCore | .startAwait
  | .startRun | .startUnwind _ | .startUnwindClose _ => .start
  | .stopEnter | .stopHalt | .stopClose | .stopCore | .stopAwait => .stop
  | _ => .read

def NativeOp.entry : NativeOp → NativePc
  | .start => .startEnter
  | .stop => .stopEnter
  | .read timeout => .readEnter timeout

def nativeStep (n : Nat) (s : Native) (pc : NativePc) : Option (NativePc × Native) :=
  match pc.part with
  | .start => startStep n s pc
  | .stop => stopStep n s pc
  | .read => readStep s pc

/-! ## The system -/

def Native.setCall (s : Native) (n : Nat) (call : Option NativeCall) : Native :=
  { s with calls := Function.update s.calls n call }

/-- `bias`, `health`, `latest_sample` and `wait_for_first_sample` go
straight to the core. -/
def Core.Op.passes : Core.Op → Bool
  | .start _ | .stop => false
  | _ => true

/-- A step of the core. Its calls of `start` and `stop` belong to native
calls; no call comes from inside the callback. -/
def Native.coreStep (P : Platform) (config : Config) (s : Native) (l : Label) : Option Native :=
  match l with
  | .invoke c caller op =>
      if c % 2 = 1 ∧ caller = none ∧ Core.Op.passes op then
        (s.core.step P config l).map fun core => { s with core := core }
      else none
  | .collect c =>
      if c % 2 = 1 then (s.core.step P config l).map fun core => { s with core := core }
      else none
  | .worker w choice =>
      (s.core.step P config l).map fun core => { s.callback w choice with core := core }
  | .tick _ | .call _ _ => (s.core.step P config l).map fun core => { s with core := core }

inductive NativeLabel where
  | core (l : Label)
  | invoke (n : Nat) (op : NativeOp)
  | call (n : Nat)
  | collect (n : Nat)
  deriving DecidableEq

/-- A thread makes a native call. -/
def Native.invoke (s : Native) (n : Nat) (op : NativeOp) : Option Native :=
  if (s.calls n).isSome then none else some (s.setCall n (some ⟨op, op.entry⟩))

/-- A call that returned is taken off. -/
def Native.collect (s : Native) (n : Nat) : Option Native :=
  match s.calls n with
  | some ⟨_, .returned _⟩ => some (s.setCall n none)
  | _ => none

def Native.step (P : Platform) (config : Config) (s : Native) : NativeLabel → Option Native
  | .core l => s.coreStep P config l
  | .invoke n op => s.invoke n op
  | .call n =>
      match s.calls n with
      | none => none
      | some call =>
          (nativeStep n s call.pc).map fun r => r.2.setCall n (some { call with pc := r.1 })
  | .collect n => s.collect n

/-- `NativeClient::NativeClient` of an accepted configuration and queue
size. -/
def nativeLts (P : Platform) (config : Config) : Lts Native NativeLabel where
  init s := ∃ clock capacity queue, validateConfig clock config = .ok () ∧
    SampleQueue.new capacity = .ok queue ∧ s = { core := Sys.new config clock, queue := queue }
  step := Native.step P config

end PyNetFT.Bindings
