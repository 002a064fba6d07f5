/-
PyNetFT.Python.Client — `Client` of the Python package
(`src/pynetft/client.py`) over the native client.

The threads are the calls of `Client` methods, made by any thread or by a
user callback, and one dispatcher for each callback run. They share one
program counter type, because the locked ends of their work are the same
code: `_stop_locked` and the fault report. What a thread does while it
holds `_lock` is one step, unless it calls into the native client there;
then the lock stays taken from step to step. A native call is made, runs
among the steps of the native client and is collected.

Exceptions are values. Where the source only says that something may
raise, the environment chooses (`Choice`): building the run record or the
thread, `Thread.start` before or after the thread has really started, the
statements behind a native start, the user callback. `bias`,
`wait_for_first_sample`, `latest_sample` and `health` call the native
client and nothing else, so they are among its steps.
-/
import PyNetFT.Bindings.NativeClient

namespace PyNetFT.Python

open PyNetFT.Lib PyNetFT.Core PyNetFT.Bindings

/-! ## Exceptions and results -/

/-- `SensorFaultError`: the code and the `Health`, which is the native
snapshot with the drop count of the queue. -/
structure SensorFault where
  faultCode : FaultCode
  health : HealthSnapshot
  queueDroppedCount : Nat
  deriving DecidableEq

/-- The exceptions that leave the package. `native` is the translation of
a native exception, `other` any exception object that the environment
raises. -/
inductive PyError where
  | runtime (message : String)
  | timeout (message : String)
  | value (message : String)
  | configuration (message : String)
  | native (message : String)
  | sensorFault (fault : SensorFault)
  | other (error : Nat)
  | callbackError (cause : PyError)
  deriving DecidableEq

inductive PyResult where
  | done
  | iterator (i : Nat)
  | sample (x : Stamped)
  | stopIteration
  | raised (error : PyError)
  deriving DecidableEq

/-! ## Objects -/

inductive Mode where
  | iterator | callback
  deriving DecidableEq

/-- `_CallbackActivation`. -/
structure CallbackActivation where
  ready : Bool := false
  active : Bool := false
  deriving DecidableEq

def CallbackActivation.activate (_ : CallbackActivation) : CallbackActivation := ⟨true, true⟩

def CallbackActivation.cancel (_ : CallbackActivation) : CallbackActivation := ⟨true, false⟩

/-- `_CallbackRun`. A callback is a number; `thread` says whether the
handle of the run's own dispatcher is there. -/
structure CallbackRun where
  token : Nat := 0
  callback : Option Nat := none
  activation : CallbackActivation := {}
  completed : Bool := false
  thread : Bool := false
  callbackError : Option PyError := none
  failure : Option SensorFault := none
  deriving DecidableEq

inductive GeneratorState where
  | suspended | executing | exhausted
  deriving DecidableEq

/-- The generator that `samples` returns. -/
structure SampleIterator where
  token : Nat := 0
  timeout : Option Binary64 := none
  state : GeneratorState := .suspended
  deriving DecidableEq

/-! ## Threads -/

/-- A call, or the dispatcher of a run. -/
inductive Owner where
  | call (c : Nat)
  | dispatcher (r : Nat)
  deriving DecidableEq

/-- The native call of a thread; it has at most one. -/
def Owner.nativeId : Owner → Nat
  | .call c => 2 * c
  | .dispatcher r => 2 * r + 1

/-- The core call behind a thread's `native.health()`. -/
def Owner.healthId (o : Owner) : Nat := 4 * o.nativeId + 3

inductive ClientOp where
  | start (callback : Option Nat)
  | stop
  | samples (timeout : Option Binary64)
  | next (i : Nat)
  | wait (timeout : Bool)
  | raiseIfFailed
  | dispatch
  deriving DecidableEq

/-- The locals of `_start_iterator_locked` and `_start_callback_locked`;
`run` is the new run record of the latter. -/
structure Attempt where
  callback : Option Nat
  run : Option Nat
  previousToken : Nat
  previousRun : Option Nat
  deriving DecidableEq

/-- What follows `_stop_locked`: the rest of `stop` for the run it found,
the fault an iterator raises, or the end of a dispatcher. -/
inductive Ending where
  | stopped (run : Option Nat)
  | raised (i : Nat) (fault : SensorFault)
  | finish
  deriving DecidableEq

inductive Pc where
  -- start
  | startEnter (callback : Option Nat)
  | startJoin (callback : Option Nat) (r : Nat)
  | startJoining (callback : Option Nat) (r : Nat) (joined : Bool)
  | startJoined (callback : Option Nat) (r : Nat) (joined : Bool)
  | startBuild (a : Attempt)
  | startThread (a : Attempt)
  | startNative (a : Attempt)
  | startAwait (a : Attempt)
  | startInstall (a : Attempt)
  | startActivate (a : Attempt)
  | startRollback (a : Attempt) (error : PyError)
  | startUnwind (run : Option Nat) (error : PyError)
  | startUnwindAwait (run : Option Nat) (error : PyError)
  | startFailed (run : Option Nat) (error : PyError)
  -- stop
  | stopEnter
  | stopJoin (r : Nat)
  | stopJoining (r : Nat) (joined : Bool)
  | stopJoined (r : Nat) (joined : Bool)
  -- samples, wait, raise_if_failed
  | samplesEnter (timeout : Option Binary64)
  | waitEnter (timeout : Bool)
  | waitSelf (timeout : Bool) (r : Nat)
  | waitCompleted (timeout : Bool) (r : Nat)
  | waitJoin (r : Nat)
  | raiseEnter
  | raiseFailure (r : Nat)
  -- the generator of samples
  | nextEnter (i : Nat)
  | nextCheck (i : Nat)
  | nextRead (i : Nat)
  | nextAwait (i : Nat)
  | nextResult (i : Nat) (result : ReadResult Stamped)
  | nextClosed (i : Nat)
  -- the dispatcher
  | unstarted
  | awaitActivation
  | check
  | read
  | awaitRead
  | checkResult (result : ReadResult Stamped)
  | convert (x : Stamped)
  | checkSample (x : Stamped)
  | take (x : Stamped)
  | calling (callback : Nat) (x : Stamped)
  | failed (error : PyError)
  | record (error : PyError)
  | closed
  | orphanStop
  | orphanAwait
  | finish
  | finished
  -- under the lock: the fault report (of an iterator or of a dispatcher) and `_stop_locked`
  | faulted (iterator : Option Nat)
  | health (iterator : Option Nat)
  | healthAwait (iterator : Option Nat)
  | dropped (iterator : Option Nat) (health : HealthSnapshot)
  | code (iterator : Option Nat) (health : HealthSnapshot) (droppedCount : Nat)
  | halt (ending : Ending)
  | haltAwait (ending : Ending)
  | returned (result : PyResult)
  deriving DecidableEq

/-- `caller` is the run whose callback made the call; `nested` the call
that a callback is waiting for. -/
structure Thread where
  caller : Option Nat := none
  op : ClientOp
  pc : Pc
  nested : Option Nat := none
  deriving DecidableEq

/-! ## State -/

/-- `alive` is false once the client object has been garbage collected. -/
structure Client where
  native : Native
  constructorCallback : Option Nat := none
  lock : Option Owner := none
  running : Bool := false
  mode : Option Mode := none
  runToken : Nat := 0
  callbackRun : Option Nat := none
  runs : Nat → CallbackRun := fun _ => {}
  made : Nat := 0
  iterators : Nat → SampleIterator := fun _ => {}
  madeIterators : Nat := 0
  threads : Owner → Option Thread := fun _ => none
  inFlight : Nat := 0
  alive : Bool := true

namespace Client

def setRun (s : Client) (r : Nat) (run : CallbackRun) : Client :=
  { s with runs := Function.update s.runs r run }

def setIterator (s : Client) (i : Nat) (it : SampleIterator) : Client :=
  { s with iterators := Function.update s.iterators i it }

def setThread (s : Client) (o : Owner) (t : Option Thread) : Client :=
  { s with threads := Function.update s.threads o t }

/-- `with self._lock:` around code that calls into the native client. -/
def acquire (s : Client) (o : Owner) : Client := { s with lock := some o }

def release (s : Client) : Client := { s with lock := none }

/-- Has the thread of the run ended? -/
def finished (s : Client) (r : Nat) : Bool :=
  match s.threads (.dispatcher r) with
  | some t => decide (t.pc = .finished)
  | none => false

/-- `_join_callback_run` returns. -/
def joins (s : Client) (caller : Option Nat) (r : Nat) : Bool :=
  !(s.runs r).thread || decide (caller = some r) || s.finished r

/-- `callback_run.activation.cancel()` and `callback_run.callback = None`. -/
def cancelRun (s : Client) (r : Nat) : Client :=
  s.setRun r { s.runs r with activation := (s.runs r).activation.cancel, callback := none }

/-- A generator that returned or raised. -/
def exhaust (s : Client) (i : Nat) : Client :=
  s.setIterator i { s.iterators i with state := .exhausted }

def suspend (s : Client) (i : Nat) : Client :=
  s.setIterator i { s.iterators i with state := .suspended }

/-- `_iterator_is_current_locked`. -/
def iteratorIsCurrent (s : Client) (i : Nat) : Bool :=
  s.running && decide (s.mode = some .iterator) && decide (s.runToken = (s.iterators i).token)

/-- `_callback_run_is_current_locked`. -/
def callbackRunIsCurrent (s : Client) (r : Nat) : Bool :=
  s.running && decide (s.mode = some .callback) && decide (s.runToken = (s.runs r).token) &&
    decide (s.callbackRun = some r)

/-- `_raise_callback_run_failure`. -/
def failureOf (s : Client) (r : Nat) : Option PyError :=
  match (s.runs r).callbackError with
  | some error => some (.callbackError error)
  | none => (s.runs r).failure.map .sensorFault

/-! ## Native calls -/

def invokeNative (s : Client) (o : Owner) (op : NativeOp) : Option Client :=
  (s.native.invoke o.nativeId op).map fun native => { s with native := native }

/-- The result of the native call a thread waits for, taken off. -/
def collectNative (s : Client) (o : Owner) : Option (NativeResult × Client) :=
  match s.native.calls o.nativeId with
  | some ⟨_, .returned result⟩ =>
      (s.native.collect o.nativeId).map fun native => (result, { s with native := native })
  | _ => none

def invokeHealth (s : Client) (o : Owner) : Option Client :=
  (s.native.core.invoke o.healthId none .health).map fun core =>
    { s with native := { s.native with core := core } }

def collectHealth (s : Client) (o : Owner) : Option (HealthSnapshot × Client) :=
  match s.native.core.calls o.healthId with
  | some ⟨_, _, .returned (.snapshot health)⟩ =>
      (s.native.core.collect o.healthId).map fun core =>
        (health, { s with native := { s.native with core := core } })
  | _ => none

/-! ## Locked ends -/

/-- What follows `_stop_locked`, with the lock given back: `stop` joins
the dispatcher of the run it found, unless that made the call. -/
def afterStop (s : Client) (caller : Option Nat) : Ending → Pc × Client
  | .stopped run =>
      match run with
      | some r =>
          if (s.runs r).thread ∧ caller ≠ some r then (.stopJoin r, s) else (.returned .done, s)
      | none => (.returned .done, s)
  | .raised i fault => (.returned (.raised (.sensorFault fault)), s.exhaust i)
  | .finish => (.finish, s)

/-- The beginning of `_stop_locked`. -/
def stopLocked (s : Client) (o : Owner) (caller : Option Nat) (ending : Ending) : Pc × Client :=
  if s.running then (.halt ending, { s with running := false, lock := some o })
  else s.release.afterStop caller ending

/-- `callback_run_to_join.thread = None`, if nothing has changed. -/
def clearThread (s : Client) (r : Nat) (joined : Bool) : Client :=
  if s.callbackRun = some r ∧ (s.runs r).thread = joined then
    s.setRun r { s.runs r with thread := false }
  else s

end Client

/-! ## The steps of `start` -/

/-- What the environment answers where the source may raise; `raisesLate`
is an exception behind the effect. -/
inductive Choice where
  | go
  | raises (error : Nat)
  | raisesLate (error : Nat)
  | expires
  deriving DecidableEq

def raiseRuntime (message : String) : Pc := .returned (.raised (.runtime message))

/-- The checks of `start` under the lock, up to `_start_locked`. -/
def startDecide (o : Owner) (caller callback : Option Nat) (s : Client) : Pc × Client :=
  let selected := callback <|> s.constructorCallback
  let requested := if selected.isSome then Mode.callback else .iterator
  let current := s.callbackRun.filter fun r => (s.runs r).thread
  if current.isSome ∧ current = caller then
    (raiseRuntime "a callback dispatcher cannot start its client", s)
  else if s.running then
    if s.mode ≠ some requested then
      (raiseRuntime "cannot change delivery mode while running", s)
    else if requested = .callback ∧ s.callbackRun.any fun r =>
      decide ((s.runs r).callback ≠ selected)
    then (raiseRuntime "cannot change callback while running", s)
    else (.returned .done, s)
  else
    match current with
    | some r => (.startJoin callback r, s)
    | none =>
        let a : Attempt := ⟨selected, none, s.runToken, s.callbackRun⟩
        (if selected.isSome then .startBuild a else .startNative a, s.acquire o)

/-- `_CallbackRun(previous_token + 1, callback)`. -/
def Attempt.record (a : Attempt) : CallbackRun :=
  { token := a.previousToken + 1, callback := a.callback }

/-- The run record and its `Thread`. -/
def buildStep (choice : Choice) (s : Client) (a : Attempt) : Option (Pc × Client) :=
  let built := { s with made := s.made + 1 }
  match choice with
  | .go =>
      some (.startThread { a with run := some s.made },
        (built.setRun s.made { a.record with thread := true }).setThread (.dispatcher s.made)
          (some { op := .dispatch, pc := .unstarted }))
  | .raises error => some (.returned (.raised (.other error)), s.release)
  | .raisesLate error =>
      -- the record is there, the thread is not
      some (.returned (.raised (.other error)),
        (built.setRun s.made { a.record with
          activation := a.record.activation.cancel, callback := none, completed := true }).release)
  | .expires => none

/-- `dispatcher.start()`. -/
def launchStep (choice : Choice) (s : Client) (a : Attempt) (r : Nat) : Option (Pc × Client) :=
  let begun := s.setThread (.dispatcher r) (some { op := .dispatch, pc := .awaitActivation })
  match choice with
  | .go => some (.startNative a, begun)
  | .raises error => some (.returned (.raised (.other error)), (s.cancelRun r).release)
  | .raisesLate error => some (.returned (.raised (.other error)), (begun.cancelRun r).release)
  | .expires => none

/-- The statements behind a native start. -/
def Client.install (s : Client) (a : Attempt) : Client :=
  { s with
    running := true
    mode := some (if a.run.isSome then .callback else .iterator)
    runToken := a.previousToken + 1
    callbackRun := a.run }

/-- The handler of a start that failed there or before. -/
def Client.rollback (s : Client) (a : Attempt) : Client :=
  let restored := { s with
    running := false, mode := none, runToken := a.previousToken, callbackRun := a.previousRun }
  match a.run with
  | some r => restored.cancelRun r
  | none => restored

def Client.activateRun (s : Client) (r : Nat) : Client :=
  s.setRun r { s.runs r with activation := (s.runs r).activation.activate }

/-- The steps of `start`. -/
def startStep (o : Owner) (caller : Option Nat) (choice : Choice) (s : Client) :
    Pc → Option (Pc × Client)
  | .startEnter callback =>
      if s.lock.isSome then none else some (startDecide o caller callback s)
  | .startJoin callback r => some (.startJoining callback r (s.runs r).thread, s)
  | .startJoining callback r joined =>
      if s.joins caller r then some (.startJoined callback r joined, s) else none
  | .startJoined callback r joined =>
      if s.lock.isSome then none else some (.startEnter callback, s.clearThread r joined)
  | .startBuild a => buildStep choice s a
  | .startThread a => a.run.bind (launchStep choice s a)
  | .startNative a => (s.invokeNative o .start).map (.startAwait a, ·)
  | .startAwait a =>
      match s.collectNative o with
      | some (.done, s) => some (.startInstall a, s)
      | some (.threw message, s) => some (.startRollback a (.native message), s)
      | _ => none
  | .startInstall a =>
      match choice with
      | .go =>
          if a.run.isSome then some (.startActivate a, s.install a)
          else some (.returned .done, (s.install a).release)
      | .raises error => some (.startRollback a (.other error), s)
      | _ => none
  | .startActivate a =>
      match choice with
      | .go => a.run.map fun r => (.returned .done, (s.activateRun r).release)
      | .raises error => some (.startRollback a (.other error), s)
      | .raisesLate error =>
          a.run.map fun r => (.startRollback a (.other error), s.activateRun r)
      | .expires => none
  | .startRollback a error => some (.startUnwind a.run error, s.rollback a)
  | .startUnwind run error => (s.invokeNative o .stop).map (.startUnwindAwait run error, ·)
  | .startUnwindAwait run error =>
      (s.collectNative o).map fun r => (.startFailed run error, r.2.release)
  | .startFailed run error =>
      if run.all (s.joins caller) then some (.returned (.raised error), s) else none
  | _ => none

/-! ## The steps of the other methods -/

def stopStep (o : Owner) (caller : Option Nat) (s : Client) : Pc → Option (Pc × Client)
  | .stopEnter =>
      if s.lock.isSome then none else some (s.stopLocked o caller (.stopped s.callbackRun))
  | .stopJoin r => some (.stopJoining r (s.runs r).thread, s)
  | .stopJoining r joined => if s.joins caller r then some (.stopJoined r joined, s) else none
  | .stopJoined r joined =>
      if s.lock.isSome then none else some (.returned .done, s.clearThread r joined)
  | _ => none

/-- The locked section of `samples`. -/
def Client.makeIterator (s : Client) (timeout : Option Binary64) : Client :=
  { s.setIterator s.madeIterators ⟨s.runToken, timeout, .suspended⟩ with
    mode := s.mode <|> some .iterator
    madeIterators := s.madeIterators + 1 }

def waitStep (caller : Option Nat) (choice : Choice) (s : Client) : Pc → Option (Pc × Client)
  | .samplesEnter timeout =>
      if s.lock.isSome then none
      else if s.constructorCallback.isSome ∨ s.mode = some .callback then
        some (raiseRuntime "callback and iterator delivery are mutually exclusive", s)
      else some (.returned (.iterator s.madeIterators), s.makeIterator timeout)
  | .waitEnter timeout =>
      if s.lock.isSome then none
      else
        match s.callbackRun with
        | none => some (raiseRuntime "wait is only available for callback delivery", s)
        | some r =>
            some (if s.mode = some .iterator then
              raiseRuntime "wait is only available for callback delivery"
            else .waitSelf timeout r, s)
  | .waitSelf timeout r =>
      some (if (s.runs r).thread ∧ caller = some r ∧ (s.runs r).completed = false then
        raiseRuntime "a callback dispatcher cannot wait for itself"
      else .waitCompleted timeout r, s)
  | .waitCompleted timeout r =>
      if (s.runs r).completed then some (.waitJoin r, s)
      else if timeout ∧ choice = .expires then
        some (.returned (.raised (.timeout "timed out waiting for callback delivery to stop")), s)
      else none
  | .waitJoin r => if s.joins caller r then some (.raiseFailure r, s) else none
  | .raiseEnter =>
      if s.lock.isSome then none
      else
        match s.callbackRun with
        | none => some (.returned .done, s)
        | some r => some (.raiseFailure r, s)
  | .raiseFailure r =>
      some (.returned (match s.failureOf r with
        | some error => .raised error
        | none => .done), s)
  | _ => none

/-- The generator of `_iterate_samples`. -/
def nextStep (o : Owner) (s : Client) : Pc → Option (Pc × Client)
  | .nextEnter i =>
      match (s.iterators i).state with
      | .suspended =>
          some (.nextCheck i, s.setIterator i { s.iterators i with state := .executing })
      | .executing => some (.returned (.raised (.value "generator already executing")), s)
      | .exhausted => some (.returned .stopIteration, s)
  | .nextCheck i =>
      if s.lock.isSome then none
      else if s.iteratorIsCurrent i then some (.nextRead i, s)
      else some (.returned .stopIteration, s.exhaust i)
  | .nextRead i => (s.invokeNative o (.read (s.iterators i).timeout)).map (.nextAwait i, ·)
  | .nextAwait i =>
      match s.collectNative o with
      | some (.read _ result, s) => some (.nextResult i result, s)
      | some (.threw message, s) =>
          some (.returned (.raised (.configuration message)), s.exhaust i)
      | _ => none
  | .nextResult i result =>
      if s.lock.isSome then none
      else if s.iteratorIsCurrent i = false then some (.returned .stopIteration, s.exhaust i)
      else
        match result with
        | .sample x => some (.returned (.sample x), s.suspend i)
        | .timeout =>
            some (.returned (.raised (.timeout "timed out waiting for a force/torque sample")),
              s.exhaust i)
        | .closed => some (.nextClosed i, s)
  | .nextClosed i =>
      if s.lock.isSome then none
      else if s.iteratorIsCurrent i then some (.faulted (some i), s.acquire o)
      else some (.returned .stopIteration, s.exhaust i)
  | _ => none

/-! ## The steps of a dispatcher -/

/-- `_record_callback_error` and `_record_dispatch_failure` store the
first failure of a run. -/
def Client.storeError (s : Client) (r : Nat) (error : PyError) : Client :=
  if (s.runs r).callbackError = none ∧ (s.runs r).failure = none then
    s.setRun r { s.runs r with callbackError := some error }
  else s

/-- `_dispatch_callback`. -/
def dispatchStep (r : Nat) (t : Thread) (choice : Choice) (s : Client) :
    Pc → Option (Pc × Client)
  | .awaitActivation =>
      if (s.runs r).activation.ready then
        some (if (s.runs r).activation.active then .check else .finish, s)
      else none
  | .check =>
      if s.alive = false then some (.finish, s)
      else if s.lock.isSome then none
      else some (if s.callbackRunIsCurrent r then .read else .finish, s)
  | .read => (s.invokeNative (.dispatcher r) (.read none)).map (.awaitRead, ·)
  | .awaitRead =>
      match s.collectNative (.dispatcher r) with
      | none => none
      | some (result, s) =>
          match choice, result with
          | .raises error, _ => some (.failed (.other error), s)
          | _, .threw message => some (.failed (.configuration message), s)
          | _, .read _ result => some (.checkResult result, s)
          | _, .done => none
  | .checkResult result =>
      if s.alive = false then some (.finish, s)
      else if s.lock.isSome then none
      else if s.callbackRunIsCurrent r = false then some (.finish, s)
      else
        some (match result with
          | .sample x => .convert x
          | .timeout => .check
          | .closed => .closed, s)
  | .convert x =>
      match choice with
      | .raises error => some (.failed (.other error), s)
      | _ => some (.checkSample x, s)
  | .checkSample x =>
      if s.lock.isSome then none
      else some (if s.callbackRunIsCurrent r then .take x else .finish, s)
  | .take x =>
      some (match (s.runs r).callback with
        | some callback => .calling callback x
        | none => .finish, s)
  | .calling _ _ =>
      if t.nested.isSome then none
      else
        match choice with
        | .raises error => some (.record (.other error), s)
        | _ => some (.check, s)
  | .failed error => some (if s.alive then .record error else .orphanStop, s)
  | .record error =>
      if s.lock.isSome then none
      else if s.callbackRunIsCurrent r then
        some ((s.storeError r error).stopLocked (.dispatcher r) none .finish)
      else some (.finish, s.storeError r error)
  | .closed =>
      if s.lock.isSome then none
      else if s.callbackRunIsCurrent r then some (.faulted none, s.acquire (.dispatcher r))
      else some (.finish, s)
  | .orphanStop => (s.invokeNative (.dispatcher r) .stop).map (.orphanAwait, ·)
  | .orphanAwait => (s.collectNative (.dispatcher r)).map fun x => (.finish, x.2)
  | .finish =>
      -- the run record of a dead client is gone
      some (.finished,
        if s.alive then s.setRun r { s.runs r with callback := none, completed := true } else s)
  | _ => none

/-! ## The steps under the lock -/

/-- The fault report of `_fault_error_for_closed_run` and
`_finish_callback_closed`, and the rest of `_stop_locked`. -/
def lockedStep (o : Owner) (caller : Option Nat) (s : Client) : Pc → Option (Pc × Client)
  | .faulted iterator =>
      if s.native.core.shared.faulted then some (.health iterator, s)
      else
        match iterator with
        | some i => some (.returned .stopIteration, s.release.exhaust i)
        | none => some (s.stopLocked o caller .finish)
  | .health iterator => (s.invokeHealth o).map (.healthAwait iterator, ·)
  | .healthAwait iterator => (s.collectHealth o).map fun x => (.dropped iterator x.1, x.2)
  | .dropped iterator health => some (.code iterator health s.native.queue.droppedCount, s)
  | .code iterator health droppedCount =>
      let fault : SensorFault := ⟨s.native.core.shared.faultLatch, health, droppedCount⟩
      match iterator, o with
      | some i, _ => some (s.stopLocked o caller (.raised i fault))
      | none, .dispatcher r =>
          some ((s.setRun r { s.runs r with failure := some fault }).stopLocked o caller .finish)
      | none, .call _ => none
  | .halt ending => (s.invokeNative o .stop).map (.haltAwait ending, ·)
  | .haltAwait ending =>
      (s.collectNative o).map fun x =>
        ({ x.2 with mode := none }.release).afterStop caller ending
  | _ => none

/-- Which part of the source a place belongs to. -/
inductive Part where
  | start | stop | wait | next | dispatch | locked
  deriving DecidableEq

def Pc.part : Pc → Part
  | .startEnter _ | .startJoin _ _ | .startJoining _ _ _ | .startJoined _ _ _ | .startBuild _
  | .startThread _ | .startNative _ | .startAwait _ | .startInstall _ | .startActivate _
  | .startRollback _ _ | .startUnwind _ _ | .startUnwindAwait _ _ | .startFailed _ _ => .start
  | .stopEnter | .stopJoin _ | .stopJoining _ _ | .stopJoined _ _ => .stop
  | .samplesEnter _ | .waitEnter _ | .waitSelf _ _ | .waitCompleted _ _ | .waitJoin _
  | .raiseEnter | .raiseFailure _ => .wait
  | .nextEnter _ | .nextCheck _ | .nextRead _ | .nextAwait _ | .nextResult _ _
  | .nextClosed _ => .next
  | .unstarted | .awaitActivation | .check | .read | .awaitRead | .checkResult _ | .convert _
  | .checkSample _ | .take _ | .calling _ _ | .failed _ | .record _ | .closed | .orphanStop
  | .orphanAwait | .finish | .finished => .dispatch
  | .faulted _ | .health _ | .healthAwait _ | .dropped _ _ | .code _ _ _ | .halt _
  | .haltAwait _ | .returned _ => .locked

/-- One step of a thread: its new place and the client around it. -/
def threadStep (o : Owner) (t : Thread) (choice : Choice) (s : Client) : Option (Pc × Client) :=
  match t.pc.part with
  | .start => startStep o t.caller choice s t.pc
  | .stop => stopStep o t.caller s t.pc
  | .wait => waitStep t.caller choice s t.pc
  | .next => nextStep o s t.pc
  | .dispatch =>
      match o with
      | .dispatcher r => dispatchStep r t choice s t.pc
      | .call _ => none
  | .locked => lockedStep o t.caller s t.pc

/-! ## The system -/

def ClientOp.entry : ClientOp → Pc
  | .start callback => .startEnter callback
  | .stop => .stopEnter
  | .samples timeout => .samplesEnter timeout
  | .next i => .nextEnter i
  | .wait timeout => .waitEnter timeout
  | .raiseIfFailed => .raiseEnter
  | .dispatch => .unstarted

/-- Is the thread inside the user callback, with no call of its own
pending? -/
def Thread.inCallback (t : Thread) : Bool :=
  match t.pc with
  | .calling _ _ => t.nested.isNone
  | _ => false

/-- The places where a dispatcher has the client in a local variable. -/
def Pc.holdsClient : Pc → Bool
  | .convert _ | .checkSample _ | .take _ | .calling _ _ | .record _ | .closed
  | .faulted _ | .health _ | .healthAwait _ | .dropped _ _ | .code _ _ _ | .halt _
  | .haltAwait _ => true
  | _ => false

inductive ClientLabel where
  | native (l : NativeLabel)
  | invoke (c : Nat) (caller : Option Nat) (op : ClientOp)
  | thread (o : Owner) (choice : Choice)
  | collect (c : Nat)
  | drop
  deriving DecidableEq

/-- The steps of the native client that no thread of this module makes.
Core calls with numbers `1` modulo `4` are those of the methods that only
call the native client. -/
def NativeLabel.foreign : NativeLabel → Bool
  | .core (.invoke c _ _) | .core (.collect c) => decide (c % 4 = 1)
  | .core _ | .call _ => true
  | .invoke _ _ | .collect _ => false

namespace Client

/-- The methods that can be called: a generator has been returned first. -/
def offers (s : Client) : ClientOp → Bool
  | .next i => decide (i < s.madeIterators)
  | .dispatch => false
  | _ => true

/-- A thread calls a method; a dispatcher can only do so from the
callback, which then waits for it. -/
def invoke (s : Client) (c : Nat) (caller : Option Nat) (op : ClientOp) : Option Client :=
  if (s.threads (.call c)).isSome ∨ s.alive = false ∨ s.offers op = false then none
  else
    let made := { s.setThread (.call c) (some { caller := caller, op := op, pc := op.entry }) with
      inFlight := s.inFlight + 1 }
    match caller with
    | none => some made
    | some r =>
        match s.threads (.dispatcher r) with
        | none => none
        | some t =>
            if t.inCallback then
              some (made.setThread (.dispatcher r) (some { t with nested := some c }))
            else none

/-- A call that returned is taken off; a callback that made it goes on. -/
def collect (s : Client) (c : Nat) : Option Client :=
  match s.threads (.call c) with
  | some ⟨caller, _, .returned _, _⟩ =>
      let done := { s.setThread (.call c) none with inFlight := s.inFlight - 1 }
      match caller with
      | none => some done
      | some r =>
          match s.threads (.dispatcher r) with
          | none => none
          | some t => some (done.setThread (.dispatcher r) (some { t with nested := none }))
  | _ => none

/-- The client object is collected: no call is in flight and no
dispatcher has it in hand. -/
def drop (s : Client) : Option Client :=
  if s.inFlight = 0 ∧ (List.range s.made).all fun r =>
      ((s.threads (.dispatcher r)).map fun t => !t.pc.holdsClient).getD true
  then some { s with alive := false }
  else none

def step (P : Platform) (config : Config) (s : Client) : ClientLabel → Option Client
  | .native l =>
      if NativeLabel.foreign l then
        (s.native.step P config l).map fun native => { s with native := native }
      else none
  | .invoke c caller op => s.invoke c caller op
  | .thread o choice =>
      match s.threads o with
      | none => none
      | some t =>
          (threadStep o t choice s).map fun x => x.2.setThread o (some { t with pc := x.1 })
  | .collect c => s.collect c
  | .drop => s.drop

end Client

/-- `Client.__init__`. -/
def clientLts (P : Platform) (config : Config) : Lts Client ClientLabel where
  init s := ∃ native callback, (nativeLts P config).init native ∧
    s = { native := native, constructorCallback := callback }
  step := Client.step P config

end PyNetFT.Python
