/-
PyNetFT.Core.System — the client as a whole: any number of calls of
`start`, `stop`, `bias`, `health`, `latest_sample` and
`wait_for_first_sample`, from outside threads and from inside the sample
callback, interleaved with the receive threads.

A call is a small program of its own. It stops between two steps exactly
where the source can be interrupted: before it takes a lock, while it
waits on a condition variable, and between two sections under different
locks. `lifecycle` is the owner of `lifecycle_mutex_` across such stops;
sections under the command, record and data locks are single steps.

Notifications are left out: a waiter whose predicate holds can move. So
nothing here says that a call wakes up. In the source a `start` that
waits for a faulted thread to leave can miss the notification of
`finish_session`, which is sent without `lifecycle_mutex_`; results about
progress make an exception of that wait. `thread::join` and the locked
section after it are one step, enabled once the thread is done.
-/
import PyNetFT.Core.Worker
import PyNetFT.Lib.Lts
import Mathlib.Logic.Function.Basic

namespace PyNetFT.Core

open PyNetFT.Lib

/-! ## Calls -/

inductive Op where
  | start (callback : Option Nat)
  | stop
  | bias
  | health
  | latestSample
  | waitForFirstSample (timeout : Binary64)
  deriving DecidableEq

inductive CallResult where
  | done
  | threw (message : String)
  | snapshot (health : HealthSnapshot)
  | sample (latest : Option Sample)
  | seen (first : Bool)
  deriving DecidableEq

/-- What `start` saves before it touches the data-locked members. -/
structure SavedControl where
  stopping : Bool
  workerExited : Bool
  fault : FaultCode
  callback : Option Nat
  lastDeliveryAt : TimePoint
  deriving DecidableEq

/-- What `start` saves under the data lock. -/
structure SavedData where
  health : HealthSnapshot
  latest : Option Sample
  lastRecordAt : TimePoint
  generation : Nat
  deliveredGeneration : Nat
  receiveTimes : List TimePoint
  deliveryTimes : List TimePoint
  consecutiveMalformed : Nat
  deriving DecidableEq

inductive CallPc where
  -- start
  | startEnter (callback : Option Nat)
  | startAwaitJoin (callback : Option Nat)
  | startAwaitExit (callback : Option Nat)
  | startJoin (callback : Option Nat) (worker : Nat)
  | startSaved (callback : Option Nat) (control : SavedControl)
  | startReset (callback : Option Nat) (control : SavedControl) (data : SavedData)
  | startArmed (control : SavedControl) (data : SavedData)
  | rollbackRecord (control : SavedControl) (data : SavedData) (message : String)
  | rollbackData (control : SavedControl) (data : SavedData) (message : String)
  | rollbackLatch (control : SavedControl) (data : SavedData) (message : String)
  | rollbackPublish (control : SavedControl) (data : SavedData) (message : String)
  -- stop
  | stopEnter
  | stopCommand
  | stopDecide
  | stopAwaitJoin
  | stopJoin (worker : Nat)
  -- the others
  | biasEnter
  | healthEnter
  | latestEnter
  | waitEnter (timeout : Binary64)
  | waitCapture (deadline : TimePoint)
  | waitSleep (deadline : TimePoint) (generation : Nat)
  | returned (result : CallResult)
  deriving DecidableEq

/-- A call in progress. `caller` is the receive thread whose callback
made it, or `none` for any other thread. -/
structure Call where
  caller : Option Nat
  op : Op
  pc : CallPc
  deriving DecidableEq

/-- Where a call begins. -/
def Op.entry : Op → CallPc
  | .start callback => .startEnter callback
  | .stop => .stopEnter
  | .bias => .biasEnter
  | .health => .healthEnter
  | .latestSample => .latestEnter
  | .waitForFirstSample timeout => .waitEnter timeout

inductive CallChoice where
  | go
  | threadFails (message : String)
  | send (event : SendEvent)
  | sends (first second : SendEvent)
  deriving DecidableEq

/-! ## The state -/

/-- `joined` lists, in order, which receive thread was joined and by a
call of which thread. -/
structure Sys where
  shared : Shared
  lifecycle : Option Nat := none
  workers : Nat → Option Worker := fun _ => none
  calls : Nat → Option Call := fun _ => none
  created : Nat := 0
  joined : List (Nat × Option Nat) := []

/-- Has the receive thread `w` returned from `run`? -/
def Sys.finished (s : Sys) (w : Nat) : Bool :=
  match s.workers w with
  | some t => decide (t.pc = .done)
  | none => false

/-- The shared members replaced, everything else kept. -/
def Sys.withShared (s : Sys) (shared : Shared) : Sys := { s with shared := shared }

/-! ## The sections of the calls -/

/-- The check at the head of `start` and inside `stop`: the calling
thread is the running receive thread. -/
def Shared.calledByWorker (s : Shared) (caller : Option Nat) : Bool :=
  !s.workerExited && caller.isSome && decide (s.activeWorkerId = caller)

/-- `stopping_`, `worker_exited_`, the fault code, the callback and
`last_delivery_at_`, as `start` saves them. -/
def Shared.saveControl (s : Shared) : SavedControl :=
  ⟨s.stopping, s.workerExited, s.faultLatch, s.callback, s.lastDeliveryAt⟩

def Shared.saveData (s : Shared) : SavedData :=
  ⟨s.health, s.latest, s.lastRecordAt, s.generation, s.deliveredGeneration, s.receiveTimes,
    s.deliveryTimes, s.consecutiveMalformed⟩

/-- The data-locked reset of `start`. -/
def Shared.resetRun (s : Shared) : Shared :=
  { s with
    faultLatch := .none
    health := { s.health with
      state := .connecting, faultCode := .none, lastError := ""
      receiveRateHz := 0, deliveryRateHz := 0 }
    latest := none
    lastRecordAt := 0
    generation := s.generation + 1
    deliveredGeneration := 0
    receiveTimes := []
    deliveryTimes := []
    consecutiveMalformed := 0 }

/-- The data-locked restore of a failed `start`. -/
def Shared.restoreData (s : Shared) (data : SavedData) : Shared :=
  { s with
    health := data.health
    latest := data.latest
    lastRecordAt := data.lastRecordAt
    generation := data.generation
    deliveredGeneration := data.deliveredGeneration
    receiveTimes := data.receiveTimes
    deliveryTimes := data.deliveryTimes
    consecutiveMalformed := data.consecutiveMalformed }

/-- `health_.state = Stopped`, unless a fault is latched. -/
def Shared.markStopped (s : Shared) : Shared :=
  if s.faulted then s else { s with health := { s.health with state := .stopped } }

/-- `Client::Impl::health`: the pruned windows stay pruned. -/
def Shared.snapshot (s : Shared) : Shared × HealthSnapshot :=
  let receiveTimes := pruneRateWindow s.receiveTimes s.clock
  let deliveryTimes := pruneRateWindow s.deliveryTimes s.clock
  ({ s with receiveTimes := receiveTimes, deliveryTimes := deliveryTimes },
    { s.health with
      faultCode := s.faultLatch
      state := if s.faultLatch ≠ .none then .faulted else s.health.state
      receiveRateHz := receiveTimes.length
      deliveryRateHz := deliveryTimes.length
      lastRecordAge :=
        if s.lastRecordAt ≠ 0 then some (s.clock - s.lastRecordAt) else s.health.lastRecordAge })

/-- The rest of `start` once nobody is joining. -/
def startDecide (c : Nat) (callback : Option Nat) (s : Sys) : CallPc × Sys :=
  match s.shared.worker with
  | some w =>
      if s.shared.workerExited = false then
        (if s.shared.faulted then .startAwaitExit callback
          else .returned (.threw "client is already running"), s)
      else
        (.startJoin callback w,
          s.withShared { s.shared with joining := true, worker := none })
  | none =>
      (.startSaved callback s.shared.saveControl,
        { s with
          lifecycle := some c
          shared := { s.shared with callback := none, lastDeliveryAt := 0 } })

/-- The join of a reaped thread and the locked section after it. -/
def Sys.reap (s : Sys) (w : Nat) (caller : Option Nat) : Sys :=
  { s with
    shared := { s.shared with activeWorkerId := none, joining := false }
    joined := s.joined ++ [(w, caller)] }

/-- `create_worker_thread` succeeding, up to the end of `start`. -/
def Sys.spawn (s : Sys) (config : Config) : Sys :=
  { s with
    lifecycle := none
    shared := { s.shared with worker := some s.created, activeWorkerId := some s.created }
    workers := Function.update s.workers s.created
      (some { pc := .loopHead, backoff := config.reconnectInitialDelay.value })
    created := s.created + 1 }

/-- The steps of `Client::Impl::start`. -/
def startStep (config : Config) (c : Nat) (caller : Option Nat) (choice : CallChoice) (s : Sys) :
    CallPc → Option (CallPc × Sys)
  | .startEnter callback =>
      if s.lifecycle.isSome then none
      else if s.shared.calledByWorker caller then
        some (.returned (.threw "client is already running"), s)
      else if s.shared.joining then some (.startAwaitJoin callback, s)
      else some (startDecide c callback s)
  | .startAwaitJoin callback =>
      if s.lifecycle.isSome ∨ s.shared.joining then none else some (startDecide c callback s)
  | .startAwaitExit callback =>
      if s.lifecycle.isNone ∧ (s.shared.workerExited ∨ s.shared.faulted = false) then
        some (.startEnter callback, s)
      else none
  | .startJoin callback w =>
      if s.lifecycle.isNone ∧ s.finished w then some (.startEnter callback, s.reap w caller)
      else none
  | .startSaved callback control =>
      some (.startReset callback control s.shared.saveData, s.withShared s.shared.resetRun)
  | .startReset callback control data =>
      some (.startArmed control data, s.withShared
        { s.shared with stopping := false, workerExited := false, callback := callback })
  | .startArmed control data =>
      match choice with
      | .go => some (.returned .done, s.spawn config)
      | .threadFails message =>
          some (.rollbackRecord control data message, s.withShared
            { s.shared with
              stopping := control.stopping
              workerExited := control.workerExited
              callback := control.callback })
      | _ => none
  | .rollbackRecord control data message =>
      some (.rollbackData control data message,
        s.withShared { s.shared with lastDeliveryAt := control.lastDeliveryAt })
  | .rollbackData control data message =>
      some (.rollbackLatch control data message, s.withShared (s.shared.restoreData data))
  | .rollbackLatch control data message =>
      some (.rollbackPublish control data message,
        s.withShared { s.shared with faultLatch := .none })
  | .rollbackPublish control data message =>
      some (.returned (.threw message),
        { s with
          lifecycle := none
          shared :=
            if control.fault ≠ .none then
              { s.shared with
                toImpl := s.shared.toImpl.publish control.fault data.health.lastError }
            else s.shared })
  | _ => none

/-- The steps of `Client::Impl::stop`. -/
def stopStep (c : Nat) (caller : Option Nat) (choice : CallChoice) (s : Sys) :
    CallPc → Option (CallPc × Sys)
  | .stopEnter =>
      if s.lifecycle.isSome then none
      else
        some (.stopCommand,
          { s with lifecycle := some c, shared := { s.shared with stopping := true } })
  | .stopCommand =>
      match choice with
      | .send event => some (.stopDecide, s.withShared (s.shared.stopCommand event))
      | _ => none
  | .stopDecide =>
      if s.shared.calledByWorker caller then
        some (.returned .done, { s with lifecycle := none })
      else if s.shared.joining then some (.stopAwaitJoin, { s with lifecycle := none })
      else
        match s.shared.worker with
        | none =>
          some (.returned .done, { s with lifecycle := none, shared := s.shared.markStopped })
        | some w =>
            some (.stopJoin w,
              { s with
                lifecycle := none
                shared := { s.shared with joining := true, worker := none } })
  | .stopAwaitJoin =>
      if s.lifecycle.isSome ∨ s.shared.joining then none else some (.stopEnter, s)
  | .stopJoin w =>
      if s.lifecycle.isNone ∧ s.finished w then
        some (.returned .done, (s.withShared s.shared.markStopped).reap w caller)
      else none
  | _ => none

/-- `bias`, `health`, `latest_sample` and `wait_for_first_sample`. -/
def otherStep (choice : CallChoice) (s : Sys) : CallPc → Option (CallPc × Sys)
  | .biasEnter =>
      match choice with
      | .sends first second =>
          let r := s.shared.bias first second
          some (.returned (match r.2 with | .ok _ => .done | .error message => .threw message),
            s.withShared r.1)
      | _ => none
  | .healthEnter =>
      let r := s.shared.snapshot
      some (.returned (.snapshot r.2), s.withShared r.1)
  | .latestEnter => some (.returned (.sample s.shared.latest), s)
  | .waitEnter timeout =>
      match checkedDeadline s.shared.clock timeout with
      | .error message => some (.returned (.threw message), s)
      | .ok deadline => some (.waitCapture deadline, s)
  | .waitCapture deadline =>
      if s.shared.generation = 0 then some (.returned (.seen false), s)
      else some (.waitSleep deadline s.shared.generation, s)
  | .waitSleep deadline generation =>
      if s.shared.generation ≠ generation ∨ s.shared.deliveredGeneration = generation ∨
          s.shared.stopping ∨ s.shared.faulted ∨ deadline ≤ s.shared.clock then
        some (.returned (.seen (decide (s.shared.generation = generation) &&
          decide (s.shared.deliveredGeneration = generation))), s)
      else none
  | _ => none

/-- Which function of the source a place belongs to. -/
inductive CallPart where
  | start | stop | other
  deriving DecidableEq

def CallPc.part : CallPc → CallPart
  | .startEnter _ | .startAwaitJoin _ | .startAwaitExit _ | .startJoin _ _ | .startSaved _ _
  | .startReset _ _ _ | .startArmed _ _ | .rollbackRecord _ _ _ | .rollbackData _ _ _
  | .rollbackLatch _ _ _ | .rollbackPublish _ _ _ => .start
  | .stopEnter | .stopCommand | .stopDecide | .stopAwaitJoin | .stopJoin _ => .stop
  | .biasEnter | .healthEnter | .latestEnter | .waitEnter _ | .waitCapture _ | .waitSleep _ _
  | .returned _ => .other

/-- One step of the call `c`: its new place and the state around it. -/
def callStep (config : Config) (c : Nat) (call : Call) (choice : CallChoice) (s : Sys) :
    Option (CallPc × Sys) :=
  match call.pc.part with
  | .start => startStep config c call.caller choice s call.pc
  | .stop => stopStep c call.caller choice s call.pc
  | .other => otherStep choice s call.pc

/-! ## The system -/

inductive Label where
  | tick (ticks : Nat)
  | invoke (c : Nat) (caller : Option Nat) (op : Op)
  | call (c : Nat) (choice : CallChoice)
  | collect (c : Nat)
  | worker (w : Nat) (choice : WorkerChoice)
  deriving DecidableEq

def Sys.setCall (s : Sys) (c : Nat) (call : Option Call) : Sys :=
  { s with calls := Function.update s.calls c call }

def Sys.setWorker (s : Sys) (w : Nat) (t : Worker) : Sys :=
  { s with workers := Function.update s.workers w (some t) }

/-- Is the thread inside the user callback, with no call of its own
pending? -/
def Worker.inCallback (t : Worker) : Bool :=
  match t.pc with
  | .callback _ _ _ => t.nested.isNone
  | _ => false

/-- A thread makes a call. The receive thread can only do so from the
callback, which then waits for it. -/
def Sys.invoke (s : Sys) (c : Nat) (caller : Option Nat) (op : Op) : Option Sys :=
  if (s.calls c).isSome then none
  else
    match caller with
    | none => some (s.setCall c (some ⟨none, op, op.entry⟩))
    | some w =>
        match s.workers w with
        | none => none
        | some t =>
            if t.inCallback then
              some ((s.setWorker w { t with nested := some c }).setCall c
                (some ⟨some w, op, op.entry⟩))
            else none

/-- A call that returned is taken off; a callback that made it goes on. -/
def Sys.collect (s : Sys) (c : Nat) : Option Sys :=
  match s.calls c with
  | some ⟨caller, _, .returned _⟩ =>
      match caller with
      | none => some (s.setCall c none)
      | some w =>
          match s.workers w with
          | none => none
          | some t => some ((s.setWorker w { t with nested := none }).setCall c none)
  | _ => none

/-- One step of the whole client. -/
def Sys.step (P : Platform) (config : Config) (s : Sys) : Label → Option Sys
  | .tick ticks => some (s.withShared { s.shared with clock := s.shared.clock + ticks })
  | .invoke c caller op => s.invoke c caller op
  | .call c choice =>
      match s.calls c with
      | none => none
      | some call =>
          (callStep config c call choice s).map fun r =>
            r.2.setCall c (some { call with pc := r.1 })
  | .collect c => s.collect c
  | .worker w choice =>
      match s.workers w with
      | none => none
      | some t =>
          (workerStep P config w choice t s.shared).map fun r =>
            (s.withShared r.2).setWorker w r.1

/-- A freshly constructed client, at any clock reading. -/
def Sys.new (config : Config) (clock : TimePoint) : Sys :=
  { shared := { Impl.new config with clock := clock } }

/-- The client for a configuration that its constructor accepted. -/
def clientLts (P : Platform) (config : Config) : Lts Sys Label where
  init s := ∃ clock, validateConfig clock config = .ok () ∧ s = Sys.new config clock
  step := Sys.step P config

end PyNetFT.Core
