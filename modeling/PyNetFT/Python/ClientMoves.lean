/-
PyNetFT.Python.ClientMoves — what a step of a Python thread can do.

`ThreadMove` lists the steps of a thread once, with their guards, and
`ClientMove` those of the whole client; the invariants of this layer are
read off them. A step that moves nothing but the thread is `Quiet`.
-/
import PyNetFT.Python.Client

namespace PyNetFT.Python

open PyNetFT.Lib PyNetFT.Core PyNetFT.Bindings

/-! ## What the places of a thread mean -/

/-- The places where a thread holds `_lock`. -/
def Pc.holds : Pc → Bool
  | .startBuild _ | .startThread _ | .startNative _ | .startAwait _ | .startInstall _
  | .startActivate _ | .startRollback _ _ | .startUnwind _ _ | .startUnwindAwait _ _
  | .faulted _ | .health _ | .healthAwait _ | .dropped _ _ | .code _ _ _ | .halt _
  | .haltAwait _ => true
  | _ => false

/-- The native call a thread waits for. -/
def Pc.awaits : Pc → Option NativePart
  | .startAwait _ => some .start
  | .startUnwindAwait _ _ | .haltAwait _ | .orphanAwait => some .stop
  | .nextAwait _ | .awaitRead => some .read
  | _ => none

/-- The places of a fault report. -/
def Pc.reports : Pc → Bool
  | .faulted _ | .health _ | .healthAwait _ | .dropped _ _ | .code _ _ _ => true
  | _ => false

/-- The places of a dispatcher that has found its run current and has not
left its loop since. -/
def Pc.engaged : Pc → Bool
  | .read | .awaitRead | .checkResult _ | .convert _ | .checkSample _ | .take _ | .calling _ _
  | .failed _ | .record _ | .closed | .faulted none | .health none | .healthAwait none
  | .dropped none _ | .code none _ _ | .halt .finish | .haltAwait .finish => true
  | _ => false

/-- The places of a dispatcher; all others are places of calls. -/
def Pc.dispatches : Pc → Bool
  | .unstarted | .awaitActivation | .check | .orphanStop | .orphanAwait | .finish | .finished =>
    true
  | pc => pc.engaged

/-- The sample in a dispatcher's hands. -/
def Pc.carried : Pc → Option Stamped
  | .checkResult (.sample x) | .convert x | .checkSample x | .take x | .calling _ x => some x
  | _ => none

/-! ## The steps of a thread -/

/-- The steps that move nothing but the thread itself. -/
inductive Quiet (o : Owner) (caller nested : Option Nat) (choice : Choice) (s : Client) :
    Pc → Pc → Prop where
  | refused {callback : Option Nat} {result : PyResult} (free : s.lock = none)
      (answer : result = .done ∨ ∃ message, result = .raised (.runtime message)) :
      Quiet o caller nested choice s (.startEnter callback) (.returned result)
  | idle (free : s.lock = none) (stopped : s.running = false)
      (ended : ∀ r, s.callbackRun = some r → (s.runs r).thread = false ∨ caller = some r) :
      Quiet o caller nested choice s .stopEnter (.returned .done)
  | excluded {timeout : Option Binary64} {message : String} (free : s.lock = none) :
      Quiet o caller nested choice s (.samplesEnter timeout) (raiseRuntime message)
  | denied {timeout : Bool} {message : String} (free : s.lock = none)
      (reason : s.callbackRun = none ∨ s.mode = some .iterator) :
      Quiet o caller nested choice s (.waitEnter timeout) (raiseRuntime message)
  | nothing (free : s.lock = none) (reason : s.callbackRun = none) :
      Quiet o caller nested choice s .raiseEnter (.returned .done)
  | selfWait {timeout : Bool} {r : Nat} {message : String} (self : caller = some r)
      (pending : (s.runs r).completed = false) :
      Quiet o caller nested choice s (.waitSelf timeout r) (raiseRuntime message)
  | expired {timeout : Bool} {r : Nat} {message : String}
      (pending : (s.runs r).completed = false) :
      Quiet o caller nested choice s (.waitCompleted timeout r)
        (.returned (.raised (.timeout message)))
  | unavailable {i : Nat} {result : PyResult} (answer : result = .stopIteration ∨
      ∃ message, result = .raised (.value message)) :
      Quiet o caller nested choice s (.nextEnter i) (.returned result)
  | startRaises {run : Option Nat} {error : PyError} (joins : ∀ r ∈ run, s.joins caller r = true) :
      Quiet o caller nested choice s (.startFailed run error) (.returned (.raised error))
  | tells {r : Nat} : Quiet o caller nested choice s (.raiseFailure r)
      (.returned (match s.failureOf r with | some error => .raised error | none => .done))
  | startJoin {callback : Option Nat} {r : Nat} (free : s.lock = none)
      (current : s.callbackRun = some r) (thread : (s.runs r).thread = true)
      (stopped : s.running = false) (other : caller ≠ some r) :
      Quiet o caller nested choice s (.startEnter callback) (.startJoin callback r)
  | stopJoin {r : Nat} (free : s.lock = none) (current : s.callbackRun = some r)
      (thread : (s.runs r).thread = true) (stopped : s.running = false) (other : caller ≠ some r) :
      Quiet o caller nested choice s .stopEnter (.stopJoin r)
  | startLook {callback : Option Nat} {r : Nat} :
      Quiet o caller nested choice s (.startJoin callback r)
        (.startJoining callback r (s.runs r).thread)
  | stopLook {r : Nat} :
      Quiet o caller nested choice s (.stopJoin r) (.stopJoining r (s.runs r).thread)
  | startJoined {callback : Option Nat} {r : Nat} {joined : Bool}
      (joins : s.joins caller r = true) :
      Quiet o caller nested choice s (.startJoining callback r joined)
        (.startJoined callback r joined)
  | stopJoined {r : Nat} {joined : Bool} (joins : s.joins caller r = true) :
      Quiet o caller nested choice s (.stopJoining r joined) (.stopJoined r joined)
  | waits {timeout : Bool} {r : Nat} (free : s.lock = none) (current : s.callbackRun = some r)
      (mode : s.mode ≠ some .iterator) :
      Quiet o caller nested choice s (.waitEnter timeout) (.waitSelf timeout r)
  | waitsOn {timeout : Bool} {r : Nat} :
      Quiet o caller nested choice s (.waitSelf timeout r) (.waitCompleted timeout r)
  | completed {timeout : Bool} {r : Nat} (done : (s.runs r).completed = true) :
      Quiet o caller nested choice s (.waitCompleted timeout r) (.waitJoin r)
  | waitJoined {r : Nat} (joins : s.joins caller r = true) :
      Quiet o caller nested choice s (.waitJoin r) (.raiseFailure r)
  | asks {r : Nat} (free : s.lock = none) (current : s.callbackRun = some r) :
      Quiet o caller nested choice s .raiseEnter (.raiseFailure r)
  | nextReads {i : Nat} (free : s.lock = none) (current : s.iteratorIsCurrent i = true) :
      Quiet o caller nested choice s (.nextCheck i) (.nextRead i)
  | nextCloses {i : Nat} (free : s.lock = none) (current : s.iteratorIsCurrent i = true) :
      Quiet o caller nested choice s (.nextResult i .closed) (.nextClosed i)
  -- the dispatcher
  | activated {r : Nat} (owner : o = .dispatcher r) (ready : (s.runs r).activation.ready = true)
      (active : (s.runs r).activation.active = true) :
      Quiet o caller nested choice s .awaitActivation .check
  | engages {r : Nat} (owner : o = .dispatcher r) (free : s.lock = none)
      (current : s.callbackRunIsCurrent r = true) : Quiet o caller nested choice s .check .read
  | receives {r : Nat} {x : Stamped} (owner : o = .dispatcher r) (free : s.lock = none)
      (current : s.callbackRunIsCurrent r = true) :
      Quiet o caller nested choice s (.checkResult (.sample x)) (.convert x)
  | closes {r : Nat} (owner : o = .dispatcher r) (free : s.lock = none)
      (current : s.callbackRunIsCurrent r = true) :
      Quiet o caller nested choice s (.checkResult .closed) .closed
  | converts {x : Stamped} : Quiet o caller nested choice s (.convert x) (.checkSample x)
  | breaks {x : Stamped} {error : Nat} (raises : choice = .raises error) :
      Quiet o caller nested choice s (.convert x) (.failed (.other error))
  | takes {r : Nat} {x : Stamped} (owner : o = .dispatcher r) (free : s.lock = none)
      (current : s.callbackRunIsCurrent r = true) :
      Quiet o caller nested choice s (.checkSample x) (.take x)
  | calls {r callback : Nat} {x : Stamped} (owner : o = .dispatcher r)
      (user : (s.runs r).callback = some callback) :
      Quiet o caller nested choice s (.take x) (.calling callback x)
  | callbackRaises {callback error : Nat} {x : Stamped} (alone : nested = none)
      (raises : choice = .raises error) :
      Quiet o caller nested choice s (.calling callback x) (.record (.other error))
  | handles {error : PyError} (alive : s.alive = true) :
      Quiet o caller nested choice s (.failed error) (.record error)
  | orphaned {error : PyError} (dead : s.alive = false) :
      Quiet o caller nested choice s (.failed error) .orphanStop
  | again {pc : Pc} (place : pc = .checkResult .timeout ∨
      ∃ callback x, pc = .calling callback x ∧ nested = none) :
      Quiet o caller nested choice s pc .check
  | leaves {pc : Pc} (dispatcher : ∃ r, o = .dispatcher r)
      (place : pc = .awaitActivation ∨ pc = .check ∨
      (∃ result, pc = .checkResult result) ∨ (∃ x, pc = .checkSample x) ∨ (∃ x, pc = .take x) ∨
      pc = .closed) : Quiet o caller nested choice s pc .finish

/-- A step of the thread `o`, called by the callback of `caller` and
waiting for its own call `nested`, from one place to another. -/
inductive ThreadMove (o : Owner) (caller nested : Option Nat) (choice : Choice) (s : Client) :
    Pc → Pc → Client → Prop where
  | quiet {pc pc' : Pc} (move : Quiet o caller nested choice s pc pc') :
      ThreadMove o caller nested choice s pc pc' s
  -- start: taking the lock, the run record, the thread
  | begins {callback : Option Nat} {a : Attempt} {pc' : Pc} (free : s.lock = none)
      (stopped : s.running = false)
      (joined : ∀ r, s.callbackRun = some r → (s.runs r).thread = false)
      (attempt : a = ⟨callback <|> s.constructorCallback, none, s.runToken, s.callbackRun⟩)
      (place : pc' = .startBuild a ∧ a.callback.isSome = true ∨
        pc' = .startNative a ∧ a.callback = none) :
      ThreadMove o caller nested choice s (.startEnter callback) pc' (s.acquire o)
  | builds {a : Attempt} :
      ThreadMove o caller nested choice s (.startBuild a)
        (.startThread { a with run := some s.made })
        (({ s with made := s.made + 1 }.setRun s.made { a.record with thread := true }).setThread
          (.dispatcher s.made) (some { op := .dispatch, pc := .unstarted }))
  | buildFails {a : Attempt} {error : Nat} :
      ThreadMove o caller nested choice s (.startBuild a)
        (.returned (.raised (.other error))) s.release
  | buildFailsLate {a : Attempt} {error : Nat} :
      ThreadMove o caller nested choice s (.startBuild a) (.returned (.raised (.other error)))
        ({ s with made := s.made + 1 }.setRun s.made { a.record with
          activation := a.record.activation.cancel, callback := none, completed := true }).release
  | launches {a : Attempt} {r : Nat} (run : a.run = some r) :
      ThreadMove o caller nested choice s (.startThread a) (.startNative a)
        (s.setThread (.dispatcher r) (some { op := .dispatch, pc := .awaitActivation }))
  | launchFails {a : Attempt} {r error : Nat} (run : a.run = some r) :
      ThreadMove o caller nested choice s (.startThread a) (.returned (.raised (.other error)))
        (s.cancelRun r).release
  | launchFailsLate {a : Attempt} {r error : Nat} (run : a.run = some r) :
      ThreadMove o caller nested choice s (.startThread a) (.returned (.raised (.other error)))
        ((s.setThread (.dispatcher r)
          (some { op := .dispatch, pc := .awaitActivation })).cancelRun r).release
  -- start: the native start and what follows
  | nativeStarted {a : Attempt} {native : Native} {op : NativeOp}
      (returned : s.native.calls o.nativeId = some ⟨op, .returned .done⟩)
      (collect : s.native.collect o.nativeId = some native) :
      ThreadMove o caller nested choice s (.startAwait a) (.startInstall a)
        { s with native := native }
  | nativeFailed {a : Attempt} {native : Native} {op : NativeOp} {message : String}
      (returned : s.native.calls o.nativeId = some ⟨op, .returned (.threw message)⟩)
      (collect : s.native.collect o.nativeId = some native) :
      ThreadMove o caller nested choice s (.startAwait a) (.startRollback a (.native message))
        { s with native := native }
  | installs {a : Attempt} {r : Nat} (run : a.run = some r) :
      ThreadMove o caller nested choice s (.startInstall a) (.startActivate a) (s.install a)
  | iterates {a : Attempt} (goes : choice = .go) (run : a.run = none) :
      ThreadMove o caller nested choice s (.startInstall a) (.returned .done) (s.install a).release
  | activates {a : Attempt} {r : Nat} (goes : choice = .go) (run : a.run = some r) :
      ThreadMove o caller nested choice s (.startActivate a) (.returned .done)
        (s.activateRun r).release
  | startFails {a : Attempt} {pc : Pc} {error : Nat} (raised : choice ≠ .go)
      (place : pc = .startInstall a ∨ pc = .startActivate a) :
      ThreadMove o caller nested choice s pc (.startRollback a (.other error)) s
  | activateFailsLate {a : Attempt} {r error : Nat} (raised : choice ≠ .go) (run : a.run = some r) :
      ThreadMove o caller nested choice s (.startActivate a) (.startRollback a (.other error))
        (s.activateRun r)
  | rollsBack {a : Attempt} {error : PyError} :
      ThreadMove o caller nested choice s (.startRollback a error) (.startUnwind a.run error)
        (s.rollback a)
  | unwound {run : Option Nat} {error : PyError} {native : Native} {op : NativeOp}
      {result : NativeResult}
      (returned : s.native.calls o.nativeId = some ⟨op, .returned result⟩)
      (collect : s.native.collect o.nativeId = some native) :
      ThreadMove o caller nested choice s (.startUnwindAwait run error) (.startFailed run error)
        { s with native := native }.release
  | invokes {pc pc' : Pc} {op : NativeOp} {native : Native}
      (place : (∃ a, pc = .startNative a ∧ pc' = .startAwait a ∧ op = .start) ∨
        (∃ run error, pc = .startUnwind run error ∧ pc' = .startUnwindAwait run error ∧
          op = .stop) ∨
        (∃ ending, pc = .halt ending ∧ pc' = .haltAwait ending ∧ op = .stop) ∨
        (pc = .orphanStop ∧ pc' = .orphanAwait ∧ op = .stop) ∨
        (∃ i, pc = .nextRead i ∧ pc' = .nextAwait i ∧ op = .read (s.iterators i).timeout) ∨
        pc = .read ∧ pc' = .awaitRead ∧ op = .read none)
      (invoke : s.native.invoke o.nativeId op = some native) :
      ThreadMove o caller nested choice s pc pc' { s with native := native }
  | reads {pc pc' : Pc} {native : Native} {op : NativeOp} {generation : Nat}
      {result : ReadResult Stamped}
      (returned : s.native.calls o.nativeId = some ⟨op, .returned (.read generation result)⟩)
      (collect : s.native.collect o.nativeId = some native)
      (place : (∃ i, pc = .nextAwait i ∧ pc' = .nextResult i result) ∨
        pc = .awaitRead ∧ pc' = .checkResult result) :
      ThreadMove o caller nested choice s pc pc' { s with native := native }
  | readFails {native : Native} {op : NativeOp} {result : NativeResult} {error : PyError}
      (returned : s.native.calls o.nativeId = some ⟨op, .returned result⟩)
      (collect : s.native.collect o.nativeId = some native) :
      ThreadMove o caller nested choice s .awaitRead (.failed error) { s with native := native }
  | nextFails {i : Nat} {native : Native} {op : NativeOp} {message : String}
      (returned : s.native.calls o.nativeId = some ⟨op, .returned (.threw message)⟩)
      (collect : s.native.collect o.nativeId = some native) :
      ThreadMove o caller nested choice s (.nextAwait i)
        (.returned (.raised (.configuration message))) ({ s with native := native }.exhaust i)
  | orphanStopped {native : Native} {op : NativeOp} {result : NativeResult}
      (returned : s.native.calls o.nativeId = some ⟨op, .returned result⟩)
      (collect : s.native.collect o.nativeId = some native) :
      ThreadMove o caller nested choice s .orphanAwait .finish { s with native := native }
  | startClears {callback : Option Nat} {r : Nat} {joined : Bool} (free : s.lock = none) :
      ThreadMove o caller nested choice s (.startJoined callback r joined) (.startEnter callback)
        (s.clearThread r joined)
  | stopClears {r : Nat} {joined : Bool} (free : s.lock = none) :
      ThreadMove o caller nested choice s (.stopJoined r joined) (.returned .done)
        (s.clearThread r joined)
  | makes {timeout : Option Binary64} (free : s.lock = none)
      (offered : s.constructorCallback = none) (mode : s.mode ≠ some .callback) :
      ThreadMove o caller nested choice s (.samplesEnter timeout)
        (.returned (.iterator s.madeIterators)) (s.makeIterator timeout)
  | nextEnters {i : Nat} :
      ThreadMove o caller nested choice s (.nextEnter i) (.nextCheck i)
        (s.setIterator i { s.iterators i with state := .executing })
  | exhausts {i : Nat} {pc : Pc} (free : s.lock = none)
      (place : pc = .nextCheck i ∨ (∃ result, pc = .nextResult i result) ∨ pc = .nextClosed i) :
      ThreadMove o caller nested choice s pc (.returned .stopIteration) (s.exhaust i)
  | timesOut {i : Nat} {message : String} (free : s.lock = none) :
      ThreadMove o caller nested choice s (.nextResult i .timeout)
        (.returned (.raised (.timeout message))) (s.exhaust i)
  | yields {i : Nat} {x : Stamped} (free : s.lock = none)
      (current : s.iteratorIsCurrent i = true) :
      ThreadMove o caller nested choice s (.nextResult i (.sample x)) (.returned (.sample x))
        (s.suspend i)
  -- the fault report
  | nextReports {i : Nat} (free : s.lock = none) (current : s.iteratorIsCurrent i = true) :
      ThreadMove o caller nested choice s (.nextClosed i) (.faulted (some i)) (s.acquire o)
  | reports {r : Nat} (owner : o = .dispatcher r) (free : s.lock = none)
      (current : s.callbackRunIsCurrent r = true) :
      ThreadMove o caller nested choice s .closed (.faulted none) (s.acquire o)
  | healthy {i : Nat} (clear : s.native.core.shared.faulted = false) :
      ThreadMove o caller nested choice s (.faulted (some i)) (.returned .stopIteration)
        (s.release.exhaust i)
  | faults {iterator : Option Nat} (latched : s.native.core.shared.faulted = true) :
      ThreadMove o caller nested choice s (.faulted iterator) (.health iterator) s
  | asksHealth {iterator : Option Nat} {core : Sys}
      (invoke : s.native.core.invoke o.healthId none .health = some core) :
      ThreadMove o caller nested choice s (.health iterator) (.healthAwait iterator)
        { s with native := { s.native with core := core } }
  | getsHealth {iterator : Option Nat} {core : Sys} {asker : Option Nat} {op : Op}
      {health : HealthSnapshot}
      (returned : s.native.core.calls o.healthId = some ⟨asker, op, .returned (.snapshot health)⟩)
      (collect : s.native.core.collect o.healthId = some core) :
      ThreadMove o caller nested choice s (.healthAwait iterator) (.dropped iterator health)
        { s with native := { s.native with core := core } }
  | getsDropped {iterator : Option Nat} {health : HealthSnapshot} :
      ThreadMove o caller nested choice s (.dropped iterator health)
        (.code iterator health s.native.queue.droppedCount) s
  -- _stop_locked
  | stops (free : s.lock = none) (running : s.running = true) :
      ThreadMove o caller nested choice s .stopEnter (.halt (.stopped s.callbackRun))
        { s with running := false, lock := some o }
  | ends (clear : s.native.core.shared.faulted = false) :
      ThreadMove o caller nested choice s (.faulted none) (.halt .finish)
        { s with running := false, lock := some o }
  | raisesFault {i droppedCount : Nat} {health : HealthSnapshot} :
      ThreadMove o caller nested choice s (.code (some i) health droppedCount)
        (.halt (.raised i ⟨s.native.core.shared.faultLatch, health, droppedCount⟩))
        { s with running := false, lock := some o }
  | storesFault {r droppedCount : Nat} {health : HealthSnapshot} (owner : o = .dispatcher r) :
      ThreadMove o caller nested choice s (.code none health droppedCount) (.halt .finish)
        { s.setRun r { s.runs r with
            failure := some ⟨s.native.core.shared.faultLatch, health, droppedCount⟩ } with
          running := false, lock := some o }
  | storesError {r : Nat} {error : PyError} (owner : o = .dispatcher r) (free : s.lock = none)
      (current : s.callbackRunIsCurrent r = true) :
      ThreadMove o caller nested choice s (.record error) (.halt .finish)
        { s.storeError r error with running := false, lock := some o }
  | storesLate {r : Nat} {error : PyError} (owner : o = .dispatcher r) (free : s.lock = none)
      (stale : s.callbackRunIsCurrent r = false) :
      ThreadMove o caller nested choice s (.record error) .finish (s.storeError r error)
  | halted {ending : Ending} {native : Native} {op : NativeOp} {result : NativeResult} {pc' : Pc}
      {s' : Client} (returned : s.native.calls o.nativeId = some ⟨op, .returned result⟩)
      (collect : s.native.collect o.nativeId = some native)
      (after : ({ s with native := native, mode := none }.release).afterStop caller ending
        = (pc', s')) :
      ThreadMove o caller nested choice s (.haltAwait ending) pc' s'
  | finishes {r : Nat} (owner : o = .dispatcher r) :
      ThreadMove o caller nested choice s .finish .finished
        (if s.alive then s.setRun r { s.runs r with callback := none, completed := true } else s)

section Moves

variable {o : Owner} {caller nested : Option Nat} {choice : Choice} {s s' : Client} {pc pc' : Pc}

theorem Client.release_of_free (h : s.lock = none) : s.release = s := by
  rw [Client.release, ← h]

theorem Client.invokeNative_cases {op : NativeOp} (h : s.invokeNative o op = some s') :
    ∃ native, s.native.invoke o.nativeId op = some native ∧ s' = { s with native := native } := by
  obtain ⟨native, hnative, rfl⟩ := Option.map_eq_some_iff.mp h
  exact ⟨native, hnative, rfl⟩

theorem Client.collectNative_cases {result : NativeResult}
    (h : s.collectNative o = some (result, s')) :
    ∃ op native, s.native.calls o.nativeId = some ⟨op, .returned result⟩ ∧
      s.native.collect o.nativeId = some native ∧ s' = { s with native := native } := by
  unfold Client.collectNative at h
  split at h
  · rename_i op result' hcall
    obtain ⟨native, hnative, heq⟩ := Option.map_eq_some_iff.mp h
    obtain ⟨rfl, rfl⟩ := Prod.mk.inj heq
    exact ⟨op, native, hcall, hnative, rfl⟩
  · cases h

theorem startDecide_move {callback : Option Nat} (free : s.lock = none)
    (h : startDecide o caller callback s = (pc', s')) :
    ThreadMove o caller nested choice s (.startEnter callback) pc' s' := by
  unfold startDecide at h
  dsimp only at h
  generalize (if (callback <|> s.constructorCallback).isSome = true then Mode.callback
    else Mode.iterator) = requested at h
  split at h
  · obtain ⟨rfl, rfl⟩ := Prod.mk.inj h
    exact .quiet (.refused free (.inr ⟨_, rfl⟩))
  rename_i hcaller
  split at h
  · split at h
    · obtain ⟨rfl, rfl⟩ := Prod.mk.inj h
      exact .quiet (.refused free (.inr ⟨_, rfl⟩))
    · split at h
      · obtain ⟨rfl, rfl⟩ := Prod.mk.inj h
        exact .quiet (.refused free (.inr ⟨_, rfl⟩))
      · obtain ⟨rfl, rfl⟩ := Prod.mk.inj h
        exact .quiet (.refused free (.inl rfl))
  rename_i hrunning
  have hstopped : s.running = false := Bool.eq_false_iff.mpr hrunning
  split at h
  · rename_i r hcurrent
    obtain ⟨rfl, rfl⟩ := Prod.mk.inj h
    obtain ⟨hrun, hthread⟩ := Option.filter_eq_some_iff.mp hcurrent
    refine .quiet (.startJoin free hrun hthread hstopped ?_)
    rintro rfl
    rw [hcurrent] at hcaller
    simp at hcaller
  · rename_i hcurrent
    obtain ⟨rfl, rfl⟩ := Prod.mk.inj h
    refine .begins free hstopped ?_ rfl ?_
    · intro r hr
      have hnone := Option.filter_eq_none_iff.mp hcurrent r hr
      exact Bool.eq_false_iff.mpr hnone
    · cases hselected : (callback <|> s.constructorCallback) with
      | none => exact .inr ⟨by simp, rfl⟩
      | some f => exact .inl ⟨by simp, rfl⟩

theorem buildStep_move {a : Attempt} (h : buildStep choice s a = some (pc', s')) :
    ThreadMove o caller nested choice s (.startBuild a) pc' s' := by
  unfold buildStep at h
  cases choice <;> cases h
  · exact .builds
  · exact .buildFails
  · exact .buildFailsLate

theorem launchStep_move {a : Attempt} {r : Nat} (run : a.run = some r)
    (h : launchStep choice s a r = some (pc', s')) :
    ThreadMove o caller nested choice s (.startThread a) pc' s' := by
  unfold launchStep at h
  cases choice <;> cases h
  · exact .launches run
  · exact .launchFails run
  · exact .launchFailsLate run

theorem startStep_move (h : startStep o caller choice s pc = some (pc', s')) :
    ThreadMove o caller nested choice s pc pc' s' := by
  cases pc <;> dsimp only [startStep] at h
  case startEnter callback =>
    split at h
    · cases h
    · rename_i hlock
      exact startDecide_move (by simpa using hlock) (Option.some.inj h)
  case startJoin callback r =>
    cases h
    exact .quiet .startLook
  case startJoining callback r joined =>
    split at h
    · rename_i hjoins
      cases h
      exact .quiet (.startJoined hjoins)
    · cases h
  case startJoined callback r joined =>
    split at h
    · cases h
    · rename_i hlock
      cases h
      exact .startClears (by simpa using hlock)
  case startBuild a => exact buildStep_move h
  case startThread a =>
    obtain ⟨r, hr, h⟩ := Option.bind_eq_some_iff.mp h
    exact launchStep_move hr h
  case startNative a =>
    obtain ⟨u, hu, heq⟩ := Option.map_eq_some_iff.mp h
    obtain ⟨rfl, rfl⟩ := Prod.mk.inj heq
    obtain ⟨native, hnative, rfl⟩ := Client.invokeNative_cases hu
    exact .invokes (.inl ⟨a, rfl, rfl, rfl⟩) hnative
  case startAwait a =>
    split at h
    · rename_i u hcollect
      cases h
      obtain ⟨op, native, hcall, hnative, rfl⟩ := Client.collectNative_cases hcollect
      exact .nativeStarted hcall hnative
    · rename_i message u hcollect
      cases h
      obtain ⟨op, native, hcall, hnative, rfl⟩ := Client.collectNative_cases hcollect
      exact .nativeFailed hcall hnative
    · cases h
  case startInstall a =>
    cases choice with
    | go =>
      dsimp only at h
      split at h
      · rename_i hrun
        cases h
        obtain ⟨r, hr⟩ := Option.isSome_iff_exists.mp hrun
        exact .installs hr
      · rename_i hrun
        cases h
        exact .iterates rfl (by simpa using hrun)
    | raises error =>
      cases h
      exact .startFails (by simp) (.inl rfl)
    | raisesLate | expires => cases h
  case startActivate a =>
    cases choice with
    | go =>
      obtain ⟨r, hr, heq⟩ := Option.map_eq_some_iff.mp h
      obtain ⟨rfl, rfl⟩ := Prod.mk.inj heq
      exact .activates rfl hr
    | raises error =>
      cases h
      exact .startFails (by simp) (.inr rfl)
    | raisesLate error =>
      obtain ⟨r, hr, heq⟩ := Option.map_eq_some_iff.mp h
      obtain ⟨rfl, rfl⟩ := Prod.mk.inj heq
      exact .activateFailsLate (by simp) hr
    | expires => cases h
  case startRollback a error =>
    cases h
    exact .rollsBack
  case startUnwind run error =>
    obtain ⟨u, hu, heq⟩ := Option.map_eq_some_iff.mp h
    obtain ⟨rfl, rfl⟩ := Prod.mk.inj heq
    obtain ⟨native, hnative, rfl⟩ := Client.invokeNative_cases hu
    exact .invokes (.inr (.inl ⟨run, error, rfl, rfl, rfl⟩)) hnative
  case startUnwindAwait run error =>
    obtain ⟨⟨result, u⟩, hcollect, heq⟩ := Option.map_eq_some_iff.mp h
    obtain ⟨rfl, rfl⟩ := Prod.mk.inj heq
    obtain ⟨op, native, hcall, hnative, rfl⟩ := Client.collectNative_cases hcollect
    exact .unwound hcall hnative
  case startFailed run error =>
    split at h
    · rename_i hjoins
      cases h
      refine .quiet (.startRaises ?_)
      rintro r hr
      rw [Option.mem_def.mp hr] at hjoins
      exact hjoins
    · cases h
  all_goals cases h

theorem stopLocked_halts {ending : Ending} (h : s.running = true) :
    s.stopLocked o caller ending = (.halt ending, { s with running := false, lock := some o }) := by
  rw [Client.stopLocked, if_pos h]

theorem stopStep_move (h : stopStep o caller s pc = some (pc', s')) :
    ThreadMove o caller nested choice s pc pc' s' := by
  cases pc <;> dsimp only [stopStep] at h
  case stopEnter =>
    split at h
    · cases h
    · rename_i hlock
      have hfree : s.lock = none := by simpa using hlock
      cases hrunning : s.running with
      | true =>
        rw [stopLocked_halts hrunning] at h
        cases h
        exact .stops hfree hrunning
      | false =>
        rw [Client.stopLocked, if_neg (by simp [hrunning]), Client.release_of_free hfree] at h
        unfold Client.afterStop at h
        dsimp only at h
        split at h
        · rename_i r hcurrent
          split at h
          · rename_i hthread
            cases h
            exact .quiet (.stopJoin hfree hcurrent hthread.1 hrunning hthread.2)
          · rename_i hthread
            cases h
            refine .quiet (.idle hfree hrunning ?_)
            intro r' hr'
            rw [hcurrent] at hr'
            cases hr'
            rw [not_and_or, not_not] at hthread
            exact hthread.imp_left Bool.eq_false_iff.mpr
        · rename_i hcurrent
          cases h
          refine .quiet (.idle hfree hrunning ?_)
          intro r hr
          rw [hcurrent] at hr
          cases hr
  case stopJoin r =>
    cases h
    exact .quiet .stopLook
  case stopJoining r joined =>
    split at h
    · rename_i hjoins
      cases h
      exact .quiet (.stopJoined hjoins)
    · cases h
  case stopJoined r joined =>
    split at h
    · cases h
    · rename_i hlock
      cases h
      exact .stopClears (by simpa using hlock)
  all_goals cases h

theorem waitStep_move (h : waitStep caller choice s pc = some (pc', s')) :
    ThreadMove o caller nested choice s pc pc' s' := by
  cases pc <;> dsimp only [waitStep] at h
  case samplesEnter timeout =>
    split at h
    · cases h
    rename_i hlock
    have hfree : s.lock = none := by simpa using hlock
    split at h
    · cases h
      exact .quiet (.excluded hfree)
    · rename_i hopen
      cases h
      rw [not_or] at hopen
      exact .makes hfree (by simpa using hopen.1) hopen.2
  case waitEnter timeout =>
    split at h
    · cases h
    rename_i hlock
    have hfree : s.lock = none := by simpa using hlock
    split at h
    · rename_i hrun
      cases h
      exact .quiet (.denied hfree (.inl hrun))
    · rename_i r hrun
      cases h
      split
      · rename_i hmode
        exact .quiet (.denied hfree (.inr hmode))
      · rename_i hmode
        exact .quiet (.waits hfree hrun hmode)
  case waitSelf timeout r =>
    cases h
    split
    · rename_i hself
      exact .quiet (.selfWait hself.2.1 hself.2.2)
    · exact .quiet .waitsOn
  case waitCompleted timeout r =>
    split at h
    · rename_i hdone
      cases h
      exact .quiet (.completed hdone)
    · rename_i hdone
      split at h
      · cases h
        exact .quiet (.expired (Bool.eq_false_iff.mpr hdone))
      · cases h
  case waitJoin r =>
    split at h
    · rename_i hjoins
      cases h
      exact .quiet (.waitJoined hjoins)
    · cases h
  case raiseEnter =>
    split at h
    · cases h
    rename_i hlock
    have hfree : s.lock = none := by simpa using hlock
    split at h
    · rename_i hrun
      cases h
      exact .quiet (.nothing hfree hrun)
    · rename_i r hrun
      cases h
      exact .quiet (.asks hfree hrun)
  case raiseFailure r =>
    cases h
    exact .quiet .tells
  all_goals cases h

theorem nextStep_move (h : nextStep o s pc = some (pc', s')) :
    ThreadMove o caller nested choice s pc pc' s' := by
  cases pc <;> dsimp only [nextStep] at h
  case nextEnter i =>
    split at h
    · cases h
      exact .nextEnters
    · cases h
      exact .quiet (.unavailable (.inr ⟨_, rfl⟩))
    · cases h
      exact .quiet (.unavailable (.inl rfl))
  case nextCheck i =>
    split at h
    · cases h
    rename_i hlock
    have hfree : s.lock = none := by simpa using hlock
    split at h
    · rename_i hcurrent
      cases h
      exact .quiet (.nextReads hfree hcurrent)
    · cases h
      exact .exhausts hfree (.inl rfl)
  case nextRead i =>
    obtain ⟨u, hu, heq⟩ := Option.map_eq_some_iff.mp h
    obtain ⟨rfl, rfl⟩ := Prod.mk.inj heq
    obtain ⟨native, hnative, rfl⟩ := Client.invokeNative_cases hu
    exact .invokes (.inr (.inr (.inr (.inr (.inl ⟨i, rfl, rfl, rfl⟩))))) hnative
  case nextAwait i =>
    split at h
    · rename_i generation result u hcollect
      cases h
      obtain ⟨op, native, hcall, hnative, rfl⟩ := Client.collectNative_cases hcollect
      exact .reads hcall hnative (.inl ⟨i, rfl, rfl⟩)
    · rename_i message u hcollect
      cases h
      obtain ⟨op, native, hcall, hnative, rfl⟩ := Client.collectNative_cases hcollect
      exact .nextFails hcall hnative
    · cases h
  case nextResult i result =>
    split at h
    · cases h
    rename_i hlock
    have hfree : s.lock = none := by simpa using hlock
    split at h
    · cases h
      exact .exhausts hfree (.inr (.inl ⟨result, rfl⟩))
    · rename_i hcurrent
      have hcurrent' : s.iteratorIsCurrent i = true := by simpa using hcurrent
      cases result with
      | sample x =>
        cases h
        exact .yields hfree hcurrent'
      | timeout =>
        cases h
        exact .timesOut hfree
      | closed =>
        cases h
        exact .quiet (.nextCloses hfree hcurrent')
  case nextClosed i =>
    split at h
    · cases h
    rename_i hlock
    have hfree : s.lock = none := by simpa using hlock
    split at h
    · rename_i hcurrent
      cases h
      exact .nextReports hfree hcurrent
    · cases h
      exact .exhausts hfree (.inr (.inr rfl))
  all_goals cases h

theorem awaitActivation_move {r : Nat} {t : Thread}
    (h : dispatchStep r t choice s .awaitActivation = some (pc', s')) :
    ThreadMove (.dispatcher r) caller t.nested choice s .awaitActivation pc' s' := by
  dsimp only [dispatchStep] at h
  split at h
  · rename_i hready
    cases h
    split
    · rename_i hactive
      exact .quiet (.activated rfl hready hactive)
    · exact .quiet (.leaves ⟨r, rfl⟩ (.inl rfl))
  · cases h

theorem check_move {r : Nat} {t : Thread}
    (h : dispatchStep r t choice s .check = some (pc', s')) :
    ThreadMove (.dispatcher r) caller t.nested choice s .check pc' s' := by
  dsimp only [dispatchStep] at h
  split at h
  · cases h
    exact .quiet (.leaves ⟨r, rfl⟩ (.inr (.inl rfl)))
  split at h
  · cases h
  rename_i hlock
  cases h
  split
  · rename_i hcurrent
    exact .quiet (.engages rfl (by simpa using hlock) hcurrent)
  · exact .quiet (.leaves ⟨r, rfl⟩ (.inr (.inl rfl)))

theorem awaitRead_move {r : Nat} {t : Thread}
    (h : dispatchStep r t choice s .awaitRead = some (pc', s')) :
    ThreadMove (.dispatcher r) caller t.nested choice s .awaitRead pc' s' := by
  dsimp only [dispatchStep] at h
  split at h
  · cases h
  rename_i result u hcollect
  obtain ⟨op, native, hcall, hnative, rfl⟩ := Client.collectNative_cases hcollect
  split at h
  · cases h
    exact .readFails hcall hnative
  · cases h
    exact .readFails hcall hnative
  · cases h
    exact .reads hcall hnative (.inr ⟨rfl, rfl⟩)
  · cases h

theorem checkResult_move {r : Nat} {t : Thread} {result : ReadResult Stamped}
    (h : dispatchStep r t choice s (.checkResult result) = some (pc', s')) :
    ThreadMove (.dispatcher r) caller t.nested choice s (.checkResult result) pc' s' := by
  dsimp only [dispatchStep] at h
  split at h
  · cases h
    exact .quiet (.leaves ⟨r, rfl⟩ (.inr (.inr (.inl ⟨result, rfl⟩))))
  split at h
  · cases h
  rename_i hlock
  have hfree : s.lock = none := by simpa using hlock
  split at h
  · cases h
    exact .quiet (.leaves ⟨r, rfl⟩ (.inr (.inr (.inl ⟨result, rfl⟩))))
  · rename_i hcurrent
    have hcurrent' : s.callbackRunIsCurrent r = true := by simpa using hcurrent
    cases h
    cases result with
    | sample x => exact .quiet (.receives rfl hfree hcurrent')
    | timeout => exact .quiet (.again (.inl rfl))
    | closed => exact .quiet (.closes rfl hfree hcurrent')

/-- A sample on its way to the user callback. -/
theorem deliverStep_move {r : Nat} {t : Thread} {x : Stamped}
    (hpc : pc = .convert x ∨ pc = .checkSample x ∨ pc = .take x ∨
      ∃ callback, pc = .calling callback x)
    (h : dispatchStep r t choice s pc = some (pc', s')) :
    ThreadMove (.dispatcher r) caller t.nested choice s pc pc' s' := by
  rcases hpc with rfl | rfl | rfl | ⟨callback, rfl⟩ <;> dsimp only [dispatchStep] at h
  · split at h
    · cases h
      exact .quiet (.breaks rfl)
    · cases h
      exact .quiet .converts
  · split at h
    · cases h
    rename_i hlock
    cases h
    split
    · rename_i hcurrent
      exact .quiet (.takes rfl (by simpa using hlock) hcurrent)
    · exact .quiet (.leaves ⟨r, rfl⟩ (.inr (.inr (.inr (.inl ⟨x, rfl⟩)))))
  · cases h
    split
    · rename_i callback hcallback
      exact .quiet (.calls rfl hcallback)
    · exact .quiet (.leaves ⟨r, rfl⟩ (.inr (.inr (.inr (.inr (.inl ⟨x, rfl⟩))))))
  · split at h
    · cases h
    rename_i hnested
    have halone : t.nested = none := by simpa using hnested
    split at h
    · cases h
      exact .quiet (.callbackRaises halone rfl)
    · cases h
      exact .quiet (.again (.inr ⟨callback, x, rfl, halone⟩))

theorem record_move {r : Nat} {t : Thread} {error : PyError}
    (h : dispatchStep r t choice s (.record error) = some (pc', s')) :
    ThreadMove (.dispatcher r) caller t.nested choice s (.record error) pc' s' := by
  dsimp only [dispatchStep] at h
  split at h
  · cases h
  rename_i hlock
  have hfree : s.lock = none := by simpa using hlock
  split at h
  · rename_i hcurrent
    have hrunning : (s.storeError r error).running = true := by
      have hrun : s.running = true := by
        simp only [Client.callbackRunIsCurrent, Bool.and_eq_true] at hcurrent
        exact hcurrent.1.1.1
      unfold Client.storeError Client.setRun
      split <;> exact hrun
    rw [stopLocked_halts hrunning] at h
    cases h
    exact .storesError rfl hfree hcurrent
  · rename_i hcurrent
    cases h
    exact .storesLate rfl hfree (Bool.eq_false_iff.mpr hcurrent)

theorem closed_move {r : Nat} {t : Thread}
    (h : dispatchStep r t choice s .closed = some (pc', s')) :
    ThreadMove (.dispatcher r) caller t.nested choice s .closed pc' s' := by
  dsimp only [dispatchStep] at h
  split at h
  · cases h
  rename_i hlock
  have hfree : s.lock = none := by simpa using hlock
  split at h
  · rename_i hcurrent
    cases h
    exact .reports rfl hfree hcurrent
  · cases h
    exact .quiet (.leaves ⟨r, rfl⟩ (.inr (.inr (.inr (.inr (.inr rfl))))))

theorem dispatchStep_move {r : Nat} {t : Thread}
    (h : dispatchStep r t choice s pc = some (pc', s')) :
    ThreadMove (.dispatcher r) caller t.nested choice s pc pc' s' := by
  cases pc
  case awaitActivation => exact awaitActivation_move h
  case check => exact check_move h
  case awaitRead => exact awaitRead_move h
  case checkResult result => exact checkResult_move h
  case convert x => exact deliverStep_move (.inl rfl) h
  case checkSample x => exact deliverStep_move (.inr (.inl rfl)) h
  case take x => exact deliverStep_move (.inr (.inr (.inl rfl))) h
  case calling callback x => exact deliverStep_move (.inr (.inr (.inr ⟨callback, rfl⟩))) h
  case record error => exact record_move h
  case closed => exact closed_move h
  all_goals dsimp only [dispatchStep] at h
  case read =>
    obtain ⟨u, hu, heq⟩ := Option.map_eq_some_iff.mp h
    obtain ⟨rfl, rfl⟩ := Prod.mk.inj heq
    obtain ⟨native, hnative, rfl⟩ := Client.invokeNative_cases hu
    exact .invokes (.inr (.inr (.inr (.inr (.inr ⟨rfl, rfl, rfl⟩))))) hnative
  case failed error =>
    cases h
    split
    · rename_i halive
      exact .quiet (.handles halive)
    · rename_i halive
      exact .quiet (.orphaned (Bool.eq_false_iff.mpr halive))
  case orphanStop =>
    obtain ⟨u, hu, heq⟩ := Option.map_eq_some_iff.mp h
    obtain ⟨rfl, rfl⟩ := Prod.mk.inj heq
    obtain ⟨native, hnative, rfl⟩ := Client.invokeNative_cases hu
    exact .invokes (.inr (.inr (.inr (.inl ⟨rfl, rfl, rfl⟩)))) hnative
  case orphanAwait =>
    obtain ⟨⟨result, u⟩, hcollect, heq⟩ := Option.map_eq_some_iff.mp h
    obtain ⟨rfl, rfl⟩ := Prod.mk.inj heq
    obtain ⟨op, native, hcall, hnative, rfl⟩ := Client.collectNative_cases hcollect
    exact .orphanStopped hcall hnative
  case finish =>
    cases h
    exact .finishes rfl
  all_goals cases h

theorem lockedStep_move (hrunning : pc.reports = true → s.running = true)
    (h : lockedStep o caller s pc = some (pc', s')) :
    ThreadMove o caller nested choice s pc pc' s' := by
  cases pc <;> dsimp only [lockedStep] at h
  case faulted iterator =>
    split at h
    · rename_i hlatched
      cases h
      exact .faults hlatched
    · rename_i hclear
      have hclear' := Bool.eq_false_iff.mpr hclear
      cases iterator with
      | some i =>
        cases h
        exact .healthy hclear'
      | none =>
        dsimp only at h
        rw [stopLocked_halts (hrunning rfl)] at h
        cases h
        exact .ends hclear'
  case health iterator =>
    obtain ⟨u, hu, heq⟩ := Option.map_eq_some_iff.mp h
    obtain ⟨rfl, rfl⟩ := Prod.mk.inj heq
    obtain ⟨core, hcore, rfl⟩ := Option.map_eq_some_iff.mp hu
    exact .asksHealth hcore
  case healthAwait iterator =>
    obtain ⟨⟨health, u⟩, hu, heq⟩ := Option.map_eq_some_iff.mp h
    obtain ⟨rfl, rfl⟩ := Prod.mk.inj heq
    unfold Client.collectHealth at hu
    split at hu
    · rename_i asker op health' hcall
      obtain ⟨core, hcore, heq⟩ := Option.map_eq_some_iff.mp hu
      obtain ⟨rfl, rfl⟩ := Prod.mk.inj heq
      exact .getsHealth hcall hcore
    · cases hu
  case dropped iterator health =>
    cases h
    exact .getsDropped
  case code iterator health droppedCount =>
    split at h
    · rw [stopLocked_halts (hrunning rfl)] at h
      cases h
      exact .raisesFault
    · rename_i r
      rw [stopLocked_halts (show (s.setRun r _).running = true from hrunning rfl)] at h
      cases h
      exact .storesFault rfl
    · cases h
  case halt ending =>
    obtain ⟨u, hu, heq⟩ := Option.map_eq_some_iff.mp h
    obtain ⟨rfl, rfl⟩ := Prod.mk.inj heq
    obtain ⟨native, hnative, rfl⟩ := Client.invokeNative_cases hu
    exact .invokes (.inr (.inr (.inl ⟨ending, rfl, rfl, rfl⟩))) hnative
  case haltAwait ending =>
    obtain ⟨⟨result, u⟩, hcollect, heq⟩ := Option.map_eq_some_iff.mp h
    obtain ⟨op, native, hcall, hnative, rfl⟩ := Client.collectNative_cases hcollect
    exact .halted hcall hnative heq
  all_goals cases h

/-- **What a step of a thread can do.** -/
theorem threadStep_move {t : Thread} (hrunning : t.pc.reports = true → s.running = true)
    (h : threadStep o t choice s = some (pc', s')) :
    ThreadMove o t.caller t.nested choice s t.pc pc' s' := by
  unfold threadStep at h
  split at h
  · exact startStep_move h
  · exact stopStep_move h
  · exact waitStep_move h
  · exact nextStep_move h
  · split at h
    · exact dispatchStep_move h
    · cases h
  · exact lockedStep_move hrunning h

end Moves

/-! ## The steps of the system -/

/-- The new call of `invoke`. -/
def Client.entered (s : Client) (c : Nat) (caller : Option Nat) (op : ClientOp) : Client :=
  { s.setThread (.call c) (some { caller := caller, op := op, pc := op.entry }) with
    inFlight := s.inFlight + 1 }

/-- A call taken off. -/
def Client.left (s : Client) (c : Nat) : Client :=
  { s.setThread (.call c) none with inFlight := s.inFlight - 1 }

inductive ClientMove (P : Platform) (config : Config) (s : Client) :
    ClientLabel → Client → Prop where
  | native {l : NativeLabel} {native : Native} (foreign : NativeLabel.foreign l = true)
      (step : s.native.step P config l = some native) :
      ClientMove P config s (.native l) { s with native := native }
  | invoke {c : Nat} {op : ClientOp} (free : s.threads (.call c) = none)
      (offered : s.offers op = true) (alive : s.alive = true) :
      ClientMove P config s (.invoke c none op) (s.entered c none op)
  | nest {c r : Nat} {op : ClientOp} {t : Thread} (free : s.threads (.call c) = none)
      (offered : s.offers op = true) (dispatcher : s.threads (.dispatcher r) = some t)
      (inside : t.inCallback = true) (alive : s.alive = true) :
      ClientMove P config s (.invoke c (some r) op)
        ((s.entered c (some r) op).setThread (.dispatcher r) (some { t with nested := some c }))
  | thread {o : Owner} {choice : Choice} {t : Thread} {pc' : Pc} {u : Client}
      (thread : s.threads o = some t)
      (move : ThreadMove o t.caller t.nested choice s t.pc pc' u) :
      ClientMove P config s (.thread o choice) (u.setThread o (some { t with pc := pc' }))
  | collect {c : Nat} {t : Thread} {result : PyResult} (call : s.threads (.call c) = some t)
      (returned : t.pc = .returned result) (outside : t.caller = none) :
      ClientMove P config s (.collect c) (s.left c)
  | unnest {c r : Nat} {t d : Thread} {result : PyResult} (call : s.threads (.call c) = some t)
      (returned : t.pc = .returned result) (inside : t.caller = some r)
      (dispatcher : s.threads (.dispatcher r) = some d) :
      ClientMove P config s (.collect c)
        ((s.left c).setThread (.dispatcher r) (some { d with nested := none }))
  | drop (unused : s.inFlight = 0) : ClientMove P config s .drop { s with alive := false }

section Steps

variable {P : Platform} {config : Config} {s s' : Client}

theorem Client.invoke_move {c : Nat} {caller : Option Nat} {op : ClientOp}
    (h : s.invoke c caller op = some s') : ClientMove P config s (.invoke c caller op) s' := by
  unfold Client.invoke at h
  split at h
  · cases h
  rename_i hcan
  rw [not_or, not_or] at hcan
  have hfree : s.threads (.call c) = none := by simpa using hcan.1
  have halive : s.alive = true := by simpa using hcan.2.1
  have hoffered : s.offers op = true := by simpa using hcan.2.2
  dsimp only at h
  split at h
  · cases h
    exact .invoke hfree hoffered halive
  · split at h
    · cases h
    · rename_i t ht
      split at h
      · rename_i hinside
        cases h
        exact .nest hfree hoffered ht hinside halive
      · cases h

theorem Client.collect_move {c : Nat} (h : s.collect c = some s') :
    ClientMove P config s (.collect c) s' := by
  unfold Client.collect at h
  split at h
  · rename_i caller op result nested hcall
    dsimp only at h
    split at h
    · cases h
      exact .collect hcall rfl rfl
    · split at h
      · cases h
      · rename_i d hd
        cases h
        exact .unnest hcall rfl rfl hd
  · cases h

/-- **What a step of the client can do.** -/
theorem Client.step_move {l : ClientLabel}
    (hrunning : ∀ o t, s.threads o = some t → t.pc.reports = true → s.running = true)
    (h : s.step P config l = some s') : ClientMove P config s l s' := by
  cases l with
  | native l =>
    simp only [Client.step] at h
    split at h
    · rename_i hforeign
      obtain ⟨native, hnative, rfl⟩ := Option.map_eq_some_iff.mp h
      exact .native hforeign hnative
    · cases h
  | invoke c caller op => exact Client.invoke_move h
  | thread o choice =>
    simp only [Client.step] at h
    split at h
    · cases h
    · rename_i t ht
      obtain ⟨⟨pc', u⟩, hstep, rfl⟩ := Option.map_eq_some_iff.mp h
      exact .thread ht (threadStep_move (hrunning o t ht) hstep)
  | collect c => exact Client.collect_move h
  | drop =>
    simp only [Client.step, Client.drop] at h
    split at h
    · rename_i hunused
      cases h
      exact .drop hunused.1
    · cases h

end Steps

end PyNetFT.Python
