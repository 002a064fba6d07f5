/-
PyNetFT.Core.WorkerTheorems — what one step of the receive thread can do,
said once.

The thread has some forty places, but seen from the other threads only a
handful of things happen. `WorkerMove` is that view: a step is QUIET (it
leaves the control members and the wire alone), or it connects, starts a
session, closes one, fails, latches a fault, announces its exit, or ends. Which
of these is possible depends on the `Phase` of the place. Every
invariant of the client is proved from `workerStep_move`, never from the
step function.
-/
import PyNetFT.Core.Worker

namespace PyNetFT.Core

/-! ## The control view -/

/-- Opening, closing and commanding a socket. -/
def Event.onWire : Event → Bool
  | .opened _ | .closed _ | .command _ _ _ => true
  | _ => false

/-- The part of the log a wire tap sees. -/
def wire (log : List Event) : List Event := log.filter Event.onWire

/-- Everything but what the record- and data-locked sections of the
receive thread write. -/
structure Control where
  worker : Option Nat
  activeWorkerId : Option Nat
  joining : Bool
  callback : Option Nat
  transport : UdpTransport
  stopping : Bool
  workerExited : Bool
  sessionStarted : Bool
  faultLatch : FaultCode
  generation : Nat
  clock : TimePoint
  nextSocket : Nat
  wire : List Event

def Shared.control (s : Shared) : Control :=
  ⟨s.worker, s.activeWorkerId, s.joining, s.callback, s.transport, s.stopping, s.workerExited,
    s.sessionStarted, s.faultLatch, s.generation, s.clock, s.nextSocket, wire s.log⟩

/-- A step that other threads cannot tell from no step, but for the
health record; it never makes a client look faulted. -/
structure Shared.Quiet (s s' : Shared) : Prop where
  control : s'.control = s.control
  state : s'.health.state = .faulted → s.health.state = .faulted

theorem Shared.Quiet.refl (s : Shared) : s.Quiet s := ⟨rfl, id⟩

/-! ## Phases -/

/-- `idle`: no session. `connected`: between `connect` and the first
`StartRealtime`. `open`: a session may have been started. `latching`:
about to publish a fault. `finishing`: about to close for good. `closed`,
`exited`, `done`: the steps of `finish_session`. -/
inductive Phase where
  | idle | connected | open | latching | finishing | closed | exited | done
  deriving DecidableEq

def WorkerPc.phase : WorkerPc → Phase
  | .loopHead | .sessionBegin | .sessionCheck | .configure | .discoveryFailed _
  | .applyConfiguration _ | .configuredCheck | .connect | .sessionClosed _ | .enterBackoff _
  | .backoffDeadline | .backoffWait _ => .idle
  | .startRealtime => .connected
  | .latchFault _ _ => .latching
  | .finishClose => .finishing
  | .finishExited => .closed
  | .finishState => .exited
  | .done => .done
  | _ => .open

/-- Phases from which a quiet step leads to which. -/
def Phase.quietly : Phase → Phase → Bool
  | .idle, .idle | .idle, .open | .idle, .finishing => true
  | .connected, .open => true
  | .open, .open | .open, .finishing => true
  | _, _ => false

/-! ## The moves -/

/-- What a step of the receive thread does, seen from outside. -/
inductive WorkerMove : Worker → Shared → Worker → Shared → Prop where
  | quiet {t t' : Worker} {s s' : Shared} (phase : t.pc.phase.quietly t'.pc.phase = true)
      (quiet : s.Quiet s') : WorkerMove t s t' s'
  | connect {t t' : Worker} {s : Shared} (before : t.pc.phase = .idle)
      (after : t'.pc.phase = .connected) : WorkerMove t s t' s.connected
  | start {t t' : Worker} {s : Shared} (event : SendEvent) (before : t.pc.phase = .connected)
      (after : t'.pc.phase = .open) (running : s.stopping = false) :
      WorkerMove t s t' { s.attempt .startRealtime event with
        sessionStarted := s.transport.sends event || s.sessionStarted }
  | close {t t' : Worker} {s s' : Shared} (event : SendEvent)
      (phases : t.pc.phase = .open ∧ t'.pc.phase = .idle ∨
        t.pc.phase = .finishing ∧ t'.pc.phase = .closed)
      (control : s'.control = (s.closeSession event).control)
      (health : s'.health = s.health) : WorkerMove t s t' s'
  | fail {t t' : Worker} {s : Shared} (code : FaultCode) (message : String)
      (before : t.pc.phase = .idle ∨ t.pc.phase = .open)
      (place : t'.pc = .latchFault code message) (named : code ≠ .none) : WorkerMove t s t' s
  | latch {t t' : Worker} {s s' : Shared} (code : FaultCode) (message : String)
      (place : t.pc = .latchFault code message) (after : t'.pc.phase = .finishing)
      (impl : s'.toImpl = s.toImpl.publish code message)
      (rest : s'.clock = s.clock ∧ s'.nextSocket = s.nextSocket ∧ wire s'.log = wire s.log) :
      WorkerMove t s t' s'
  | exit {t t' : Worker} {s : Shared} (before : t.pc.phase = .closed)
      (after : t'.pc.phase = .exited) : WorkerMove t s t' { s with workerExited := true }
  | finish {t t' : Worker} {s : Shared} (before : t.pc.phase = .exited)
      (after : t'.pc.phase = .done) :
      WorkerMove t s t'
        (if s.faulted then s else { s with health := { s.health with state := .stopped } })

section Quiet

variable {P : Platform} {config : Config} {w : Nat} {choice : WorkerChoice} {s s' : Shared}
  {pc pc' : WorkerPc}

/-- The step of one part of the source is quiet. -/
def QuietStep (pc : WorkerPc) (s : Shared) (r : Option (WorkerPc × Shared)) : Prop :=
  ∀ pc' s', r = some (pc', s') → pc.phase.quietly pc'.phase = true ∧ s.Quiet s'

theorem quietStep_none : QuietStep pc s none := by
  intro _ _ h
  cases h

theorem quietStep_some (hphase : pc.phase.quietly pc'.phase = true) (h : s.Quiet s') :
    QuietStep pc s (some (pc', s')) := by
  intro _ _ heq
  cases heq
  exact ⟨hphase, h⟩

theorem transportStep_quiet (hpart : pc.part = .transport) :
    QuietStep pc s (transportStep P choice s pc) := by
  cases pc <;> simp only [WorkerPc.part, reduceCtorEq] at hpart <;> dsimp only [transportStep]
  · split
    · exact quietStep_some rfl (.refl s)
    · split
      · exact quietStep_some rfl (.refl s)
      · split
        · exact quietStep_some rfl (.refl s)
        · exact quietStep_some rfl (.refl s)
  · split
    · split
      · exact quietStep_some rfl (.refl s)
      · exact quietStep_none
    · split
      · exact quietStep_some rfl (.refl s)
      · exact quietStep_some rfl (.refl s)
    · exact quietStep_some rfl (.refl s)
    · exact quietStep_some rfl (.refl s)
    · exact quietStep_none
  · split
    · exact quietStep_some rfl (.refl s)
    · split
      · exact quietStep_some rfl (.refl s)
      · exact quietStep_some rfl (.refl s)
  · split
    · exact quietStep_some rfl (.refl s)
    · exact quietStep_some rfl (.refl s)
    · exact quietStep_some rfl (.refl s)
    · exact quietStep_none

theorem receiveStep_quiet (hpart : pc.part = .receive) :
    QuietStep pc s (receiveStep config s pc) := by
  cases pc <;> simp only [WorkerPc.part, reduceCtorEq] at hpart <;> dsimp only [receiveStep]
  case receiveHead rx =>
    refine quietStep_some ?_ (.refl s)
    split <;> rfl
  case receiveNow rx =>
    refine quietStep_some ?_ (.refl s)
    split <;> rfl
  case timedOut rx =>
    split
    · exact quietStep_some rfl (.refl s)
    · exact quietStep_some rfl ⟨rfl, id⟩
  case receiveFailed rx message => exact quietStep_some rfl (.refl s)
  case received rx bytes =>
    split
    · exact quietStep_some rfl (.refl s)
    · split
      · exact quietStep_some rfl (.refl s)
      · split
        · exact quietStep_some rfl (.refl s)
        · exact quietStep_some rfl (.refl s)
  case malformed rx =>
    refine quietStep_some ?_ ⟨rfl, id⟩
    split <;> rfl
  case validRecord rx record =>
    split
    · exact quietStep_some rfl ⟨rfl, id⟩
    · exact quietStep_some rfl ⟨rfl, id⟩

/-- Events that are no wire events do not change what a tap sees. -/
theorem control_append {e : Event} (he : e.onWire = false) :
    ({ s with log := s.log ++ [e] } : Shared).control = s.control := by
  simp [Shared.control, wire, he]

theorem applyConfiguration_quiet (configuration : SensorConfiguration) :
    s.Quiet { s with toImpl := s.toImpl.applyConfiguration configuration } := by
  unfold Impl.applyConfiguration
  split
  · exact ⟨rfl, id⟩
  · split
    · exact ⟨rfl, id⟩
    · exact ⟨rfl, id⟩

theorem configureStep_quiet (hpart : pc.part = .configure) :
    QuietStep pc s (configureStep P config w choice s pc) := by
  cases pc <;> simp only [WorkerPc.part, reduceCtorEq] at hpart <;> dsimp only [configureStep]
  case sessionBegin =>
    refine quietStep_some rfl ⟨?_, ?_⟩
    · exact control_append (s := { s with health := { s.health with state := .connecting } }) rfl
    · intro h
      cases h
  case sessionCheck =>
    refine quietStep_some ?_ (.refl s)
    split <;> rfl
  case configure =>
    split
    · split
      · exact quietStep_some rfl (.refl s)
      · exact quietStep_some rfl (.refl s)
      · exact quietStep_some rfl (.refl s)
    · exact quietStep_none
  case discoveryFailed message => exact quietStep_some rfl (.refl s)
  case applyConfiguration configuration =>
    exact quietStep_some rfl (applyConfiguration_quiet configuration)
  case configuredCheck =>
    refine quietStep_some ?_ (.refl s)
    split <;> rfl
  case resetTrackers => exact quietStep_some rfl ⟨rfl, id⟩
  case firstDeadline =>
    split
    · exact quietStep_some rfl (.refl s)
    · exact quietStep_some rfl (.refl s)

/-- The locked section of `handle_record` is quiet. -/
theorem classifyRecord_quiet (record : RawRecord) (receivedAt : TimePoint) :
    s.Quiet { s with toImpl := (s.toImpl.classifyRecord config record receivedAt).1 } := by
  unfold Impl.classifyRecord
  dsimp only
  split
  · exact ⟨rfl, id⟩
  · refine ⟨rfl, ?_⟩
    intro h
    dsimp only at h
    split at h
    · cases h
    · cases h

theorem recordReturned_phase (rx : Reception) (outcome : Option SessionResult) :
    (recordReturned rx outcome).phase = .open := by
  cases outcome <;> rfl

theorem recordStep_quiet (hpart : pc.part = .record) :
    QuietStep pc s (recordStep P config w choice s pc) := by
  cases pc <;> simp only [WorkerPc.part, reduceCtorEq] at hpart <;> dsimp only [recordStep]
  case classify rx record receivedAt =>
    have hquiet : s.Quiet
        { s with toImpl := (s.toImpl.classifyRecord config record receivedAt).1 } :=
      classifyRecord_quiet record receivedAt
    rcases hclass : s.toImpl.classifyRecord config record receivedAt with ⟨impl, decision⟩
    rw [hclass] at hquiet
    cases decision with
    | error message => exact quietStep_some rfl hquiet
    | ok decision =>
      dsimp only
      split
      · exact quietStep_some (by rw [recordReturned_phase]; rfl) hquiet
      · split
        · exact quietStep_some rfl hquiet
        · split
          · refine quietStep_some rfl ⟨?_, hquiet.state⟩
            exact (control_append (s := { s with toImpl := impl }) rfl).trans hquiet.control
          · exact quietStep_some rfl hquiet
  case callback rx outcome sample =>
    split
    · exact quietStep_some rfl (.refl s)
    · exact quietStep_some rfl (.refl s)
    · exact quietStep_none
  case callbackFailed rx outcome message =>
    exact quietStep_some (by rw [recordReturned_phase]; rfl) ⟨rfl, id⟩
  case delivered rx outcome sample =>
    exact quietStep_some (by rw [recordReturned_phase]; rfl) ⟨rfl, id⟩

end Quiet

/-! ## Every step is a move -/

theorem wire_faultLatched (s : Shared) (code : FaultCode) (w : Nat) :
    wire (if s.faultLatch = .none then s.log ++ [.faultLatched w code] else s.log)
      = wire s.log := by
  split
  · simp [wire, Event.onWire]
  · rfl

theorem connectStep_move {choice : WorkerChoice} {t t' : Worker} {s s' : Shared}
    (hpart : t.pc.part = .connect) (h : connectStep choice s t.pc = some (t'.pc, s')) :
    WorkerMove t s t' s' := by
  cases hpc : t.pc <;> rw [hpc] at hpart h <;>
    simp only [WorkerPc.part, reduceCtorEq] at hpart <;> dsimp only [connectStep] at h
  case connect =>
    split at h
    · obtain ⟨hpc', rfl⟩ := Prod.mk.inj (Option.some.inj h)
      exact .connect (by rw [hpc]; rfl) (by rw [← hpc']; rfl)
    · obtain ⟨hpc', rfl⟩ := Prod.mk.inj (Option.some.inj h)
      exact .quiet (by rw [hpc, ← hpc']; rfl) (.refl _)
    · cases h
  case startRealtime =>
    split at h
    · rename_i event
      split at h
      · obtain ⟨hpc', rfl⟩ := Prod.mk.inj (Option.some.inj h)
        exact .quiet (by rw [hpc, ← hpc']; rfl) (.refl _)
      · rename_i hstop
        have hrun : s.stopping = false := by simpa using hstop
        have hmove : t'.pc.phase = .open → WorkerMove t s t'
            { s.attempt .startRealtime event with
              sessionStarted := s.transport.sends event || s.sessionStarted } :=
          fun after => .start event (by rw [hpc]; rfl) after hrun
        split at h
        · rename_i message hsend
          obtain ⟨hpc', rfl⟩ := Prod.mk.inj (Option.some.inj h)
          have hsends : s.transport.sends event = false := by
            simp [UdpTransport.sends, hsend]
          rw [hsends] at hmove
          exact hmove (by rw [← hpc']; rfl)
        · rename_i hsend
          obtain ⟨hpc', rfl⟩ := Prod.mk.inj (Option.some.inj h)
          have hsends : s.transport.sends event = true := by
            simp [UdpTransport.sends, hsend]
          rw [hsends] at hmove
          exact hmove (by rw [← hpc']; rfl)
    · cases h
  case connectFailed message =>
    obtain ⟨hpc', rfl⟩ := Prod.mk.inj (Option.some.inj h)
    exact .quiet (by rw [hpc, ← hpc']; rfl) (.refl _)

theorem runStep_move {config : Config} {w : Nat} {choice : WorkerChoice} {t t' : Worker}
    {s s' : Shared} (hpart : t.pc.part = .run)
    (h : runStep config w choice t.backoff s t.pc = some (t'.pc, t'.backoff, s')) :
    WorkerMove t s t' s' := by
  cases hpc : t.pc <;> rw [hpc] at hpart h <;>
    simp only [WorkerPc.part, reduceCtorEq] at hpart <;> dsimp only [runStep] at h
  case loopHead =>
    obtain ⟨hpc', -, rfl⟩ := by simpa using h
    refine .quiet ?_ (.refl _)
    rw [hpc, ← hpc']
    split <;> rfl
  case sessionDone outcome =>
    split at h
    · rename_i event
      obtain ⟨hpc', -, rfl⟩ := by simpa using h
      refine .close event (.inl ⟨by rw [hpc]; rfl, by rw [← hpc']; rfl⟩) ?_ ?_
      · exact control_append rfl
      · simp only [Shared.closeSession, Shared.stopStreaming, Shared.attempt]
        split <;> rfl
    · cases h
  case sessionClosed outcome =>
    obtain ⟨hpc', -, rfl⟩ := by simpa using h
    split at hpc'
    · rename_i hfail
      refine .fail _ _ (.inl (by rw [hpc]; rfl)) hpc'.symm ?_
      rw [Ne, faultFor_eq_none_iff]
      exact hfail.1
    · refine .quiet ?_ (.refl _)
      rw [hpc, ← hpc']
      split <;> rfl
  case latchFault code message =>
    obtain ⟨hpc', -, rfl⟩ := by simpa using h
    exact .latch code message hpc (by rw [← hpc']; rfl) rfl
      ⟨rfl, rfl, wire_faultLatched s code w⟩
  case enterBackoff outcome =>
    obtain ⟨hpc', -, rfl⟩ := by simpa using h
    refine .quiet (by rw [hpc, ← hpc']; rfl) ⟨?_, ?_⟩
    · exact control_append (s := { s with health := { s.health with
        lastError := outcome.message, state := .backoff
        reconnectCount := s.health.reconnectCount + 1 } }) rfl
    · intro hfault
      cases hfault
  case backoffDeadline =>
    split at h
    · obtain ⟨hpc', -, rfl⟩ := by simpa using h
      exact .quiet (by rw [hpc, ← hpc']; rfl) (.refl _)
    · obtain ⟨hpc', -, rfl⟩ := by simpa using h
      exact .quiet (by rw [hpc, ← hpc']; rfl) (.refl _)
  case backoffWait deadline =>
    split at h
    · obtain ⟨hpc', -, rfl⟩ := by simpa using h
      exact .quiet (by rw [hpc, ← hpc']; rfl) (.refl _)
    · cases h
  case escaped message =>
    obtain ⟨hpc', -, rfl⟩ := by simpa using h
    split at hpc'
    · exact .quiet (by rw [hpc, ← hpc']; rfl) (.refl _)
    · exact .fail _ _ (.inr (by rw [hpc]; rfl)) hpc'.symm (by simp)
  case finishClose =>
    split at h
    · rename_i event
      obtain ⟨hpc', -, rfl⟩ := by simpa using h
      refine .close event (.inr ⟨by rw [hpc]; rfl, by rw [← hpc']; rfl⟩) rfl ?_
      simp only [Shared.closeSession, Shared.stopStreaming, Shared.attempt]
      split <;> rfl
    · cases h
  case finishExited =>
    obtain ⟨hpc', -, rfl⟩ := by simpa using h
    exact .exit (by rw [hpc]; rfl) (by rw [← hpc']; rfl)
  case finishState =>
    obtain ⟨hpc', -, rfl⟩ := by simpa using h
    exact .finish (by rw [hpc]; rfl) (by rw [← hpc']; rfl)
  case done => cases h

/-- A step of the thread is a step of the part it is in. -/
inductive PartStep (P : Platform) (config : Config) (w : Nat) (choice : WorkerChoice) (t : Worker)
    (s : Shared) : Worker → Shared → Prop where
  | run {r : WorkerPc × ℚ × Shared} (part : t.pc.part = .run)
      (step : runStep config w choice t.backoff s t.pc = some r) :
      PartStep P config w choice t s { t with pc := r.1, backoff := r.2.1 } r.2.2
  | connect {r : WorkerPc × Shared} (part : t.pc.part = .connect)
      (step : connectStep choice s t.pc = some r) :
      PartStep P config w choice t s { t with pc := r.1 } r.2
  | configure {r : WorkerPc × Shared} (part : t.pc.part = .configure)
      (step : configureStep P config w choice s t.pc = some r) :
      PartStep P config w choice t s { t with pc := r.1 } r.2
  | transport {r : WorkerPc × Shared} (part : t.pc.part = .transport)
      (step : transportStep P choice s t.pc = some r) :
      PartStep P config w choice t s { t with pc := r.1 } r.2
  | receive {r : WorkerPc × Shared} (part : t.pc.part = .receive)
      (step : receiveStep config s t.pc = some r) :
      PartStep P config w choice t s { t with pc := r.1 } r.2
  | record {r : WorkerPc × Shared} (part : t.pc.part = .record)
      (step : recordStep P config w choice s t.pc = some r) :
      PartStep P config w choice t s { t with pc := r.1 } r.2

section Step

variable {P : Platform} {config : Config} {w : Nat} {choice : WorkerChoice} {t t' : Worker}
  {s s' : Shared}

theorem workerStep_parts (h : workerStep P config w choice t s = some (t', s')) :
    t.nested = none ∧ PartStep P config w choice t s t' s' := by
  unfold workerStep at h
  split at h
  · cases h
  rename_i hnested
  refine ⟨by simpa using hnested, ?_⟩
  split at h
  all_goals
    rename_i hpart
    obtain ⟨r, hr, heq⟩ := Option.map_eq_some_iff.mp h
    cases heq
  · exact .run hpart hr
  · exact .connect hpart hr
  · exact .configure hpart hr
  · exact .transport hpart hr
  · exact .receive hpart hr
  · exact .record hpart hr

theorem PartStep.nested (h : PartStep P config w choice t s t' s') : t'.nested = t.nested := by
  cases h <;> rfl

/-- The nested call of a thread is not touched by its own steps, and a
thread inside one does not move. -/
theorem workerStep_nested (h : workerStep P config w choice t s = some (t', s')) :
    t.nested = none ∧ t'.nested = none := by
  obtain ⟨hnone, hpart⟩ := workerStep_parts h
  exact ⟨hnone, hpart.nested.trans hnone⟩

/-- A step of the receive thread is one of the moves. -/
theorem workerStep_move (h : workerStep P config w choice t s = some (t', s')) :
    WorkerMove t s t' s' := by
  -- each part either is quiet throughout or has its own case lemma
  have hquiet : ∀ {r : Option (WorkerPc × Shared)} {p : WorkerPc × Shared}, QuietStep t.pc s r →
      r = some p → WorkerMove t s { t with pc := p.1 } p.2 := by
    intro r p hr hsome
    obtain ⟨hphase, hq⟩ := hr _ _ hsome
    exact .quiet hphase hq
  cases (workerStep_parts h).2 with
  | run part step => exact runStep_move part step
  | connect part step => exact connectStep_move part step
  | configure part step => exact hquiet (configureStep_quiet part) step
  | transport part step => exact hquiet (transportStep_quiet part) step
  | receive part step => exact hquiet (receiveStep_quiet part) step
  | record part step => exact hquiet (recordStep_quiet part) step

end Step

theorem closeSession_stopping (s : Shared) (event : SendEvent) :
    (s.closeSession event).stopping = s.stopping := by
  unfold Shared.closeSession Shared.stopStreaming
  dsimp only
  split <;> rfl

theorem publish_stopping (s : Impl) (code : FaultCode) (message : String) :
    (s.publish code message).stopping = s.stopping := by
  unfold Impl.publish
  split <;> rfl

/-- The receive thread only reads `stopping_`. -/
theorem WorkerMove.stopping {t t' : Worker} {s s' : Shared} (h : WorkerMove t s t' s') :
    s'.stopping = s.stopping := by
  cases h with
  | quiet phase quiet => exact congrArg Control.stopping quiet.control
  | connect => rfl
  | start => rfl
  | close event phases control health =>
    exact (congrArg Control.stopping control).trans (closeSession_stopping s event)
  | fail => rfl
  | latch code message place after impl rest =>
    rw [impl]
    exact publish_stopping _ _ _
  | exit => rfl
  | finish => split <;> rfl

end PyNetFT.Core
