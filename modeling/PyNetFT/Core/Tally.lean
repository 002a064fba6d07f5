/-
PyNetFT.Core.Tally — the members that count and time records, and which
step writes them.

The two rate windows, `last_delivery_at_`, `consecutive_malformed_` and
the counters of `health_` are written in a handful of places. For the
receive thread `RecordMove` says which: one constructor for every way
into, through and out of `handle_record`, and one for all other steps,
with what they leave in the counters (`WorkerPc.counted`). The calls only
begin and take back runs, and `health()` prunes the windows.
-/
import PyNetFT.Core.RunBooks

namespace PyNetFT.Core

/-- The counters of a snapshot and nothing else. -/
def HealthSnapshot.counts (h : HealthSnapshot) : HealthSnapshot :=
  { receivedCount := h.receivedCount, deliveredCount := h.deliveredCount
    rateLimitedCount := h.rateLimitedCount, deviceErrorCount := h.deviceErrorCount
    warningCount := h.warningCount, lostCount := h.lostCount
    duplicateCount := h.duplicateCount, outOfOrderCount := h.outOfOrderCount
    malformedCount := h.malformedCount, reconnectCount := h.reconnectCount
    timeoutCount := h.timeoutCount, callbackErrorCount := h.callbackErrorCount
    ftStallCount := h.ftStallCount, ftBackwardCount := h.ftBackwardCount
    ftRestartCount := h.ftRestartCount, calibrationChangeCount := h.calibrationChangeCount }

structure Tally where
  receiveTimes : List TimePoint
  deliveryTimes : List TimePoint
  lastDeliveryAt : TimePoint
  consecutiveMalformed : Nat
  counts : HealthSnapshot

def Impl.tally (s : Impl) : Tally :=
  ⟨s.receiveTimes, s.deliveryTimes, s.lastDeliveryAt, s.consecutiveMalformed, s.health.counts⟩

def SavedData.tally (d : SavedData) (lastDeliveryAt : TimePoint) : Tally :=
  ⟨d.receiveTimes, d.deliveryTimes, lastDeliveryAt, d.consecutiveMalformed, d.health.counts⟩

/-! ## The receive thread -/

/-- Inside `handle_record`. -/
def WorkerPc.handles (pc : WorkerPc) : Bool := decide (pc.part = .record)

/-- What a step outside `handle_record` leaves behind, as far as the
tally goes. -/
def WorkerPc.counted (pc : WorkerPc) (s : Impl) : Impl :=
  match pc with
  | .timedOut _ =>
      if s.stopping then s
      else { s with health := { s.health with timeoutCount := s.health.timeoutCount + 1 } }
  | .malformed _ =>
      { s with
        health := { s.health with malformedCount := s.health.malformedCount + 1 }
        consecutiveMalformed := s.consecutiveMalformed + 1 }
  | .validRecord _ _ => { s with consecutiveMalformed := 0 }
  | .enterBackoff _ =>
      { s with health := { s.health with reconnectCount := s.health.reconnectCount + 1 } }
  | .applyConfiguration configuration => s.applyConfiguration configuration
  | _ => s

/-- What one step of a receive thread does to the record it handles. -/
inductive RecordMove (P : Platform) (config : Config) (s s' : Shared) :
    WorkerPc → WorkerPc → Prop where
  | outside {pc pc' : WorkerPc} (before : pc.handles = false) (after : pc'.handles = false)
      (tally : s'.tally = (pc.counted s.toImpl).tally) : RecordMove P config s s' pc pc'
  | arrives {rx rx' : Reception} {record : RawRecord}
      (impl : s'.toImpl = { s.toImpl with consecutiveMalformed := 0 }) :
      RecordMove P config s s' (.validRecord rx record) (.classify rx' record s.clock)
  | refused {rx : Reception} {record : RawRecord} {receivedAt : TimePoint} {pc' : WorkerPc}
      (missing : s.health.sensorConfiguration = none) (after : pc'.handles = false)
      (tally : s'.tally = s.tally) : RecordMove P config s s' (.classify rx record receivedAt) pc'
  | settled {rx : Reception} {record : RawRecord} {receivedAt : TimePoint} {pc' : WorkerPc}
      {decision : RecordDecision}
      (classified : s.toImpl.classifyRecord config record receivedAt = (s'.toImpl, .ok decision))
      (kept : decision.deliver = false) (after : pc'.handles = false) :
      RecordMove P config s s' (.classify rx record receivedAt) pc'
  | unscaled {rx : Reception} {record : RawRecord} {receivedAt : TimePoint} {pc' : WorkerPc}
      {decision : RecordDecision}
      (classified : s.toImpl.classifyRecord config record receivedAt = (s'.toImpl, .ok decision))
      (scaled : scaleSample P decision.configuration record receivedAt = none)
      (after : pc'.handles = false) : RecordMove P config s s' (.classify rx record receivedAt) pc'
  | handed {rx : Reception} {record : RawRecord} {receivedAt : TimePoint} {pc' : WorkerPc}
      {decision : RecordDecision} {sample : Sample}
      (classified : s.toImpl.classifyRecord config record receivedAt = (s'.toImpl, .ok decision))
      (deliver : decision.deliver = true)
      (scaled : scaleSample P decision.configuration record receivedAt = some sample)
      (after : pc' = .callback rx decision.outcome sample ∨
        pc' = .delivered rx decision.outcome sample) :
      RecordMove P config s s' (.classify rx record receivedAt) pc'
  | returned {rx : Reception} {outcome : Option SessionResult} {sample : Sample} (same : s' = s) :
      RecordMove P config s s' (.callback rx outcome sample) (.delivered rx outcome sample)
  | threw {rx : Reception} {outcome : Option SessionResult} {sample : Sample} {message : String}
      (same : s' = s) :
      RecordMove P config s s' (.callback rx outcome sample) (.callbackFailed rx outcome message)
  | failed {rx : Reception} {outcome : Option SessionResult} {message : String} {pc' : WorkerPc}
      (impl : s'.toImpl = s.toImpl.recordCallbackError message) (after : pc'.handles = false) :
      RecordMove P config s s' (.callbackFailed rx outcome message) pc'
  | delivered {rx : Reception} {outcome : Option SessionResult} {sample : Sample} {pc' : WorkerPc}
      (impl : s'.toImpl = s.toImpl.recordDelivered sample) (after : pc'.handles = false) :
      RecordMove P config s s' (.delivered rx outcome sample) pc'

section Worker

variable {P : Platform} {config : Config} {w : Nat} {choice : WorkerChoice} {s s' : Shared}
  {pc pc' : WorkerPc}

theorem recordReturned_handles (rx : Reception) (outcome : Option SessionResult) :
    (recordReturned rx outcome).handles = false := by
  cases outcome <;> rfl

theorem closeSession_tally (s : Shared) (event : SendEvent) :
    (s.closeSession event).tally = s.tally := by
  unfold Shared.closeSession Shared.stopStreaming Shared.attempt
  dsimp only
  split <;> rfl

theorem publish_tally (s : Impl) (code : FaultCode) (message : String) :
    (s.publish code message).tally = s.tally := by
  unfold Impl.publish
  split <;> rfl

theorem transportStep_record (hpart : pc.part = .transport)
    (h : transportStep P choice s pc = some (pc', s')) : RecordMove P config s s' pc pc' := by
  cases pc <;> cases hpart <;> dsimp only [transportStep] at h <;> (repeat' split at h) <;>
    cases h <;> exact .outside rfl rfl rfl

theorem connectStep_record (hpart : pc.part = .connect)
    (h : connectStep choice s pc = some (pc', s')) : RecordMove P config s s' pc pc' := by
  cases pc <;> cases hpart <;> dsimp only [connectStep] at h <;> (repeat' split at h) <;>
    cases h <;> exact .outside rfl rfl rfl

theorem configureStep_record (hpart : pc.part = .configure)
    (h : configureStep P config w choice s pc = some (pc', s')) :
    RecordMove P config s s' pc pc' := by
  cases pc <;> cases hpart <;> dsimp only [configureStep] at h <;> (repeat' split at h) <;>
    cases h <;> exact .outside rfl rfl rfl

theorem receiveStep_record (hpart : pc.part = .receive)
    (h : receiveStep config s pc = some (pc', s')) : RecordMove P config s s' pc pc' := by
  cases pc <;> cases hpart <;> dsimp only [receiveStep] at h
  case timedOut rx =>
    split at h
    · rename_i hstop
      cases h
      exact .outside rfl rfl (by rw [WorkerPc.counted, if_pos hstop])
    · rename_i hstop
      cases h
      exact .outside rfl rfl (by rw [WorkerPc.counted, if_neg hstop])
  case validRecord rx record =>
    split at h
    · cases h
      exact .outside rfl rfl rfl
    · cases h
      exact .arrives rfl
  all_goals
    (repeat' split at h) <;> cases h <;> exact .outside rfl rfl rfl

theorem recordStep_record (hpart : pc.part = .record)
    (h : recordStep P config w choice s pc = some (pc', s')) : RecordMove P config s s' pc pc' := by
  cases pc <;> cases hpart <;> dsimp only [recordStep] at h
  case classify rx record receivedAt =>
    rcases hclass : s.toImpl.classifyRecord config record receivedAt with ⟨impl, decision⟩
    rw [hclass] at h
    cases decision with
    | error message =>
      cases h
      cases hconf : s.health.sensorConfiguration with
      | none =>
        refine .refused hconf rfl ?_
        simp only [Impl.classifyRecord, hconf, Prod.mk.injEq] at hclass
        rw [← hclass.1]
        rfl
      | some configuration =>
        simp only [Impl.classifyRecord, hconf, Prod.mk.injEq, reduceCtorEq, and_false] at hclass
    | ok decision =>
      dsimp only at h
      split at h
      · rename_i hkept
        cases h
        exact .settled hclass hkept (recordReturned_handles _ _)
      · rename_i hdeliver
        split at h
        · rename_i hscaled
          cases h
          exact .unscaled hclass hscaled (recordReturned_handles _ _)
        · rename_i sample hscaled
          have hdeliver : decision.deliver = true := by simpa using hdeliver
          split at h
          · cases h
            exact .handed hclass hdeliver hscaled (.inl rfl)
          · cases h
            exact .handed hclass hdeliver hscaled (.inr rfl)
  case callback rx outcome sample =>
    split at h
    · cases h
      exact .returned rfl
    · cases h
      exact .threw rfl
    · cases h
  case callbackFailed rx outcome message =>
    cases h
    exact .failed rfl (recordReturned_handles _ _)
  case delivered rx outcome sample =>
    cases h
    exact .delivered rfl (recordReturned_handles _ _)

theorem runStep_record {backoff backoff' : ℚ} (hpart : pc.part = .run)
    (h : runStep config w choice backoff s pc = some (pc', backoff', s')) :
    RecordMove P config s s' pc pc' := by
  cases pc <;> cases hpart <;> dsimp only [runStep] at h
  case sessionDone outcome =>
    split at h
    · cases h
      exact .outside rfl rfl (closeSession_tally s _)
    · cases h
  case sessionClosed outcome =>
    cases h
    refine .outside rfl ?_ rfl
    (repeat' split) <;> rfl
  case latchFault code message =>
    cases h
    exact .outside rfl rfl (publish_tally s.toImpl code message)
  case finishClose =>
    split at h
    · cases h
      exact .outside rfl rfl (closeSession_tally s _)
    · cases h
  case finishState =>
    cases h
    exact .outside rfl rfl (by split <;> rfl)
  all_goals
    (repeat' split at h) <;> cases h <;> exact .outside rfl rfl rfl

theorem workerStep_record {t t' : Worker} (h : workerStep P config w choice t s = some (t', s')) :
    RecordMove P config s s' t.pc t'.pc := by
  cases (workerStep_parts h).2 with
  | run part step => exact runStep_record part step
  | connect part step => exact connectStep_record part step
  | configure part step => exact configureStep_record part step
  | transport part step => exact transportStep_record part step
  | receive part step => exact receiveStep_record part step
  | record part step => exact recordStep_record part step

/-- The receive thread does not move the clock. -/
theorem WorkerMove.clock {t t' : Worker} {s s' : Shared} (h : WorkerMove t s t' s') :
    s'.clock = s.clock := by
  cases h with
  | quiet phase quiet => exact congrArg Control.clock quiet.control
  | close event phases control health =>
    refine (congrArg Control.clock control).trans ?_
    simp only [Shared.control, Shared.closeSession, Shared.stopStreaming, Shared.attempt]
    split <;> rfl
  | latch code message place after impl rest => exact rest.1
  | finish => split <;> rfl
  | connect | start | fail | exit => rfl

/-- The part of the tally that `handle_record` leaves alone. -/
structure LoopTally where
  consecutiveMalformed : Nat
  malformedCount : Nat
  timeoutCount : Nat
  deriving DecidableEq

def Tally.loop (x : Tally) : LoopTally :=
  ⟨x.consecutiveMalformed, x.counts.malformedCount, x.counts.timeoutCount⟩

/-- The loop around the records is counted the same way everywhere. -/
theorem RecordMove.loop (hmove : RecordMove P config s s' pc pc') :
    s'.tally.loop = (pc.counted s.toImpl).tally.loop := by
  have hclass : ∀ {record receivedAt decision}, s.toImpl.classifyRecord config record receivedAt
      = (s'.toImpl, .ok decision) → s'.tally.loop = s.tally.loop := by
    intro record receivedAt decision h
    cases hconf : s.health.sensorConfiguration with
    | none => simp only [Impl.classifyRecord, hconf, Prod.mk.injEq, reduceCtorEq, and_false] at h
    | some configuration =>
      simp only [Impl.classifyRecord, hconf, Prod.mk.injEq] at h
      rw [← h.1]
      dsimp only [Impl.tally]
      split <;> rfl
  cases hmove with
  | outside _ _ tally => exact congrArg Tally.loop tally
  | arrives impl => rw [impl]; rfl
  | refused _ _ tally => exact congrArg Tally.loop tally
  | settled classified => exact hclass classified
  | unscaled classified => exact hclass classified
  | handed classified => exact hclass classified
  | returned same => rw [same]; rfl
  | threw same => rw [same]; rfl
  | failed impl => rw [impl]; rfl
  | delivered impl => rw [impl]; rfl

end Worker

/-! ## The calls -/

theorem stopCommand_tally (s : Shared) (event : SendEvent) :
    (s.stopCommand event).tally = s.tally ∧ (s.stopCommand event).clock = s.clock := by
  unfold Shared.stopCommand Shared.stopStreaming
  split <;> exact ⟨rfl, rfl⟩

theorem markStopped_tally (s : Shared) :
    s.markStopped.tally = s.tally ∧ s.markStopped.clock = s.clock := by
  unfold Shared.markStopped
  split <;> exact ⟨rfl, rfl⟩

theorem bias_tally (s : Shared) (first second : SendEvent) :
    (s.bias first second).1.tally = s.tally ∧ (s.bias first second).1.clock = s.clock := by
  unfold Shared.bias
  split
  · exact ⟨rfl, rfl⟩
  · dsimp only
    split
    · exact ⟨rfl, rfl⟩
    · split <;> exact ⟨rfl, rfl⟩

theorem CallPc.resets_false_of_joins {pc : CallPc} {w : Nat} (h : pc.joins = some w) :
    pc.resets = false := by
  cases pc <;> first | rfl | cases h

/-- A call outside the reset section of `start` leaves the tally alone,
but for the pruning of `health()`. -/
theorem CallMove.tally_outside {config : Config} {c : Nat} {caller : Option Nat} {s s' : Sys}
    {pc pc' : CallPc} (hmove : CallMove config c caller s pc pc' s') (hbefore : pc.resets = false)
    (hafter : pc'.resets = false) :
    s'.workers = s.workers ∧ s'.shared.clock = s.shared.clock ∧
      (s'.shared.tally = s.shared.tally ∨ s'.shared = s.shared.snapshot.1) := by
  cases hmove with
  | wait | take | request | reapStart => exact ⟨rfl, rfl, .inl rfl⟩
  | command event =>
    exact ⟨rfl, (stopCommand_tally _ event).2, .inl (stopCommand_tally _ event).1⟩
  | stopIdle | reapStop =>
    exact ⟨rfl, (markStopped_tally s.shared).2, .inl (markStopped_tally s.shared).1⟩
  | bias first second =>
    exact ⟨rfl, (bias_tally _ first second).2, .inl (bias_tally _ first second).1⟩
  | snapshot => exact ⟨rfl, rfl, .inr rfl⟩
  | save => cases hafter
  | reset | arm | spawn | disarm | restoreRecord | restoreData | clearLatch | republish =>
    cases hbefore

/-- No call moves the clock. -/
theorem CallMove.clock {config : Config} {c : Nat} {caller : Option Nat} {s s' : Sys}
    {pc pc' : CallPc} (hmove : CallMove config c caller s pc pc' s') :
    s'.shared.clock = s.shared.clock := by
  have houtside := fun hbefore hafter => (hmove.tally_outside hbefore hafter).2.1
  cases hmove with
  | wait before after => exact houtside before.2 (CallPc.resets_false_of_holds after.2)
  | take _ _ before _ after => exact houtside before.2 (CallPc.resets_false_of_joins after)
  | request | command | stopIdle | reapStart | reapStop | bias | snapshot => exact houtside rfl rfl
  | republish =>
    dsimp only
    split <;> rfl
  | save | reset | arm | spawn | disarm | restoreRecord | restoreData | clearLatch => rfl

end PyNetFT.Core
