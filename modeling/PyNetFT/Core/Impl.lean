/-
PyNetFT.Core.Impl — the members of `Client::Impl` and the sections of its
code that run under one lock (`detail/client_impl.cpp`,
`detail/fault_latch.cpp`).

The source takes its locks in the order command → record → data and
calls user code with none of them held. `handle_record` is therefore cut
here where it releases its locks: `classifyRecord` (the record- and
data-locked part), `scaleSample` (no lock), the callback, and then
`recordDelivered` or `recordCallbackError`. `handleRecord` is their
composition for a caller that answers with a fixed callback result; the
threads of `PyNetFT.Core.System` run the parts one by one.
-/
import PyNetFT.Core.Types
import PyNetFT.Core.Sequence
import PyNetFT.Core.Protocol
import Mathlib.Tactic.FieldSimp

namespace PyNetFT.Core

/-! ## Session results -/

inductive SessionResult where
  | stopped | sensorConfiguration | timeout | socket | seriousStatus | ftStall
  | ftBackward | malformedStorm | callback
  deriving DecidableEq

/-- `Client::Impl::fault_for`. -/
def faultFor : SessionResult → FaultCode
  | .sensorConfiguration => .sensorConfiguration
  | .timeout => .timeout
  | .socket => .socket
  | .seriousStatus => .seriousStatus
  | .ftStall => .ftStall
  | .ftBackward => .ftBackward
  | .malformedStorm => .malformedStorm
  | .callback => .callback
  | .stopped => .none

/-- `Client::Impl::message_for`. -/
def messageFor : SessionResult → String
  | .sensorConfiguration => "sensor configuration discovery failed"
  | .timeout => "no valid RDT record before timeout"
  | .socket => "UDP socket failure"
  | .seriousStatus => "serious device status"
  | .ftStall => "FT sequence stalled"
  | .ftBackward => "FT sequence moved backward"
  | .malformedStorm => "malformed packet storm"
  | .callback => "sample callback failed"
  | .stopped => ""

/-- Only a stopped session has no fault code. -/
theorem faultFor_eq_none_iff (r : SessionResult) : faultFor r = .none ↔ r = .stopped := by
  cases r <;> simp [faultFor]

structure SessionOutcome where
  result : SessionResult := .stopped
  message : String := ""
  receivedValidRecord : Bool := false
  deriving DecidableEq

/-- `kMalformedStormThreshold`. -/
def malformedStormThreshold : Nat := 10

/-! ## The members -/

/-- `UdpTransport`: the connected socket, if any, and the shutdown flag. -/
structure UdpTransport where
  socket : Option Nat := none
  shutdownRequested : Bool := false
  deriving DecidableEq

/-- The members of `Client::Impl` other than its configuration and its
locks. `worker` is the joinable handle `worker_`, `callback` the identity
of the installed sample callback. -/
structure Impl where
  worker : Option Nat := none
  activeWorkerId : Option Nat := none
  joining : Bool := false
  callback : Option Nat := none
  transport : UdpTransport := {}
  rdtSequence : RdtSequenceTracker := {}
  ftSequence : FtSequenceTracker := {}
  stopping : Bool := false
  workerExited : Bool := true
  sessionStarted : Bool := false
  faultLatch : FaultCode := .none
  health : HealthSnapshot := {}
  latest : Option Sample := none
  lastDeliveryAt : TimePoint := 0
  lastRecordAt : TimePoint := 0
  generation : Nat := 0
  deliveredGeneration : Nat := 0
  receiveTimes : List TimePoint := []
  deliveryTimes : List TimePoint := []
  consecutiveMalformed : Nat := 0
  deriving DecidableEq

/-- `Client::Impl::Impl`, for a configuration that passed `validate`. -/
def Impl.new (config : Config) : Impl :=
  { health := { sensorHost := config.sensorHost, rdtPort := config.rdtPort } }

/-- `Client::Impl::faulted`. -/
def Impl.faulted (s : Impl) : Bool := decide (s.faultLatch ≠ .none)

/-- `FaultLatch::publish`: the first code wins. -/
def Impl.publish (s : Impl) (code : FaultCode) (message : String) : Impl :=
  if s.faultLatch = .none then
    { s with
      faultLatch := code
      health := { s.health with state := .faulted, faultCode := code, lastError := message } }
  else s

/-! ## Configuration of a session -/

/-- `same_calibration`. -/
def sameCalibration (left right : Calibration) : Bool :=
  decide (left.countsPerForceUnit = right.countsPerForceUnit) &&
    decide (left.countsPerTorqueUnit = right.countsPerTorqueUnit) &&
    decide (left.forceUnit = right.forceUnit) && decide (left.torqueUnit = right.torqueUnit)

/-- `Client::Impl::apply_configuration`. -/
def Impl.applyConfiguration (s : Impl) (configuration : SensorConfiguration) : Impl :=
  match s.health.sensorConfiguration with
  | none =>
      { s with health := { s.health with
          sensorConfiguration := some { configuration with revision := 1 } } }
  | some previous =>
      if sameCalibration previous.calibration configuration.calibration then
        { s with health := { s.health with
            sensorConfiguration := some { configuration with revision := previous.revision } } }
      else
        { s with health := { s.health with
            sensorConfiguration := some { configuration with revision := previous.revision + 1 }
            calibrationChangeCount := s.health.calibrationChangeCount + 1 } }

/-! ## Handling one record -/

/-- `prune_rate_window`: drop entries older than one second. -/
def pruneRateWindow (times : List TimePoint) (now : TimePoint) : List TimePoint :=
  times.dropWhile (fun t => decide (t + ticksPerSecond < now))

/-- `ft_progress_name`. -/
def ftProgressName : FtSequenceKind → String
  | .first => "first"
  | .forward => "forward"
  | .stall => "stall"
  | .backward => "backward"
  | .restart => "restart"

def FtSequenceKind.discontinuity : FtSequenceKind → Bool
  | .stall | .backward => true
  | .first | .forward | .restart => false

/-- The counters and last-seen fields `handle_record` writes before it
decides anything: lines 545–594 without the two decisions. -/
def HealthSnapshot.countRecord (h : HealthSnapshot) (record : RawRecord) (rate : Nat)
    (rdt : SequenceObservation) (ft : FtSequenceKind) (severity : StatusSeverity) :
    HealthSnapshot :=
  { h with
    state := .streaming
    receivedCount := h.receivedCount + 1
    receiveRateHz := rate
    lastRdtSequence := some record.rdtSequence
    lastFtSequence := some record.ftSequence
    lastStatus := record.status
    lostCount := if rdt.kind = .gap then h.lostCount + rdt.gap.toNat else h.lostCount
    duplicateCount := if rdt.kind = .duplicate then h.duplicateCount + 1 else h.duplicateCount
    outOfOrderCount :=
      if rdt.kind = .outOfOrder then h.outOfOrderCount + 1 else h.outOfOrderCount
    lastFtProgress := ftProgressName ft
    ftStallCount := if ft = .stall then h.ftStallCount + 1 else h.ftStallCount
    ftBackwardCount := if ft = .backward then h.ftBackwardCount + 1 else h.ftBackwardCount
    ftRestartCount := if ft = .restart then h.ftRestartCount + 1 else h.ftRestartCount
    warningCount := if severity = .warn then h.warningCount + 1 else h.warningCount
    deviceErrorCount := if severity = .error then h.deviceErrorCount + 1 else h.deviceErrorCount }

/-- The session outcome of a record. A serious status comes first; an FT
discontinuity ends the session only under fail-stop. -/
def recordOutcome (policy : RecoveryPolicy) (severity : StatusSeverity)
    (ft : FtSequenceKind) : Option SessionResult :=
  let status : Option SessionResult := if severity = .error then some .seriousStatus else none
  let outcome : Option SessionResult :=
    if status = none ∧ ft = .stall then some .ftStall
    else if status = none ∧ ft = .backward then some .ftBackward
    else status
  if ft.discontinuity ∧ policy = .reconnect ∧
      (outcome = some .ftStall ∨ outcome = some .ftBackward) then none
  else outcome

/-- The `deliver` flag before the rate limit is looked at. -/
def eligible (config : Config) (rdt : SequenceKind) (ft : FtSequenceKind)
    (severity : StatusSeverity) : Bool :=
  rdt.fresh && (decide (severity ≠ .error) || config.deliverSamplesWithErrorStatus) &&
    !ft.discontinuity

/-- The rate limit: a delivery happened and lies less than a period back. -/
def rateLimited (config : Config) (lastDeliveryAt receivedAt : TimePoint) : Bool :=
  decide (0 < config.sampleRateLimitHz.value) && decide (lastDeliveryAt ≠ 0) &&
    decide (((receivedAt : ℚ) - lastDeliveryAt) / ticksPerSecond
      < 1 / config.sampleRateLimitHz.value)

/-- What the locked part of `handle_record` hands to the rest. -/
structure RecordDecision where
  configuration : SensorConfiguration
  deliver : Bool
  outcome : Option SessionResult
  deriving DecidableEq

/-- The record- and data-locked section of `handle_record` (lines
533–621). The error is the `std::logic_error` of a missing
configuration, thrown after the trackers have moved. -/
def Impl.classifyRecord (config : Config) (record : RawRecord) (receivedAt : TimePoint)
    (s : Impl) : Impl × Except String RecordDecision :=
  let rdt := s.rdtSequence.observe record.rdtSequence
  let ft := s.ftSequence.observe record.ftSequence
  let severity := classifyStatus record.status
  match s.health.sensorConfiguration with
  | none =>
      ({ s with rdtSequence := rdt.2, ftSequence := ft.2 },
        .error "sensor configuration is unavailable while streaming")
  | some configuration =>
      let receiveTimes := pruneRateWindow (s.receiveTimes ++ [receivedAt]) receivedAt
      let health := s.health.countRecord record receiveTimes.length rdt.1 ft.1 severity
      let deliver := eligible config rdt.1.kind ft.1 severity
      let limited := deliver && rateLimited config s.lastDeliveryAt receivedAt
      ({ s with
          rdtSequence := rdt.2
          ftSequence := ft.2
          receiveTimes := receiveTimes
          lastRecordAt := receivedAt
          health := if limited then
              { health with rateLimitedCount := health.rateLimitedCount + 1 }
            else health },
        .ok { configuration := configuration
              deliver := deliver && !limited
              outcome := recordOutcome config.recoveryPolicy severity ft.1 })

/-- The scaling part of `handle_record` (lines 627–647): `none` is the
exit for a value that is not finite. -/
def scaleSample (P : Platform) (configuration : SensorConfiguration) (record : RawRecord)
    (receivedAt : TimePoint) : Option Sample :=
  let calibration := configuration.calibration
  let force := [record.fx, record.fy, record.fz].map (P.divide · calibration.countsPerForceUnit)
  let torque := [record.tx, record.ty, record.tz].map (P.divide · calibration.countsPerTorqueUnit)
  if force.all Binary64.isFinite && torque.all Binary64.isFinite then
    some { rdtSequence := record.rdtSequence
           ftSequence := record.ftSequence
           status := record.status
           rawWrench := [record.fx, record.fy, record.fz, record.tx, record.ty, record.tz]
           force := force
           torque := torque
           forceUnit := calibration.forceUnit
           torqueUnit := calibration.torqueUnit
           configurationRevision := configuration.revision
           receivedAt := receivedAt }
  else none

/-- The `callback_failure_outcome` closure. -/
def callbackFailureOutcome (policy : RecoveryPolicy) (outcome : Option SessionResult) :
    Option SessionResult :=
  if outcome.isSome ∨ policy = .reconnect then outcome else some .callback

/-- `Client::Impl::record_callback_error`. -/
def Impl.recordCallbackError (s : Impl) (message : String) : Impl :=
  { s with health := { s.health with
      callbackErrorCount := s.health.callbackErrorCount + 1, lastError := message } }

/-- The section after a callback that returned (lines 669–679). -/
def Impl.recordDelivered (s : Impl) (sample : Sample) : Impl :=
  let deliveryTimes := pruneRateWindow (s.deliveryTimes ++ [sample.receivedAt]) sample.receivedAt
  { s with
    lastDeliveryAt := sample.receivedAt
    latest := some sample
    deliveryTimes := deliveryTimes
    deliveredGeneration := s.generation
    health := { s.health with
      deliveredCount := s.health.deliveredCount + 1
      deliveryRateHz := deliveryTimes.length } }

/-- One call of `handle_record`: the state after it, its result, and the
sample the callback was called with. -/
structure HandleResult where
  impl : Impl
  result : Except String (Option SessionResult)
  handed : Option Sample

/-- `Client::Impl::handle_record`, with the callback answering
`callback` when it is called (an error is the exception's text). -/
def Impl.handleRecord (P : Platform) (config : Config) (callback : Except String Unit)
    (record : RawRecord) (receivedAt : TimePoint) (s : Impl) : HandleResult :=
  match s.classifyRecord config record receivedAt with
  | (s, .error message) => ⟨s, .error message, none⟩
  | (s, .ok decision) =>
      if decision.deliver = false then ⟨s, .ok decision.outcome, none⟩
      else
        match scaleSample P decision.configuration record receivedAt with
        | none => ⟨s, .ok (some .sensorConfiguration), none⟩
        | some sample =>
            match callback with
            | .error message =>
                ⟨s.recordCallbackError message,
                  .ok (callbackFailureOutcome config.recoveryPolicy decision.outcome),
                  some sample⟩
            | .ok _ => ⟨s.recordDelivered sample, .ok decision.outcome, some sample⟩

/-! ## The locked section of `handle_record` -/

/-- The configuration does not change while records are handled. -/
theorem classifyRecord_ok (config : Config) {s : Impl} {configuration : SensorConfiguration}
    (h : s.health.sensorConfiguration = some configuration) (record : RawRecord)
    (receivedAt : TimePoint) :
    ∃ s' decision, s.classifyRecord config record receivedAt = (s', .ok decision) ∧
      s'.rdtSequence = (s.rdtSequence.observe record.rdtSequence).2 ∧
      s'.ftSequence = (s.ftSequence.observe record.ftSequence).2 ∧
      s'.health.sensorConfiguration = some configuration ∧
      decision.configuration = configuration ∧
      decision.deliver = (eligible config (s.rdtSequence.observe record.rdtSequence).1.kind
          (s.ftSequence.observe record.ftSequence).1 (classifyStatus record.status) &&
        !(eligible config (s.rdtSequence.observe record.rdtSequence).1.kind
            (s.ftSequence.observe record.ftSequence).1 (classifyStatus record.status) &&
          rateLimited config s.lastDeliveryAt receivedAt)) ∧
      decision.outcome = recordOutcome config.recoveryPolicy (classifyStatus record.status)
        (s.ftSequence.observe record.ftSequence).1 := by
  simp only [Impl.classifyRecord, h]
  refine ⟨_, _, rfl, rfl, rfl, ?_, rfl, rfl, rfl⟩
  split <;> simp [HealthSnapshot.countRecord, h]

theorem classifyRecord_reconnectCount (config : Config) (s : Impl) (record : RawRecord)
    (receivedAt : TimePoint) :
    (s.classifyRecord config record receivedAt).1.health.reconnectCount
      = s.health.reconnectCount := by
  unfold Impl.classifyRecord
  dsimp only
  split
  · rfl
  · dsimp only
    split <;> rfl

theorem recordOutcome_ne_stopped (policy : RecoveryPolicy) (severity : StatusSeverity)
    (ft : FtSequenceKind) : recordOutcome policy severity ft ≠ some .stopped := by
  cases policy <;> cases severity <;> cases ft <;> decide

/-! ## What a validated calibration guarantees -/

theorem requireSafeCount_ok {name : String} {value : Binary64}
    (h : requireSafeCount name value = .ok ()) :
    ∃ q : ℚ, value = .finite q ∧ 0 < q ∧ minimumCount ≤ q := by
  simp only [requireSafeCount, requirePositiveFinite, bind, Except.bind] at h
  split at h
  · cases h
  · rename_i hpos
    split at hpos
    · cases hpos
    · rename_i hcond
      rw [not_or] at hcond
      split at h
      · cases h
      · rename_i hmin
        match value with
        | .finite q =>
          simp only [Binary64.value, not_le, not_lt] at hcond hmin
          exact ⟨q, rfl, hcond.2, hmin⟩
        | .nan => simp [Binary64.isFinite] at hcond
        | .infinite n => simp [Binary64.isFinite] at hcond

theorem validateCalibration_ok {calibration : Calibration}
    (h : validateCalibration calibration = .ok ()) :
    (∃ q : ℚ, calibration.countsPerForceUnit = .finite q ∧ 0 < q ∧ minimumCount ≤ q) ∧
      ∃ q : ℚ, calibration.countsPerTorqueUnit = .finite q ∧ 0 < q ∧ minimumCount ≤ q := by
  simp only [validateCalibration, bind, Except.bind] at h
  split at h
  · cases h
  · rename_i hforce
    split at h
    · cases h
    · rename_i htorque
      exact ⟨requireSafeCount_ok hforce, requireSafeCount_ok htorque⟩

theorem maxFinite_eq : Binary64.maxFinite = 2 ^ 971 * (2 ^ 53 - 1) := by
  rw [Binary64.maxFinite, mul_sub, ← pow_add, mul_one]

/-- The smallest accepted count keeps the largest raw magnitude finite. -/
theorem two_pow_31_le : (2 : ℚ) ^ 31 ≤ Binary64.maxFinite * minimumCount := by
  have hsplit : (2 : ℚ) ^ 993 = 2 ^ 971 * 2 ^ 22 := by rw [← pow_add]
  have hpos : (0 : ℚ) < 2 ^ 971 := pow_pos (by norm_num) _
  rw [maxFinite_eq, minimumCount, hsplit]
  -- the common factor 2^971 cancels; what is left is small arithmetic
  generalize (2 : ℚ) ^ 971 = c at hpos
  have hcancel : c * (2 ^ 53 - 1) * ((1 + 1 / 2 ^ 51) / (c * 2 ^ 22))
      = (2 ^ 53 - 1) * (1 + 1 / 2 ^ 51) / 2 ^ 22 := by
    field_simp
  rw [hcancel]
  norm_num

/-- The exact quotient of any raw count and an accepted count is within
the finite doubles. -/
theorem abs_div_le_maxFinite (raw : Int32) {q : ℚ} (hq : 0 < q) (hmin : minimumCount ≤ q) :
    |(raw.toInt : ℚ) / q| ≤ Binary64.maxFinite := by
  have hmax : (0 : ℚ) ≤ Binary64.maxFinite := by
    rw [maxFinite_eq]
    exact mul_nonneg (pow_nonneg (by norm_num) _) (by norm_num)
  have hraw : |(raw.toInt : ℚ)| ≤ 2 ^ 31 := by
    have hlo := Int32.le_toInt raw
    have hhi := Int32.toInt_lt raw
    rw [abs_le]
    constructor
    · exact_mod_cast hlo
    · exact_mod_cast hhi.le
  rw [abs_div, abs_of_pos hq, div_le_iff₀ hq]
  calc |(raw.toInt : ℚ)| ≤ 2 ^ 31 := hraw
    _ ≤ Binary64.maxFinite * minimumCount := two_pow_31_le
    _ ≤ Binary64.maxFinite * q := mul_le_mul_of_nonneg_left hmin hmax

/-- Dividing any raw count by an accepted count gives a finite double. -/
theorem divide_finite (P : Platform) (raw : Int32) {q : ℚ} (hq : 0 < q)
    (hmin : minimumCount ≤ q) : (P.divide raw (.finite q)).isFinite = true := by
  simp only [Platform.divide, hq.ne', if_false]
  exact P.round_finite _ (abs_div_le_maxFinite raw hq hmin)

/-- Scaling under a validated calibration always yields a sample. -/
theorem scaleSample_isSome (P : Platform) {configuration : SensorConfiguration}
    (h : validateCalibration configuration.calibration = .ok ()) (record : RawRecord)
    (receivedAt : TimePoint) : (scaleSample P configuration record receivedAt).isSome = true := by
  obtain ⟨⟨f, hf, hf0, hfmin⟩, ⟨u, hu, hu0, humin⟩⟩ := validateCalibration_ok h
  simp only [scaleSample, hf, hu]
  simp [divide_finite P _ hf0 hfmin, divide_finite P _ hu0 humin]

end PyNetFT.Core
