/-
PyNetFT.Core.Types — the data model of the netft core (`netft/types.hpp`,
`netft/status.hpp`, `detail/time.hpp`) and its validation (`types.cpp`).

Numbers. A `double` is a `Binary64`: not-a-number, an infinity, or a
finite value, kept as the exact rational it stands for. Time points are
ticks of the steady clock (nanoseconds) counted from its epoch, so `0`
is the default-constructed `time_point{}` the source uses as "none".
64-bit counters are natural numbers.

What the C++ runtime decides and the source does not — the rounding
direction of a division, the conversion of a tick count to a `double` of
seconds and the `istream` extraction of a double — is the `Platform`
record; its one law is that rounding never leaves the finite range for an
exact value inside it, which holds in every IEEE direction.
-/
import Mathlib.Data.Rat.Floor
import Mathlib.Algebra.Order.Field.Rat
import Mathlib.Tactic.NormNum

namespace PyNetFT.Core

/-! ## Floating point -/

/-- An IEEE binary64 value; a finite one is the rational it denotes. -/
inductive Binary64 where
  | nan
  | infinite (negative : Bool)
  | finite (value : ℚ)
  deriving DecidableEq

namespace Binary64

/-- `std::isfinite`. -/
def isFinite : Binary64 → Bool
  | .finite _ => true
  | _ => false

/-- The value of a finite double; `0` stands in for the others, which no
validated configuration contains. -/
def value : Binary64 → ℚ
  | .finite q => q
  | _ => 0

/-- `std::numeric_limits<double>::max()`. -/
def maxFinite : ℚ := 2 ^ 1024 - 2 ^ 971

end Binary64

/-- The parts of the C++ runtime the core's results depend on. -/
structure Platform where
  /-- Rounding of an exact quotient under the current rounding direction. -/
  round : ℚ → Binary64
  /-- A tick count as `std::chrono::duration<double>`: divided by the ticks
  of a second, and rounded. -/
  seconds : Nat → Binary64
  /-- `input >> std::noskipws >> result` on a classic-locale stream: the
  value and the unread rest, or `none` when extraction fails. -/
  extractDouble : List UInt8 → Option (Binary64 × List UInt8)
  round_finite : ∀ q : ℚ, |q| ≤ Binary64.maxFinite → (round q).isFinite = true

/-- A platform for concrete runs: it agrees with every real one wherever
a quotient is representable, and it reads no numbers. -/
def exactPlatform : Platform where
  round q := if |q| ≤ Binary64.maxFinite then .finite q else .infinite (decide (q < 0))
  seconds ticks := .finite (ticks / 1000000000)
  extractDouble _ := none
  round_finite q h := by simp [h, Binary64.isFinite]

/-- `raw / counts` for an `int32_t` and a `double`. -/
def Platform.divide (P : Platform) (raw : Int32) : Binary64 → Binary64
  | .nan => .nan
  | .infinite _ => .finite 0
  | .finite q =>
      if q = 0 then (if raw = 0 then .nan else .infinite (decide (raw < 0)))
      else P.round (raw.toInt / q)

/-! ## Enumerations and records -/

inductive ForceUnit where
  | unknown | poundForce | newton | kiloPoundForce | kiloNewton | kilogramForce
  deriving DecidableEq

inductive TorqueUnit where
  | unknown | poundForceInch | poundForceFoot | newtonMeter | newtonMillimeter
  | kilogramForceCentimeter | kiloNewtonMeter
  deriving DecidableEq

inductive CalibrationSource where
  | sensor | override
  deriving DecidableEq

inductive RecoveryPolicy where
  | reconnect | failStop
  deriving DecidableEq

inductive ClientState where
  | stopped | connecting | streaming | backoff | faulted
  deriving DecidableEq

inductive FaultCode where
  | none | sensorConfiguration | timeout | socket | seriousStatus | ftStall
  | ftBackward | malformedStorm | callback
  deriving DecidableEq

inductive StatusSeverity where
  | ok | warn | error
  deriving DecidableEq

/-- `classify_status` (`status.cpp`). -/
def classifyStatus (status : UInt32) : StatusSeverity :=
  if status = 0 then .ok
  else if status = 0x80010000 then .warn
  else .error

structure Calibration where
  countsPerForceUnit : Binary64 := .finite 0
  countsPerTorqueUnit : Binary64 := .finite 0
  forceUnit : ForceUnit := .unknown
  torqueUnit : TorqueUnit := .unknown
  deriving DecidableEq

structure SensorConfiguration where
  productName : List UInt8 := []
  calibration : Calibration := {}
  source : CalibrationSource := .sensor
  revision : Nat := 1
  deriving DecidableEq

structure Config where
  sensorHost : String := "192.168.1.1"
  rdtPort : Int := 49152
  httpPort : Int := 80
  -- the double nearest to 0.1
  receiveTimeout : Binary64 := .finite (3602879701896397 / 36028797018963968)
  configurationConnectTimeout : Binary64 := .finite (1 / 2)
  configurationTimeout : Binary64 := .finite 1
  reconnectInitialDelay : Binary64 := .finite (1 / 4)
  reconnectMaxDelay : Binary64 := .finite 5
  sampleRateLimitHz : Binary64 := .finite 0
  deliverSamplesWithErrorStatus : Bool := false
  recoveryPolicy : RecoveryPolicy := .reconnect
  calibrationOverride : Option Calibration := none
  deriving DecidableEq

/-- A steady-clock reading in ticks; `0` is `time_point{}`. -/
abbrev TimePoint := Nat

structure Sample where
  rdtSequence : UInt32
  ftSequence : UInt32
  status : UInt32
  rawWrench : List Int32
  force : List Binary64
  torque : List Binary64
  forceUnit : ForceUnit
  torqueUnit : TorqueUnit
  configurationRevision : Nat
  receivedAt : TimePoint
  deriving DecidableEq

/-- The rates are the sizes of the two one-second windows, so they are
whole numbers here; `lastRecordAge` is set by `health()` alone. -/
structure HealthSnapshot where
  state : ClientState := .stopped
  faultCode : FaultCode := .none
  sensorHost : String := ""
  rdtPort : Int := 0
  sensorConfiguration : Option SensorConfiguration := none
  lastRdtSequence : Option UInt32 := none
  lastFtSequence : Option UInt32 := none
  lastStatus : UInt32 := 0
  receiveRateHz : Nat := 0
  deliveryRateHz : Nat := 0
  receivedCount : Nat := 0
  deliveredCount : Nat := 0
  rateLimitedCount : Nat := 0
  deviceErrorCount : Nat := 0
  warningCount : Nat := 0
  lostCount : Nat := 0
  duplicateCount : Nat := 0
  outOfOrderCount : Nat := 0
  malformedCount : Nat := 0
  reconnectCount : Nat := 0
  timeoutCount : Nat := 0
  callbackErrorCount : Nat := 0
  ftStallCount : Nat := 0
  ftBackwardCount : Nat := 0
  ftRestartCount : Nat := 0
  calibrationChangeCount : Nat := 0
  lastRecordAge : Option Nat := none
  lastError : String := ""
  lastFtProgress : String := "unknown"
  deriving DecidableEq

/-- All `std::uint64_t` counters of a snapshot, in declaration order. -/
def HealthSnapshot.counters (h : HealthSnapshot) : List Nat :=
  [h.receivedCount, h.deliveredCount, h.rateLimitedCount, h.deviceErrorCount,
   h.warningCount, h.lostCount, h.duplicateCount, h.outOfOrderCount,
   h.malformedCount, h.reconnectCount, h.timeoutCount, h.callbackErrorCount,
   h.ftStallCount, h.ftBackwardCount, h.ftRestartCount, h.calibrationChangeCount]

/-! ## Checked time (`detail/time.hpp`) -/

/-- `SteadyClock::period::den / num`: the clock counts nanoseconds. -/
def ticksPerSecond : Nat := 1000000000

/-- `SteadyClock::duration::max().count()`. -/
def maxTicks : Nat := 2 ^ 63 - 1

/-- `checked_duration`: truncation of a duration to ticks. -/
def checkedDuration (duration : Binary64) : Except String Nat :=
  match duration with
  | .finite q =>
      if q * ticksPerSecond < 0 ∨ (maxTicks : ℚ) ≤ q * ticksPerSecond then
        .error "duration is outside the supported steady-clock range"
      else .ok (q * ticksPerSecond).floor.toNat
  | _ => .error "duration is outside the supported steady-clock range"

/-- `checked_deadline`. -/
def checkedDeadline (origin : TimePoint) (duration : Binary64) :
    Except String TimePoint :=
  match checkedDuration duration with
  | .error message => .error message
  | .ok ticks =>
      if maxTicks - ticks < origin then
        .error "deadline is outside the supported steady-clock range"
      else .ok (origin + ticks)

/-! ## Validation (`types.cpp`) -/

/-- A computation that returns did not throw on the way. -/
theorem bind_ok {ε α β : Type} {x : Except ε α} {f : α → Except ε β} {b : β}
    (h : (x >>= f) = .ok b) : ∃ a, x = .ok a ∧ f a = .ok b := by
  cases x with
  | error e => cases h
  | ok a => exact ⟨a, rfl, h⟩

/-- `std::isspace` in the C locale, on a byte of the host name. -/
def isSpace (c : Char) : Bool :=
  c = ' ' || c = '\t' || c = '\n' || c = '\r' || c = '\x0b' || c = '\x0c'

def isBlank (value : String) : Bool := value.toList.all isSpace

def requirePositiveFinite (name : String) (value : Binary64) : Except String Unit :=
  if value.isFinite = false ∨ value.value ≤ 0 then
    .error (name ++ " must be finite and positive")
  else .ok ()

/-- `std::numeric_limits<long>::max()` on the 64-bit POSIX targets. -/
def longMax : Nat := 2 ^ 63 - 1

def requireSafeTimeout (now : TimePoint) (name : String) (value : Binary64)
    (http : Bool) : Except String Unit := do
  requirePositiveFinite name value
  let ticks ← checkedDuration value
  if ticks ≤ 0 then
    throw (name ++ " is below the steady-clock resolution")
  let _ ← checkedDeadline now value
  if http ∧ (longMax : ℤ) ≤ ⌈value.value * 1000⌉ then
    throw (name ++ " is outside the HTTP timer range")

def requirePort (name : String) (value : Int) : Except String Unit :=
  if value < 1 ∨ 65535 < value then
    .error (name ++ " must be in the range 1..65535")
  else .ok ()

/-- The exact binary64 value of `minimum` in `require_safe_count`:
`2^31 / DBL_MAX` rounds up to `2^-993 (1 + 2^-52)`, and the product with
`1 + 2^-52` rounds to `2^-993 (1 + 2^-51)`. -/
def minimumCount : ℚ := (1 + 1 / 2 ^ 51) / 2 ^ 993

def requireSafeCount (name : String) (value : Binary64) : Except String Unit := do
  requirePositiveFinite name value
  if value.value < minimumCount then
    throw (name ++ " cannot represent the full raw count range")

/-- `validate(const Calibration &)`. -/
def validateCalibration (calibration : Calibration) : Except String Unit := do
  requireSafeCount "counts_per_force_unit" calibration.countsPerForceUnit
  requireSafeCount "counts_per_torque_unit" calibration.countsPerTorqueUnit
  if calibration.forceUnit = .unknown ∨ calibration.torqueUnit = .unknown then
    throw "calibration units must be known"

/-- `validate(const Config &)`, with the clock reading it takes. -/
def validateConfig (now : TimePoint) (config : Config) : Except String Unit := do
  if isBlank config.sensorHost then
    throw "sensor_host must not be blank"
  requirePort "rdt_port" config.rdtPort
  requirePort "http_port" config.httpPort
  requireSafeTimeout now "receive_timeout" config.receiveTimeout false
  requireSafeTimeout now "configuration_connect_timeout"
    config.configurationConnectTimeout true
  requireSafeTimeout now "configuration_timeout" config.configurationTimeout true
  requireSafeTimeout now "reconnect_initial_delay" config.reconnectInitialDelay false
  requireSafeTimeout now "reconnect_max_delay" config.reconnectMaxDelay false
  if config.reconnectMaxDelay.value < config.reconnectInitialDelay.value then
    throw "reconnect_max_delay must not be below reconnect_initial_delay"
  if config.sampleRateLimitHz.isFinite = false ∨ config.sampleRateLimitHz.value < 0 then
    throw "sample_rate_limit_hz must be finite and non-negative"
  match config.calibrationOverride with
  | some calibration => validateCalibration calibration
  | none => pure ()

end PyNetFT.Core
