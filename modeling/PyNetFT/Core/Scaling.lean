/-
PyNetFT.Core.Scaling — scaling a record never leaves the finite doubles.

`require_safe_count` bounds the counts from below by a constant that is
itself the result of rounded operations; `minimumCount` is its exact value
(`minimumCount_exact`, by the binary64 arithmetic of the Lean runtime).
Dividing any raw count by a larger number stays within the largest double,
so it is finite in every IEEE direction (`PyNetFT.Lib.Rounding`): the
directions are platforms (`Platform.ofDirection`). The calibration in use
has always passed `validate`, whichever way it came in
(`PyNetFT.Core.Validated`), so `handle_record` never takes its exit for a
value that is not finite.
-/
import PyNetFT.Core.Validated
import PyNetFT.Lib.Rounding
import Mathlib.Data.Finite.Prod
import Mathlib.Order.Interval.Finset.Defs
import Mathlib.Data.Int.Interval

namespace PyNetFT.Core

open PyNetFT.Lib

/-! ## The constant -/

section Constant

open Float.Model

/-- The value of a number of the runtime's binary64 arithmetic. -/
def unpackedValue : UnpackedFloat → Option ℚ
  | .finite .positive mantissa exponent _ => some (mantissa * 2 ^ exponent)
  | .finite .negative mantissa exponent _ => some (-(mantissa * 2 ^ exponent))
  | .zero _ => some 0
  | _ => none

theorem unpackedValue_positive (mantissa : Nat) (exponent : Int) (h : 0 < mantissa) :
    unpackedValue (.finite .positive mantissa exponent h) =
      some ((mantissa : ℚ) * (2 : ℚ) ^ exponent) :=
  rfl

/-- `2 ^ e` as a normal double. -/
def powerOfTwo (e : Int) : UnpackedFloat := .finite .positive (2 ^ 52) (e - 52) (by decide)

/-- `std::numeric_limits<double>::max()`. -/
def largestDouble : UnpackedFloat := .finite .positive (2 ^ 53 - 1) 971 (by decide)

/-- `(magnitude / max) * (1.0 + epsilon)`, each operation rounded to the
nearest double. -/
def minimumExpression : UnpackedFloat :=
  ((powerOfTwo 31).div .binary64 largestDouble).mul .binary64
    ((powerOfTwo 0).add .binary64 (powerOfTwo (-52)))

theorem minimumCount_exact : unpackedValue minimumExpression = some minimumCount := by
  have heval : minimumExpression = .finite .positive (2 ^ 52 + 2) (-1045) (by decide) := rfl
  have hsplit : (2 : ℚ) ^ (-1045 : ℤ) = (2 ^ 993 * 2 ^ 52)⁻¹ := by
    rw [zpow_neg, ← pow_add]
    rfl
  have hpos : (0 : ℚ) < 2 ^ 993 := pow_pos (by norm_num) _
  rw [heval, unpackedValue_positive, minimumCount, Option.some_inj, hsplit]
  -- the common factor 2^993 cancels
  generalize (2 : ℚ) ^ 993 = c at hpos
  field_simp
  norm_num

end Constant

/-! ## The format -/

theorem maxFinite_lt : Binary64.maxFinite < 2 ^ 1024 - 2 ^ 970 := by
  rw [Binary64.maxFinite, sub_lt_sub_iff_left]
  exact pow_lt_pow_right₀ one_lt_two (Nat.lt_succ_self 970)

/-- The finite doubles: 53 bits of mantissa, exponents from -1074 to 971. -/
def binary64 : NumberFormat ℚ where
  numbers := {q | ∃ m e : ℤ, |m| < 2 ^ 53 ∧ -1074 ≤ e ∧ e ≤ 971 ∧ q = m * 2 ^ e}
  top := Binary64.maxFinite
  limit := 2 ^ 1024 - 2 ^ 970
  finite := by
    refine (((Set.finite_Icc (-2 ^ 53 : ℤ) (2 ^ 53)).prod (Set.finite_Icc (-1074 : ℤ) 971)).image
      fun p => (p.1 : ℚ) * 2 ^ p.2).subset ?_
    rintro q ⟨m, e, hm, hlow, hhigh, rfl⟩
    obtain ⟨hneg, hpos⟩ := abs_lt.mp hm
    exact ⟨(m, e), ⟨⟨hneg.le, hpos.le⟩, hlow, hhigh⟩, rfl⟩
  top_mem := by
    refine ⟨2 ^ 53 - 1, 971, by norm_num, by norm_num, le_rfl, ?_⟩
    rw [maxFinite_eq, mul_comm, Int.cast_sub, Int.cast_pow, Int.cast_ofNat, Int.cast_one]
    rfl
  neg_mem := by
    rintro q ⟨m, e, hm, hlow, hhigh, rfl⟩
    exact ⟨-m, e, by rwa [abs_neg], hlow, hhigh, by rw [Int.cast_neg, neg_mul]⟩
  le_top := by
    rintro q ⟨m, e, hm, hlow, hhigh, rfl⟩
    have hm' : (m : ℚ) ≤ 2 ^ 53 - 1 := by
      have := (abs_lt.mp hm).2
      exact_mod_cast Int.le_sub_one_of_lt this
    have he : (2 : ℚ) ^ e ≤ 2 ^ (971 : ℤ) := zpow_le_zpow_right₀ (by norm_num) hhigh
    have hpos : (0 : ℚ) < 2 ^ e := zpow_pos (by norm_num) _
    rw [maxFinite_eq, mul_comm]
    calc (2 : ℚ) ^ e * m ≤ 2 ^ e * (2 ^ 53 - 1) := mul_le_mul_of_nonneg_left hm' hpos.le
      _ ≤ 2 ^ (971 : ℤ) * (2 ^ 53 - 1) := mul_le_mul_of_nonneg_right he (by norm_num)
  top_lt := maxFinite_lt

/-- What the rounding of an exact quotient leaves in a `double`. -/
def Binary64.ofRounded : Rounded ℚ → Binary64
  | .infinite negative => .infinite negative
  | .finite q => .finite q

/-- A platform whose divisions round in the direction `d`. -/
noncomputable def Platform.ofDirection (d : Direction)
    (extractDouble : List UInt8 → Option (Binary64 × List UInt8)) : Platform where
  round q := .ofRounded (d.exists_rounds binary64 q).choose
  seconds ticks := .ofRounded (d.exists_rounds binary64 (ticks / ticksPerSecond)).choose
  extractDouble := extractDouble
  round_finite q h := by
    obtain ⟨y, -, hy⟩ := (d.exists_rounds binary64 q).choose_spec.isFinite h
    rw [hy]
    rfl

/-! ## Accepted counts -/

/-- The counts of a calibration. -/
def Calibration.counts (calibration : Calibration) : List Binary64 :=
  [calibration.countsPerForceUnit, calibration.countsPerTorqueUnit]

section Counts

variable {counts : Binary64} {calibration : Calibration}

theorem validateCalibration_counts (h : validateCalibration calibration = .ok ())
    (hcounts : counts ∈ calibration.counts) :
    ∃ q, counts = .finite q ∧ 0 < q ∧ minimumCount ≤ q := by
  obtain ⟨hforce, htorque⟩ := validateCalibration_ok h
  rcases List.mem_cons.mp hcounts with rfl | hmem
  · exact hforce
  · rw [List.mem_singleton.mp hmem]
    exact htorque

/-- The six values of a scaled record. -/
def Sample.values (sample : Sample) : List Binary64 := sample.force ++ sample.torque

/-- A sample only comes out with six finite values. -/
theorem scaleSample_values {P : Platform} {configuration : SensorConfiguration}
    {record : RawRecord} {receivedAt : TimePoint} {sample : Sample}
    (h : scaleSample P configuration record receivedAt = some sample) :
    sample.values = [record.fx, record.fy, record.fz].map
        (P.divide · configuration.calibration.countsPerForceUnit) ++
      [record.tx, record.ty, record.tz].map
        (P.divide · configuration.calibration.countsPerTorqueUnit) ∧
      ∀ value ∈ sample.values, value.isFinite = true := by
  unfold scaleSample at h
  dsimp only at h
  split at h
  · rename_i hall
    obtain ⟨hforce, htorque⟩ := (Bool.and_eq_true _ _).mp hall
    cases h
    refine ⟨rfl, fun value hvalue => ?_⟩
    rcases List.mem_append.mp hvalue with hmem | hmem
    · exact List.all_eq_true.mp hforce value hmem
    · exact List.all_eq_true.mp htorque value hmem
  · cases h

end Counts

/-! ## The exit of `handle_record` -/

section Exit

variable {P : Platform} {config : Config}

/-- No record asks for this result on its own. -/
theorem recordOutcome_ne_sensorConfiguration (policy : RecoveryPolicy)
    (severity : StatusSeverity) (ft : FtSequenceKind) :
    recordOutcome policy severity ft ≠ some .sensorConfiguration := by
  cases policy <;> cases severity <;> cases ft <;> decide

theorem recordReturned_result {rx : Reception} {result : Option SessionResult}
    {outcome : SessionOutcome} (h : recordReturned rx result = .sessionDone outcome) :
    result = some outcome.result := by
  cases result with
  | none => cases h
  | some r =>
    cases h
    rfl

/-- Classifying and scaling a record end the session only with what the
record itself asks for. -/
theorem recordStep_classify_result {w : Nat} {choice : WorkerChoice} {u u' : Shared}
    {rx : Reception} {record : RawRecord} {receivedAt : TimePoint} {pc' : WorkerPc}
    {configuration : SensorConfiguration}
    (hconf : u.health.sensorConfiguration = some configuration) (hvalid : configuration.Valid)
    (h : recordStep P config w choice u (.classify rx record receivedAt) = some (pc', u'))
    {outcome : SessionOutcome} (hpc : pc' = .sessionDone outcome) :
    outcome.result ≠ .sensorConfiguration := by
  obtain ⟨impl, decision, hclass, -, -, -, hsame, -, houtcome⟩ :=
    classifyRecord_ok config hconf record receivedAt
  obtain ⟨sample, hscaled⟩ :=
    Option.isSome_iff_exists.mp (scaleSample_isSome P hvalid record receivedAt)
  have hasked : decision.outcome ≠ some .sensorConfiguration := by
    rw [houtcome]
    exact recordOutcome_ne_sensorConfiguration _ _ _
  simp only [recordStep, hclass, hsame, hscaled] at h
  split at h
  · cases h
    intro hresult
    exact hasked ((recordReturned_result hpc).trans (congrArg some hresult))
  · split at h <;> cases h <;> cases hpc

/-- **Scaling never overflows.** The configuration in use is validated; an
accepted count divides every raw count to something finite in every
direction of rounding; and the record a client handles is scaled to six
finite values, so its session never ends for one that is not. -/
theorem scaling_never_overflows (P : Platform) (config : Config) {s : Sys}
    (hs : (clientLts P config).Reachable s) :
    (∀ configuration, s.shared.health.sensorConfiguration = some configuration →
      configuration.Valid) ∧
    (∀ calibration, validateCalibration calibration = .ok () →
      ∀ counts ∈ calibration.counts, ∀ raw : Int32, ∃ q, counts = .finite q ∧ 0 < q ∧
        |(raw.toInt : ℚ) / q| ≤ Binary64.maxFinite ∧
        ∀ (d : Direction) r, d.Rounds binary64 ((raw.toInt : ℚ) / q) r →
          ∃ y ∈ binary64.numbers, r = .finite y) ∧
    ∀ w t rx record receivedAt, s.workers w = some t → t.pc = .classify rx record receivedAt →
      ∃ configuration impl decision,
        s.shared.health.sensorConfiguration = some configuration ∧ configuration.Valid ∧
        s.shared.toImpl.classifyRecord config record receivedAt = (impl, .ok decision) ∧
        decision.configuration = configuration ∧
        (∃ sample, scaleSample P configuration record receivedAt = some sample ∧
          ∀ value ∈ sample.values, value.isFinite = true) ∧
        (∀ (d : Direction) extractDouble, ∃ sample,
          scaleSample (.ofDirection d extractDouble) configuration record receivedAt
            = some sample ∧ ∀ value ∈ sample.values, value.isFinite = true) ∧
        ∀ choice s' t' outcome, s.step P config (.worker w choice) = some s' →
          s'.workers w = some t' → t'.pc = .sessionDone outcome →
          outcome.result ≠ .sensorConfiguration := by
  have hwf := validWf_of_reachable hs
  have hscale (Q : Platform) {configuration : SensorConfiguration} (record : RawRecord)
      (receivedAt : TimePoint) (hvalid : configuration.Valid) :
      ∃ sample, scaleSample Q configuration record receivedAt = some sample ∧
        ∀ value ∈ sample.values, value.isFinite = true := by
    obtain ⟨sample, hscaled⟩ :=
      Option.isSome_iff_exists.mp (scaleSample_isSome Q hvalid record receivedAt)
    exact ⟨sample, hscaled, (scaleSample_values hscaled).2⟩
  refine ⟨hwf.shared, fun calibration hvalid counts hcounts raw => ?_, ?_⟩
  · obtain ⟨q, rfl, hpos, hmin⟩ := validateCalibration_counts hvalid hcounts
    have hquotient := abs_div_le_maxFinite raw hpos hmin
    exact ⟨q, rfl, hpos, hquotient, fun d r hr => hr.isFinite hquotient⟩
  · intro w t rx record receivedAt ht hpc
    have hsome := (hwf.classifies (P := P) ht hpc).1
    obtain ⟨configuration, hconf⟩ := Option.isSome_iff_exists.mp hsome
    have hvalid := hwf.shared configuration hconf
    obtain ⟨impl, decision, hclass, -, -, -, hsame, -, -⟩ :=
      classifyRecord_ok config hconf record receivedAt
    refine ⟨configuration, impl, decision, hconf, hvalid, hclass, hsame,
      hscale P record receivedAt hvalid, fun d extractDouble =>
        hscale _ record receivedAt hvalid, ?_⟩
    intro choice s' t' outcome hstep ht' hpc'
    cases Sys.step_move hstep with
    | places label places => rcases label with ⟨_, _, _, heq⟩ | ⟨_, heq⟩ <;> cases heq
    | @worker _ u u' shared' _ hu step move =>
      obtain rfl : t = u := Option.some.inj (ht.symm.trans hu)
      have hself : ((s.withShared shared').setWorker w u').workers w = some u' := by
        simp [Sys.setWorker]
      obtain rfl : u' = t' := Option.some.inj (hself.symm.trans ht')
      have hpart : t.pc.part = .record := congrArg WorkerPc.part hpc
      cases (workerStep_parts step).2 with
      | record _ hr =>
        rw [hpc] at hr
        exact recordStep_classify_result hconf hvalid hr hpc'
      | run other | connect other | configure other | transport other | receive other =>
        cases hpart.symm.trans other

/-- A client with its first record, about to be scaled. -/
theorem scaling_never_overflows_streaming :
    ∃ s t rx record receivedAt, (clientLts exactPlatform overrideConfig).Reachable s ∧
      s.workers 0 = some t ∧ t.pc = .classify rx record receivedAt ∧
      ∃ configuration, s.shared.health.sensorConfiguration = some configuration ∧
        configuration.Valid ∧
        ∃ sample, scaleSample exactPlatform configuration record receivedAt = some sample ∧
          ∀ value ∈ sample.values, value.isFinite = true := by
  obtain ⟨s, hs, hp⟩ := Lts.exists_of_exec (l := streamingRun.take 23)
    (p := fun s : Sys => decide ((s.workers 0).map (·.pc)
      = some (.classify ⟨100001000, true⟩ ⟨0, 0, 0, 0, 0, 0, 0, 0, 0⟩ 1000)))
    overrideConfig_reachable (by decide +kernel)
  obtain ⟨t, ht, hpc⟩ := Option.map_eq_some_iff.mp (of_decide_eq_true hp)
  obtain ⟨configuration, _, _, hconf, hvalid, _, _, hsample, _⟩ :=
    (scaling_never_overflows exactPlatform overrideConfig hs).2.2 0 t _ _ _ ht hpc
  exact ⟨s, t, _, _, _, hs, ht, hpc, configuration, hconf, hvalid, hsample⟩

end Exit

end PyNetFT.Core
