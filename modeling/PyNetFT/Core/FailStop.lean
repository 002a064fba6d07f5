/-
PyNetFT.Core.FailStop — what duplication and reordering do to a
fail-stop run.

A record that the RDT tracker calls a duplicate or out of order is
counted and held back, which alone would be harmless. The same datagram
goes through the FT tracker as well, and there it is a stall or a step
backward; under fail-stop `recordOutcome` ends the session on either.
So a fail-stop run survives exactly the arrival sequences in which every
record is newer than all before it: losses do no harm, the first
duplicate or late record ends the run. `failStop_outcome_iff` states
this with the outcome the record returns.
-/
import PyNetFT.Core.RestartDetection
import Mathlib.Data.List.Chain

namespace PyNetFT.Core

open PyNetFT.Lib

/-- The head of a session: the trackers as `receive_session` leaves them
before the first record. -/
def Impl.beginSession (s : Impl) : Impl :=
  { s with rdtSequence := s.rdtSequence.reset, ftSequence := s.ftSequence.beginSession }

/-- An arrival as a call of `handle_record` with a callback that
returns. -/
def SensorStream.recordCall (stream : SensorStream) (a : Arrival) : RecordCall :=
  { record := stream.record a.1, receivedAt := a.2 }

/-- `handle_record` over the arrivals of a stream. -/
def SensorStream.receive (stream : SensorStream) (P : Platform) (config : Config) (s : Impl)
    (a : Arrival) : (Except String (Option SessionResult) × Option Sample) × Impl :=
  s.receive P config (stream.recordCall a)

/-- The FT counter of an arrival. -/
def SensorStream.ftOf (stream : SensorStream) (a : Arrival) : Nat := stream.ft a.1

/-- The FT tracker follows a number, or nothing yet, and waits for no
second restart record. -/
structure FtSequenceTracker.Follows (t : FtSequenceTracker) (newest : Option Nat) : Prop where
  hasLast : t.hasLast = newest.isSome
  previous : ∀ m ∈ newest, t.previous = UInt32.ofNat m
  candidate : t.hasRestartCandidate = false

/-! ## One record -/

/-- The result of `handle_record` when the callback returns and the
calibration is valid: the rate limit and the delivery have no part in
it. -/
theorem handleRecord_result (P : Platform) (config : Config) {s : Impl}
    {configuration : SensorConfiguration}
    (hconf : s.health.sensorConfiguration = some configuration)
    (hcal : validateCalibration configuration.calibration = .ok ()) (record : RawRecord)
    (receivedAt : TimePoint) :
    (s.handleRecord P config (.ok ()) record receivedAt).result =
      .ok (recordOutcome config.recoveryPolicy (classifyStatus record.status)
        (s.ftSequence.observe record.ftSequence).1) := by
  obtain ⟨s', decision, hclass, -, -, -, hdconf, -, houtcome⟩ :=
    classifyRecord_ok config hconf record receivedAt
  simp only [Impl.handleRecord, hclass]
  split
  · rw [houtcome]
  · obtain ⟨sample, hsample⟩ := Option.isSome_iff_exists.mp
      (scaleSample_isSome P hcal record receivedAt)
    simp only [hdconf, hsample, houtcome]

/-- What `handle_record` leaves in the FT tracker and the configuration. -/
theorem receive_ft (P : Platform) (config : Config) {s : Impl}
    {configuration : SensorConfiguration}
    (h : s.health.sensorConfiguration = some configuration) (r : RecordCall) :
    (s.receive P config r).2.ftSequence = (s.ftSequence.observe r.record.ftSequence).2 ∧
      (s.receive P config r).2.health.sensorConfiguration = some configuration := by
  obtain ⟨c, decision, hclass, -, hft, hconf, -⟩ :=
    classifyRecord_ok config h r.record r.receivedAt
  have himpl := handleRecord_impl P config r.callback r.record r.receivedAt s
  rw [hclass] at himpl
  dsimp only [Impl.receive] at himpl ⊢
  rcases himpl with heq | ⟨message, heq⟩ | ⟨sample, heq⟩
  all_goals
    rw [heq]
    exact ⟨hft, hconf⟩

/-- A record the RDT tracker saw before or is past is held back and
counted under its kind. -/
theorem receive_not_fresh (P : Platform) (config : Config) {s : Impl}
    {configuration : SensorConfiguration}
    (h : s.health.sensorConfiguration = some configuration) (r : RecordCall)
    (hfresh : (s.rdtSequence.observe r.record.rdtSequence).1.kind.fresh = false) :
    (s.receive P config r).1.2 = none ∧
      (s.receive P config r).2.health.duplicateCount = s.health.duplicateCount +
        (if (s.rdtSequence.observe r.record.rdtSequence).1.kind = .duplicate then 1 else 0) ∧
      (s.receive P config r).2.health.outOfOrderCount = s.health.outOfOrderCount +
        (if (s.rdtSequence.observe r.record.rdtSequence).1.kind = .outOfOrder then 1 else 0) := by
  have hheld : ∀ ft severity, eligible config
      (s.rdtSequence.observe r.record.rdtSequence).1.kind ft severity = false := by
    intro ft severity
    simp [eligible, hfresh]
  simp only [Impl.receive, Impl.handleRecord, Impl.classifyRecord, h, hheld, Bool.false_and,
    Bool.false_eq_true, if_false, if_true, HealthSnapshot.countRecord, true_and]
  constructor <;> split <;> rfl

/-- A newer record is no discontinuity. -/
theorem FtSequenceTracker.Follows.observe_ahead {t : FtSequenceTracker} {newest : Option Nat}
    (h : t.Follows newest) {n : Nat} (hahead : ∀ m ∈ newest, m < n ∧ n < m + 2 ^ 31) :
    recordOutcome .failStop .ok (t.observe (UInt32.ofNat n)).1 = none ∧
      (t.observe (UInt32.ofNat n)).2.Follows (some n) := by
  cases newest with
  | none =>
    have hobs : t.observe (UInt32.ofNat n)
        = (.first, { t with hasLast := true, previous := UInt32.ofNat n }) := by
      simp [FtSequenceTracker.observe, h.hasLast]
    rw [hobs]
    exact ⟨rfl, rfl, by simp, h.candidate⟩
  | some m =>
    obtain ⟨hlt, hhalf⟩ := hahead m rfl
    have hp := h.previous m rfl
    have hne : UInt32.ofNat n ≠ t.previous := by
      rw [hp]
      intro heq
      have hzero := (sub_eq_zero_iff m n hhalf (by omega)).mp (by simp [heq])
      omega
    have hd : UInt32.ofNat n - t.previous < 0x80000000 := by
      rw [hp]
      exact (ahead_iff m n hhalf (by omega)).mpr hlt.le
    rw [FtSequenceTracker.observe_forward h.hasLast hne hd]
    exact ⟨rfl, h.hasLast, by simp, rfl⟩

/-- A record that is not newer is one: a stall if it repeats the newest,
a step backward if it is older. -/
theorem FtSequenceTracker.Follows.observe_late {t : FtSequenceTracker} {m n : Nat}
    (h : t.Follows (some m)) (hnear : Near m n) (hle : n ≤ m) :
    recordOutcome .failStop .ok (t.observe (UInt32.ofNat n)).1
      = some (if n = m then .ftStall else .ftBackward) := by
  have hp := h.previous m rfl
  split
  · rename_i heq
    have hobs : t.observe (UInt32.ofNat n) = (.stall, { t with hasRestartCandidate := false }) := by
      simp [FtSequenceTracker.observe, h.hasLast, hp, heq]
    rw [hobs]
    rfl
  · rename_i hne
    have hd : ¬ UInt32.ofNat n - t.previous < 0x80000000 := by
      rw [hp, ahead_iff m n hnear.1 hnear.2]
      omega
    have hne' : UInt32.ofNat n ≠ t.previous := by
      rw [hp]
      intro heq
      exact hne ((sub_eq_zero_iff m n hnear.1 hnear.2).mp (by simp [heq]))
    rw [FtSequenceTracker.observe_backward h.hasLast hne' hd
      (FtSequenceTracker.restarts_no_candidate h.candidate)]
    rfl

/-! ## The run -/

/-- The numbers in ascending order: every record newer than all before. -/
def Ascending (numbers : List Nat) : Prop := numbers.Pairwise (· < ·)

instance (numbers : List Nat) : Decidable (Ascending numbers) :=
  inferInstanceAs (Decidable (numbers.Pairwise (· < ·)))

theorem ascending_concat {numbers : List Nat} {n : Nat} :
    Ascending (numbers ++ [n]) ↔ Ascending numbers ∧ ∀ m ∈ numbers.getLast?, m < n := by
  rw [Ascending, Ascending, ← List.isChain_iff_pairwise, ← List.isChain_iff_pairwise,
    List.isChain_append]
  simp

/-- A list that is not ascending has a first record that is not newer. -/
theorem exists_first_late (baseline : Option Nat) {numbers : List Nat}
    (h : ¬ Ascending (baseline.toList ++ numbers)) :
    ∃ before n after, numbers = before ++ n :: after ∧ Ascending (baseline.toList ++ before) ∧
      ∃ m ∈ (baseline.toList ++ before).getLast?, n ≤ m := by
  induction numbers using List.reverseRecOn with
  | nil => cases baseline <;> simp [Ascending] at h
  | append_singleton numbers n ih =>
    by_cases hasc : Ascending (baseline.toList ++ numbers)
    · rw [← List.append_assoc, ascending_concat, not_and] at h
      obtain ⟨m, hm⟩ := not_forall.mp (h hasc)
      obtain ⟨hmem, hle⟩ := Classical.not_imp.mp hm
      exact ⟨numbers, n, [], rfl, hasc, m, hmem, not_lt.mp hle⟩
    · obtain ⟨before, n', after, rfl, hbefore, hlate⟩ := ih hasc
      exact ⟨before, n', after ++ [n], by simp, hbefore, hlate⟩

section Run

variable {P : Platform} {config : Config} {stream : SensorStream}
variable {configuration : SensorConfiguration} {baseline : Option Nat}

/-- Behind the records `before`, all ascending: the client is configured
and its FT tracker follows the newest of them. -/
structure Following (configuration : SensorConfiguration) (newest : Option Nat) (s : Impl) :
    Prop where
  configured : s.health.sensorConfiguration = some configuration
  follows : s.ftSequence.Follows newest

/-- The result of one arrival. -/
theorem receive_result (hpolicy : config.recoveryPolicy = .failStop)
    (hcal : validateCalibration configuration.calibration = .ok ()) {s : Impl}
    (hconf : s.health.sensorConfiguration = some configuration) (a : Arrival) :
    (stream.receive P config s a).1.1 =
      .ok (recordOutcome .failStop .ok
        (s.ftSequence.observe (UInt32.ofNat (stream.ftOf a))).1) := by
  have h := handleRecord_result P config hconf hcal (stream.record a.1) a.2
  rw [hpolicy] at h
  exact h

/-- A newer arrival returns no outcome and is followed. -/
theorem Following.receive_ahead (hpolicy : config.recoveryPolicy = .failStop)
    (hcal : validateCalibration configuration.calibration = .ok ()) {s : Impl}
    {newest : Option Nat} (hs : Following configuration newest s) (a : Arrival)
    (hahead : ∀ m ∈ newest, m < stream.ftOf a ∧ stream.ftOf a < m + 2 ^ 31) :
    (stream.receive P config s a).1.1 = .ok none ∧
      Following configuration (some (stream.ftOf a))
        (stream.receive P config s a).2 := by
  obtain ⟨hnone, hfollows⟩ := hs.follows.observe_ahead hahead
  obtain ⟨hft, hconf⟩ := receive_ft P config hs.configured (stream.recordCall a)
  refine ⟨?_, hconf, ?_⟩
  · rw [receive_result hpolicy hcal hs.configured a, hnone]
  · rw [SensorStream.receive, hft]
    exact hfollows

theorem near_getLast {numbers : List Nat} {n m : Nat} {after : List Nat}
    (h : (numbers ++ n :: after).Pairwise Near) (hm : m ∈ numbers.getLast?) : Near m n :=
  (List.pairwise_append.mp h).2.2 m (List.mem_of_getLast? hm) n (by simp)

/-- After every prefix of the arrivals: the client is configured, and if
the prefix ascends no outcome was returned and the newest is followed. -/
theorem following_of_ascending (hpolicy : config.recoveryPolicy = .failStop)
    (hcal : validateCalibration configuration.calibration = .ok ()) {s : Impl}
    (hs : Following configuration baseline s) {arrivals : List Arrival}
    (hnear : (baseline.toList ++ arrivals.map stream.ftOf).Pairwise Near) :
    ∀ before after, arrivals = before ++ after →
      (Mealy.final (stream.receive P config) s before).health.sensorConfiguration
          = some configuration ∧
        (Ascending (baseline.toList ++ before.map stream.ftOf) →
          Following configuration (baseline.toList ++ before.map stream.ftOf).getLast?
            (Mealy.final (stream.receive P config) s before) ∧
          ∀ o ∈ Mealy.outputs (stream.receive P config) s before, o.1 = .ok none) := by
  refine Mealy.final_invariant (K := fun before os t =>
    t.health.sensorConfiguration = some configuration ∧
      (Ascending (baseline.toList ++ before.map stream.ftOf) →
        Following configuration (baseline.toList ++ before.map stream.ftOf).getLast? t ∧
        ∀ o ∈ os, o.1 = .ok none)) (stream.receive P config) _ ?_ ?_
  · refine ⟨hs.configured, fun _ => ⟨?_, by simp⟩⟩
    cases baseline <;> exact hs
  · rintro before a after hsplit ⟨hconf, ih⟩
    refine ⟨(receive_ft P config hconf (stream.recordCall a)).2, ?_⟩
    intro hasc
    rw [List.map_append, List.map_singleton, ← List.append_assoc] at hasc ⊢
    obtain ⟨hbefore, hnewer⟩ := ascending_concat.mp hasc
    obtain ⟨hfollowing, hquiet⟩ := ih hbefore
    rw [hsplit, List.map_append, List.map_cons, ← List.append_assoc] at hnear
    obtain ⟨hresult, hnext⟩ := hfollowing.receive_ahead (P := P) hpolicy hcal a
      (fun m hm => ⟨hnewer m hm, (near_getLast hnear hm).1⟩)
    rw [List.getLast?_concat]
    refine ⟨hnext, ?_⟩
    intro o ho
    rcases List.mem_append.mp ho with ho | ho
    · exact hquiet o ho
    · rw [List.mem_singleton.mp ho]
      exact hresult

/-- The first arrival that is not newer returns its outcome. -/
theorem outcome_of_first_late (hpolicy : config.recoveryPolicy = .failStop)
    (hcal : validateCalibration configuration.calibration = .ok ()) {s : Impl}
    (hs : Following configuration baseline s) {before after : List Arrival} {a : Arrival}
    (hnear : (baseline.toList ++ (before ++ a :: after).map stream.ftOf).Pairwise Near)
    (hasc : Ascending (baseline.toList ++ before.map stream.ftOf)) {m : Nat}
    (hm : m ∈ (baseline.toList ++ before.map stream.ftOf).getLast?)
    (hlate : stream.ftOf a ≤ m) :
    (stream.receive P config (Mealy.final (stream.receive P config) s before) a).1.1
      = .ok (some (if stream.ftOf a = m then .ftStall else .ftBackward)) := by
  obtain ⟨hconf, hrun⟩ := following_of_ascending (P := P) hpolicy hcal hs hnear before _ rfl
  obtain ⟨hfollowing, -⟩ := hrun hasc
  rw [show (baseline.toList ++ before.map stream.ftOf).getLast? = some m from hm] at hfollowing
  rw [List.map_append, List.map_cons, ← List.append_assoc] at hnear
  rw [receive_result hpolicy hcal hconf a,
    hfollowing.follows.observe_late (near_getLast hnear hm) hlate]

end Run

/-- **A fail-stop run and the network.** For every sensor stream and
every arrival sequence of near counters, with a callback that returns:
`handle_record` returns no outcome over the whole run exactly if every
arrived record is newer than the baseline kept from earlier runs and
than all records arrived before it. The first record that is not newer
returns an FT stall if it repeats the newest and a step backward if it
is older. Records the RDT tracker calls duplicate or out of order are
counted and handed to nobody. -/
theorem failStop_outcome_iff (P : Platform) (config : Config) (stream : SensorStream)
    (configuration : SensorConfiguration) (s : Impl) (baseline : Option Nat)
    (arrivals : List Arrival) (hpolicy : config.recoveryPolicy = .failStop)
    (hconf : s.health.sensorConfiguration = some configuration)
    (hcal : validateCalibration configuration.calibration = .ok ())
    (hlast : s.ftSequence.hasLast = baseline.isSome)
    (hprevious : ∀ b ∈ baseline, s.ftSequence.previous = UInt32.ofNat b)
    (hnear : (baseline.toList ++ arrivals.map stream.ftOf).Pairwise Near) :
    ((∀ o ∈ Mealy.outputs (stream.receive P config) s.beginSession arrivals, o.1 = .ok none) ↔
        Ascending (baseline.toList ++ arrivals.map stream.ftOf)) ∧
      ∀ before a after, arrivals = before ++ a :: after →
        let t := Mealy.final (stream.receive P config) s.beginSession before
        let kind := (t.rdtSequence.observe (UInt32.ofNat (stream.rdt a.1))).1.kind
        let handled := stream.receive P config t a
        (Ascending (baseline.toList ++ before.map stream.ftOf) →
          ∀ m ∈ (baseline.toList ++ before.map stream.ftOf).getLast?, stream.ftOf a ≤ m →
            handled.1.1 = .ok (some (if stream.ftOf a = m then .ftStall else .ftBackward))) ∧
        (kind = .duplicate → handled.1.2 = none ∧
          handled.2.health.duplicateCount = t.health.duplicateCount + 1) ∧
        (kind = .outOfOrder → handled.1.2 = none ∧
          handled.2.health.outOfOrderCount = t.health.outOfOrderCount + 1) := by
  have hs : Following configuration baseline s.beginSession :=
    ⟨hconf, hlast, hprevious, rfl⟩
  have hrun := following_of_ascending (P := P) hpolicy hcal hs hnear
  refine ⟨⟨?_, ?_⟩, ?_⟩
  · intro hquiet
    by_contra hasc
    obtain ⟨numbers, n, rest, hmap, hbefore, m, hm, hlate⟩ := exists_first_late baseline hasc
    obtain ⟨before, tail, rfl, rfl, htail⟩ := List.map_eq_append_iff.mp hmap
    obtain ⟨a, after, rfl, rfl, -⟩ := List.map_eq_cons_iff.mp htail
    have hout := outcome_of_first_late (P := P) hpolicy hcal hs hnear hbefore hm hlate
    rw [hquiet _ (Mealy.answer_mem_outputs _ _ before a after)] at hout
    cases hout
  · intro hasc
    exact ((hrun arrivals [] (List.append_nil _).symm).2 hasc).2
  · rintro before a after rfl
    have hconf' := (hrun before _ rfl).1
    refine ⟨?_, ?_, ?_⟩
    · intro hasc m hm hlate
      exact outcome_of_first_late hpolicy hcal hs hnear hasc hm hlate
    · intro hkind
      obtain ⟨hheld, hdup, -⟩ := receive_not_fresh P config hconf' (stream.recordCall a)
        (congrArg SequenceKind.fresh hkind)
      exact ⟨hheld, hdup.trans (congrArg (_ + ·) (if_pos hkind))⟩
    · intro hkind
      obtain ⟨hheld, -, hooo⟩ := receive_not_fresh P config hconf' (stream.recordCall a)
        (congrArg SequenceKind.fresh hkind)
      exact ⟨hheld, hooo.trans (congrArg (_ + ·) (if_pos hkind))⟩

/-- A client with an installed calibration, before its first record. -/
def calibratedImpl : Impl :=
  { health := { sensorConfiguration := some { calibration :=
      ⟨.finite 1, .finite 1, .newton, .newtonMeter⟩ } } }

/-- A lossy run in order: no outcome. -/
theorem failStop_outcome_lossy :
    Ascending ([(3, 1), (4, 2), (9, 3)].map countingStream.ftOf) ∧
      ∀ o ∈ Mealy.outputs (countingStream.receive exactPlatform
          { recoveryPolicy := .failStop }) calibratedImpl.beginSession [(3, 1), (4, 2), (9, 3)],
        o.1 = .ok none := by
  refine ⟨by decide, ?_⟩
  exact (failStop_outcome_iff exactPlatform { recoveryPolicy := .failStop } countingStream _
    calibratedImpl none [(3, 1), (4, 2), (9, 3)] rfl rfl (by decide +kernel) rfl (by simp)
    (by decide)).1.mpr (by decide)

/-- One datagram delivered twice ends the fail-stop run with an FT
stall, although the RDT tracker knows it for a duplicate. -/
theorem duplicate_ends_failStop_run :
    ¬ ∀ (P : Platform) (config : Config) (stream : SensorStream)
        (configuration : SensorConfiguration) (s : Impl) (arrivals : List Arrival),
      config.recoveryPolicy = .failStop →
      s.health.sensorConfiguration = some configuration →
      validateCalibration configuration.calibration = .ok () →
      s.ftSequence.hasLast = false → stream.NearArrivals arrivals →
      ∀ o ∈ Mealy.outputs (stream.receive P config) s.beginSession arrivals, o.1 = .ok none := by
  intro h
  have hall := h exactPlatform { recoveryPolicy := .failStop } countingStream _ calibratedImpl
    [(3, 1), (3, 2)] rfl rfl (by decide +kernel) rfl (by
      simp only [SensorStream.NearArrivals, countingStream]
      decide)
  have hfollowing : Following
      { calibration := ⟨.finite 1, .finite 1, .newton, .newtonMeter⟩ } none
      calibratedImpl.beginSession := ⟨rfl, rfl, by simp, rfl⟩
  have hnear : (Option.toList none ++ ([(3, 1)] ++ (3, 2) :: []).map countingStream.ftOf).Pairwise
      Near := by decide
  have hstall := outcome_of_first_late (P := exactPlatform) (m := 3)
    (show ({ recoveryPolicy := .failStop } : Config).recoveryPolicy = .failStop from rfl)
    (by decide +kernel) hfollowing hnear (by decide) rfl (by decide)
  rw [hall _ (Mealy.answer_mem_outputs _ _ [(3, 1)] (3, 2) [])] at hstall
  cases hstall

end PyNetFT.Core
