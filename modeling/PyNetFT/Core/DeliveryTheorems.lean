/-
PyNetFT.Core.DeliveryTheorems — what reaches the callback when the
network drops, duplicates and reorders records.

A `SensorStream` numbers its records with two unbounded strictly
increasing counters; the wire carries them modulo `2^32`. An arrival
sequence is any list of stream indices, so loss, duplication and
reordering are all covered by "any list"; the only restriction is that
counters that meet are less than `2^31` apart.

`handleRecords_runningMaxima`: under the reconnect policy, without rate
limit and with a validated calibration, folding `handle_record` over the
arrivals never ends the session, and the callback gets exactly the
records whose RDT counter exceeds all earlier arrived ones.

The FT tracker is the delicate half: on late packets it may take a
restart for granted and move its baseline BACKWARD. What survives is only
that the baseline is the number of something that arrived (or the one
held before), `FtAnchored`; that is enough, because a record ahead of
everything in RDT order is ahead of everything in FT order too.
-/
import PyNetFT.Core.Impl
import PyNetFT.Core.SequenceTheorems
import PyNetFT.Lib.RunningMaxima
import Mathlib.Order.Monotone.Basic

namespace PyNetFT.Core

open PyNetFT.Lib

/-- A sensor that never restarts: two strictly increasing counters, and
the raw wrench of each record. The device status is always zero. -/
structure SensorStream where
  rdt : Nat → Nat
  ft : Nat → Nat
  wrench : Nat → Fin 6 → Int32
  rdt_strictMono : StrictMono rdt
  ft_strictMono : StrictMono ft

/-- The record with index `n`, as the wire carries it. -/
def SensorStream.record (stream : SensorStream) (n : Nat) : RawRecord where
  rdtSequence := UInt32.ofNat (stream.rdt n)
  ftSequence := UInt32.ofNat (stream.ft n)
  status := 0
  fx := stream.wrench n 0
  fy := stream.wrench n 1
  fz := stream.wrench n 2
  tx := stream.wrench n 3
  ty := stream.wrench n 4
  tz := stream.wrench n 5

/-- Two counters less than half the range apart. -/
def Near (m n : Nat) : Prop := n < m + 2 ^ 31 ∧ m < n + 2 ^ 31

instance (m n : Nat) : Decidable (Near m n) := inferInstanceAs (Decidable (_ ∧ _))

/-- An arrival: which record, and when it was received. -/
abbrev Arrival := Nat × TimePoint

/-- Every arriving counter is near every earlier arrived one. -/
def SensorStream.NearArrivals (stream : SensorStream) (arrivals : List Arrival) : Prop :=
  arrivals.Pairwise fun a b =>
    Near (stream.rdt a.1) (stream.rdt b.1) ∧ Near (stream.ft a.1) (stream.ft b.1)

/-- `handle_record` over the records of one session, with a callback
that returns: the samples handed over, and what ended the session if
something did. -/
def Impl.handleRecords (P : Platform) (config : Config) :
    Impl → List (RawRecord × TimePoint) → List Sample × Option (Except String SessionResult)
  | _, [] => ([], none)
  | s, (record, receivedAt) :: rest =>
      let handled := s.handleRecord P config (.ok ()) record receivedAt
      match handled.result with
      | .error message => (handled.handed.toList, some (.error message))
      | .ok (some outcome) => (handled.handed.toList, some (.ok outcome))
      | .ok none =>
          let later := handleRecords P config handled.impl rest
          (handled.handed.toList ++ later.1, later.2)

/-! ## The joint invariant -/

/-- The RDT tracker holds the greatest counter seen, or nothing. -/
def RdtMaximum (stream : SensorStream) (seen : List Arrival) (t : RdtSequenceTracker) : Prop :=
  (seen = [] ∧ t.hasLast = false) ∨
    ∃ m, IsGreatestSeen (fun a => stream.rdt a.1) seen m ∧ t = ⟨true, UInt32.ofNat m⟩

/-- The FT baseline is the number of an arrived record or the baseline
held before the session; nothing is said about the restart candidate. -/
def FtAnchored (stream : SensorStream) (baseline : Option Nat) (seen : List Arrival)
    (t : FtSequenceTracker) : Prop :=
  (seen = [] ∧ baseline = none ∧ t.hasLast = false) ∨
    t.hasLast = true ∧ ∃ b, t.previous = UInt32.ofNat b ∧
      (baseline = some b ∨ ∃ a ∈ seen, stream.ft a.1 = b)

/-- What holds between two records of the session. -/
structure Tracked (stream : SensorStream) (configuration : SensorConfiguration)
    (baseline : Option Nat) (seen : List Arrival) (s : Impl) : Prop where
  rdt : RdtMaximum stream seen s.rdtSequence
  ft : FtAnchored stream baseline seen s.ftSequence
  configured : s.health.sensorConfiguration = some configuration

theorem RdtMaximum.observe {stream : SensorStream} {seen : List Arrival}
    {t : RdtSequenceTracker} (h : RdtMaximum stream seen t) (a : Arrival)
    (hnear : ∀ b ∈ seen, Near (stream.rdt b.1) (stream.rdt a.1)) :
    RdtMaximum stream (a :: seen) (t.observe (UInt32.ofNat (stream.rdt a.1))).2 ∧
      ((t.observe (UInt32.ofNat (stream.rdt a.1))).1.kind.fresh = true ↔
        ∀ b ∈ seen, stream.rdt b.1 < stream.rdt a.1) := by
  rcases h with ⟨rfl, hl⟩ | ⟨m, hm, rfl⟩
  · rw [RdtSequenceTracker.observe_first hl]
    refine ⟨Or.inr ⟨stream.rdt a.1, ?_, rfl⟩, by simp [SequenceKind.fresh]⟩
    exact isGreatestSeen_singleton (fun a => stream.rdt a.1) a
  · obtain ⟨b, hb, hbm⟩ := hm.1
    obtain ⟨h1, h2⟩ := hnear b hb
    simp only at hbm
    rw [hbm] at h1 h2
    refine ⟨Or.inr ⟨max m (stream.rdt a.1), hm.cons a, ?_⟩, ?_⟩
    · exact RdtSequenceTracker.observe_previous rfl rfl h1 h2
    · rw [RdtSequenceTracker.observe_fresh_iff rfl rfl h1 h2]
      exact (hm.above_iff a).symm

theorem FtAnchored.observe {stream : SensorStream} {baseline : Option Nat}
    {seen : List Arrival} {t : FtSequenceTracker} (h : FtAnchored stream baseline seen t)
    (a : Arrival) :
    FtAnchored stream baseline (a :: seen) (t.observe (UInt32.ofNat (stream.ft a.1))).2 := by
  obtain ⟨hl, hprev⟩ := FtSequenceTracker.observe_previous_cases t (UInt32.ofNat (stream.ft a.1))
  refine Or.inr ⟨hl, ?_⟩
  rcases hprev with ⟨htl, hkeep⟩ | hnew
  · rcases h with ⟨-, -, hnone⟩ | ⟨-, b, hb, hfrom⟩
    · rw [hnone] at htl
      cases htl
    · refine ⟨b, by rw [hkeep, hb], hfrom.imp_right ?_⟩
      rintro ⟨c, hc, hcb⟩
      exact ⟨c, by simp [hc], hcb⟩
  · exact ⟨stream.ft a.1, hnew, Or.inr ⟨a, by simp, rfl⟩⟩

/-- A record ahead of every earlier one in RDT order is FT-first or
FT-forward: it is never held back by the FT side. -/
theorem FtAnchored.observe_ahead {stream : SensorStream} {baseline : Option Nat}
    {seen : List Arrival} {t : FtSequenceTracker} (h : FtAnchored stream baseline seen t)
    (a : Arrival) (hbase : ∀ b, baseline = some b → b < stream.ft a.1 ∧ stream.ft a.1 < b + 2 ^ 31)
    (hnear : ∀ b ∈ seen, Near (stream.ft b.1) (stream.ft a.1))
    (hahead : ∀ b ∈ seen, stream.rdt b.1 < stream.rdt a.1) :
    (t.observe (UInt32.ofNat (stream.ft a.1))).1.discontinuity = false := by
  rcases h with ⟨-, -, hl⟩ | ⟨hl, b, hb, hfrom⟩
  · simp [FtSequenceTracker.observe, hl, FtSequenceKind.discontinuity]
  · have hb2 : b < stream.ft a.1 ∧ stream.ft a.1 < b + 2 ^ 31 := by
      rcases hfrom with hbaseline | ⟨c, hc, rfl⟩
      · exact hbase b hbaseline
      · have hidx : c.1 < a.1 := stream.rdt_strictMono.lt_iff_lt.mp (hahead c hc)
        exact ⟨stream.ft_strictMono hidx, (hnear c hc).1⟩
    have hne : UInt32.ofNat (stream.ft a.1) ≠ t.previous := by
      rw [hb]
      intro heq
      have hzero := (sub_eq_zero_iff b (stream.ft a.1) hb2.2 (by omega)).mp (by simp [heq])
      omega
    have hd : UInt32.ofNat (stream.ft a.1) - t.previous < 0x80000000 := by
      rw [hb]
      exact (ahead_iff b (stream.ft a.1) hb2.2 (by omega)).mpr hb2.1.le
    rw [FtSequenceTracker.observe_forward hl hne hd]
    rfl

/-! ## One record -/

theorem recordOutcome_reconnect_ok (ft : FtSequenceKind) :
    recordOutcome .reconnect .ok ft = none := by
  cases ft <;> rfl

theorem rateLimited_off {config : Config} (h : config.sampleRateLimitHz.value = 0)
    (last receivedAt : TimePoint) : rateLimited config last receivedAt = false := by
  simp [rateLimited, h]

@[simp] theorem recordDelivered_rdtSequence (s : Impl) (sample : Sample) :
    (s.recordDelivered sample).rdtSequence = s.rdtSequence := rfl

@[simp] theorem recordDelivered_ftSequence (s : Impl) (sample : Sample) :
    (s.recordDelivered sample).ftSequence = s.ftSequence := rfl

@[simp] theorem recordDelivered_sensorConfiguration (s : Impl) (sample : Sample) :
    (s.recordDelivered sample).health.sensorConfiguration = s.health.sensorConfiguration := rfl

section Session

variable {P : Platform} {config : Config} {stream : SensorStream}
variable {configuration : SensorConfiguration} {baseline : Option Nat}

/-- One arrival: no outcome, the invariant moves on, and the record is
handed over exactly when it is a running maximum. -/
theorem handleRecord_arrival (hpolicy : config.recoveryPolicy = .reconnect)
    (hrate : config.sampleRateLimitHz.value = 0)
    (hcal : validateCalibration configuration.calibration = .ok ())
    {seen : List Arrival} {s : Impl} (hs : Tracked stream configuration baseline seen s)
    (a : Arrival) (hbase : ∀ b, baseline = some b → b < stream.ft a.1 ∧ stream.ft a.1 < b + 2 ^ 31)
    (hnear : ∀ b ∈ seen,
      Near (stream.rdt b.1) (stream.rdt a.1) ∧ Near (stream.ft b.1) (stream.ft a.1)) :
    (s.handleRecord P config (.ok ()) (stream.record a.1) a.2).result = .ok none ∧
      Tracked stream configuration baseline (a :: seen)
        (s.handleRecord P config (.ok ()) (stream.record a.1) a.2).impl ∧
      (s.handleRecord P config (.ok ()) (stream.record a.1) a.2).handed =
        if ∀ b ∈ seen, stream.rdt b.1 < stream.rdt a.1 then
          scaleSample P configuration (stream.record a.1) a.2
        else none := by
  obtain ⟨s', decision, hclass, hrdt', hft', hconf', hdconf, hdeliver, houtcome⟩ :=
    classifyRecord_ok config hs.configured (stream.record a.1) a.2
  obtain ⟨hrdt, hfresh⟩ := hs.rdt.observe a (fun b hb => (hnear b hb).1)
  have hft := hs.ft.observe a
  have hstatus : classifyStatus (stream.record a.1).status = .ok := rfl
  have htracked : Tracked stream configuration baseline (a :: seen) s' :=
    ⟨hrdt' ▸ hrdt, hft' ▸ hft, hconf'⟩
  have hnone : decision.outcome = none := by
    rw [houtcome, hpolicy, hstatus, recordOutcome_reconnect_ok]
  have hdel : decision.deliver = true ↔ ∀ b ∈ seen, stream.rdt b.1 < stream.rdt a.1 := by
    rw [hdeliver, rateLimited_off hrate, Bool.and_false, Bool.not_false, Bool.and_true, hstatus]
    simp only [eligible, ne_eq, reduceCtorEq, not_false_eq_true, decide_true, Bool.true_or,
      Bool.and_true, Bool.and_eq_true, Bool.not_eq_true']
    constructor
    · intro h
      exact hfresh.mp h.1
    · intro h
      exact ⟨hfresh.mpr h, hs.ft.observe_ahead a hbase (fun b hb => (hnear b hb).2) h⟩
  simp only [Impl.handleRecord, hclass]
  by_cases hmax : ∀ b ∈ seen, stream.rdt b.1 < stream.rdt a.1
  · obtain ⟨sample, hsample⟩ := Option.isSome_iff_exists.mp
      (scaleSample_isSome P hcal (stream.record a.1) a.2)
    have hd : decision.deliver = true := hdel.mpr hmax
    rw [if_pos hmax]
    simp only [hd, Bool.true_eq_false, if_false, hdconf, hsample, hnone, true_and, and_true]
    exact ⟨htracked.rdt, htracked.ft, htracked.configured⟩
  · have hd : decision.deliver = false := by
      rw [← Bool.not_eq_true, hdel]
      exact hmax
    rw [if_neg hmax]
    simp only [hd, if_true, hnone, and_true, true_and]
    exact htracked

/-! ## The whole session -/

theorem handleRecords_tracked (hpolicy : config.recoveryPolicy = .reconnect)
    (hrate : config.sampleRateLimitHz.value = 0)
    (hcal : validateCalibration configuration.calibration = .ok ())
    {seen arrivals : List Arrival} {s : Impl}
    (hs : Tracked stream configuration baseline seen s)
    (hbase : ∀ b, baseline = some b →
      ∀ a ∈ arrivals, b < stream.ft a.1 ∧ stream.ft a.1 < b + 2 ^ 31)
    (hseen : ∀ a ∈ arrivals, ∀ b ∈ seen,
      Near (stream.rdt b.1) (stream.rdt a.1) ∧ Near (stream.ft b.1) (stream.ft a.1))
    (hnear : stream.NearArrivals arrivals) :
    (s.handleRecords P config (arrivals.map fun a => (stream.record a.1, a.2))).2 = none ∧
      (s.handleRecords P config (arrivals.map fun a => (stream.record a.1, a.2))).1.map some =
        (runningMaxima (fun a : Arrival => stream.rdt a.1) seen arrivals).map
          fun a => scaleSample P configuration (stream.record a.1) a.2 := by
  induction arrivals generalizing seen s with
  | nil => simp [Impl.handleRecords, runningMaxima]
  | cons a rest ih =>
    obtain ⟨hfirst, hrest⟩ := List.pairwise_cons.mp hnear
    obtain ⟨hresult, htracked, hhanded⟩ := handleRecord_arrival (P := P) hpolicy hrate hcal hs a
      (fun b hb => hbase b hb a (by simp)) (hseen a (by simp))
    obtain ⟨hended, hsamples⟩ := ih htracked
      (fun b hb c hc => hbase b hb c (by simp [hc]))
      (by
        intro c hc b hb
        rcases List.mem_cons.mp hb with rfl | hb
        · exact hfirst c hc
        · exact hseen c (by simp [hc]) b hb)
      hrest
    simp only [List.map_cons, Impl.handleRecords, hresult]
    refine ⟨hended, ?_⟩
    rw [List.map_append, hsamples, hhanded, runningMaxima]
    split
    · obtain ⟨sample, hsample⟩ := Option.isSome_iff_exists.mp
        (scaleSample_isSome P hcal (stream.record a.1) a.2)
      simp [hsample]
    · simp

/-- **Delivery is exactly the running maxima.** For every arrival
sequence of near counters, from a freshly reset RDT tracker and an FT
baseline that precedes every arrival by less than `2^31` (any restart
candidate included), no record ends the session, and the samples handed
to the callback are, in order and once each, those of the records whose
RDT counter exceeds all earlier arrived ones. -/
theorem handleRecords_runningMaxima (P : Platform) (config : Config) (stream : SensorStream)
    (configuration : SensorConfiguration) (s : Impl) (arrivals : List Arrival)
    (hpolicy : config.recoveryPolicy = .reconnect)
    (hrate : config.sampleRateLimitHz.value = 0)
    (hconf : s.health.sensorConfiguration = some configuration)
    (hcal : validateCalibration configuration.calibration = .ok ())
    (hrdt : s.rdtSequence.hasLast = false)
    (hft : s.ftSequence.hasLast = true → ∃ b, s.ftSequence.previous = UInt32.ofNat b ∧
      ∀ a ∈ arrivals, b < stream.ft a.1 ∧ stream.ft a.1 < b + 2 ^ 31)
    (hnear : stream.NearArrivals arrivals) :
    (s.handleRecords P config (arrivals.map fun a => (stream.record a.1, a.2))).2 = none ∧
      (s.handleRecords P config (arrivals.map fun a => (stream.record a.1, a.2))).1.map some =
        (runningMaxima (fun a : Arrival => stream.rdt a.1) [] arrivals).map
          fun a => scaleSample P configuration (stream.record a.1) a.2 := by
  by_cases hl : s.ftSequence.hasLast = true
  · obtain ⟨b, hb, hbefore⟩ := hft hl
    have hs : Tracked stream configuration (some b) [] s :=
      ⟨Or.inl ⟨rfl, hrdt⟩, Or.inr ⟨hl, b, hb, Or.inl rfl⟩, hconf⟩
    refine handleRecords_tracked hpolicy hrate hcal hs ?_ (by simp) hnear
    rintro c ⟨⟩
    exact hbefore
  · have hs : Tracked stream configuration none [] s :=
      ⟨Or.inl ⟨rfl, hrdt⟩, Or.inl ⟨rfl, rfl, by simpa using hl⟩, hconf⟩
    exact handleRecords_tracked hpolicy hrate hcal hs (by simp) (by simp) hnear

end Session

/-- A stream whose counters start just below the wrap. -/
def wrappingStream : SensorStream where
  rdt n := 2 ^ 32 - 2 + n
  ft n := 2 ^ 32 - 2 + 2 * n
  wrench n _ := Int32.ofNat n
  rdt_strictMono := by intro a b h; simp only; omega
  ft_strictMono := by intro a b h; simp only; omega

/-- Across the wrap, with a loss, a duplicate and a late record: the
arrivals 0, 2, 2, 1, 4 deliver 0, 2, 4. -/
theorem handleRecords_across_wrap :
    let s : Impl := { health := { sensorConfiguration := some { calibration :=
      ⟨.finite 1, .finite 1, .newton, .newtonMeter⟩ } } }
    let arrivals : List Arrival := [(0, 1), (2, 2), (2, 3), (1, 4), (4, 5)]
    (s.handleRecords exactPlatform {}
        (arrivals.map fun a => (wrappingStream.record a.1, a.2))).2 = none ∧
      (s.handleRecords exactPlatform {}
          (arrivals.map fun a => (wrappingStream.record a.1, a.2))).1.map some =
        [(0, 1), (2, 2), (4, 5)].map fun a : Arrival =>
          scaleSample exactPlatform { calibration :=
            ⟨.finite 1, .finite 1, .newton, .newtonMeter⟩ } (wrappingStream.record a.1) a.2 := by
  intro s arrivals
  have hmaxima : [(0, 1), (2, 2), (4, 5)] =
      runningMaxima (fun a : Arrival => wrappingStream.rdt a.1) [] arrivals := by decide
  rw [hmaxima]
  exact handleRecords_runningMaxima exactPlatform {} wrappingStream _ s arrivals rfl rfl rfl
    (by decide +kernel) rfl (by intro h; cases h) (by
      simp only [SensorStream.NearArrivals, arrivals, wrappingStream, Near]
      decide)

end PyNetFT.Core
