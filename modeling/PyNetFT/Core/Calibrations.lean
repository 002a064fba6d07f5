/-
PyNetFT.Core.Calibrations — a configuration revision names one
calibration.

`apply_configuration` gives the revision: it stays when the calibration
is the one applied before and goes up by one when it is not, whatever
else of the configuration changed. Samples carry the revision of the
configuration they were scaled with, which the locked section of
`handle_record` copied some steps before the delivery.

The history keeps the applied configurations in order, what each receive
thread copied for the record it is handling, and the delivered samples.
The calibrations are validated when they are read, so no count is NaN
and the comparison of `same_calibration` is equality.
-/
import PyNetFT.Core.RunBooks
import Mathlib.Data.List.Chain

namespace PyNetFT.Core

open PyNetFT.Lib

/-! ## The history -/

structure CalibrationHistory where
  applied : List (Nat × Calibration) := []
  scaling : Nat → Option Calibration := fun _ => none
  delivered : List (Sample × Option Calibration) := []

/-- The revision and the calibration of a configuration. -/
def SensorConfiguration.stamp (configuration : SensorConfiguration) : Nat × Calibration :=
  (configuration.revision, configuration.calibration)

/-- A step of the receive thread `w` from `s` to `s'`. -/
def CalibrationHistory.atWorker (h : CalibrationHistory) (s s' : Shared) (w : Nat) :
    WorkerPc → CalibrationHistory
  | .applyConfiguration _ =>
      { h with
        applied :=
          h.applied ++ (s'.health.sensorConfiguration.map SensorConfiguration.stamp).toList }
  | .classify _ _ _ =>
      { h with
        scaling := Function.update h.scaling w (s.health.sensorConfiguration.map (·.calibration)) }
  | .delivered _ _ sample => { h with delivered := h.delivered ++ [(sample, h.scaling w)] }
  | _ => h

def CalibrationHistory.record (h : CalibrationHistory) (s : Sys) (l : Label) (s' : Sys) :
    CalibrationHistory :=
  match l with
  | .worker w _ => ((s.workers w).map fun t => h.atWorker s.shared s'.shared w t.pc).getD h
  | _ => h

/-- The client with that history. -/
def calibrationLts (P : Platform) (config : Config) : Lts (Sys × CalibrationHistory) Label :=
  (clientLts P config).recorded {} CalibrationHistory.record

/-! ## Stamps in order -/

/-- A stamp and a later one: revisions do not go down, and a revision has
one calibration. -/
def StampLe (a b : Nat × Calibration) : Prop := a.1 ≤ b.1 ∧ (a.1 = b.1 → a.2 = b.2)

instance : Trans StampLe StampLe StampLe where
  trans {a b c} hab hbc := by
    refine ⟨hab.1.trans hbc.1, fun heq => ?_⟩
    have h1 := hab.1
    have h2 := hbc.1
    exact (hab.2 (by omega)).trans (hbc.2 (by omega))

/-- Two stamps applied one right after the other. -/
def StampNext (a b : Nat × Calibration) : Prop := b.1 = if a.2 = b.2 then a.1 else a.1 + 1

theorem StampNext.le {a b : Nat × Calibration} (h : StampNext a b) : StampLe a b := by
  unfold StampNext at h
  split at h
  · rename_i heq
    exact ⟨h.ge, fun _ => heq⟩
  · refine ⟨by omega, fun heq => by omega⟩

theorem StampNext.ne_iff {a b : Nat × Calibration} (h : StampNext a b) : a.1 ≠ b.1 ↔ a.2 ≠ b.2 := by
  unfold StampNext at h
  split at h
  · rename_i heq
    simp [heq, h]
  · rename_i hne
    simp only [ne_eq, hne, not_false_eq_true, iff_true]
    omega

theorem stamps_pairwise {stamps : List (Nat × Calibration)} (h : stamps.IsChain StampNext) :
    stamps.Pairwise StampLe :=
  List.isChain_iff_pairwise.mp (h.imp fun _ _ => StampNext.le)

/-- In a chain of applied stamps a revision has one calibration. -/
theorem stamps_unique {stamps : List (Nat × Calibration)} (h : stamps.IsChain StampNext)
    {a b : Nat × Calibration} (ha : a ∈ stamps) (hb : b ∈ stamps) (heq : a.1 = b.1) :
    a.2 = b.2 := by
  have hsymm : Std.Symm fun a b : Nat × Calibration => a.1 = b.1 → a.2 = b.2 :=
    ⟨fun _ _ h heq => (h heq.symm).symm⟩
  have hall : stamps.Pairwise fun a b => a.1 = b.1 → a.2 = b.2 :=
    (stamps_pairwise h).imp fun hle => hle.2
  exact hall.forall_of_forall (fun _ _ _ => rfl) ha hb heq

theorem sameCalibration_iff (left right : Calibration) :
    sameCalibration left right = true ↔ left = right := by
  cases left
  cases right
  simp [sameCalibration, and_assoc]

/-- What `apply_configuration` leaves. -/
theorem applyConfiguration_stamp (impl : Impl) (configuration : SensorConfiguration) :
    ∃ applied, (impl.applyConfiguration configuration).health.sensorConfiguration = some applied ∧
      applied.calibration = configuration.calibration ∧
      (∀ previous, impl.health.sensorConfiguration = some previous →
        StampNext previous.stamp applied.stamp ∧
        (previous.revision = impl.health.calibrationChangeCount + 1 →
          applied.revision =
            (impl.applyConfiguration configuration).health.calibrationChangeCount + 1)) ∧
      (impl.health.sensorConfiguration = none → applied.revision = 1 ∧
        (impl.applyConfiguration configuration).health.calibrationChangeCount
          = impl.health.calibrationChangeCount) := by
  unfold Impl.applyConfiguration
  split
  · rename_i hnone
    refine ⟨_, rfl, rfl, ?_, fun _ => ⟨rfl, rfl⟩⟩
    intro previous hprevious
    rw [hnone] at hprevious
    cases hprevious
  · rename_i previous hprevious
    split
    · rename_i hsame
      refine ⟨_, rfl, rfl, ?_, fun hnone => by rw [hprevious] at hnone; cases hnone⟩
      intro p hp
      obtain rfl : previous = p := Option.some.inj (hprevious.symm.trans hp)
      refine ⟨?_, fun hrev => hrev⟩
      simp [StampNext, SensorConfiguration.stamp, (sameCalibration_iff _ _).mp hsame]
    · rename_i hdiff
      refine ⟨_, rfl, rfl, ?_, fun hnone => by rw [hprevious] at hnone; cases hnone⟩
      intro p hp
      obtain rfl : previous = p := Option.some.inj (hprevious.symm.trans hp)
      have hne : previous.calibration ≠ configuration.calibration :=
        fun heq => hdiff ((sameCalibration_iff _ _).mpr heq)
      refine ⟨?_, fun hrev => ?_⟩
      · simp [StampNext, SensorConfiguration.stamp, hne]
      · simp [hrev]

/-! ## The sample a thread has in hand -/

/-- The sample between the locked section and the delivery. -/
def WorkerPc.sample? : WorkerPc → Option Sample
  | .callback _ _ sample | .delivered _ _ sample => some sample
  | _ => none

/-- A sample was scaled with a calibration and carries its units. -/
structure ScaledWith (P : Platform) (sample : Sample) (stamp : Nat × Calibration) : Prop where
  revision : sample.configurationRevision = stamp.1
  forceUnit : sample.forceUnit = stamp.2.forceUnit
  torqueUnit : sample.torqueUnit = stamp.2.torqueUnit
  scaled : ∃ configuration record receivedAt, configuration.calibration = stamp.2 ∧
    scaleSample P configuration record receivedAt = some sample

theorem scaleSample_scaledWith {P : Platform} {configuration : SensorConfiguration}
    {record : RawRecord} {receivedAt : TimePoint} {sample : Sample}
    (h : scaleSample P configuration record receivedAt = some sample) :
    ScaledWith P sample configuration.stamp := by
  have hscaled : ∃ c r t, c.calibration = configuration.stamp.2 ∧
      scaleSample P c r t = some sample := ⟨configuration, record, receivedAt, rfl, h⟩
  unfold scaleSample at h
  dsimp only at h
  split at h
  · cases h
    exact ⟨rfl, rfl, rfl, hscaled⟩
  · cases h

section Worker

variable {P : Platform} {config : Config} {w : Nat} {choice : WorkerChoice} {s s' : Shared}

theorem recordReturned_sample (rx : Reception) (outcome : Option SessionResult) :
    (recordReturned rx outcome).sample? = none := by
  cases outcome <;> rfl

theorem recordStep_sample {pc pc' : WorkerPc} {sample : Sample} (hpart : pc.part = .record)
    (h : recordStep P config w choice s pc = some (pc', s')) (hs : pc'.sample? = some sample) :
    (∃ rx outcome, pc = .callback rx outcome sample) ∨
      ∃ rx record receivedAt configuration, pc = .classify rx record receivedAt ∧
        s.health.sensorConfiguration = some configuration ∧
        scaleSample P configuration record receivedAt = some sample := by
  cases pc <;> cases hpart <;> dsimp only [recordStep] at h
  case classify rx record receivedAt =>
    refine .inr ⟨rx, record, receivedAt, ?_⟩
    rcases hclass : s.toImpl.classifyRecord config record receivedAt with ⟨impl, result⟩
    rw [hclass] at h
    cases result with
    | error message =>
      cases h
      cases hs
    | ok decision =>
      dsimp only at h
      cases hconf : s.health.sensorConfiguration with
      | none =>
        simp only [Impl.classifyRecord, hconf] at hclass
        cases hclass
      | some configuration =>
        obtain ⟨_, decision', hclass', -, -, -, hdconf, -⟩ :=
          classifyRecord_ok config hconf record receivedAt
        rw [hclass] at hclass'
        obtain rfl : decision = decision' := by
          cases hclass'
          rfl
        split at h
        · cases h
          rw [recordReturned_sample] at hs
          cases hs
        · split at h
          · cases h
            rw [recordReturned_sample] at hs
            cases hs
          · rename_i scaled hscaled
            refine ⟨configuration, rfl, rfl, ?_⟩
            rw [← hdconf, hscaled]
            split at h
            all_goals
              cases h
              exact hs
  case callback rx outcome handed =>
    split at h
    all_goals cases h
    · cases hs
      exact .inl ⟨rx, outcome, rfl⟩
    · cases hs
  case callbackFailed rx outcome message =>
    cases h
    rw [recordReturned_sample] at hs
    cases hs
  case delivered rx outcome handed =>
    cases h
    rw [recordReturned_sample] at hs
    cases hs

/-- Where the sample in hand comes from: the locked section just scaled
it, or the callback just returned. -/
theorem workerStep_sample {t t' : Worker} {sample : Sample}
    (h : workerStep P config w choice t s = some (t', s')) (hs : t'.pc.sample? = some sample) :
    (∃ rx outcome, t.pc = .callback rx outcome sample) ∨
      ∃ rx record receivedAt configuration, t.pc = .classify rx record receivedAt ∧
        s.health.sensorConfiguration = some configuration ∧
        scaleSample P configuration record receivedAt = some sample := by
  obtain ⟨pc, backoff, nested⟩ := t
  cases (workerStep_parts h).2 with
  | run hpart hr =>
    cases pc <;> cases hpart <;> dsimp only [runStep] at hr <;> (repeat' split at hr) <;>
      cases hr <;> cases hs
  | connect hpart hr =>
    cases pc <;> cases hpart <;> dsimp only [connectStep] at hr <;> (repeat' split at hr) <;>
      cases hr <;> cases hs
  | configure hpart hr =>
    cases pc <;> cases hpart <;> dsimp only [configureStep] at hr <;> (repeat' split at hr) <;>
      cases hr <;> cases hs
  | transport hpart hr =>
    cases pc <;> cases hpart <;> dsimp only [transportStep] at hr <;> (repeat' split at hr) <;>
      cases hr <;> cases hs
  | receive hpart hr =>
    cases pc <;> cases hpart <;> dsimp only [receiveStep] at hr <;> (repeat' split at hr) <;>
      cases hr <;> cases hs
  | record hpart hr =>
    exact recordStep_sample hpart hr hs

end Worker

/-! ## The invariant -/

structure CalibrationWf (P : Platform) (s : Sys) (h : CalibrationHistory) : Prop where
  current : s.shared.health.sensorConfiguration.map SensorConfiguration.stamp
    = h.applied.getLast?
  revision : ∀ configuration, s.shared.health.sensorConfiguration = some configuration →
    configuration.revision = s.shared.health.calibrationChangeCount + 1
  unconfigured : s.shared.health.sensorConfiguration = none →
    s.shared.health.calibrationChangeCount = 0
  chain : h.applied.IsChain StampNext
  saved : ∀ c call d, s.calls c = some call → call.pc.data? = some d →
    d.books.configuration = s.shared.books.configuration ∧
      d.books.changes = s.shared.books.changes
  inHand : ∀ w t sample, s.workers w = some t → t.pc.sample? = some sample →
    ∃ configuration, s.shared.health.sensorConfiguration = some configuration ∧
      h.scaling w = some configuration.calibration ∧ ScaledWith P sample configuration.stamp
  delivered : ∀ x ∈ h.delivered, ∃ stamp ∈ h.applied, x.2 = some stamp.2 ∧
    ScaledWith P x.1 stamp
  ordered : (h.delivered.map (·.1.configurationRevision)).Pairwise (· ≤ ·)

/-- The last of the applied stamps has the highest revision. -/
theorem stamp_le_last {stamps : List (Nat × Calibration)} (h : stamps.IsChain StampNext)
    {a b : Nat × Calibration} (ha : a ∈ stamps) (hb : b ∈ stamps.getLast?) : a.1 ≤ b.1 := by
  rcases List.eq_nil_or_concat stamps with rfl | ⟨front, last, rfl⟩
  · cases ha
  rw [List.concat_eq_append] at h ha hb
  obtain rfl : last = b := by simpa using hb
  rcases List.mem_append.mp ha with hfront | hlast
  · exact ((List.pairwise_append.mp (stamps_pairwise h)).2.2 a hfront last (by simp)).1
  · rw [List.mem_singleton.mp hlast]

section System

variable {P : Platform} {config : Config} {s s' : Sys} {h : CalibrationHistory}

/-- A step that applies no configuration. -/
theorem CalibrationWf.keep (hw : CalibrationWf P s h) {h' : CalibrationHistory}
    (hconf : s'.shared.books.configuration = s.shared.books.configuration)
    (hchanges : s'.shared.books.changes = s.shared.books.changes)
    (happlied : h'.applied = h.applied)
    (hsaved : ∀ c call d, s'.calls c = some call → call.pc.data? = some d →
      d.books.configuration = s.shared.books.configuration ∧
        d.books.changes = s.shared.books.changes)
    (hhand : ∀ w t sample, s'.workers w = some t → t.pc.sample? = some sample →
      ∃ configuration, s.shared.health.sensorConfiguration = some configuration ∧
        h'.scaling w = some configuration.calibration ∧ ScaledWith P sample configuration.stamp)
    (hdelivered : ∀ x ∈ h'.delivered, ∃ stamp ∈ h.applied, x.2 = some stamp.2 ∧
      ScaledWith P x.1 stamp)
    (hordered : (h'.delivered.map (·.1.configurationRevision)).Pairwise (· ≤ ·)) :
    CalibrationWf P s' h' := by
  have hconf' : s'.shared.health.sensorConfiguration = s.shared.health.sensorConfiguration := hconf
  have hchanges' : s'.shared.health.calibrationChangeCount
      = s.shared.health.calibrationChangeCount := hchanges
  refine ⟨?_, ?_, ?_, ?_, ?_, ?_, ?_, hordered⟩
  · rw [hconf', happlied]
    exact hw.current
  · rw [hconf', hchanges']
    exact hw.revision
  · rw [hconf', hchanges']
    exact hw.unconfigured
  · rw [happlied]
    exact hw.chain
  · rw [hconf, hchanges]
    exact hsaved
  · rw [hconf']
    exact hhand
  · rw [happlied]
    exact hdelivered

/-- The same books and threads with no sample that is new. -/
theorem CalibrationWf.frame (hw : CalibrationWf P s h)
    (hconf : s'.shared.books.configuration = s.shared.books.configuration)
    (hchanges : s'.shared.books.changes = s.shared.books.changes)
    (hsaved : ∀ c call d, s'.calls c = some call → call.pc.data? = some d →
      d.books.configuration = s.shared.books.configuration ∧
        d.books.changes = s.shared.books.changes)
    (hthreads : ∀ w t sample, s'.workers w = some t → t.pc.sample? = some sample →
      ∃ u, s.workers w = some u ∧ u.pc.sample? = some sample) :
    CalibrationWf P s' h := by
  refine hw.keep hconf hchanges rfl hsaved ?_ hw.delivered hw.ordered
  intro w t sample ht hs
  obtain ⟨u, hu, hus⟩ := hthreads w t sample ht hs
  exact hw.inHand w u sample hu hus

theorem CalibrationWf.callMove (hw : CalibrationWf P s h) {c : Nat} {call : Call} {pc' : CallPc}
    (hc : s.calls c = some call) (hmove : CallMove config c call.caller s call.pc pc' s') :
    CalibrationWf P (s'.setCall c (some { call with pc := pc' })) h := by
  have hbooks := hmove.books
  obtain ⟨hconf, hchanges⟩ : s'.shared.books.configuration = s.shared.books.configuration ∧
      s'.shared.books.changes = s.shared.books.changes := by
    rw [hbooks]
    have hsaved := hw.saved c call
    obtain ⟨caller, op, pc⟩ := call
    cases pc <;> first | exact ⟨rfl, rfl⟩ | exact hsaved _ hc rfl
  refine hw.frame hconf hchanges ?_ ?_
  · intro j call' d hj hd
    rcases Sys.setCall_cases hj with ⟨rfl, heq⟩ | ⟨-, hj⟩
    · cases heq
      rcases hmove.data_of hd with hold | rfl
      · exact hw.saved _ call d hc hold
      · exact ⟨rfl, rfl⟩
    · exact hw.saved j call' d (callMove_calls hmove ▸ hj) hd
  · intro w t sample ht hs
    rcases hmove.thread_of ht with hold | hnew
    · exact ⟨t, hold, hs⟩
    · rw [hnew] at hs
      cases hs

/-- While a thread takes steps, no `start` has anything saved. -/
theorem Sys.Wf.no_data_of_running (hwf : s.Wf) {w : Nat} {t : Worker} (ht : s.workers w = some t)
    (hrun : t.pc.phase ≠ .done) {c : Nat} {call : Call} (hc : s.calls c = some call) :
    call.pc.data? = none := by
  refine (CallPc.no_data_of_resets ?_).2
  by_contra hne
  have hidle := hwf.inactive_of_resets hc (by simpa using hne)
  rw [hwf.active_of_running ht hrun] at hidle
  cases hidle

/-- The sample in hand behind a step of `w` is the one `w` has. -/
theorem Sys.Wf.sample_of_setWorker (hwf : s.Wf) {w : Nat} {t t' : Worker} {shared' : Shared}
    (ht : s.workers w = some t) (hrun : t.pc.phase ≠ .done) {v : Nat} {u : Worker}
    {sample : Sample} (hu : ((s.withShared shared').setWorker w t').workers v = some u)
    (hs : u.pc.sample? = some sample) : v = w ∧ u = t' := by
  by_cases hv : v = w
  · subst hv
    simp only [Sys.setWorker, Function.update_self, Option.some.injEq] at hu
    exact ⟨rfl, hu.symm⟩
  · have hu' : s.workers v = some u := by simpa [Sys.setWorker, Sys.withShared, hv] using hu
    have hother : s.shared.activeWorkerId ≠ some v := by
      rw [hwf.active_of_running ht hrun]
      exact fun heq => hv (Option.some.inj heq).symm
    rw [hwf.workers.others v u hu' hother] at hs
    cases hs

/-- `apply_configuration` puts one more stamp behind the others. -/
theorem CalibrationWf.apply (hw : CalibrationWf P s h) {configuration : SensorConfiguration}
    (hbooks : s'.shared.books = (WorkerPc.applyConfiguration configuration).writes s.shared)
    (hsaved : ∀ c call, s'.calls c = some call → call.pc.data? = none)
    (hhand : ∀ w t, s'.workers w = some t → t.pc.sample? = none) (w : Nat) :
    CalibrationWf P s' (h.atWorker s.shared s'.shared w (.applyConfiguration configuration)) := by
  obtain ⟨applied, happlied, -, hnext, hfirst⟩ :=
    applyConfiguration_stamp s.shared.toImpl configuration
  have hconf : s'.shared.health.sensorConfiguration = some applied :=
    (congrArg RunBooks.configuration hbooks).trans happlied
  have hchanges : s'.shared.health.calibrationChangeCount
      = (s.shared.toImpl.applyConfiguration configuration).health.calibrationChangeCount :=
    congrArg RunBooks.changes hbooks
  have hgrown : (h.atWorker s.shared s'.shared w (.applyConfiguration configuration)).applied
      = h.applied ++ [applied.stamp] := by
    simp [CalibrationHistory.atWorker, hconf]
  refine ⟨?_, ?_, ?_, ?_, ?_, ?_, ?_, hw.ordered⟩
  · rw [hgrown, hconf]
    simp
  · intro c hc
    obtain rfl : applied = c := Option.some.inj (hconf.symm.trans hc)
    rw [hchanges]
    cases hprev : s.shared.health.sensorConfiguration with
    | none =>
      obtain ⟨hone, hsame⟩ := hfirst hprev
      rw [hone, hsame, hw.unconfigured hprev]
    | some previous => exact (hnext previous hprev).2 (hw.revision previous hprev)
  · intro hnone
    rw [hconf] at hnone
    cases hnone
  · rw [hgrown]
    refine hw.chain.append (List.isChain_singleton _) ?_
    intro last hlast first hfirst'
    obtain rfl : applied.stamp = first := by simpa using hfirst'
    rw [← hw.current] at hlast
    obtain ⟨previous, hprev, rfl⟩ := Option.map_eq_some_iff.mp hlast
    exact (hnext previous hprev).1
  · intro c call d hc hd
    rw [hsaved c call hc] at hd
    cases hd
  · intro v t sample ht hs
    rw [hhand v t ht] at hs
    cases hs
  · intro x hx
    obtain ⟨stamp, hmem, hx'⟩ := hw.delivered x hx
    exact ⟨stamp, hgrown ▸ List.mem_append_left _ hmem, hx'⟩

/-- A delivery: the sample carries the last revision. -/
theorem CalibrationWf.deliver (hw : CalibrationWf P s h) {w : Nat} {t : Worker} {rx : Reception}
    {outcome : Option SessionResult} {sample : Sample} (ht : s.workers w = some t)
    (hpc : t.pc = .delivered rx outcome sample) :
    (∀ x ∈ h.delivered ++ [(sample, h.scaling w)], ∃ stamp ∈ h.applied, x.2 = some stamp.2 ∧
      ScaledWith P x.1 stamp) ∧
    ((h.delivered ++ [(sample, h.scaling w)]).map (·.1.configurationRevision)).Pairwise
      (· ≤ ·) := by
  obtain ⟨configuration, hconf, hscaling, hscaled⟩ :=
    hw.inHand w t sample ht (by rw [hpc]; rfl)
  have hlast : configuration.stamp ∈ h.applied.getLast? := by
    rw [← hw.current, hconf]
    rfl
  constructor
  · intro x hx
    rcases List.mem_append.mp hx with hold | hnew
    · exact hw.delivered x hold
    · rw [List.mem_singleton.mp hnew]
      exact ⟨configuration.stamp, List.mem_of_getLast? hlast, hscaling, hscaled⟩
  · rw [List.map_append]
    refine List.pairwise_append.mpr ⟨hw.ordered, List.pairwise_singleton _ _, ?_⟩
    intro a ha b hb
    obtain ⟨x, hx, rfl⟩ := List.mem_map.mp ha
    obtain ⟨stamp, hmem, -, hold⟩ := hw.delivered x hx
    obtain rfl : b = sample.configurationRevision := by simpa using hb
    rw [hold.revision, hscaled.revision]
    exact stamp_le_last hw.chain hmem hlast

theorem CalibrationWf.workerMove (hw : CalibrationWf P s h) (hwf : s.Wf) {w : Nat} {t t' : Worker}
    {choice : WorkerChoice} {shared' : Shared} (ht : s.workers w = some t)
    (hstep : workerStep P config w choice t s.shared = some (t', shared'))
    (hmove : WorkerMove t s.shared t' shared') :
    CalibrationWf P ((s.withShared shared').setWorker w t')
      (h.atWorker s.shared shared' w t.pc) := by
  have hrun := hmove.lifecycle.1
  have hbooks := workerStep_books hstep
  have hnodata : ∀ c call, s.calls c = some call → call.pc.data? = none :=
    fun c call hc => hwf.no_data_of_running ht hrun hc
  have hsaved : ∀ c call d, ((s.withShared shared').setWorker w t').calls c = some call →
      call.pc.data? = some d → d.books.configuration = s.shared.books.configuration ∧
        d.books.changes = s.shared.books.changes := by
    intro c call d hc hd
    rw [hnodata c call hc] at hd
    cases hd
  cases hpc : t.pc
  case applyConfiguration configuration =>
    have hbooks' : ((s.withShared shared').setWorker w t').shared.books
        = (WorkerPc.applyConfiguration configuration).writes s.shared := hpc ▸ hbooks
    refine hw.apply hbooks' hnodata ?_ w
    intro v u hu
    by_contra hne
    obtain ⟨sample, hs⟩ := Option.ne_none_iff_exists'.mp hne
    obtain ⟨-, rfl⟩ := hwf.sample_of_setWorker ht hrun hu hs
    rcases workerStep_sample hstep hs with ⟨_, _, hcall⟩ | ⟨_, _, _, _, hclass, -⟩
    · rw [hpc] at hcall
      cases hcall
    · rw [hpc] at hclass
      cases hclass
  case classify rx record receivedAt =>
    rw [hpc] at hbooks
    refine hw.keep (congrArg RunBooks.configuration hbooks) (congrArg RunBooks.changes hbooks)
      rfl hsaved ?_ hw.delivered hw.ordered
    intro v u sample hu hs
    obtain ⟨rfl, rfl⟩ := hwf.sample_of_setWorker ht hrun hu hs
    rcases workerStep_sample hstep hs with ⟨_, _, hcall⟩ | ⟨_, _, _, c, -, hconf, hscale⟩
    · rw [hpc] at hcall
      cases hcall
    · refine ⟨c, hconf, ?_, scaleSample_scaledWith hscale⟩
      simp [CalibrationHistory.atWorker, hconf]
  case delivered rx outcome sample =>
    rw [hpc] at hbooks
    have hconf : shared'.books.configuration = s.shared.books.configuration := by
      rw [hbooks]
      rfl
    have hchanges : shared'.books.changes = s.shared.books.changes := by
      rw [hbooks]
      rfl
    obtain ⟨hdelivered, hordered⟩ := hw.deliver ht hpc
    refine hw.keep hconf hchanges rfl hsaved ?_ hdelivered hordered
    intro v u sample' hu hs
    obtain ⟨rfl, rfl⟩ := hwf.sample_of_setWorker ht hrun hu hs
    rcases workerStep_sample hstep hs with ⟨_, _, hcall⟩ | ⟨_, _, _, _, hclass, -⟩
    · rw [hpc] at hcall
      cases hcall
    · rw [hpc] at hclass
      cases hclass
  all_goals
    rw [hpc] at hbooks
    refine hw.frame (congrArg RunBooks.configuration hbooks) (congrArg RunBooks.changes hbooks)
      hsaved ?_
    intro v u sample hu hs
    obtain ⟨rfl, rfl⟩ := hwf.sample_of_setWorker ht hrun hu hs
    rcases workerStep_sample hstep hs with ⟨_, _, hcall⟩ | ⟨_, _, _, _, hclass, -⟩
    · exact ⟨t, ht, by rw [hcall]; rfl⟩
    · rw [hpc] at hclass
      cases hclass

theorem CalibrationWf.step (hw : CalibrationWf P s h) (hwf : s.Wf) {l : Label}
    (hstep : s.step P config l = some s') : CalibrationWf P s' (h.record s l s') := by
  cases Sys.step_move hstep with
  | tick ticks => exact hw.frame rfl rfl hw.saved (fun w t sample ht hs => ⟨t, ht, hs⟩)
  | places label places =>
    have hhistory : h.record s l s' = h := by
      rcases label with ⟨c, caller, op, rfl⟩ | ⟨c, rfl⟩ <;> rfl
    rw [hhistory]
    refine hw.frame (by rw [places.shared]) (by rw [places.shared]) ?_ ?_
    · intro c call d hc hd
      rcases Sys.calls_new label hstep hc with hold | ⟨op, hentry⟩
      · exact hw.saved c call d hold hd
      · rw [hentry] at hd
        cases op <;> cases hd
    · intro w t sample ht hs
      obtain ⟨u, hu, hpc, -⟩ := places.thread_backoff ht
      exact ⟨u, hu, hpc ▸ hs⟩
  | call choice hc hcall hmove => exact hw.callMove hc hmove
  | @worker w t t' shared' choice ht hworker hmove =>
    have hhistory : h.record s (.worker w choice) ((s.withShared shared').setWorker w t')
        = h.atWorker s.shared shared' w t.pc := by
      simp only [CalibrationHistory.record, ht]
      rfl
    rw [hhistory]
    exact hw.workerMove hwf ht hworker hmove

theorem calibrationWf_of_reachable (hr : (calibrationLts P config).Reachable (s, h)) :
    CalibrationWf P s h := by
  refine Lts.Reach.recorded_invariant (I := CalibrationWf P) ?_ ?_ hr
  · rintro s ⟨now, -, rfl⟩
    refine ⟨rfl, ?_, fun _ => rfl, .nil, ?_, ?_, ?_, .nil⟩
    · intro configuration hnone
      cases hnone
    · intro c call d hc
      cases hc
    · intro w t sample ht
      cases ht
    · intro x hx
      cases hx
  · intro s h l s' _ hs hstep hw
    exact hw.step (wf_of_reachable hs) hstep

end System

/-! ## A revision names one calibration -/

/-- Whatever is started, stopped, lost and discovered: a configuration's
revision is one more than the number of changes, delivered samples come
with revisions that do not go down, samples of one revision were scaled
with one calibration and carry its units, and of two configurations
applied one behind the other the revisions differ exactly when the
calibrations do. -/
theorem revision_identifies_calibration (P : Platform) (config : Config) {s : Sys}
    {h : CalibrationHistory} (hr : (calibrationLts P config).Reachable (s, h)) :
    (∀ configuration, s.shared.health.sensorConfiguration = some configuration →
      configuration.revision = s.shared.health.calibrationChangeCount + 1) ∧
    (h.delivered.map (·.1.configurationRevision)).Pairwise (· ≤ ·) ∧
    (∀ x ∈ h.delivered, ∀ y ∈ h.delivered,
      x.1.configurationRevision = y.1.configurationRevision →
      ∃ calibration, x.2 = some calibration ∧ y.2 = some calibration ∧
        ScaledWith P x.1 (x.1.configurationRevision, calibration) ∧
        ScaledWith P y.1 (y.1.configurationRevision, calibration)) ∧
    (∀ front a b back, h.applied = front ++ a :: b :: back → (a.1 ≠ b.1 ↔ a.2 ≠ b.2)) := by
  have hw := calibrationWf_of_reachable hr
  refine ⟨hw.revision, hw.ordered, ?_, ?_⟩
  · intro x hx y hy heq
    obtain ⟨a, ha, hxa, hsx⟩ := hw.delivered x hx
    obtain ⟨b, hb, hyb, hsy⟩ := hw.delivered y hy
    have hab : a.2 = b.2 := by
      refine stamps_unique hw.chain ha hb ?_
      rw [← hsx.revision, ← hsy.revision, heq]
    refine ⟨a.2, hxa, hyb.trans (congrArg some hab.symm), ?_, ?_⟩
    · rw [hsx.revision]
      exact hsx
    · rw [hsy.revision, hab]
      exact hsy
  · intro front a b back happlied
    have hchain := hw.chain
    rw [happlied] at hchain
    exact (List.isChain_cons_cons.mp hchain.right_of_append).1.ne_iff

/-! ## A sensor that is recalibrated -/

/-- A platform that reads numbers of one digit. -/
def digitPlatform : Platform :=
  { exactPlatform with
    extractDouble := fun text =>
      match text with
      | [digit] =>
          if 0x30 ≤ digit ∧ digit ≤ 0x39 then some (.finite ((digit - 0x30).toNat : ℚ), [])
            else none
      | _ => none }

/-- What a sensor with these counts answers. -/
def discovered (counts : String) : Transfer :=
  let body := ascii ("<netft><cfgcpf>" ++ counts ++ "</cfgcpf><cfgcpt>" ++ counts ++
    "</cfgcpt><scfgfu>N</scfgfu><scfgtu>Nm</scfgtu></netft>")
  .completed 200 [⟨1, body.length, body⟩]

/-- A session up to its receive loop. -/
def discoveringSession (counts : String) : List Label :=
  [.worker 0 .go, .worker 0 .go, .worker 0 .go, .worker 0 (.http (discovered counts)),
   .worker 0 .go, .worker 0 .go, .worker 0 (.connect none), .worker 0 (.send .sent),
   .worker 0 .go, .worker 0 .go]

/-- A record, up to the end of its delivery. -/
def deliveredRecord (number : UInt8) : List Label :=
  [.worker 0 .go, .worker 0 .go, .worker 0 .go, .worker 0 (.poll (.ready false)), .worker 0 .go,
   .worker 0 (.recv (.datagram ([0, 0, 0, number, 0, 0, 0, number] ++ List.replicate 28 0))),
   .worker 0 .go, .worker 0 .go, .worker 0 .go, .worker 0 .callbackReturns, .worker 0 .go]

/-- Two records; the socket fails; the sensor comes back with other
counts, and a third record. -/
def recalibratedRun : List Label :=
  [.invoke 0 none (.start (some 7)), .call 0 .go, .call 0 .go, .call 0 .go, .call 0 .go] ++
  discoveringSession "1" ++ deliveredRecord 1 ++ deliveredRecord 2 ++
  [.worker 0 .go, .worker 0 .go, .worker 0 .go, .worker 0 (.poll (.failed "")), .worker 0 .go,
   .worker 0 (.send .sent), .worker 0 .go, .worker 0 .go, .worker 0 .go, .tick 250000000,
   .worker 0 .go] ++
  discoveringSession "2" ++ deliveredRecord 3

/-- Two samples of one revision and one calibration, a third of the next
revision, and two calibrations. -/
theorem revision_identifies_recalibration :
    ∃ s h x y z a b, (calibrationLts digitPlatform {}).Reachable (s, h) ∧
      h.delivered = [x, y, z] ∧ x.1 ≠ y.1 ∧ y.1.configurationRevision < z.1.configurationRevision ∧
      h.applied = [a, b] ∧ a.2 ≠ b.2 ∧
      ∃ calibration, x.2 = some calibration ∧ y.2 = some calibration ∧
        ScaledWith digitPlatform x.1 (x.1.configurationRevision, calibration) ∧
        ScaledWith digitPlatform y.1 (y.1.configurationRevision, calibration) := by
  have hinit : (calibrationLts digitPlatform {}).Reachable (Sys.new {} 1000, {}) :=
    Lts.Reachable.init ⟨⟨1000, by decide +kernel, rfl⟩, rfl⟩
  obtain ⟨⟨s, h⟩, hs, hp⟩ := Lts.exists_of_exec (l := recalibratedRun)
    (p := fun q : Sys × CalibrationHistory => match q.2.delivered, q.2.applied with
      | [x, y, z], [a, b] => decide (x.1 ≠ y.1 ∧ a.1 ≠ b.1 ∧
          [x, y, z].map (·.1.configurationRevision) = [1, 1, 2])
      | _, _ => false)
    hinit (by decide +kernel)
  dsimp only at hp
  split at hp
  · rename_i x y z a b hdelivered happlied
    obtain ⟨hne, hstamps, hrevisions⟩ := of_decide_eq_true hp
    simp only [List.map_cons, List.map_nil, List.cons.injEq, and_true] at hrevisions
    obtain ⟨hx, hy, hz⟩ := hrevisions
    obtain ⟨-, -, hsame, hnext⟩ := revision_identifies_calibration digitPlatform {} hs
    refine ⟨s, h, x, y, z, a, b, hs, hdelivered, hne, by omega, happlied,
      (hnext [] a b [] happlied).mp hstamps, ?_⟩
    exact hsame x (by simp [hdelivered]) y (by simp [hdelivered]) (hx.trans hy.symm)
  · cases hp

end PyNetFT.Core
