/-
PyNetFT.Core.RateLimit — the sample rate limit is a greedy thinning.

A record that could be delivered is kept back exactly if it lies less
than a period after the last successful delivery of its run. The decision
is taken in the locked section of `handle_record` and the reference is
written behind the callback, but no other record and no `start` comes
between the two, so the delivered samples of a run are a period apart.

`0` is "none" for `last_delivery_at_`, so the runs are those in which no
record is received at the clock's epoch.
-/
import PyNetFT.Core.Records
import PyNetFT.Core.Validated

namespace PyNetFT.Core

open PyNetFT.Lib

/-! ## The period -/

/-- `1.0 / sample_rate_limit_hz`, as an exact number of seconds. -/
def Config.period (config : Config) : ℚ := 1 / config.sampleRateLimitHz.value

/-- At least a period passes from the first time to the second. -/
def Config.Apart (config : Config) (a b : TimePoint) : Prop :=
  config.period ≤ ((b : ℚ) - a) / ticksPerSecond

/-- Less than a period after the last delivery of the run. -/
def RunRecords.TooSoon (config : Config) (r : RunRecords) (receivedAt : TimePoint) : Prop :=
  ∃ last, r.delivered.getLast? = some last ∧ ¬ config.Apart last receivedAt

/-- The time is not read at the epoch of the clock. -/
def OffEpoch (p : Sys × RecordHistory) (l : Label) : Prop :=
  ∀ w choice t rx record, l = .worker w choice → p.1.workers w = some t →
    t.pc = .validRecord rx record → p.1.shared.clock ≠ 0

/-- The rate limit of the source, read off the deliveries of the run. -/
theorem rateLimited_iff {config : Config} (hrate : 0 < config.sampleRateLimitHz.value)
    {r : RunRecords} (hpresent : ∀ t ∈ r.delivered, t ≠ 0) (receivedAt : TimePoint) :
    rateLimited config r.lastDelivery receivedAt = true ↔ r.TooSoon config receivedAt := by
  cases hlast : r.delivered.getLast? with
  | none =>
    have hnone : r.lastDelivery = 0 := by rw [RunRecords.lastDelivery, hlast, Option.getD_none]
    simp [rateLimited, RunRecords.TooSoon, hnone, hlast]
  | some last =>
    have hsome : r.lastDelivery = last := by rw [RunRecords.lastDelivery, hlast, Option.getD_some]
    have hne : last ≠ 0 := hpresent last (List.mem_of_getLast? hlast)
    simp [rateLimited, RunRecords.TooSoon, Config.Apart, Config.period, hsome, hlast, hne, hrate]

/-- In an ordered run, a period from the last delivery is a period from
all of them. -/
theorem apart_of_not_tooSoon {config : Config} {r : RunRecords} {receivedAt : TimePoint}
    (hordered : r.delivered.Pairwise (· ≤ ·)) (h : ¬ r.TooSoon config receivedAt) :
    ∀ t ∈ r.delivered, config.Apart t receivedAt := by
  intro t ht
  obtain ⟨init, last, hsplit⟩ :=
    (List.eq_nil_or_concat r.delivered).resolve_left (List.ne_nil_of_mem ht)
  rw [List.concat_eq_append] at hsplit
  have hlast : config.Apart last receivedAt := by
    by_contra hnot
    exact h ⟨last, by rw [hsplit]; simp, hnot⟩
  have hle : t ≤ last := by
    rw [hsplit] at ht hordered
    rcases List.mem_append.mp ht with hin | heq
    · exact (List.pairwise_append.mp hordered).2.2 t hin last (by simp)
    · exact (List.mem_singleton.mp heq).le
  have hcast : (t : ℚ) ≤ last := by exact_mod_cast hle
  refine hlast.trans ?_
  exact div_le_div_of_nonneg_right (sub_le_sub_left hcast _) (by positivity)

/-! ## The decision -/

/-- The record passes the sequence, FT-progress and status conditions. -/
def Impl.passes (config : Config) (s : Impl) (record : RawRecord) : Bool :=
  eligible config (s.rdtSequence.observe record.rdtSequence).1.kind
    (s.ftSequence.observe record.ftSequence).1 (classifyStatus record.status)

/-- What the locked section decides, and what it counts. -/
theorem classifyRecord_limit {config : Config} {impl impl' : Impl} {record : RawRecord}
    {receivedAt : TimePoint} {decision : RecordDecision}
    (hclass : impl.classifyRecord config record receivedAt = (impl', .ok decision)) :
    decision.deliver = (impl.passes config record &&
        !rateLimited config impl.lastDeliveryAt receivedAt) ∧
      impl'.health.rateLimitedCount = impl.health.rateLimitedCount +
        if impl.passes config record && rateLimited config impl.lastDeliveryAt receivedAt then 1
        else 0 := by
  cases hconf : impl.health.sensorConfiguration with
  | none => simp only [Impl.classifyRecord, hconf, Prod.mk.injEq, reduceCtorEq, and_false] at hclass
  | some configuration =>
    simp only [Impl.classifyRecord, hconf, Prod.mk.injEq, Except.ok.injEq] at hclass
    obtain ⟨rfl, rfl⟩ := hclass
    refine ⟨?_, ?_⟩
    · cases hpass : impl.passes config record <;> simp only [Impl.passes] at hpass <;> simp [hpass]
    · cases hlimited : impl.passes config record &&
          rateLimited config impl.lastDeliveryAt receivedAt <;>
        simp only [Impl.passes] at hlimited <;> simp only [hlimited] <;> rfl

/-! ## The invariant -/

/-- Past the locked section, on the way to the delivery. -/
def WorkerPc.handing : WorkerPc → Bool
  | .callback _ _ _ | .delivered _ _ _ => true
  | _ => false

/-- The deliveries of a run are a period apart, and none is at the epoch;
a record that was let through is a period behind all of them. -/
structure SpacedWf (config : Config) (s : Sys) (h : RecordHistory) : Prop where
  spaced : h.current.delivered.Pairwise config.Apart
  present : ∀ t ∈ h.current.delivered, t ≠ 0
  spacedBefore : h.before.delivered.Pairwise config.Apart
  presentBefore : ∀ t ∈ h.before.delivered, t ≠ 0
  worker : ∀ w t receivedAt, s.workers w = some t → t.pc.receivedAt? = some receivedAt →
    receivedAt ≠ 0 ∧
      (t.pc.handing = true → ∀ u ∈ h.current.delivered, config.Apart u receivedAt)

section System

variable {P : Platform} {config : Config} {s s' : Sys} {h : RecordHistory}

theorem SpacedWf.callMove (hs : SpacedWf config s h) (hwf : s.Wf) {c : Nat} {call : Call}
    {pc' : CallPc} (hc : s.calls c = some call)
    (hmove : CallMove config c call.caller s call.pc pc' s') :
    SpacedWf config (s'.setCall c (some { call with pc := pc' })) (h.atCall call.pc) := by
  have hworker : ∀ w t receivedAt, s'.workers w = some t → t.pc.receivedAt? = some receivedAt →
      receivedAt ≠ 0 ∧ (t.pc.handing = true →
        ∀ u ∈ (h.atCall call.pc).current.delivered, config.Apart u receivedAt) := by
    intro w t receivedAt ht hpc
    rcases hmove.thread_of ht with hold | hnew
    · -- a thread that handles a record is running, so nobody resets
      have hres := hwf.noReset_of_running hold (WorkerPc.running_of_receivedAt? hpc) c call hc
      rw [RecordHistory.atCall_of_not_resets hres]
      exact hs.worker w t receivedAt hold hpc
    · rw [hnew] at hpc
      cases hpc
  by_cases hres : call.pc.resets = true
  · cases hpc : call.pc <;> rw [hpc] at hworker hres
    case startSaved =>
      exact ⟨.nil, fun _ ht => (by cases ht), hs.spaced, hs.present, hworker⟩
    case rollbackData =>
      exact ⟨hs.spacedBefore, hs.presentBefore, hs.spacedBefore, hs.presentBefore, hworker⟩
    all_goals exact ⟨hs.spaced, hs.present, hs.spacedBefore, hs.presentBefore, hworker⟩
  · rw [RecordHistory.atCall_of_not_resets (by simpa using hres)] at hworker ⊢
    exact ⟨hs.spaced, hs.present, hs.spacedBefore, hs.presentBefore, hworker⟩

/-- A record that is handed on passes, and does not come too soon. -/
theorem not_tooSoon_of_deliver (hrate : 0 < config.sampleRateLimitHz.value)
    (hs : SpacedWf config s h) (hlast : s.shared.lastDeliveryAt = h.current.lastDelivery)
    {record : RawRecord} {receivedAt : TimePoint} {impl : Impl} {decision : RecordDecision}
    (hclass : s.shared.toImpl.classifyRecord config record receivedAt = (impl, .ok decision)) :
    decision.deliver = true ↔
      s.shared.passes config record = true ∧ ¬ h.current.TooSoon config receivedAt := by
  rw [(classifyRecord_limit hclass).1, Bool.and_eq_true, Bool.not_eq_true', hlast,
    ← rateLimited_iff hrate hs.present, Bool.not_eq_true]

theorem SpacedWf.worker_step (hs : SpacedWf config s h) (hr : RecordsWf s h) (hwf : s.Wf)
    (hrate : 0 < config.sampleRateLimitHz.value) {w : Nat} {t t' : Worker} {shared' : Shared}
    (ht : s.workers w = some t) (hrun : t.pc.phase ≠ .done)
    (hmove : RecordMove P config s.shared shared' t.pc t'.pc)
    (hepoch : ∀ rx record, t.pc = .validRecord rx record → s.shared.clock ≠ 0) :
    SpacedWf config ((s.withShared shared').setWorker w t') (h.atWorker s.shared t.pc) := by
  have hlast := hr.last (hwf.noReset_of_running ht hrun)
  have hnow := fun receivedAt => hs.worker w t receivedAt ht
  -- only the running thread handles a record
  have hworker : ∀ {h' : RecordHistory}, (∀ receivedAt, t'.pc.receivedAt? = some receivedAt →
      receivedAt ≠ 0 ∧ (t'.pc.handing = true →
        ∀ u ∈ h'.current.delivered, config.Apart u receivedAt)) →
      ∀ v u receivedAt, ((s.withShared shared').setWorker w t').workers v = some u →
        u.pc.receivedAt? = some receivedAt → receivedAt ≠ 0 ∧ (u.pc.handing = true →
          ∀ x ∈ h'.current.delivered, config.Apart x receivedAt) := by
    intro h' hmine v u receivedAt hu hpc
    by_cases heq : v = w
    · subst heq
      have hself : ((s.withShared shared').setWorker v t').workers v = some t' := by
        simp [Sys.setWorker]
      rw [hself] at hu
      cases hu
      exact hmine receivedAt hpc
    · have hother : s.workers v = some u := by
        simpa [Sys.setWorker, Sys.withShared, heq] using hu
      have hactive := hwf.active_of_running hother (WorkerPc.running_of_receivedAt? hpc)
      rw [hwf.active_of_running ht hrun] at hactive
      cases hactive
      exact absurd rfl heq
  -- the deliveries stay, and so does the record the thread handles, if any
  have hkeep : ∀ {h' : RecordHistory}, h'.current.delivered = h.current.delivered →
      h'.before = h.before → (∀ receivedAt, t'.pc.receivedAt? = some receivedAt →
        receivedAt ≠ 0 ∧ (t'.pc.handing = true →
          ∀ u ∈ h.current.delivered, config.Apart u receivedAt)) →
      SpacedWf config ((s.withShared shared').setWorker w t') h' := by
    intro h' hcurrent hbefore hmine
    refine ⟨?_, ?_, ?_, ?_, hworker ?_⟩
    · rw [hcurrent]
      exact hs.spaced
    · rw [hcurrent]
      exact hs.present
    · rw [hbefore]
      exact hs.spacedBefore
    · rw [hbefore]
      exact hs.presentBefore
    · rw [hcurrent]
      exact hmine
  have hnone : ∀ {pc : WorkerPc}, pc.handles = false → ∀ receivedAt,
      pc.receivedAt? = some receivedAt → receivedAt ≠ 0 ∧ (pc.handing = true →
        ∀ u ∈ h.current.delivered, config.Apart u receivedAt) := by
    intro pc hout receivedAt hpc
    rw [WorkerPc.receivedAt?_outside hout] at hpc
    cases hpc
  obtain ⟨pc, backoff, nested⟩ := t
  obtain ⟨pc', backoff', nested'⟩ := t'
  dsimp only at hmove hnow hkeep hworker hepoch ⊢
  cases hmove with
  | outside before after =>
    rw [h.atWorker_outside before]
    exact hkeep rfl rfl (hnone after)
  | arrives =>
    refine hkeep rfl rfl fun receivedAt hpc => ?_
    cases hpc
    exact ⟨hepoch _ _ rfl, fun he => by cases he⟩
  | refused missing after =>
    simp only [RecordHistory.atWorker, missing, Option.isSome_none, Bool.false_eq_true, if_false]
    exact hkeep rfl rfl (hnone after)
  | settled classified _ after =>
    simp only [RecordHistory.atWorker, (classifyRecord_times classified).1, if_true]
    exact hkeep rfl rfl (hnone after)
  | unscaled classified _ after =>
    simp only [RecordHistory.atWorker, (classifyRecord_times classified).1, if_true]
    exact hkeep rfl rfl (hnone after)
  | @handed _ _ receivedAt _ _ sample classified deliver scaled after =>
    simp only [RecordHistory.atWorker, (classifyRecord_times classified).1, if_true]
    have hsoon := ((not_tooSoon_of_deliver hrate hs hlast classified).mp deliver).2
    have hapart := apart_of_not_tooSoon hr.tracked.delivered.ordered hsoon
    have hat := scaleSample_receivedAt scaled
    have hplace : pc'.receivedAt? = some receivedAt := by
      rcases after with rfl | rfl <;> exact congrArg some hat
    refine hkeep rfl rfl fun at' hpc => ?_
    rw [hplace] at hpc
    cases hpc
    exact ⟨(hnow receivedAt rfl).1, fun _ => hapart⟩
  | returned => exact hkeep rfl rfl fun receivedAt hpc => hnow receivedAt hpc
  | threw => exact hkeep rfl rfl fun receivedAt hpc => by cases hpc
  | failed _ after => exact hkeep rfl rfl (hnone after)
  | @delivered _ _ sample _ _ after =>
    obtain ⟨hne, hapart⟩ := hnow sample.receivedAt rfl
    refine ⟨?_, ?_, hs.spacedBefore, hs.presentBefore, hworker fun receivedAt hpc => ?_⟩
    · refine List.pairwise_append.mpr ⟨hs.spaced, List.pairwise_singleton _ _, ?_⟩
      intro u hu v hv
      rw [List.mem_singleton.mp hv]
      exact hapart rfl u hu
    · intro u hu
      rcases List.mem_append.mp hu with hold | hnew
      · exact hs.present u hold
      · rw [List.mem_singleton.mp hnew]
        exact hne
    · rw [WorkerPc.receivedAt?_outside after] at hpc
      cases hpc

theorem SpacedWf.step (hs : SpacedWf config s h) (hr : RecordsWf s h) (hwf : s.Wf)
    (hrate : 0 < config.sampleRateLimitHz.value) {l : Label} (hepoch : OffEpoch (s, h) l)
    (hstep : s.step P config l = some s') : SpacedWf config s' (h.record s l s') := by
  cases Sys.step_move hstep with
  | tick ticks => exact ⟨hs.spaced, hs.present, hs.spacedBefore, hs.presentBefore, hs.worker⟩
  | places label places =>
    have hrecord : h.record s l s' = h := by
      rcases label with ⟨c, caller, op, rfl⟩ | ⟨c, rfl⟩ <;> rfl
    rw [hrecord]
    refine ⟨hs.spaced, hs.present, hs.spacedBefore, hs.presentBefore, ?_⟩
    intro w t receivedAt ht hpc
    obtain ⟨u, hu, heq⟩ := places.thread ht
    rw [← heq] at hpc ⊢
    exact hs.worker w u receivedAt hu hpc
  | @call c call pc' u choice hc _ move =>
    have hrecord : h.record s (.call c choice) (u.setCall c (some { call with pc := pc' }))
        = h.atCall call.pc := by
      simp [RecordHistory.record, hc]
    rw [hrecord]
    exact hs.callMove hwf hc move
  | @worker w t t' shared' choice ht step move =>
    have hrecord : h.record s (.worker w choice) ((s.withShared shared').setWorker w t')
        = h.atWorker s.shared t.pc := by
      simp [RecordHistory.record, ht]
    rw [hrecord]
    exact hs.worker_step hr hwf hrate ht move.lifecycle.1 (workerStep_record step)
      fun rx record hpc => hepoch w choice t rx record rfl ht hpc

theorem spacedWf_of_reach (hrate : 0 < config.sampleRateLimitHz.value) {p : Sys × RecordHistory}
    (hreach : (recordLts P config).Reach OffEpoch p) : SpacedWf config p.1 p.2 := by
  refine Lts.Reach.invariant_using
    (K := fun p => (clientLts P config).Reachable p.1 ∧ RecordsWf p.1 p.2)
    (I := fun p => SpacedWf config p.1 p.2)
    (fun p hp => ⟨Lts.Reach.unrecorded hp, recordsWf_of_reach hp⟩) ?_ ?_ hreach
  · rintro ⟨s, h⟩ ⟨⟨clock, -, rfl⟩, rfl⟩
    refine ⟨.nil, fun _ ht => (by cases ht), .nil, fun _ ht => (by cases ht), ?_⟩
    intro w t receivedAt ht
    cases ht
  · rintro ⟨s, h⟩ l ⟨s', h'⟩ hepoch hstep ⟨hs, hr⟩ - hspaced
    obtain ⟨ht, hrecord⟩ := Lts.recorded_step hstep
    obtain rfl : h' = h.record s l s' := hrecord
    exact hspaced.step hr (wf_of_reachable hs) hrate hepoch ht

/-- A step that classifies no record counts no limited one. -/
theorem RecordMove.rateLimitedCount {s s' : Shared} {pc pc' : WorkerPc}
    (hmove : RecordMove P config s s' pc pc')
    (hpc : ∀ rx record receivedAt, pc ≠ .classify rx record receivedAt) :
    s'.health.rateLimitedCount = s.health.rateLimitedCount := by
  cases hmove with
  | outside _ _ tally =>
    have hcounts := congrArg (fun x => x.counts.rateLimitedCount) tally
    change s'.health.rateLimitedCount = (pc.counted s.toImpl).health.rateLimitedCount at hcounts
    rw [hcounts]
    cases pc
    case timedOut =>
      dsimp only [WorkerPc.counted]
      split <;> rfl
    case applyConfiguration configuration =>
      dsimp only [WorkerPc.counted, Impl.applyConfiguration]
      split
      · rfl
      · split <;> rfl
    all_goals rfl
  | arrives impl => rw [impl]
  | refused => exact absurd rfl (hpc _ _ _)
  | settled => exact absurd rfl (hpc _ _ _)
  | unscaled => exact absurd rfl (hpc _ _ _)
  | handed => exact absurd rfl (hpc _ _ _)
  | returned same => rw [same]
  | threw same => rw [same]
  | failed impl => rw [impl]; rfl
  | delivered impl => rw [impl]; rfl

theorem WorkerPc.handing_outside {pc : WorkerPc} (h : pc.handles = false) :
    pc.handing = false := by
  cases pc <;> first | rfl | cases h

/-- What becomes of a record in the locked section of `handle_record`. -/
theorem limited_of_classify (hrate : 0 < config.sampleRateLimitHz.value)
    (hs : SpacedWf config s h) (hlast : s.shared.lastDeliveryAt = h.current.lastDelivery)
    (hvalid : s.ValidWf config) {w : Nat} {t : Worker} (ht : s.workers w = some t)
    {rx : Reception} {record : RawRecord} {receivedAt : TimePoint}
    (hpc : t.pc = .classify rx record receivedAt) {shared' : Shared} {pc' : WorkerPc}
    (hmove : RecordMove P config s.shared shared' t.pc pc') :
    (shared'.health.rateLimitedCount = s.shared.health.rateLimitedCount + 1 ↔
        s.shared.passes config record = true ∧ h.current.TooSoon config receivedAt) ∧
      (¬ (s.shared.passes config record = true ∧ h.current.TooSoon config receivedAt) →
        shared'.health.rateLimitedCount = s.shared.health.rateLimitedCount) ∧
      (pc'.handing = true ↔
        s.shared.passes config record = true ∧ ¬ h.current.TooSoon config receivedAt) := by
  obtain ⟨hconf, hscales⟩ := hvalid.classifies (P := P) ht hpc
  rw [hpc] at hmove
  have hcount : ∀ {decision}, s.shared.toImpl.classifyRecord config record receivedAt
      = (shared'.toImpl, .ok decision) →
      (shared'.health.rateLimitedCount = s.shared.health.rateLimitedCount + 1 ↔
        s.shared.passes config record = true ∧ h.current.TooSoon config receivedAt) ∧
      (¬ (s.shared.passes config record = true ∧ h.current.TooSoon config receivedAt) →
        shared'.health.rateLimitedCount = s.shared.health.rateLimitedCount) := by
    intro decision hclass
    rw [(classifyRecord_limit hclass).2, hlast, ← rateLimited_iff hrate hs.present,
      ← Bool.and_eq_true]
    split <;> simp_all
  cases hmove with
  | outside before => cases before
  | refused missing =>
    rw [missing] at hconf
    cases hconf
  | settled classified kept after =>
    refine ⟨(hcount classified).1, (hcount classified).2, ?_⟩
    rw [← not_tooSoon_of_deliver hrate hs hlast classified, WorkerPc.handing_outside after, kept]
  | unscaled classified scaled =>
    obtain ⟨sample, hsome⟩ := hscales _ _ classified
    rw [scaled] at hsome
    cases hsome
  | handed classified deliver _ after =>
    refine ⟨(hcount classified).1, (hcount classified).2, ?_⟩
    rw [← not_tooSoon_of_deliver hrate hs hlast classified]
    refine iff_of_true ?_ deliver
    rcases after with rfl | rfl <;> rfl

/-- **The rate limit is an exact greedy thinning.** With a positive rate,
in every run in which no record is received at the clock's epoch, over
any sessions, records and callback outcomes: the samples delivered in the
current run are a period apart, pairwise. The locked section that
classifies a record counts it as limited exactly if it passes the
sequence, FT-progress and status conditions and lies less than a period
behind the last successful delivery of the run, and hands it on exactly
if it passes and does not; no other step counts a limited record. That
reference is moved by a successful delivery only, and a run begins
without one, so its first eligible record is handed on. -/
theorem rate_limit_greedy (P : Platform) {config : Config}
    (hrate : 0 < config.sampleRateLimitHz.value) {s : Sys} {h : RecordHistory}
    (hreach : (recordLts P config).Reach OffEpoch (s, h)) :
    h.current.delivered.Pairwise config.Apart ∧
      (∀ l t, s.step P config l = some t →
        (∀ w choice u rx record receivedAt, l = .worker w choice → s.workers w = some u →
          u.pc ≠ .classify rx record receivedAt) →
        t.shared.health.rateLimitedCount = s.shared.health.rateLimitedCount) ∧
      (∀ w choice t u, s.step P config (.worker w choice) = some t → s.workers w = some u →
        (∀ rx outcome sample, u.pc ≠ .delivered rx outcome sample) →
        (h.record s (.worker w choice) t).current.delivered = h.current.delivered) ∧
      ∀ w choice t u rx record receivedAt, s.step P config (.worker w choice) = some t →
        s.workers w = some u → u.pc = .classify rx record receivedAt →
        (t.shared.health.rateLimitedCount = s.shared.health.rateLimitedCount + 1 ↔
          s.shared.passes config record = true ∧ h.current.TooSoon config receivedAt) ∧
        (¬ (s.shared.passes config record = true ∧ h.current.TooSoon config receivedAt) →
          t.shared.health.rateLimitedCount = s.shared.health.rateLimitedCount) ∧
        (∃ v, t.workers w = some v ∧ (v.pc.handing = true ↔
          s.shared.passes config record = true ∧ ¬ h.current.TooSoon config receivedAt)) ∧
        (s.shared.passes config record = true → h.current.delivered = [] →
          ∃ v, t.workers w = some v ∧ v.pc.handing = true) := by
  have hs : SpacedWf config s h := spacedWf_of_reach hrate hreach
  have hr : RecordsWf s h := recordsWf_of_reach hreach.reachable
  have hclient : (clientLts P config).Reachable s := Lts.Reach.unrecorded hreach.reachable
  have hwf := wf_of_reachable hclient
  refine ⟨hs.spaced, ?_, ?_, ?_⟩
  · intro l t hstep hnot
    rcases counts_of_step (countsWf_of_reachable hclient) hstep with
      hsame | ⟨w, choice, u, u', shared', rfl, hu, rfl, -, hmove⟩
    · change t.shared.health.counts.rateLimitedCount = s.shared.health.counts.rateLimitedCount
      rw [hsame]
    · exact hmove.rateLimitedCount fun rx record receivedAt => hnot w choice u rx record receivedAt
        rfl hu
  · intro w choice t u _ hu hnot
    simp only [RecordHistory.record, hu, Option.map_some, Option.getD_some]
    cases hpc : u.pc
    case classify => dsimp only [RecordHistory.atWorker]; split <;> rfl
    case delivered rx outcome sample => exact absurd hpc (hnot rx outcome sample)
    all_goals rfl
  · intro w choice t u rx record receivedAt hstep hu hpc
    cases Sys.step_move hstep with
    | places label => rcases label with ⟨_, _, _, heq⟩ | ⟨_, heq⟩ <;> cases heq
    | @worker _ u₀ u' shared' _ hu₀ step move =>
      obtain rfl : u₀ = u := Option.some.inj (hu₀.symm.trans hu)
      have hlast := hr.last (hwf.noReset_of_running hu move.lifecycle.1)
      obtain ⟨hcount, hkeep, hhand⟩ := limited_of_classify hrate hs hlast
        (validWf_of_reachable hclient) hu hpc (workerStep_record step)
      have hself : ((s.withShared shared').setWorker w u').workers w = some u' := by
        simp [Sys.setWorker]
      refine ⟨hcount, hkeep, ⟨u', hself, hhand⟩, ?_⟩
      intro hpass hfirst
      refine ⟨u', hself, hhand.mpr ⟨hpass, ?_⟩⟩
      rintro ⟨last, hsome, -⟩
      rw [hfirst] at hsome
      cases hsome

end System

/-- One sample a second. -/
def limitedConfig : Config := { overrideConfig with sampleRateLimitHz := .finite 1 }

/-- The next record of the session, 50 ms later, up to
`handle_record`. -/
def hastyRecord : List Label :=
  [.tick 50000000, .worker 0 .go, .worker 0 .go, .worker 0 .go, .worker 0 (.poll (.ready false)),
   .worker 0 .go,
   .worker 0 (.recv (.datagram ([0, 0, 0, 1, 0, 0, 0, 1] ++ List.replicate 28 0))), .worker 0 .go,
   .worker 0 .go]

/-- It passes the other checks. -/
def isHasty (u : Shared) : Option Worker → Bool
  | some ⟨.classify _ record receivedAt, _, _⟩ =>
      decide (receivedAt = 50001000) && u.passes limitedConfig record
  | _ => false

/-- That record is limited: 50 ms are less than the period. -/
theorem rate_limit_greedy_hasty :
    ∃ s h t, (recordLts exactPlatform limitedConfig).Reach OffEpoch (s, h) ∧
      h.current.delivered = [1000] ∧
      s.step exactPlatform limitedConfig (.worker 0 .go) = some t ∧
      t.shared.health.rateLimitedCount = s.shared.health.rateLimitedCount + 1 := by
  have hinit : (recordLts exactPlatform limitedConfig).Reach OffEpoch
      (Sys.new limitedConfig 1000, {}) := .init ⟨⟨1000, by decide +kernel, rfl⟩, rfl⟩
  obtain ⟨⟨s, h⟩, hs, hp⟩ := Lts.exists_of_execChecked (l := streamingRun ++ hastyRecord)
    (p := fun p : Sys × RecordHistory => decide (p.2.current.delivered = [1000]) &&
      (p.1.step exactPlatform limitedConfig (.worker 0 .go)).isSome &&
      isHasty p.1.shared (p.1.workers 0))
    (fun p _ => decide (p.1.shared.clock ≠ 0))
    (fun p l hclock w choice t rx record _ _ _ => of_decide_eq_true hclock) hinit
    (by decide +kernel)
  obtain ⟨hrest, hplace⟩ := Bool.and_eq_true_iff.mp hp
  obtain ⟨hdelivered, hstep⟩ := Bool.and_eq_true_iff.mp hrest
  have hdelivered : h.current.delivered = [1000] := of_decide_eq_true hdelivered
  obtain ⟨t, hstep⟩ := Option.isSome_iff_exists.mp hstep
  unfold isHasty at hplace
  split at hplace
  · rename_i hworker
    obtain ⟨hat, hpass⟩ := Bool.and_eq_true_iff.mp hplace
    refine ⟨s, h, t, hs, hdelivered, hstep, ?_⟩
    refine ((rate_limit_greedy exactPlatform (by decide +kernel) hs).2.2.2 0 .go t _ _ _ _ hstep
      hworker rfl).1.mpr ⟨hpass, 1000, by rw [hdelivered]; rfl, ?_⟩
    rw [of_decide_eq_true hat]
    simp only [Config.Apart, Config.period, limitedConfig, Binary64.value, ticksPerSecond]
    norm_num
  · cases hplace

end PyNetFT.Core
