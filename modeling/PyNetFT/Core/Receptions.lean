/-
PyNetFT.Core.Receptions — a session as its receive thread sees it.

While a thread runs `receive_session`, calls and clock ticks come between
its steps. What they can do to it is little: `stopping_` may be set, the
clock may go on, `shutdown` may be requested of the transport, and
`health()` may prune the rate windows (`Shared.Beside`). `thread_step`
says that once: where a running thread is after a step, it has stepped
itself, or is new, or was there before and saw only such a change.
-/
import PyNetFT.Core.Counters
import PyNetFT.Core.Recovery

namespace PyNetFT.Core

open PyNetFT.Lib

/-- What the others leave a running thread. -/
structure Shared.Beside (s s' : Shared) : Prop where
  stopping : s.stopping = true → s'.stopping = true
  clock : s.clock ≤ s'.clock
  malformed : s'.consecutiveMalformed = s.consecutiveMalformed
  counts : s'.health.counts = s.health.counts
  shutdown : s'.transport.shutdownRequested = true →
    s.transport.shutdownRequested = true ∨ s'.stopping = true

theorem Shared.Beside.refl (s : Shared) : s.Beside s := ⟨id, le_rfl, rfl, rfl, .inl⟩

section System

variable {P : Platform} {config : Config} {s s' : Sys}

/-- Only `stop` asks the transport to shut down. -/
theorem CallMove.shutdown {c : Nat} {caller : Option Nat} {pc pc' : CallPc}
    (hmove : CallMove config c caller s pc pc' s') :
    s'.shared.transport.shutdownRequested = s.shared.transport.shutdownRequested ∨
      pc = .stopCommand := by
  cases hmove with
  | command => exact .inr rfl
  | republish =>
    refine .inl ?_
    dsimp only
    split
    · unfold Impl.publish
      split <;> rfl
    · rfl
  | stopIdle =>
    refine .inl ?_
    unfold Shared.markStopped
    split <;> rfl
  | reapStop =>
    refine .inl ?_
    unfold Sys.reap Sys.withShared Shared.markStopped
    dsimp only
    split <;> rfl
  | bias first second =>
    refine .inl ?_
    unfold Sys.withShared Shared.bias
    dsimp only
    split
    · rfl
    · split
      · rfl
      · split <;> rfl
  | wait | take | save | reset | arm | spawn | disarm | restoreRecord | restoreData | clearLatch
  | request | reapStart | snapshot => exact .inl rfl

/-- A call beside a running thread. -/
theorem CallMove.beside (hwf : s.Wf) (hwf' : s'.Wf) (hcounts : s.CountsWf)
    (hrequested : s.StopRequested) {c : Nat} {call : Call} {pc' : CallPc} {u : Sys}
    (hs' : s' = u.setCall c (some { call with pc := pc' }))
    (hc : s.calls c = some call) (hmove : CallMove config c call.caller s call.pc pc' u)
    {w : Nat} {t : Worker} (ht : s.workers w = some t) (ht' : s'.workers w = some t)
    (hrun : t.pc.phase ≠ .done) : s.shared.Beside s'.shared := by
  subst hs'
  have hbefore := hwf.noReset_of_running ht hrun c call hc
  have hafter : pc'.resets = false :=
    hwf'.noReset_of_running ht' hrun c { call with pc := pc' } (Sys.setCall_calls_self _ _ _)
  obtain ⟨-, hclock, htally⟩ := hmove.tally_outside hbefore hafter
  refine ⟨?_, hclock.ge, ?_, hmove.counts fun d => hcounts c call d hc, ?_⟩
  · intro hstopping
    rcases hmove.stopping.1 with hsame | hset | hres
    · exact hsame.trans hstopping
    · exact hset
    · rw [hbefore] at hres
      cases hres
  · rcases htally with hsame | hpruned
    · exact congrArg Tally.consecutiveMalformed hsame
    · change u.shared.consecutiveMalformed = _
      rw [hpruned]
      rfl
  · intro hshutdown
    rcases hmove.shutdown with hsame | hpc
    · exact .inl (hsame.symm.trans hshutdown)
    · have hstopping := hrequested c call hc (by rw [hpc]; rfl)
      rcases hmove.stopping.1 with hsame | hset | hres
      · exact .inr (hsame.trans hstopping)
      · exact .inr hset
      · rw [hbefore] at hres
        cases hres

/-- How a running thread got to be where it is. -/
inductive ThreadStep (P : Platform) (config : Config) (s : Sys) (l : Label) (s' : Sys) (w : Nat)
    (t' : Worker) : Prop where
  | own (choice : WorkerChoice) (t : Worker) (label : l = .worker w choice)
      (present : s.workers w = some t) (running : t.pc.phase ≠ .done)
      (step : workerStep P config w choice t s.shared = some (t', s'.shared))
  | spawned (head : t'.pc = .loopHead)
  | beside (t : Worker) (label : ∀ v choice, l ≠ .worker v choice) (present : s.workers w = some t)
      (same : t'.pc = t.pc) (shared : s.shared.Beside s'.shared)

theorem thread_step (hwf : s.Wf) (hcounts : s.CountsWf) (hrequested : s.StopRequested) {l : Label}
    (hstep : s.step P config l = some s') {w : Nat} {t' : Worker} (ht' : s'.workers w = some t')
    (hrun : t'.pc.phase ≠ .done) : ThreadStep P config s l s' w t' := by
  have hwf' := hwf.step hstep
  cases Sys.step_move hstep with
  | tick ticks =>
    exact .beside t' (fun _ _ h => (by cases h)) ht' rfl ⟨id, Nat.le_add_right _ _, rfl, rfl, .inl⟩
  | places label places =>
    obtain ⟨t, ht, hpc⟩ := places.thread ht'
    refine .beside t ?_ ht hpc.symm (places.shared ▸ .refl _)
    rintro v choice rfl
    rcases label with ⟨_, _, _, h⟩ | ⟨_, h⟩ <;> cases h
  | @call c call pc' u choice hc _ move =>
    rcases move.thread_of ht' with hold | hnew
    · exact .beside t' (fun _ _ h => (by cases h)) hold rfl
        (CallMove.beside hwf hwf' hcounts hrequested rfl hc move hold ht' hrun)
    · exact .spawned hnew
  | @worker v u u' shared' choice hu step move =>
    by_cases heq : w = v
    · subst heq
      simp only [Sys.setWorker, Function.update_self, Option.some.injEq] at ht'
      subst ht'
      exact .own choice u rfl hu move.lifecycle.1 step
    · have hother : s.workers w = some t' := by
        simpa [Sys.setWorker, Sys.withShared, heq] using ht'
      have hactive := hwf.active_of_running hother hrun
      rw [hwf.active_of_running hu move.lifecycle.1] at hactive
      exact absurd (Option.some.inj hactive).symm heq

/-! ## Inside a session -/

theorem WorkerPc.running_of_session {pc : WorkerPc} (h : pc.stage = .session) :
    pc.phase ≠ .done := by
  intro hdone
  rw [WorkerPc.phase_eq_done hdone] at h
  cases h

/-- What a step makes of `consecutive_malformed_`. -/
def WorkerPc.streak (n : Nat) : WorkerPc → Nat
  | .malformed _ => n + 1
  | .validRecord _ _ => 0
  | _ => n

/-- What a step adds to `malformed_count`. -/
def WorkerPc.malformedDelta : WorkerPc → Nat
  | .malformed _ => 1
  | _ => 0

theorem applyConfiguration_loop (impl : Impl) (configuration : SensorConfiguration) :
    (impl.applyConfiguration configuration).tally.loop = impl.tally.loop := by
  unfold Impl.applyConfiguration
  split
  · rfl
  · split <;> rfl

/-- What a step makes of the two malformed counters. -/
theorem RecordMove.malformed {shared shared' : Shared} {pc pc' : WorkerPc}
    (hmove : RecordMove P config shared shared' pc pc') :
    shared'.consecutiveMalformed = pc.streak shared.consecutiveMalformed ∧
      shared'.health.malformedCount = shared.health.malformedCount + pc.malformedDelta := by
  have hloop := hmove.loop
  suffices (pc.counted shared.toImpl).tally.loop.consecutiveMalformed
        = pc.streak shared.consecutiveMalformed ∧
      (pc.counted shared.toImpl).tally.loop.malformedCount
        = shared.health.malformedCount + pc.malformedDelta by
    rw [← hloop] at this
    exact this
  cases pc
  case timedOut =>
    dsimp only [WorkerPc.counted]
    split <;> exact ⟨rfl, rfl⟩
  case applyConfiguration configuration =>
    rw [WorkerPc.counted, applyConfiguration_loop]
    exact ⟨rfl, rfl⟩
  all_goals exact ⟨rfl, rfl⟩

/-- A thread gets into a session at its beginning only, and a malformed
datagram that does not end it leaves the streak below the threshold. -/
theorem workerStep_inSession {w : Nat} {choice : WorkerChoice} {t t' : Worker} {u u' : Shared}
    (h : workerStep P config w choice t u = some (t', u')) (hstage : t'.pc.stage = .session) :
    t.pc = .sessionBegin ∨ t.pc.stage = .session ∧
      ∀ rx, t.pc = .malformed rx → u.consecutiveMalformed + 1 < malformedStormThreshold := by
  by_cases hbegin : t.pc = .sessionBegin
  · exact .inl hbegin
  have hinside (hpart : t.pc.part ≠ .run) (hother : t.pc.part ≠ .receive) :
      t.pc = .sessionBegin ∨ t.pc.stage = .session ∧
        ∀ rx, t.pc = .malformed rx → u.consecutiveMalformed + 1 < malformedStormThreshold :=
    .inr ⟨WorkerPc.stage_of_part hpart fun _ => hbegin,
      fun rx hpc => absurd (congrArg WorkerPc.part hpc) hother⟩
  obtain ⟨pc, backoff, nested⟩ := t
  cases (workerStep_parts h).2 with
  | run hpart hr =>
    exfalso
    cases pc <;> cases hpart <;> dsimp only [runStep] at hr <;> (repeat' split at hr) <;>
      cases hr <;> cases hstage
  | receive hpart hr =>
    refine .inr ⟨WorkerPc.stage_of_part (by rw [hpart]; decide) fun _ => hbegin, ?_⟩
    rintro rx rfl
    cases hr
    by_contra hlong
    dsimp only at hstage
    rw [if_pos (not_lt.mp hlong)] at hstage
    cases hstage
  | connect hpart | configure hpart | transport hpart | record hpart =>
    exact hinside (by rw [hpart]; decide) (by rw [hpart]; decide)

/-! ## What a session reports -/

/-- `receive_session` of the thread `w` has returned this result. -/
def Sys.Reports (s : Sys) (w : Nat) (result : SessionResult) : Prop :=
  ∃ t outcome, s.workers w = some t ∧ t.pc = .sessionDone outcome ∧ outcome.result = result

/-- `handle_record` decides neither on a timeout nor on a storm. -/
def WorkerPc.OfRecord (pc : WorkerPc) : Prop :=
  pc.outcome? ≠ some .timeout ∧ pc.outcome? ≠ some .malformedStorm

theorem WorkerPc.OfRecord.of_none {pc : WorkerPc} (h : pc.outcome? = none) : pc.OfRecord := by
  rw [WorkerPc.OfRecord, h]
  exact ⟨fun hout => (by cases hout), fun hout => (by cases hout)⟩

theorem WorkerPc.session_of_outcome {pc : WorkerPc} {result : SessionResult}
    (h : pc.outcome? = some result) : pc.stage = .session := by
  cases pc <;> first | rfl | cases h

theorem recordOutcome_ofRecord (policy : RecoveryPolicy) (severity : StatusSeverity)
    (ft : FtSequenceKind) : recordOutcome policy severity ft ≠ some .timeout ∧
      recordOutcome policy severity ft ≠ some .malformedStorm := by
  cases policy <;> cases severity <;> cases ft <;> decide

theorem callbackFailureOutcome_ofRecord {policy : RecoveryPolicy} {outcome : Option SessionResult}
    (h : outcome ≠ some .timeout ∧ outcome ≠ some .malformedStorm) :
    callbackFailureOutcome policy outcome ≠ some .timeout ∧
      callbackFailureOutcome policy outcome ≠ some .malformedStorm := by
  unfold callbackFailureOutcome
  split
  · exact h
  · decide

/-- A record that ends its session does so with neither result. -/
theorem recordReturned_ofRecord (rx : Reception) {result : Option SessionResult}
    (h : result ≠ some .timeout ∧ result ≠ some .malformedStorm) :
    (recordReturned rx result).OfRecord ∧
      ∀ outcome, recordReturned rx result = .sessionDone outcome →
        outcome.result ≠ .timeout ∧ outcome.result ≠ .malformedStorm := by
  cases result with
  | none => exact ⟨.of_none rfl, fun _ hpc => by cases hpc⟩
  | some r =>
    refine ⟨.of_none rfl, fun outcome hpc => ?_⟩
    cases hpc
    exact ⟨fun hr => h.1 (congrArg some hr), fun hr => h.2 (congrArg some hr)⟩

theorem recordStep_result {w : Nat} {choice : WorkerChoice} {u u' : Shared} {pc pc' : WorkerPc}
    (hstep : recordStep P config w choice u pc = some (pc', u')) (hin : pc.OfRecord) :
    pc'.OfRecord ∧ ∀ outcome, pc' = .sessionDone outcome →
      outcome.result ≠ .timeout ∧ outcome.result ≠ .malformedStorm := by
  cases pc <;> dsimp only [recordStep] at hstep
  case classify rx record receivedAt =>
    rcases hclass : u.toImpl.classifyRecord config record receivedAt with ⟨impl, decision⟩
    rw [hclass] at hstep
    cases decision with
    | error message =>
      cases hstep
      exact ⟨.of_none rfl, fun _ hpc => by cases hpc⟩
    | ok decision =>
      have hdecision : decision.outcome ≠ some .timeout ∧
          decision.outcome ≠ some .malformedStorm := by
        cases hconf : u.health.sensorConfiguration with
        | none =>
          simp only [Impl.classifyRecord, hconf, Prod.mk.injEq, reduceCtorEq, and_false] at hclass
        | some configuration =>
          simp only [Impl.classifyRecord, hconf, Prod.mk.injEq, Except.ok.injEq] at hclass
          rw [← hclass.2]
          exact recordOutcome_ofRecord _ _ _
      dsimp only at hstep
      split at hstep
      · cases hstep
        exact recordReturned_ofRecord rx hdecision
      split at hstep
      · cases hstep
        exact recordReturned_ofRecord rx (by decide)
      split at hstep
      · cases hstep
        exact ⟨hdecision, fun _ hpc => by cases hpc⟩
      · cases hstep
        exact ⟨hdecision, fun _ hpc => by cases hpc⟩
  case callback rx outcome sample =>
    split at hstep
    · cases hstep
      exact ⟨hin, fun _ hpc => by cases hpc⟩
    · cases hstep
      exact ⟨hin, fun _ hpc => by cases hpc⟩
    · cases hstep
  case callbackFailed rx outcome message =>
    cases hstep
    exact recordReturned_ofRecord rx (callbackFailureOutcome_ofRecord hin)
  case delivered rx outcome sample =>
    cases hstep
    exact recordReturned_ofRecord rx hin
  all_goals cases hstep

theorem unlessStopping_cases (u : Shared) (result : SessionResult) :
    u.unlessStopping result = .stopped ∨ u.unlessStopping result = result := by
  unfold Shared.unlessStopping
  split
  · exact .inl rfl
  · exact .inr rfl

/-- Which steps report a storm and a timeout. -/
def ResultStep (u : Shared) (pc : WorkerPc) (outcome : SessionOutcome) : Prop :=
  (outcome.result = .malformedStorm →
    ∃ rx, pc = .malformed rx ∧ malformedStormThreshold ≤ u.consecutiveMalformed + 1) ∧
  (outcome.result = .timeout → ∃ rx, pc = .timedOut rx ∧ u.stopping = false)

theorem resultStep_of_ne {u : Shared} {pc : WorkerPc} {outcome : SessionOutcome}
    (h : outcome.result ≠ .timeout ∧ outcome.result ≠ .malformedStorm) :
    ResultStep u pc outcome :=
  ⟨fun hr => absurd hr h.2, fun hr => absurd hr h.1⟩

/-- A session that could not be set up or whose transport failed. -/
theorem resultStep_unlessStopping {u : Shared} {pc : WorkerPc} {result : SessionResult}
    {message : String} {valid : Bool} (h : result ≠ .timeout ∧ result ≠ .malformedStorm) :
    ResultStep u pc ⟨u.unlessStopping result, message, valid⟩ := by
  refine resultStep_of_ne ?_
  rcases unlessStopping_cases u result with hcase | hcase <;> dsimp only <;> rw [hcase]
  · decide
  · exact h

theorem receiveStep_result {u u' : Shared} {pc pc' : WorkerPc} (hpart : pc.part = .receive)
    (hstep : receiveStep config u pc = some (pc', u')) :
    pc'.outcome? = none ∧ ∀ outcome, pc' = .sessionDone outcome → ResultStep u pc outcome := by
  cases pc <;> cases hpart <;> dsimp only [receiveStep] at hstep
  case malformed rx =>
    cases hstep
    split
    · rename_i hstorm
      refine ⟨rfl, fun outcome hpc => ⟨fun _ => ⟨rx, rfl, hstorm⟩, fun hr => ?_⟩⟩
      cases hpc
      cases hr
    · exact ⟨rfl, fun _ hpc => by cases hpc⟩
  case timedOut rx =>
    split at hstep
    · cases hstep
      refine ⟨rfl, fun outcome hpc => ?_⟩
      cases hpc
      exact resultStep_of_ne (by simp)
    · rename_i hstopping
      cases hstep
      refine ⟨rfl, fun outcome hpc => ⟨fun hr => ?_, fun _ => ⟨rx, rfl, by simpa using hstopping⟩⟩⟩
      cases hpc
      cases hr
  case receiveFailed rx message =>
    cases hstep
    refine ⟨rfl, fun outcome hpc => ?_⟩
    cases hpc
    exact resultStep_unlessStopping (by decide)
  all_goals
    (repeat' split at hstep) <;> cases hstep <;>
      refine ⟨rfl, fun outcome hpc => ?_⟩ <;> cases hpc
    all_goals exact resultStep_of_ne (by simp)

theorem workerStep_result {w : Nat} {choice : WorkerChoice} {t t' : Worker} {u u' : Shared}
    (hstep : workerStep P config w choice t u = some (t', u')) (hin : t.pc.OfRecord) :
    t'.pc.OfRecord ∧ ∀ outcome, t'.pc = .sessionDone outcome → ResultStep u t.pc outcome := by
  obtain ⟨pc, backoff, nested⟩ := t
  cases (workerStep_parts hstep).2 with
  | run hpart hr =>
    cases pc <;> cases hpart <;> dsimp only [runStep] at hr <;> (repeat' split at hr) <;>
      cases hr <;> exact ⟨.of_none rfl, fun _ hpc => by cases hpc⟩
  | connect hpart hr =>
    cases pc <;> cases hpart <;> dsimp only [connectStep] at hr <;> (repeat' split at hr) <;>
      cases hr <;> refine ⟨.of_none rfl, fun outcome hpc => ?_⟩ <;> cases hpc
    all_goals
      first
      | exact resultStep_unlessStopping (by decide)
      | exact resultStep_of_ne (by simp)
  | configure hpart hr =>
    cases pc <;> cases hpart <;> dsimp only [configureStep] at hr <;> (repeat' split at hr) <;>
      cases hr <;> refine ⟨.of_none rfl, fun outcome hpc => ?_⟩ <;> cases hpc
    all_goals
      first
      | exact resultStep_unlessStopping (by decide)
      | exact resultStep_of_ne (by simp)
  | transport hpart hr =>
    cases pc <;> cases hpart <;> dsimp only [transportStep] at hr <;> (repeat' split at hr) <;>
      cases hr <;> exact ⟨.of_none rfl, fun _ hpc => by cases hpc⟩
  | receive hpart hr =>
    obtain ⟨hnone, hresult⟩ := receiveStep_result hpart hr
    exact ⟨.of_none hnone, hresult⟩
  | record hpart hr =>
    obtain ⟨hrecord, hresult⟩ := recordStep_result hr hin
    exact ⟨hrecord, fun outcome hpc => resultStep_of_ne (hresult outcome hpc)⟩

/-- So the outcomes that threads carry around a callback stay so. -/
theorem ofRecord_of_step (hwf : s.Wf) (hcounts : s.CountsWf) (hrequested : s.StopRequested)
    (hs : ∀ w t, s.workers w = some t → t.pc.OfRecord) {l : Label}
    (hstep : s.step P config l = some s') {w : Nat} {t' : Worker} (ht' : s'.workers w = some t') :
    t'.pc.OfRecord := by
  cases hout : t'.pc.outcome? with
  | none => exact .of_none hout
  | some result =>
    have hrun := WorkerPc.running_of_session (WorkerPc.session_of_outcome hout)
    cases thread_step hwf hcounts hrequested hstep ht' hrun with
    | own choice t label ht _ step => exact (workerStep_result step (hs w t ht)).1
    | spawned head =>
      rw [head] at hout
      cases hout
    | beside t label ht same =>
      rw [same]
      exact hs w t ht

end System

end PyNetFT.Core
