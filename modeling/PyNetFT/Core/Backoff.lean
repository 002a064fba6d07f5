/-
PyNetFT.Core.Backoff — the delays between the sessions of a run.

`run` keeps the delay in a local, sets it back before it waits and doubles
it behind the wait. Whether it is set back comes from the outcome of the
session, which the places of `receive_session` hand on. `DelayMove` says
what a step does to the local, `workerStep_heard` what it does to the
flag. Against a history of the run (which sessions failed, and whether
each had received a valid record) the delays are those of
`PyNetFT.Lib.CappedDoubling`.

A delay is missing when its deadline is outside the range of the clock:
`run` has counted the reconnect by then, and leaves. `validate` has
looked at the range once, when the client was made.
-/
import PyNetFT.Core.Receptions
import PyNetFT.Core.RecoveryTheorems
import PyNetFT.Lib.CappedDoubling

namespace PyNetFT.Core

open PyNetFT.Lib

/-! ## What a step does to the delay -/

/-- The two places of the wait. -/
def WorkerPc.delaying : WorkerPc → Bool
  | .backoffDeadline | .backoffWait _ => true
  | _ => false

/-- The places of a reconnect. -/
def WorkerPc.reconnects : WorkerPc → Bool
  | .enterBackoff _ | .backoffDeadline | .backoffWait _ => true
  | _ => false

/-- On the way out of `run`. -/
def WorkerPc.leaving : WorkerPc → Bool
  | .escaped _ | .latchFault _ _ | .finishClose | .finishExited | .finishState | .done => true
  | _ => false

inductive DelayMove (config : Config) (clock : TimePoint) :
    WorkerPc → ℚ → WorkerPc → ℚ → Prop where
  | enter {outcome : SessionOutcome} {backoff : ℚ} :
      DelayMove config clock (.enterBackoff outcome) backoff .backoffDeadline
        (if outcome.receivedValidRecord then config.reconnectInitialDelay.value else backoff)
  | wait {backoff : ℚ} {deadline : TimePoint}
      (checked : checkedDeadline clock (.finite backoff) = .ok deadline) :
      DelayMove config clock .backoffDeadline backoff (.backoffWait deadline) backoff
  | lose {backoff : ℚ} {message : String}
      (checked : checkedDeadline clock (.finite backoff) = .error message) :
      DelayMove config clock .backoffDeadline backoff (.escaped message) backoff
  | wake {backoff : ℚ} {deadline : TimePoint} :
      DelayMove config clock (.backoffWait deadline) backoff .loopHead
        (min (backoff * 2) config.reconnectMaxDelay.value)
  | other {pc pc' : WorkerPc} {backoff : ℚ} (before : pc.reconnects = false)
      (after : pc'.delaying = false)
      (policy : pc'.reconnects = true → config.recoveryPolicy = .reconnect)
      (left : pc.leaving = true → pc'.leaving = true) :
      DelayMove config clock pc backoff pc' backoff

section Worker

variable {P : Platform} {config : Config} {w : Nat} {choice : WorkerChoice} {s s' : Shared}
  {pc pc' : WorkerPc} {backoff backoff' : ℚ}

theorem WorkerPc.delaying_of_not_reconnects (h : pc.reconnects = false) : pc.delaying = false := by
  cases pc <;> first | rfl | cases h

theorem runStep_delay (hpart : pc.part = .run)
    (h : runStep config w choice backoff s pc = some (pc', backoff', s')) :
    DelayMove config s.clock pc backoff pc' backoff' := by
  have hother {next : WorkerPc} (hbefore : pc.reconnects = false)
      (hafter : next.reconnects = false) (hleft : pc.leaving = true → next.leaving = true)
      (hsame : backoff' = backoff) : DelayMove config s.clock pc backoff next backoff' :=
    hsame ▸ .other hbefore (WorkerPc.delaying_of_not_reconnects hafter)
      (fun hpc => by rw [hafter] at hpc; cases hpc) hleft
  cases pc <;> cases hpart <;> dsimp only [runStep] at h
  case enterBackoff outcome =>
    cases h
    exact .enter
  case backoffDeadline =>
    split at h <;> cases h
    · rename_i hchecked
      exact .lose hchecked
    · rename_i hchecked
      exact .wait hchecked
  case backoffWait deadline =>
    split at h <;> cases h
    exact .wake
  case sessionClosed outcome =>
    cases h
    split
    · exact hother rfl rfl (fun h => (by cases h)) rfl
    · rename_i hpolicy
      split
      · exact hother rfl rfl (fun h => (by cases h)) rfl
      · rename_i hresult
        -- a session that failed, and not under fail-stop
        refine .other rfl rfl (fun _ => ?_) fun h => (by cases h)
        rw [not_or] at hresult
        cases hrecovery : config.recoveryPolicy with
        | reconnect => rfl
        | failStop => exact absurd ⟨hresult.1, hrecovery⟩ hpolicy
  case loopHead =>
    cases h
    refine hother rfl ?_ (fun h => (by cases h)) rfl
    split <;> rfl
  case escaped message =>
    cases h
    refine hother rfl ?_ (fun _ => ?_) rfl <;> split <;> rfl
  all_goals
    (repeat' split at h) <;> cases h <;>
      first
      | exact hother rfl rfl (fun _ => rfl) rfl
      | exact hother rfl rfl (fun h => (by cases h)) rfl

theorem part_of_reconnects (hpc : pc.reconnects = true ∨ pc.leaving = true) : pc.part = .run := by
  cases pc <;> first | rfl | (rcases hpc with h | h <;> cases h)

/-! ## What a step does to the flag -/

/-- `received_valid_record` as far as this place knows it. -/
def WorkerPc.heard? : WorkerPc → Option Bool
  | .sessionCheck | .configure | .discoveryFailed _ | .applyConfiguration _ | .configuredCheck
  | .connect | .startRealtime | .connectFailed _ | .resetTrackers | .firstDeadline => some false
  | .sessionDone outcome | .sessionClosed outcome | .enterBackoff outcome =>
      some outcome.receivedValidRecord
  | .receiveHead rx | .receiveNow rx | .timedOut rx | .receiveFailed rx _ | .received rx _
  | .malformed rx | .validRecord rx _ | .receiveEnter rx _ | .receivePoll rx _
  | .receiveReady rx _ | .receiveRecv rx | .classify rx _ _ | .callback rx _ _
  | .callbackFailed rx _ _ | .delivered rx _ _ => some rx.receivedValidRecord
  | _ => none

/-- The same behind the step from this place. -/
def WorkerPc.hears : WorkerPc → Option Bool
  | .sessionBegin => some false
  | .validRecord _ _ => some true
  | pc => pc.heard?

/-- Inside `receive_session`, or just out of it. -/
def WorkerPc.inside : WorkerPc → Bool
  | .sessionDone _ | .escaped _ => true
  | pc => decide (pc.part ≠ .run)

theorem WorkerPc.not_reconnects_of_inside (h : pc.inside = true) : pc.reconnects = false := by
  cases pc <;> first | rfl | cases h

/-- A step hands the flag on, or leaves the session behind; from inside a
session it goes no further than its end. -/
structure HeardMove (pc pc' : WorkerPc) : Prop where
  heard : pc'.heard? = none ∨ pc'.heard? = pc.hears
  inside : pc.part ≠ .run → pc'.inside = true

theorem recordReturned_heard (rx : Reception) (outcome : Option SessionResult) :
    (recordReturned rx outcome).heard? = some rx.receivedValidRecord ∧
      (recordReturned rx outcome).inside = true := by
  cases outcome <;> exact ⟨rfl, rfl⟩

theorem connectStep_heard (hpart : pc.part = .connect)
    (h : connectStep choice s pc = some (pc', s')) : HeardMove pc pc' := by
  cases pc <;> cases hpart <;> dsimp only [connectStep] at h <;> (repeat' split at h) <;>
    cases h <;> exact ⟨.inr rfl, fun _ => rfl⟩

theorem configureStep_heard (hpart : pc.part = .configure)
    (h : configureStep P config w choice s pc = some (pc', s')) : HeardMove pc pc' := by
  cases pc <;> cases hpart <;> dsimp only [configureStep] at h
  case sessionCheck | configuredCheck =>
    cases h
    split <;> exact ⟨.inr rfl, fun _ => rfl⟩
  all_goals
    (repeat' split at h) <;> cases h <;>
      first | exact ⟨.inr rfl, fun _ => rfl⟩ | exact ⟨.inl rfl, fun _ => rfl⟩

theorem transportStep_heard (hpart : pc.part = .transport)
    (h : transportStep P choice s pc = some (pc', s')) : HeardMove pc pc' := by
  cases pc <;> cases hpart <;> dsimp only [transportStep] at h <;> (repeat' split at h) <;>
    cases h <;> exact ⟨.inr rfl, fun _ => rfl⟩

theorem receiveStep_heard (hpart : pc.part = .receive)
    (h : receiveStep config s pc = some (pc', s')) : HeardMove pc pc' := by
  cases pc <;> cases hpart <;> dsimp only [receiveStep] at h
  case receiveHead | receiveNow | malformed =>
    cases h
    split <;> exact ⟨.inr rfl, fun _ => rfl⟩
  all_goals
    (repeat' split at h) <;> cases h <;>
      first | exact ⟨.inr rfl, fun _ => rfl⟩ | exact ⟨.inl rfl, fun _ => rfl⟩

theorem recordStep_heard (hpart : pc.part = .record)
    (h : recordStep P config w choice s pc = some (pc', s')) : HeardMove pc pc' := by
  have hreturned (rx : Reception) (outcome : Option SessionResult)
      (hpc : pc.hears = some rx.receivedValidRecord) :
      HeardMove pc (recordReturned rx outcome) := by
    obtain ⟨hheard, hinside⟩ := recordReturned_heard rx outcome
    exact ⟨.inr (hheard.trans hpc.symm), fun _ => hinside⟩
  cases pc <;> cases hpart <;> dsimp only [recordStep] at h <;> (repeat' split at h) <;> cases h
  all_goals first
    | exact hreturned _ _ rfl
    | exact ⟨.inr rfl, fun _ => rfl⟩
    | exact ⟨.inl rfl, fun _ => rfl⟩

theorem withMessage_receivedValidRecord (outcome : SessionOutcome) :
    outcome.withMessage.receivedValidRecord = outcome.receivedValidRecord := by
  unfold SessionOutcome.withMessage
  split <;> rfl

theorem runStep_heard (hpart : pc.part = .run)
    (h : runStep config w choice backoff s pc = some (pc', backoff', s')) : HeardMove pc pc' := by
  refine ⟨?_, fun hne => absurd hpart hne⟩
  cases pc <;> cases hpart <;> dsimp only [runStep] at h
  case sessionDone outcome =>
    split at h <;> cases h
    exact .inr (congrArg some (withMessage_receivedValidRecord outcome))
  case sessionClosed outcome =>
    cases h
    split
    · exact .inl rfl
    · split
      · exact .inl rfl
      · exact .inr rfl
  case loopHead | escaped =>
    cases h
    split <;> exact .inl rfl
  all_goals
    (repeat' split at h) <;> cases h <;> exact .inl rfl

theorem workerStep_heard {t t' : Worker} (h : workerStep P config w choice t s = some (t', s')) :
    HeardMove t.pc t'.pc := by
  cases (workerStep_parts h).2 with
  | run part step => exact runStep_heard part step
  | connect part step => exact connectStep_heard part step
  | configure part step => exact configureStep_heard part step
  | transport part step => exact transportStep_heard part step
  | receive part step => exact receiveStep_heard part step
  | record part step => exact recordStep_heard part step

theorem workerStep_backoff {t t' : Worker} (h : workerStep P config w choice t s = some (t', s'))
    (hpart : t.pc.part ≠ .run) : t'.backoff = t.backoff := by
  cases (workerStep_parts h).2 with
  | run part => exact absurd part hpart
  | connect | configure | transport | receive | record => rfl

theorem workerStep_delay {t t' : Worker} (h : workerStep P config w choice t s = some (t', s')) :
    DelayMove config s.clock t.pc t.backoff t'.pc t'.backoff := by
  by_cases hpart : t.pc.part = .run
  · cases (workerStep_parts h).2 with
    | run _ step => exact runStep_delay hpart step
    | connect other | configure other | transport other | receive other | record other =>
      cases hpart.symm.trans other
  · have hbefore : t.pc.reconnects = false := by
      by_contra hne
      exact hpart (part_of_reconnects (.inl (by simpa using hne)))
    have hafter := WorkerPc.not_reconnects_of_inside ((workerStep_heard h).inside hpart)
    rw [workerStep_backoff h hpart]
    exact .other hbefore (WorkerPc.delaying_of_not_reconnects hafter)
      (fun hpc => by rw [hafter] at hpc; cases hpc)
      fun hleft => absurd (part_of_reconnects (.inr hleft)) hpart

/-- What a step adds to `reconnect_count`. -/
def WorkerPc.reconnectDelta : WorkerPc → Nat
  | .enterBackoff _ => 1
  | _ => 0

theorem RecordMove.reconnectCount (hmove : RecordMove P config s s' pc pc') :
    s'.health.reconnectCount = s.health.reconnectCount + pc.reconnectDelta := by
  have hclass {record : RawRecord} {receivedAt : TimePoint} {decision : RecordDecision}
      (h : s.toImpl.classifyRecord config record receivedAt = (s'.toImpl, .ok decision)) :
      s'.health.reconnectCount = s.health.reconnectCount := by
    have hsame := classifyRecord_reconnectCount config s.toImpl record receivedAt
    rwa [h] at hsame
  cases hmove with
  | outside before after tally =>
    refine (congrArg (fun x : Tally => x.counts.reconnectCount) tally).trans ?_
    cases pc
    case timedOut =>
      dsimp only [WorkerPc.counted]
      split <;> rfl
    case applyConfiguration configuration =>
      exact (applyConfiguration_facts s.toImpl configuration).2
    all_goals rfl
  | arrives impl => rw [impl]; rfl
  | refused _ _ tally => exact congrArg (fun x : Tally => x.counts.reconnectCount) tally
  | settled classified => exact hclass classified
  | unscaled classified => exact hclass classified
  | handed classified => exact hclass classified
  | returned same => rw [same]; rfl
  | threw same => rw [same]; rfl
  | failed impl => rw [impl]; rfl
  | delivered impl => rw [impl]; rfl

end Worker

/-! ## The running thread and the others -/

section System

variable {P : Platform} {config : Config} {s s' : Sys}

/-- What a step is for the one thread that runs: it moves, or there is a
new one, or it stays where it was. -/
inductive RunStep (P : Platform) (config : Config) (s : Sys) (l : Label) (s' : Sys) : Prop where
  | own (w : Nat) (choice : WorkerChoice) (t t' : Worker) (label : l = .worker w choice)
      (present : s.workers w = some t) (running : t.pc.phase ≠ .done)
      (step : workerStep P config w choice t s.shared = some (t', s'.shared))
      (after : s'.workers w = some t')
      (alone : ∀ v u, s'.workers v = some u → u.pc.phase ≠ .done → v = w ∧ u = t')
  | spawned (label : ∀ w choice, l ≠ .worker w choice) (created : s.created < s'.created)
      (counts : s'.shared.health.counts = s.shared.health.counts)
      (fresh : ∀ v u, s'.workers v = some u → u.pc.phase ≠ .done →
        u = { backoff := config.reconnectInitialDelay.value })
  | beside (label : ∀ w choice, l ≠ .worker w choice) (created : s'.created = s.created)
      (counts : s'.shared.health.counts = s.shared.health.counts)
      (clock : s.shared.clock ≤ s'.shared.clock)
      (threads : ∀ w, (s'.workers w).map (fun t => (t.pc, t.backoff))
        = (s.workers w).map (fun t => (t.pc, t.backoff)))

theorem run_step (hwf : s.Wf) (hcounts : s.CountsWf) {l : Label}
    (hstep : s.step P config l = some s') : RunStep P config s l s' := by
  have hwf' := hwf.step hstep
  have hclock := clock_le_of_step hstep
  cases Sys.step_move hstep with
  | tick ticks => exact .beside (fun _ _ h => (by cases h)) rfl rfl hclock fun _ => rfl
  | places label places =>
    refine .beside ?_ places.created (by rw [places.shared]) hclock places.threads
    rintro w choice rfl
    rcases label with ⟨_, _, _, h⟩ | ⟨_, h⟩ <;> cases h
  | @call c call pc' u choice hc _ move =>
    have hsame := move.counts fun d => hcounts c call d hc
    have hidle := fun hres => hwf.inactive_of_resets hc hres
    obtain ⟨caller, op, pc⟩ := call
    cases move with
    | spawn =>
      refine .spawned (fun _ _ h => (by cases h)) (Nat.lt_succ_self _) hsame fun v t ht hrun => ?_
      by_cases hv : v = s.created
      · subst hv
        simp only [Sys.spawn, Sys.setCall_workers, Function.update_self, Option.some.injEq] at ht
        exact ht.symm
      · have hold : s.workers v = some t := by simpa [Sys.spawn, hv] using ht
        have hactive := hwf.active_of_running hold hrun
        rw [hidle rfl] at hactive
        cases hactive
    | _ => exact .beside (fun _ _ h => (by cases h)) rfl hsame hclock fun _ => rfl
  | @worker w t t' shared' choice ht step move =>
    have hself : ((s.withShared shared').setWorker w t').workers w = some t' := by
      simp [Sys.setWorker]
    refine .own w choice t t' rfl ht move.lifecycle.1 step hself fun v u hu hrun => ?_
    by_cases hv : v = w
    · subst hv
      exact ⟨rfl, Option.some.inj (hu.symm.trans hself)⟩
    · have hold : s.workers v = some u := by simpa [Sys.setWorker, Sys.withShared, hv] using hu
      have hactive := hwf.active_of_running hold hrun
      rw [hwf.active_of_running ht move.lifecycle.1] at hactive
      exact absurd (Option.some.inj hactive).symm hv

/-- A thread that stayed where it was. -/
theorem thread_of_same {w : Nat} (h : (s'.workers w).map (fun t => (t.pc, t.backoff))
    = (s.workers w).map (fun t => (t.pc, t.backoff))) {u : Worker} (hu : s'.workers w = some u) :
    ∃ t, s.workers w = some t ∧ t.pc = u.pc ∧ t.backoff = u.backoff := by
  rw [hu] at h
  obtain ⟨t, ht, heq⟩ := Option.map_eq_some_iff.mp h.symm
  exact ⟨t, ht, (Prod.mk.inj heq).1, (Prod.mk.inj heq).2⟩

end System

/-! ## The history of a run -/

/-- The run of the latest thread: the reconnects counted before it, whether
its session has received a valid record, which of its sessions failed and
what each had received, the delays after them, and whether one was lost. -/
structure DelayHistory where
  base : Nat := 0
  heard : Bool := false
  sessions : List Bool := []
  delays : List ℚ := []
  lost : Bool := false
  deriving DecidableEq

def DelayHistory.atWorker (h : DelayHistory) (t : Worker) (pc' : WorkerPc) : DelayHistory :=
  match t.pc with
  | .sessionBegin => { h with heard := false }
  | .validRecord _ _ => { h with heard := true }
  | .enterBackoff _ => { h with sessions := h.sessions ++ [h.heard] }
  | .backoffDeadline =>
      match pc' with
      | .backoffWait _ => { h with delays := h.delays ++ [t.backoff] }
      | _ => { h with lost := true }
  | _ => h

def DelayHistory.record (h : DelayHistory) (s : Sys) (l : Label) (s' : Sys) : DelayHistory :=
  match l with
  | .worker w _ =>
      match s.workers w, s'.workers w with
      | some t, some t' => h.atWorker t t'.pc
      | _, _ => h
  | _ => if s.created < s'.created then { base := s.shared.health.reconnectCount } else h

def delayLts (P : Platform) (config : Config) : Lts (Sys × DelayHistory) Label :=
  (clientLts P config).recorded {} DelayHistory.record

/-- The delays of the schedule. -/
def Config.delays (config : Config) (sessions : List Bool) : List ℚ :=
  CappedDoubling.waits config.reconnectInitialDelay.value config.reconnectMaxDelay.value sessions

def Config.delayAfter (config : Config) (before : List Bool) (heard : Bool) : ℚ :=
  CappedDoubling.waitAfter config.reconnectInitialDelay.value config.reconnectMaxDelay.value
    before heard

def Config.delayDue (config : Config) (sessions : List Bool) : ℚ :=
  CappedDoubling.due config.reconnectInitialDelay.value config.reconnectMaxDelay.value sessions

/-- The last session has no delay yet. -/
def DelayHistory.Owed (config : Config) (h : DelayHistory) (backoff : ℚ) : Prop :=
  ∃ before heard, h.sessions = before ++ [heard] ∧ h.delays = config.delays before ∧
    backoff = config.delayAfter before heard

/-- Every session has its delay, but for one that was lost. -/
def DelayHistory.Settled (config : Config) (h : DelayHistory) : Prop :=
  h.lost = false ∧ h.delays = config.delays h.sessions ∨ h.lost = true ∧
    ∃ backoff, h.Owed config backoff

structure DelayThread (config : Config) (clock : TimePoint) (h : DelayHistory) (pc : WorkerPc)
    (backoff : ℚ) : Prop where
  heard : ∀ b, pc.heard? = some b → h.heard = b
  policy : pc.reconnects = true → config.recoveryPolicy = .reconnect
  kept : pc.leaving = false → h.lost = false
  due : pc.leaving = false → pc.delaying = false →
    h.delays = config.delays h.sessions ∧ backoff = config.delayDue h.sessions
  owed : pc = .backoffDeadline → h.Owed config backoff
  waiting : ∀ deadline, pc = .backoffWait deadline →
    (∃ before heard, h.sessions = before ++ [heard] ∧ h.delays = config.delays h.sessions ∧
      backoff = config.delayAfter before heard) ∧
    ∃ origin, origin ≤ clock ∧ checkedDeadline origin (.finite backoff) = .ok deadline
  left : pc.leaving = true → h.Settled config

structure DelayWf (config : Config) (s : Sys) (h : DelayHistory) : Prop where
  count : s.shared.health.reconnectCount = h.base + h.sessions.length
  thread : ∀ w t, s.workers w = some t → t.pc.phase ≠ .done →
    DelayThread config s.shared.clock h t.pc t.backoff
  settled : ¬ s.At .backoffDeadline → h.Settled config

section Step

variable {config : Config} {clock : TimePoint} {h : DelayHistory} {t t' : Worker}
  {pc pc' : WorkerPc} {backoff : ℚ}

theorem Config.delays_concat (config : Config) (before : List Bool) (heard : Bool) :
    config.delays (before ++ [heard]) = config.delays before ++ [config.delayAfter before heard] :=
  CappedDoubling.waits_concat before heard

theorem Config.length_delays (config : Config) (sessions : List Bool) :
    (config.delays sessions).length = sessions.length :=
  CappedDoubling.length_waits _ _ sessions

theorem Config.delayDue_concat (config : Config) (before : List Bool) (heard : Bool) :
    config.delayDue (before ++ [heard])
      = min (config.delayAfter before heard * 2) config.reconnectMaxDelay.value :=
  CappedDoubling.due_concat before heard

theorem DelayHistory.heard_atWorker {b : Bool} (hhears : t.pc.hears = some b)
    (hheard : ∀ b, t.pc.heard? = some b → h.heard = b) : (h.atWorker t pc').heard = b := by
  have hother (hkept : (h.atWorker t pc').heard = h.heard) (hsame : t.pc.hears = t.pc.heard?) :
      (h.atWorker t pc').heard = b := hkept.trans (hheard b (hsame ▸ hhears))
  obtain ⟨pc, backoff, nested⟩ := t
  cases pc
  case sessionBegin | validRecord =>
    cases hhears
    rfl
  case backoffDeadline => cases hhears
  all_goals exact hother rfl rfl

/-- Away from the wait the history only notes the flag. -/
theorem DelayHistory.atWorker_other (hbefore : t.pc.reconnects = false) (h : DelayHistory)
    (pc' : WorkerPc) :
    (h.atWorker t pc').sessions = h.sessions ∧ (h.atWorker t pc').delays = h.delays ∧
      (h.atWorker t pc').lost = h.lost := by
  obtain ⟨pc, backoff, nested⟩ := t
  cases pc
  case enterBackoff | backoffDeadline => cases hbefore
  all_goals exact ⟨rfl, rfl, rfl⟩

theorem DelayThread.settled (ht : DelayThread config clock h pc backoff)
    (hpc : pc ≠ .backoffDeadline) : h.Settled config := by
  by_cases hleft : pc.leaving = true
  · exact ht.left hleft
  have hleft : pc.leaving = false := by simpa using hleft
  by_cases hdelaying : pc.delaying = true
  · cases pc with
    | backoffDeadline => exact absurd rfl hpc
    | backoffWait deadline =>
      obtain ⟨⟨_, _, -, hdelays, -⟩, -⟩ := ht.waiting deadline rfl
      exact .inl ⟨ht.kept rfl, hdelays⟩
    | _ => cases hdelaying
  · exact .inl ⟨ht.kept hleft, (ht.due hleft (by simpa using hdelaying)).1⟩

/-- One step of the thread. -/
theorem DelayThread.step (ht : DelayThread config clock h t.pc t.backoff)
    (hmove : DelayMove config clock t.pc t.backoff t'.pc t'.backoff)
    (hheard : HeardMove t.pc t'.pc) :
    DelayThread config clock (h.atWorker t t'.pc) t'.pc t'.backoff := by
  have hflag : ∀ b, t'.pc.heard? = some b → (h.atWorker t t'.pc).heard = b := by
    intro b hb
    rcases hheard.heard with hnone | hsame
    · rw [hnone] at hb
      cases hb
    · exact h.heard_atWorker (hsame.symm.trans hb) ht.heard
  obtain ⟨pc, backoff, nested⟩ := t
  obtain ⟨pc', backoff', nested'⟩ := t'
  dsimp only at ht hmove hflag ⊢
  cases hmove with
  | @enter outcome =>
    obtain ⟨hdelays, rfl⟩ := ht.due rfl rfl
    refine ⟨hflag, fun _ => ht.policy rfl, fun _ => ht.kept rfl, fun _ hno => (by cases hno),
      fun _ => ?_, fun _ hno => (by cases hno), fun hno => (by cases hno)⟩
    refine ⟨h.sessions, h.heard, rfl, hdelays, ?_⟩
    rw [ht.heard _ rfl]
    rfl
  | @wait _ deadline checked =>
    obtain ⟨before, heard, hsessions, hdelays, rfl⟩ := ht.owed rfl
    refine ⟨hflag, fun _ => ht.policy rfl, fun _ => ht.kept rfl, fun _ hno => (by cases hno),
      fun hno => (by cases hno), ?_,
      fun hno => (by cases hno)⟩
    rintro _ ⟨⟩
    refine ⟨⟨before, heard, hsessions, ?_, rfl⟩, clock, le_rfl, checked⟩
    change h.delays ++ [_] = config.delays h.sessions
    rw [hsessions, hdelays, config.delays_concat]
  | lose checked =>
    obtain ⟨before, heard, hsessions, hdelays, hbackoff⟩ := ht.owed rfl
    exact ⟨hflag, fun hno => (by cases hno), fun hno => (by cases hno), fun hno => (by cases hno),
      fun hno => (by cases hno), fun _ hno => (by cases hno),
      fun _ => .inr ⟨rfl, backoff, before, heard, hsessions, hdelays, hbackoff⟩⟩
  | @wake _ deadline =>
    obtain ⟨⟨before, heard, hsessions, hdelays, rfl⟩, -⟩ := ht.waiting deadline rfl
    refine ⟨hflag, fun hno => (by cases hno), fun _ => ht.kept rfl, fun _ _ => ⟨hdelays, ?_⟩,
      fun hno => (by cases hno),
      fun _ hno => (by cases hno), fun hno => (by cases hno)⟩
    change _ = config.delayDue h.sessions
    rw [hsessions, config.delayDue_concat]
  | other before after policy left =>
    have hbefore := WorkerPc.delaying_of_not_reconnects before
    obtain ⟨hsessions, hdelays, hlost⟩ :=
      DelayHistory.atWorker_other (t := ⟨pc, backoff, nested⟩) before h pc'
    have hstay : pc'.leaving = false → pc.leaving = false := by
      intro hleft
      by_contra hne
      rw [left (by simpa using hne)] at hleft
      cases hleft
    refine ⟨hflag, policy, fun hleft => hlost.trans (ht.kept (hstay hleft)), fun hleft _ => ?_,
      fun hpc => ?_, fun deadline hpc => ?_, fun _ => ?_⟩
    · rw [hdelays, hsessions]
      exact ht.due (hstay hleft) hbefore
    · rw [hpc] at after
      cases after
    · rw [hpc] at after
      cases after
    · have hsettled := ht.settled fun hpc => by rw [hpc] at before; cases before
      unfold DelayHistory.Settled DelayHistory.Owed at hsettled ⊢
      rwa [hsessions, hdelays, hlost]

theorem DelayThread.later (ht : DelayThread config clock h pc backoff) {clock' : TimePoint}
    (hle : clock ≤ clock') : DelayThread config clock' h pc backoff :=
  { ht with
    waiting := fun deadline hpc => by
      obtain ⟨hdelays, origin, horigin, hchecked⟩ := ht.waiting deadline hpc
      exact ⟨hdelays, origin, horigin.trans hle, hchecked⟩ }

end Step

section System

variable {P : Platform} {config : Config} {s s' : Sys} {h : DelayHistory}

theorem DelayHistory.sessions_atWorker (h : DelayHistory) (t : Worker) (pc' : WorkerPc) :
    (h.atWorker t pc').base + (h.atWorker t pc').sessions.length
      = h.base + h.sessions.length + t.pc.reconnectDelta := by
  obtain ⟨pc, backoff, nested⟩ := t
  cases pc
  case enterBackoff outcome =>
    change h.base + (h.sessions ++ [h.heard]).length = _
    rw [List.length_append, ← Nat.add_assoc]
    rfl
  case backoffDeadline => cases pc' <;> rfl
  all_goals rfl

theorem DelayHistory.record_own {w : Nat} {choice : WorkerChoice} {t t' : Worker}
    (ht : s.workers w = some t) (ht' : s'.workers w = some t') (h : DelayHistory) :
    h.record s (.worker w choice) s' = h.atWorker t t'.pc := by
  simp only [DelayHistory.record, ht, ht']

theorem DelayHistory.record_other {l : Label} (hlabel : ∀ w choice, l ≠ .worker w choice)
    (h : DelayHistory) : h.record s l s'
      = if s.created < s'.created then { base := s.shared.health.reconnectCount } else h := by
  cases l with
  | worker w choice => exact absurd rfl (hlabel w choice)
  | _ => rfl

theorem DelayWf.step (hs : DelayWf config s h) (hwf : s.Wf) (hcounts : s.CountsWf) {l : Label}
    (hstep : s.step P config l = some s') : DelayWf config s' (h.record s l s') := by
  cases run_step hwf hcounts hstep with
  | own w choice t t' label present running step after alone =>
    subst label
    have hclock := (workerStep_move step).clock
    have hthread : DelayThread config s.shared.clock (h.atWorker t t'.pc) t'.pc t'.backoff :=
      (hs.thread w t present running).step (workerStep_delay step) (workerStep_heard step)
    rw [h.record_own present after]
    refine ⟨?_, fun v u hu hrun => ?_,
      fun hnot => hthread.settled fun hpc => hnot ⟨w, t', after, hpc⟩⟩
    · rw [(workerStep_record step).reconnectCount, hs.count, h.sessions_atWorker]
    · obtain ⟨-, rfl⟩ := alone v u hu hrun
      rw [hclock]
      exact hthread
  | spawned label created counts fresh =>
    rw [h.record_other label, if_pos created]
    refine ⟨?_, fun v u hu hrun => ?_, fun _ => .inl ⟨rfl, rfl⟩⟩
    · change s'.shared.health.counts.reconnectCount = _
      rw [counts]
      rfl
    rw [fresh v u hu hrun]
    exact ⟨fun _ hno => (by cases hno), fun hno => (by cases hno), fun _ => rfl,
      fun _ _ => ⟨rfl, rfl⟩,
      fun hno => (by cases hno), fun _ hno => (by cases hno), fun hno => (by cases hno)⟩
  | beside label created counts clock threads =>
    rw [h.record_other label, if_neg (by omega)]
    refine ⟨?_, fun v u hu hrun => ?_, fun hnot => hs.settled ?_⟩
    · change s'.shared.health.counts.reconnectCount = _
      rw [counts]
      exact hs.count
    · obtain ⟨t, ht, hpc, hbackoff⟩ := thread_of_same (threads v) hu
      rw [← hpc, ← hbackoff]
      exact (hs.thread v t ht (hpc ▸ hrun)).later clock
    · rintro ⟨v, t, ht, hpc⟩
      obtain ⟨u, hu, hsame, -⟩ := thread_of_same (threads v).symm ht
      exact hnot ⟨v, u, hu, hsame.trans hpc⟩

theorem delayWf_of_reach {ok : Sys × DelayHistory → Label → Prop} {p : Sys × DelayHistory}
    (hreach : (delayLts P config).Reach ok p) : DelayWf config p.1 p.2 := by
  refine Lts.Reach.recorded_invariant ?_ ?_ hreach
  · rintro s ⟨clock, -, rfl⟩
    exact ⟨rfl, fun _ _ ht => (by cases ht), fun _ => .inl ⟨rfl, rfl⟩⟩
  · intro s h l t _ hs hstep hwf
    exact hwf.step (wf_of_reachable hs) (countsWf_of_reachable hs) hstep

/-! ## The schedule -/

/-- The delays of a run as its sessions determine them. Positions count
from 0: the delay at `k` follows the failed session at `k`. -/
structure DelayHistory.OnSchedule (config : Config) (h : DelayHistory) : Prop where
  latest : ∀ k m delay, h.delays[k]? = some delay → m ≤ k → h.sessions[m]? = some true →
    (∀ i, m < i → i ≤ k → h.sessions[i]? ≠ some true) →
    delay = min (config.reconnectInitialDelay.value * 2 ^ (k - m)) config.reconnectMaxDelay.value
  none : ∀ k delay, h.delays[k]? = some delay → (∀ i, i ≤ k → h.sessions[i]? ≠ some true) →
    delay = min (config.reconnectInitialDelay.value * 2 ^ k) config.reconnectMaxDelay.value
  bounded : ∀ delay ∈ h.delays,
    config.reconnectInitialDelay.value ≤ delay ∧ delay ≤ config.reconnectMaxDelay.value
  growing : ∀ k delay delay', h.delays[k]? = some delay → h.delays[k + 1]? = some delay' →
    h.sessions[k + 1]? = some false → delay ≤ delay'

theorem Config.TimesOk.initial_nonneg (htimes : config.TimesOk) :
    0 ≤ config.reconnectInitialDelay.value := by
  obtain ⟨ticks, hticks⟩ := htimes.initial
  obtain ⟨q, hq, hnonneg, -⟩ := checkedDuration_ok hticks
  rw [hq]
  exact hnonneg

theorem DelayHistory.onSchedule (htimes : config.TimesOk) {done rest : List Bool}
    (hsessions : h.sessions = done ++ rest) (hdelays : h.delays = config.delays done) :
    h.OnSchedule config := by
  have hnonneg := htimes.initial_nonneg
  have hordered := htimes.ordered
  have hwaits : h.delays = CappedDoubling.waits config.reconnectInitialDelay.value
      config.reconnectMaxDelay.value done := hdelays
  have hlength (k : Nat) (delay : ℚ) (hk : h.delays[k]? = some delay) : k < done.length := by
    rw [hwaits] at hk
    have hlt := (List.getElem?_eq_some_iff.mp hk).1
    rwa [CappedDoubling.length_waits] at hlt
  have hdone (i k : Nat) (delay : ℚ) (hk : h.delays[k]? = some delay) (hle : i ≤ k) :
      h.sessions[i]? = done[i]? := by
    rw [hsessions, List.getElem?_append_left (hle.trans_lt (hlength k delay hk))]
  refine ⟨fun k m delay hk hle hsome hlater => ?_, fun k delay hk hnone => ?_, fun delay hmem => ?_,
    fun k delay delay' hk hk' hfailed => ?_⟩
  · rw [hdone m k delay hk hle] at hsome
    refine CappedDoubling.wait_of_latest hnonneg hordered (hwaits ▸ hk) hle hsome
      fun i hi hik => ?_
    rw [← hdone i k delay hk hik]
    exact hlater i hi hik
  · refine CappedDoubling.wait_of_none hnonneg hordered (hwaits ▸ hk) fun i hik => ?_
    rw [← hdone i k delay hk hik]
    exact hnone i hik
  · exact CappedDoubling.wait_mem hnonneg hordered (hwaits ▸ hmem)
  · rw [hdone (k + 1) (k + 1) delay' hk' le_rfl] at hfailed
    exact CappedDoubling.wait_mono hnonneg hordered (hwaits ▸ hk) (hwaits ▸ hk') hfailed

theorem DelayWf.onSchedule (hs : DelayWf config s h) (htimes : config.TimesOk) :
    h.OnSchedule config := by
  have howed (backoff : ℚ) (h' : h.Owed config backoff) : h.OnSchedule config := by
    obtain ⟨before, heard, hsessions, hdelays, -⟩ := h'
    exact h.onSchedule htimes hsessions hdelays
  by_cases hat : s.At .backoffDeadline
  · obtain ⟨w, t, ht, hpc⟩ := hat
    exact howed t.backoff ((hs.thread w t ht
      (by rw [hpc]; exact fun hno => (by cases hno))).owed hpc)
  · rcases hs.settled hat with ⟨-, hdelays⟩ | ⟨-, backoff, h'⟩
    · exact h.onSchedule htimes (List.append_nil _).symm hdelays
    · exact howed backoff h'

/-! ## Deadlines in range -/

/-- When the step looks at the clock for the deadline of a delay, the
delay that is due for the sessions so far still fits. -/
def DelayFits (config : Config) (p : Sys × DelayHistory) (l : Label) : Prop :=
  ∀ w choice t delay ticks, l = .worker w choice → p.1.workers w = some t →
    t.pc = .backoffDeadline → (config.delays p.2.sessions).getLast? = some delay →
    checkedDuration (.finite delay) = .ok ticks → p.1.shared.clock + ticks ≤ maxTicks

/-- The delay a thread is about to wait. -/
theorem DelayHistory.Owed.last {backoff : ℚ} (h' : h.Owed config backoff) :
    (config.delays h.sessions).getLast? = some backoff := by
  obtain ⟨before, heard, hsessions, -, rfl⟩ := h'
  rw [hsessions, config.delays_concat, List.getLast?_concat]

theorem DelayHistory.Owed.duration {backoff : ℚ} (h' : h.Owed config backoff)
    (htimes : config.TimesOk) : ∃ ticks, checkedDuration (.finite backoff) = .ok ticks := by
  obtain ⟨before, heard, -, -, rfl⟩ := h'
  obtain ⟨ticks, hticks⟩ := htimes.maximum
  obtain ⟨hlow, hhigh⟩ :=
    CappedDoubling.waitAfter_mem htimes.initial_nonneg htimes.ordered before heard
  obtain ⟨ticks', -, hticks'⟩ :=
    checkedDuration_of_le hticks (htimes.initial_nonneg.trans hlow) hhigh
  exact ⟨ticks', hticks'⟩

/-- The step that looks at the clock: the delay fits and is waited, or it
does not and is lost. -/
theorem DelayWf.waits_or_loses (hs : DelayWf config s h) (htimes : config.TimesOk) {w : Nat}
    {choice : WorkerChoice} {t : Worker} (ht : s.workers w = some t) (hpc : t.pc = .backoffDeadline)
    (hstep : s.step P config (.worker w choice) = some s') :
    DelayFits config (s, h) (.worker w choice) ∧
        h.record s (.worker w choice) s' = { h with delays := config.delays h.sessions } ∨
      ¬ DelayFits config (s, h) (.worker w choice) ∧
        h.record s (.worker w choice) s' = { h with lost := true } := by
  have howed := (hs.thread w t ht (by rw [hpc]; exact fun hno => (by cases hno))).owed hpc
  obtain ⟨ticks, hticks⟩ := howed.duration htimes
  obtain ⟨u, t', shared', hu, step, -, ht'⟩ := Sys.step_worker hstep
  obtain rfl : t = u := Option.some.inj (ht.symm.trans hu)
  have hmove := workerStep_delay step
  rw [h.record_own ht ht']
  obtain ⟨pc, backoff, nested⟩ := t
  obtain ⟨pc', backoff', nested'⟩ := t'
  obtain rfl : pc = .backoffDeadline := hpc
  cases hmove with
  | wait checked =>
    have hle : s.shared.clock + ticks ≤ maxTicks := by
      obtain ⟨ticks', hticks', heq⟩ := checkedDeadline_ok checked
      obtain rfl : ticks = ticks' := Except.ok.inj (hticks.symm.trans hticks')
      exact heq ▸ checkedDeadline_le checked
    refine .inl ⟨?_, ?_⟩
    · rintro v choice' u delay ticks' - - - hdelay hticks'
      obtain rfl := Option.some.inj (howed.last.symm.trans hdelay)
      obtain rfl : ticks = ticks' := Except.ok.inj (hticks.symm.trans hticks')
      exact hle
    · obtain ⟨before, heard, hsessions, hdelays, rfl⟩ := howed
      rw [hsessions, config.delays_concat, ← hdelays, ← hsessions]
      rfl
  | lose checked =>
    refine .inr ⟨fun hfits => ?_, rfl⟩
    have hle := hfits w choice _ backoff ticks rfl ht rfl howed.last hticks
    rw [checkedDeadline_of_le hticks hle] at checked
    cases checked
  | other before => cases before

theorem DelayHistory.lost_atWorker {t : Worker} (hpc : t.pc ≠ .backoffDeadline) (h : DelayHistory)
    (pc' : WorkerPc) : (h.atWorker t pc').lost = h.lost := by
  obtain ⟨pc, backoff, nested⟩ := t
  cases pc
  case backoffDeadline => exact absurd rfl hpc
  all_goals rfl

/-- Where the maximal delay fits, every delay does. -/
theorem delayFits_of_maximum (htimes : config.TimesOk) {ticks : Nat}
    (hticks : checkedDuration config.reconnectMaxDelay = .ok ticks) {p : Sys × DelayHistory}
    (hfit : p.1.shared.clock + ticks ≤ maxTicks) (l : Label) : DelayFits config p l := by
  rintro w choice t delay ticks' - - - hdelay hticks'
  obtain ⟨hlow, hhigh⟩ := CappedDoubling.wait_mem htimes.initial_nonneg htimes.ordered
    (List.mem_of_getLast? hdelay)
  obtain ⟨ticks'', hle, hsame⟩ :=
    checkedDuration_of_le hticks (htimes.initial_nonneg.trans hlow) hhigh
  obtain rfl : ticks'' = ticks' := Except.ok.inj (hsame.symm.trans hticks')
  exact (Nat.add_le_add_left hle _).trans hfit

/-- As long as the delays fit, none is lost. -/
theorem kept_of_reach {p : Sys × DelayHistory}
    (hreach : (delayLts P config).Reach (DelayFits config) p) : p.2.lost = false := by
  have htimes : config.TimesOk := timesOk_of_reach (Lts.Reach.unrecorded hreach)
  have hboth : DelayWf config p.1 p.2 ∧ p.2.lost = false := by
    refine Lts.Reach.recorded_invariant (I := fun s h => DelayWf config s h ∧ h.lost = false)
      ?_ ?_ hreach
    · rintro s ⟨clock, -, rfl⟩
      exact ⟨⟨rfl, fun _ _ ht => (by cases ht), fun _ => .inl ⟨rfl, rfl⟩⟩, rfl⟩
    · rintro s h l s' hfits hs hstep ⟨hwf, hkept⟩
      refine ⟨hwf.step (wf_of_reachable hs) (countsWf_of_reachable hs) hstep, ?_⟩
      cases run_step (wf_of_reachable hs) (countsWf_of_reachable hs) hstep with
      | own w choice t t' label present running step after =>
        subst label
        by_cases hpc : t.pc = .backoffDeadline
        · rcases hwf.waits_or_loses htimes present hpc hstep with ⟨-, hrecord⟩ | ⟨hnot, -⟩
          · rw [hrecord]
            exact hkept
          · exact absurd hfits hnot
        · rw [h.record_own present after, h.lost_atWorker hpc]
          exact hkept
      | spawned label created =>
        rw [h.record_other label, if_pos created]
      | beside label created =>
        rw [h.record_other label, if_neg (by omega)]
        exact hkept
  exact hboth.2

/-- **The delays follow the schedule, one for each reconnect.** In every
run the delay after a failed session is the initial one doubled for every
failed session since the latest that had received a valid record, or
since the beginning, up to the maximal one; delays stay in their bounds
and do not shrink before a valid record. A delay is waited exactly when
it fits the clock at that moment; in a run in which each does there are
as many as `reconnect_count` has gone up, but for the one a thread is
about to wait. -/
theorem reconnect_backoff_schedule (P : Platform) (config : Config) {s : Sys} {h : DelayHistory}
    (hreach : (delayLts P config).Reachable (s, h)) :
    h.OnSchedule config ∧
    (∀ w t deadline, s.workers w = some t → t.pc = .backoffWait deadline →
      ∃ delay origin, h.delays.getLast? = some delay ∧ origin ≤ s.shared.clock ∧
        checkedDeadline origin (.finite delay) = .ok deadline) ∧
    (∀ w choice t s', s.workers w = some t → t.pc = .backoffDeadline →
      s.step P config (.worker w choice) = some s' →
      (DelayFits config (s, h) (.worker w choice) ↔
        s'.shared.health.reconnectCount
          = h.base + (h.record s (.worker w choice) s').delays.length)) ∧
    ((delayLts P config).Reach (DelayFits config) (s, h) →
      (¬ s.At .backoffDeadline →
        s.shared.health.reconnectCount = h.base + h.delays.length) ∧
      (s.At .backoffDeadline →
        s.shared.health.reconnectCount = h.base + h.delays.length + 1)) := by
  have htimes : config.TimesOk := timesOk_of_reach (Lts.Reach.unrecorded hreach)
  have hwf : DelayWf config s h := delayWf_of_reach hreach
  have hrun {t : Worker} (hpc : t.pc = .backoffDeadline) : t.pc.phase ≠ .done := by
    rw [hpc]
    exact fun hno => (by cases hno)
  have howed {backoff : ℚ} (h' : h.Owed config backoff) :
      h.sessions.length = h.delays.length + 1 := by
    obtain ⟨before, heard, hsessions, hdelays, -⟩ := h'
    rw [hsessions, hdelays, config.length_delays, List.length_append, List.length_singleton]
  refine ⟨hwf.onSchedule htimes, ?_, ?_, fun hfit => ⟨fun hat => ?_, ?_⟩⟩
  · intro w t deadline ht hpc
    have hthread := hwf.thread w t ht (by rw [hpc]; exact fun hno => (by cases hno))
    obtain ⟨⟨before, heard, hsessions, hdelays, hbackoff⟩, origin, horigin, hchecked⟩ :=
      hthread.waiting deadline hpc
    refine ⟨t.backoff, origin, ?_, horigin, hchecked⟩
    rw [hdelays, hsessions, config.delays_concat, List.getLast?_concat, hbackoff]
  · intro w choice t s' ht hpc hstep
    obtain ⟨u, t', shared', hu, step, hshared, -⟩ := Sys.step_worker hstep
    obtain rfl : t = u := Option.some.inj (ht.symm.trans hu)
    have hcount : s'.shared.health.reconnectCount = h.base + h.sessions.length := by
      rw [hshared, (workerStep_record step).reconnectCount, hwf.count, hpc]
      rfl
    rw [hcount]
    rcases hwf.waits_or_loses htimes ht hpc hstep with ⟨hfits, hrecord⟩ | ⟨hnot, hrecord⟩
    · rw [hrecord]
      exact ⟨fun _ => by rw [config.length_delays], fun _ => hfits⟩
    · refine ⟨fun hfits => absurd hfits hnot, fun heq => ?_⟩
      have hlength := howed ((hwf.thread w t ht (hrun hpc)).owed hpc)
      rw [hrecord] at heq
      dsimp only at heq
      omega
  · rcases hwf.settled hat with ⟨-, hdelays⟩ | ⟨hlost, -⟩
    · rw [hwf.count, hdelays, config.length_delays]
    · rw [kept_of_reach hfit] at hlost
      cases hlost
  · rintro ⟨w, t, ht, hpc⟩
    rw [hwf.count, howed ((hwf.thread w t ht (hrun hpc)).owed hpc), Nat.add_assoc]

end System

/-- The way from a session that was refused into the next, which is
refused too. -/
def refusedAgain : List Label :=
  [.worker 0 .go, .worker 0 .go, .worker 0 .go, .tick 250000000, .worker 0 .go, .worker 0 .go,
   .worker 0 .go, .worker 0 .go, .worker 0 (.http (.failed "")), .worker 0 .go, .worker 0 .go,
   .worker 0 (.connect (some "refused")), .worker 0 .go, .worker 0 (.send .sent), .worker 0 .go,
   .worker 0 .go, .worker 0 .go]

/-- Two sessions without a valid record: the second delay is twice the
first. -/
theorem reconnect_backoff_schedule_refused :
    ∃ s h, (delayLts exactPlatform overrideConfig).Reach (DelayFits overrideConfig) (s, h) ∧
      h.delays = [1 / 4, 1 / 2] ∧ s.shared.health.reconnectCount = 2 ∧
      h.OnSchedule overrideConfig := by
  have htimes := validateConfig_timesOk overrideConfig_valid
  have hmaximum : checkedDuration overrideConfig.reconnectMaxDelay = .ok 5000000000 := by
    decide +kernel
  have hinit : (delayLts exactPlatform overrideConfig).Reach (DelayFits overrideConfig)
      (Sys.new overrideConfig 1000, {}) := .init ⟨⟨1000, overrideConfig_valid, rfl⟩, rfl⟩
  obtain ⟨⟨s, h⟩, hs, hp⟩ := Lts.exists_of_execChecked (l := refusedRun ++ refusedAgain)
    (p := fun p : Sys × DelayHistory => decide (p.2.delays = [1 / 4, 1 / 2] ∧
      p.1.shared.health.reconnectCount = 2))
    (fun p _ => decide (p.1.shared.clock + 5000000000 ≤ maxTicks))
    (fun p l hclock => delayFits_of_maximum htimes hmaximum (of_decide_eq_true hclock) l)
    hinit (by decide +kernel)
  obtain ⟨hdelays, hcount⟩ := of_decide_eq_true hp
  exact ⟨s, h, hs, hdelays, hcount,
    (reconnect_backoff_schedule exactPlatform overrideConfig hs.reachable).1⟩

/-- A delay close to the range of the clock, which `validate` accepts
early on. -/
def longDelayConfig : Config :=
  { overrideConfig with
    reconnectInitialDelay := .finite 9223000000
    reconnectMaxDelay := .finite 9223000000 }

/-- Later the same delay has no deadline: the reconnect is counted, the
thread leaves without a delay. -/
theorem reconnect_counted_without_delay :
    ∃ s h, (delayLts exactPlatform longDelayConfig).Reachable (s, h) ∧
      s.workers 0 = some ⟨.done, 9223000000, none⟩ ∧ s.created = 1 ∧
      s.shared.health.reconnectCount = 1 ∧ h.base = 0 ∧ h.sessions = [false] ∧ h.delays = [] := by
  have hinit : (delayLts exactPlatform longDelayConfig).Reachable
      (Sys.new longDelayConfig 1000, {}) :=
    Lts.Reachable.init ⟨⟨1000, by decide +kernel, rfl⟩, rfl⟩
  obtain ⟨⟨s, h⟩, hs, hp⟩ := Lts.exists_of_exec (l := refusedRun ++ [.worker 0 .go, .worker 0 .go,
      .tick 400000000000000, .worker 0 .go, .worker 0 .go, .worker 0 .go, .worker 0 (.send .sent),
      .worker 0 .go, .worker 0 .go])
    (p := fun p : Sys × DelayHistory => decide (
      p.1.workers 0 = some ⟨.done, 9223000000, none⟩ ∧ p.1.created = 1 ∧
      p.1.shared.health.reconnectCount = 1 ∧ p.2.base = 0 ∧ p.2.sessions = [false] ∧
      p.2.delays = []))
    hinit (by decide +kernel)
  exact ⟨s, h, hs, of_decide_eq_true hp⟩

end PyNetFT.Core
