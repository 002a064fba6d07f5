/-
PyNetFT.Core.Recovery — the recovery policy over whole runs.

`run` turns session results into faults or reconnects. Seen from
outside, a run of the receive thread is a word of four events: a session
begins, a session ends, a backoff begins, a fault is latched. The
invariant ties the place of the thread to the word it has produced, for
each policy, and needs that nothing escapes `receive_session`: the
configuration parser throws `DiscoveryError` only, a configuration is
present whenever a record is handled, and no deadline leaves the range
of the clock.
-/
import PyNetFT.Core.Quiescence
import PyNetFT.Core.XmlConfigTheorems

namespace PyNetFT.Core

open PyNetFT.Lib

/-! ## Times of an accepted configuration -/

theorem checkedDuration_ok {duration : Binary64} {ticks : Nat}
    (h : checkedDuration duration = .ok ticks) :
    ∃ q : ℚ, duration = .finite q ∧ 0 ≤ q ∧ q * ticksPerSecond < maxTicks ∧
      ticks = (q * ticksPerSecond).floor.toNat := by
  unfold checkedDuration at h
  split at h
  · rename_i q
    split at h
    · cases h
    · rename_i hrange
      rw [not_or, not_lt, not_le] at hrange
      refine ⟨q, rfl, ?_, hrange.2, (Except.ok.inj h).symm⟩
      have hpos : (0 : ℚ) < (ticksPerSecond : ℚ) := by norm_num [ticksPerSecond]
      by_contra hneg
      exact absurd hrange.1 (not_le.mpr (mul_neg_of_neg_of_pos (not_le.mp hneg) hpos))
  · cases h

theorem requireSafeTimeout_ok {now : TimePoint} {name : String} {value : Binary64} {http : Bool}
    (h : requireSafeTimeout now name value http = .ok ()) :
    ∃ ticks, checkedDuration value = .ok ticks := by
  simp only [requireSafeTimeout, bind, Except.bind] at h
  split at h
  · cases h
  · split at h
    · cases h
    · rename_i ticks hticks
      exact ⟨ticks, hticks⟩

/-- What the run needs of a configuration. -/
structure Config.TimesOk (config : Config) : Prop where
  receive : ∃ ticks, checkedDuration config.receiveTimeout = .ok ticks
  initial : ∃ ticks, checkedDuration config.reconnectInitialDelay = .ok ticks
  maximum : ∃ ticks, checkedDuration config.reconnectMaxDelay = .ok ticks
  ordered : config.reconnectInitialDelay.value ≤ config.reconnectMaxDelay.value

theorem validateConfig_timesOk {now : TimePoint} {config : Config}
    (h : validateConfig now config = .ok ()) : config.TimesOk := by
  unfold validateConfig at h
  dsimp only at h
  split at h
  · cases h
  · obtain ⟨_, -, h⟩ := bind_ok h
    obtain ⟨_, -, h⟩ := bind_ok h
    obtain ⟨_, hreceive, h⟩ := bind_ok h
    obtain ⟨_, -, h⟩ := bind_ok h
    obtain ⟨_, -, h⟩ := bind_ok h
    obtain ⟨_, hinitial, h⟩ := bind_ok h
    obtain ⟨_, hmaximum, h⟩ := bind_ok h
    split at h
    · cases h
    · rename_i hordered
      exact ⟨requireSafeTimeout_ok hreceive, requireSafeTimeout_ok hinitial,
        requireSafeTimeout_ok hmaximum, not_lt.mp hordered⟩

/-- The deadlines the run computes at this clock reading stay within the
range of the clock. -/
def Config.DeadlinesFit (config : Config) (clock : Nat) : Prop :=
  ∀ ticks, checkedDuration config.receiveTimeout = .ok ticks ∨
    checkedDuration config.reconnectMaxDelay = .ok ticks → clock + ticks ≤ maxTicks

theorem checkedDuration_lt {duration : Binary64} {ticks : Nat}
    (h : checkedDuration duration = .ok ticks) : ticks < maxTicks := by
  obtain ⟨q, -, hnonneg, hrange, rfl⟩ := checkedDuration_ok h
  have hpos : 0 < maxTicks := by decide
  have hfloor : (q * ticksPerSecond).floor < (maxTicks : ℤ) := by
    rw [Rat.floor_lt_iff]
    exact_mod_cast hrange
  omega

/-- A shorter duration is in range too. -/
theorem checkedDuration_of_le {longest : Binary64} {ticks : Nat}
    (h : checkedDuration longest = .ok ticks) {q : ℚ} (hnonneg : 0 ≤ q) (hle : q ≤ longest.value) :
    ∃ ticks', ticks' ≤ ticks ∧ checkedDuration (.finite q) = .ok ticks' := by
  obtain ⟨q', rfl, -, hrange, rfl⟩ := checkedDuration_ok h
  have hpos : (0 : ℚ) ≤ (ticksPerSecond : ℚ) := by norm_num [ticksPerSecond]
  have hmul : q * ticksPerSecond ≤ q' * ticksPerSecond := mul_le_mul_of_nonneg_right hle hpos
  refine ⟨(q * ticksPerSecond).floor.toNat, Int.toNat_le_toNat (Rat.floor_monotone hmul), ?_⟩
  unfold checkedDuration
  dsimp only
  rw [if_neg]
  rw [not_or, not_lt, not_le]
  exact ⟨mul_nonneg hnonneg hpos, lt_of_le_of_lt hmul hrange⟩

theorem checkedDeadline_ok {origin deadline : Nat} {duration : Binary64}
    (h : checkedDeadline origin duration = .ok deadline) :
    ∃ ticks, checkedDuration duration = .ok ticks ∧ deadline = origin + ticks := by
  unfold checkedDeadline at h
  split at h
  · cases h
  · rename_i ticks hticks
    split at h <;> cases h
    exact ⟨ticks, hticks, rfl⟩

theorem checkedDeadline_of_le {origin : Nat} {duration : Binary64} {ticks : Nat}
    (h : checkedDuration duration = .ok ticks) (hfit : origin + ticks ≤ maxTicks) :
    checkedDeadline origin duration = .ok (origin + ticks) := by
  rw [checkedDeadline, h]
  dsimp only
  rw [if_neg (by omega)]

theorem checkedDeadline_le {origin deadline : Nat} {duration : Binary64}
    (h : checkedDeadline origin duration = .ok deadline) : deadline ≤ maxTicks := by
  unfold checkedDeadline at h
  split at h
  · cases h
  · rename_i ticks hticks
    have hlt := checkedDuration_lt hticks
    split at h <;> cases h
    omega

theorem receiveDeadline_ok {config : Config} (hok : config.TimesOk) {clock : Nat}
    (hfit : config.DeadlinesFit clock) :
    ∃ deadline, checkedDeadline clock config.receiveTimeout = .ok deadline := by
  obtain ⟨ticks, hticks⟩ := hok.receive
  exact ⟨_, checkedDeadline_of_le hticks (hfit ticks (.inl hticks))⟩

/-- A backoff delay no longer than the maximal one has a deadline too. -/
theorem backoffDeadline_ok {config : Config} (hok : config.TimesOk) {clock : Nat}
    (hfit : config.DeadlinesFit clock) {backoff : ℚ} (hnonneg : 0 ≤ backoff)
    (hle : backoff ≤ config.reconnectMaxDelay.value) :
    ∃ deadline, checkedDeadline clock (.finite backoff) = .ok deadline := by
  obtain ⟨ticks, hticks⟩ := hok.maximum
  have hsum := hfit ticks (.inr hticks)
  obtain ⟨ticks', hshorter, hticks'⟩ := checkedDuration_of_le hticks hnonneg hle
  exact ⟨_, checkedDeadline_of_le hticks' (by omega)⟩

/-! ## Runs as words -/

/-- What the recovery policy of one receive thread does. -/
inductive RunEvent where
  | started
  | ended (result : SessionResult)
  | backoff
  | latched (code : FaultCode)
  deriving DecidableEq

def Event.runEvent (w : Nat) : Event → Option RunEvent
  | .sessionStarted v => if v = w then some .started else none
  | .sessionEnded v result => if v = w then some (.ended result) else none
  | .backoff v => if v = w then some .backoff else none
  | .faultLatched v code => if v = w then some (.latched code) else none
  | _ => none

/-- The word of the receive thread `w`. -/
def runEvents (w : Nat) (log : List Event) : List RunEvent := log.filterMap (Event.runEvent w)

theorem runEvents_append (w : Nat) (a b : List Event) :
    runEvents w (a ++ b) = runEvents w a ++ runEvents w b :=
  List.filterMap_append

/-- All backoffs of all runs. -/
def backoffs (log : List Event) : Nat :=
  log.countP fun
    | .backoff _ => true
    | _ => false

theorem backoffs_append (a b : List Event) : backoffs (a ++ b) = backoffs a + backoffs b :=
  List.countP_append

/-- Events inside a session do not count. -/
def Event.ofRun : Event → Bool
  | .sessionStarted _ | .sessionEnded _ _ | .backoff _ | .faultLatched _ _ => true
  | _ => false

theorem runEvents_of_not_ofRun {e : Event} (he : e.ofRun = false) (w : Nat) :
    runEvents w [e] = [] := by
  cases e <;> simp_all [runEvents, Event.runEvent, Event.ofRun]

theorem backoffs_of_not_ofRun {e : Event} (he : e.ofRun = false) : backoffs [e] = 0 := by
  cases e <;> simp_all [backoffs, Event.ofRun]

/-! ## Where the thread is, as `run` sees it -/

inductive Stage where
  | head | begin | session
  | concluded (result : SessionResult)
  | closed (result : SessionResult)
  | entering (result : SessionResult)
  | waiting
  | latching (code : FaultCode)
  | escaped | leaving
  deriving DecidableEq

def WorkerPc.stage : WorkerPc → Stage
  | .loopHead => .head
  | .sessionBegin => .begin
  | .sessionDone outcome => .concluded outcome.result
  | .sessionClosed outcome => .closed outcome.result
  | .enterBackoff outcome => .entering outcome.result
  | .backoffDeadline | .backoffWait _ => .waiting
  | .latchFault code _ => .latching code
  | .escaped _ => .escaped
  | .finishClose | .finishExited | .finishState | .done => .leaving
  | _ => .session

/-- Behind `apply_configuration`. -/
def WorkerPc.configured (pc : WorkerPc) : Bool :=
  match pc.part with
  | .connect | .transport | .receive | .record => true
  | .configure =>
      match pc with
      | .configuredCheck | .resetTrackers | .firstDeadline => true
      | _ => false
  | .run => false

/-- The outcome a callback is surrounded by. -/
def WorkerPc.outcome? : WorkerPc → Option SessionResult
  | .callback _ outcome _ | .callbackFailed _ outcome _ | .delivered _ outcome _ => outcome
  | _ => none

/-- A configuration is there when it is needed, and no record's outcome
is `Stopped`. -/
structure WorkerPc.Ok (s : Shared) (pc : WorkerPc) : Prop where
  configured : pc.configured = true → s.health.sensorConfiguration.isSome = true
  outcome : pc.outcome? ≠ some .stopped

/-- What a step inside a session keeps and where it leads. -/
structure Inside (pc' : WorkerPc) (s s' : Shared) : Prop where
  events : ∀ w, runEvents w s'.log = runEvents w s.log
  backoffs : backoffs s'.log = backoffs s.log
  count : s'.health.reconnectCount = s.health.reconnectCount
  ok : pc'.Ok s'
  stage : pc'.stage = .session ∨
    ∃ result, pc'.stage = .concluded result ∧ (result = .stopped → s.stopping = true)

theorem WorkerPc.ok_of_run {pc : WorkerPc} (h : pc.part = .run) (s : Shared) : pc.Ok s where
  configured := by simp [WorkerPc.configured, h]
  outcome := by
    cases pc <;> simp_all [WorkerPc.part, WorkerPc.outcome?]

def InsideStep (s : Shared) (r : Option (WorkerPc × Shared)) : Prop :=
  ∀ pc' s', r = some (pc', s') → Inside pc' s s'

section Inside

variable {P : Platform} {config : Config} {w : Nat} {choice : WorkerChoice} {s s' : Shared}
  {pc pc' : WorkerPc}

theorem insideStep_none : InsideStep s none := by
  intro _ _ h
  cases h

/-- A step that only moves on inside the session. -/
theorem insideStep_same (hok : pc'.Ok s) (hstage : pc'.stage = .session) :
    InsideStep s (some (pc', s)) := by
  intro _ _ h
  cases h
  exact ⟨fun _ => rfl, rfl, rfl, hok, .inl hstage⟩

/-- A step that ends the session. -/
theorem insideStep_over {outcome : SessionOutcome}
    (hstopped : outcome.result = .stopped → s.stopping = true) :
    InsideStep s (some (.sessionDone outcome, s)) := by
  intro _ _ h
  cases h
  exact ⟨fun _ => rfl, rfl, rfl, WorkerPc.ok_of_run rfl s,
    .inr ⟨_, rfl, hstopped⟩⟩

theorem unlessStopping_stopped {result : SessionResult} (hne : result ≠ .stopped)
    (h : s.unlessStopping result = .stopped) : s.stopping = true := by
  unfold Shared.unlessStopping at h
  split at h
  · assumption
  · exact absurd h hne

theorem transportStep_inside (hpart : pc.part = .transport) (hok : pc.Ok s) :
    InsideStep s (transportStep P choice s pc) := by
  have hconf : s.health.sensorConfiguration.isSome = true :=
    hok.configured (by simp [WorkerPc.configured, hpart])
  have hnext : ∀ pc' : WorkerPc, pc'.outcome? = none → pc'.Ok s := by
    intro pc' hnone
    exact ⟨fun _ => hconf, by rw [hnone]; simp⟩
  cases pc <;> simp only [WorkerPc.part, reduceCtorEq] at hpart <;> dsimp only [transportStep]
  case receiveEnter rx timeout =>
    split
    · exact insideStep_same (hnext _ rfl) rfl
    · split
      · exact insideStep_same (hnext _ rfl) rfl
      · split
        · exact insideStep_same (hnext _ rfl) rfl
        · exact insideStep_same (hnext _ rfl) rfl
  case receivePoll rx polling =>
    split
    · split
      · exact insideStep_same (hnext _ rfl) rfl
      · exact insideStep_none
    · split
      · exact insideStep_same (hnext _ rfl) rfl
      · exact insideStep_same (hnext _ rfl) rfl
    · exact insideStep_same (hnext _ rfl) rfl
    · exact insideStep_same (hnext _ rfl) rfl
    · exact insideStep_none
  case receiveReady rx invalid =>
    split
    · exact insideStep_same (hnext _ rfl) rfl
    · split
      · exact insideStep_same (hnext _ rfl) rfl
      · exact insideStep_same (hnext _ rfl) rfl
  case receiveRecv rx =>
    split
    · exact insideStep_same (hnext _ rfl) rfl
    · exact insideStep_same (hnext _ rfl) rfl
    · exact insideStep_same (hnext _ rfl) rfl
    · exact insideStep_none

theorem receiveStep_inside (htimes : config.TimesOk) (hfit : config.DeadlinesFit s.clock)
    (hpart : pc.part = .receive) (hok : pc.Ok s) : InsideStep s (receiveStep config s pc) := by
  have hconf : s.health.sensorConfiguration.isSome = true :=
    hok.configured (by simp [WorkerPc.configured, hpart])
  have hnext : ∀ pc' : WorkerPc, pc'.outcome? = none → pc'.Ok s := by
    intro pc' hnone
    exact ⟨fun _ => hconf, by rw [hnone]; simp⟩
  cases pc <;> simp only [WorkerPc.part, reduceCtorEq] at hpart <;> dsimp only [receiveStep]
  case receiveHead rx =>
    split
    · rename_i hstop
      exact insideStep_over fun _ => hstop
    · exact insideStep_same (hnext _ rfl) rfl
  case receiveNow rx =>
    split
    · exact insideStep_same (hnext _ rfl) rfl
    · exact insideStep_same (hnext _ rfl) rfl
  case timedOut rx =>
    split
    · rename_i hstop
      exact insideStep_over fun _ => hstop
    · intro _ _ h
      cases h
      exact ⟨fun _ => rfl, rfl, rfl, WorkerPc.ok_of_run rfl _,
        .inr ⟨_, rfl, by intro e; cases e⟩⟩
  case receiveFailed rx message =>
    exact insideStep_over fun h => unlessStopping_stopped (by simp) h
  case received rx bytes =>
    split
    · rename_i hstop
      exact insideStep_over fun _ => hstop
    · split
      · exact insideStep_same (hnext _ rfl) rfl
      · split
        · exact insideStep_same (hnext _ rfl) rfl
        · exact insideStep_same (hnext _ rfl) rfl
  case malformed rx =>
    intro _ _ h
    cases h
    refine ⟨fun _ => rfl, rfl, rfl, ?_, ?_⟩
    · split
      · exact WorkerPc.ok_of_run rfl _
      · exact ⟨fun _ => hconf, by simp [WorkerPc.outcome?]⟩
    · split
      · exact .inr ⟨_, rfl, by intro e; cases e⟩
      · exact .inl rfl
  case validRecord rx record =>
    obtain ⟨deadline, hdeadline⟩ := receiveDeadline_ok htimes hfit
    rw [hdeadline]
    intro _ _ h
    cases h
    exact ⟨fun _ => rfl, rfl, rfl, ⟨fun _ => hconf, by simp [WorkerPc.outcome?]⟩, .inl rfl⟩

theorem applyConfiguration_facts (impl : Impl) (configuration : SensorConfiguration) :
    (impl.applyConfiguration configuration).health.sensorConfiguration.isSome = true ∧
      (impl.applyConfiguration configuration).health.reconnectCount
        = impl.health.reconnectCount := by
  unfold Impl.applyConfiguration
  split
  · exact ⟨rfl, rfl⟩
  · split
    · exact ⟨rfl, rfl⟩
    · exact ⟨rfl, rfl⟩

/-- `receive_session` behind its first line, up to the receive loop. -/
theorem configureStep_inside (htimes : config.TimesOk) (hfit : config.DeadlinesFit s.clock)
    (hpart : pc.part = .configure) (hbegin : pc ≠ .sessionBegin) (hok : pc.Ok s) :
    InsideStep s (configureStep P config w choice s pc) := by
  have hearly : ∀ pc' : WorkerPc, pc'.configured = false → pc'.outcome? = none → pc'.Ok s := by
    intro pc' hno hnone
    exact ⟨by simp [hno], by simp [hnone]⟩
  cases pc <;> simp only [WorkerPc.part, reduceCtorEq] at hpart <;> dsimp only [configureStep]
  case sessionBegin => exact absurd rfl hbegin
  case sessionCheck =>
    split
    · rename_i hstop
      exact insideStep_over fun _ => hstop
    · exact insideStep_same (hearly _ rfl rfl) rfl
  case configure =>
    split
    · rename_i transfer
      split
      · exact insideStep_same (hearly _ rfl rfl) rfl
      · exact insideStep_same (hearly _ rfl rfl) rfl
      · rename_i e hne herror
        -- nothing but a `DiscoveryError` comes out of the parser
        obtain ⟨message, rfl⟩ := configurationForSession_error P config transfer e herror
        exact absurd rfl (hne message)
    · exact insideStep_none
  case discoveryFailed message =>
    exact insideStep_over fun h => unlessStopping_stopped (by simp) h
  case applyConfiguration configuration =>
    obtain ⟨hsome, hcount⟩ := applyConfiguration_facts s.toImpl configuration
    intro _ _ h
    cases h
    exact ⟨fun _ => rfl, rfl, hcount, ⟨fun _ => hsome, by simp [WorkerPc.outcome?]⟩, .inl rfl⟩
  case configuredCheck =>
    have hconf := hok.configured rfl
    split
    · rename_i hstop
      exact insideStep_over fun _ => hstop
    · exact insideStep_same ⟨fun _ => hconf, by simp [WorkerPc.outcome?]⟩ rfl
  case resetTrackers =>
    have hconf := hok.configured rfl
    intro _ _ h
    cases h
    exact ⟨fun _ => rfl, rfl, rfl, ⟨fun _ => hconf, by simp [WorkerPc.outcome?]⟩, .inl rfl⟩
  case firstDeadline =>
    have hconf := hok.configured rfl
    obtain ⟨deadline, hdeadline⟩ := receiveDeadline_ok htimes hfit
    rw [hdeadline]
    exact insideStep_same ⟨fun _ => hconf, by simp [WorkerPc.outcome?]⟩ rfl

/-- Events of sockets and callbacks are not events of the run. -/
theorem attempt_run (s : Shared) (command : Command) (event : SendEvent) :
    (∀ w, runEvents w (s.attempt command event).log = runEvents w s.log) ∧
      backoffs (s.attempt command event).log = backoffs s.log := by
  constructor
  · intro w
    rw [Shared.attempt, runEvents_append, runEvents_of_not_ofRun rfl, List.append_nil]
  · rw [Shared.attempt, backoffs_append, backoffs_of_not_ofRun rfl, Nat.add_zero]

theorem connected_run (s : Shared) :
    (∀ w, runEvents w s.connected.log = runEvents w s.log) ∧
      backoffs s.connected.log = backoffs s.log := by
  constructor
  · intro w
    cases hsocket : s.transport.socket <;>
      simp [Shared.connected, hsocket, runEvents, Event.runEvent]
  · cases hsocket : s.transport.socket <;> simp [Shared.connected, hsocket, backoffs]

theorem connectStep_inside (hpart : pc.part = .connect) (hok : pc.Ok s) :
    InsideStep s (connectStep choice s pc) := by
  have hconf : s.health.sensorConfiguration.isSome = true :=
    hok.configured (by simp [WorkerPc.configured, hpart])
  cases pc <;> simp only [WorkerPc.part, reduceCtorEq] at hpart <;> dsimp only [connectStep]
  case connect =>
    split
    · obtain ⟨hevents, hbackoffs⟩ := connected_run s
      intro _ _ h
      cases h
      exact ⟨hevents, hbackoffs, rfl, ⟨fun _ => hconf, by simp [WorkerPc.outcome?]⟩, .inl rfl⟩
    · exact insideStep_same ⟨fun _ => hconf, by simp [WorkerPc.outcome?]⟩ rfl
    · exact insideStep_none
  case startRealtime =>
    split
    · rename_i event
      obtain ⟨hevents, hbackoffs⟩ := attempt_run s .startRealtime event
      split
      · rename_i hstop
        exact insideStep_over fun _ => hstop
      · split
        · intro _ _ h
          cases h
          exact ⟨hevents, hbackoffs, rfl, ⟨fun _ => hconf, by simp [WorkerPc.outcome?]⟩, .inl rfl⟩
        · intro _ _ h
          cases h
          exact ⟨hevents, hbackoffs, rfl, ⟨fun _ => hconf, by simp [WorkerPc.outcome?]⟩, .inl rfl⟩
    · exact insideStep_none
  case connectFailed message =>
    exact insideStep_over fun h => unlessStopping_stopped (by simp) h

/-- Where a record leads, when its outcome is not `Stopped`. -/
theorem recordReturned_inside {outcome : Option SessionResult} (hne : outcome ≠ some .stopped)
    {rx : Reception} (hevents : ∀ w, runEvents w s'.log = runEvents w s.log)
    (hbackoffs : backoffs s'.log = backoffs s.log)
    (hcount : s'.health.reconnectCount = s.health.reconnectCount)
    (hconf : s'.health.sensorConfiguration.isSome = true) :
    InsideStep s (some (recordReturned rx outcome, s')) := by
  intro _ _ h
  cases h
  cases outcome with
  | none =>
    exact ⟨hevents, hbackoffs, hcount,
      ⟨fun _ => hconf, by simp [recordReturned, WorkerPc.outcome?]⟩, .inl rfl⟩
  | some result =>
    refine ⟨hevents, hbackoffs, hcount, WorkerPc.ok_of_run rfl _, .inr ⟨result, rfl, ?_⟩⟩
    rintro rfl
    exact absurd rfl hne

theorem callbackFailureOutcome_ne_stopped {policy : RecoveryPolicy}
    {outcome : Option SessionResult} (h : outcome ≠ some .stopped) :
    callbackFailureOutcome policy outcome ≠ some .stopped := by
  unfold callbackFailureOutcome
  split
  · exact h
  · simp

theorem recordStep_inside (hpart : pc.part = .record) (hok : pc.Ok s) :
    InsideStep s (recordStep P config w choice s pc) := by
  have hconf : s.health.sensorConfiguration.isSome = true :=
    hok.configured (by simp [WorkerPc.configured, hpart])
  cases pc <;> simp only [WorkerPc.part, reduceCtorEq] at hpart <;> dsimp only [recordStep]
  case classify rx record receivedAt =>
    obtain ⟨configuration, hsome⟩ := Option.isSome_iff_exists.mp hconf
    obtain ⟨impl, decision, hclass, -, -, hkeep, -, -, houtcome⟩ :=
      classifyRecord_ok config hsome record receivedAt
    have hcount := classifyRecord_reconnectCount config s.toImpl record receivedAt
    have hne : decision.outcome ≠ some .stopped := by
      rw [houtcome]
      exact recordOutcome_ne_stopped _ _ _
    rw [hclass] at hcount ⊢
    have hconf' : impl.health.sensorConfiguration.isSome = true := by rw [hkeep]; rfl
    dsimp only
    split
    · exact recordReturned_inside hne (fun _ => rfl) rfl hcount hconf'
    · split
      · exact recordReturned_inside (by simp) (fun _ => rfl) rfl hcount hconf'
      · split
        · intro _ _ h
          cases h
          refine ⟨?_, ?_, hcount, ⟨fun _ => hconf', hne⟩, .inl rfl⟩
          · intro v
            dsimp only
            rw [runEvents_append, runEvents_of_not_ofRun rfl, List.append_nil]
          · dsimp only
            rw [backoffs_append, backoffs_of_not_ofRun rfl, Nat.add_zero]
        · intro _ _ h
          cases h
          exact ⟨fun _ => rfl, rfl, hcount, ⟨fun _ => hconf', hne⟩, .inl rfl⟩
  case callback rx outcome sample =>
    split
    · exact insideStep_same ⟨fun _ => hconf, hok.outcome⟩ rfl
    · exact insideStep_same ⟨fun _ => hconf, hok.outcome⟩ rfl
    · exact insideStep_none
  case callbackFailed rx outcome message =>
    exact recordReturned_inside (callbackFailureOutcome_ne_stopped hok.outcome) (fun _ => rfl) rfl
      rfl hconf
  case delivered rx outcome sample =>
    exact recordReturned_inside hok.outcome (fun _ => rfl) rfl rfl hconf

end Inside

/-! ## The words of a run -/

/-- Sessions that failed, each followed by one backoff. -/
inductive Rounds : List RunEvent → Prop where
  | nil : Rounds []
  | snoc {word : List RunEvent} (result : SessionResult) (failed : result ≠ .stopped) :
      Rounds word → Rounds (word ++ [.started, .ended result, .backoff])

/-- The words a run can have produced so far. Under fail-stop there is one
session, and its failure is latched as exactly its own fault. -/
def RunWord : RecoveryPolicy → List RunEvent → Prop
  | .reconnect, word => Rounds word ∨ ∃ before, Rounds before ∧
      (word = before ++ [.started] ∨ ∃ result, word = before ++ [.started, .ended result])
  | .failStop, word => word = [] ∨ word = [.started] ∨
      (∃ result, word = [.started, .ended result]) ∨
      ∃ result, result ≠ .stopped ∧
        word = [.started, .ended result, .latched (faultFor result)]

/-- The word a thread has produced when it is at a given stage. -/
def RunOk (s : Shared) (word : List RunEvent) : RecoveryPolicy → Stage → Prop
  | .reconnect, .head | .reconnect, .begin => Rounds word
  | .reconnect, .waiting => Rounds word ∧ s.health.state = .backoff
  | .reconnect, .session => ∃ before, Rounds before ∧ word = before ++ [.started]
  | .reconnect, .concluded result =>
      (∃ before, Rounds before ∧ word = before ++ [.started]) ∧
        (result = .stopped → s.stopping = true)
  | .reconnect, .closed result =>
      (∃ before, Rounds before ∧ word = before ++ [.started, .ended result]) ∧
        (result = .stopped → s.stopping = true)
  | .reconnect, .entering result =>
      (∃ before, Rounds before ∧ word = before ++ [.started, .ended result]) ∧ result ≠ .stopped
  | .reconnect, .leaving => s.stopping = true ∧
      (Rounds word ∨ ∃ before result, Rounds before ∧ word = before ++ [.started, .ended result])
  | .reconnect, .latching _ | .reconnect, .escaped => False
  | .failStop, .head | .failStop, .begin => word = []
  | .failStop, .session => word = [.started]
  | .failStop, .concluded result => word = [.started] ∧ (result = .stopped → s.stopping = true)
  | .failStop, .closed result =>
      word = [.started, .ended result] ∧ (result = .stopped → s.stopping = true)
  | .failStop, .latching code =>
      ∃ result, result ≠ .stopped ∧ code = faultFor result ∧ word = [.started, .ended result]
  | .failStop, .leaving =>
      (s.stopping = true ∧ (word = [] ∨ word = [.started, .ended .stopped])) ∨
        ∃ result, result ≠ .stopped ∧
          word = [.started, .ended result, .latched (faultFor result)] ∧
          s.faultLatch = faultFor result
  | .failStop, .entering _ | .failStop, .waiting | .failStop, .escaped => False

theorem RunOk.word {s : Shared} {word : List RunEvent} {policy : RecoveryPolicy} {stage : Stage}
    (h : RunOk s word policy stage) : RunWord policy word := by
  cases policy with
  | reconnect =>
    cases stage with
    | head => exact .inl h
    | begin => exact .inl h
    | waiting => exact .inl h.1
    | session =>
      obtain ⟨before, hb, rfl⟩ := h
      exact .inr ⟨before, hb, .inl rfl⟩
    | concluded result =>
      obtain ⟨⟨before, hb, rfl⟩, -⟩ := h
      exact .inr ⟨before, hb, .inl rfl⟩
    | closed result =>
      obtain ⟨⟨before, hb, rfl⟩, -⟩ := h
      exact .inr ⟨before, hb, .inr ⟨result, rfl⟩⟩
    | entering result =>
      obtain ⟨⟨before, hb, rfl⟩, -⟩ := h
      exact .inr ⟨before, hb, .inr ⟨result, rfl⟩⟩
    | leaving =>
      rcases h.2 with hr | ⟨before, result, hb, rfl⟩
      · exact .inl hr
      · exact .inr ⟨before, hb, .inr ⟨result, rfl⟩⟩
    | latching code => exact h.elim
    | escaped => exact h.elim
  | failStop =>
    cases stage with
    | head => exact .inl h
    | begin => exact .inl h
    | session => exact .inr (.inl h)
    | concluded result => exact .inr (.inl h.1)
    | closed result => exact .inr (.inr (.inl ⟨result, h.1⟩))
    | latching code =>
      obtain ⟨result, -, -, rfl⟩ := h
      exact .inr (.inr (.inl ⟨result, rfl⟩))
    | leaving =>
      rcases h with ⟨-, rfl | rfl⟩ | ⟨result, hne, rfl, -⟩
      · exact .inl rfl
      · exact .inr (.inr (.inl ⟨_, rfl⟩))
      · exact .inr (.inr (.inr ⟨result, hne, rfl⟩))
    | entering result => exact h.elim
    | waiting => exact h.elim
    | escaped => exact h.elim

/-- The invariant of a running thread. -/
structure RunThread (config : Config) (w : Nat) (s : Shared) (pc : WorkerPc) (backoff : ℚ) :
    Prop where
  ok : pc.Ok s
  run : RunOk s (runEvents w s.log) config.recoveryPolicy pc.stage
  nonneg : 0 ≤ backoff
  bounded : backoff ≤ config.reconnectMaxDelay.value

/-- What a step of the thread adds to the words and to the count. -/
structure RunFrame (w : Nat) (s s' : Shared) : Prop where
  own : runEvents w s.log <+: runEvents w s'.log
  others : ∀ v, v ≠ w → runEvents v s'.log = runEvents v s.log
  count : s'.health.reconnectCount + backoffs s.log = s.health.reconnectCount + backoffs s'.log

theorem RunFrame.refl (w : Nat) (s : Shared) : RunFrame w s s :=
  ⟨List.prefix_rfl, fun _ _ => rfl, rfl⟩

section Run

variable {P : Platform} {config : Config} {w : Nat} {choice : WorkerChoice} {s s' : Shared}
  {pc pc' : WorkerPc} {backoff backoff' : ℚ}

theorem closeSession_run (s : Shared) (event : SendEvent) :
    (∀ v, runEvents v (s.closeSession event).log = runEvents v s.log) ∧
      backoffs (s.closeSession event).log = backoffs s.log ∧
      (s.closeSession event).health = s.health := by
  have hclosed : ∀ u : Shared, (∀ v, runEvents v (u.log ++ u.transport.socket.toList.map .closed)
      = runEvents v u.log) ∧
      backoffs (u.log ++ u.transport.socket.toList.map .closed) = backoffs u.log := by
    intro u
    cases u.transport.socket with
    | none => simp
    | some k => simp [runEvents, Event.runEvent, backoffs]
  obtain ⟨hevents, hbackoffs⟩ := hclosed (s.stopStreaming event)
  have hattempt := attempt_run s .stopStreaming event
  refine ⟨?_, ?_, ?_⟩
  · intro v
    refine (hevents v).trans ?_
    unfold Shared.stopStreaming
    split
    · exact hattempt.1 v
    · rfl
  · refine hbackoffs.trans ?_
    unfold Shared.stopStreaming
    split
    · exact hattempt.2
    · rfl
  · unfold Shared.closeSession Shared.stopStreaming
    dsimp only
    split <;> rfl

theorem runEvents_snoc (v : Nat) (log : List Event) (e : Event) :
    runEvents v (log ++ [e]) = runEvents v log ++ (e.runEvent v).toList := by
  rw [runEvents_append]
  cases h : e.runEvent v <;> simp [runEvents, h]

/-- Nothing was added to any word. -/
theorem RunFrame.of_same (hevents : ∀ v, runEvents v s'.log = runEvents v s.log)
    (hbackoffs : backoffs s'.log = backoffs s.log)
    (hcount : s'.health.reconnectCount = s.health.reconnectCount) : RunFrame w s s' :=
  ⟨(hevents w).symm ▸ List.prefix_rfl, fun v _ => hevents v, by rw [hbackoffs, hcount]⟩

/-- A session ends: its word gets its result. -/
theorem runStep_over {outcome : SessionOutcome}
    (hrun : RunOk s (runEvents w s.log) config.recoveryPolicy (.concluded outcome.result))
    (event : SendEvent) :
    RunOk { s.closeSession event with
          log := (s.closeSession event).log ++ [.sessionEnded w outcome.result] }
        (runEvents w ((s.closeSession event).log ++ [.sessionEnded w outcome.result]))
        config.recoveryPolicy (.closed outcome.result) ∧
      RunFrame w s { s.closeSession event with
        log := (s.closeSession event).log ++ [.sessionEnded w outcome.result] } := by
  obtain ⟨hevents, hbackoffs, hhealth⟩ := closeSession_run s event
  have hword : runEvents w ((s.closeSession event).log ++ [.sessionEnded w outcome.result])
      = runEvents w s.log ++ [.ended outcome.result] := by
    rw [runEvents_snoc, Event.runEvent, if_pos rfl, Option.toList_some, hevents]
  refine ⟨?_, ?_, ?_, ?_⟩
  · rw [hword]
    have hstopping := closeSession_stopping s event
    cases hpolicy : config.recoveryPolicy with
    | reconnect =>
      rw [hpolicy] at hrun
      obtain ⟨⟨before, hb, hw⟩, hstop⟩ := hrun
      refine ⟨⟨before, hb, ?_⟩, fun e => hstopping.trans (hstop e)⟩
      rw [hw, List.append_assoc]
      rfl
    | failStop =>
      rw [hpolicy] at hrun
      obtain ⟨hw, hstop⟩ := hrun
      refine ⟨?_, fun e => hstopping.trans (hstop e)⟩
      rw [hw]
      rfl
  · dsimp only
    rw [hword]
    exact List.prefix_append _ _
  · intro v hv
    dsimp only
    rw [runEvents_snoc, Event.runEvent, if_neg (Ne.symm hv), Option.toList_none, List.append_nil,
      hevents]
  · dsimp only
    rw [hhealth, backoffs_append, hbackoffs, backoffs]
    rfl

/-- Where `run` goes after it has closed a session. -/
theorem runStep_closed {outcome : SessionOutcome}
    (hrun : RunOk s (runEvents w s.log) config.recoveryPolicy (.closed outcome.result)) :
    RunOk s (runEvents w s.log) config.recoveryPolicy
      (if outcome.result ≠ .stopped ∧ config.recoveryPolicy = .failStop then
        WorkerPc.latchFault (faultFor outcome.result) outcome.message
      else if outcome.result = .stopped ∨ s.stopping then .finishClose
      else .enterBackoff outcome).stage := by
  split
  · rename_i hfail
    rw [hfail.2] at hrun ⊢
    exact ⟨outcome.result, hfail.1, rfl, hrun.1⟩
  · rename_i hno
    split
    · rename_i hleave
      cases hpolicy : config.recoveryPolicy with
      | reconnect =>
        rw [hpolicy] at hrun
        obtain ⟨⟨before, hb, hw⟩, hstop⟩ := hrun
        exact ⟨hleave.elim hstop id, .inr ⟨before, _, hb, hw⟩⟩
      | failStop =>
        rw [hpolicy] at hrun
        have hstopped : outcome.result = .stopped := by
          by_contra hne
          exact hno ⟨hne, hpolicy⟩
        refine .inl ⟨hrun.2 hstopped, .inr ?_⟩
        rw [hrun.1, hstopped]
    · rename_i hstay
      rw [not_or] at hstay
      have hpolicy : config.recoveryPolicy = .reconnect := by
        cases h : config.recoveryPolicy with
        | reconnect => rfl
        | failStop => exact absurd ⟨hstay.1, h⟩ hno
      rw [hpolicy] at hrun ⊢
      exact ⟨hrun.1, hstay.1⟩

theorem WorkerPc.ok_of_early {pc : WorkerPc} (hno : pc.configured = false)
    (hnone : pc.outcome? = none) (s : Shared) : pc.Ok s :=
  ⟨by simp [hno], by simp [hnone]⟩

/-- The log gets one event of the thread's own. -/
theorem RunFrame.of_event {e : Event} (hlog : s'.log = s.log ++ [e])
    (howner : ∀ v, v ≠ w → e.runEvent v = none)
    (hcount : s'.health.reconnectCount = s.health.reconnectCount + backoffs [e]) :
    RunFrame w s s' := by
  refine ⟨?_, ?_, ?_⟩
  · rw [hlog, runEvents_snoc]
    exact List.prefix_append _ _
  · intro v hv
    rw [hlog, runEvents_snoc, howner v hv, Option.toList_none, List.append_nil]
  · rw [hlog, backoffs_append, hcount]
    omega

theorem loopHead_run (hthread : RunThread config w s .loopHead backoff)
    (hnone : s.faultLatch = .none)
    (h : runStep config w choice backoff s .loopHead = some (pc', backoff', s')) :
    RunThread config w s' pc' backoff' ∧ RunFrame w s s' := by
  have hrun := hthread.run
  dsimp only [runStep] at h
  obtain ⟨rfl, rfl, rfl⟩ := by simpa using h
  refine ⟨⟨?_, ?_, hthread.nonneg, hthread.bounded⟩, .refl w s⟩
  · split
    · exact WorkerPc.ok_of_run rfl _
    · exact WorkerPc.ok_of_early rfl rfl _
  · have hfault : s.faulted = false := by simp [Impl.faulted, hnone]
    split
    · rename_i hleave
      have hstop : s.stopping = true := by simpa [hfault] using hleave
      cases hpolicy : config.recoveryPolicy with
      | reconnect =>
        rw [hpolicy] at hrun
        exact ⟨hstop, .inl hrun⟩
      | failStop =>
        rw [hpolicy] at hrun
        exact .inl ⟨hstop, .inl hrun⟩
    · cases hpolicy : config.recoveryPolicy with
      | reconnect => rwa [hpolicy] at hrun
      | failStop => rwa [hpolicy] at hrun

theorem sessionDone_run {outcome : SessionOutcome}
    (hthread : RunThread config w s (.sessionDone outcome) backoff)
    (h : runStep config w choice backoff s (.sessionDone outcome) = some (pc', backoff', s')) :
    RunThread config w s' pc' backoff' ∧ RunFrame w s s' := by
  dsimp only [runStep] at h
  split at h
  · rename_i event
    obtain ⟨rfl, rfl, rfl⟩ := by simpa using h
    obtain ⟨hclosed, hframe⟩ := runStep_over hthread.run event
    refine ⟨⟨WorkerPc.ok_of_run rfl _, ?_, hthread.nonneg, hthread.bounded⟩, hframe⟩
    have hresult : outcome.withMessage.result = outcome.result := by
      unfold SessionOutcome.withMessage
      split <;> rfl
    simpa only [WorkerPc.stage, hresult] using hclosed
  · cases h

theorem sessionClosed_run {outcome : SessionOutcome}
    (hthread : RunThread config w s (.sessionClosed outcome) backoff)
    (h : runStep config w choice backoff s (.sessionClosed outcome) = some (pc', backoff', s')) :
    RunThread config w s' pc' backoff' ∧ RunFrame w s s' := by
  dsimp only [runStep] at h
  obtain ⟨rfl, rfl, rfl⟩ := by simpa using h
  refine ⟨⟨?_, runStep_closed hthread.run, hthread.nonneg, hthread.bounded⟩, .refl w s⟩
  split
  · exact WorkerPc.ok_of_run rfl _
  · split
    · exact WorkerPc.ok_of_run rfl _
    · exact WorkerPc.ok_of_run rfl _

/-- Only fail-stop latches, and the first fault stays. -/
theorem latchFault_run {code : FaultCode} {message : String}
    (hthread : RunThread config w s (.latchFault code message) backoff)
    (hnone : s.faultLatch = .none)
    (h : runStep config w choice backoff s (.latchFault code message)
      = some (pc', backoff', s')) :
    RunThread config w s' pc' backoff' ∧ RunFrame w s s' := by
  have hrun := hthread.run
  dsimp only [runStep] at h
  obtain ⟨rfl, rfl, rfl⟩ := by simpa using h
  cases hpolicy : config.recoveryPolicy with
  | reconnect =>
    rw [hpolicy] at hrun
    exact hrun.elim
  | failStop =>
    rw [hpolicy] at hrun
    obtain ⟨result, hne, rfl, hw⟩ := hrun
    refine ⟨⟨WorkerPc.ok_of_run rfl _, ?_, hthread.nonneg, hthread.bounded⟩,
      .of_event (e := .faultLatched w (faultFor result)) (if_pos hnone)
        (fun v hv => if_neg (Ne.symm hv)) ?_⟩
    · rw [hpolicy]
      refine .inr ⟨result, hne, ?_, ?_⟩
      · dsimp only
        rw [if_pos hnone, runEvents_snoc, Event.runEvent, if_pos rfl, hw]
        rfl
      · simp [Impl.publish, hnone]
    · simp [Impl.publish, hnone, backoffs]

/-- A backoff begins, counted as one attempt to reconnect. -/
theorem enterBackoff_run (htimes : config.TimesOk) {outcome : SessionOutcome}
    (hthread : RunThread config w s (.enterBackoff outcome) backoff)
    (h : runStep config w choice backoff s (.enterBackoff outcome) = some (pc', backoff', s')) :
    RunThread config w s' pc' backoff' ∧ RunFrame w s s' := by
  have hrun := hthread.run
  dsimp only [runStep] at h
  obtain ⟨rfl, rfl, rfl⟩ := by simpa using h
  cases hpolicy : config.recoveryPolicy with
  | failStop =>
    rw [hpolicy] at hrun
    exact hrun.elim
  | reconnect =>
    rw [hpolicy] at hrun
    obtain ⟨⟨before, hb, hw⟩, hne⟩ := hrun
    have hinitial : 0 ≤ config.reconnectInitialDelay.value := by
      obtain ⟨ticks, hticks⟩ := htimes.initial
      obtain ⟨q, hq, hq0, -⟩ := checkedDuration_ok hticks
      rw [hq]
      exact hq0
    refine ⟨⟨WorkerPc.ok_of_run rfl _, ?_, ?_, ?_⟩,
      .of_event (e := .backoff w) rfl (fun v hv => if_neg (Ne.symm hv)) ?_⟩
    · rw [hpolicy]
      refine ⟨?_, rfl⟩
      dsimp only
      rw [runEvents_snoc, Event.runEvent, if_pos rfl, hw, List.append_assoc]
      exact .snoc _ hne hb
    · split
      · exact hinitial
      · exact hthread.nonneg
    · split
      · exact htimes.ordered
      · exact hthread.bounded
    · simp [backoffs]

/-- It is over: the next one is twice as long, up to the bound. -/
theorem backoffWait_run {deadline : TimePoint}
    (hthread : RunThread config w s (.backoffWait deadline) backoff)
    (h : runStep config w choice backoff s (.backoffWait deadline) = some (pc', backoff', s')) :
    RunThread config w s' pc' backoff' ∧ RunFrame w s s' := by
  have hrun := hthread.run
  dsimp only [runStep] at h
  split at h
  · obtain ⟨rfl, rfl, rfl⟩ := by simpa using h
    have hmaximum : 0 ≤ config.reconnectMaxDelay.value := hthread.nonneg.trans hthread.bounded
    refine ⟨⟨WorkerPc.ok_of_run rfl _, ?_, ?_, min_le_right _ _⟩, .refl w s⟩
    · cases hpolicy : config.recoveryPolicy with
      | reconnect =>
        rw [hpolicy] at hrun
        exact hrun.1
      | failStop =>
        rw [hpolicy] at hrun
        exact hrun.elim
    · exact le_min (mul_nonneg hthread.nonneg (by norm_num)) hmaximum
  · cases h

theorem finishClose_run (hthread : RunThread config w s .finishClose backoff)
    (h : runStep config w choice backoff s .finishClose = some (pc', backoff', s')) :
    RunThread config w s' pc' backoff' ∧ RunFrame w s s' := by
  have hrun := hthread.run
  dsimp only [runStep] at h
  split at h
  · rename_i event
    obtain ⟨rfl, rfl, rfl⟩ := by simpa using h
    obtain ⟨hevents, hbackoffs, hhealth⟩ := closeSession_run s event
    have hstopping := closeSession_stopping s event
    have hlatch : (s.closeSession event).faultLatch = s.faultLatch := by
      unfold Shared.closeSession Shared.stopStreaming
      dsimp only
      split <;> rfl
    refine ⟨⟨WorkerPc.ok_of_run rfl _, ?_, hthread.nonneg, hthread.bounded⟩,
      .of_same hevents hbackoffs (by rw [hhealth])⟩
    rw [hevents]
    cases hpolicy : config.recoveryPolicy with
    | reconnect =>
      rw [hpolicy] at hrun
      exact ⟨hstopping.trans hrun.1, hrun.2⟩
    | failStop =>
      rw [hpolicy] at hrun
      rcases hrun with ⟨hstop, hw⟩ | ⟨result, hne, hw, hl⟩
      · exact .inl ⟨hstopping.trans hstop, hw⟩
      · exact .inr ⟨result, hne, hw, hlatch.trans hl⟩
  · cases h

theorem finishState_run (hthread : RunThread config w s .finishState backoff)
    (h : runStep config w choice backoff s .finishState = some (pc', backoff', s')) :
    RunThread config w s' pc' backoff' ∧ RunFrame w s s' := by
  have hrun := hthread.run
  dsimp only [runStep] at h
  obtain ⟨rfl, rfl, rfl⟩ := by simpa using h
  refine ⟨⟨WorkerPc.ok_of_run rfl _, ?_, hthread.nonneg, hthread.bounded⟩, .of_same ?_ ?_ ?_⟩
  · cases hpolicy : config.recoveryPolicy <;> rw [hpolicy] at hrun <;> split <;> exact hrun
  · intro v
    split <;> rfl
  · split <;> rfl
  · split <;> rfl

/-- The steps of `run` and `finish_session`. -/
theorem runStep_run (htimes : config.TimesOk) (hfit : config.DeadlinesFit s.clock)
    (hpart : pc.part = .run) (hthread : RunThread config w s pc backoff)
    (hlatch : pc.phase.late = false → s.faultLatch = .none)
    (h : runStep config w choice backoff s pc = some (pc', backoff', s')) :
    RunThread config w s' pc' backoff' ∧ RunFrame w s s' := by
  cases pc <;> simp only [WorkerPc.part, reduceCtorEq] at hpart
  case loopHead => exact loopHead_run hthread (hlatch rfl) h
  case sessionDone outcome => exact sessionDone_run hthread h
  case sessionClosed outcome => exact sessionClosed_run hthread h
  case latchFault code message => exact latchFault_run hthread (hlatch rfl) h
  case enterBackoff outcome => exact enterBackoff_run htimes hthread h
  case backoffDeadline =>
    obtain ⟨deadline, hdeadline⟩ := backoffDeadline_ok htimes hfit hthread.nonneg hthread.bounded
    dsimp only [runStep] at h
    rw [hdeadline] at h
    obtain ⟨rfl, rfl, rfl⟩ := by simpa using h
    exact ⟨⟨WorkerPc.ok_of_run rfl _, hthread.run, hthread.nonneg, hthread.bounded⟩, .refl w s⟩
  case backoffWait deadline => exact backoffWait_run hthread h
  case escaped message =>
    have hrun := hthread.run
    cases hpolicy : config.recoveryPolicy <;> rw [hpolicy] at hrun <;> exact hrun.elim
  case finishClose => exact finishClose_run hthread h
  case finishExited =>
    have hrun := hthread.run
    dsimp only [runStep] at h
    obtain ⟨rfl, rfl, rfl⟩ := by simpa using h
    refine ⟨⟨WorkerPc.ok_of_run rfl _, ?_, hthread.nonneg, hthread.bounded⟩,
      .of_same (fun _ => rfl) rfl rfl⟩
    cases hpolicy : config.recoveryPolicy <;> rw [hpolicy] at hrun <;> exact hrun
  case finishState => exact finishState_run hthread h
  case done => cases h

/-- A session begins. -/
theorem sessionBegin_run (hthread : RunThread config w s .sessionBegin backoff)
    (h : configureStep P config w choice s .sessionBegin = some (pc', s')) :
    RunThread config w s' pc' backoff ∧ RunFrame w s s' := by
  have hrun := hthread.run
  dsimp only [configureStep] at h
  obtain ⟨rfl, rfl⟩ := Prod.mk.inj (Option.some.inj h)
  refine ⟨⟨WorkerPc.ok_of_early rfl rfl _, ?_, hthread.nonneg, hthread.bounded⟩,
    .of_event (e := .sessionStarted w) rfl (fun v hv => if_neg (Ne.symm hv)) rfl⟩
  dsimp only
  rw [runEvents_snoc, Event.runEvent, if_pos rfl, Option.toList_some]
  cases hpolicy : config.recoveryPolicy with
  | reconnect =>
    rw [hpolicy] at hrun
    exact ⟨_, hrun, rfl⟩
  | failStop =>
    rw [hpolicy] at hrun
    rw [show runEvents w s.log = [] from hrun]
    rfl

/-- A step inside a session leaves the word alone. -/
theorem Inside.run (hin : Inside pc' s s') (hstopping : s'.stopping = s.stopping)
    (hstage : pc.stage = .session) (hthread : RunThread config w s pc backoff) :
    RunThread config w s' pc' backoff ∧ RunFrame w s s' := by
  refine ⟨⟨hin.ok, ?_, hthread.nonneg, hthread.bounded⟩,
    .of_same hin.events hin.backoffs hin.count⟩
  have hrun := hthread.run
  rw [hstage] at hrun
  rw [hin.events]
  rcases hin.stage with hsession | ⟨result, hover, hstopped⟩
  · rw [hsession]
    cases hpolicy : config.recoveryPolicy <;> rw [hpolicy] at hrun <;> exact hrun
  · rw [hover]
    cases hpolicy : config.recoveryPolicy <;> rw [hpolicy] at hrun <;>
      exact ⟨hrun, fun e => hstopping.trans (hstopped e)⟩

theorem WorkerPc.stage_of_part {pc : WorkerPc} (hpart : pc.part ≠ .run)
    (hbegin : pc.part = .configure → pc ≠ .sessionBegin) : pc.stage = .session := by
  cases pc <;> simp_all [WorkerPc.part, WorkerPc.stage]

/-- One step of the receive thread, in the terms of its word. -/
theorem workerStep_run {t t' : Worker} (htimes : config.TimesOk)
    (hfit : config.DeadlinesFit s.clock) (hthread : RunThread config w s t.pc t.backoff)
    (hlatch : t.pc.phase.late = false → s.faultLatch = .none)
    (h : workerStep P config w choice t s = some (t', s')) :
    RunThread config w s' t'.pc t'.backoff ∧ RunFrame w s s' := by
  have hstopping := (workerStep_move h).stopping
  cases (workerStep_parts h).2 with
  | run part step => exact runStep_run htimes hfit part hthread hlatch step
  | connect part step =>
    exact (connectStep_inside part hthread.ok _ _ step).run hstopping
      (WorkerPc.stage_of_part (by rw [part]; simp) (by rw [part]; simp)) hthread
  | configure part step =>
    by_cases hbegin : t.pc = .sessionBegin
    · rw [hbegin] at step hthread
      exact sessionBegin_run hthread step
    · exact (configureStep_inside htimes hfit part hbegin hthread.ok _ _ step).run hstopping
        (WorkerPc.stage_of_part (by rw [part]; simp) fun _ => hbegin) hthread
  | transport part step =>
    exact (transportStep_inside part hthread.ok _ _ step).run hstopping
      (WorkerPc.stage_of_part (by rw [part]; simp) (by rw [part]; simp)) hthread
  | receive part step =>
    exact (receiveStep_inside htimes hfit part hthread.ok _ _ step).run hstopping
      (WorkerPc.stage_of_part (by rw [part]; simp) (by rw [part]; simp)) hthread
  | record part step =>
    exact (recordStep_inside part hthread.ok _ _ step).run hstopping
      (WorkerPc.stage_of_part (by rw [part]; simp) (by rw [part]; simp)) hthread

end Run

end PyNetFT.Core
