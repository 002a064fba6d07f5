/-
PyNetFT.Core.TimeRange — what `validate` promises about times, and what a
run needs.

`validate` looks at every duration by itself, and at each deadline as it
would be at that moment. Durations stay in range, and so do the
milliseconds for `poll` and for the HTTP client. Deadlines are computed
again at later clock readings. Whether they exist there is a matter of the
sum only: `Config.InRange` is exactly what all time computations of a run
need at one reading (`timesUsable_iff`), and where every reading that a
deadline is computed from has it, nothing escapes the receive thread.
Times are exact here: only the transport turns a tick count into a
`double` of seconds before it computes its deadline, and where that loses
nothing (`ExactSeconds`) no receive fails for its deadline.
-/
import PyNetFT.Core.Backoff
import PyNetFT.Core.ReceiveTimeouts
import PyNetFT.Core.Validated
import Mathlib.Algebra.Order.Archimedean.Basic

namespace PyNetFT.Core

open PyNetFT.Lib

/-! ## One reading of the clock -/

/-- At this reading the longest durations of the run have deadlines. -/
def Config.InRange (config : Config) (clock : Nat) : Prop :=
  (∀ ticks, checkedDuration config.receiveTimeout = .ok ticks → clock + ticks ≤ maxTicks) ∧
    (config.recoveryPolicy = .reconnect →
      ∀ ticks, checkedDuration config.reconnectMaxDelay = .ok ticks → clock + ticks ≤ maxTicks)

/-- All time computations of a run at this reading: the deadline of the
receive loop, those of the delays after any sessions, what is left of a
deadline set earlier, and the timers of the HTTP client. -/
structure Config.TimesUsable (config : Config) (clock : Nat) : Prop where
  receive : ∃ deadline, checkedDeadline clock config.receiveTimeout = .ok deadline
  backoff : config.recoveryPolicy = .reconnect → ∀ before heard,
    ∃ deadline, checkedDeadline clock (.finite (config.delayAfter before heard)) = .ok deadline
  remaining : ∀ origin now deadline : Nat, origin ≤ now → now ≤ clock → now < deadline →
    checkedDeadline origin config.receiveTimeout = .ok deadline →
    (∃ later, checkedDeadline clock (.finite ((deadline - now : Nat) / ticksPerSecond))
      = .ok later) ∧
      1 ≤ pollMilliseconds (deadline - now) ∧ pollMilliseconds (deadline - now) ≤ intMax
  connect : ∃ ms, timeoutMilliseconds config.configurationConnectTimeout "connect_timeout"
    = .ok ms ∧
    1 ≤ ms ∧ ms ≤ longMax
  total : ∃ ms, timeoutMilliseconds config.configurationTimeout "total_timeout" = .ok ms ∧
    1 ≤ ms ∧ ms ≤ longMax

section Reading

variable {config : Config} {now clock : Nat}

theorem requireSafeTimeout_pos {name : String} {value : Binary64} {http : Bool}
    (h : requireSafeTimeout now name value http = .ok ()) :
    value.isFinite = true ∧ 0 < value.value := by
  unfold requireSafeTimeout at h
  obtain ⟨_, hpositive, -⟩ := bind_ok h
  unfold requirePositiveFinite at hpositive
  split at hpositive
  · cases hpositive
  · rename_i hcond
    rw [not_or, not_le] at hcond
    exact ⟨by simpa using hcond.1, hcond.2⟩

/-- An accepted HTTP timeout is a timer of the HTTP client. -/
theorem requireSafeTimeout_milliseconds {name : String} {value : Binary64}
    (h : requireSafeTimeout now name value true = .ok ()) (field : String) :
    ∃ ms, timeoutMilliseconds value field = .ok ms ∧ 1 ≤ ms ∧ ms ≤ longMax := by
  obtain ⟨hfinite, hpos⟩ := requireSafeTimeout_pos h
  have hlimit : ⌈value.value * 1000⌉ < (longMax : ℤ) := by
    unfold requireSafeTimeout at h
    obtain ⟨_, -, h⟩ := bind_ok h
    obtain ⟨_, -, h⟩ := bind_ok h
    dsimp only at h
    split at h
    · cases h
    obtain ⟨_, -, h⟩ := bind_ok h
    split at h
    · cases h
    · rename_i hcond
      exact not_le.mp fun hle => hcond ⟨rfl, hle⟩
  refine ⟨⌈value.value * 1000⌉, ?_, Int.one_le_ceil_iff.mpr (mul_pos hpos (by norm_num)), hlimit.le⟩
  unfold timeoutMilliseconds
  dsimp only
  rw [if_neg, if_neg (not_lt.mpr hlimit.le)]
  rw [not_or, not_le, hfinite]
  exact ⟨by decide, hpos⟩

/-- Every duration `validate` has looked at. -/
theorem validateConfig_timeouts (h : validateConfig now config = .ok ()) :
    requireSafeTimeout now "configuration_connect_timeout"
        config.configurationConnectTimeout true = .ok () ∧
      requireSafeTimeout now "configuration_timeout" config.configurationTimeout true = .ok () ∧
      requireSafeTimeout now "reconnect_initial_delay" config.reconnectInitialDelay false
        = .ok () := by
  unfold validateConfig at h
  dsimp only at h
  split at h
  · cases h
  · obtain ⟨_, -, h⟩ := bind_ok h
    obtain ⟨_, -, h⟩ := bind_ok h
    obtain ⟨_, -, h⟩ := bind_ok h
    obtain ⟨_, hconnect, h⟩ := bind_ok h
    obtain ⟨_, htotal, h⟩ := bind_ok h
    obtain ⟨_, hinitial, h⟩ := bind_ok h
    exact ⟨hconnect, htotal, hinitial⟩

theorem pollMilliseconds_mem {remaining : Nat} (h : 0 < remaining) :
    1 ≤ pollMilliseconds remaining ∧ pollMilliseconds remaining ≤ intMax := by
  have hmax : 1 ≤ intMax := by decide
  refine ⟨le_min ?_ hmax, min_le_right _ _⟩
  rw [Nat.le_div_iff_mul_le (by norm_num)]
  omega

/-- Whole ticks are converted back to themselves. -/
theorem checkedDuration_ticks {ticks : Nat} (h : ticks < maxTicks) :
    checkedDuration (.finite (ticks / ticksPerSecond)) = .ok ticks := by
  have hne : (ticksPerSecond : ℚ) ≠ 0 := by norm_num [ticksPerSecond]
  have hfloor : (ticks : ℚ).floor = ticks := by rw [← Int.cast_natCast, Rat.floor_intCast]
  unfold checkedDuration
  dsimp only
  rw [div_mul_cancel₀ _ hne, if_neg, hfloor, Int.toNat_natCast]
  rw [not_or, not_lt, not_le]
  exact ⟨Nat.cast_nonneg _, by exact_mod_cast h⟩

/-- After enough sessions without a valid record the maximal delay is due. -/
theorem Config.exists_maximum (config : Config) (htimes : config.TimesOk)
    (hpos : 0 < config.reconnectInitialDelay.value) :
    ∃ before, config.delayAfter before false = config.reconnectMaxDelay.value := by
  obtain ⟨n, hn⟩ := pow_unbounded_of_one_lt
    (config.reconnectMaxDelay.value / config.reconnectInitialDelay.value) one_lt_two
  have hle : config.reconnectMaxDelay.value ≤ config.reconnectInitialDelay.value * 2 ^ n := by
    rw [mul_comm]
    exact ((div_lt_iff₀ hpos).mp hn).le
  have hnone : true ∉ List.replicate n false := by simp
  refine ⟨List.replicate n false, ?_⟩
  rw [Config.delayAfter, CappedDoubling.waitAfter_false,
    (CappedDoubling.due_eq hpos.le htimes.ordered _).2 hnone, List.length_replicate,
    min_eq_right hle]

theorem Config.InRange.receiveDeadline (hin : config.InRange clock)
    (htimes : config.TimesOk) :
    ∃ deadline, checkedDeadline clock config.receiveTimeout = .ok deadline := by
  obtain ⟨ticks, hticks⟩ := htimes.receive
  exact ⟨_, checkedDeadline_of_le hticks (hin.1 ticks hticks)⟩

theorem Config.InRange.backoffDeadline (hin : config.InRange clock)
    (htimes : config.TimesOk) (hpolicy : config.recoveryPolicy = .reconnect) (before : List Bool)
    (heard : Bool) :
    ∃ deadline, checkedDeadline clock (.finite (config.delayAfter before heard))
      = .ok deadline := by
  obtain ⟨longest, hlongest⟩ := htimes.maximum
  obtain ⟨hlow, hhigh⟩ :=
    CappedDoubling.waitAfter_mem htimes.initial_nonneg htimes.ordered before heard
  obtain ⟨ticks, hle, hticks⟩ :=
    checkedDuration_of_le hlongest (htimes.initial_nonneg.trans hlow) hhigh
  exact ⟨_, checkedDeadline_of_le hticks ((Nat.add_le_add_left hle _).trans
    (hin.2 hpolicy _ hlongest))⟩

/-- What is left of an earlier deadline. -/
theorem Config.InRange.remaining {remaining ticks : Nat} (hin : config.InRange clock)
    (hticks : checkedDuration config.receiveTimeout = .ok ticks) (hle : remaining ≤ ticks) :
    ∃ later, checkedDeadline clock (.finite (remaining / ticksPerSecond)) = .ok later :=
  ⟨_, checkedDeadline_of_le (checkedDuration_ticks (hle.trans_lt (checkedDuration_lt hticks)))
    ((Nat.add_le_add_left hle _).trans (hin.1 ticks hticks))⟩

/-- **What the run needs at one reading.** -/
theorem timesUsable_iff (h : validateConfig now config = .ok ()) (clock : Nat) :
    config.TimesUsable clock ↔ config.InRange clock := by
  have htimes := validateConfig_timesOk h
  obtain ⟨hconnect, htotal, hinitial⟩ := validateConfig_timeouts h
  have hpos := (requireSafeTimeout_pos hinitial).2
  constructor
  · intro husable
    refine ⟨fun ticks hticks => ?_, fun hpolicy ticks hticks => ?_⟩
    · obtain ⟨deadline, hdeadline⟩ := husable.receive
      obtain ⟨ticks', hticks', rfl⟩ := checkedDeadline_ok hdeadline
      obtain rfl : ticks = ticks' := Except.ok.inj (hticks.symm.trans hticks')
      exact checkedDeadline_le hdeadline
    · obtain ⟨before, hmaximum⟩ := config.exists_maximum htimes hpos
      obtain ⟨deadline, hdeadline⟩ := husable.backoff hpolicy before false
      obtain ⟨ticks', hticks', rfl⟩ := checkedDeadline_ok hdeadline
      obtain ⟨q, hq, -⟩ := checkedDuration_ok hticks
      rw [hmaximum, hq, Binary64.value, ← hq] at hticks'
      obtain rfl : ticks = ticks' := Except.ok.inj (hticks.symm.trans hticks')
      exact checkedDeadline_le hdeadline
  · intro hin
    obtain ⟨ticks, hticks⟩ := htimes.receive
    refine ⟨hin.receiveDeadline htimes, fun hpolicy => hin.backoffDeadline htimes hpolicy,
      fun origin now' deadline horigin hnow hlt hdeadline => ?_,
      requireSafeTimeout_milliseconds hconnect _, requireSafeTimeout_milliseconds htotal _⟩
    obtain ⟨ticks', hticks', rfl⟩ := checkedDeadline_ok hdeadline
    obtain rfl : ticks = ticks' := Except.ok.inj (hticks.symm.trans hticks')
    exact ⟨hin.remaining hticks (by omega), pollMilliseconds_mem (by omega)⟩

end Reading

/-! ## Where a run computes times -/

/-- The step from this place computes a deadline. -/
def WorkerPc.computesDeadline : WorkerPc → Bool
  | .firstDeadline | .validRecord _ _ | .receiveEnter _ _ | .backoffDeadline => true
  | _ => false

/-- Every reading that a deadline is computed from is in range. -/
def Sys.InRange (config : Config) (s : Sys) (l : Label) : Prop :=
  ∀ w choice t, l = .worker w choice → s.workers w = some t → t.pc.computesDeadline = true →
    config.InRange s.shared.clock

/-- A tick count loses nothing as a `double` of seconds. -/
def Platform.ExactSeconds (P : Platform) : Prop :=
  ∀ ticks : Nat, P.seconds ticks = .finite (ticks / ticksPerSecond)

/-- What is left of a `receive_timeout` is no more than the whole. -/
structure WorkerPc.Within (ticks clock : Nat) (pc : WorkerPc) : Prop where
  deadline : ∀ rx, pc.reception? = some rx → rx.deadline ≤ clock + ticks
  entering : ∀ rx timeout, pc = .receiveEnter rx timeout → 0 < timeout ∧ timeout ≤ ticks
  polling : ∀ rx polling, pc = .receivePoll rx polling → 0 < polling.remaining

section Worker

variable {P : Platform} {config : Config} {w : Nat} {choice : WorkerChoice} {u u' : Shared}
  {pc pc' : WorkerPc} {ticks : Nat}

/-- The loop is in the transport, with a timeout of its own. -/
def WorkerPc.timed : WorkerPc → Bool
  | .receiveEnter _ _ | .receivePoll _ _ => true
  | _ => false

/-- Elsewhere only the deadline of the loop counts. -/
theorem WorkerPc.Within.loop {clock : Nat} (htimed : pc.timed = false)
    (hrx : ∀ rx, pc.reception? = some rx → rx.deadline ≤ clock + ticks) :
    pc.Within ticks clock where
  deadline := hrx
  entering rx timeout h := by
    rw [h] at htimed
    cases htimed
  polling rx polling h := by
    rw [h] at htimed
    cases htimed

theorem WorkerPc.Within.outside (htimed : pc.timed = false) (hrx : pc.reception? = none)
    (clock : Nat) : pc.Within ticks clock :=
  .loop htimed fun rx h => by rw [hrx] at h; cases h

/-- The loop goes on with the deadline it has. -/
theorem WorkerPc.Within.keep {clock : Nat} (hin : pc.Within ticks clock)
    (htimed : pc'.timed = false) (hrx : pc'.reception? = pc.reception?) : pc'.Within ticks clock :=
  .loop htimed fun rx h => hin.deadline rx (hrx.symm.trans h)

theorem WorkerPc.Within.later {clock clock' : Nat} (h : pc.Within ticks clock)
    (hle : clock ≤ clock') : pc.Within ticks clock' where
  deadline rx hrx := (h.deadline rx hrx).trans (Nat.add_le_add_right hle _)
  entering := h.entering
  polling := h.polling

theorem transportStep_within (hpart : pc.part = .transport) (hin : pc.Within ticks u.clock)
    (h : transportStep P choice u pc = some (pc', u')) : pc'.Within ticks u.clock := by
  cases pc <;> cases hpart <;> dsimp only [transportStep] at h
  case receiveEnter rx timeout =>
    obtain ⟨hpos, -⟩ := hin.entering rx timeout rfl
    (repeat' split at h) <;> cases h
    case h_2 deadline hdeadline =>
      refine ⟨fun rx' hrx' => hin.deadline rx' hrx', fun _ _ hno => (by cases hno), ?_⟩
      rintro _ _ ⟨⟩
      exact hpos
    all_goals exact hin.keep rfl rfl
  case receivePoll rx polling =>
    split at h
    · split at h <;> cases h
      exact hin.keep rfl rfl
    · split at h <;> cases h
      · exact hin.keep rfl rfl
      · rename_i hlater
        -- interrupted: what is left of the timeout
        refine ⟨fun rx' hrx' => hin.deadline rx' hrx', fun _ _ hno => (by cases hno), ?_⟩
        rintro _ _ ⟨⟩
        exact Nat.sub_pos_of_lt (not_le.mp hlater)
    all_goals
      cases h
      try exact hin.keep rfl rfl
  case receiveReady | receiveRecv =>
    (repeat' split at h) <;> cases h <;> exact hin.keep rfl rfl

theorem receiveStep_within (hticks : checkedDuration config.receiveTimeout = .ok ticks)
    (hpart : pc.part = .receive) (hin : pc.Within ticks u.clock)
    (h : receiveStep config u pc = some (pc', u')) : pc'.Within ticks u.clock := by
  cases pc <;> cases hpart <;> dsimp only [receiveStep] at h
  case receiveNow rx =>
    cases h
    split
    · exact hin.keep rfl rfl
    · rename_i hlater
      refine ⟨fun rx' hrx' => hin.deadline rx' hrx', ?_, fun _ _ hno => (by cases hno)⟩
      rintro _ _ ⟨⟩
      exact ⟨Nat.sub_pos_of_lt (not_le.mp hlater), Nat.sub_le_iff_le_add'.mpr (hin.deadline rx rfl)⟩
  case validRecord rx record =>
    split at h <;> cases h
    · exact .outside rfl rfl _
    · rename_i deadline hdeadline
      obtain ⟨ticks', hticks', rfl⟩ := checkedDeadline_ok hdeadline
      obtain rfl : ticks = ticks' := Except.ok.inj (hticks.symm.trans hticks')
      refine .loop rfl ?_
      rintro _ ⟨⟩
      exact le_rfl
  case receiveHead rx | malformed rx =>
    cases h
    split
    · exact .outside rfl rfl _
    · exact hin.keep rfl rfl
  all_goals
    (repeat' split at h) <;> cases h <;> first | exact hin.keep rfl rfl | exact .outside rfl rfl _

theorem configureStep_within (hticks : checkedDuration config.receiveTimeout = .ok ticks)
    (hpart : pc.part = .configure) (h : configureStep P config w choice u pc = some (pc', u')) :
    pc'.Within ticks u.clock := by
  cases pc <;> cases hpart <;> dsimp only [configureStep] at h
  case firstDeadline =>
    split at h <;> cases h
    · exact .outside rfl rfl _
    · rename_i deadline hdeadline
      obtain ⟨ticks', hticks', rfl⟩ := checkedDeadline_ok hdeadline
      obtain rfl : ticks = ticks' := Except.ok.inj (hticks.symm.trans hticks')
      refine .loop rfl ?_
      rintro _ ⟨⟩
      exact le_rfl
  case sessionCheck | configuredCheck =>
    cases h
    split <;> exact .outside rfl rfl _
  all_goals
    (repeat' split at h) <;> cases h <;> exact .outside rfl rfl _

theorem recordStep_within (hpart : pc.part = .record) (hin : pc.Within ticks u.clock)
    (h : recordStep P config w choice u pc = some (pc', u')) : pc'.Within ticks u.clock := by
  have hreturned {rx : Reception} (hrx : pc.reception? = some rx) (outcome : Option SessionResult) :
      (recordReturned rx outcome).Within ticks u.clock := by
    cases outcome with
    | none => exact hin.keep rfl hrx.symm
    | some result => exact .outside rfl rfl _
  cases pc <;> cases hpart <;> dsimp only [recordStep] at h <;> (repeat' split at h) <;> cases h
  all_goals first
    | exact hreturned rfl _
    | exact hin.keep rfl rfl
    | exact .outside rfl rfl _

/-- The other parts have no deadline of a receive loop. -/
theorem runStep_timed {backoff backoff' : ℚ} (hpart : pc.part = .run)
    (h : runStep config w choice backoff u pc = some (pc', backoff', u')) :
    pc'.timed = false ∧ pc'.reception? = none := by
  cases pc <;> cases hpart <;> dsimp only [runStep] at h
  case loopHead | escaped =>
    cases h
    split <;> exact ⟨rfl, rfl⟩
  case sessionClosed outcome =>
    cases h
    (repeat' split) <;> exact ⟨rfl, rfl⟩
  all_goals
    (repeat' split at h) <;> cases h <;> exact ⟨rfl, rfl⟩

theorem connectStep_timed (hpart : pc.part = .connect)
    (h : connectStep choice u pc = some (pc', u')) :
    pc'.timed = false ∧ pc'.reception? = none := by
  cases pc <;> cases hpart <;> dsimp only [connectStep] at h <;> (repeat' split at h) <;>
    cases h <;> exact ⟨rfl, rfl⟩

theorem workerStep_within {t t' : Worker}
    (hticks : checkedDuration config.receiveTimeout = .ok ticks)
    (hin : t.pc.Within ticks u.clock) (h : workerStep P config w choice t u = some (t', u')) :
    t'.pc.Within ticks u.clock := by
  cases (workerStep_parts h).2 with
  | run hpart hr =>
    obtain ⟨htimed, hrx⟩ := runStep_timed hpart hr
    exact .outside htimed hrx _
  | connect hpart hr =>
    obtain ⟨htimed, hrx⟩ := connectStep_timed hpart hr
    exact .outside htimed hrx _
  | configure hpart hr =>
    exact configureStep_within hticks hpart hr
  | transport hpart hr =>
    exact transportStep_within hpart hin hr
  | receive hpart hr =>
    exact receiveStep_within hticks hpart hin hr
  | record hpart hr =>
    exact recordStep_within hpart hin hr

/-- What throws out of a session or out of the wait. -/
inductive Escapes (config : Config) (u : Shared) (backoff : ℚ) : WorkerPc → String → Prop where
  | first {message : String}
      (thrown : checkedDeadline u.clock config.receiveTimeout = .error message) :
      Escapes config u backoff .firstDeadline message
  | record {rx : Reception} {record : RawRecord} {message : String}
      (thrown : checkedDeadline u.clock config.receiveTimeout = .error message) :
      Escapes config u backoff (.validRecord rx record) message
  | delay {message : String} (thrown : checkedDeadline u.clock (.finite backoff) = .error message) :
      Escapes config u backoff .backoffDeadline message
  | unconfigured {rx : Reception} {record : RawRecord} {receivedAt : TimePoint} {message : String}
      (missing : u.health.sensorConfiguration = none) :
      Escapes config u backoff (.classify rx record receivedAt) message

theorem recordReturned_ne_escaped (rx : Reception) (outcome : Option SessionResult)
    (message : String) : recordReturned rx outcome ≠ .escaped message := by
  cases outcome <;> exact fun hno => (by cases hno)

theorem configureStep_escapes {message : String} (hpart : pc.part = .configure) (backoff : ℚ)
    (h : configureStep P config w choice u pc = some (pc', u')) (hpc : pc' = .escaped message) :
    Escapes config u backoff pc message := by
  cases pc <;> cases hpart <;> dsimp only [configureStep] at h
  case configure =>
    split at h
    · rename_i transfer
      split at h <;> cases h <;> cases hpc
      rename_i e hne herror
      -- nothing but a `DiscoveryError` comes out of the discovery
      obtain ⟨text, rfl⟩ := configurationForSession_error P config transfer e herror
      exact absurd rfl (hne text)
    · cases h
  case firstDeadline =>
    split at h <;> cases h <;> cases hpc
    rename_i hthrown
    exact .first hthrown
  case sessionCheck | configuredCheck =>
    cases h
    split at hpc <;> cases hpc
  all_goals
    cases h
    cases hpc

theorem runStep_escapes {backoff backoff' : ℚ} {message : String} (hpart : pc.part = .run)
    (h : runStep config w choice backoff u pc = some (pc', backoff', u'))
    (hpc : pc' = .escaped message) : Escapes config u backoff pc message := by
  cases pc <;> cases hpart <;> dsimp only [runStep] at h
  case backoffDeadline =>
    split at h <;> cases h <;> cases hpc
    rename_i hthrown
    exact .delay hthrown
  case loopHead | escaped =>
    cases h
    split at hpc <;> cases hpc
  case sessionClosed outcome =>
    cases h
    (repeat' split at hpc) <;> cases hpc
  all_goals
    (repeat' split at h) <;> cases h <;> cases hpc

theorem receiveStep_escapes {message : String} (hpart : pc.part = .receive) (backoff : ℚ)
    (h : receiveStep config u pc = some (pc', u')) (hpc : pc' = .escaped message) :
    Escapes config u backoff pc message := by
  cases pc <;> cases hpart <;> dsimp only [receiveStep] at h
  case validRecord rx record =>
    split at h <;> cases h <;> cases hpc
    rename_i hthrown
    exact .record hthrown
  case receiveHead | receiveNow | malformed =>
    cases h
    split at hpc <;> cases hpc
  all_goals
    (repeat' split at h) <;> cases h <;> cases hpc

theorem recordStep_escapes {message : String} (hpart : pc.part = .record) (backoff : ℚ)
    (h : recordStep P config w choice u pc = some (pc', u')) (hpc : pc' = .escaped message) :
    Escapes config u backoff pc message := by
  have hreturned {rx : Reception} {outcome : Option SessionResult}
      (heq : recordReturned rx outcome = .escaped message) : Escapes config u backoff pc message :=
    absurd heq (recordReturned_ne_escaped rx outcome message)
  cases pc <;> cases hpart <;> dsimp only [recordStep] at h
  case classify rx record receivedAt =>
    cases hconf : u.health.sensorConfiguration with
    | none => exact .unconfigured hconf
    | some configuration =>
      obtain ⟨impl, decision, hclass, -⟩ := classifyRecord_ok config hconf record receivedAt
      rw [hclass] at h
      dsimp only at h
      (repeat' split at h) <;> cases h <;> first | exact hreturned hpc | cases hpc
  all_goals
    (repeat' split at h) <;> cases h <;> first | exact hreturned hpc | cases hpc

theorem workerStep_escapes {t t' : Worker} {message : String}
    (h : workerStep P config w choice t u = some (t', u')) (hpc : t'.pc = .escaped message) :
    Escapes config u t.backoff t.pc message := by
  obtain ⟨pc, backoff, nested⟩ := t
  cases (workerStep_parts h).2 with
  | run hpart hr =>
    exact runStep_escapes hpart hr hpc
  | connect hpart hr =>
    cases pc <;> cases hpart <;> dsimp only [connectStep] at hr <;> (repeat' split at hr) <;>
      cases hr <;> cases hpc
  | configure hpart hr =>
    exact configureStep_escapes hpart _ hr hpc
  | transport hpart hr =>
    cases pc <;> cases hpart <;> dsimp only [transportStep] at hr <;> (repeat' split at hr) <;>
      cases hr <;> cases hpc
  | receive hpart hr =>
    exact receiveStep_escapes hpart _ hr hpc
  | record hpart hr =>
    exact recordStep_escapes hpart _ hr hpc

theorem runStep_latches {backoff backoff' : ℚ} {code : FaultCode} {message : String}
    (hpart : pc.part = .run)
    (h : runStep config w choice backoff u pc = some (pc', backoff', u'))
    (hpc : pc' = .latchFault code message) :
    (∃ outcome, pc = .sessionClosed outcome ∧ code = faultFor outcome.result) ∨
      pc = .escaped message := by
  cases pc <;> cases hpart <;> dsimp only [runStep] at h
  case sessionClosed outcome =>
    cases h
    refine .inl ⟨outcome, rfl, ?_⟩
    split at hpc
    · cases hpc
      rfl
    · split at hpc <;> cases hpc
  case escaped text =>
    cases h
    split at hpc <;> cases hpc
    exact .inr rfl
  case loopHead =>
    cases h
    split at hpc <;> cases hpc
  all_goals
    (repeat' split at h) <;> cases h <;> cases hpc

/-- A fault is latched for a session that failed or for what escaped. -/
theorem workerStep_latches {t t' : Worker} {code : FaultCode} {message : String}
    (h : workerStep P config w choice t u = some (t', u'))
    (hpc : t'.pc = .latchFault code message) :
    (∃ outcome, t.pc = .sessionClosed outcome ∧ code = faultFor outcome.result) ∨
      t.pc = .escaped message := by
  have hpart : t.pc.part = .run := by
    by_contra hne
    have hinside := (workerStep_heard h).inside hne
    rw [hpc] at hinside
    cases hinside
  cases (workerStep_parts h).2 with
  | run _ hr => exact runStep_latches hpart hr hpc
  | connect other | configure other | transport other | receive other | record other =>
    cases hpart.symm.trans other

/-- A receive that fails at its entry for another reason than its
deadline. -/
theorem receiveEnter_fails {rx : Reception} {timeout : Nat} {message : String} {t t' : Worker}
    {deadline : TimePoint}
    (hdeadline : checkedDeadline u.clock (P.seconds timeout) = .ok deadline)
    (h : workerStep P config w choice t u = some (t', u')) (hpc : t.pc = .receiveEnter rx timeout)
    (hpc' : t'.pc = .receiveFailed rx message) : u.transport.socket = none := by
  have hpart : t.pc.part = .transport := congrArg WorkerPc.part hpc
  cases (workerStep_parts h).2 with
  | transport _ hr =>
    rw [hpc] at hr
    dsimp only [transportStep] at hr
    rw [hdeadline] at hr
    split at hr
    · assumption
    · split at hr <;> cases hr <;> cases hpc'
  | run other | connect other | configure other | receive other | record other =>
    cases hpart.symm.trans other

end Worker

/-! ## Runs -/

section System

variable {P : Platform} {config : Config} {s s' : Sys}

/-- Every thread is within the timeout. -/
theorem within_of_reach {ok : Sys → Label → Prop} {ticks : Nat}
    (hticks : checkedDuration config.receiveTimeout = .ok ticks)
    (hreach : (clientLts P config).Reach ok s) :
    ∀ w t, s.workers w = some t → t.pc.phase ≠ .done → t.pc.Within ticks s.shared.clock := by
  refine Lts.Reach.invariant_using (K := (clientLts P config).Reachable)
    (I := fun s => ∀ w t, s.workers w = some t → t.pc.phase ≠ .done →
      t.pc.Within ticks s.shared.clock) (fun s hs => hs.reachable) ?_ ?_ hreach
  · rintro s ⟨clock, -, rfl⟩ w t ht
    cases ht
  · intro s l s' _ hstep hs _ hin v u hu hrun
    cases run_step (wf_of_reachable hs) (countsWf_of_reachable hs) hstep with
    | own w choice t t' label present running step after alone =>
      obtain ⟨-, rfl⟩ := alone v u hu hrun
      rw [(workerStep_move step).clock]
      exact workerStep_within hticks (hin w t present running) step
    | spawned label created counts fresh =>
      rw [fresh v u hu hrun]
      exact .outside rfl rfl _
    | beside label created counts clock threads =>
      obtain ⟨t, ht, hpc, -⟩ := thread_of_same (threads v) hu
      rw [← hpc]
      exact (hin v t ht (hpc ▸ hrun)).later clock

/-- In range nothing escapes. -/
theorem Config.InRange.no_escape (hs : (clientLts P config).Reachable s) {w : Nat}
    {choice : WorkerChoice} {t t' : Worker} {u' : Shared} (ht : s.workers w = some t)
    (hin : t.pc.computesDeadline = true → config.InRange s.shared.clock)
    (h : workerStep P config w choice t s.shared = some (t', u')) (message : String) :
    t'.pc ≠ .escaped message := by
  have htimes : config.TimesOk := timesOk_of_reach hs
  intro hpc
  have hescapes := workerStep_escapes h hpc
  obtain ⟨pc, backoff, nested⟩ := t
  cases hescapes with
  | first thrown =>
    obtain ⟨deadline, hdeadline⟩ := (hin rfl).receiveDeadline htimes
    rw [hdeadline] at thrown
    cases thrown
  | record thrown =>
    obtain ⟨deadline, hdeadline⟩ := (hin rfl).receiveDeadline htimes
    rw [hdeadline] at thrown
    cases thrown
  | delay thrown =>
    obtain ⟨h, hrecorded⟩ : ∃ h, (delayLts P config).Reachable (s, h) := hs.recorded
    have hthread := (delayWf_of_reach hrecorded).thread w _ ht fun hno => (by cases hno)
    obtain ⟨before, heard, -, -, rfl⟩ := hthread.owed rfl
    obtain ⟨deadline, hdeadline⟩ :=
      (hin rfl).backoffDeadline htimes (hthread.policy rfl) before heard
    rw [hdeadline] at thrown
    cases thrown
  | unconfigured missing =>
    have hsome := (validWf_of_reachable hs).configured w _ ht rfl
    rw [missing] at hsome
    cases hsome

theorem no_escape_of_reach (hreach : (clientLts P config).Reach (Sys.InRange config) s) :
    ∀ w t message, s.workers w = some t → t.pc ≠ .escaped message := by
  refine Lts.Reach.invariant_using (K := (clientLts P config).Reachable)
    (I := fun s => ∀ w t message, s.workers w = some t → t.pc ≠ .escaped message)
    (fun s hs => hs.reachable) ?_ ?_ hreach
  · rintro s ⟨clock, -, rfl⟩ w t message ht
    cases ht
  · intro s l s' hok hstep hs _ hin v u message hu hpc
    have hrun : u.pc.phase ≠ .done := by
      rw [hpc]
      exact fun hno => (by cases hno)
    cases run_step (wf_of_reachable hs) (countsWf_of_reachable hs) hstep with
    | own w choice t t' label present running step after alone =>
      subst label
      obtain ⟨-, rfl⟩ := alone v u hu hrun
      exact Config.InRange.no_escape hs present (hok w choice t rfl present) step message hpc
    | spawned label created counts fresh =>
      rw [fresh v u hu hrun] at hpc
      cases hpc
    | beside label created counts clock threads =>
      obtain ⟨t, ht, hsame, -⟩ := thread_of_same (threads v) hu
      exact hin v t message ht (hsame.trans hpc)

/-- **Accepted times are usable as long as deadlines fit the clock.** For
an accepted configuration all time computations of a run succeed at a
reading of the clock if and only if the receive timeout, and when
reconnecting the maximal delay, still have deadlines there. In a run in
which every reading that a deadline is computed from is of that kind,
nothing escapes the receive thread, so that no fault is latched for a
time, and a receive with its exact timeout fails at its entry only for
want of a socket; each `poll` gets between one and `INT_MAX`
milliseconds. -/
theorem times_stay_usable (P : Platform) (config : Config) {now : TimePoint}
    (hvalid : validateConfig now config = .ok ()) :
    (∀ clock, config.TimesUsable clock ↔ config.InRange clock) ∧
    ∀ s, (clientLts P config).Reach (Sys.InRange config) s →
      (∀ w t message, s.workers w = some t → t.pc ≠ .escaped message) ∧
      (∀ w t choice s' t' code message, s.workers w = some t →
        s.step P config (.worker w choice) = some s' → s'.workers w = some t' →
        t'.pc = .latchFault code message →
        ∃ outcome, t.pc = .sessionClosed outcome ∧ code = faultFor outcome.result) ∧
      (∀ w t rx timeout, s.workers w = some t → t.pc = .receiveEnter rx timeout →
        (1 ≤ pollMilliseconds timeout ∧ pollMilliseconds timeout ≤ intMax) ∧
        ∀ choice s' t' message, P.ExactSeconds → s.InRange config (.worker w choice) →
          s.step P config (.worker w choice) = some s' → s'.workers w = some t' →
          t'.pc = .receiveFailed rx message → s.shared.transport.socket = none) ∧
      ∀ w t rx polling, s.workers w = some t → t.pc = .receivePoll rx polling →
        1 ≤ pollMilliseconds polling.remaining ∧ pollMilliseconds polling.remaining ≤ intMax := by
  refine ⟨timesUsable_iff hvalid, fun s hs => ?_⟩
  obtain ⟨ticks, hticks⟩ := (validateConfig_timesOk hvalid).receive
  have hwithin := within_of_reach hticks hs
  refine ⟨no_escape_of_reach hs, fun w t choice s' t' code message ht hstep ht' hpc => ?_,
    fun w t rx timeout ht hpc => ?_, fun w t rx polling ht hpc => ?_⟩
  · obtain ⟨u, u', shared', hu, step, -, hu'⟩ := Sys.step_worker hstep
    obtain rfl : t = u := Option.some.inj (ht.symm.trans hu)
    obtain rfl : t' = u' := Option.some.inj (ht'.symm.trans hu')
    refine (workerStep_latches step hpc).resolve_right ?_
    exact no_escape_of_reach hs w t message ht
  · obtain ⟨hpos, hle⟩ :=
      (hwithin w t ht (by rw [hpc]; exact fun hno => (by cases hno))).entering rx timeout hpc
    refine ⟨pollMilliseconds_mem hpos, fun choice s' t' message hexact hok hstep ht' hpc' => ?_⟩
    obtain ⟨u, u', shared', hu, step, -, hu'⟩ := Sys.step_worker hstep
    obtain rfl : t = u := Option.some.inj (ht.symm.trans hu)
    obtain rfl : t' = u' := Option.some.inj (ht'.symm.trans hu')
    obtain ⟨later, hlater⟩ := (hok w choice t rfl ht (by rw [hpc]; rfl)).remaining hticks hle
    exact receiveEnter_fails (hexact timeout ▸ hlater) step hpc hpc'
  · have hin := hwithin w t ht (by rw [hpc]; exact fun hno => (by cases hno))
    exact pollMilliseconds_mem (hin.polling rx polling hpc)

end System

theorem exactPlatform_seconds : exactPlatform.ExactSeconds := fun _ => by
  simp [exactPlatform, ticksPerSecond]

/-- The default times, early on: every reading up to the first `receive`
is in range. Nothing has escaped, a `receive` fails for want of a socket
only, and its `poll` waits for 100 milliseconds. -/
theorem times_stay_usable_defaults :
    overrideConfig.TimesUsable 1000 ∧
    ∃ s t rx, (clientLts exactPlatform overrideConfig).Reach (Sys.InRange overrideConfig) s ∧
      s.workers 0 = some t ∧ t.pc = .receiveEnter rx 100000000 ∧
      (∀ message, t.pc ≠ .escaped message) ∧
      (∀ choice s' t' code message, s.step exactPlatform overrideConfig (.worker 0 choice)
        = some s' →
        s'.workers 0 = some t' → t'.pc = .latchFault code message →
        ∃ outcome, t.pc = .sessionClosed outcome ∧ code = faultFor outcome.result) ∧
      pollMilliseconds 100000000 ≤ intMax ∧
      ∀ choice s' t' message,
        s.step exactPlatform overrideConfig (.worker 0 choice) = some s' →
        s'.workers 0 = some t' → t'.pc = .receiveFailed rx message →
        s.shared.transport.socket = none := by
  have hreceive : checkedDuration overrideConfig.receiveTimeout = .ok 100000000 := by
    decide +kernel
  have hmaximum : checkedDuration overrideConfig.reconnectMaxDelay = .ok 5000000000 := by
    decide +kernel
  have hrange : overrideConfig.InRange 1000 := by
    refine ⟨fun ticks hticks => ?_, fun _ ticks hticks => ?_⟩
    · obtain rfl : ticks = 100000000 := Except.ok.inj (hticks.symm.trans hreceive)
      decide +kernel
    · obtain rfl : ticks = 5000000000 := Except.ok.inj (hticks.symm.trans hmaximum)
      decide +kernel
  obtain ⟨husable, hruns⟩ := times_stay_usable exactPlatform overrideConfig overrideConfig_valid
  have hinit : (clientLts exactPlatform overrideConfig).Reach (Sys.InRange overrideConfig)
      (Sys.new overrideConfig 1000) := .init ⟨1000, overrideConfig_valid, rfl⟩
  obtain ⟨s, hs, hp⟩ := Lts.exists_of_execChecked (l := streamingRun.take 17)
    (p := fun s : Sys => decide (s.shared.clock = 1000 ∧ (s.workers 0).map (·.pc)
      = some (.receiveEnter ⟨100001000, false⟩ 100000000)))
    (fun s _ => decide (s.shared.clock = 1000))
    (fun s l hclock _ _ _ _ _ _ => (of_decide_eq_true hclock).symm ▸ hrange)
    hinit (by decide +kernel)
  obtain ⟨hclock, hpc⟩ := of_decide_eq_true hp
  obtain ⟨t, ht, hpc⟩ := Option.map_eq_some_iff.mp hpc
  obtain ⟨hescaped, hlatched, hentered, -⟩ := hruns s hs
  obtain ⟨⟨-, hmost⟩, hfails⟩ := hentered 0 t _ _ ht hpc
  refine ⟨(husable 1000).mpr hrange, s, t, _, hs, ht, hpc, fun message => hescaped 0 t message ht,
    fun choice s' t' code message => hlatched 0 t choice s' t' code message ht, hmost,
    fun choice s' t' message => hfails choice s' t' message exactPlatform_seconds ?_⟩
  exact fun _ _ _ _ _ _ => hclock ▸ hrange

/-- A timeout close to the range of the clock. -/
def longTimeoutConfig : Config := { overrideConfig with receiveTimeout := .finite 9223000000 }

/-- It is accepted early on. Four days later its deadline is out of range,
and the run, which was to reconnect, ends in a `Socket` fault. -/
theorem accepted_timeout_latches_socket :
    validateConfig 1000 longTimeoutConfig = .ok () ∧
    ¬ longTimeoutConfig.TimesUsable 400000000001000 ∧
    ∃ s, (clientLts exactPlatform longTimeoutConfig).Reachable s ∧
      s.shared.clock = 400000000001000 ∧ longTimeoutConfig.recoveryPolicy = .reconnect ∧
      s.shared.faultLatch = .socket ∧
      s.shared.health.lastError = "deadline is outside the supported steady-clock range" := by
  have hvalid : validateConfig 1000 longTimeoutConfig = .ok () := by decide +kernel
  have hinit : (clientLts exactPlatform longTimeoutConfig).Reachable
    (Sys.new longTimeoutConfig 1000) :=
    Lts.Reachable.init ⟨1000, hvalid, rfl⟩
  have hreceive : checkedDuration longTimeoutConfig.receiveTimeout = .ok 9223000000000000000 := by
    decide +kernel
  refine ⟨hvalid, fun husable => ?_, ?_⟩
  · obtain ⟨deadline, hdeadline⟩ := husable.receive
    obtain ⟨ticks, hticks, rfl⟩ := checkedDeadline_ok hdeadline
    obtain rfl : ticks = 9223000000000000000 := Except.ok.inj (hticks.symm.trans hreceive)
    exact absurd (checkedDeadline_le hdeadline) (by decide +kernel)
  · obtain ⟨s, hs, hp⟩ := Lts.exists_of_exec
      (l := streamingRun.take 14 ++ [.tick 400000000000000, .worker 0 .go, .worker 0 .go,
        .worker 0 .go])
      (p := fun s : Sys => decide (s.shared.clock = 400000000001000 ∧
        s.shared.faultLatch = .socket ∧
        s.shared.health.lastError = "deadline is outside the supported steady-clock range"))
      hinit (by decide +kernel)
    obtain ⟨hclock, hlatch, herror⟩ := of_decide_eq_true hp
    exact ⟨s, hs, hclock, rfl, hlatch, herror⟩

end PyNetFT.Core
