/-
PyNetFT.Core.ReceiveTimeouts — when `receive_session` reports `Timeout`.

`UdpTransport::receive` returns 0 for an expired or interrupted wait, for
a requested shutdown and for an empty datagram, and the receive loop
takes every 0 for a timeout. Some of these come before the deadline: a
datagram without bytes, an interrupted `recv`, a `poll` whose interval
was cut to `INT_MAX` milliseconds. An interrupted `poll` goes on up to the
transport's own deadline, computed from a `double` of seconds, which can
be ahead of the one of the loop. And ten malformed datagrams in a row may
have begun in an earlier session. Without all this (`Clean`) a 0 means
that the deadline is over or that `stop` has been called, and a `Timeout`
is reported only after the whole `receive_timeout`.

The history keeps the time since which the session waits for a valid
record, and an account of the datagrams of a wrong length.
-/
import PyNetFT.Core.BiasStream
import PyNetFT.Core.MalformedStorms
import PyNetFT.Core.ProtocolTheorems
import PyNetFT.Core.Receptions
import PyNetFT.Core.RecoveryTheorems

namespace PyNetFT.Core

open PyNetFT.Lib

/-! ## The history -/

/-- `since` is the session's beginning or its last valid record; `wrong`
are the datagrams of another length than 36 that came in, `inFlight` the
one that is not looked at yet, `discarded` those that `stop` overtook;
`row` are the malformed ones of the session since its last valid record,
`carried` the streak that earlier sessions left it. -/
structure LoopHistory where
  since : TimePoint := 0
  wrong : Nat := 0
  inFlight : Nat := 0
  discarded : Nat := 0
  row : Nat := 0
  carried : Nat := 0
  deriving DecidableEq

/-- Stop has been called, or the deadline is over. -/
def Shared.Late (s : Shared) (rx : Reception) : Prop :=
  s.stopping = true ∨ rx.deadline ≤ s.clock

instance (s : Shared) (rx : Reception) : Decidable (s.Late rx) :=
  inferInstanceAs (Decidable (s.stopping = true ∨ rx.deadline ≤ s.clock))

/-- A datagram that is not a record. One without bytes is expected to be
looked at unless it is late anyway. -/
def Shared.hearsWrong (s : Shared) (rx : Reception) (bytes : List UInt8) : Bool :=
  decide (bytes.length ≠ 36 ∧ (bytes ≠ [] ∨ ¬ s.Late rx))

def LoopHistory.atWorker (h : LoopHistory) (s : Shared) (choice : WorkerChoice) :
    WorkerPc → LoopHistory
  | .sessionBegin => { h with since := s.clock, row := 0, carried := s.consecutiveMalformed }
  | .receiveRecv rx =>
      match choice with
      | .recv (.datagram bytes) =>
          if s.hearsWrong rx bytes then { h with wrong := h.wrong + 1, inFlight := 1 } else h
      | _ => h
  | .received _ _ =>
      if s.stopping then { h with inFlight := 0, discarded := h.discarded + h.inFlight } else h
  | .malformed _ => { h with inFlight := 0, row := h.row + 1 }
  | .validRecord _ _ => { h with since := s.clock, row := 0, carried := 0 }
  | _ => h

def LoopHistory.record (h : LoopHistory) (s : Sys) (l : Label) (_ : Sys) : LoopHistory :=
  match l with
  | .worker w choice => ((s.workers w).map fun t => h.atWorker s.shared choice t.pc).getD h
  | _ => h

/-- The client with that history. -/
def loopLts (P : Platform) (config : Config) : Lts (Sys × LoopHistory) Label :=
  (clientLts P config).recorded {} LoopHistory.record

/-- Its interval was not cut to `INT_MAX` milliseconds, and where it goes
up to the deadline of the transport, that is not ahead of the loop's. -/
def Polling.Whole (polling : Polling) (rx : Reception) : Prop :=
  polling.remaining ≤ intMax * 1000000 ∧
    (polling.deadline = polling.since + polling.remaining → rx.deadline ≤ polling.deadline)

instance (polling : Polling) (rx : Reception) : Decidable (polling.Whole rx) :=
  inferInstanceAs (Decidable (_ ∧ _))

/-- Before the deadline and without `stop`, no `recv` is interrupted or
brings a datagram without bytes, only a whole `poll` expires, and none is
interrupted behind the deadline of the transport. No streak of an earlier
session is completed. -/
structure Clean (p : Sys × LoopHistory) (l : Label) : Prop where
  recv : ∀ w t rx, p.1.workers w = some t → ¬ p.1.shared.Late rx → t.pc = .receiveRecv rx →
    l ≠ .worker w (.recv .interrupted) ∧ l ≠ .worker w (.recv (.datagram []))
  expired : ∀ w t rx polling, p.1.workers w = some t → ¬ p.1.shared.Late rx →
    t.pc = .receivePoll rx polling → l = .worker w (.poll .expired) → polling.Whole rx
  interrupted : ∀ w t rx polling, p.1.workers w = some t → ¬ p.1.shared.Late rx →
    t.pc = .receivePoll rx polling → l = .worker w (.poll .interrupted) →
      p.1.shared.clock < polling.deadline
  streak : ∀ w t rx choice, p.1.workers w = some t → t.pc = .malformed rx →
    l = .worker w choice →
      p.2.carried = 0 ∨ p.1.shared.consecutiveMalformed + 1 < malformedStormThreshold

/-! ## The places of the loop -/

/-- The loop locals at a place. -/
def WorkerPc.reception? : WorkerPc → Option Reception
  | .receiveHead rx | .receiveNow rx | .timedOut rx | .receiveFailed rx _ | .received rx _
  | .malformed rx | .validRecord rx _ | .receiveEnter rx _ | .receivePoll rx _
  | .receiveReady rx _ | .receiveRecv rx | .classify rx _ _ | .callback rx _ _
  | .callbackFailed rx _ _ | .delivered rx _ _ => some rx
  | _ => none

/-- Between `connect` and the end of the session. -/
def WorkerPc.online : WorkerPc → Bool
  | .startRealtime | .resetTrackers | .firstDeadline => true
  | pc => pc.reception?.isSome

/-- What the transport knows about the deadline of the loop. The first
`poll` has all of the timeout; a later one what is left to the deadline of
the transport. -/
def WorkerPc.Timed (s : Shared) : WorkerPc → Prop
  | .receiveEnter rx timeout => rx.deadline ≤ s.clock + timeout
  | .receivePoll rx polling =>
      rx.deadline ≤ polling.since + polling.remaining ∨
        polling.deadline = polling.since + polling.remaining
  | .received rx bytes => bytes = [] → s.Late rx
  | .timedOut rx => rx.deadline ≤ s.clock
  | _ => True

/-- A thread in the loop: its deadline is a whole timeout after `since`,
and a 0 of the transport is late. -/
structure WorkerPc.InTime (config : Config) (s : Shared) (since : TimePoint) (pc : WorkerPc) :
    Prop where
  deadline : ∀ rx, pc.reception? = some rx →
    ∃ ticks, checkedDuration config.receiveTimeout = .ok ticks ∧ since + ticks ≤ rx.deadline
  timed : pc.Timed s
  shutdown : pc.online = true → s.transport.shutdownRequested = true → s.stopping = true

theorem WorkerPc.Timed.later {s s' : Shared} {pc : WorkerPc} (h : pc.Timed s)
    (hclock : s.clock ≤ s'.clock) (hstopping : s.stopping = true → s'.stopping = true) :
    pc.Timed s' := by
  cases pc
  case receiveEnter rx timeout => exact h.trans (Nat.add_le_add_right hclock _)
  case receivePoll => exact h
  case received rx bytes =>
    exact fun hbytes => (h hbytes).imp hstopping fun hle => hle.trans hclock
  case timedOut rx => exact h.trans hclock
  all_goals trivial

/-- Nothing beside the thread spoils this. -/
theorem WorkerPc.InTime.beside {config : Config} {s s' : Shared} {since : TimePoint}
    {pc : WorkerPc} (h : pc.InTime config s since) (hbeside : s.Beside s') :
    pc.InTime config s' since := by
  refine ⟨h.deadline, h.timed.later hbeside.clock hbeside.stopping, fun honline hshutdown => ?_⟩
  rcases hbeside.shutdown hshutdown with hbefore | hstopping
  · exact hbeside.stopping (h.shutdown honline hbefore)
  · exact hstopping

/-! ## One step of the thread -/

theorem le_ceil_milliseconds (remaining : Nat) :
    remaining ≤ (remaining + 999999) / 1000000 * 1000000 := by
  omega

/-- An interval that was not cut covers what remains. -/
theorem pollMilliseconds_covers {remaining : Nat} (h : remaining ≤ intMax * 1000000) :
    remaining ≤ pollMilliseconds remaining * 1000000 := by
  have hle : (remaining + 999999) / 1000000 ≤ intMax := by
    generalize intMax = bound at h ⊢
    omega
  have hkept : pollMilliseconds remaining = (remaining + 999999) / 1000000 := min_eq_left hle
  exact hkept ▸ le_ceil_milliseconds remaining

section Steps

variable {P : Platform} {config : Config} {u u' : Shared} {pc pc' : WorkerPc}
  {h : LoopHistory}

/-- What one step of the thread has to give. -/
structure LoopStep (config : Config) (u u' : Shared) (pc' : WorkerPc) (since : TimePoint) :
    Prop where
  deadline : ∀ rx, pc'.reception? = some rx →
    ∃ ticks, checkedDuration config.receiveTimeout = .ok ticks ∧ since + ticks ≤ rx.deadline
  timed : pc'.Timed u
  shutdown : pc'.online = true → u'.transport.shutdownRequested = true → u.stopping = true

theorem connectStep_loop {choice : WorkerChoice} (hpart : pc.part = .connect)
    (hin : pc.InTime config u h.since) (hstep : connectStep choice u pc = some (pc', u')) :
    LoopStep config u u' pc' h.since := by
  cases pc <;> cases hpart <;> dsimp only [connectStep] at hstep
  case connect =>
    split at hstep <;> cases hstep
    · exact ⟨fun _ hrx => (by cases hrx), trivial, fun _ hshutdown => (by cases hshutdown)⟩
    · exact ⟨fun _ hrx => (by cases hrx), trivial, fun honline => (by cases honline)⟩
  case startRealtime =>
    (repeat' split at hstep) <;> cases hstep
    · exact ⟨fun _ hrx => (by cases hrx), trivial, fun honline => (by cases honline)⟩
    · exact ⟨fun _ hrx => (by cases hrx), trivial, fun honline => (by cases honline)⟩
    · exact ⟨fun _ hrx => (by cases hrx), trivial, fun _ hshutdown => hin.shutdown rfl hshutdown⟩
  case connectFailed =>
    cases hstep
    exact ⟨fun _ hrx => (by cases hrx), trivial, fun honline => (by cases honline)⟩

theorem transportStep_loop {w : Nat} {choice : WorkerChoice} {s : Sys} {t : Worker}
    (hclean : Clean (s, h) (.worker w choice)) (ht : s.workers w = some t)
    (hin : t.pc.InTime config s.shared h.since) (hpart : t.pc.part = .transport)
    (hstep : transportStep P choice s.shared t.pc = some (pc', u')) :
    LoopStep config s.shared u' pc' h.since := by
  cases hpc : t.pc <;> rw [hpc] at hpart hstep hin <;> cases hpart <;>
    dsimp only [transportStep] at hstep
  case receiveEnter rx timeout =>
    split at hstep
    · cases hstep
      exact ⟨fun _ hrx => hin.deadline _ hrx, trivial, hin.shutdown⟩
    split at hstep
    · rename_i hshutdown
      cases hstep
      exact ⟨fun _ hrx => hin.deadline _ hrx, fun _ => .inl (hin.shutdown rfl hshutdown),
        hin.shutdown⟩
    split at hstep
    · cases hstep
      exact ⟨fun _ hrx => hin.deadline _ hrx, trivial, hin.shutdown⟩
    · cases hstep
      exact ⟨fun _ hrx => hin.deadline _ hrx, .inl hin.timed, hin.shutdown⟩
  case receivePoll rx polling =>
    have htimed := hin.timed
    split at hstep
    · split at hstep
      · rename_i hexpired
        cases hstep
        refine ⟨fun _ hrx => hin.deadline _ hrx, fun _ => ?_, hin.shutdown⟩
        by_contra hlate
        -- the interval was not cut, so it covers what remains
        obtain ⟨hshort, hown⟩ := hclean.expired w t rx polling ht hlate hpc rfl
        have hcovers : rx.deadline ≤ polling.since + polling.remaining :=
          htimed.elim id fun hdeadline => hdeadline ▸ hown hdeadline
        have hpoll := pollMilliseconds_covers hshort
        exact hlate (.inr (hcovers.trans ((Nat.add_le_add_left hpoll _).trans hexpired)))
      · cases hstep
    · split at hstep
      · rename_i hover
        cases hstep
        refine ⟨fun _ hrx => hin.deadline _ hrx, fun _ => ?_, hin.shutdown⟩
        by_contra hlate
        exact absurd hover (not_le.mpr (hclean.interrupted w t rx polling ht hlate hpc rfl))
      · rename_i hover
        cases hstep
        have hleft := (Nat.add_sub_of_le (Nat.le_of_not_ge hover)).symm
        exact ⟨fun _ hrx => hin.deadline _ hrx, .inr hleft, hin.shutdown⟩
    · cases hstep
      exact ⟨fun _ hrx => hin.deadline _ hrx, trivial, hin.shutdown⟩
    · cases hstep
      exact ⟨fun _ hrx => hin.deadline _ hrx, trivial, hin.shutdown⟩
    · cases hstep
  case receiveReady rx invalid =>
    split at hstep
    · rename_i hshutdown
      cases hstep
      exact ⟨fun _ hrx => hin.deadline _ hrx, fun _ => .inl (hin.shutdown rfl hshutdown),
        hin.shutdown⟩
    · split at hstep <;> cases hstep <;>
        exact ⟨fun _ hrx => hin.deadline _ hrx, trivial, hin.shutdown⟩
  case receiveRecv rx =>
    have hrecv := fun hlate => hclean.recv w t rx ht hlate hpc
    split at hstep
    · rename_i bytes
      cases hstep
      refine ⟨fun _ hrx => hin.deadline _ hrx, fun hbytes => ?_, hin.shutdown⟩
      by_contra hlate
      refine (hrecv hlate).2 ?_
      have hnil : bytes = [] := by
        cases bytes with
        | nil => rfl
        | cons b bytes => simp at hbytes
      rw [hnil]
    · cases hstep
      refine ⟨fun _ hrx => hin.deadline _ hrx, fun _ => ?_, hin.shutdown⟩
      by_contra hlate
      exact (hrecv hlate).1 rfl
    · cases hstep
      exact ⟨fun _ hrx => hin.deadline _ hrx, trivial, hin.shutdown⟩
    · cases hstep

theorem receiveStep_loop {choice : WorkerChoice} (hpart : pc.part = .receive)
    (hin : pc.InTime config u h.since) (hstep : receiveStep config u pc = some (pc', u')) :
    LoopStep config u u' pc' (h.atWorker u choice pc).since := by
  have hdone : ∀ {outcome : SessionOutcome} {since : TimePoint} {v : Shared},
      LoopStep config u v (.sessionDone outcome) since :=
    ⟨fun _ hrx => (by cases hrx), trivial, fun honline => (by cases honline)⟩
  cases pc <;> cases hpart <;> dsimp only [receiveStep] at hstep
  case receiveHead rx =>
    cases hstep
    split
    · exact hdone
    · exact ⟨fun _ hrx => hin.deadline _ hrx, trivial, hin.shutdown⟩
  case receiveNow rx =>
    cases hstep
    split
    · rename_i hover
      exact ⟨fun _ hrx => hin.deadline _ hrx, hover, hin.shutdown⟩
    · exact ⟨fun _ hrx => hin.deadline _ hrx, le_add_tsub, hin.shutdown⟩
  case timedOut rx =>
    split at hstep <;> cases hstep <;> exact hdone
  case receiveFailed rx message =>
    cases hstep
    exact hdone
  case received rx bytes =>
    have hsince : (h.atWorker u choice (.received rx bytes)).since = h.since := by
      dsimp only [LoopHistory.atWorker]
      split <;> rfl
    rw [hsince]
    split at hstep
    · cases hstep
      exact hdone
    · rename_i hstopping
      split at hstep
      · rename_i hbytes
        cases hstep
        exact ⟨fun _ hrx => hin.deadline _ hrx, (hin.timed hbytes).resolve_left hstopping,
          hin.shutdown⟩
      · split at hstep <;> cases hstep <;>
          exact ⟨fun _ hrx => hin.deadline _ hrx, trivial, hin.shutdown⟩
  case malformed rx =>
    cases hstep
    split
    · exact hdone
    · exact ⟨fun _ hrx => hin.deadline _ hrx, trivial, hin.shutdown⟩
  case validRecord rx record =>
    split at hstep
    · cases hstep
      exact ⟨fun _ hrx => (by cases hrx), trivial, fun honline => (by cases honline)⟩
    · rename_i deadline hdeadline
      cases hstep
      refine ⟨fun rx' hrx => ?_, trivial, fun _ => hin.shutdown rfl⟩
      cases hrx
      obtain ⟨ticks, hticks, heq⟩ := checkedDeadline_ok hdeadline
      exact ⟨ticks, hticks, heq.ge⟩

theorem configureStep_loop {w : Nat} {choice : WorkerChoice} (hpart : pc.part = .configure)
    (hin : pc.InTime config u h.since) (hsince : h.since ≤ u.clock)
    (hstep : configureStep P config w choice u pc = some (pc', u')) :
    LoopStep config u u' pc' (h.atWorker u choice pc).since := by
  cases pc <;> cases hpart <;> dsimp only [configureStep] at hstep
  case firstDeadline =>
    split at hstep
    · cases hstep
      exact ⟨fun _ hrx => (by cases hrx), trivial, fun honline => (by cases honline)⟩
    · rename_i deadline hdeadline
      cases hstep
      refine ⟨fun rx hrx => ?_, trivial, fun _ => hin.shutdown rfl⟩
      cases hrx
      obtain ⟨ticks, hticks, rfl⟩ := checkedDeadline_ok hdeadline
      exact ⟨ticks, hticks, Nat.add_le_add_right hsince _⟩
  case resetTrackers =>
    cases hstep
    exact ⟨fun _ hrx => (by cases hrx), trivial, fun _ => hin.shutdown rfl⟩
  all_goals
    (repeat' split at hstep) <;> cases hstep <;>
      exact ⟨fun _ hrx => (by cases hrx), trivial, fun honline => (by cases honline)⟩

theorem classifyRecord_transport (impl : Impl) (record : RawRecord) (receivedAt : TimePoint) :
    (impl.classifyRecord config record receivedAt).1.transport = impl.transport := by
  unfold Impl.classifyRecord
  dsimp only
  split <;> rfl

/-- A record keeps the loop locals, and it does not touch the transport. -/
theorem recordStep_loop {w : Nat} {choice : WorkerChoice} (hpart : pc.part = .record)
    (hin : pc.InTime config u h.since)
    (hstep : recordStep P config w choice u pc = some (pc', u')) :
    LoopStep config u u' pc' (h.atWorker u choice pc).since := by
  have hkept : ∀ {rx : Reception} {v : Shared} {next : WorkerPc}, pc.reception? = some rx →
      v.transport = u.transport → next.reception? = some rx → next.Timed u →
      LoopStep config u v next h.since := by
    intro rx v next hpc hv hnext htimed
    refine ⟨fun rx' hrx => ?_, htimed, fun _ => ?_⟩
    · rw [hnext] at hrx
      cases hrx
      exact hin.deadline rx hpc
    · rw [hv]
      exact hin.shutdown (by cases pc <;> first | rfl | cases hpart)
  have hreturned : ∀ {rx : Reception} {v : Shared} (result : Option SessionResult),
      pc.reception? = some rx → v.transport = u.transport →
      LoopStep config u v (recordReturned rx result) h.since := by
    intro rx v result hpc hv
    cases result with
    | none => exact hkept hpc hv rfl trivial
    | some r => exact ⟨fun _ hrx => (by cases hrx), trivial, fun honline => (by cases honline)⟩
  cases pc <;> cases hpart <;> dsimp only [recordStep] at hstep
  case classify rx record receivedAt =>
    have htransport : (u.toImpl.classifyRecord config record receivedAt).1.transport
      = u.transport :=
      classifyRecord_transport u.toImpl record receivedAt
    rcases hclass : u.toImpl.classifyRecord config record receivedAt with ⟨impl, decision⟩
    rw [hclass] at hstep htransport
    cases decision with
    | error message =>
      cases hstep
      exact ⟨fun _ hrx => (by cases hrx), trivial, fun honline => (by cases honline)⟩
    | ok decision =>
      dsimp only at hstep
      split at hstep
      · cases hstep
        exact hreturned _ rfl htransport
      split at hstep
      · cases hstep
        exact hreturned _ rfl htransport
      split at hstep <;> cases hstep
      · exact hkept rfl htransport rfl trivial
      · exact hkept rfl htransport rfl trivial
  case callback rx outcome sample =>
    split at hstep
    · cases hstep
      exact hkept rfl rfl rfl trivial
    · cases hstep
      exact hkept rfl rfl rfl trivial
    · cases hstep
  case callbackFailed rx outcome message =>
    cases hstep
    exact hreturned _ rfl rfl
  case delivered rx outcome sample =>
    cases hstep
    exact hreturned _ rfl rfl

theorem runStep_loop {w : Nat} {choice : WorkerChoice} {backoff backoff' : ℚ}
    (hpart : pc.part = .run)
    (hstep : runStep config w choice backoff u pc = some (pc', backoff', u')) :
    LoopStep config u u' pc' (h.atWorker u choice pc).since := by
  cases pc <;> cases hpart <;> dsimp only [runStep] at hstep <;> (repeat' split at hstep) <;>
    cases hstep <;>
    exact ⟨fun _ hrx => (by cases hrx), trivial, fun honline => (by cases honline)⟩

theorem workerStep_loop {w : Nat} {choice : WorkerChoice} {s : Sys} {t t' : Worker}
    (hclean : Clean (s, h) (.worker w choice)) (ht : s.workers w = some t)
    (hin : t.pc.InTime config s.shared h.since) (hsince : h.since ≤ s.shared.clock)
    (hstep : workerStep P config w choice t s.shared = some (t', u')) :
    LoopStep config s.shared u' t'.pc (h.atWorker s.shared choice t.pc).since := by
  cases (workerStep_parts hstep).2 with
  | run hpart hr =>
    exact runStep_loop hpart hr
  | connect hpart hr =>
    have hsame : (h.atWorker s.shared choice t.pc).since = h.since := by
      cases hpc : t.pc <;> rw [hpc] at hpart <;> first | rfl | cases hpart
    rw [hsame]
    exact connectStep_loop hpart hin hr
  | configure hpart hr =>
    exact configureStep_loop hpart hin hsince hr
  | transport hpart hr =>
    have hsame : (h.atWorker s.shared choice t.pc).since = h.since := by
      cases hpc : t.pc <;> rw [hpc] at hpart <;> dsimp only [LoopHistory.atWorker]
      case receiveRecv =>
        split
        · split <;> rfl
        · rfl
      all_goals cases hpart
    rw [hsame]
    exact transportStep_loop hclean ht hin hpart hr
  | receive hpart hr =>
    exact receiveStep_loop hpart hin hr
  | record hpart hr =>
    exact recordStep_loop hpart hin hr

/-! ## The account of the datagrams -/

/-- A datagram of a wrong length is in the hands of the loop. -/
def WorkerPc.wrong : WorkerPc → Bool
  | .received _ bytes => decide (bytes ≠ [] ∧ bytes.length ≠ 36)
  | .malformed _ => true
  | _ => false

theorem WorkerPc.part_of_wrong {pc : WorkerPc} (h : pc.wrong = true) : pc.part ≠ .run := by
  cases pc <;> simp_all [WorkerPc.wrong, WorkerPc.part]

/-- `timeout_count` goes up in the timeout section only. -/
theorem RecordMove.timeoutCount (hmove : RecordMove P config u u' pc pc')
    (hne : u'.health.timeoutCount ≠ u.health.timeoutCount) : ∃ rx, pc = .timedOut rx := by
  have hcount : u'.health.timeoutCount = (pc.counted u.toImpl).health.timeoutCount :=
    congrArg LoopTally.timeoutCount hmove.loop
  rw [hcount] at hne
  cases pc
  case timedOut rx => exact ⟨rx, rfl⟩
  case applyConfiguration configuration =>
    exact absurd (congrArg LoopTally.timeoutCount (applyConfiguration_loop _ configuration)) hne
  all_goals exact absurd rfl hne

/-- The account before and after a step of the thread. -/
structure Balanced (h h' : LoopHistory) (pc pc' : WorkerPc) : Prop where
  flight : h'.inFlight = if pc'.wrong then 1 else 0
  sum : h'.wrong + h.discarded + h.inFlight
    = h.wrong + pc.malformedDelta + h'.discarded + h'.inFlight

theorem Balanced.same {h : LoopHistory} (hflight : h.inFlight = if pc.wrong then 1 else 0)
    (hsame : pc'.wrong = pc.wrong) (hdelta : pc.malformedDelta = 0) : Balanced h h pc pc' := by
  refine ⟨hsame ▸ hflight, ?_⟩
  rw [hdelta, Nat.add_zero]

theorem decodeRecord_error {bytes : List UInt8} {message : String}
    (h : decodeRecord bytes = .error message) : bytes.length ≠ 36 := by
  intro hlength
  obtain ⟨r, hr, -⟩ := decodeRecord_pack hlength
  rw [hr] at h
  cases h

theorem receiveStep_balanced {choice : WorkerChoice} (hpart : pc.part = .receive)
    (hflight : h.inFlight = if pc.wrong then 1 else 0)
    (hstep : receiveStep config u pc = some (pc', u')) :
    Balanced h (h.atWorker u choice pc) pc pc' := by
  cases pc <;> cases hpart <;> dsimp only [receiveStep] at hstep
  case received rx bytes =>
    dsimp only [LoopHistory.atWorker]
    split at hstep
    · rename_i hstopping
      cases hstep
      rw [if_pos hstopping]
      refine ⟨rfl, ?_⟩
      simp only [WorkerPc.malformedDelta]
      omega
    · rename_i hstopping
      rw [if_neg hstopping]
      split at hstep
      · rename_i hbytes
        cases hstep
        exact .same hflight (by simp [WorkerPc.wrong, hbytes]) rfl
      · rename_i hbytes
        split at hstep
        · rename_i message herror
          cases hstep
          exact .same hflight (by simp [WorkerPc.wrong, hbytes, decodeRecord_error herror]) rfl
        · rename_i record hok
          cases hstep
          exact .same hflight (by simp [WorkerPc.wrong, decodeRecord_length hok]) rfl
  case malformed rx =>
    have hnot : pc'.wrong = false := by
      cases hstep
      split <;> rfl
    rw [WorkerPc.wrong, if_pos rfl] at hflight
    refine ⟨by rw [hnot]; rfl, ?_⟩
    simp only [LoopHistory.atWorker, WorkerPc.malformedDelta]
    omega
  case validRecord rx record =>
    have hnot : pc'.wrong = false := by
      split at hstep <;> cases hstep <;> rfl
    refine ⟨?_, rfl⟩
    rw [hnot]
    exact hflight
  all_goals
    have hnot : pc'.wrong = false := by
      (repeat' split at hstep) <;> cases hstep <;> rfl
    exact .same hflight hnot rfl

theorem take_wrong (bytes : List UInt8) :
    (bytes.take 65536 ≠ [] ∧ (bytes.take 65536).length ≠ 36) ↔ bytes ≠ [] ∧ bytes.length ≠ 36 := by
  have hnil : bytes.take 65536 = [] ↔ bytes = [] := by simp
  rw [ne_eq, hnil, List.length_take]
  constructor <;> rintro ⟨hbytes, hlength⟩ <;> exact ⟨hbytes, by omega⟩

theorem transportStep_balanced {w : Nat} {choice : WorkerChoice} {s : Sys} {t : Worker}
    (hclean : Clean (s, h) (.worker w choice)) (ht : s.workers w = some t)
    (hflight : h.inFlight = if t.pc.wrong then 1 else 0) (hpart : t.pc.part = .transport)
    (hstep : transportStep P choice s.shared t.pc = some (pc', u')) :
    Balanced h (h.atWorker s.shared choice t.pc) t.pc pc' := by
  cases hpc : t.pc <;> rw [hpc] at hpart hstep hflight <;> cases hpart <;>
    dsimp only [transportStep] at hstep
  case receiveRecv rx =>
    have hzero : h.inFlight = 0 := hflight
    split at hstep
    · rename_i bytes
      cases hstep
      -- a datagram without bytes comes late, so it is not expected
      have hbytes : s.shared.hearsWrong rx bytes
          = (WorkerPc.received rx (bytes.take 65536)).wrong := by
        refine decide_eq_decide.mpr (Iff.trans ?_ (take_wrong bytes).symm)
        constructor
        · rintro ⟨hlength, hreason⟩
          refine ⟨fun hnil => ?_, hlength⟩
          have hlate := hreason.resolve_left (not_not.mpr hnil)
          rw [hnil] at hclean
          exact (hclean.recv w t rx ht hlate hpc).2 rfl
        · rintro ⟨hne, hlength⟩
          exact ⟨hlength, .inl hne⟩
      dsimp only [LoopHistory.atWorker]
      split
      · rename_i hears
        rw [hbytes] at hears
        refine ⟨by rw [hears]; rfl, ?_⟩
        simp only [WorkerPc.malformedDelta]
        omega
      · rename_i hears
        rw [hbytes] at hears
        exact .same hflight ((Bool.not_eq_true _).mp hears) rfl
    · cases hstep
      exact .same hflight rfl rfl
    · cases hstep
      exact .same hflight rfl rfl
    · cases hstep
  all_goals
    have hnot : pc'.wrong = false := by
      (repeat' split at hstep) <;> cases hstep <;> rfl
    exact .same hflight hnot rfl

theorem workerStep_balanced {w : Nat} {choice : WorkerChoice} {s : Sys} {t t' : Worker}
    (hclean : Clean (s, h) (.worker w choice)) (ht : s.workers w = some t)
    (hflight : h.inFlight = if t.pc.wrong then 1 else 0)
    (hstep : workerStep P config w choice t s.shared = some (t', u')) :
    Balanced h (h.atWorker s.shared choice t.pc) t.pc t'.pc := by
  obtain ⟨pc, backoff, nested⟩ := t
  cases (workerStep_parts hstep).2 with
  | run hpart hr =>
    cases pc <;> cases hpart <;> dsimp only [runStep] at hr <;> (repeat' split at hr) <;>
      cases hr <;> exact .same hflight rfl rfl
  | connect hpart hr =>
    cases pc <;> cases hpart <;> dsimp only [connectStep] at hr <;> (repeat' split at hr) <;>
      cases hr <;> exact .same hflight rfl rfl
  | configure hpart hr =>
    cases pc <;> cases hpart <;> dsimp only [configureStep] at hr <;> (repeat' split at hr) <;>
      cases hr <;> exact ⟨hflight, rfl⟩
  | transport hpart hr =>
    exact transportStep_balanced hclean ht hflight hpart hr
  | receive hpart hr =>
    exact receiveStep_balanced hpart hflight hr
  | record hpart hr =>
    have hreturned : ∀ (rx : Reception) (outcome : Option SessionResult),
        (recordReturned rx outcome).wrong = false := by
      intro rx outcome
      cases outcome <;> rfl
    cases pc <;> cases hpart <;> dsimp only [recordStep] at hr <;> (repeat' split at hr) <;>
      cases hr
    all_goals
      first
      | exact .same hflight rfl rfl
      | exact .same hflight (hreturned _ _) rfl

end Steps

/-! ## Runs -/

structure LoopWf (config : Config) (s : Sys) (h : LoopHistory) : Prop where
  since : h.since ≤ s.shared.clock
  threads : ∀ w t, s.workers w = some t → t.pc.InTime config s.shared h.since
  outcome : ∀ w t, s.workers w = some t → t.pc.OfRecord
  balance : s.shared.health.malformedCount + h.discarded + h.inFlight = h.wrong
  flight : h.inFlight = 1 ∧ (∃ pc, s.At pc ∧ pc.wrong = true) ∨
    h.inFlight = 0 ∧ ∀ pc, s.At pc → pc.wrong = false
  row : s.shared.consecutiveMalformed ≤ h.carried + h.row
  saved : ∀ c call d, s.calls c = some call → call.pc.data? = some d →
    d.consecutiveMalformed ≤ h.carried + h.row

section System

variable {P : Platform} {config : Config} {s s' : Sys} {h : LoopHistory}

/-- A call clears the streak or takes a saved one back. -/
theorem CallMove.malformed {c : Nat} {caller : Option Nat} {pc pc' : CallPc}
    (hmove : CallMove config c caller s pc pc' s') :
    s'.shared.consecutiveMalformed = s.shared.consecutiveMalformed ∨
      s'.shared.consecutiveMalformed = 0 ∨
      ∃ d, pc.data? = some d ∧ s'.shared.consecutiveMalformed = d.consecutiveMalformed := by
  have houtside : pc.resets = false → pc'.resets = false →
      s'.shared.consecutiveMalformed = s.shared.consecutiveMalformed := by
    intro hbefore hafter
    rcases (hmove.tally_outside hbefore hafter).2.2 with hsame | hpruned
    · exact congrArg Tally.consecutiveMalformed hsame
    · rw [hpruned]
      rfl
  cases hmove with
  | wait before after => exact .inl (houtside before.2 (CallPc.resets_false_of_holds after.2))
  | take _ _ before _ after => exact .inl (houtside before.2 (CallPc.resets_false_of_joins after))
  | request | command | stopIdle | reapStart | reapStop | bias | snapshot =>
    exact .inl (houtside rfl rfl)
  | reset => exact .inr (.inl rfl)
  | @restoreData k d message => exact .inr (.inr ⟨d, rfl, rfl⟩)
  | republish =>
    refine .inl ?_
    dsimp only
    split
    · exact congrArg Tally.consecutiveMalformed (publish_tally _ _ _)
    · rfl
  | save | arm | spawn | disarm | restoreRecord | clearLatch => exact .inl rfl

theorem StepRow.worker {choice : WorkerChoice} {u u' : Shared} {pc pc' : WorkerPc}
    (hmove : RecordMove P config u u' pc pc')
    (hrow : u.consecutiveMalformed ≤ h.carried + h.row) :
    u'.consecutiveMalformed ≤ (h.atWorker u choice pc).carried + (h.atWorker u choice pc).row := by
  rw [hmove.malformed.1]
  cases pc <;> dsimp only [WorkerPc.streak, LoopHistory.atWorker]
  case sessionBegin => exact le_rfl
  case malformed => exact Nat.add_le_add_right hrow 1
  case validRecord => exact le_rfl
  case receiveRecv =>
    split
    · split <;> exact hrow
    · exact hrow
  case received => split <;> exact hrow
  all_goals exact hrow

theorem LoopHistory.since_atWorker (u : Shared) (choice : WorkerChoice) (pc : WorkerPc) :
    (h.atWorker u choice pc).since = h.since ∨ (h.atWorker u choice pc).since = u.clock := by
  cases pc <;> dsimp only [LoopHistory.atWorker]
  case sessionBegin => exact .inr rfl
  case validRecord => exact .inr rfl
  case receiveRecv =>
    split
    · split <;> exact .inl rfl
    · exact .inl rfl
  case received => split <;> exact .inl rfl
  all_goals exact .inl rfl

theorem WorkerPc.inTime_of_done {u : Shared} {since : TimePoint} {pc : WorkerPc}
    (hdone : pc.phase = .done) : pc.InTime config u since := by
  rw [WorkerPc.phase_eq_done hdone]
  exact ⟨fun _ hrx => (by cases hrx), trivial, fun honline => (by cases honline)⟩

/-- A call or a tick leaves the account alone. -/
theorem LoopWf.others (hs : LoopWf config s h) (hcounts : s'.shared.health.counts
    = s.shared.health.counts) (hat : ∀ pc, pc.part ≠ .run → (s'.At pc ↔ s.At pc)) :
    s'.shared.health.malformedCount + h.discarded + h.inFlight = h.wrong ∧
      (h.inFlight = 1 ∧ (∃ pc, s'.At pc ∧ pc.wrong = true) ∨
        h.inFlight = 0 ∧ ∀ pc, s'.At pc → pc.wrong = false) := by
  have hcount : s'.shared.health.malformedCount = s.shared.health.malformedCount := by
    change s'.shared.health.counts.malformedCount = s.shared.health.counts.malformedCount
    rw [hcounts]
  refine ⟨hcount ▸ hs.balance, hs.flight.imp ?_ ?_⟩
  · rintro ⟨hone, pc, hin, hwrong⟩
    exact ⟨hone, pc, (hat pc (WorkerPc.part_of_wrong hwrong)).mpr hin, hwrong⟩
  · rintro ⟨hzero, hnone⟩
    refine ⟨hzero, fun pc hin => ?_⟩
    by_contra hwrong
    have hwrong : pc.wrong = true := by simpa using hwrong
    have hold := hnone pc ((hat pc (WorkerPc.part_of_wrong hwrong)).mp hin)
    rw [hwrong] at hold
    cases hold

/-- The account in terms of the thread that moves. -/
theorem flight_of_at {u : Sys} {n : Nat} {pc : WorkerPc}
    (hat : ∀ q, q.part ≠ .run → (u.At q ↔ pc = q)) :
    (n = 1 ∧ (∃ q, u.At q ∧ q.wrong = true) ∨ n = 0 ∧ ∀ q, u.At q → q.wrong = false) ↔
      n = if pc.wrong then 1 else 0 := by
  cases hwrong : pc.wrong with
  | true =>
    have hin : u.At pc := (hat pc (WorkerPc.part_of_wrong hwrong)).mpr rfl
    constructor
    · rintro (⟨hone, -⟩ | ⟨-, hnone⟩)
      · exact hone
      · rw [hnone pc hin] at hwrong
        cases hwrong
    · exact fun hone => .inl ⟨hone, pc, hin, hwrong⟩
  | false =>
    have hnone : ∀ q, u.At q → q.wrong = false := by
      intro q hin
      by_contra hq
      have hq : q.wrong = true := by simpa using hq
      rw [(hat q (WorkerPc.part_of_wrong hq)).mp hin, hq] at hwrong
      cases hwrong
    constructor
    · rintro (⟨-, q, hin, hq⟩ | ⟨hzero, -⟩)
      · rw [hnone q hin] at hq
        cases hq
      · exact hzero
    · exact fun hzero => .inr ⟨hzero, hnone⟩

/-- Nor does it lengthen the streak. -/
theorem LoopWf.call_streak (hs : LoopWf config s h) {l : Label}
    (hnot : ∀ w choice, l ≠ .worker w choice) (hstep : s.step P config l = some s') :
    s'.shared.consecutiveMalformed ≤ h.carried + h.row ∧
      ∀ c call d, s'.calls c = some call → call.pc.data? = some d →
        d.consecutiveMalformed ≤ h.carried + h.row := by
  cases Sys.step_move hstep with
  | tick ticks => exact ⟨hs.row, hs.saved⟩
  | places label places =>
    rw [places.shared]
    refine ⟨hs.row, fun c call d hc hd => ?_⟩
    rcases places.new c call hc with hold | hplain
    · exact hs.saved c call d hold hd
    · rw [(CallPc.no_data_of_resets
        (CallPc.resets_false_of_holds (CallPc.of_plain hplain).1)).2] at hd
      cases hd
  | @call c call pc' u choice hc _ move =>
    refine ⟨?_, fun j other d hj hd => ?_⟩
    · change u.shared.consecutiveMalformed ≤ h.carried + h.row
      rcases move.malformed with hsame | hzero | ⟨d, hd, hback⟩
      · exact hsame ▸ hs.row
      · exact hzero ▸ Nat.zero_le _
      · exact hback ▸ hs.saved c call d hc hd
    · rcases Sys.setCall_cases hj with ⟨rfl, heq⟩ | ⟨-, hj⟩
      · cases heq
        rcases move.data_of hd with hold | rfl
        · exact hs.saved j call d hc hold
        · exact hs.row
      · exact hs.saved j other d (callMove_calls move ▸ hj) hd
  | worker choice ht _ _ => exact absurd rfl (hnot _ choice)

theorem LoopWf.step (hs : LoopWf config s h) (hwf : s.Wf) (hcounts : s.CountsWf)
    (hrequested : s.StopRequested) {l : Label} (hclean : Clean (s, h) l)
    (hstep : s.step P config l = some s') : LoopWf config s' (h.record s l s') := by
  have houtcome : ∀ w t', s'.workers w = some t' → t'.pc.OfRecord :=
    fun _ _ ht' => ofRecord_of_step hwf hcounts hrequested hs.outcome hstep ht'
  have hthreads : ∀ w t', s'.workers w = some t' →
      t'.pc.InTime config s'.shared (h.record s l s').since := by
    intro w t' ht'
    by_cases hdone : t'.pc.phase = .done
    · exact WorkerPc.inTime_of_done hdone
    cases thread_step hwf hcounts hrequested hstep ht' hdone with
    | own choice t label ht _ step =>
      subst label
      have hrecord : h.record s (.worker w choice) s' = h.atWorker s.shared choice t.pc := by
        simp [LoopHistory.record, ht]
      rw [hrecord]
      have hloop := workerStep_loop hclean ht (hs.threads w t ht) hs.since step
      have hmove := workerStep_move step
      have hclock := hmove.clock
      have hstopping := hmove.stopping
      refine ⟨hloop.deadline, hloop.timed.later hclock.ge fun hset => hstopping.trans hset,
        fun honline hshutdown => hstopping.trans (hloop.shutdown honline hshutdown)⟩
    | spawned head =>
      rw [head]
      exact ⟨fun _ hrx => (by cases hrx), trivial, fun honline => (by cases honline)⟩
    | beside t label ht same shared =>
      have hrecord : h.record s l s' = h := by
        cases l with
        | worker v choice => exact absurd rfl (label v choice)
        | _ => rfl
      rw [hrecord, same]
      exact (hs.threads w t ht).beside shared
  rcases record_of_step hwf hcounts hstep with
    ⟨hnot, hsame, hat⟩ | ⟨w, choice, t, t', shared', rfl, ht, rfl, step, hat⟩
  · have hrecord : h.record s l s' = h := by
      cases l with
      | worker w choice => exact absurd rfl (hnot w choice)
      | _ => rfl
    rw [hrecord] at hthreads ⊢
    obtain ⟨hbalance, hflight⟩ := hs.others hsame hat
    have hstreak := hs.call_streak hnot hstep
    exact ⟨hs.since.trans (clock_le_of_step hstep), hthreads, houtcome, hbalance, hflight,
      hstreak.1, hstreak.2⟩
  · have hrecord : h.record s (.worker w choice) ((s.withShared shared').setWorker w t')
        = h.atWorker s.shared choice t.pc := by
      simp [LoopHistory.record, ht]
    rw [hrecord] at hthreads ⊢
    have hclock := clock_le_of_step hstep
    have hrun : t.pc.phase ≠ .done := (workerStep_move step).lifecycle.1
    have hmove := workerStep_record step
    have hbalanced := workerStep_balanced hclean ht
      ((flight_of_at fun q hq => (hat q hq).1).mp hs.flight) step
    refine ⟨?_, hthreads, houtcome, ?_, (flight_of_at fun q hq => (hat q hq).2).mpr
      hbalanced.flight, StepRow.worker hmove hs.row, ?_⟩
    · rcases h.since_atWorker s.shared choice t.pc with hsame | hnow
      · rw [hsame]
        exact hs.since.trans hclock
      · rw [hnow]
        exact hclock
    · have hsum := hbalanced.sum
      have hbalance := hs.balance
      have hcount := hmove.malformed.2
      change shared'.health.malformedCount + _ + _ = _
      omega
    · -- a running thread means that no `start` has anything saved
      intro c call d hc hd
      have hres := hwf.noReset_of_running ht hrun c call hc
      rw [(CallPc.no_data_of_resets hres).2] at hd
      cases hd

theorem loopWf_of_reach {p : Sys × LoopHistory} (hreach : (loopLts P config).Reach Clean p) :
    LoopWf config p.1 p.2 := by
  refine Lts.Reach.recorded_invariant ?_ ?_ hreach
  · rintro s ⟨clock, -, rfl⟩
    refine ⟨Nat.zero_le _, fun _ _ ht => (by cases ht), fun _ _ ht => (by cases ht), rfl,
      .inr ⟨rfl, ?_⟩, le_rfl, fun _ _ _ hc => (by cases hc)⟩
    rintro pc ⟨w, t, ht, -⟩
    cases ht
  · intro s h l t hclean hs hstep hloop
    exact hloop.step (wf_of_reachable hs) (countsWf_of_reachable hs)
      (stopRequested_of_reachable hs) hclean hstep

/-! ## When a session times out -/

/-- The whole `receive_timeout`, in ticks of the clock, lies between. -/
def Config.Waited (config : Config) (since clock : TimePoint) : Prop :=
  ∃ ticks, checkedDuration config.receiveTimeout = .ok ticks ∧ since + ticks ≤ clock

theorem LoopWf.waited (hs : LoopWf config s h) {w : Nat} {t : Worker} {rx : Reception}
    (ht : s.workers w = some t) (hpc : t.pc = .timedOut rx) :
    config.Waited h.since s.shared.clock := by
  have hin := hs.threads w t ht
  rw [hpc] at hin
  obtain ⟨ticks, hticks, hle⟩ := hin.deadline rx rfl
  exact ⟨ticks, hticks, hle.trans hin.timed⟩

theorem receiveStep_reception {u u' : Shared} {pc pc' : WorkerPc} (hpart : pc.part = .receive)
    (hstep : receiveStep config u pc = some (pc', u')) {rx rx' : Reception}
    (hrx : pc.reception? = some rx) (hrx' : pc'.reception? = some rx') :
    rx' = rx ∨ ∃ record, pc = .validRecord rx record := by
  cases pc <;> cases hpart <;> dsimp only [receiveStep] at hstep
  case validRecord rx₀ record =>
    cases hrx
    exact .inr ⟨record, rfl⟩
  case receiveHead | receiveNow | malformed =>
    cases hstep
    split at hrx' <;> cases hrx <;> cases hrx' <;> exact .inl rfl
  all_goals
    (repeat' split at hstep) <;> cases hstep <;> cases hrx <;> cases hrx' <;> exact .inl rfl

/-- Only a valid record gives the loop another deadline. -/
theorem workerStep_reception {w : Nat} {choice : WorkerChoice} {t t' : Worker} {u u' : Shared}
    (hstep : workerStep P config w choice t u = some (t', u')) {rx rx' : Reception}
    (hrx : t.pc.reception? = some rx) (hrx' : t'.pc.reception? = some rx') :
    rx' = rx ∨ ∃ record, t.pc = .validRecord rx record := by
  have hreturned : ∀ {rx₀ : Reception} {outcome : Option SessionResult},
      (recordReturned rx₀ outcome).reception? = some rx' → rx' = rx₀ := by
    intro rx₀ outcome h
    cases outcome <;> cases h
    rfl
  obtain ⟨pc, backoff, nested⟩ := t
  cases (workerStep_parts hstep).2 with
  | run hpart hr =>
    cases pc <;> cases hpart <;> cases hrx
  | connect hpart hr =>
    cases pc <;> cases hpart <;> cases hrx
  | configure hpart hr =>
    cases pc <;> cases hpart <;> cases hrx
  | transport hpart hr =>
    cases pc <;> cases hpart <;> dsimp only [transportStep] at hr <;> (repeat' split at hr) <;>
      cases hr <;> cases hrx <;> cases hrx' <;> exact .inl rfl
  | receive hpart hr =>
    exact receiveStep_reception hpart hr hrx hrx'
  | record hpart hr =>
    cases pc <;> cases hpart <;> dsimp only [recordStep] at hr <;> (repeat' split at hr) <;>
      cases hr <;> cases hrx
    all_goals
      first
      | exact .inl (hreturned hrx')
      | (cases hrx'; exact .inl rfl)
      | cases hrx'

theorem receiveStep_wrong {u u' : Shared} {pc pc' : WorkerPc} (hwrong : pc.wrong = true)
    (hstep : receiveStep config u pc = some (pc', u')) :
    pc'.reception? = pc.reception? ∨ ∃ outcome, pc' = .sessionDone outcome ∧
      (outcome.result = .stopped ∧ u.stopping = true ∨ outcome.result = .malformedStorm) := by
  cases pc
  case received rx bytes =>
    obtain ⟨hbytes, hlength⟩ := of_decide_eq_true hwrong
    dsimp only [receiveStep] at hstep
    split at hstep
    · rename_i hstopping
      cases hstep
      exact .inr ⟨_, rfl, .inl ⟨rfl, hstopping⟩⟩
    split at hstep
    · cases hstep
      exact .inl rfl
    · rename_i record hok
      exact absurd (decodeRecord_length hok) hlength
  case malformed rx =>
    cases hstep
    split
    · exact .inr ⟨_, rfl, .inr rfl⟩
    · exact .inl rfl
  all_goals cases hwrong

/-- What becomes of a datagram of a wrong length. -/
theorem workerStep_wrong {w : Nat} {choice : WorkerChoice} {t t' : Worker} {u u' : Shared}
    (hstep : workerStep P config w choice t u = some (t', u')) (hwrong : t.pc.wrong = true) :
    t'.pc.reception? = t.pc.reception? ∨
      ∃ outcome, t'.pc = .sessionDone outcome ∧
        (outcome.result = .stopped ∧ u.stopping = true ∨ outcome.result = .malformedStorm) := by
  have hpart : t.pc.part = .receive := by
    cases hpc : t.pc <;> rw [hpc] at hwrong <;> first | rfl | cases hwrong
  cases (workerStep_parts hstep).2 with
  | receive _ hr => exact receiveStep_wrong hwrong hr
  | run other | connect other | configure other | transport other | record other =>
    cases hpart.symm.trans other

/-- **A session times out only when no valid record came in time.** In
every run whose steps are all `Clean`: a `Timeout` is reported, and
`timeout_count` goes up, only when the whole `receive_timeout` has passed
since the session began and since its last valid record. Every datagram of
a wrong length is counted in `malformed_count`, up to the one in the hands
of the loop and those that `stop` overtook; it does not end the session,
unless `stop` has been called or ten of them came in a row within this
session; and only a valid record moves the deadline. -/
theorem timeout_only_after_deadline (P : Platform) (config : Config) {s : Sys} {h : LoopHistory}
    (hreach : (loopLts P config).Reach Clean (s, h)) :
    (∀ l t, s.step P config l = some t →
      t.shared.health.timeoutCount ≠ s.shared.health.timeoutCount →
      config.Waited h.since s.shared.clock) ∧
    (∀ w choice t, s.step P config (.worker w choice) = some t → t.Reports w .timeout →
      config.Waited h.since s.shared.clock) ∧
    (s.shared.health.malformedCount + h.discarded + h.inFlight = h.wrong ∧ h.inFlight ≤ 1) ∧
    (∀ w choice t u, Clean (s, h) (.worker w choice) →
      s.step P config (.worker w choice) = some t → s.workers w = some u →
      u.pc.wrong = true →
      (∃ v, t.workers w = some v ∧ v.pc.reception? = u.pc.reception?) ∨
        t.Reports w .stopped ∧ s.shared.stopping = true ∨
        t.Reports w .malformedStorm ∧
          malformedStormThreshold ≤ (h.record s (.worker w choice) t).row) ∧
    ∀ w choice t u v rx rx', s.step P config (.worker w choice) = some t →
      s.workers w = some u → t.workers w = some v → u.pc.reception? = some rx →
      v.pc.reception? = some rx' →
      rx'.deadline = rx.deadline ∨ ∃ record, u.pc = .validRecord rx record := by
  have hs : LoopWf config s h := loopWf_of_reach hreach
  have hclient : (clientLts P config).Reachable s := Lts.Reach.unrecorded hreach.reachable
  refine ⟨?_, ?_, ⟨hs.balance, ?_⟩, ?_, ?_⟩
  · intro l t hstep hne
    rcases counts_of_step (countsWf_of_reachable hclient) hstep with
      hsame | ⟨w, choice, u, u', shared', -, hu, rfl, -, hmove⟩
    · refine absurd ?_ hne
      change t.shared.health.counts.timeoutCount = s.shared.health.counts.timeoutCount
      rw [hsame]
    · obtain ⟨rx, hpc⟩ := hmove.timeoutCount hne
      exact hs.waited hu hpc
  · rintro w choice t hstep ⟨v, outcome, hv, hpc, hresult⟩
    obtain ⟨u, v', shared', hu, step, -, hv'⟩ := Sys.step_worker hstep
    obtain rfl : v = v' := Option.some.inj (hv.symm.trans hv')
    obtain ⟨rx, hpc, -⟩ := ((workerStep_result step (hs.outcome w u hu)).2 outcome hpc).2 hresult
    exact hs.waited hu hpc
  · rcases hs.flight with ⟨hone, -⟩ | ⟨hzero, -⟩ <;> omega
  · intro w choice t u hclean hstep hu hwrong
    obtain ⟨u', v, shared', hu', step, -, hv⟩ := Sys.step_worker hstep
    obtain rfl : u = u' := Option.some.inj (hu.symm.trans hu')
    rcases workerStep_wrong step hwrong with hsame | ⟨outcome, hpc, hresult⟩
    · exact .inl ⟨v, hv, hsame⟩
    · rcases hresult with ⟨hstopped, hstopping⟩ | hstorm
      · exact .inr (.inl ⟨⟨v, outcome, hv, hpc, hstopped⟩, hstopping⟩)
      · obtain ⟨rx, hmalformed, hten⟩ :=
          ((workerStep_result step (hs.outcome w u hu)).2 outcome hpc).1 hstorm
        refine .inr (.inr ⟨⟨v, outcome, hv, hpc, hstorm⟩, ?_⟩)
        simp only [LoopHistory.record, hu, Option.map_some, Option.getD_some, hmalformed,
          LoopHistory.atWorker]
        -- ten in a row, none of them from an earlier session
        have hcarried : h.carried = 0 :=
          (hclean.streak w u rx choice hu hmalformed rfl).resolve_right (not_lt.mpr hten)
        have hrow := hs.row
        rw [hcarried, Nat.zero_add] at hrow
        exact hten.trans (Nat.add_le_add_right hrow 1)
  · intro w choice t u v rx rx' hstep hu hv hrx hrx'
    obtain ⟨u', v', shared', hu', step, -, hv'⟩ := Sys.step_worker hstep
    obtain rfl : u = u' := Option.some.inj (hu.symm.trans hu')
    obtain rfl : v = v' := Option.some.inj (hv.symm.trans hv')
    exact (workerStep_reception step hrx hrx').imp_left (congrArg Reception.deadline)

end System

/-! ## Two timeouts -/

theorem overrideLoop_init : (loopLts exactPlatform overrideConfig).init
    (Sys.new overrideConfig 1000, {}) :=
  ⟨⟨1000, overrideConfig_valid, rfl⟩, rfl⟩

/-- A session up to its first wait for a datagram. -/
def firstWait : List Label :=
  [.invoke 0 none (.start (some 7)), .call 0 .go, .call 0 .go, .call 0 .go, .call 0 .go] ++
  sessionOpens ++ [.worker 0 .go, .worker 0 .go, .worker 0 .go]

/-- Whether a step is one that `Clean` admits at any time. -/
def cleanCheck (p : Sys × LoopHistory) : Label → Bool
  | .worker w choice =>
      match p.1.workers w, choice with
      | some ⟨.malformed _, _, _⟩, _ => p.2.carried = 0
      | some ⟨.receivePoll rx polling, _, _⟩, .poll .expired => polling.Whole rx
      | _, .poll .interrupted => false
      | _, .recv .interrupted => false
      | _, .recv (.datagram bytes) => bytes ≠ []
      | _, _ => true
  | _ => true

theorem clean_of_check (p : Sys × LoopHistory) (l : Label) (h : cleanCheck p l = true) :
    Clean p l where
  recv := by
    rintro w ⟨pc, backoff, nested⟩ rx ht - rfl
    refine ⟨?_, ?_⟩ <;> rintro rfl <;> simp [cleanCheck, ht] at h
  expired := by
    rintro w ⟨pc, backoff, nested⟩ rx polling ht - rfl rfl
    simpa [cleanCheck, ht] using h
  interrupted := by
    rintro w ⟨pc, backoff, nested⟩ rx polling ht - rfl rfl
    simp [cleanCheck, ht] at h
  streak := by
    rintro w ⟨pc, backoff, nested⟩ rx choice ht rfl rfl
    exact .inl (by simpa [cleanCheck, ht] using h)

/-- The wait expires after the 100 ms of the default `receive_timeout`. -/
def expiredWait : List Label :=
  [.tick 100000000, .worker 0 (.poll .expired), .worker 0 .go]

theorem timeout_only_after_deadline_expired :
    ∃ s h t, (loopLts exactPlatform overrideConfig).Reach Clean (s, h) ∧
      s.step exactPlatform overrideConfig (.worker 0 .go) = some t ∧ t.Reports 0 .timeout ∧
      overrideConfig.Waited h.since s.shared.clock := by
  obtain ⟨⟨s, h⟩, hs, hp⟩ := Lts.exists_of_execChecked (l := firstWait ++ expiredWait)
    (p := fun p : Sys × LoopHistory =>
      match p.1.step exactPlatform overrideConfig (.worker 0 .go) with
      | some t => decide ((t.workers 0).map (·.pc) = some (.sessionDone ⟨.timeout, "", false⟩))
      | none => false)
    cleanCheck clean_of_check (.init overrideLoop_init) (by decide +kernel)
  dsimp only at hp
  split at hp
  · rename_i t hstep
    obtain ⟨v, hv, hpc⟩ := Option.map_eq_some_iff.mp (of_decide_eq_true hp)
    have htimeout : t.Reports 0 .timeout := ⟨v, _, hv, hpc, rfl⟩
    exact ⟨s, h, t, hs, hstep, htimeout,
      (timeout_only_after_deadline exactPlatform overrideConfig hs).2.1 0 .go t hstep htimeout⟩
  · cases hp

/-- At once after the wait begins, a datagram without bytes. -/
def emptyDatagram : List Label :=
  [.worker 0 (.poll (.ready false)), .worker 0 .go, .worker 0 (.recv (.datagram [])),
   .worker 0 .go]

/-- An empty datagram ends the session with a timeout: no time has
passed, and it is not counted as malformed. -/
theorem timeout_of_empty_datagram :
    ∃ s h t, (loopLts exactPlatform overrideConfig).Reachable (s, h) ∧
      s.step exactPlatform overrideConfig (.worker 0 .go) = some t ∧ t.Reports 0 .timeout ∧
      t.shared.health.timeoutCount ≠ s.shared.health.timeoutCount ∧
      ¬ overrideConfig.Waited h.since s.shared.clock ∧
      h.wrong = 1 ∧ h.discarded = 0 ∧ t.shared.health.malformedCount = 0 := by
  obtain ⟨⟨s, h⟩, hs, hp⟩ := Lts.exists_of_exec (l := firstWait ++ emptyDatagram)
    (p := fun p : Sys × LoopHistory =>
      match p.1.step exactPlatform overrideConfig (.worker 0 .go) with
      | some t => decide ((t.workers 0).map (·.pc) = some (.sessionDone ⟨.timeout, "", false⟩) ∧
          t.shared.health.timeoutCount ≠ p.1.shared.health.timeoutCount ∧
          p.2.since = 1000 ∧ p.1.shared.clock = 1000 ∧
          p.2.wrong = 1 ∧ p.2.discarded = 0 ∧ t.shared.health.malformedCount = 0)
      | none => false)
    (Lts.Reachable.init overrideLoop_init) (by decide +kernel)
  dsimp only at hp
  split at hp
  · rename_i t hstep
    obtain ⟨hpc, hcount, hsince, hclock, hwrong, hdiscarded, hmalformed⟩ := of_decide_eq_true hp
    obtain ⟨v, hv, hpc⟩ := Option.map_eq_some_iff.mp hpc
    refine ⟨s, h, t, hs, hstep, ⟨v, _, hv, hpc, rfl⟩, hcount, ?_, hwrong, hdiscarded, hmalformed⟩
    rintro ⟨ticks, hticks, hle⟩
    have hdefault : checkedDuration overrideConfig.receiveTimeout = .ok 100000000 := by
      decide +kernel
    cases hdefault.symm.trans hticks
    rw [hsince, hclock] at hle
    exact absurd hle (by decide)
  · cases hp

end PyNetFT.Core
