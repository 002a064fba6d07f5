/-
PyNetFT.Core.BiasStream — `bias` and the numbering of the stream.

`bias` sends `StartRealtime` again and resets the RDT tracker, because
the sensor restarts its record counter when it processes that command.
This module puts one session of the receive thread between a sensor that
does so and two FIFO channels, and lets `bias` run at any time, from any
thread.

The reset happens when the command is SENT. Records numbered before the
restart can still be on their way then; the first of them becomes the
tracker's baseline, and the restarted numbers fall behind it. A run in
which no such record is handled after its `bias` keeps the stream:
`Link.Prompt` is that condition, and `prompt_records_fresh` the result.
-/
import PyNetFT.Core.WorkerTheorems
import PyNetFT.Core.SequenceTheorems
import PyNetFT.Lib.Lts

namespace PyNetFT.Core

open PyNetFT.Lib

/-! ## Sensor, channels and one session -/

/-- A datagram on its way to the client. What the sensor knows and the
wire does not carry: after which restart it was emitted, and its number
before it was cut to 32 bits. -/
structure Datagram where
  bytes : List UInt8
  epoch : Nat
  number : Nat
  deriving DecidableEq

/-- Where a call of `bias` is. It holds the command and the record lock
from its check to its reset. -/
inductive BiasPc where
  | idle | biasSent | startSent
  deriving DecidableEq

/-- One session: the members, the receive thread, the two channels, and
the sensor's restarts and counter. `requested` counts the
`StartRealtime` commands sent, `held` is the datagram the thread has
received and not yet classified, and `position` the epoch and number
that would continue the last classified one. -/
structure Link where
  shared : Shared
  thread : Worker
  bias : BiasPc := .idle
  requests : List Command := []
  datagrams : List Datagram := []
  epoch : Nat := 0
  counter : Nat := 0
  requested : Nat := 0
  held : Option Datagram := none
  position : Nat × Nat := (0, 0)
  deriving DecidableEq

/-- The commands that left the client. -/
def sentCommands (log : List Event) : List Command :=
  log.filterMap fun
    | .command _ command true => some command
    | _ => none

/-- New members; what was sent with them goes into the channel. -/
def Link.withShared (s : Link) (shared : Shared) : Link :=
  let sent := (sentCommands shared.log).drop (sentCommands s.shared.log).length
  { s with
    shared := shared
    requests := s.requests ++ sent
    requested := s.requested + sent.count .startRealtime }

/-- The places of the thread inside the session, from the first
`StartRealtime` on. -/
def WorkerPc.inSession : WorkerPc → Bool
  | .startRealtime | .resetTrackers | .firstDeadline => true
  | pc => decide (pc.part = .transport) || decide (pc.part = .receive) || decide (pc.part = .record)

/-- The places whose step takes the command or the record lock. -/
def WorkerPc.locked : WorkerPc → Bool
  | .startRealtime | .resetTrackers | .classify _ _ _ | .delivered _ _ _ => true
  | _ => false

inductive LinkLabel where
  | tick (ticks : Nat)
  | worker (choice : WorkerChoice)
  | biasSend
  | biasRestart
  | biasReset
  | process
  | emit (bytes : List UInt8)
  deriving DecidableEq

/-- A step of the thread. `recv` takes the oldest datagram. -/
def Link.workerStep (P : Platform) (config : Config) (choice : WorkerChoice) (s : Link) :
    Option Link :=
  if s.thread.pc.inSession = false ∨ (s.thread.pc.locked ∧ s.bias ≠ .idle) then none
  else
    match Core.workerStep P config 0 choice s.thread s.shared with
    | none => none
    | some (thread, shared) =>
        let next := { s.withShared shared with thread := thread }
        match s.thread.pc, choice with
        | .receiveRecv _, .recv (.datagram bytes) =>
            match s.datagrams with
            | [] => none
            | d :: rest =>
                if d.bytes = bytes then some { next with datagrams := rest, held := some d }
                else none
        | .classify _ _ _, _ =>
            some { next with
              held := none
              position := (s.held.map fun d => (d.epoch, d.number + 1)).getD s.position }
        | _, _ => some next

/-- One step. The three steps of a successful `bias` are those of
`Shared.bias`; the sensor emits only records that decode, numbered by its
counter. -/
def Link.step (P : Platform) (config : Config) (initial : Nat) (s : Link) :
    LinkLabel → Option Link
  | .tick ticks => some { s with shared := { s.shared with clock := s.shared.clock + ticks } }
  | .worker choice => s.workerStep P config choice
  | .biasSend =>
      if s.bias ≠ .idle ∨ s.shared.stopping ∨ s.shared.sessionStarted = false ∨
          s.shared.faulted ∨ s.shared.health.state ≠ .streaming ∨
          s.shared.transport.sends .sent = false then none
      else some { s.withShared (s.shared.attempt .setSoftwareBias .sent) with bias := .biasSent }
  | .biasRestart =>
      if s.bias = .biasSent then
        some { s.withShared (s.shared.attempt .startRealtime .sent) with bias := .startSent }
      else none
  | .biasReset =>
      if s.bias = .startSent then
        some { s.withShared { s.shared with rdtSequence := s.shared.rdtSequence.reset } with
          bias := .idle }
      else none
  | .process =>
      match s.requests with
      | [] => none
      | .startRealtime :: rest =>
          some { s with requests := rest, epoch := s.epoch + 1, counter := initial }
      | _ :: rest => some { s with requests := rest }
  | .emit bytes =>
      match decodeRecord bytes with
      | .error _ => none
      | .ok record =>
          if s.epoch = 0 ∨ record.rdtSequence ≠ UInt32.ofNat s.counter then none
          else
            some { s with
              datagrams := s.datagrams ++ [⟨bytes, s.epoch, s.counter⟩]
              counter := s.counter + 1 }

/-- A session from its first `StartRealtime` on, with nothing on the
wire; the members are whatever the client has at that point. -/
def linkLts (P : Platform) (config : Config) (initial : Nat) : Lts Link LinkLabel where
  init s := ∃ shared backoff,
    s = { shared := shared, thread := { pc := .startRealtime, backoff := backoff } }
  step := Link.step P config initial

/-- The three steps of a call are `Shared.bias` with both sends going
through. -/
theorem bias_exec (P : Platform) (config : Config) (initial : Nat) {s t : Link}
    (h : (linkLts P config initial).exec s [.biasSend, .biasRestart, .biasReset] = some t) :
    s.shared.bias .sent .sent = (t.shared, .ok ()) := by
  simp only [Lts.exec, linkLts, Link.step, Option.bind_eq_some_iff, Option.some.injEq] at h
  obtain ⟨u, hu, v, hv, _, hw, rfl⟩ := h
  split at hu
  · cases hu
  · rename_i hcond
    cases hu
    simp only [if_true, Option.some.injEq] at hv
    cases hv
    simp only [if_true, Option.some.injEq] at hw
    cases hw
    simp only [not_or] at hcond
    obtain ⟨-, hstop, hstarted, hfaulted, hstate, hsends⟩ := hcond
    have hsend : s.shared.transport.send .sent = .ok () := by
      simpa [UdpTransport.sends] using hsends
    have hguard : ¬ (s.shared.stopping = true ∨ s.shared.sessionStarted = false ∨
        s.shared.faulted = true ∨ s.shared.health.state ≠ .streaming) := by
      rw [not_or, not_or, not_or]
      exact ⟨hstop, hstarted, hfaulted, hstate⟩
    unfold Shared.bias
    rw [if_neg hguard]
    simp only [Shared.attempt, hsend, Link.withShared]

/-! ## What a step of the thread does to the tracker and the datagram in hand -/

/-- What the thread has in its hands: nothing yet (`before` the trackers
are reset), no datagram, the bytes of one, or its record. -/
inductive Hand where
  | before | empty
  | bytes (data : List UInt8)
  | record (raw : RawRecord)
  | rejected | out
  deriving DecidableEq

def WorkerPc.hand : WorkerPc → Hand
  | .startRealtime | .resetTrackers => .before
  | .received _ bytes => if bytes = [] then .empty else .bytes bytes
  | .validRecord _ record | .classify _ record _ => .record record
  | .malformed _ => .rejected
  | .firstDeadline => .empty
  | pc =>
      if pc.part = .transport ∨ pc.part = .receive ∨ pc.part = .record then .empty else .out

/-- The effect of one step of the thread inside its session. -/
inductive SessionMove (choice : WorkerChoice) (s : Shared) :
    WorkerPc → WorkerPc → Shared → Prop where
  | start (event : SendEvent) (sends : s.transport.sends event = true) :
      SessionMove choice s .startRealtime .resetTrackers
        { s.attempt .startRealtime event with sessionStarted := true }
  | reset : SessionMove choice s .resetTrackers .firstDeadline
      { s with rdtSequence := s.rdtSequence.reset, ftSequence := s.ftSequence.beginSession }
  | take {rx : Reception} {bytes : List UInt8} (from_wire : choice = .recv (.datagram bytes)) :
      SessionMove choice s (.receiveRecv rx) (.received rx (bytes.take 65536)) s
  | decode {rx : Reception} {bytes : List UInt8} {record : RawRecord} (some_bytes : bytes ≠ [])
      (decodes : decodeRecord bytes = .ok record) :
      SessionMove choice s (.received rx bytes) (.validRecord rx record) s
  | reject {rx : Reception} {bytes : List UInt8} {message : String} (some_bytes : bytes ≠ [])
      (fails : decodeRecord bytes = .error message) :
      SessionMove choice s (.received rx bytes) (.malformed rx) s
  | time {rx rx' : Reception} {record : RawRecord} :
      SessionMove choice s (.validRecord rx record) (.classify rx' record s.clock)
        { s with consecutiveMalformed := 0 }
  | classify {rx : Reception} {record : RawRecord} {receivedAt : TimePoint} {pc' : WorkerPc}
      {s' : Shared} (after : pc'.hand = .empty ∨ pc'.hand = .out)
      (tracker : s'.rdtSequence = (s.rdtSequence.observe record.rdtSequence).2)
      (wire : wire s'.log = wire s.log) :
      SessionMove choice s (.classify rx record receivedAt) pc' s'
  | quiet {pc pc' : WorkerPc} {s' : Shared} (before : pc.hand = .empty)
      (kept : ∀ rx, pc = .receiveRecv rx → ∀ bytes, choice ≠ .recv (.datagram bytes))
      (after : pc'.hand = .empty) (tracker : s'.rdtSequence = s.rdtSequence)
      (wire : wire s'.log = wire s.log) : SessionMove choice s pc pc' s'
  | rejected {rx : Reception} {pc' : WorkerPc} {s' : Shared} :
      SessionMove choice s (.malformed rx) pc' s'
  | leave {pc pc' : WorkerPc} {s' : Shared}
      (place : ∀ rx record receivedAt, pc ≠ .classify rx record receivedAt)
      (kept : ∀ rx, pc = .receiveRecv rx → ∀ bytes, choice ≠ .recv (.datagram bytes))
      (after : pc'.hand = .out) : SessionMove choice s pc pc' s'

section Steps

variable {P : Platform} {config : Config} {choice : WorkerChoice} {s s' : Shared}
  {pc pc' : WorkerPc}

theorem transportStep_session (hpart : pc.part = .transport)
    (h : transportStep P choice s pc = some (pc', s')) : SessionMove choice s pc pc' s' := by
  have hquiet : s' = s → pc.hand = .empty → pc'.hand = .empty →
      (∀ rx, pc = .receiveRecv rx → ∀ bytes, choice ≠ .recv (.datagram bytes)) →
      SessionMove choice s pc pc' s' := by
    rintro rfl hbefore hafter hkept
    exact .quiet hbefore hkept hafter rfl rfl
  cases pc <;> simp only [WorkerPc.part, reduceCtorEq] at hpart <;> dsimp only [transportStep] at h
  case receiveEnter rx timeout =>
    split at h
    · cases h
      exact hquiet rfl rfl rfl (by simp)
    · split at h
      · cases h
        exact hquiet rfl rfl rfl (by simp)
      · split at h
        · cases h
          exact hquiet rfl rfl rfl (by simp)
        · cases h
          exact hquiet rfl rfl rfl (by simp)
  case receivePoll rx polling =>
    split at h
    · split at h
      · cases h
        exact hquiet rfl rfl rfl (by simp)
      · cases h
    · split at h
      · cases h
        exact hquiet rfl rfl rfl (by simp)
      · cases h
        exact hquiet rfl rfl rfl (by simp)
    · cases h
      exact hquiet rfl rfl rfl (by simp)
    · cases h
      exact hquiet rfl rfl rfl (by simp)
    · cases h
  case receiveReady rx invalid =>
    split at h
    · cases h
      exact hquiet rfl rfl rfl (by simp)
    · split at h
      · cases h
        exact hquiet rfl rfl rfl (by simp)
      · cases h
        exact hquiet rfl rfl rfl (by simp)
  case receiveRecv rx =>
    split at h
    · cases h
      exact .take rfl
    · cases h
      exact hquiet rfl rfl rfl (by simp)
    · cases h
      exact hquiet rfl rfl rfl (by simp)
    · cases h

theorem receiveStep_session (hpart : pc.part = .receive)
    (h : receiveStep config s pc = some (pc', s')) : SessionMove choice s pc pc' s' := by
  cases pc <;> simp only [WorkerPc.part, reduceCtorEq] at hpart <;> dsimp only [receiveStep] at h
  case receiveHead rx =>
    split at h
    · cases h
      exact .leave (by simp) (by simp) rfl
    · cases h
      exact .quiet rfl (by simp) rfl rfl rfl
  case receiveNow rx =>
    split at h
    · cases h
      exact .quiet rfl (by simp) rfl rfl rfl
    · cases h
      exact .quiet rfl (by simp) rfl rfl rfl
  case timedOut rx =>
    split at h
    · cases h
      exact .leave (by simp) (by simp) rfl
    · cases h
      exact .leave (by simp) (by simp) rfl
  case receiveFailed rx message =>
    cases h
    exact .leave (by simp) (by simp) rfl
  case received rx bytes =>
    split at h
    · cases h
      exact .leave (by simp) (by simp) rfl
    · split at h
      · rename_i hbytes
        cases h
        exact .quiet (by simp [WorkerPc.hand, hbytes]) (by simp) rfl rfl rfl
      · rename_i hbytes
        split at h
        · rename_i hdecode
          cases h
          exact .reject hbytes hdecode
        · rename_i hdecode
          cases h
          exact .decode hbytes hdecode
  case malformed rx => exact .rejected
  case validRecord rx record =>
    split at h
    · cases h
      exact .leave (by simp) (by simp) rfl
    · cases h
      exact .time

theorem recordReturned_hand (rx : Reception) (outcome : Option SessionResult) :
    (recordReturned rx outcome).hand = .empty ∨ (recordReturned rx outcome).hand = .out := by
  cases outcome
  · exact .inl rfl
  · exact .inr rfl

/-- A step that leaves the tracker and the wire alone. -/
theorem SessionMove.of_hand (hbefore : pc.hand = .empty)
    (hkept : ∀ rx, pc = .receiveRecv rx → ∀ bytes, choice ≠ .recv (.datagram bytes))
    (hafter : pc'.hand = .empty ∨ pc'.hand = .out) (htracker : s'.rdtSequence = s.rdtSequence)
    (hwire : wire s'.log = wire s.log) : SessionMove choice s pc pc' s' := by
  rcases hafter with hempty | hout
  · exact .quiet hbefore hkept hempty htracker hwire
  · refine .leave ?_ hkept hout
    rintro rx record receivedAt rfl
    cases hbefore

theorem classifyRecord_tracker (config : Config) (s : Impl) (record : RawRecord)
    (receivedAt : TimePoint) :
    (s.classifyRecord config record receivedAt).1.rdtSequence
      = (s.rdtSequence.observe record.rdtSequence).2 := by
  unfold Impl.classifyRecord
  dsimp only
  split <;> rfl

theorem recordStep_session (hpart : pc.part = .record)
    (h : recordStep P config 0 choice s pc = some (pc', s')) : SessionMove choice s pc pc' s' := by
  cases pc <;> simp only [WorkerPc.part, reduceCtorEq] at hpart <;> dsimp only [recordStep] at h
  case classify rx record receivedAt =>
    have htracker := classifyRecord_tracker config s.toImpl record receivedAt
    rcases hclass : s.toImpl.classifyRecord config record receivedAt with ⟨impl, decision⟩
    rw [hclass] at h htracker
    cases decision with
    | error message =>
      cases h
      exact .classify (.inr rfl) htracker rfl
    | ok decision =>
      dsimp only at h
      split at h
      · cases h
        exact .classify (recordReturned_hand _ _) htracker rfl
      · split at h
        · cases h
          exact .classify (recordReturned_hand _ _) htracker rfl
        · split at h
          · cases h
            exact .classify (.inl rfl) htracker (by simp [wire, Event.onWire])
          · cases h
            exact .classify (.inl rfl) htracker rfl
  case callback rx outcome sample =>
    split at h
    · cases h
      exact .quiet rfl (by simp) rfl rfl rfl
    · cases h
      exact .quiet rfl (by simp) rfl rfl rfl
    · cases h
  case callbackFailed rx outcome message =>
    cases h
    exact .of_hand rfl (by simp) (recordReturned_hand _ _) rfl rfl
  case delivered rx outcome sample =>
    cases h
    exact .of_hand rfl (by simp) (recordReturned_hand _ _) rfl rfl

theorem WorkerPc.inSession_cases {pc : WorkerPc} (hin : pc.inSession = true) :
    pc = .startRealtime ∨ pc = .resetTrackers ∨ pc = .firstDeadline ∨
      pc.part = .transport ∨ pc.part = .receive ∨ pc.part = .record := by
  unfold WorkerPc.inSession at hin
  split at hin
  · exact .inl rfl
  · exact .inr (.inl rfl)
  · exact .inr (.inr (.inl rfl))
  · simp only [Bool.or_eq_true, decide_eq_true_eq, or_assoc] at hin
    exact .inr (.inr (.inr hin))

/-- What a session does outside the transport, receive and record parts. -/
theorem WorkerPc.inSession_parts {pc : WorkerPc} (hin : pc.inSession = true) :
    pc.part ≠ .run ∧ (pc.part = .connect → pc = .startRealtime) ∧
      (pc.part = .configure → pc = .resetTrackers ∨ pc = .firstDeadline) := by
  rcases WorkerPc.inSession_cases hin with rfl | rfl | rfl | h | h | h
  · simp [WorkerPc.part]
  · simp [WorkerPc.part]
  · simp [WorkerPc.part]
  all_goals simp [h]

theorem connectStep_session (h : connectStep choice s .startRealtime = some (pc', s')) :
    SessionMove choice s .startRealtime pc' s' := by
  dsimp only [connectStep] at h
  split at h
  · rename_i event
    split at h
    · cases h
      exact .leave (by simp) (by simp) rfl
    split at h
    · cases h
      exact .leave (by simp) (by simp) rfl
    · rename_i hsend
      cases h
      exact .start event (by simp [UdpTransport.sends, hsend])
  · cases h

theorem configureStep_session (hpc : pc = .resetTrackers ∨ pc = .firstDeadline)
    (h : configureStep P config 0 choice s pc = some (pc', s')) :
    SessionMove choice s pc pc' s' := by
  rcases hpc with rfl | rfl
  · cases h
    exact .reset
  · dsimp only [configureStep] at h
    split at h
    · cases h
      exact .leave (by simp) (by simp) rfl
    · cases h
      exact .quiet rfl (by simp) rfl rfl rfl

theorem workerStep_session {t t' : Worker} (hin : t.pc.inSession = true)
    (h : workerStep P config 0 choice t s = some (t', s')) :
    SessionMove choice s t.pc t'.pc s' := by
  obtain ⟨hrun, hconnecting, hconfiguring⟩ := WorkerPc.inSession_parts hin
  cases (workerStep_parts h).2 with
  | run part => exact absurd part hrun
  | connect part step =>
    rw [hconnecting part] at step ⊢
    exact connectStep_session step
  | configure part step => exact configureStep_session (hconfiguring part) step
  | transport part step => exact transportStep_session part step
  | receive part step => exact receiveStep_session part step
  | record part step => exact recordStep_session part step

end Steps

/-! ## The invariant -/

/-- `q` continues the numbering at `p`: the same restart and the next
number, or a later restart from its first number. -/
def Follows (initial : Nat) (p q : Nat × Nat) : Prop :=
  (q.1 = p.1 ∧ q.2 = p.2) ∨ (p.1 < q.1 ∧ q.2 = initial)

/-- The datagrams between two positions, oldest first. -/
def Chain (initial : Nat) : Nat × Nat → List Datagram → Nat × Nat → Prop
  | p, [], q => Follows initial p q
  | p, d :: rest, q =>
      Follows initial p (d.epoch, d.number) ∧ Chain initial (d.epoch, d.number + 1) rest q

/-- Does the place fit the datagram in hand? -/
def Hand.Fits (held : Option Datagram) : Hand → Prop
  | .before | .empty => held = none
  | .bytes data => ∃ d, held = some d ∧ d.bytes = data
  | .record raw => ∃ d, held = some d ∧ decodeRecord d.bytes = .ok raw
  | .rejected => False
  | .out => True

/-- The tracker is empty or stands right behind the position, in the
numbering of the last request. -/
def Link.Tracks (s : Link) : Prop :=
  s.shared.rdtSequence.hasLast = true →
    s.position.1 = s.requested ∧ UInt32.ofNat s.position.2 = s.shared.rdtSequence.previous + 1

structure Link.Wf (initial : Nat) (s : Link) : Prop where
  requested : s.epoch + s.requests.count .startRealtime = s.requested
  chain : Chain initial s.position (s.held.toList ++ s.datagrams) (s.epoch, s.counter)
  decodes : ∀ d ∈ s.held.toList ++ s.datagrams, ∃ record,
    decodeRecord d.bytes = .ok record ∧ record.rdtSequence = UInt32.ofNat d.number
  hand : s.thread.pc.hand.Fits s.held
  tracks : s.bias ≠ .startSent → s.thread.pc.hand ≠ .before → s.thread.pc.hand ≠ .out → s.Tracks

/-- The condition: a record is handled only while the numbering it was
emitted in is the one last asked for. -/
def Link.Prompt (s : Link) : LinkLabel → Prop
  | .worker _ => ∀ rx record receivedAt, s.thread.pc = .classify rx record receivedAt →
      ∀ d, s.held = some d → d.epoch = s.requested
  | _ => True

theorem Chain.snoc {initial : Nat} {p : Nat × Nat} {ds : List Datagram} {e n : Nat}
    (h : Chain initial p ds (e, n)) (bytes : List UInt8) :
    Chain initial p (ds ++ [⟨bytes, e, n⟩]) (e, n + 1) := by
  induction ds generalizing p with
  | nil => exact ⟨h, .inl ⟨rfl, rfl⟩⟩
  | cons d rest ih => exact ⟨h.1, ih h.2⟩

theorem Chain.restart {initial : Nat} {p : Nat × Nat} {ds : List Datagram} {e n : Nat}
    (h : Chain initial p ds (e, n)) : Chain initial p ds (e + 1, initial) := by
  induction ds generalizing p with
  | nil =>
    refine .inr ⟨?_, rfl⟩
    rcases h with ⟨he, -⟩ | ⟨hlt, -⟩
    · exact Nat.lt_succ_of_le he.ge
    · exact Nat.lt_succ_of_lt hlt
  | cons d rest ih => exact ⟨h.1, ih h.2⟩

/-! ## Every prompt step keeps it -/

section Wf

variable {P : Platform} {config : Config} {initial : Nat} {s t : Link}

theorem sentCommands_wire (log : List Event) : sentCommands (wire log) = sentCommands log := by
  unfold sentCommands wire
  rw [List.filterMap_filter]
  congr 1
  funext e
  cases e <;> simp [Event.onWire]

/-- Nothing was sent. -/
theorem Link.withShared_quiet {shared : Shared} (h : wire shared.log = wire s.shared.log) :
    s.withShared shared = { s with shared := shared } := by
  unfold Link.withShared
  rw [← sentCommands_wire shared.log, h, sentCommands_wire, List.drop_length]
  simp

/-- One command was sent. -/
theorem Link.withShared_sent {shared : Shared} {socket : Option Nat} {command : Command}
    (h : shared.log = s.shared.log ++ [.command socket command true]) :
    s.withShared shared =
      { s with
        shared := shared
        requests := s.requests ++ [command]
        requested := s.requested + [command].count .startRealtime } := by
  have hsent : sentCommands shared.log = sentCommands s.shared.log ++ [command] := by
    rw [h]
    simp [sentCommands]
  unfold Link.withShared
  rw [hsent, List.drop_left]

/-- Whatever was sent is counted. -/
theorem Link.withShared_requested (shared : Shared)
    (h : s.epoch + s.requests.count .startRealtime = s.requested) :
    s.epoch + (s.withShared shared).requests.count .startRealtime
      = (s.withShared shared).requested := by
  simp only [Link.withShared, List.count_append]
  omega

/-- What a step of the thread is, with the datagram it takes or handles. -/
theorem Link.workerStep_cases {choice : WorkerChoice}
    (h : s.workerStep P config choice = some t) :
    s.thread.pc.inSession = true ∧ (s.thread.pc.locked = true → s.bias = .idle) ∧
      ∃ thread shared, Core.workerStep P config 0 choice s.thread s.shared = some (thread, shared) ∧
        ((∃ rx d rest, s.thread.pc = .receiveRecv rx ∧ choice = .recv (.datagram d.bytes) ∧
            s.datagrams = d :: rest ∧
            t = { s.withShared shared with thread := thread, datagrams := rest, held := some d }) ∨
          (∃ rx record receivedAt, s.thread.pc = .classify rx record receivedAt ∧
            t = { s.withShared shared with
              thread := thread
              held := none
              position := (s.held.map fun d => (d.epoch, d.number + 1)).getD s.position }) ∨
          ((∀ rx record receivedAt, s.thread.pc ≠ .classify rx record receivedAt) ∧
            (∀ rx, s.thread.pc = .receiveRecv rx → ∀ bytes, choice ≠ .recv (.datagram bytes)) ∧
            t = { s.withShared shared with thread := thread })) := by
  unfold Link.workerStep at h
  split at h
  · cases h
  · rename_i hguard
    rw [not_or] at hguard
    refine ⟨by simpa using hguard.1, ?_, ?_⟩
    · intro hlocked
      by_contra hbias
      exact hguard.2 ⟨hlocked, hbias⟩
    · split at h
      · cases h
      · rename_i thread shared hstep
        refine ⟨thread, shared, hstep, ?_⟩
        dsimp only at h
        split at h
        · rename_i rx bytes hpc
          split at h
          · cases h
          · rename_i d rest hdatagrams
            split at h
            · rename_i hbytes
              cases h
              exact .inl ⟨rx, d, rest, hpc, by rw [hbytes], hdatagrams, rfl⟩
            · cases h
        · rename_i rx record receivedAt hpc
          cases h
          exact .inr (.inl ⟨rx, record, receivedAt, hpc, rfl⟩)
        · rename_i hclassify htake
          cases h
          exact .inr (.inr ⟨hclassify, fun rx hpc bytes hchoice => htake rx bytes hpc hchoice, rfl⟩)

/-- A decoded datagram is short and not empty. -/
theorem decodeRecord_length {bytes : List UInt8} {record : RawRecord}
    (h : decodeRecord bytes = .ok record) : bytes.length = 36 := by
  unfold decodeRecord at h
  split at h
  · cases h
  · rename_i hlength
    simpa using hlength

/-- The next number is fresh. -/
theorem RdtSequenceTracker.observe_next {tracker : RdtSequenceTracker} {current : UInt32}
    (h : tracker.hasLast = true → current = tracker.previous + 1) :
    (tracker.observe current).1.kind.fresh = true ∧
    (tracker.observe current).2 = ⟨true, current⟩ := by
  unfold RdtSequenceTracker.observe
  split
  · exact ⟨rfl, rfl⟩
  · rename_i hlast
    have hlast' : tracker.hasLast = true := by simpa using hlast
    have hone : current - tracker.previous = 1 := by
      rw [h hlast', UInt32.add_comm, UInt32.add_sub_cancel]
    rw [hone]
    refine ⟨rfl, ?_⟩
    simp [hlast']

/-- The record at hand continues the tracker. -/
theorem Link.Wf.next (h : s.Wf initial) {rx : Reception} {record : RawRecord}
    {receivedAt : TimePoint} (hpc : s.thread.pc = .classify rx record receivedAt)
    (hbias : s.bias = .idle) (hprompt : ∀ d, s.held = some d → d.epoch = s.requested) :
    ∃ d, s.held = some d ∧ d.epoch = s.requested ∧ record.rdtSequence = UInt32.ofNat d.number ∧
      (s.shared.rdtSequence.hasLast = true →
        record.rdtSequence = s.shared.rdtSequence.previous + 1) := by
  have hhand := h.hand
  have htracks := h.tracks (by simp [hbias]) (by simp [hpc, WorkerPc.hand])
    (by simp [hpc, WorkerPc.hand])
  rw [hpc] at hhand
  obtain ⟨d, hheld, hdecode⟩ := hhand
  have hepoch := hprompt d hheld
  obtain ⟨record', hdecode', hnumber⟩ := h.decodes d (by simp [hheld])
  obtain rfl : record' = record := Except.ok.inj (hdecode'.symm.trans hdecode)
  refine ⟨d, hheld, hepoch, hnumber, ?_⟩
  intro hlast
  obtain ⟨hsame, hprevious⟩ := htracks hlast
  have hchain := h.chain
  rw [hheld] at hchain
  rcases hchain.1 with ⟨-, hnext⟩ | ⟨hlater, -⟩
  · rw [hnumber, ← hprevious]
    exact congrArg UInt32.ofNat hnext
  · -- a later restart than the last one asked for
    dsimp only at hlater
    omega

/-- A step of the thread that takes nothing from the wire. -/
theorem Link.Wf.keep (h : s.Wf initial) {thread : Worker} {shared : Shared}
    (hhand : thread.pc.hand.Fits s.held)
    (htracks : s.bias ≠ .startSent → thread.pc.hand ≠ .before → thread.pc.hand ≠ .out →
      Link.Tracks { s.withShared shared with thread := thread }) :
    Link.Wf initial { s.withShared shared with thread := thread } :=
  ⟨Link.withShared_requested shared h.requested, h.chain, h.decodes, hhand, htracks⟩

/-- Nothing sent and the tracker as before. -/
theorem Link.Wf.keep_quiet (h : s.Wf initial) {thread : Worker} {shared : Shared}
    (hwire : wire shared.log = wire s.shared.log)
    (htracker : shared.rdtSequence = s.shared.rdtSequence)
    (hbefore : s.thread.pc.hand ≠ .before ∧ s.thread.pc.hand ≠ .out)
    (hhand : thread.pc.hand.Fits s.held) :
    Link.Wf initial { s.withShared shared with thread := thread } := by
  refine h.keep hhand ?_
  intro hbias _ _
  have htracks := h.tracks hbias hbefore.1 hbefore.2
  rw [Link.withShared_quiet hwire]
  unfold Link.Tracks at htracks ⊢
  dsimp only
  rw [htracker]
  exact htracks

theorem Link.Wf.worker (h : s.Wf initial) {choice : WorkerChoice}
    (hprompt : s.Prompt (.worker choice)) (hstep : s.workerStep P config choice = some t) :
    t.Wf initial := by
  obtain ⟨hin, hlock, thread, shared, hworker, hcases⟩ := Link.workerStep_cases hstep
  have hmove := workerStep_session hin hworker
  have hhand := h.hand
  rcases hcases with ⟨rx, d, rest, hpc, hchoice, hdatagrams, rfl⟩ |
    ⟨rx, record, receivedAt, hpc, rfl⟩ | ⟨hclassify, htake, rfl⟩
  · -- the oldest datagram is received
    rw [hpc] at hmove hhand
    have hnone : s.held = none := hhand
    have hplace : thread.pc = .received rx d.bytes ∧ shared = s.shared := by
      obtain ⟨record, hdecode, -⟩ := h.decodes d (by simp [hnone, hdatagrams])
      have hshort : d.bytes.take 65536 = d.bytes :=
        List.take_of_length_le (by rw [decodeRecord_length hdecode]; decide)
      generalize thread.pc = pc' at hmove ⊢
      cases hmove with
      | take from_wire =>
        rw [hchoice] at from_wire
        cases from_wire
        exact ⟨by rw [hshort], rfl⟩
      | quiet _ kept => exact absurd hchoice (kept rx rfl _)
      | leave _ kept => exact absurd hchoice (kept rx rfl _)
    obtain ⟨hpc', rfl⟩ := hplace
    have hnonempty : d.bytes ≠ [] := by
      obtain ⟨record, hdecode, -⟩ := h.decodes d (by simp [hnone, hdatagrams])
      intro hnil
      have hlength := decodeRecord_length hdecode
      rw [hnil] at hlength
      cases hlength
    have hchain := h.chain
    have hdecodes := h.decodes
    rw [hnone, hdatagrams] at hchain hdecodes
    rw [Link.withShared_quiet rfl]
    refine ⟨h.requested, hchain, hdecodes, ?_, ?_⟩
    · dsimp only
      rw [hpc', WorkerPc.hand, if_neg hnonempty]
      exact ⟨d, rfl, rfl⟩
    · intro hbias _ _
      refine h.tracks hbias ?_ ?_
      · rw [hpc]
        simp [WorkerPc.hand, WorkerPc.part]
      · rw [hpc]
        simp [WorkerPc.hand, WorkerPc.part]
  · -- the record in hand is classified
    have hidle := hlock (by rw [hpc]; rfl)
    obtain ⟨d, hheld, hepoch, hnumber, hnext⟩ :=
      h.next hpc hidle (hprompt rx record receivedAt hpc)
    have heffect : (thread.pc.hand = .empty ∨ thread.pc.hand = .out) ∧
        shared.rdtSequence = (s.shared.rdtSequence.observe record.rdtSequence).2 ∧
        wire shared.log = wire s.shared.log := by
      rw [hpc] at hmove
      generalize thread.pc = pc' at hmove ⊢
      cases hmove with
      | classify after tracker wire => exact ⟨after, tracker, wire⟩
      | quiet before => cases before
      | leave place => exact absurd rfl (place rx record receivedAt)
    obtain ⟨hafter, htracker, hwire⟩ := heffect
    rw [(RdtSequenceTracker.observe_next hnext).2] at htracker
    rw [Link.withShared_quiet hwire, hheld]
    have hchain := h.chain
    have hdecodes := h.decodes
    rw [hheld] at hchain hdecodes
    refine ⟨h.requested, hchain.2, fun d' hd' => hdecodes d' (by simp_all), ?_, ?_⟩
    · dsimp only
      rcases hafter with hempty | hout
      · rw [hempty]
        rfl
      · rw [hout]
        trivial
    · intro _ _ _ _
      refine ⟨hepoch, ?_⟩
      dsimp only [Option.map_some, Option.getD_some]
      rw [htracker, hnumber]
      simp
  · -- anything else leaves the datagrams alone
    generalize hpc : s.thread.pc = pc at hmove hclassify htake hin hlock hhand
    generalize hpc' : thread.pc = pc' at hmove
    cases hmove with
    | start event sends =>
      refine h.keep ?_ ?_
      · rw [hpc']
        exact hhand
      · intro _ hno
        rw [hpc'] at hno
        exact absurd rfl hno
    | reset =>
      refine h.keep ?_ ?_
      · rw [hpc']
        exact hhand
      · intro _ _ _ hlast
        cases hlast
    | take from_wire => exact absurd from_wire (htake _ rfl _)
    | @decode _ bytes _ some_bytes decodes =>
      refine h.keep_quiet rfl rfl (by rw [hpc]; simp [WorkerPc.hand, some_bytes]) ?_
      rw [WorkerPc.hand, if_neg some_bytes] at hhand
      obtain ⟨d, hheld, rfl⟩ := hhand
      rw [hpc']
      exact ⟨d, hheld, decodes⟩
    | reject some_bytes fails =>
      rw [WorkerPc.hand, if_neg some_bytes] at hhand
      obtain ⟨d, hheld, rfl⟩ := hhand
      obtain ⟨_, hdecode, -⟩ := h.decodes d (by simp [hheld])
      rw [hdecode] at fails
      cases fails
    | time =>
      refine h.keep_quiet rfl rfl (by rw [hpc]; simp [WorkerPc.hand]) ?_
      rw [hpc']
      exact hhand
    | classify => exact absurd rfl (hclassify _ _ _)
    | quiet before _ after tracker wire =>
      refine h.keep_quiet wire tracker (by rw [hpc, before]; simp) ?_
      rw [hpc', after]
      rw [before] at hhand
      exact hhand
    | rejected => exact hhand.elim
    | leave _ _ after =>
      refine h.keep ?_ ?_
      · rw [hpc', after]
        trivial
      · intro _ _ hno
        rw [hpc'] at hno
        exact absurd after hno

theorem Link.Wf.step (h : s.Wf initial) {l : LinkLabel} (hprompt : s.Prompt l)
    (hstep : s.step P config initial l = some t) : t.Wf initial := by
  cases l with
  | worker choice => exact h.worker hprompt hstep
  | tick ticks =>
    cases hstep
    exact ⟨h.requested, h.chain, h.decodes, h.hand, h.tracks⟩
  | biasSend =>
    simp only [Link.step] at hstep
    split at hstep
    · cases hstep
    · rename_i hguard
      cases hstep
      simp only [not_or, not_not] at hguard
      have hsends : s.shared.transport.sends .sent = true := by simpa using hguard.2.2.2.2.2
      have hlog : (s.shared.attempt .setSoftwareBias .sent).log = s.shared.log ++
          [.command s.shared.transport.socket .setSoftwareBias true] := by
        rw [Shared.attempt, hsends]
      have hsent := Link.withShared_sent (s := s) hlog
      rw [hsent]
      refine ⟨?_, h.chain, h.decodes, h.hand, ?_⟩
      · simpa using h.requested
      · intro _
        exact h.tracks (by simp [hguard.1])
  | biasRestart =>
    simp only [Link.step] at hstep
    split at hstep
    · cases hstep
      refine ⟨Link.withShared_requested _ h.requested, h.chain, h.decodes, h.hand, ?_⟩
      intro hno
      exact absurd rfl hno
    · cases hstep
  | biasReset =>
    simp only [Link.step] at hstep
    split at hstep
    · cases hstep
      refine ⟨Link.withShared_requested _ h.requested, h.chain, h.decodes, h.hand, ?_⟩
      intro _ _ _ hlast
      cases hlast
    · cases hstep
  | process =>
    simp only [Link.step] at hstep
    have hrequested := h.requested
    split at hstep
    · cases hstep
    · rename_i rest hrequests
      cases hstep
      refine ⟨?_, h.chain.restart, h.decodes, h.hand, h.tracks⟩
      rw [hrequests, List.count_cons_self] at hrequested
      dsimp only
      omega
    · rename_i command rest hno hrequests
      cases hstep
      refine ⟨?_, h.chain, h.decodes, h.hand, h.tracks⟩
      rw [hrequests, List.count_cons_of_ne hno] at hrequested
      exact hrequested
  | emit bytes =>
    simp only [Link.step] at hstep
    split at hstep
    · cases hstep
    · rename_i record hdecode
      split at hstep
      · cases hstep
      · rename_i hnumber
        rw [not_or, not_not] at hnumber
        cases hstep
        refine ⟨h.requested, ?_, ?_, h.hand, h.tracks⟩
        · dsimp only
          rw [← List.append_assoc]
          exact h.chain.snoc bytes
        · intro d hd
          dsimp only at hd
          rw [← List.append_assoc, List.mem_append, List.mem_singleton] at hd
          rcases hd with hold | rfl
          · exact h.decodes d hold
          · exact ⟨record, hdecode, hnumber.2⟩

theorem link_wf_of_reach (h : (linkLts P config initial).Reach Link.Prompt s) :
    s.Wf initial := by
  refine h.invariant ?_ ?_
  · rintro s ⟨shared, backoff, rfl⟩
    exact ⟨rfl, .inl ⟨rfl, rfl⟩, by simp, rfl, fun _ hno => absurd rfl hno⟩
  · intro s l t hok hstep hs
    exact hs.step hok hstep

end Wf

/-! ## The records of a stream that is restarted by `bias` -/

/-- The record about to be handled is RDT-fresh, and it is treated as by a
client whose tracker has no past. -/
def Link.HandlesFresh (config : Config) (s : Link) : Prop :=
  ∀ rx record receivedAt, s.thread.pc = .classify rx record receivedAt →
    (s.shared.rdtSequence.observe record.rdtSequence).1.kind.fresh = true ∧
      (s.shared.toImpl.classifyRecord config record receivedAt).2 =
        (({ s.shared.toImpl with rdtSequence := s.shared.rdtSequence.reset } : Impl).classifyRecord
          config record receivedAt).2

/-- A fresh record is decided on as the first one. -/
theorem classifyRecord_of_fresh (config : Config) (s : Impl) (record : RawRecord)
    (receivedAt : TimePoint)
    (h : (s.rdtSequence.observe record.rdtSequence).1.kind.fresh = true) :
    (s.classifyRecord config record receivedAt).2 =
      (({ s with rdtSequence := s.rdtSequence.reset } : Impl).classifyRecord
        config record receivedAt).2 := by
  have hfirst : (s.rdtSequence.reset.observe record.rdtSequence).1.kind.fresh = true := rfl
  unfold Impl.classifyRecord
  dsimp only
  split
  · rfl
  · simp only [eligible, h, hfirst]

/-- For every interleaving of `bias` calls, sensor, channels and receive
thread: as long as each record handled was emitted in the numbering last
asked for, every record handled is fresh. -/
theorem prompt_records_fresh (P : Platform) (config : Config) (initial : Nat) {s : Link}
    (h : (linkLts P config initial).Reach Link.Prompt s) {choice : WorkerChoice} {t : Link}
    (hprompt : s.Prompt (.worker choice))
    (hstep : s.step P config initial (.worker choice) = some t) : s.HandlesFresh config := by
  intro rx record receivedAt hpc
  have hidle := (Link.workerStep_cases hstep).2.1 (by rw [hpc]; rfl)
  obtain ⟨d, -, -, -, hnext⟩ :=
    (link_wf_of_reach h).next hpc hidle (hprompt rx record receivedAt hpc)
  have hfresh := (RdtSequenceTracker.observe_next hnext).1
  exact ⟨hfresh, classifyRecord_of_fresh config s.shared.toImpl record receivedAt hfresh⟩

/-- A datagram with small numbers and nothing else. -/
def numbered (rdt ft : UInt8) : List UInt8 :=
  [0, 0, 0, rdt, 0, 0, 0, ft] ++ List.replicate 28 0

/-- The session of a connected client about to send its first command. -/
def connectedLink : Link :=
  { shared :=
      { transport := ⟨some 0, false⟩
        callback := some 7
        workerExited := false
        health :=
          { sensorConfiguration :=
              some { calibration := ⟨.finite 1, .finite 1, .newton, .newtonMeter⟩ } } }
    thread := { pc := .startRealtime, backoff := 1 / 4 } }

/-- From the head of the receive loop to the record lock. -/
def receiving (bytes : List UInt8) : List LinkLabel :=
  [.worker .go, .worker .go, .worker .go, .worker (.poll (.ready false)), .worker .go,
   .worker (.recv (.datagram bytes)), .worker .go, .worker .go]

/-- Through the callback back to the head of the loop. -/
def handling : List LinkLabel := [.worker .go, .worker .callbackReturns, .worker .go]

def startingLink : List LinkLabel :=
  [.worker (.send .sent), .process, .worker .go, .worker .go, .emit (numbered 0 1)] ++
    receiving (numbered 0 1) ++ handling

def biasing : List LinkLabel := [.biasSend, .biasRestart, .biasReset, .process, .process]

/-- `bias` while record 1 is on its way: record 1 becomes the baseline of
the new numbering, and its record 0 is taken for a late one and is not
delivered. -/
theorem records_lost_after_bias :
    ¬ ∀ (s t : Link) (choice : WorkerChoice),
      (linkLts exactPlatform {} 0).Reachable s →
      s.step exactPlatform {} 0 (.worker choice) = some t → s.HandlesFresh {} := by
  intro hclaim
  have hinit : (linkLts exactPlatform {} 0).Reachable connectedLink := .init ⟨_, _, rfl⟩
  obtain ⟨s, hs, hp⟩ := Lts.exists_of_exec
    (l := startingLink ++ [.emit (numbered 1 2)] ++ biasing ++ [.emit (numbered 0 3)] ++
      receiving (numbered 1 2) ++ handling ++ receiving (numbered 0 3))
    (p := fun s : Link => decide ((s.step exactPlatform {} 0 (.worker .go)).isSome = true) &&
      match s.thread.pc with
      | .classify _ record _ =>
          !(s.shared.rdtSequence.observe record.rdtSequence).1.kind.fresh
      | _ => false)
    hinit (by decide +kernel)
  simp only [Bool.and_eq_true, decide_eq_true_eq] at hp
  obtain ⟨t, ht⟩ := Option.isSome_iff_exists.mp hp.1
  have hfresh := hclaim s t .go hs ht
  obtain ⟨-, hp⟩ := hp
  split at hp
  · rename_i rx record receivedAt hpc
    rw [(hfresh rx record receivedAt hpc).1] at hp
    cases hp
  · cases hp

/-- The check of `Link.Prompt` on a concrete state. -/
def Link.isPrompt (s : Link) (_ : LinkLabel) : Bool :=
  match s.thread.pc with
  | .classify _ _ _ => s.held.all fun d => decide (d.epoch = s.requested)
  | _ => true

theorem Link.prompt_of_isPrompt (s : Link) (l : LinkLabel) (h : s.isPrompt l = true) :
    s.Prompt l := by
  cases l with
  | worker choice =>
    intro rx record receivedAt hpc d hd
    simpa [Link.isPrompt, hpc, hd] using h
  | _ => trivial

/-- The same `bias` with nothing on its way. -/
theorem prompt_records_fresh_restarted :
    ∃ s, (linkLts exactPlatform {} 0).Reach Link.Prompt s ∧ s.requested = 2 ∧
      s.thread.pc.hand = .record ⟨0, 3, 0, 0, 0, 0, 0, 0, 0⟩ ∧ s.HandlesFresh {} := by
  have hinit : (linkLts exactPlatform {} 0).Reach Link.Prompt connectedLink := .init ⟨_, _, rfl⟩
  obtain ⟨s, hs, hp⟩ := Lts.exists_of_execChecked
    (l := startingLink ++ biasing ++ [.emit (numbered 0 3)] ++ receiving (numbered 0 3))
    (p := fun s : Link => decide (s.requested = 2 ∧
      s.thread.pc.hand = .record ⟨0, 3, 0, 0, 0, 0, 0, 0, 0⟩ ∧ s.isPrompt (.worker .go) = true ∧
      (s.step exactPlatform {} 0 (.worker .go)).isSome = true))
    Link.isPrompt Link.prompt_of_isPrompt hinit (by decide +kernel)
  obtain ⟨hrequested, hhand, hprompt, hsome⟩ := of_decide_eq_true hp
  obtain ⟨t, ht⟩ := Option.isSome_iff_exists.mp hsome
  exact ⟨s, hs, hrequested, hhand, prompt_records_fresh exactPlatform {} 0 hs
    (Link.prompt_of_isPrompt s _ hprompt) ht⟩

end PyNetFT.Core
