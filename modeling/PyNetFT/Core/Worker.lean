/-
PyNetFT.Core.Worker — the receive thread: `run`, `receive_session`,
`handle_record`, `close_session` and `finish_session`, with the POSIX
`UdpTransport` under them.

One `WorkerPc` per place where the thread touches something another
thread can touch: a section under the command, record or data lock, a
read of `stopping_`, a clock reading, a system call, the user callback.
`workerStep` performs one such step. Everything the environment decides
— the HTTP answer, connect, send, poll and recv results, what the
callback does — is in the `WorkerChoice` of the step.

Two sections of the source that hold a lock and only touch what that
lock protects are one step each; a read of `stopping_` or of the latch
that decides a branch is its own step unless the value cannot change in
between.
-/
import PyNetFT.Core.Impl
import PyNetFT.Core.XmlConfig

namespace PyNetFT.Core

/-! ## What can be observed -/

/-- Ghost events: what a wire tap, the sensor and the user see. -/
inductive Event where
  | opened (socket : Nat)
  | closed (socket : Nat)
  | command (socket : Option Nat) (command : Command) (sent : Bool)
  | sessionStarted (worker : Nat)
  | sessionEnded (worker : Nat) (result : SessionResult)
  | backoff (worker : Nat)
  | faultLatched (worker : Nat) (code : FaultCode)
  | callbackCalled (worker : Nat) (sample : Sample)
  deriving DecidableEq

/-- The members shared by all threads, the clock, and the ghost log. -/
structure Shared extends Impl where
  clock : TimePoint := 0
  nextSocket : Nat := 0
  log : List Event := []
  deriving DecidableEq

/-! ## The transport -/

/-- How `::send` ends. -/
inductive SendEvent where
  | sent
  | failed (error : String)
  | short
  deriving DecidableEq

/-- `UdpTransport::send`. -/
def UdpTransport.send (t : UdpTransport) (event : SendEvent) : Except String Unit :=
  match t.socket, event with
  | none, _ => .error "UDP socket is not connected"
  | some _, .sent => .ok ()
  | some _, .failed error => .error ("failed to send UDP request: " ++ error)
  | some _, .short => .error "short UDP request write"

/-- Did the send go through? -/
def UdpTransport.sends (t : UdpTransport) (event : SendEvent) : Bool :=
  decide (t.send event = .ok ())

/-- Attempt a command on the current socket; the log keeps the attempt. -/
def Shared.attempt (s : Shared) (command : Command) (event : SendEvent) : Shared :=
  { s with log := s.log ++ [.command s.transport.socket command (s.transport.sends event)] }

/-- `UdpTransport::connect` once a socket is there: an old one is closed. -/
def Shared.connected (s : Shared) : Shared :=
  { s with
    transport := ⟨some s.nextSocket, false⟩
    nextSocket := s.nextSocket + 1
    log := s.log ++ (s.transport.socket.toList.map .closed) ++ [.opened s.nextSocket] }

/-- Send `StopStreaming` if the session was started; a failing send is
ignored. -/
def Shared.stopStreaming (s : Shared) (event : SendEvent) : Shared :=
  if s.sessionStarted then
    { s.attempt .stopStreaming event with sessionStarted := false }
  else s

/-- `Client::Impl::close_session`: the command-locked section with
`UdpTransport::close`. -/
def Shared.closeSession (s : Shared) (event : SendEvent) : Shared :=
  let s := s.stopStreaming event
  { s with
    transport := ⟨none, true⟩
    log := s.log ++ s.transport.socket.toList.map .closed }

/-- The command-locked section of `Client::Impl::stop`. -/
def Shared.stopCommand (s : Shared) (event : SendEvent) : Shared :=
  let s := s.stopStreaming event
  { s with transport := { s.transport with shutdownRequested := true } }

/-- `Client::Impl::bias`: the section under the command and record
locks. The two sends answer `first` and `second`. -/
def Shared.bias (s : Shared) (first second : SendEvent) : Shared × Except String Unit :=
  if s.stopping ∨ s.sessionStarted = false ∨ s.faulted ∨ s.health.state ≠ .streaming then
    (s, .error "client is not streaming")
  else
    let s := s.attempt .setSoftwareBias first
    match s.transport.send first with
    | .error message => (s, .error message)
    | .ok _ =>
        let s := s.attempt .startRealtime second
        match s.transport.send second with
        | .error message => (s, .error message)
        | .ok _ => ({ s with rdtSequence := s.rdtSequence.reset }, .ok ())

/-- `kMaximum` of `timeout_milliseconds` in the transport. -/
def intMax : Nat := 2 ^ 31 - 1

/-- `timeout_milliseconds` of `udp_transport_posix.cpp`, on ticks:
milliseconds rounded up, clamped to `int`. -/
def pollMilliseconds (remaining : Nat) : Nat :=
  min ((remaining + 999999) / 1000000) intMax

/-- How `::poll` ends: expired, interrupted, failed, or ready with the
`POLLNVAL` bit. -/
inductive PollEvent where
  | expired
  | interrupted
  | failed (error : String)
  | ready (invalid : Bool)
  deriving DecidableEq

/-- How `::recv` ends. -/
inductive RecvEvent where
  | datagram (bytes : List UInt8)
  | interrupted
  | failed (error : String)
  deriving DecidableEq

/-! ## The program counter -/

/-- The loop locals of `receive_session`. -/
structure Reception where
  deadline : TimePoint
  receivedValidRecord : Bool
  deriving DecidableEq

/-- The locals of `UdpTransport::receive`: its deadline, the remaining
ticks handed to the current `poll`, and when that `poll` was entered. -/
structure Polling where
  deadline : TimePoint
  remaining : Nat
  since : TimePoint
  deriving DecidableEq

inductive WorkerPc where
  -- run
  | loopHead
  | sessionDone (outcome : SessionOutcome)
  | sessionClosed (outcome : SessionOutcome)
  | latchFault (code : FaultCode) (message : String)
  | enterBackoff (outcome : SessionOutcome)
  | backoffDeadline
  | backoffWait (deadline : TimePoint)
  | escaped (message : String)
  -- receive_session
  | sessionBegin
  | sessionCheck
  | configure
  | discoveryFailed (message : String)
  | applyConfiguration (configuration : SensorConfiguration)
  | configuredCheck
  | connect
  | startRealtime
  | connectFailed (message : String)
  | resetTrackers
  | firstDeadline
  | receiveHead (rx : Reception)
  | receiveNow (rx : Reception)
  | timedOut (rx : Reception)
  | receiveFailed (rx : Reception) (message : String)
  | received (rx : Reception) (bytes : List UInt8)
  | malformed (rx : Reception)
  | validRecord (rx : Reception) (record : RawRecord)
  -- UdpTransport::receive
  | receiveEnter (rx : Reception) (timeout : Nat)
  | receivePoll (rx : Reception) (polling : Polling)
  | receiveReady (rx : Reception) (invalid : Bool)
  | receiveRecv (rx : Reception)
  -- handle_record
  | classify (rx : Reception) (record : RawRecord) (receivedAt : TimePoint)
  | callback (rx : Reception) (outcome : Option SessionResult) (sample : Sample)
  | callbackFailed (rx : Reception) (outcome : Option SessionResult) (message : String)
  | delivered (rx : Reception) (outcome : Option SessionResult) (sample : Sample)
  -- finish_session
  | finishClose
  | finishExited
  | finishState
  | done
  deriving DecidableEq

/-- A receive thread: where it is, the `backoff` local of `run`, and the
client call its callback is inside of, if any. -/
structure Worker where
  pc : WorkerPc := .loopHead
  backoff : ℚ
  nested : Option Nat := none
  deriving DecidableEq

inductive WorkerChoice where
  | go
  | http (transfer : Transfer)
  | connect (error : Option String)
  | send (event : SendEvent)
  | poll (event : PollEvent)
  | recv (event : RecvEvent)
  | callbackReturns
  | callbackThrows (message : String)
  deriving DecidableEq

/-! ## One step -/

/-- A result that is `Stopped` instead when `stop` has been called. -/
def Shared.unlessStopping (s : Shared) (result : SessionResult) : SessionResult :=
  if s.stopping then .stopped else result

/-- Where `receive_session` goes when `handle_record` returns. -/
def recordReturned (rx : Reception) : Option SessionResult → WorkerPc
  | none => .receiveHead rx
  | some result => .sessionDone ⟨result, "", rx.receivedValidRecord⟩

/-- `UdpTransport::connect` and the command-locked `StartRealtime`. -/
def connectStep (choice : WorkerChoice) (s : Shared) : WorkerPc → Option (WorkerPc × Shared)
  | .connect =>
      match choice with
      | .connect none => some (.startRealtime, s.connected)
      | .connect (some error) => some (.connectFailed error, s)
      | _ => none
  | .startRealtime =>
      match choice with
      | .send event =>
          if s.stopping then some (.sessionDone {}, s)
          else
            match s.transport.send event with
            | .error message => some (.connectFailed message, s.attempt .startRealtime event)
            | .ok _ =>
                some (.resetTrackers,
                  { s.attempt .startRealtime event with sessionStarted := true })
      | _ => none
  | .connectFailed message =>
      some (.sessionDone ⟨s.unlessStopping .socket, message, false⟩, s)
  | _ => none

/-- `receive_session` up to the first command. -/
def configureStep (P : Platform) (config : Config) (w : Nat) (choice : WorkerChoice)
    (s : Shared) : WorkerPc → Option (WorkerPc × Shared)
  | .sessionBegin =>
      some (.sessionCheck,
        { s with
          health := { s.health with state := .connecting }
          log := s.log ++ [.sessionStarted w] })
  | .sessionCheck => some (if s.stopping then .sessionDone {} else .configure, s)
  | .configure =>
      match choice with
      | .http transfer =>
          match configurationForSession P config transfer with
          | .ok configuration => some (.applyConfiguration configuration, s)
          | .error (.discovery message) => some (.discoveryFailed message, s)
          | .error e => some (.escaped e.what, s)
      | _ => none
  | .discoveryFailed message =>
      some (.sessionDone ⟨s.unlessStopping .sensorConfiguration, message, false⟩, s)
  | .applyConfiguration configuration =>
      some (.configuredCheck, { s with toImpl := s.toImpl.applyConfiguration configuration })
  | .configuredCheck => some (if s.stopping then .sessionDone {} else .connect, s)
  | .resetTrackers =>
      some (.firstDeadline,
        { s with
          rdtSequence := s.rdtSequence.reset
          ftSequence := s.ftSequence.beginSession })
  | .firstDeadline =>
      match checkedDeadline s.clock config.receiveTimeout with
      | .error message => some (.escaped message, s)
      | .ok deadline => some (.receiveHead ⟨deadline, false⟩, s)
  | _ => none

/-- `UdpTransport::receive`. Its deadline is computed from a timeout that
has become a `double` of seconds. -/
def transportStep (P : Platform) (choice : WorkerChoice) (s : Shared) :
    WorkerPc → Option (WorkerPc × Shared)
  | .receiveEnter rx timeout =>
      if s.transport.socket = none then
        some (.receiveFailed rx "UDP socket is not connected", s)
      else if s.transport.shutdownRequested then some (.received rx [], s)
      else
        match checkedDeadline s.clock (P.seconds timeout) with
        | .error message => some (.receiveFailed rx message, s)
        | .ok deadline => some (.receivePoll rx ⟨deadline, timeout, s.clock⟩, s)
  | .receivePoll rx polling =>
      match choice with
      | .poll .expired =>
          if polling.since + pollMilliseconds polling.remaining * 1000000 ≤ s.clock then
            some (.received rx [], s)
          else none
      | .poll .interrupted =>
          if polling.deadline ≤ s.clock then some (.received rx [], s)
          else
            some (.receivePoll rx
              { polling with remaining := polling.deadline - s.clock, since := s.clock }, s)
      | .poll (.failed error) =>
          some (.receiveFailed rx ("failed to wait for UDP record: " ++ error), s)
      | .poll (.ready invalid) => some (.receiveReady rx invalid, s)
      | _ => none
  | .receiveReady rx invalid =>
      if s.transport.shutdownRequested then some (.received rx [], s)
      else if invalid then some (.receiveFailed rx "UDP socket became invalid", s)
      else some (.receiveRecv rx, s)
  | .receiveRecv rx =>
      match choice with
      | .recv (.datagram bytes) => some (.received rx (bytes.take 65536), s)
      | .recv .interrupted => some (.received rx [], s)
      | .recv (.failed error) =>
          some (.receiveFailed rx ("failed to receive UDP record: " ++ error), s)
      | _ => none
  | _ => none

/-- The receive loop of `receive_session`. -/
def receiveStep (config : Config) (s : Shared) : WorkerPc → Option (WorkerPc × Shared)
  | .receiveHead rx =>
      some (if s.stopping then .sessionDone ⟨.stopped, "", rx.receivedValidRecord⟩
        else .receiveNow rx, s)
  | .receiveNow rx =>
      some (if rx.deadline ≤ s.clock then .timedOut rx
        else .receiveEnter rx (rx.deadline - s.clock), s)
  | .timedOut rx =>
      if s.stopping then some (.sessionDone ⟨.stopped, "", rx.receivedValidRecord⟩, s)
      else
        some (.sessionDone ⟨.timeout, "", rx.receivedValidRecord⟩,
          { s with health := { s.health with timeoutCount := s.health.timeoutCount + 1 } })
  | .receiveFailed rx message =>
      some (.sessionDone ⟨s.unlessStopping .socket, message, rx.receivedValidRecord⟩, s)
  | .received rx bytes =>
      if s.stopping then some (.sessionDone ⟨.stopped, "", rx.receivedValidRecord⟩, s)
      else if bytes = [] then some (.timedOut rx, s)
      else
        match decodeRecord bytes with
        | .error _ => some (.malformed rx, s)
        | .ok record => some (.validRecord rx record, s)
  | .malformed rx =>
      some (if malformedStormThreshold ≤ s.consecutiveMalformed + 1 then
          .sessionDone ⟨.malformedStorm, "", rx.receivedValidRecord⟩
        else .receiveHead rx,
        { s with
          health := { s.health with malformedCount := s.health.malformedCount + 1 }
          consecutiveMalformed := s.consecutiveMalformed + 1 })
  | .validRecord _ record =>
      match checkedDeadline s.clock config.receiveTimeout with
      | .error message => some (.escaped message, { s with consecutiveMalformed := 0 })
      | .ok deadline =>
          some (.classify ⟨deadline, true⟩ record s.clock, { s with consecutiveMalformed := 0 })
  | _ => none

/-- `handle_record`. -/
def recordStep (P : Platform) (config : Config) (w : Nat) (choice : WorkerChoice)
    (s : Shared) : WorkerPc → Option (WorkerPc × Shared)
  | .classify rx record receivedAt =>
      match s.toImpl.classifyRecord config record receivedAt with
      | (impl, .error message) => some (.escaped message, { s with toImpl := impl })
      | (impl, .ok decision) =>
          if decision.deliver = false then
            some (recordReturned rx decision.outcome, { s with toImpl := impl })
          else
            match scaleSample P decision.configuration record receivedAt with
            | none =>
                some (recordReturned rx (some .sensorConfiguration), { s with toImpl := impl })
            | some sample =>
                if impl.callback.isSome then
                  some (.callback rx decision.outcome sample,
                    { s with toImpl := impl, log := s.log ++ [.callbackCalled w sample] })
                else some (.delivered rx decision.outcome sample, { s with toImpl := impl })
  | .callback rx outcome sample =>
      match choice with
      | .callbackReturns => some (.delivered rx outcome sample, s)
      | .callbackThrows message => some (.callbackFailed rx outcome message, s)
      | _ => none
  | .callbackFailed rx outcome message =>
      some (recordReturned rx (callbackFailureOutcome config.recoveryPolicy outcome),
        { s with toImpl := s.toImpl.recordCallbackError message })
  | .delivered rx outcome sample =>
      some (recordReturned rx outcome, { s with toImpl := s.toImpl.recordDelivered sample })
  | _ => none

/-- The outcome as `run` sees it: an empty message is filled in. -/
def SessionOutcome.withMessage (o : SessionOutcome) : SessionOutcome :=
  if o.message = "" then { o with message := messageFor o.result } else o

/-- `run` around the sessions, and `finish_session`. The new value of
`backoff` is returned with the new place. -/
def runStep (config : Config) (w : Nat) (choice : WorkerChoice) (backoff : ℚ) (s : Shared) :
    WorkerPc → Option (WorkerPc × ℚ × Shared)
  | .loopHead =>
      some (if s.stopping || s.faulted then .finishClose else .sessionBegin, backoff, s)
  | .sessionDone outcome =>
      match choice with
      | .send event =>
          let s := s.closeSession event
          some (.sessionClosed outcome.withMessage, backoff,
            { s with log := s.log ++ [.sessionEnded w outcome.result] })
      | _ => none
  | .sessionClosed outcome =>
      some (if outcome.result ≠ .stopped ∧ config.recoveryPolicy = .failStop then
          .latchFault (faultFor outcome.result) outcome.message
        else if outcome.result = .stopped ∨ s.stopping then .finishClose
        else .enterBackoff outcome, backoff, s)
  | .latchFault code message =>
      some (.finishClose, backoff,
        { s with
          toImpl := s.toImpl.publish code message
          log := if s.faultLatch = .none then s.log ++ [.faultLatched w code] else s.log })
  | .enterBackoff outcome =>
      some (.backoffDeadline,
        if outcome.receivedValidRecord then config.reconnectInitialDelay.value else backoff,
        { s with
          health := { s.health with
            lastError := outcome.message
            state := .backoff
            reconnectCount := s.health.reconnectCount + 1 }
          log := s.log ++ [.backoff w] })
  | .backoffDeadline =>
      match checkedDeadline s.clock (.finite backoff) with
      | .error message => some (.escaped message, backoff, s)
      | .ok deadline => some (.backoffWait deadline, backoff, s)
  | .backoffWait deadline =>
      if s.stopping ∨ deadline ≤ s.clock then
        some (.loopHead, min (backoff * 2) config.reconnectMaxDelay.value, s)
      else none
  | .escaped message =>
      some (if s.stopping then .finishClose else .latchFault .socket message, backoff, s)
  | .finishClose =>
      match choice with
      | .send event => some (.finishExited, backoff, s.closeSession event)
      | _ => none
  | .finishExited => some (.finishState, backoff, { s with workerExited := true })
  | .finishState =>
      some (.done, backoff,
        if s.faulted then s else { s with health := { s.health with state := .stopped } })
  | _ => none

/-- Which part of the source a place belongs to. -/
inductive WorkerPart where
  | run | connect | configure | transport | receive | record
  deriving DecidableEq

def WorkerPc.part : WorkerPc → WorkerPart
  | .loopHead | .sessionDone _ | .sessionClosed _ | .latchFault _ _ | .enterBackoff _
  | .backoffDeadline | .backoffWait _ | .escaped _ | .finishClose | .finishExited
  | .finishState | .done => .run
  | .connect | .startRealtime | .connectFailed _ => .connect
  | .sessionBegin | .sessionCheck | .configure | .discoveryFailed _ | .applyConfiguration _
  | .configuredCheck | .resetTrackers | .firstDeadline => .configure
  | .receiveEnter _ _ | .receivePoll _ _ | .receiveReady _ _ | .receiveRecv _ => .transport
  | .receiveHead _ | .receiveNow _ | .timedOut _ | .receiveFailed _ _ | .received _ _
  | .malformed _ | .validRecord _ _ => .receive
  | .classify _ _ _ | .callback _ _ _ | .callbackFailed _ _ _ | .delivered _ _ _ => .record

/-- One step of the receive thread `w`. A callback that is inside a
client call cannot go on. -/
def workerStep (P : Platform) (config : Config) (w : Nat) (choice : WorkerChoice)
    (t : Worker) (s : Shared) : Option (Worker × Shared) :=
  if t.nested.isSome then none
  else
    match t.pc.part with
    | .run =>
        (runStep config w choice t.backoff s t.pc).map fun r =>
          ({ t with pc := r.1, backoff := r.2.1 }, r.2.2)
    | .connect => (connectStep choice s t.pc).map fun r => ({ t with pc := r.1 }, r.2)
    | .configure =>
        (configureStep P config w choice s t.pc).map fun r => ({ t with pc := r.1 }, r.2)
    | .transport => (transportStep P choice s t.pc).map fun r => ({ t with pc := r.1 }, r.2)
    | .receive => (receiveStep config s t.pc).map fun r => ({ t with pc := r.1 }, r.2)
    | .record =>
        (recordStep P config w choice s t.pc).map fun r => ({ t with pc := r.1 }, r.2)

end PyNetFT.Core
