/-
PyNetFT.Core.Transport — `UdpTransport` on POSIX and on Windows, over a
table of descriptors.

`Core.Worker` has the transport as the client sees it: a socket that is
there or not. Here it is as the system sees it: `connect` tries one
address after the other, each with a descriptor of its own, `receive`
waits in `poll` with a copy of the descriptor and without the lock, other
threads `send` and `shutdown` in between, and the numbers of closed
descriptors are handed out again, to the transport or to the rest of the
process.

`connect`, `receive`, `close` and the destructor are called by one thread,
the owner; `OwnerPc` is its place, one for each section under `mutex_`,
clock reading or system call. The answers of the system are in the
labels. `used` is a ghost: every system call on a descriptor, with who
held that descriptor.
-/
import PyNetFT.Core.Worker
import PyNetFT.Lib.Lts
import Mathlib.Logic.Function.Basic

namespace PyNetFT.Core

open PyNetFT.Lib

/-! ## The systems -/

inductive Os where
  | posix | windows
  deriving DecidableEq

/-- `strerror` and `gai_strerror`. -/
structure ErrorTexts where
  strerror : Int → String
  gaiStrerror : Int → String

/-- `EINTR` and `WSAEINTR`. -/
def Os.interrupted : Os → Int
  | .posix => 4
  | .windows => 10004

def wsaENotSock : Int := 10038
def wsaEConnReset : Int := 10054
def wsaEShutdown : Int := 10058
def wsaEHostUnreach : Int := 10065

/-- `socket_error` and `winsock_error`. -/
def Os.error (T : ErrorTexts) (operation : String) (code : Int) : Os → String
  | .posix => operation ++ ": " ++ T.strerror code
  | .windows => operation ++ " (WinSock error " ++ toString code ++ ")"

def Os.resolveError (T : ErrorTexts) (code : Int) : Os → String
  | .posix => "failed to resolve sensor: " ++ T.gaiStrerror code
  | .windows => Os.windows.error T "failed to resolve sensor" code

/-- `last_error` before the first address. -/
def Os.noAddress : Os → Int
  | .posix => 0
  | .windows => wsaEHostUnreach

/-- `kShutdownCheckInterval` of the Windows transport. -/
def shutdownCheckMilliseconds : Nat := 50

/-- What is handed to `poll`: all that remains, or one slice of it. -/
def Os.pollTicks (remaining : Nat) : Os → Nat
  | .posix => remaining
  | .windows => min remaining (shutdownCheckMilliseconds * 1000000)

def Os.pollMilliseconds (ticks : Nat) : Os → Nat
  | .posix => Core.pollMilliseconds ticks
  | .windows => min shutdownCheckMilliseconds (Core.pollMilliseconds ticks)

/-- How many bytes `::recv` is given room for. -/
def Os.receivable (capacity : Nat) : Os → Nat
  | .posix => capacity
  | .windows => min capacity intMax

/-! ## The owner -/

/-- An entry of the list `getaddrinfo` returns. -/
abbrev Address := Nat

inductive OwnerOp where
  | connect (host : String) (port : Nat)
  | receive (capacity : Nat) (timeout : Nat)
  | close
  | destroy
  deriving DecidableEq

inductive OwnerResult where
  | done
  | datagram (bytes : List UInt8)
  | threw (message : String)
  deriving DecidableEq

/-- The bits of `revents` that are looked at. -/
structure Revents where
  err : Bool
  hup : Bool
  nval : Bool
  deriving DecidableEq

/-- The locals of `receive`. -/
structure Receiving where
  descriptor : Nat
  capacity : Nat
  deadline : TimePoint
  deriving DecidableEq

inductive OwnerPc where
  -- connect
  | resolve (host service : String)
  | socket (addresses : List Address) (lastError : Int)
  | connect (descriptor : Nat) (address : Address) (rest : List Address)
  | discard (descriptor : Nat) (rest : List Address) (lastError : Int)
  | adopt (descriptor : Nat)
  -- receive
  | receive (capacity timeout : Nat)
  | head (r : Receiving)
  | wait (r : Receiving) (ticks : Nat) (since : TimePoint)
  | expired (r : Receiving)
  | ready (r : Receiving) (revents : Revents)
  | waitFailed (r : Receiving) (revents : Revents)
  | recv (r : Receiving)
  | recvFailed (code : Int)
  -- close and the destructor
  | close
  | destroy
  | returned (result : OwnerResult)
  deriving DecidableEq

def OwnerOp.entry : OwnerOp → OwnerPc
  | .connect host port => .resolve host (toString port)
  | .receive capacity timeout => .receive capacity timeout
  | .close => .close
  | .destroy => .destroy

inductive PollAnswer where
  | expired
  | failed (code : Int)
  | ready (revents : Revents)
  deriving DecidableEq

inductive Answer where
  | go
  | resolved (code : Int)
  | addresses (addresses : List Address)
  | noSocket (code : Int)
  | socket (descriptor : Nat)
  | connected
  | refused (code : Int)
  | poll (answer : PollAnswer)
  | soError (code : Option Int)
  | noDatagram (code : Int)
  | datagram (bytes : List UInt8)
  deriving DecidableEq

/-! ## The state -/

/-- Who holds an open descriptor. -/
inductive Holder where
  | transport | other
  deriving DecidableEq

inductive SystemCall where
  | connect | send | poll | getsockopt | recv | shutdown | close
  deriving DecidableEq

structure Used where
  call : SystemCall
  descriptor : Nat
  holder : Option Holder
  deriving DecidableEq

/-- The transport in its process. Its `socket` is a descriptor here. -/
structure Net where
  table : Nat → Option Holder := fun _ => none
  transport : UdpTransport := ⟨none, false⟩
  owner : OwnerPc := .returned .done
  clock : TimePoint := 0
  used : List Used := []
  destroyed : Bool := false

/-- A system call on a descriptor. -/
def Net.use (s : Net) (call : SystemCall) (descriptor : Nat) : Net :=
  { s with used := s.used ++ [⟨call, descriptor, s.table descriptor⟩] }

/-- `::close` and `::closesocket`: the number is free again. -/
def Net.release (s : Net) (descriptor : Nat) : Net :=
  { s.use .close descriptor with table := Function.update s.table descriptor none }

/-- The section of `close` and the destructor. -/
def Net.closeSocket (s : Net) : Net :=
  match s.transport.socket with
  | some old => { s.release old with transport := ⟨none, true⟩ }
  | none => { s with transport := ⟨none, true⟩ }

/-- The locked section at the end of `connect`. -/
def Net.adopt (s : Net) (descriptor : Nat) : Net :=
  match s.transport.socket with
  | some old => { s.release old with transport := ⟨some descriptor, false⟩ }
  | none => { s with transport := ⟨some descriptor, false⟩ }

/-! ## The steps of the owner -/

/-- `connect`: resolve, try the addresses, keep the first socket that can
be connected. -/
def connectOwner (os : Os) (T : ErrorTexts) (answer : Answer) (s : Net) :
    OwnerPc → Option (OwnerPc × Net)
  | .resolve _ _ =>
      match answer with
      | .resolved code => some (.returned (.threw (os.resolveError T code)), s)
      | .addresses addresses => some (.socket addresses os.noAddress, s)
      | _ => none
  | .socket [] lastError =>
      some (.returned (.threw (os.error T "failed to connect UDP socket" lastError)), s)
  | .socket (address :: rest) _ =>
      match answer with
      | .noSocket code => some (.socket rest code, s)
      | .socket descriptor =>
          if (s.table descriptor).isSome then none
          else
            some (.connect descriptor address rest,
              { s with table := Function.update s.table descriptor (some .transport) })
      | _ => none
  | .connect descriptor _ rest =>
      match answer with
      | .connected => some (.adopt descriptor, s.use .connect descriptor)
      | .refused code => some (.discard descriptor rest code, s.use .connect descriptor)
      | _ => none
  | .discard descriptor rest lastError => some (.socket rest lastError, s.release descriptor)
  | .adopt descriptor => some (.returned .done, s.adopt descriptor)
  | _ => none

/-- The result of a `receive` that has nothing. -/
def OwnerPc.nothing : OwnerPc := .returned (.datagram [])

/-- After `poll`: on POSIX an interrupted wait goes on with what remains
of the time, and an expired one is over; on Windows an expired slice is
followed by the next one. -/
def waitOwner (os : Os) (T : ErrorTexts) (answer : PollAnswer) (s : Net) (r : Receiving)
    (ticks : Nat) (since : TimePoint) : Option OwnerPc :=
  match answer with
  | .expired =>
      if since + os.pollMilliseconds ticks * 1000000 ≤ s.clock then
        some (match os with | .posix => .nothing | .windows => .expired r)
      else none
  | .failed code =>
      if code = os.interrupted then
        match os with
        | .posix =>
            some (if r.deadline ≤ s.clock then .nothing
              else .wait r (r.deadline - s.clock) s.clock)
        | .windows => some .nothing
      else some (.returned (.threw (os.error T "failed to wait for UDP record" code)))
  | .ready revents =>
      -- the system reports a closed descriptor, and only that, as invalid
      if revents.nval = (s.table r.descriptor).isNone then some (.ready r revents) else none

/-- `socket_wait_error`. -/
def socketWaitError (revents : Revents) (soError : Option Int) : Int :=
  if revents.nval then wsaENotSock
  else
    match revents.err, soError with
    | true, some code => if code ≠ 0 then code else wsaEConnReset
    | _, _ => wsaEConnReset

/-- `receive`. Its deadline is computed from a timeout that has become a
`double` of seconds. -/
def receiveOwner (P : Platform) (os : Os) (T : ErrorTexts) (answer : Answer) (s : Net) :
    OwnerPc → Option (OwnerPc × Net)
  | .receive capacity timeout =>
      match s.transport.socket with
      | none => some (.returned (.threw "UDP socket is not connected"), s)
      | some descriptor =>
          if s.transport.shutdownRequested then some (.nothing, s)
          else
            match checkedDeadline s.clock (P.seconds timeout) with
            | .error message => some (.returned (.threw message), s)
            | .ok deadline =>
                match os with
                | .posix => some (.wait ⟨descriptor, capacity, deadline⟩ timeout s.clock, s)
                | .windows => some (.head ⟨descriptor, capacity, deadline⟩, s)
  | .head r =>
      some (if s.transport.shutdownRequested then .nothing
        else .wait r (os.pollTicks (r.deadline - s.clock)) s.clock, s)
  | .wait r ticks since =>
      match answer with
      | .poll answer => (waitOwner os T answer s r ticks since).map (·, s.use .poll r.descriptor)
      | _ => none
  | .expired r => some (if r.deadline ≤ s.clock then .nothing else .head r, s)
  | .ready r revents =>
      some (if s.transport.shutdownRequested then .nothing
        else
          match os with
          | .posix =>
              if revents.nval then .returned (.threw "UDP socket became invalid") else .recv r
          | .windows =>
              if revents.err || revents.hup || revents.nval then .waitFailed r revents
              else .recv r, s)
  | .waitFailed r revents =>
      match answer with
      | .soError code =>
          some (.returned (.threw
            (os.error T "failed to wait for UDP record" (socketWaitError revents code))),
            if revents.err && !revents.nval then s.use .getsockopt r.descriptor else s)
      | _ => none
  | .recv r =>
      match answer with
      | .datagram bytes =>
          some (.returned (.datagram (bytes.take (os.receivable r.capacity))),
            s.use .recv r.descriptor)
      | .noDatagram code =>
          some (match os with
            | .posix =>
                if code = os.interrupted then .nothing
                else .returned (.threw (os.error T "failed to receive UDP record" code))
            | .windows => .recvFailed code, s.use .recv r.descriptor)
      | _ => none
  | .recvFailed code =>
      some (if s.transport.shutdownRequested then .nothing
        else if code = os.interrupted ∨ code = wsaEShutdown then .nothing
        else .returned (.threw (os.error T "failed to receive UDP record" code)), s)
  | _ => none

/-- `close` and `~UdpTransport`. -/
def closeOwner (s : Net) : OwnerPc → Option (OwnerPc × Net)
  | .close => some (.returned .done, s.closeSocket)
  | .destroy => some (.returned .done, { s.closeSocket with destroyed := true })
  | _ => none

inductive OwnerPart where
  | connect | receive | close
  deriving DecidableEq

def OwnerPc.part : OwnerPc → OwnerPart
  | .resolve _ _ | .socket _ _ | .connect _ _ _ | .discard _ _ _ | .adopt _ => .connect
  | .close | .destroy | .returned _ => .close
  | _ => .receive

/-- One step of the owner. -/
def ownerStep (P : Platform) (os : Os) (T : ErrorTexts) (answer : Answer) (s : Net) :
    Option (OwnerPc × Net) :=
  match s.owner.part with
  | .connect => connectOwner os T answer s s.owner
  | .receive => receiveOwner P os T answer s s.owner
  | .close => closeOwner s s.owner

/-! ## All steps -/

inductive NetLabel where
  | tick (ticks : Nat)
  | begin (op : OwnerOp)
  | owner (answer : Answer)
  | send (command : Command) (answer : Except Int Nat)
  | shutdown
  | otherOpens (descriptor : Nat)
  | otherCloses (descriptor : Nat)
  deriving DecidableEq

def OwnerPc.idle : OwnerPc → Bool
  | .returned _ => true
  | _ => false

/-- `UdpTransport::send`: its result. -/
def sendResult (os : Os) (T : ErrorTexts) (t : UdpTransport) (answer : Except Int Nat) :
    Except String Unit :=
  match t.socket, answer with
  | none, _ => .error "UDP socket is not connected"
  | some _, .error code => .error (os.error T "failed to send UDP request" code)
  | some _, .ok sent => if sent = 8 then .ok () else .error "short UDP request write"

/-- One step: of the owner, of a thread that sends or requests a shutdown,
or of the rest of the process with descriptors of its own. -/
def Net.step (P : Platform) (os : Os) (T : ErrorTexts) (s : Net) : NetLabel → Option Net
  | .tick ticks => some { s with clock := s.clock + ticks }
  | .begin op =>
      if s.owner.idle && !s.destroyed then some { s with owner := op.entry } else none
  | .owner answer => (ownerStep P os T answer s).map fun r => { r.2 with owner := r.1 }
  | .send _ _ =>
      if s.destroyed then none
      else
        some (match s.transport.socket with
          | some descriptor => s.use .send descriptor
          | none => s)
  | .shutdown =>
      if s.destroyed then none
      else
        let s' := { s with transport := { s.transport with shutdownRequested := true } }
        some (match s.transport.socket with
          | some descriptor => s'.use .shutdown descriptor
          | none => s')
  | .otherOpens descriptor =>
      if (s.table descriptor).isSome then none
      else some { s with table := Function.update s.table descriptor (some .other) }
  | .otherCloses descriptor =>
      if s.table descriptor = some .other then
        some { s with table := Function.update s.table descriptor none }
      else none

/-- A new transport, in a process with descriptors of its own. -/
def netLts (P : Platform) (os : Os) (T : ErrorTexts) : Lts Net NetLabel where
  init s := ∃ table clock, (∀ n, table n ≠ some .transport) ∧
    s = { table := table, clock := clock }
  step := Net.step P os T

end PyNetFT.Core
