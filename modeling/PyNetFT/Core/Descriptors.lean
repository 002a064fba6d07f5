/-
PyNetFT.Core.Descriptors — every socket a client opens is closed once.

The ghost log names a new number for every socket. `Shared.SocketWf` is
the ledger of these numbers: they are opened in order, and the closed
ones together with the one in use are all of them, each once. The thread
that opens them closes the last one before it announces its exit, so
between runs no socket is open.
-/
import PyNetFT.Core.Progress
import Mathlib.Data.List.Perm.Basic

namespace PyNetFT.Core

open PyNetFT.Lib

/-! ## The ledger -/

def Event.opened? : Event → Option Nat
  | .opened k => some k
  | _ => none

def Event.closed? : Event → Option Nat
  | .closed k => some k
  | _ => none

/-- The sockets opened and closed, in order. -/
def opens (log : List Event) : List Nat := log.filterMap Event.opened?

def closes (log : List Event) : List Nat := log.filterMap Event.closed?

structure Shared.SocketWf (s : Shared) : Prop where
  opened : opens s.log = List.range s.nextSocket
  ledger : (closes s.log ++ s.transport.socket.toList).Perm (List.range s.nextSocket)

/-- The thread has closed its last socket. -/
def Phase.closedUp : Phase → Bool
  | .closed | .exited | .done => true
  | _ => false

structure Sys.SocketWf (s : Sys) : Prop where
  shared : s.shared.SocketWf
  thread : ∀ w t, s.shared.activeWorkerId = some w → s.workers w = some t →
    t.pc.phase.closedUp = true → s.shared.transport.socket = none
  idle : s.shared.activeWorkerId = none → s.shared.transport.socket = none

/-- What the ledger looks at. -/
structure Shared.SameSockets (s s' : Shared) : Prop where
  socket : s'.transport.socket = s.transport.socket
  next : s'.nextSocket = s.nextSocket
  opens : opens s'.log = opens s.log
  closes : closes s'.log = closes s.log

section Frames

variable {s s' u : Shared}

theorem Shared.SameSockets.refl (s : Shared) : s.SameSockets s := ⟨rfl, rfl, rfl, rfl⟩

theorem Shared.SameSockets.trans (h : s.SameSockets s') (h' : s'.SameSockets u) :
    s.SameSockets u :=
  ⟨h'.socket.trans h.socket, h'.next.trans h.next, h'.opens.trans h.opens,
    h'.closes.trans h.closes⟩

theorem opens_wire (log : List Event) : opens (wire log) = opens log := by
  unfold opens wire
  rw [List.filterMap_filter]
  congr 1
  funext e
  cases e <;> rfl

theorem closes_wire (log : List Event) : closes (wire log) = closes log := by
  unfold closes wire
  rw [List.filterMap_filter]
  congr 1
  funext e
  cases e <;> rfl

theorem Shared.SameSockets.of_wire (hsocket : s'.transport.socket = s.transport.socket)
    (hnext : s'.nextSocket = s.nextSocket) (hwire : wire s'.log = wire s.log) :
    s.SameSockets s' := by
  refine ⟨hsocket, hnext, ?_, ?_⟩
  · rw [← opens_wire, hwire, opens_wire]
  · rw [← closes_wire, hwire, closes_wire]

theorem Shared.SameSockets.of_control (h : s'.control = u.control) (hu : s.SameSockets u) :
    s.SameSockets s' :=
  hu.trans (.of_wire (congrArg (fun c => c.transport.socket) h) (congrArg Control.nextSocket h)
    (congrArg Control.wire h))

theorem Shared.SocketWf.frame (h : s.SocketWf) (hs : s.SameSockets s') : s'.SocketWf where
  opened := by
    rw [hs.opens, hs.next]
    exact h.opened
  ledger := by
    rw [hs.closes, hs.next, hs.socket]
    exact h.ledger

/-! ## The sections that command or close a socket -/

theorem attempt_sockets (s : Shared) (command : Command) (event : SendEvent) :
    s.SameSockets (s.attempt command event) := by
  refine .of_control rfl ⟨rfl, rfl, ?_, ?_⟩
  · simp [Shared.attempt, opens, Event.opened?]
  · simp [Shared.attempt, closes, Event.closed?]

theorem stopStreaming_sockets (s : Shared) (event : SendEvent) :
    s.SameSockets (s.stopStreaming event) := by
  unfold Shared.stopStreaming
  split
  · exact (attempt_sockets s _ event).trans ⟨rfl, rfl, rfl, rfl⟩
  · exact .refl s

theorem stopCommand_sockets (s : Shared) (event : SendEvent) :
    s.SameSockets (s.stopCommand event) :=
  (stopStreaming_sockets s event).trans ⟨rfl, rfl, rfl, rfl⟩

theorem bias_sockets (s : Shared) (first second : SendEvent) :
    s.SameSockets (s.bias first second).1 := by
  unfold Shared.bias
  have hfirst := attempt_sockets s .setSoftwareBias first
  have hsecond := hfirst.trans (attempt_sockets _ .startRealtime second)
  split
  · exact .refl s
  · dsimp only
    split
    · exact hfirst
    · split
      · exact hsecond
      · exact hsecond.trans ⟨rfl, rfl, rfl, rfl⟩

theorem closes_append_closed (log : List Event) (socket : Option Nat) :
    closes (log ++ socket.toList.map .closed) = closes log ++ socket.toList := by
  cases socket <;> simp [closes, Event.closed?]

theorem opens_append_closed (log : List Event) (socket : Option Nat) :
    opens (log ++ socket.toList.map .closed) = opens log := by
  cases socket <;> simp [opens, Event.opened?]

/-- The old socket is closed, the new one takes the next number. -/
theorem Shared.SocketWf.connected (h : s.SocketWf) : s.connected.SocketWf where
  opened := by
    show opens (s.log ++ s.transport.socket.toList.map .closed ++ [.opened s.nextSocket]) = _
    rw [opens, List.filterMap_append, ← opens, opens_append_closed, h.opened]
    show List.range s.nextSocket ++ [s.nextSocket] = List.range (s.nextSocket + 1)
    rw [List.range_succ]
  ledger := by
    show (closes (s.log ++ s.transport.socket.toList.map .closed ++ [.opened s.nextSocket])
      ++ [s.nextSocket]).Perm (List.range (s.nextSocket + 1))
    rw [closes, List.filterMap_append, ← closes, closes_append_closed, List.range_succ,
      show List.filterMap Event.closed? [.opened s.nextSocket] = [] from rfl, List.append_nil]
    exact h.ledger.append_right [s.nextSocket]

theorem Shared.SocketWf.closeSession (h : s.SocketWf) (event : SendEvent) :
    (s.closeSession event).SocketWf := by
  have hstop := h.frame (stopStreaming_sockets s event)
  refine ⟨?_, ?_⟩
  · show opens ((s.stopStreaming event).log
      ++ (s.stopStreaming event).transport.socket.toList.map Event.closed) = _
    rw [opens_append_closed]
    exact hstop.opened
  · show (closes ((s.stopStreaming event).log
      ++ (s.stopStreaming event).transport.socket.toList.map Event.closed) ++ []).Perm _
    rw [closes_append_closed, List.append_nil]
    exact hstop.ledger

end Frames

/-! ## The steps -/

section Steps

variable {P : Platform} {config : Config} {s s' : Sys}

theorem publish_sockets (s : Shared) (code : FaultCode) (message : String) :
    s.SameSockets { s with toImpl := s.toImpl.publish code message } := by
  unfold Impl.publish
  split
  · exact ⟨rfl, rfl, rfl, rfl⟩
  · exact .refl s

theorem markStopped_sockets (s : Shared) : s.SameSockets s.markStopped := by
  unfold Shared.markStopped
  split
  · exact .refl s
  · exact ⟨rfl, rfl, rfl, rfl⟩

/-- No call opens or closes a socket. -/
theorem CallMove.sockets {c : Nat} {caller : Option Nat} {pc pc' : CallPc}
    (h : CallMove config c caller s pc pc' s') : s.shared.SameSockets s'.shared := by
  cases h with
  | command event => exact stopCommand_sockets s.shared event
  | bias first second => exact bias_sockets s.shared first second
  | stopIdle => exact markStopped_sockets s.shared
  | reapStop => exact (markStopped_sockets s.shared).trans ⟨rfl, rfl, rfl, rfl⟩
  | @republish k d message =>
    dsimp only
    split
    · exact publish_sockets s.shared k.fault d.health.lastError
    · exact .refl _
  | _ => exact ⟨rfl, rfl, rfl, rfl⟩

/-- What a step of the receive thread does to the ledger. -/
theorem Shared.SocketWf.workerMove {t t' : Worker} {s s' : Shared} (h : s.SocketWf)
    (hclosed : t.pc.phase.closedUp = true → s.transport.socket = none)
    (hmove : WorkerMove t s t' s') :
    s'.SocketWf ∧ (t'.pc.phase.closedUp = true → s'.transport.socket = none) := by
  -- a step that keeps the socket, into a phase that is no later than before
  have hkeep : s.SameSockets s' → (t'.pc.phase.closedUp = true → t.pc.phase.closedUp = true) →
      s'.SocketWf ∧ (t'.pc.phase.closedUp = true → s'.transport.socket = none) :=
    fun hs hphase => ⟨h.frame hs, fun hup => hs.socket.trans (hclosed (hphase hup))⟩
  cases hmove with
  | quiet phase quiet =>
    refine hkeep (.of_control quiet.control (.refl s)) fun hup => ?_
    cases hbefore : t.pc.phase <;> cases hafter : t'.pc.phase <;>
      simp_all [Phase.quietly, Phase.closedUp]
  | connect before after =>
    refine ⟨h.connected, fun hup => ?_⟩
    rw [after] at hup
    cases hup
  | start event before after running =>
    refine hkeep ((attempt_sockets s .startRealtime event).trans ⟨rfl, rfl, rfl, rfl⟩)
      fun hup => ?_
    rw [after] at hup
    cases hup
  | close event phases control health =>
    refine ⟨(h.closeSession event).frame (.of_control control (.refl _)), fun _ => ?_⟩
    exact congrArg (fun c => c.transport.socket) control
  | fail code message before place named =>
    refine hkeep (.refl s) fun hup => ?_
    rw [place] at hup
    cases hup
  | latch code message place after impl rest =>
    refine hkeep (.of_wire ?_ rest.2.1 rest.2.2) fun hup => ?_
    · rw [impl]
      exact (publish_sockets s code message).socket
    · rw [after] at hup
      cases hup
  | exit before after => exact hkeep ⟨rfl, rfl, rfl, rfl⟩ fun _ => by rw [before]; rfl
  | finish before after =>
    refine hkeep ?_ fun _ => by rw [before]; rfl
    split
    · exact .refl s
    · exact ⟨rfl, rfl, rfl, rfl⟩

/-- A step that leaves threads, handles and sockets in place. -/
theorem Sys.SocketWf.frame (h : s.SocketWf) (hs : s.shared.SameSockets s'.shared)
    (hactive : s'.shared.activeWorkerId = s.shared.activeWorkerId)
    (hthread : ∀ w t', s'.workers w = some t' → ∃ t, s.workers w = some t ∧ t.pc = t'.pc) :
    s'.SocketWf where
  shared := h.shared.frame hs
  thread := by
    intro w t' hw ht' hup
    obtain ⟨t, ht, hpc⟩ := hthread w t' ht'
    rw [hs.socket]
    exact h.thread w t (hactive ▸ hw) ht (by rw [hpc]; exact hup)
  idle := fun hnone => hs.socket.trans (h.idle (hactive ▸ hnone))

theorem Sys.SocketWf.callMove (h : s.SocketWf) (hwf : s.Wf) {c : Nat} {call : Call}
    {pc' : CallPc} (hc : s.calls c = some call)
    (hmove : CallMove config c call.caller s call.pc pc' s') : s'.SocketWf := by
  have hsockets := hmove.sockets
  -- a reaped thread has closed its socket
  have hreap : ∀ v, call.pc.joins = some v → s.finished v = true → s'.workers = s.workers →
      s'.shared.activeWorkerId = none → s'.SocketWf := by
    intro v hjoins hfinished hworkers hactive
    obtain ⟨hreaping, rfl⟩ := hwf.reaping_of_joins hc hjoins
    unfold Sys.finished at hfinished
    split at hfinished
    · rename_i t ht
      have hnone := h.thread _ t hreaping.active ht
        (by rw [of_decide_eq_true hfinished]; rfl)
      refine ⟨h.shared.frame hsockets, ?_, fun _ => hsockets.socket.trans hnone⟩
      intro w u hw
      rw [hactive] at hw
      cases hw
    · cases hfinished
  have hsame : s'.shared.activeWorkerId = s.shared.activeWorkerId → s'.workers = s.workers →
      s'.SocketWf := by
    intro hactive hworkers
    exact h.frame hsockets hactive fun w t ht => ⟨t, hworkers ▸ ht, rfl⟩
  obtain ⟨caller, op, pc⟩ := call
  dsimp only at hmove hreap
  cases hmove with
  | reapStart free finished => exact hreap _ rfl finished rfl rfl
  | reapStop free finished => exact hreap _ rfl finished rfl rfl
  | spawn =>
    have hidle := h.idle (hwf.inactive_of_resets hc rfl)
    refine ⟨h.shared.frame hsockets, fun _ _ _ _ _ => hidle, fun _ => hidle⟩
  | command event => exact hsame (stopCommand_handles s.shared event).active rfl
  | bias first second => exact hsame (bias_handles s.shared first second).active rfl
  | stopIdle => exact hsame (markStopped_handles s.shared).active rfl
  | @republish k d message =>
    refine hsame ?_ rfl
    dsimp only
    split
    · exact (publish_handles s.shared k.fault d.health.lastError).active
    · rfl
  | _ => exact hsame rfl rfl

theorem Sys.SocketWf.step (h : s.SocketWf) (hwf : s.Wf) {l : Label}
    (hstep : s.step P config l = some s') : s'.SocketWf := by
  cases Sys.step_move hstep with
  | tick ticks => exact h.frame ⟨rfl, rfl, rfl, rfl⟩ rfl fun w t ht => ⟨t, ht, rfl⟩
  | places label places =>
    refine h.frame ?_ (by rw [places.shared]) fun w t' ht' => places.thread ht'
    rw [places.shared]
    exact .refl _
  | call choice hc _ move =>
    have hafter := h.callMove hwf hc move
    exact ⟨hafter.shared, hafter.thread, hafter.idle⟩
  | @worker w t t' shared' choice ht step move =>
    obtain ⟨hrun, -, hactive, -⟩ := move.lifecycle
    have hw := hwf.active_of_running ht hrun
    obtain ⟨hshared, hclosed⟩ := h.shared.workerMove (h.thread w t hw ht) move
    refine ⟨hshared, ?_, ?_⟩
    · intro v u hv hu hup
      obtain rfl : v = w := Option.some.inj (hv.symm.trans (hactive.trans hw))
      simp only [Sys.setWorker, Function.update_self, Option.some.injEq] at hu
      subst hu
      exact hclosed hup
    · intro hnone
      have : none = some w := hnone.symm.trans (hactive.trans hw)
      cases this

theorem socketWf_of_reachable (h : (clientLts P config).Reachable s) : s.SocketWf := by
  refine h.invariant_using (K := Sys.Wf) (fun s hs => wf_of_reachable hs) ?_ ?_
  · rintro s ⟨clock, -, rfl⟩
    exact ⟨⟨rfl, .refl _⟩, fun _ _ hw => (by cases hw), fun _ => rfl⟩
  · intro s l t _ hstep hwf _ hs
    exact hs.step hwf hstep

end Steps

/-! ## Opened once, closed once -/

theorem count_opened (log : List Event) (k : Nat) :
    log.count (.opened k) = (opens log).count k := by
  induction log with
  | nil => rfl
  | cons e log ih =>
    have hcons : opens (e :: log) = e.opened?.toList ++ opens log := by
      cases e <;> rfl
    rw [hcons, List.count_append, List.count_cons, ih]
    cases e <;> simp [Event.opened?, List.count_singleton, Nat.add_comm]

theorem count_closed (log : List Event) (k : Nat) :
    log.count (.closed k) = (closes log).count k := by
  induction log with
  | nil => rfl
  | cons e log ih =>
    have hcons : closes (e :: log) = e.closed?.toList ++ closes log := by
      cases e <;> rfl
    rw [hcons, List.count_append, List.count_cons, ih]
    cases e <;> simp [Event.closed?, List.count_singleton, Nat.add_comm]

/-- In every state of every run: each socket was opened once, each but the
one in use was closed once, and without a running thread none is in use. -/
theorem sockets_closed_once (P : Platform) (config : Config) {s : Sys}
    (h : (clientLts P config).Reachable s) :
    (∀ k, s.shared.log.count (.opened k) = if k < s.shared.nextSocket then 1 else 0) ∧
    (∀ k, s.shared.log.count (.closed k)
      = if k < s.shared.nextSocket ∧ s.shared.transport.socket ≠ some k then 1 else 0) ∧
    (∀ k, s.shared.transport.socket = some k → k < s.shared.nextSocket) ∧
    ((∀ w t, s.workers w = some t → t.pc.phase.closedUp = true) →
      s.shared.transport.socket = none) := by
  have hwf := wf_of_reachable h
  have hsockets := socketWf_of_reachable h
  have hrange : ∀ k, (List.range s.shared.nextSocket).count k
      = if k < s.shared.nextSocket then 1 else 0 := by
    intro k
    rw [List.nodup_range.count]
    simp
  have hcount : ∀ k, (closes s.shared.log).count k + s.shared.transport.socket.toList.count k
      = if k < s.shared.nextSocket then 1 else 0 := by
    intro k
    rw [← List.count_append, hsockets.shared.ledger.count_eq, hrange]
  refine ⟨?_, ?_, ?_, ?_⟩
  · intro k
    rw [count_opened, hsockets.shared.opened, hrange]
  · intro k
    have hk := hcount k
    rw [count_closed]
    by_cases hsocket : s.shared.transport.socket = some k
    · rw [hsocket] at hk ⊢
      simp only [Option.toList_some, List.count_singleton_self] at hk
      split at hk <;> simp <;> omega
    · have : s.shared.transport.socket.toList.count k = 0 :=
        List.count_eq_zero.mpr (by simpa using hsocket)
      simpa [this, hsocket] using hk
  · intro k hsocket
    have hk := hcount k
    rw [hsocket] at hk
    simp only [Option.toList_some, List.count_singleton_self] at hk
    split at hk <;> omega
  · intro hall
    cases hactive : s.shared.activeWorkerId with
    | none => exact hsockets.idle hactive
    | some w =>
      obtain ⟨t, ht⟩ := hwf.active_present hactive
      exact hsockets.thread w t hactive ht (hall w t ht)

/-- The socket of a run that was stopped. -/
theorem sockets_closed_once_stopped :
    ∃ s, (clientLts exactPlatform overrideConfig).Reachable s ∧ s.created = 1 ∧
      s.shared.log.count (.opened 0) = 1 ∧ s.shared.log.count (.closed 0) = 1 := by
  obtain ⟨s, hs, hp⟩ := Lts.exists_of_exec (l := streamingRun ++ stoppingRun)
    (p := fun s : Sys => decide (s.created = 1 ∧ s.shared.nextSocket = 1 ∧
      s.shared.transport.socket = none))
    overrideConfig_reachable (by decide +kernel)
  obtain ⟨hcreated, hnext, hsocket⟩ := of_decide_eq_true hp
  obtain ⟨hopened, hclosed, -⟩ := sockets_closed_once exactPlatform overrideConfig hs
  refine ⟨s, hs, hcreated, ?_, ?_⟩
  · rw [hopened, hnext]
    rfl
  · rw [hclosed, hnext, hsocket]
    rfl

end PyNetFT.Core
