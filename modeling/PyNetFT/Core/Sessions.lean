/-
PyNetFT.Core.Sessions — the commands a sensor sees on one socket.

The words of a socket: nothing; one `StartRealtime` that could not be
sent; or `StartRealtime`, any number of bias attempts, and one
`StopStreaming`. `session_started_` is true exactly while the word of
the current socket is of the third kind and still lacks its
`StopStreaming`; that, and which thread can be where while it is true,
is the invariant.
-/
import PyNetFT.Core.Lifecycle

namespace PyNetFT.Core

open PyNetFT.Lib

/-! ## Words -/

/-- The commands attempted on a socket, with whether the send went
through. -/
def commandsOn (k : Nat) (log : List Event) : List (Command × Bool) :=
  log.filterMap fun
    | .command (some j) command sent => if j = k then some (command, sent) else none
    | _ => none

/-- `(SetSoftwareBias [StartRealtime])*`: the `StartRealtime` is missing
only after a `SetSoftwareBias` that could not be sent. -/
inductive BiasWord : List (Command × Bool) → Prop where
  | nil : BiasWord []
  | failed {w : List (Command × Bool)} : BiasWord w → BiasWord (w ++ [(.setSoftwareBias, false)])
  | restarted {w : List (Command × Bool)} (sent : Bool) :
      BiasWord w → BiasWord (w ++ [(.setSoftwareBias, true), (.startRealtime, sent)])

/-- What a socket has carried while its session is open. -/
inductive OpenWord : List (Command × Bool) → Prop where
  | started {w : List (Command × Bool)} : BiasWord w → OpenWord ((.startRealtime, true) :: w)

/-- What a socket has carried when its session is over, or never began. -/
inductive CompleteWord : List (Command × Bool) → Prop where
  | empty : CompleteWord []
  | rejected : CompleteWord [(.startRealtime, false)]
  | stopped {w : List (Command × Bool)} (sent : Bool) :
      OpenWord w → CompleteWord (w ++ [(.stopStreaming, sent)])

/-- An open word is a prefix of a complete one. -/
theorem OpenWord.prefix_complete {w : List (Command × Bool)} (h : OpenWord w) :
    ∃ rest, CompleteWord (w ++ rest) :=
  ⟨_, .stopped true h⟩

theorem OpenWord.bias_failed {w : List (Command × Bool)} (h : OpenWord w) :
    OpenWord (w ++ [(.setSoftwareBias, false)]) := by
  cases h with
  | started hw => exact .started hw.failed

theorem OpenWord.bias_restarted {w : List (Command × Bool)} (h : OpenWord w) (sent : Bool) :
    OpenWord (w ++ [(.setSoftwareBias, true), (.startRealtime, sent)]) := by
  cases h with
  | started hw => exact .started (hw.restarted sent)

/-- Attempts to stop streaming. -/
def stopAttempts (w : List (Command × Bool)) : Nat :=
  w.countP fun p => decide (p.1 = .stopStreaming)

theorem BiasWord.stopAttempts_eq {w : List (Command × Bool)} (h : BiasWord w) :
    stopAttempts w = 0 := by
  induction h with
  | nil => rfl
  | failed _ ih => simpa [stopAttempts] using ih
  | restarted sent _ ih => simpa [stopAttempts] using ih

theorem OpenWord.stopAttempts_eq {w : List (Command × Bool)} (h : OpenWord w) :
    stopAttempts w = 0 := by
  cases h with
  | started hw => simpa [stopAttempts] using hw.stopAttempts_eq

/-- One `StopStreaming` for a started session, none for any other. -/
theorem CompleteWord.stopAttempts_eq {w : List (Command × Bool)} (h : CompleteWord w) :
    stopAttempts w = if w.head? = some (.startRealtime, true) then 1 else 0 := by
  cases h with
  | empty => rfl
  | rejected => rfl
  | stopped sent hw =>
    have := hw.stopAttempts_eq
    cases hw with
    | started hb => simpa [stopAttempts] using this

/-! ## How a log grows -/

theorem commandsOn_append (k : Nat) (a b : List Event) :
    commandsOn k (a ++ b) = commandsOn k a ++ commandsOn k b :=
  List.filterMap_append

/-- Only what is on the wire counts. -/
theorem commandsOn_wire (k : Nat) (log : List Event) :
    commandsOn k (wire log) = commandsOn k log := by
  induction log with
  | nil => rfl
  | cons e log ih =>
    cases e <;> simp_all [wire, commandsOn, Event.onWire, List.filter_cons, List.filterMap_cons]

theorem commandsOn_map_command (j k : Nat) (attempts : List (Command × Bool)) :
    commandsOn j (attempts.map fun p => .command (some k) p.1 p.2)
      = if j = k then attempts else [] := by
  by_cases h : j = k
  · simp [commandsOn, List.filterMap_map, h]
  · have hkj : ¬ k = j := fun e => h e.symm
    simp [commandsOn, List.filterMap_map, h, hkj]

theorem commandsOn_closed (k : Nat) (socket : Option Nat) :
    commandsOn k (socket.toList.map .closed) = [] := by
  cases socket <;> rfl

theorem mem_wire_command {log : List Event} {socket : Option Nat} {command : Command}
    {sent : Bool} :
    Event.command socket command sent ∈ wire log ↔ Event.command socket command sent ∈ log := by
  simp [wire, Event.onWire]

theorem mem_wire_closed {log : List Event} {k : Nat} :
    Event.closed k ∈ wire log ↔ Event.closed k ∈ log := by
  simp [wire, Event.onWire]

/-! ## The invariant -/

/-- The part of the shared members the invariant is about. -/
structure Shared.SessionWf (s : Shared) : Prop where
  fresh : ∀ k, s.nextSocket ≤ k → commandsOn k s.log = []
  below : ∀ k, s.transport.socket = some k → k < s.nextSocket
  socketed : ∀ command sent, Event.command none command sent ∉ s.log
  words : ∀ k, if s.sessionStarted = true ∧ s.transport.socket = some k
    then OpenWord (commandsOn k s.log) else CompleteWord (commandsOn k s.log)
  started : s.sessionStarted = true → s.transport.socket.isSome = true
  closed : ∀ k, Event.closed k ∈ s.log → k < s.nextSocket ∧ s.transport.socket ≠ some k

/-- The phases in which the session may be on. -/
def Phase.mayStream : Phase → Bool
  | .open | .latching | .finishing => true
  | _ => false

/-- Where a thread can be while the members are as they are. -/
structure Shared.ThreadWf (s : Shared) (t : Worker) : Prop where
  started : s.sessionStarted = true → t.pc.phase.mayStream = true
  connected : t.pc.phase = .connected →
    s.sessionStarted = false ∧ ∃ k, s.transport.socket = some k ∧ commandsOn k s.log = []

structure Sys.SessionWf (s : Sys) : Prop where
  shared : s.shared.SessionWf
  thread : ∀ w t, s.shared.activeWorkerId = some w → s.workers w = some t → s.shared.ThreadWf t
  idle : s.shared.activeWorkerId = none → s.shared.sessionStarted = false

/-- The invariant looks at these members only. -/
structure Shared.SameSession (s s' : Shared) : Prop where
  transport : s'.transport.socket = s.transport.socket
  sessionStarted : s'.sessionStarted = s.sessionStarted
  nextSocket : s'.nextSocket = s.nextSocket
  wire : wire s'.log = wire s.log

section Frame

variable {s s' : Shared}

theorem Shared.SameSession.refl (s : Shared) : s.SameSession s := ⟨rfl, rfl, rfl, rfl⟩

theorem Shared.SameSession.of_control {u : Shared} (h : s'.control = u.control)
    (hu : s.SameSession u) : s.SameSession s' where
  transport := (congrArg (·.transport.socket) h).trans hu.transport
  sessionStarted := (congrArg Control.sessionStarted h).trans hu.sessionStarted
  nextSocket := (congrArg Control.nextSocket h).trans hu.nextSocket
  wire := (congrArg Control.wire h).trans hu.wire

theorem Shared.SameSession.commandsOn (h : s.SameSession s') (k : Nat) :
    PyNetFT.Core.commandsOn k s'.log = PyNetFT.Core.commandsOn k s.log := by
  rw [← commandsOn_wire, h.wire, commandsOn_wire]

theorem Shared.SessionWf.frame (h : s.SessionWf) (hs : s.SameSession s') : s'.SessionWf where
  fresh := by
    intro k hk
    rw [hs.commandsOn]
    exact h.fresh k (hs.nextSocket ▸ hk)
  below := by
    intro k hk
    rw [hs.nextSocket]
    exact h.below k (hs.transport ▸ hk)
  socketed := by
    intro command sent hmem
    rw [← mem_wire_command, hs.wire, mem_wire_command] at hmem
    exact h.socketed command sent hmem
  words := by
    intro k
    rw [hs.sessionStarted, hs.transport, hs.commandsOn]
    exact h.words k
  started := by
    rw [hs.sessionStarted, hs.transport]
    exact h.started
  closed := by
    intro k hmem
    rw [← mem_wire_closed, hs.wire, mem_wire_closed] at hmem
    rw [hs.nextSocket, hs.transport]
    exact h.closed k hmem

theorem Shared.ThreadWf.frame {t : Worker} (h : s.ThreadWf t) (hs : s.SameSession s') :
    s'.ThreadWf t where
  started := by
    rw [hs.sessionStarted]
    exact h.started
  connected := by
    intro hphase
    obtain ⟨hno, k, hk, hword⟩ := h.connected hphase
    exact ⟨hs.sessionStarted.trans hno, k, hs.transport.trans hk, (hs.commandsOn k).trans hword⟩

end Frame

/-! ## The sections that command the sensor -/

section Sections

variable {s : Shared}

/-- `connect`: the new socket has carried nothing. -/
theorem Shared.SessionWf.connected (h : s.SessionWf) (hno : s.sessionStarted = false) :
    s.connected.SessionWf ∧ commandsOn s.nextSocket s.connected.log = [] := by
  have hlog : ∀ k, commandsOn k s.connected.log = commandsOn k s.log := by
    intro k
    simp only [Shared.connected, commandsOn_append, commandsOn_closed, List.append_nil]
    exact List.append_nil _
  refine ⟨⟨?_, ?_, ?_, ?_, ?_, ?_⟩, ?_⟩
  · intro k hk
    rw [hlog]
    exact h.fresh k (Nat.le_of_succ_le hk)
  · intro k hk
    obtain rfl : s.nextSocket = k := Option.some.inj hk
    exact Nat.lt_succ_self _
  · intro command sent hmem
    simp only [Shared.connected, List.mem_append, List.mem_map, List.mem_singleton,
      reduceCtorEq, and_false, exists_false, or_false] at hmem
    exact h.socketed command sent hmem
  · intro k
    have := h.words k
    simp only [hno, Bool.false_eq_true, false_and, if_false] at this
    rw [hlog]
    simpa [Shared.connected, hno] using this
  · exact fun _ => rfl
  · intro k hmem
    have hlt : k < s.nextSocket := by
      simp only [Shared.connected, List.mem_append, List.mem_map, Option.mem_toList,
        Event.closed.injEq, exists_eq_right, List.mem_singleton, reduceCtorEq, or_false] at hmem
      rcases hmem with hold | hcurrent
      · exact (h.closed k hold).1
      · exact h.below k hcurrent
    refine ⟨Nat.lt_succ_of_lt hlt, ?_⟩
    intro heq
    exact absurd (Option.some.inj heq) hlt.ne'
  · rw [hlog]
    exact h.fresh _ le_rfl

/-- Commands on the current socket, all under the command lock. Only the
word of that socket needs looking at. -/
theorem Shared.SessionWf.append {s' : Shared} (h : s.SessionWf) {k : Nat}
    (hk : s.transport.socket = some k) (attempts : List (Command × Bool))
    (hlog : s'.log = s.log ++ attempts.map fun p => .command (some k) p.1 p.2)
    (htransport : s'.transport = s.transport) (hnext : s'.nextSocket = s.nextSocket)
    (hself : if s'.sessionStarted = true then OpenWord (commandsOn k s.log ++ attempts)
      else CompleteWord (commandsOn k s.log ++ attempts)) : s'.SessionWf := by
  have hother : ∀ j, j ≠ k → commandsOn j s'.log = commandsOn j s.log := by
    intro j hj
    rw [hlog, commandsOn_append, commandsOn_map_command, if_neg hj, List.append_nil]
  have hown : commandsOn k s'.log = commandsOn k s.log ++ attempts := by
    rw [hlog, commandsOn_append, commandsOn_map_command, if_pos rfl]
  refine ⟨?_, ?_, ?_, ?_, ?_, ?_⟩
  · intro j hj
    have hbelow := h.below k hk
    rw [hnext] at hj
    rw [hother j (by omega)]
    exact h.fresh j hj
  · rw [htransport, hnext]
    exact h.below
  · intro command sent hmem
    simp only [hlog, List.mem_append, List.mem_map, Event.command.injEq, reduceCtorEq, false_and,
      and_false, exists_false, or_false] at hmem
    exact h.socketed command sent hmem
  · intro j
    rw [htransport]
    by_cases hj : j = k
    · subst hj
      rw [hown]
      simpa only [hk, and_true] using hself
    · have hsocket : s.transport.socket ≠ some j := by
        rw [hk]
        exact fun e => hj (Option.some.inj e).symm
      have hold := h.words j
      rw [if_neg (fun e => hsocket e.2)] at hold
      rw [if_neg (fun e => hsocket e.2), hother j hj]
      exact hold
  · intro _
    rw [htransport, hk]
    rfl
  · intro j hmem
    rw [hnext, htransport]
    simp only [hlog, List.mem_append, List.mem_map, reduceCtorEq, and_false, exists_false,
      or_false] at hmem
    exact h.closed j hmem

/-- The first `StartRealtime` on a fresh socket. -/
theorem Shared.SessionWf.start (h : s.SessionWf) (hno : s.sessionStarted = false) {k : Nat}
    (hk : s.transport.socket = some k) (hword : commandsOn k s.log = []) (event : SendEvent) :
    Shared.SessionWf { s.attempt .startRealtime event with
      sessionStarted := s.transport.sends event || s.sessionStarted } := by
  refine h.append hk [(.startRealtime, s.transport.sends event)] ?_ rfl rfl ?_
  · simp [Shared.attempt, hk]
  · rw [hword]
    dsimp only
    rw [hno, Bool.or_false]
    cases s.transport.sends event with
    | true => exact OpenWord.started .nil
    | false => exact CompleteWord.rejected

/-- `StopStreaming`, when the session was started, completes its word. -/
theorem Shared.SessionWf.stopStreaming (h : s.SessionWf) (event : SendEvent) :
    (s.stopStreaming event).SessionWf ∧ (s.stopStreaming event).sessionStarted = false := by
  unfold Shared.stopStreaming
  split
  · rename_i hstarted
    obtain ⟨k, hk⟩ := Option.isSome_iff_exists.mp (h.started hstarted)
    refine ⟨h.append hk [(.stopStreaming, s.transport.sends event)] ?_ rfl rfl ?_, rfl⟩
    · simp [Shared.attempt, hk]
    · have hopen := h.words k
      rw [if_pos ⟨hstarted, hk⟩] at hopen
      exact CompleteWord.stopped _ hopen
  · rename_i hstarted
    exact ⟨h, by simpa using hstarted⟩

/-- `bias` extends the word of an open session, and nothing else. -/
theorem Shared.SessionWf.bias (h : s.SessionWf) (first second : SendEvent) :
    (s.bias first second).1.SessionWf ∧
      (s.bias first second).1.sessionStarted = s.sessionStarted ∧
      (s.bias first second).1.transport = s.transport := by
  unfold Shared.bias
  split
  · exact ⟨h, rfl, rfl⟩
  · rename_i hcond
    have hstarted : s.sessionStarted = true := by
      by_contra hne
      exact hcond (.inr (.inl (by simpa using hne)))
    obtain ⟨k, hk⟩ := Option.isSome_iff_exists.mp (h.started hstarted)
    have hopen := h.words k
    rw [if_pos ⟨hstarted, hk⟩] at hopen
    have hsends : ∀ event, s.transport.send event = .ok () ↔ s.transport.sends event = true := by
      intro event
      simp [UdpTransport.sends]
    dsimp only
    split
    · rename_i message hfirst
      refine ⟨h.append hk [(.setSoftwareBias, false)] ?_ rfl rfl ?_, rfl, rfl⟩
      · have : s.transport.sends first = false := by
          simp [UdpTransport.sends, show s.transport.send first = _ from hfirst]
        simp [Shared.attempt, hk, this]
      · simpa only [Shared.attempt, hstarted, if_true] using hopen.bias_failed
    · rename_i hfirst
      have hsent : s.transport.sends first = true := (hsends first).mp hfirst
      -- both sends were made; whether the second went through does not matter here
      have hboth : ∀ s' : Shared, s'.sessionStarted = s.sessionStarted →
          s'.transport = s.transport → s'.nextSocket = s.nextSocket →
          s'.log = ((s.attempt .setSoftwareBias first).attempt .startRealtime second).log →
          s'.SessionWf ∧ s'.sessionStarted = s.sessionStarted ∧ s'.transport = s.transport := by
        intro s' hstarted' htransport hnext hlog
        refine ⟨h.append hk [(.setSoftwareBias, true), (.startRealtime, s.transport.sends second)]
          ?_ htransport hnext ?_, hstarted', htransport⟩
        · rw [hlog]
          simp [Shared.attempt, hk, hsent]
        · rw [hstarted', if_pos hstarted]
          exact hopen.bias_restarted _
      split
      · exact hboth _ rfl rfl rfl rfl
      · exact hboth _ rfl rfl rfl rfl

/-- `close_session`: the word is complete and the socket is gone. -/
theorem Shared.SessionWf.closeSession (h : s.SessionWf) (event : SendEvent) :
    (s.closeSession event).SessionWf ∧ (s.closeSession event).sessionStarted = false := by
  obtain ⟨hstop, hno⟩ := h.stopStreaming event
  unfold Shared.closeSession
  dsimp only
  generalize s.stopStreaming event = u at hstop hno
  have hlog : ∀ k, commandsOn k (u.log ++ u.transport.socket.toList.map .closed)
      = commandsOn k u.log := by
    intro k
    rw [commandsOn_append, commandsOn_closed, List.append_nil]
  refine ⟨⟨?_, ?_, ?_, ?_, ?_, ?_⟩, hno⟩
  · intro k hk
    rw [hlog]
    exact hstop.fresh k hk
  · intro k hk
    cases hk
  · intro command sent hmem
    simp only [List.mem_append, List.mem_map, reduceCtorEq, and_false, exists_false,
      or_false] at hmem
    exact hstop.socketed command sent hmem
  · intro k
    have := hstop.words k
    simp only [hno, Bool.false_eq_true, false_and, if_false] at this
    dsimp only
    rw [if_neg (by simp), hlog]
    exact this
  · intro hstarted
    rw [show u.sessionStarted = true from hstarted] at hno
    cases hno
  · intro k hmem
    refine ⟨?_, by simp⟩
    simp only [List.mem_append, List.mem_map, Option.mem_toList, Event.closed.injEq,
      exists_eq_right] at hmem
    rcases hmem with hold | hcurrent
    · exact (hstop.closed k hold).1
    · exact hstop.below k hcurrent

/-- The command section of `stop`. -/
theorem Shared.SessionWf.stopCommand (h : s.SessionWf) (event : SendEvent) :
    (s.stopCommand event).SessionWf ∧ (s.stopCommand event).sessionStarted = false := by
  obtain ⟨hstop, hno⟩ := h.stopStreaming event
  exact ⟨hstop.frame ⟨rfl, rfl, rfl, rfl⟩, hno⟩

end Sections

/-! ## The invariant over whole runs -/

section System

variable {P : Platform} {config : Config} {s s' : Sys}

theorem Sys.sessionWf_new (config : Config) (clock : TimePoint) :
    (Sys.new config clock).SessionWf where
  shared :=
    { fresh := fun _ _ => rfl
      below := by simp [Sys.new, Impl.new]
      socketed := by simp [Sys.new]
      words := by
        intro k
        rw [if_neg (by simp [Sys.new, Impl.new])]
        exact .empty
      started := by simp [Sys.new, Impl.new]
      closed := by simp [Sys.new] }
  thread := by simp [Sys.new]
  idle := fun _ => rfl

/-- Steps that leave the transport, the session flag and the places of the
threads alone. -/
theorem Sys.SessionWf.frame (h : s.SessionWf) (hs : s.shared.SameSession s'.shared)
    (hactive : s'.shared.activeWorkerId = s.shared.activeWorkerId)
    (hthread : ∀ w t', s'.workers w = some t' → ∃ t, s.workers w = some t ∧ t.pc = t'.pc) :
    s'.SessionWf where
  shared := h.shared.frame hs
  thread := by
    intro w t' hw ht'
    obtain ⟨t, ht, hpc⟩ := hthread w t' ht'
    have hold := h.thread w t (hactive ▸ hw) ht
    exact Shared.ThreadWf.frame ⟨hpc ▸ hold.started, hpc ▸ hold.connected⟩ hs
  idle := by
    intro hnone
    rw [hs.sessionStarted]
    exact h.idle (hactive ▸ hnone)

/-- A call that changes the session members, with the threads unmoved. -/
theorem Sys.SessionWf.sections (h : s.SessionWf) (shared' : Shared)
    (hshared : shared'.SessionWf)
    (hactive : shared'.activeWorkerId = s.shared.activeWorkerId)
    (hstarted : shared'.sessionStarted = true → s.shared.sessionStarted = true)
    (hidle : s.shared.sessionStarted = false → s.shared.SameSession shared')
    (hworkers : s'.workers = s.workers) (hs' : s'.shared = shared') : s'.SessionWf where
  shared := hs' ▸ hshared
  thread := by
    intro w t hw ht
    rw [hs'] at hw ⊢
    rw [hworkers] at ht
    have hold := h.thread w t (hactive ▸ hw) ht
    refine ⟨fun hon => hold.started (hstarted hon), ?_⟩
    intro hphase
    exact (hold.frame (hidle (hold.connected hphase).1)).connected hphase
  idle := by
    intro hnone
    rw [hs'] at hnone ⊢
    by_contra hon
    have := hstarted (by simpa using hon)
    rw [h.idle (hactive ▸ hnone)] at this
    cases this

theorem stopStreaming_same {s : Shared} (h : s.sessionStarted = false) (event : SendEvent) :
    s.stopStreaming event = s := by
  simp [Shared.stopStreaming, h]

theorem bias_same {s : Shared} (h : s.sessionStarted = false) (first second : SendEvent) :
    (s.bias first second).1 = s := by
  simp [Shared.bias, h]

/-- The session is closed by the time its thread is done. -/
theorem Sys.SessionWf.not_started_of_finished (h : s.SessionWf) {w : Nat}
    (hactive : s.shared.activeWorkerId = some w) (hdone : s.finished w = true) :
    s.shared.sessionStarted = false := by
  unfold Sys.finished at hdone
  split at hdone
  · rename_i t ht
    by_contra hon
    have hphase := (h.thread w t hactive ht).started (by simpa using hon)
    rw [of_decide_eq_true hdone] at hphase
    cases hphase
  · cases hdone

theorem markStopped_session (s : Shared) : s.SameSession s.markStopped := by
  unfold Shared.markStopped
  split
  · exact .refl s
  · exact ⟨rfl, rfl, rfl, rfl⟩

theorem publish_session (s : Shared) (code : FaultCode) (message : String) :
    s.SameSession { s with toImpl := s.toImpl.publish code message } := by
  unfold Impl.publish
  split
  · exact ⟨rfl, rfl, rfl, rfl⟩
  · exact ⟨rfl, rfl, rfl, rfl⟩

theorem Sys.SessionWf.callMove (h : s.SessionWf) (hwf : s.Wf) {c : Nat} {call : Call}
    {pc' : CallPc} (hc : s.calls c = some call)
    (hmove : CallMove config c call.caller s call.pc pc' s') :
    (s'.setCall c (some { call with pc := pc' })).SessionWf := by
  have hkeep : ∀ u : Sys, s.shared.SameSession u.shared →
      u.shared.activeWorkerId = s.shared.activeWorkerId → u.workers = s.workers →
      (u.setCall c (some { call with pc := pc' })).SessionWf := by
    intro u hs hactive hworkers
    exact h.frame hs hactive fun w t' ht' => ⟨t', hworkers ▸ ht', rfl⟩
  obtain ⟨caller, op, pc⟩ := call
  dsimp only at hmove
  cases hmove with
  | wait => exact hkeep _ (.refl _) rfl rfl
  | take => exact hkeep _ ⟨rfl, rfl, rfl, rfl⟩ rfl rfl
  | save => exact hkeep _ ⟨rfl, rfl, rfl, rfl⟩ rfl rfl
  | reset => exact hkeep _ ⟨rfl, rfl, rfl, rfl⟩ rfl rfl
  | arm => exact hkeep _ ⟨rfl, rfl, rfl, rfl⟩ rfl rfl
  | disarm => exact hkeep _ ⟨rfl, rfl, rfl, rfl⟩ rfl rfl
  | restoreRecord => exact hkeep _ ⟨rfl, rfl, rfl, rfl⟩ rfl rfl
  | restoreData => exact hkeep _ ⟨rfl, rfl, rfl, rfl⟩ rfl rfl
  | clearLatch => exact hkeep _ ⟨rfl, rfl, rfl, rfl⟩ rfl rfl
  | request => exact hkeep _ ⟨rfl, rfl, rfl, rfl⟩ rfl rfl
  | snapshot => exact hkeep _ ⟨rfl, rfl, rfl, rfl⟩ rfl rfl
  | @republish k d message =>
    refine hkeep _ ?_ ?_ rfl
    · dsimp only
      split
      · exact publish_session _ _ _
      · exact .refl _
    · dsimp only
      split
      · exact (publish_handles _ _ _).active
      · rfl
  | stopIdle =>
    exact hkeep _ (markStopped_session _) (markStopped_handles _).active rfl
  | spawn =>
    have hidle := (hwf.idle_of_resets hc rfl).active
    have hno := h.idle hidle
    refine ⟨h.shared.frame ⟨rfl, rfl, rfl, rfl⟩, ?_, ?_⟩
    · intro w t hw ht
      obtain rfl : s.created = w := Option.some.inj hw
      simp only [Sys.spawn, Sys.setCall_workers, Function.update_self, Option.some.injEq] at ht
      subst ht
      refine ⟨fun hon => ?_, fun hphase => ?_⟩
      · rw [show s.shared.sessionStarted = true from hon] at hno
        cases hno
      · cases hphase
    · intro hnone
      cases hnone
  | command event =>
    obtain ⟨hstop, hoff⟩ := h.shared.stopCommand event
    refine h.sections (s.shared.stopCommand event) hstop
      (stopCommand_handles _ _).active ?_ ?_ rfl rfl
    · intro hon
      rw [hoff] at hon
      cases hon
    · intro hno
      rw [Shared.stopCommand, stopStreaming_same hno]
      exact ⟨rfl, rfl, rfl, rfl⟩
  | bias first second result =>
    obtain ⟨hbias, hstarted, -⟩ := h.shared.bias first second
    refine h.sections (s.shared.bias first second).1 hbias
      (bias_handles _ _ _).active (fun hon => hstarted ▸ hon) ?_ rfl rfl
    intro hno
    rw [bias_same hno]
    exact .refl _
  | reapStart free finished =>
    obtain ⟨hreap, rfl⟩ := hwf.reaping_of_joins hc rfl
    refine ⟨h.shared.frame ⟨rfl, rfl, rfl, rfl⟩, ?_, ?_⟩
    · intro w t hw
      cases hw
    · exact fun _ => h.not_started_of_finished hreap.active finished
  | reapStop free finished =>
    obtain ⟨hreap, rfl⟩ := hwf.reaping_of_joins hc rfl
    have hsame := markStopped_session s.shared
    refine ⟨(h.shared.frame hsame).frame ⟨rfl, rfl, rfl, rfl⟩, ?_, ?_⟩
    · intro w t hw
      cases hw
    · exact fun _ => hsame.sessionStarted.trans (h.not_started_of_finished hreap.active finished)

/-- A move of the receive thread keeps the session members and its own
place in step. -/
theorem Shared.SessionWf.workerMove {t t' : Worker} {s s' : Shared} (h : s.SessionWf)
    (hthread : s.ThreadWf t) (hmove : WorkerMove t s t' s') : s'.SessionWf ∧ s'.ThreadWf t' := by
  cases hmove with
  | quiet phase quiet =>
    have hs : s.SameSession s' := .of_control quiet.control (.refl s)
    refine ⟨h.frame hs, ?_, ?_⟩
    · intro hon
      rw [hs.sessionStarted] at hon
      have hold := hthread.started hon
      cases hbefore : t.pc.phase <;> cases hafter : t'.pc.phase <;>
        simp_all [Phase.quietly, Phase.mayStream]
    · intro hphase
      rw [hphase] at phase
      cases hbefore : t.pc.phase <;> simp_all [Phase.quietly]
  | connect before after =>
    have hno : s.sessionStarted = false := by
      by_contra hon
      have hphase := hthread.started (by simpa using hon)
      rw [before] at hphase
      cases hphase
    obtain ⟨hwf, hword⟩ := h.connected hno
    refine ⟨hwf, ?_, ?_⟩
    · intro hon
      rw [show s.sessionStarted = true from hon] at hno
      cases hno
    · exact fun _ => ⟨hno, s.nextSocket, rfl, hword⟩
  | start event before after running =>
    obtain ⟨hno, k, hk, hword⟩ := hthread.connected before
    refine ⟨h.start hno hk hword event, fun _ => by rw [after]; rfl, ?_⟩
    intro hphase
    rw [after] at hphase
    cases hphase
  | close event phases control health =>
    obtain ⟨hclose, hoff⟩ := h.closeSession event
    have hs : (s.closeSession event).SameSession s' := .of_control control (.refl _)
    refine ⟨hclose.frame hs, ?_, ?_⟩
    · intro hon
      rw [hs.sessionStarted, hoff] at hon
      cases hon
    · intro hphase
      rcases phases with ⟨-, after⟩ | ⟨-, after⟩ <;> rw [after] at hphase <;> cases hphase
  | fail code message before place named =>
    refine ⟨h, fun _ => by rw [place]; rfl, ?_⟩
    intro hphase
    rw [place] at hphase
    cases hphase
  | latch code message place after impl rest =>
    have hs : s.SameSession s' := by
      have hpub := publish_session s code message
      refine ⟨?_, ?_, rest.2.1, rest.2.2⟩
      · rw [impl]
        exact hpub.transport
      · rw [impl]
        exact hpub.sessionStarted
    refine ⟨h.frame hs, fun _ => by rw [after]; rfl, ?_⟩
    intro hphase
    rw [after] at hphase
    cases hphase
  | exit before after =>
    refine ⟨h.frame ⟨rfl, rfl, rfl, rfl⟩, ?_, ?_⟩
    · intro hon
      have hphase := hthread.started hon
      rw [before] at hphase
      cases hphase
    · intro hphase
      rw [after] at hphase
      cases hphase
  | finish before after =>
    have hs : s.SameSession
        (if s.faulted then s else { s with health := { s.health with state := .stopped } }) := by
      split
      · exact .refl s
      · exact ⟨rfl, rfl, rfl, rfl⟩
    refine ⟨h.frame hs, ?_, ?_⟩
    · intro hon
      rw [hs.sessionStarted] at hon
      have hphase := hthread.started hon
      rw [before] at hphase
      cases hphase
    · intro hphase
      rw [after] at hphase
      cases hphase

theorem Sys.SessionWf.step (h : s.SessionWf) (hwf : s.Wf) {l : Label}
    (hstep : s.step P config l = some s') : s'.SessionWf := by
  cases Sys.step_move hstep with
  | tick ticks => exact h.frame ⟨rfl, rfl, rfl, rfl⟩ rfl fun w t ht => ⟨t, ht, rfl⟩
  | places label places =>
    refine h.frame ?_ ?_ fun w t' ht' => places.thread ht'
    · rw [places.shared]
      exact .refl _
    · rw [places.shared]
  | call choice hc _ move => exact h.callMove hwf hc move
  | @worker w t t' shared' choice ht step move =>
    obtain ⟨hrun, -, hactive, -⟩ := move.lifecycle
    have hw := hwf.active_of_running ht hrun
    obtain ⟨hshared, hthread⟩ := h.shared.workerMove (h.thread w t hw ht) move
    refine ⟨hshared, ?_, ?_⟩
    · intro v u hv hu
      obtain rfl : v = w := Option.some.inj (hv.symm.trans (hactive.trans hw))
      simp only [Sys.setWorker, Function.update_self, Option.some.injEq] at hu
      exact hu ▸ hthread
    · intro hnone
      have : none = some w := hnone.symm.trans (hactive.trans hw)
      cases this

theorem sessionWf_of_reachable (h : (clientLts P config).Reachable s) : s.SessionWf := by
  refine Lts.Reach.invariant_using (K := Sys.Wf) (fun s hs => wf_of_reachable hs) ?_ ?_ h
  · rintro s ⟨clock, -, rfl⟩
    exact Sys.sessionWf_new config clock
  · intro s l t _ hstep hwf _ hs
    exact hs.step hwf hstep

/-! ## Silence after a stop -/

def Event.isCommand : Event → Bool
  | .command _ _ _ => true
  | _ => false

/-- All commands attempted so far, on any socket. -/
def commands (log : List Event) : List Event := log.filter Event.isCommand

theorem commands_wire (log : List Event) : commands (wire log) = commands log := by
  unfold commands wire
  rw [List.filter_filter]
  congr 1
  funext e
  cases e <;> rfl

theorem commands_closed (log : List Event) (socket : Option Nat) :
    commands (log ++ socket.toList.map .closed) = commands log := by
  cases socket <;> simp [commands, Event.isCommand]

/-- The step with which a `start` clears `stopping_`. -/
def Sys.Rearms (s : Sys) : Label → Prop
  | .call c _ => ∃ call callback k d, s.calls c = some call ∧ call.pc = .startReset callback k d
  | _ => False

/-- Stopped, no session open, and no `start` past the point where it
clears `stopping_`. -/
structure Sys.Silent (s : Sys) : Prop where
  stopping : s.shared.stopping = true
  off : s.shared.sessionStarted = false
  disarmed : ∀ c call, s.calls c = some call → call.pc.armed = false

/-- What a step from a silent state must keep. -/
structure Shared.StaysSilent (s s' : Shared) : Prop where
  stopping : s'.stopping = true
  off : s'.sessionStarted = false
  commands : commands s'.log = commands s.log

theorem Shared.StaysSilent.of_control {s s' : Shared} (hstop : s.stopping = true)
    (hoff : s.sessionStarted = false) (h : s'.control = s.control) : s.StaysSilent s' where
  stopping := (congrArg Control.stopping h).trans hstop
  off := (congrArg Control.sessionStarted h).trans hoff
  commands := by
    rw [← commands_wire, show wire s'.log = wire s.log from congrArg Control.wire h, commands_wire]

theorem Shared.StaysSilent.workerMove {t t' : Worker} {s s' : Shared}
    (hstop : s.stopping = true) (hoff : s.sessionStarted = false)
    (hmove : WorkerMove t s t' s') : s.StaysSilent s' := by
  cases hmove with
  | quiet phase quiet => exact .of_control hstop hoff quiet.control
  | connect before after =>
    refine ⟨hstop, hoff, ?_⟩
    simp [Shared.connected, PyNetFT.Core.commands, Event.isCommand]
  | start event before after running =>
    rw [hstop] at running
    cases running
  | close event phases control health =>
    have hclose : s.closeSession event
        = { s with
            transport := ⟨none, true⟩
            log := s.log ++ s.transport.socket.toList.map .closed } := by
      simp only [Shared.closeSession, stopStreaming_same hoff]
    rw [hclose] at control
    have hsame := Shared.StaysSilent.of_control (s := { s with
      transport := ⟨none, true⟩
      log := s.log ++ s.transport.socket.toList.map .closed }) hstop hoff control
    exact ⟨hsame.stopping, hsame.off, hsame.commands.trans (commands_closed _ _)⟩
  | fail => exact ⟨hstop, hoff, rfl⟩
  | latch code message place after impl rest =>
    refine ⟨?_, ?_, ?_⟩
    · rw [impl]
      unfold Impl.publish
      split
      · exact hstop
      · exact hstop
    · rw [impl]
      exact (publish_session s code message).sessionStarted.trans hoff
    · rw [← commands_wire, rest.2.2, commands_wire]
  | exit before after => exact ⟨hstop, hoff, rfl⟩
  | finish before after =>
    split
    · exact ⟨hstop, hoff, rfl⟩
    · exact ⟨hstop, hoff, rfl⟩

theorem Shared.StaysSilent.callMove {c : Nat} {caller : Option Nat} {pc pc' : CallPc}
    (hstop : s.shared.stopping = true) (hoff : s.shared.sessionStarted = false)
    (hmove : CallMove config c caller s pc pc' s') (harmed : pc.armed = false)
    (hreset : ∀ callback k d, pc ≠ .startReset callback k d) :
    s.shared.StaysSilent s'.shared ∧ pc'.armed = false := by
  cases hmove with
  | wait _ after => exact ⟨⟨hstop, hoff, rfl⟩, CallPc.armed_false_of_holds after.2⟩
  | take _ _ _ _ after =>
    refine ⟨⟨hstop, hoff, rfl⟩, ?_⟩
    cases pc' <;> first | rfl | cases after
  | save => exact ⟨⟨hstop, hoff, rfl⟩, rfl⟩
  | reset => exact ⟨⟨hstop, hoff, rfl⟩, rfl⟩
  | arm => exact absurd rfl (hreset _ _ _)
  | spawn => cases harmed
  | disarm => cases harmed
  | restoreRecord => exact ⟨⟨hstop, hoff, rfl⟩, rfl⟩
  | restoreData => exact ⟨⟨hstop, hoff, rfl⟩, rfl⟩
  | clearLatch => exact ⟨⟨hstop, hoff, rfl⟩, rfl⟩
  | republish =>
    refine ⟨?_, rfl⟩
    dsimp only
    split
    · unfold Impl.publish
      split
      · exact ⟨hstop, hoff, rfl⟩
      · exact ⟨hstop, hoff, rfl⟩
    · exact ⟨hstop, hoff, rfl⟩
  | request => exact ⟨⟨rfl, hoff, rfl⟩, rfl⟩
  | command event =>
    refine ⟨?_, rfl⟩
    simp only [Sys.withShared, Shared.stopCommand, stopStreaming_same hoff]
    exact ⟨hstop, hoff, rfl⟩
  | stopIdle =>
    refine ⟨?_, rfl⟩
    unfold Shared.markStopped
    split
    · exact ⟨hstop, hoff, rfl⟩
    · exact ⟨hstop, hoff, rfl⟩
  | reapStart => exact ⟨⟨hstop, hoff, rfl⟩, rfl⟩
  | reapStop =>
    refine ⟨?_, rfl⟩
    unfold Shared.markStopped Sys.reap Sys.withShared
    dsimp only
    split
    · exact ⟨hstop, hoff, rfl⟩
    · exact ⟨hstop, hoff, rfl⟩
  | bias first second =>
    refine ⟨?_, rfl⟩
    simp only [Sys.withShared, bias_same hoff]
    exact ⟨hstop, hoff, rfl⟩
  | snapshot => exact ⟨⟨hstop, hoff, rfl⟩, rfl⟩

/-- Silence lasts until a `start` clears `stopping_`. -/
theorem Sys.Silent.step (h : s.Silent) {l : Label} (hrearm : ¬ s.Rearms l)
    (hstep : s.step P config l = some s') :
    s'.Silent ∧ commands s'.shared.log = commands s.shared.log := by
  cases Sys.step_move hstep with
  | tick ticks => exact ⟨⟨h.stopping, h.off, h.disarmed⟩, rfl⟩
  | places label places =>
    rw [places.shared]
    refine ⟨⟨by rw [places.shared]; exact h.stopping, by rw [places.shared]; exact h.off, ?_⟩, rfl⟩
    intro c call hc
    rcases places.new c call hc with hold | hplain
    · exact h.disarmed c call hold
    · exact CallPc.armed_false_of_holds (CallPc.of_plain hplain).1
  | @call c call pc' u choice hc _ move =>
    have hstay := Shared.StaysSilent.callMove h.stopping h.off move (h.disarmed c call hc)
      (fun callback k d heq => hrearm ⟨call, callback, k, d, hc, heq⟩)
    refine ⟨⟨hstay.1.stopping, hstay.1.off, ?_⟩, hstay.1.commands⟩
    intro k call' hk
    rcases Sys.setCall_cases hk with ⟨rfl, heq⟩ | ⟨-, hk⟩
    · cases heq
      exact hstay.2
    · exact h.disarmed k call' (callMove_calls move ▸ hk)
  | worker choice ht _ move =>
    have hstay := Shared.StaysSilent.workerMove h.stopping h.off move
    exact ⟨⟨hstay.stopping, hstay.off, h.disarmed⟩, hstay.commands⟩

/-- The places of `stop` between setting `stopping_` and leaving the
locked section. -/
def CallPc.requested : CallPc → Bool
  | .stopCommand | .stopDecide => true
  | _ => false

theorem CallPc.holds_of_requested {pc : CallPc} (h : pc.requested = true) : pc.holds = true := by
  cases pc <;> simp_all [CallPc.requested, CallPc.holds]

theorem CallPc.resets_false_of_requested {pc : CallPc} (h : pc.requested = true) :
    pc.resets = false := by
  cases pc <;> simp_all [CallPc.requested, CallPc.resets]

/-- While a `stop` is there, `stopping_` stays set. -/
def Sys.StopRequested (s : Sys) : Prop :=
  ∀ c call, s.calls c = some call → call.pc.requested = true → s.shared.stopping = true

/-- Only a call inside its locked section clears `stopping_`. -/
theorem CallMove.stopping {c : Nat} {caller : Option Nat} {pc pc' : CallPc}
    (h : CallMove config c caller s pc pc' s') :
    (s'.shared.stopping = s.shared.stopping ∨ s'.shared.stopping = true ∨ pc.resets = true) ∧
      (pc'.requested = true → pc.requested = true ∨ s'.shared.stopping = true) := by
  cases h with
  | wait _ after =>
    refine ⟨.inl rfl, fun hreq => ?_⟩
    rw [CallPc.holds_of_requested hreq] at after
    cases after.2
  | take _ _ _ _ after =>
    refine ⟨.inl rfl, fun hreq => ?_⟩
    rw [CallPc.joins_of_holds (CallPc.holds_of_requested hreq)] at after
    cases after
  | command event =>
    refine ⟨.inl ?_, fun _ => .inl rfl⟩
    unfold Sys.withShared Shared.stopCommand Shared.stopStreaming
    dsimp only
    split <;> rfl
  | request => exact ⟨.inr (.inl rfl), fun _ => .inr rfl⟩
  | republish =>
    refine ⟨.inl ?_, fun hreq => by cases hreq⟩
    dsimp only
    split
    · exact publish_stopping _ _ _
    · rfl
  | stopIdle =>
    refine ⟨.inl ?_, fun hreq => by cases hreq⟩
    unfold Shared.markStopped
    split <;> rfl
  | reapStop =>
    refine ⟨.inl ?_, fun hreq => by cases hreq⟩
    unfold Sys.reap Sys.withShared Shared.markStopped
    dsimp only
    split <;> rfl
  | bias first second =>
    refine ⟨.inl ?_, fun hreq => by cases hreq⟩
    unfold Sys.withShared Shared.bias
    dsimp only
    split
    · rfl
    · split
      · rfl
      · split <;> rfl
  | save => exact ⟨.inl rfl, fun hreq => by cases hreq⟩
  | reset => exact ⟨.inl rfl, fun hreq => by cases hreq⟩
  | arm => exact ⟨.inr (.inr rfl), fun hreq => by cases hreq⟩
  | spawn => exact ⟨.inl rfl, fun hreq => by cases hreq⟩
  | disarm => exact ⟨.inr (.inr rfl), fun hreq => by cases hreq⟩
  | restoreRecord => exact ⟨.inl rfl, fun hreq => by cases hreq⟩
  | restoreData => exact ⟨.inl rfl, fun hreq => by cases hreq⟩
  | clearLatch => exact ⟨.inl rfl, fun hreq => by cases hreq⟩
  | reapStart => exact ⟨.inl rfl, fun hreq => by cases hreq⟩
  | snapshot => exact ⟨.inl rfl, fun hreq => by cases hreq⟩

theorem Sys.StopRequested.step (h : s.StopRequested) (hwf : s.Wf) {l : Label}
    (hstep : s.step P config l = some s') : s'.StopRequested := by
  cases Sys.step_move hstep with
  | tick ticks => exact h
  | places label places =>
    intro c call hc hreq
    rw [places.shared]
    rcases places.new c call hc with hold | hplain
    · exact h c call hold hreq
    · have := CallPc.holds_of_requested hreq
      rw [(CallPc.of_plain hplain).1] at this
      cases this
  | @call c call pc' u choice hc _ move =>
    obtain ⟨hstopping, hself⟩ := move.stopping
    intro k call' hk hreq
    show u.shared.stopping = true
    rcases Sys.setCall_cases hk with ⟨rfl, heq⟩ | ⟨hne, hk⟩
    · cases heq
      rcases hself hreq with hold | hset
      · have := h k call hc hold
        rcases hstopping with hsame | hset | hres
        · exact hsame.trans this
        · exact hset
        · rw [CallPc.resets_false_of_requested hold] at hres
          cases hres
      · exact hset
    · have hk' : s.calls k = some call' := callMove_calls move ▸ hk
      have := h k call' hk' hreq
      rcases hstopping with hsame | hset | hres
      · exact hsame.trans this
      · exact hset
      · exact absurd (hwf.owner_unique hk' (CallPc.holds_of_requested hreq) hc
          (CallPc.holds_of_resets hres)) hne
  | worker choice ht _ move =>
    intro c call hc hreq
    exact move.stopping.trans (h c call hc hreq)

theorem stopRequested_of_reachable (h : (clientLts P config).Reachable s) : s.StopRequested := by
  refine Lts.Reach.invariant_using (K := Sys.Wf) (fun s hs => wf_of_reachable hs) ?_ ?_ h
  · rintro s ⟨clock, -, rfl⟩ c call hc
    cases hc
  · intro s l t _ hstep hwf _ hs
    exact hs.step hwf hstep

/-- A state right after the command section of a `stop` is silent: the
stopping call owns the lock, so no `start` is past its reset. -/
theorem Sys.silent_of_stopCommand (hwf : s.Wf) (hses : s.SessionWf) (hreq : s.StopRequested)
    {c : Nat} {call : Call} {choice : CallChoice} (hc : s.calls c = some call)
    (hpc : call.pc = .stopCommand) (hstep : s.step P config (.call c choice) = some s') :
    s'.Silent := by
  have hstopping : s.shared.stopping = true := hreq c call hc (by rw [hpc]; rfl)
  simp only [Sys.step, hc, callStep, hpc, CallPc.part, stopStep, Option.map_eq_some_iff] at hstep
  obtain ⟨⟨pc', u⟩, hmove, rfl⟩ := hstep
  split at hmove
  · rename_i event
    obtain ⟨rfl, rfl⟩ := Prod.mk.inj (Option.some.inj hmove)
    refine ⟨?_, (hses.shared.stopCommand event).2, ?_⟩
    · show (s.shared.stopCommand event).stopping = true
      unfold Shared.stopCommand Shared.stopStreaming
      dsimp only
      split <;> exact hstopping
    · intro k call' hk
      rcases Sys.setCall_cases hk with ⟨rfl, heq⟩ | ⟨hne, hk⟩
      · cases heq
        rfl
      · exact CallPc.armed_false_of_holds
          (hwf.others_free hc (.inl (by rw [hpc]; rfl)) hk hne)
  · cases hmove

end System

/-! ## The command grammar -/

/-- In every state of every run, under every failing send: the commands
attempted on a socket that is closed (or was never opened) form a
complete word, those on the current socket a complete or an open one, an
open word is a prefix of a complete one, and a complete word has one
`StopStreaming` if its first `StartRealtime` was sent and none
otherwise. Once a `stop` has left its command section nothing is
attempted until a `start` clears `stopping_` again. -/
theorem session_command_grammar (P : Platform) (config : Config) {s : Sys}
    (h : (clientLts P config).Reachable s) :
    (∀ command sent, Event.command none command sent ∉ s.shared.log) ∧
      (∀ k, Event.closed k ∈ s.shared.log → s.shared.transport.socket ≠ some k) ∧
      (∀ k, s.shared.transport.socket ≠ some k → CompleteWord (commandsOn k s.shared.log)) ∧
      (∀ k, CompleteWord (commandsOn k s.shared.log) ∨
        OpenWord (commandsOn k s.shared.log) ∧
          ∃ rest, CompleteWord (commandsOn k s.shared.log ++ rest)) ∧
      (∀ k, CompleteWord (commandsOn k s.shared.log) →
        stopAttempts (commandsOn k s.shared.log)
          = if (commandsOn k s.shared.log).head? = some (.startRealtime, true) then 1 else 0) ∧
      ∀ c call choice t, s.calls c = some call → call.pc = .stopCommand →
        s.step P config (.call c choice) = some t →
        ∀ labels u, (clientLts P config).Path (fun s l => ¬ s.Rearms l) t labels u →
          commands u.shared.log = commands t.shared.log := by
  have hwf := wf_of_reachable h
  have hses := sessionWf_of_reachable h
  refine ⟨hses.shared.socketed, fun k hk => (hses.shared.closed k hk).2, ?_, ?_,
    fun k hk => hk.stopAttempts_eq, ?_⟩
  · intro k hk
    have := hses.shared.words k
    rwa [if_neg (fun e => hk e.2)] at this
  · intro k
    have := hses.shared.words k
    split at this
    · exact .inr ⟨this, this.prefix_complete⟩
    · exact .inl this
  · intro c call choice t hc hpc hstep labels u hpath
    have hsilent := Sys.silent_of_stopCommand hwf hses (stopRequested_of_reachable h) hc hpc hstep
    have ht : (clientLts P config).Reachable t := Lts.Reachable.step (l := .call c choice) h hstep
    -- silence and the commands so far are kept along the run
    have hkept := hpath.preserves (K := fun _ => True)
      (I := fun u => u.Silent ∧ commands u.shared.log = commands t.shared.log)
      (fun _ _ => trivial) ?_ ht ⟨hsilent, rfl⟩
    · exact hkept.2
    · intro v l v' hok hstep' _ _ hv
      obtain ⟨hsilent', hsame⟩ := hv.1.step hok hstep'
      exact ⟨hsilent', hsame.trans hv.2⟩

/-- A client with a calibration of its own, so that no HTTP is needed. -/
def overrideConfig : Config :=
  { calibrationOverride := some ⟨.finite 1, .finite 1, .newton, .newtonMeter⟩ }

/-- `start` and a first session up to one delivered record. -/
def streamingRun : List Label :=
  [.invoke 0 none (.start (some 7)), .call 0 .go, .call 0 .go, .call 0 .go, .call 0 .go,
   .worker 0 .go, .worker 0 .go, .worker 0 .go, .worker 0 (.http (.failed "")), .worker 0 .go,
   .worker 0 .go, .worker 0 (.connect none), .worker 0 (.send .sent), .worker 0 .go,
   .worker 0 .go, .worker 0 .go, .worker 0 .go, .worker 0 .go, .worker 0 (.poll (.ready false)),
   .worker 0 .go, .worker 0 (.recv (.datagram (List.replicate 36 0))), .worker 0 .go,
   .worker 0 .go, .worker 0 .go, .worker 0 .callbackReturns, .worker 0 .go]

/-- A bias whose second send fails, then a `stop` up to its return. -/
def stoppingRun : List Label :=
  [.invoke 1 none .bias, .call 1 (.sends .sent (.failed "")), .invoke 2 none .stop, .call 2 .go,
   .call 2 (.send .sent), .call 2 .go, .worker 0 .go, .worker 0 (.send .sent), .worker 0 .go,
   .worker 0 (.send .sent), .worker 0 .go, .worker 0 .go, .call 2 .go]

theorem overrideConfig_valid : validateConfig 1000 overrideConfig = .ok () := by decide +kernel

theorem overrideConfig_reachable :
    (clientLts exactPlatform overrideConfig).Reachable (Sys.new overrideConfig 1000) :=
  Lts.Reachable.init ⟨1000, overrideConfig_valid, rfl⟩

/-- The word of that session's socket. -/
theorem session_command_grammar_streamed :
    ∃ s, (clientLts exactPlatform overrideConfig).Reachable s ∧
      commandsOn 0 s.shared.log = [(.startRealtime, true), (.setSoftwareBias, true),
        (.startRealtime, false), (.stopStreaming, true)] ∧
      CompleteWord (commandsOn 0 s.shared.log) := by
  obtain ⟨s, hs, hp⟩ := Lts.exists_of_exec (l := streamingRun ++ stoppingRun)
    (p := fun s : Sys => decide (commandsOn 0 s.shared.log = [(.startRealtime, true),
      (.setSoftwareBias, true), (.startRealtime, false), (.stopStreaming, true)] ∧
      s.shared.transport.socket = none))
    overrideConfig_reachable (by decide +kernel)
  have hend := of_decide_eq_true hp
  refine ⟨s, hs, hend.1, ?_⟩
  refine (session_command_grammar exactPlatform overrideConfig hs).2.2.1 0 ?_
  rw [hend.2]
  simp

end PyNetFT.Core
