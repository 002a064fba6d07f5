/-
PyNetFT.Python.RunIdentity — which native run belongs to which `start`.

The history notes, under the token of each start that succeeds, the
generation of its native run. While the client is running and no start is
under way, the native client is in the run of the last success. Starts
have runs of their own: a native `start` that a `start` makes finds the
native client halted, so it does not take its early return, and resets
the queue.
-/
import PyNetFT.Python.FailedStarts
import PyNetFT.Bindings.FirstSample

namespace PyNetFT.Python

open PyNetFT.Lib PyNetFT.Core PyNetFT.Bindings

/-! ## The history -/

/-- `generation` is that of the native run of each successful start, by
its token; `before` are the runs of the starts that had succeeded when a
`stop` took the lock. -/
structure RunHistory where
  starts : StartHistory := {}
  generation : Nat → Option Nat := fun _ => none
  before : Nat → List Nat := fun _ => []

def RunHistory.record (h : RunHistory) (s : Client) (l : ClientLabel) (s' : Client) : RunHistory :=
  { starts := h.starts.record s l s'
    generation :=
      if s.commits l then
        Function.update h.generation (s.settled.2 + 1) (some s.native.run.generation)
      else h.generation
    before :=
      match l with
      | .thread (.call c) _ =>
          if s.place (.call c) = some .stopEnter then
            Function.update h.before c h.starts.succeeded
          else h.before
      | _ => h.before }

/-- The client with that history. -/
def runLts (P : Platform) (config : Config) : Lts (Client × RunHistory) ClientLabel :=
  (clientLts P config).recorded {} RunHistory.record

theorem startLts_of_runLts {P : Platform} {config : Config} {p : Client × RunHistory}
    {ok : Client × RunHistory → ClientLabel → Prop} (h : (runLts P config).Reach ok p) :
    (startLts P config).Reachable (p.1, p.2.starts) := by
  refine Lts.Reach.invariant
    (I := fun p : Client × RunHistory => (startLts P config).Reachable (p.1, p.2.starts)) ?_ ?_ h
  · rintro ⟨s, h⟩ ⟨hs, rfl⟩
    exact Lts.Reachable.init ⟨hs, rfl⟩
  · rintro ⟨s, h⟩ l ⟨s', h'⟩ - hstep hs
    obtain ⟨hclient, hrecord⟩ := Lts.recorded_step hstep
    dsimp only at hclient hrecord hs
    subst hrecord
    exact hs.step (l := l) (by simp [startLts, Lts.recorded, hclient, RunHistory.record])

/-! ## The client is running -/

/-- The client is running, and no start is under way. -/
def Client.Steady (s : Client) : Prop := s.running = true ∧ s.attempt = none

section Steady

variable {P : Platform} {config : Config} {s s' : Client} {l : ClientLabel}

/-- Only a start that succeeds makes it so. -/
theorem Client.Steady.before (h : s'.Steady) (hs : s.RunsWf) (hwf : s.Wf)
    (hmove : ClientMove P config s l s') (hnot : s.commits l = false) : s.Steady := by
  by_contra hno
  have hhalted : s.Halted := by
    intro hnone
    rw [Bool.eq_false_iff]
    exact fun hrunning => hno ⟨hrunning, hnone⟩
  have hstopped := hhalted.step hs hwf hmove hnot h.2
  rw [h.1] at hstopped
  cases hstopped

/-- With the lock free, a running client is steady. -/
theorem Client.steady_of_free (hfree : s.lock = none) (hrunning : s.running = true) : s.Steady :=
  ⟨hrunning, by rw [Client.attempt, hfree]; rfl⟩

end Steady

/-! ## The native run -/

section NativeRun

variable {P : Platform} {config : Config} {s s' : Client} {l : ClientLabel}

/-- Of the client, that of a start that waits for it. -/
theorem Client.Wf.resets (hwf : s.Wf) (hnative : (nativeLts P config).Reachable s.native)
    (hmove : ClientMove P config s l s') :
    s'.native.run.generation = s.native.run.generation ∨
      ∃ o a call, l = .native (.call o.nativeId) ∧ s.place o = some (.startAwait a) ∧
        s.native.calls o.nativeId = some call ∧ call.pc = .startReset ∧
        s'.native.run.generation = s.native.queue.closeGeneration := by
  rcases hmove.native_step with hsame | ⟨k, hstep, hlabel⟩
  · exact .inl (by rw [hsame])
  · rcases Native.step_resets hstep with hsame | ⟨n, call, rfl, hcall, hpc, hgeneration⟩
    · exact .inl hsame.generation
    · obtain ⟨o, a, rfl, hplace⟩ := hwf.native_start hnative hcall (by rw [hpc]; rfl)
      exact .inr ⟨o, a, call, hlabel _ rfl, hplace, hcall, hpc, hgeneration⟩

/-- Without a start under way the native run stays. -/
theorem Client.Wf.run_stays (hwf : s.Wf) (hnative : (nativeLts P config).Reachable s.native)
    (hmove : ClientMove P config s l s') (hnone : s.attempt = none) :
    s'.native.run.generation = s.native.run.generation := by
  rcases hwf.resets hnative hmove with hsame | ⟨o, a, call, -, hplace, -⟩
  · exact hsame
  · rw [hwf.attempt_of_place hplace rfl] at hnone
    cases hnone

end NativeRun

/-! ## A native start finds the native client halted -/

/-- The places of a thread at which the native client may be running
although the client is not. -/
def Client.Opened (s : Client) (o : Owner) : Pc → Prop
  | .startInstall _ | .startActivate _ | .startRollback _ _ | .startUnwind _ _ | .halt _ => True
  | .startAwait _ => ∃ op, s.native.calls o.nativeId = some ⟨op, .returned .done⟩
  | .startUnwindAwait _ _ | .haltAwait _ => ∃ call, s.native.calls o.nativeId = some call ∧
      (call.pc = .stopEnter ∨ call.pc = .stopHalt)
  | _ => False

def Client.OnWf (s : Client) : Prop :=
  s.native.running = true → s.running = true ∨ ∃ o pc, s.place o = some pc ∧ s.Opened o pc

section Opened

variable {P : Platform} {config : Config} {o : Owner} {caller nested : Option Nat}
  {choice : Choice} {s s' : Client} {l : ClientLabel} {pc pc' : Pc}

theorem Client.Opened.holds (h : s.Opened o pc) : pc.holds = true := by
  cases pc <;> first | rfl | exact h.elim

theorem Client.Opened.not_returned (h : s.Opened o pc) (hstop : pc.awaits = some .stop)
    {op : NativeOp} {result : NativeResult}
    (hcall : s.native.calls o.nativeId = some ⟨op, .returned result⟩) : False := by
  have hfound : ∃ call, s.native.calls o.nativeId = some call ∧
      (call.pc = .stopEnter ∨ call.pc = .stopHalt) := by
    cases pc <;> first | exact h | exact h.elim | cases hstop
  obtain ⟨call, hthere, hpc⟩ := hfound
  rw [hcall] at hthere
  cases hthere
  rcases hpc with hpc | hpc <;> cases hpc

/-- A thread stays at such a place as long as the native client may be
running. -/
theorem ThreadMove.opened (hmove : ThreadMove o caller nested choice s pc pc' s')
    (hruns : ∀ a, pc = .startActivate a → s.running = true)
    (hopen : s.running = true ∨ s.Opened o pc) : s'.running = true ∨ s'.Opened o pc' := by
  have hrunning : (s.Opened o pc → False) → s.running = true :=
    fun hno => hopen.elim id fun h => (hno h).elim
  cases hmove
  case quiet hquiet =>
    refine .inl (hrunning fun h => ?_)
    have houtside := hquiet.outside.1
    rw [h.holds] at houtside
    cases houtside
  case iterates => exact .inl rfl
  case activates a r _ _ => exact .inl (hruns a rfl)
  case unwound hreturned _ => exact .inl (hrunning fun h => h.not_returned rfl hreturned)
  case invokes hinvoke hplace =>
    have hentry := Native.invoke_calls hinvoke
    rcases hplace with ⟨a, rfl, rfl, rfl⟩ | ⟨run, error, rfl, rfl, rfl⟩ | ⟨ending, rfl, rfl, rfl⟩ |
      ⟨rfl, rfl, rfl⟩ | ⟨i, rfl, rfl, rfl⟩ | ⟨rfl, rfl, rfl⟩
    · exact .inl (hrunning id)
    · exact .inr ⟨_, hentry, .inl rfl⟩
    · exact .inr ⟨_, hentry, .inl rfl⟩
    all_goals exact .inl (hrunning id)
  case reads hplace =>
    rcases hplace with ⟨i, rfl, -⟩ | ⟨rfl, -⟩ <;> exact .inl (hrunning id)
  case exhausts hplace =>
    rcases hplace with rfl | ⟨result, rfl⟩ | rfl <;> exact .inl (hrunning id)
  case startClears callback r joined _ =>
    obtain ⟨runs, hruns⟩ := s.clearThread_frame r joined
    exact .inl (by rw [hruns]; exact hrunning id)
  case stopClears r joined _ =>
    obtain ⟨runs, hruns⟩ := s.clearThread_frame r joined
    exact .inl (by rw [hruns]; exact hrunning id)
  case storesLate r error _ _ _ =>
    obtain ⟨runs, hruns⟩ := s.storeError_frame r error
    exact .inl (by rw [hruns]; exact hrunning id)
  case halted hreturned _ hafter =>
    have hkept := hrunning fun h => h.not_returned rfl hreturned
    obtain ⟨-, iterators, rfl⟩ := Client.afterStop_behind hafter
    exact .inl hkept
  case finishes => exact .inl (by split <;> exact hrunning id)
  all_goals first | exact .inr trivial | exact .inl (hrunning id)

theorem NativeEffect.running {u : Client} (h : NativeEffect o s u pc pc') :
    u.native.running = s.native.running := by
  cases h with
  | same _ _ hsame => rw [hsame]
  | invoked _ _ hinvoke =>
    simp only [Native.invoke] at hinvoke
    split at hinvoke
    · cases hinvoke
    · rw [← Option.some.inj hinvoke]
      rfl
  | collected _ _ hcollect =>
    simp only [Native.collect] at hcollect
    split at hcollect
    · rw [← Option.some.inj hcollect]
      rfl
    · cases hcollect
  | asked _ _ _ hnative => rw [hnative]
  | told _ _ _ hnative => rw [hnative]

theorem Client.Opened.congr (h : s.Opened o pc)
    (hcalls : s'.native.calls o.nativeId = s.native.calls o.nativeId) : s'.Opened o pc := by
  cases pc <;> first | exact h.elim | exact trivial | (unfold Client.Opened; rw [hcalls]; exact h)

/-- A step of the thread's own native call. -/
theorem Client.Opened.own {native : Native} {call : NativeCall} {pc' : NativePc}
    (h : s.Opened o pc) (hcall : s.native.calls o.nativeId = some call)
    (hmove : NativeMove o.nativeId s.native call.pc pc' native) (hstop : call.pc ≠ .stopHalt) :
    Client.Opened { s with
      native := native.setCall o.nativeId (some { call with pc := pc' }) } o pc := by
  have hafter : (native.setCall o.nativeId (some { call with pc := pc' })).calls o.nativeId
      = some { call with pc := pc' } := Native.setCall_calls_self _ _ _
  have hstopping : (∃ call, s.native.calls o.nativeId = some call ∧
      (call.pc = .stopEnter ∨ call.pc = .stopHalt)) → pc' = .stopHalt := by
    rintro ⟨before, hbefore, hpc⟩
    rw [hcall] at hbefore
    cases hbefore
    exact hmove.stop_enters (hpc.resolve_right hstop)
  cases pc
  case startAwait a =>
    obtain ⟨op, hreturned⟩ := h
    rw [hcall] at hreturned
    cases hreturned
    exact absurd rfl (hmove.part.2 .done)
  case startUnwindAwait | haltAwait => exact ⟨_, hafter, .inr (hstopping h)⟩
  all_goals first | exact h.elim | exact trivial

/-- The place stays when other threads move. -/
theorem Client.Wf.opened_stays (hwf : s.Wf) (hmove : ClientMove P config s l s')
    (hplace : s.place o = some pc) (hopen : s.Opened o pc)
    (hother : ∀ choice, l ≠ .thread o choice) : s'.place o = some pc := by
  refine hwf.stays hmove hplace hother ?_ ?_
  · rintro result rfl
    exact hopen.elim
  · rintro rfl
    exact hopen.elim

theorem Client.OnWf.step (h : s.OnWf) (hs : s.RunsWf) (hwf : s.Wf)
    (hnative : (nativeLts P config).Reachable s.native) (hmove : ClientMove P config s l s') :
    s'.OnWf := by
  intro hon
  have hkept : s'.running = s.running → s'.native = s.native →
      (∀ o choice, l ≠ .thread o choice) →
      s'.running = true ∨ ∃ o pc, s'.place o = some pc ∧ s'.Opened o pc := by
    intro hrunning hsame hother
    rw [hsame] at hon
    rcases h hon with hrun | ⟨o, pc, hplace, hopen⟩
    · exact .inl (hrunning.trans hrun)
    · exact .inr ⟨o, pc, hwf.opened_stays hmove hplace hopen (hother o),
        hopen.congr (by rw [hsame])⟩
  cases hmove with
  | @native k native hforeign hstep =>
    have hplaces : ∀ o, ({ s with native := native } : Client).place o = s.place o := fun _ => rfl
    cases Native.step_move hstep with
    | core step =>
      have hcontrol := Native.coreStep_control step
      rcases h (hcontrol.running ▸ hon) with hrun | ⟨o, pc, hplace, hopen⟩
      · exact .inl hrun
      · exact .inr ⟨o, pc, hplace, hopen.congr (by dsimp only; rw [hcontrol.calls])⟩
    | invoke => cases hforeign
    | collect => cases hforeign
    | @call n call pc' u present move =>
      rcases move.running hon with ⟨hon', hstop⟩ | ⟨hpc, rfl⟩
      · rcases h hon' with hrun | ⟨o, pc, hplace, hopen⟩
        · exact .inl hrun
        · refine .inr ⟨o, pc, hplace, ?_⟩
          by_cases hn : o.nativeId = n
          · subst hn
            exact hopen.own present move hstop
          · refine hopen.congr ?_
            dsimp only
            rw [Native.setCall_calls_of_ne _ _ hn, move.lock.1]
      · obtain ⟨o, a, rfl, hplace⟩ := hwf.native_start hnative present (by rw [hpc]; rfl)
        exact .inr ⟨o, _, hplace, call.op, Native.setCall_calls_self _ _ _⟩
  | @thread o choice t pc' u ht hthread =>
    have hmoved : (u.setThread o (some { t with pc := pc' })).place o = some pc' := by
      rw [Client.setThread_place, Function.update_self]
      rfl
    have hmove' : ClientMove P config s (.thread o choice)
      (u.setThread o (some { t with pc := pc' })) :=
      .thread ht hthread
    have hplace := Client.place_of_thread ht
    have hruns : ∀ a, t.pc = .startActivate a → s.running = true := fun a hpc =>
      ((hs.attempt o t.pc a hplace (by rw [hpc]; rfl)).after hpc).2.2.1
    have hmine : s.running = true ∨ s.Opened o t.pc →
        u.running = true ∨ ∃ o' pc, (u.setThread o (some { t with pc := pc' })).place o' = some pc ∧
          u.Opened o' pc :=
      fun hopen => (hthread.opened hruns hopen).imp id fun h => ⟨o, pc', hmoved, h⟩
    rcases h (hthread.native.running ▸ hon) with hrun | ⟨o', pc, hplace', hopen⟩
    · exact hmine (.inl hrun)
    · by_cases ho : o' = o
      · subst ho
        rw [hplace] at hplace'
        obtain rfl := Option.some.inj hplace'
        exact hmine (.inr hopen)
      · have hother : ∀ choice', ClientLabel.thread o choice ≠ .thread o' choice' := by
          rintro choice' heq
          exact ho (by injection heq with h1; exact h1.symm)
        refine .inr ⟨o', pc, hwf.opened_stays hmove' hplace' hopen hother, ?_⟩
        exact hopen.congr (hthread.native.calls_of_ne fun heq => ho (Owner.nativeId_inj heq))
  | _ => exact hkept rfl rfl (by simp)

theorem onWf_of_reachable (h : (clientLts P config).Reachable s) : s.OnWf := by
  refine Lts.Reach.invariant_using
    (K := fun s => (s.Wf ∧ s.RunsWf) ∧ (nativeLts P config).Reachable s.native)
    (fun s hs => ⟨⟨wf_of_reach hs, runsWf_of_reach hs⟩, native_of_reachable hs⟩) ?_ ?_ h
  · rintro s ⟨native, callback, ⟨clock, capacity, queue, -, -, rfl⟩, rfl⟩ hon
    cases hon
  · intro s l s' _ hstep hK _ hs
    exact hs.step hK.1.2 hK.1.1 hK.2 (hK.1.1.move hstep)

end Opened

/-! ## The run of each start -/

/-- The places of a start whose native run has begun. -/
def Client.Begun (s : Client) (o : Owner) : Pc → Prop
  | .startInstall _ | .startActivate _ => True
  | .startAwait _ => ∃ call, s.native.calls o.nativeId = some call ∧ call.pc.begun = true
  | _ => False

/-- The runs of the successful starts, in their order; the client is in
the last, and a start under way has one of its own. -/
structure RunHistory.Ok (s : Client) (h : RunHistory) : Prop where
  current : s.Steady → h.generation s.settled.2 = some s.native.run.generation
  bound : ∀ k g, h.generation k = some g → k ≤ s.settled.2 ∧ g ≤ s.native.run.generation
  fresh : ∀ o pc k g, s.place o = some pc → s.Begun o pc → h.generation k = some g →
    g < s.native.run.generation
  ordered : ∀ j k g g', j < k → h.generation j = some g → h.generation k = some g' → g < g'

section Identity

variable {P : Platform} {config : Config} {o : Owner} {caller nested : Option Nat}
  {choice : Choice} {s s' : Client} {l : ClientLabel} {pc pc' : Pc} {h : RunHistory}

theorem Client.Begun.attempt (hb : s.Begun o pc) : ∃ a, pc.attempt = some a := by
  cases pc <;> first | exact hb.elim | exact ⟨_, rfl⟩

theorem Client.Begun.congr (hb : s.Begun o pc)
    (hcalls : s'.native.calls o.nativeId = s.native.calls o.nativeId) : s'.Begun o pc := by
  cases pc <;> first | exact hb.elim | exact trivial | (unfold Client.Begun; rw [hcalls]; exact hb)

theorem Client.commits_place (hcommits : s.commits l = true) :
    ∃ o pc, l = .thread o .go ∧ s.place o = some pc ∧ s.Begun o pc := by
  cases l with
  | thread o choice =>
    cases choice with
    | go =>
      rw [Client.commits] at hcommits
      split at hcommits
      · rename_i a hplace
        exact ⟨o, _, rfl, hplace, trivial⟩
      · rename_i a hplace
        exact ⟨o, _, rfl, hplace, trivial⟩
      · cases hcommits
    | _ => cases hcommits
  | _ => cases hcommits

/-- A start comes to such a place behind its native start. -/
theorem ThreadMove.begun (hmove : ThreadMove o caller nested choice s pc pc' s')
    (hb : s'.Begun o pc') : s.Begun o pc := by
  cases hmove
  case quiet hquiet =>
    obtain ⟨a, hattempt⟩ := hb.attempt
    have hstarting := hquiet.not_starting.2
    rw [Pc.starting_of_attempt hattempt] at hstarting
    cases hstarting
  case begins hplace => rcases hplace with ⟨rfl, -⟩ | ⟨rfl, -⟩ <;> exact hb.elim
  case nativeStarted hreturned _ => exact ⟨_, hreturned, rfl⟩
  case installs => exact trivial
  case invokes hinvoke hplace =>
    have hentry := Native.invoke_calls hinvoke
    rcases hplace with ⟨a, rfl, rfl, rfl⟩ | ⟨run, error, rfl, rfl, rfl⟩ | ⟨ending, rfl, rfl, rfl⟩ |
      ⟨rfl, rfl, rfl⟩ | ⟨i, rfl, rfl, rfl⟩ | ⟨rfl, rfl, rfl⟩
    · obtain ⟨call, hcall, hbegun⟩ := hb
      rw [show _ = _ from hentry] at hcall
      cases hcall
      cases hbegun
    all_goals exact hb.elim
  case reads hplace => rcases hplace with ⟨i, -, rfl⟩ | ⟨-, rfl⟩ <;> exact hb.elim
  case halted hafter =>
    obtain ⟨a, hattempt⟩ := hb.attempt
    have hplain := (Client.afterStop_behind hafter).1.plain.1
    rw [hattempt] at hplain
    cases hplain
  all_goals exact hb.elim

/-- A run that begins has a later generation than all before it. -/
theorem Client.Wf.run_later (hwf : s.Wf) (hnative : (nativeLts P config).Reachable s.native)
    (hmove : ClientMove P config s l s') :
    s'.native.run.generation = s.native.run.generation ∨
      s.native.run.generation < s'.native.run.generation ∧ ∃ n, l = .native (.call n) := by
  rcases hwf.resets hnative hmove with hsame | ⟨o, a, call, hl, -, hcall, hpc, hgeneration⟩
  · exact .inl hsame
  · refine .inr ⟨?_, _, hl⟩
    have hplace := (runWf_of_reachable hnative).places _ call hcall
    rw [hpc] at hplace
    rw [hgeneration]
    exact (queueWf_of_reachable hnative).closed hplace.2

/-- At the check of a native `start` the native client is halted. -/
theorem Client.OnWf.halted (hon : s.OnWf) (hwf : s.Wf) (hs : s.RunsWf) {a : Attempt}
    {call : NativeCall} (hplace : s.place o = some (.startAwait a))
    (hcall : s.native.calls o.nativeId = some call) (hpc : call.pc = .startCheck) :
    s.native.running = false := by
  rw [Bool.eq_false_iff]
  intro hrunning
  rcases hon hrunning with hrun | ⟨o', pc, hplace', hopen⟩
  · rw [((hs.attempt o _ a hplace rfl).before rfl).2.2] at hrun
    cases hrun
  · have hlock := hwf.owner o' pc hplace' hopen.holds
    rw [hwf.owner o _ hplace rfl] at hlock
    obtain rfl := Option.some.inj hlock
    rw [hplace] at hplace'
    obtain rfl := Option.some.inj hplace'
    obtain ⟨op, hreturned⟩ := hopen
    rw [hcall] at hreturned
    cases hreturned
    cases hpc

/-- A step of the native start: it had begun before, or it begins now. -/
theorem Client.Begun.own (hwf : s.Wf) (hs : s.RunsWf) (hon : s.OnWf)
    (hnative : (nativeLts P config).Reachable s.native) {a : Attempt} {call : NativeCall}
    {pc' : NativePc} {native : Native} (hplace : s.place o = some (.startAwait a))
    (hcall : s.native.calls o.nativeId = some call)
    (hmove : NativeMove o.nativeId s.native call.pc pc' native) (hbegun : pc'.begun = true) :
    call.pc.begun = true ∨ s.native.run.generation < native.run.generation := by
  rcases hmove.begun hbegun with hbefore | hreset | hpart | ⟨hcheck, hrunning⟩
  · exact .inl hbefore
  · have hok := (runWf_of_reachable hnative).places _ call hcall
    rw [hreset] at hok
    rw [hmove.resets hreset]
    exact .inr ((queueWf_of_reachable hnative).closed hok.2)
  · obtain ⟨call', hcall', hop⟩ := hwf.awaits o _ .start hplace rfl
    rw [hcall] at hcall'
    cases hcall'
    rcases fitsWf_of_reachable hnative _ call hcall with hfits | ⟨result, hreturned⟩
    · exact absurd (hfits.trans hop) hpart
    · exact absurd hreturned (hmove.part.2 result)
  · rw [hon.halted hwf hs hplace hcall hcheck] at hrunning
    cases hrunning

/-- Behind its native start, or the native run is just beginning. -/
theorem Client.Begun.before (hb : s'.Begun o pc) (hplace' : s'.place o = some pc) (hwf : s.Wf)
    (hs : s.RunsWf) (hon : s.OnWf) (hnative : (nativeLts P config).Reachable s.native)
    (hmove : ClientMove P config s l s') :
    (∃ pc, s.place o = some pc ∧ s.Begun o pc) ∨
      s.native.run.generation < s'.native.run.generation := by
  cases hmove.placed hplace' with
  | kept hother hbefore =>
    have hsame : s.native.calls o.nativeId = s'.native.calls o.nativeId →
        ∃ pc, s.place o = some pc ∧ s.Begun o pc := fun hcalls => ⟨pc, hbefore, hb.congr hcalls⟩
    cases hmove with
    | @native k native hforeign hstep =>
      cases Native.step_move hstep with
      | core step => exact .inl (hsame (by dsimp only; rw [(Native.coreStep_control step).calls]))
      | invoke => cases hforeign
      | collect => cases hforeign
      | @call n call pc' u present move =>
        by_cases hn : o.nativeId = n
        · subst hn
          cases pc
          case startAwait a =>
            obtain ⟨call', hcall', hbegun⟩ := hb
            dsimp only at hcall'
            rw [Native.setCall_calls_self] at hcall'
            cases hcall'
            exact (Client.Begun.own hwf hs hon hnative hbefore present move hbegun).imp_left
              fun hbegun => ⟨_, hbefore, call, present, hbegun⟩
          case startInstall | startActivate => exact .inl ⟨_, hbefore, trivial⟩
          all_goals exact hb.elim
        · refine .inl (hsame ?_)
          dsimp only
          rw [Native.setCall_calls_of_ne _ _ hn, move.lock.1]
    | @thread o' choice t pc' u ht hthread =>
      have hne : o.nativeId ≠ o'.nativeId := by
        intro heq
        obtain rfl := Owner.nativeId_inj heq
        exact hother choice rfl
      exact .inl (hsame (hthread.native.calls_of_ne hne).symm)
    | _ => exact .inl (hsame rfl)
  | moved ht hthread hstate =>
    rw [hstate] at hb
    exact .inl ⟨_, Client.place_of_thread ht, hthread.begun (hb.congr rfl)⟩
  | @entered _ op _ hentry _ =>
    obtain ⟨a, hattempt⟩ := hb.attempt
    have hplain := op.entry_plain.2.2.2
    rw [← hentry, Pc.starting_of_attempt hattempt] at hplain
    cases hplain
  | built _ hentry =>
    rw [hentry] at hb
    exact hb.elim
  | launched _ hentry =>
    rw [hentry] at hb
    exact hb.elim

/-- What a step does to the noted runs. -/
theorem RunHistory.generation_record (h : RunHistory) (s s' : Client) (l : ClientLabel) :
    s.commits l = false ∧ (h.record s l s').generation = h.generation ∨
      s.commits l = true ∧ (h.record s l s').generation =
        Function.update h.generation (s.settled.2 + 1) (some s.native.run.generation) := by
  unfold RunHistory.record
  cases s.commits l with
  | false => exact .inl ⟨rfl, rfl⟩
  | true => exact .inr ⟨rfl, rfl⟩

theorem RunHistory.Ok.step (hok : h.Ok s) (hwf : s.Wf) (hs : s.RunsWf) (hon : s.OnWf)
    (hnative : (nativeLts P config).Reachable s.native) (hmove : ClientMove P config s l s') :
    (h.record s l s').Ok s' := by
  have hgrows := hs.token_grows hwf hmove
  have hlater : s.native.run.generation ≤ s'.native.run.generation := by
    rcases hwf.run_later hnative hmove with hsame | ⟨hlt, -⟩
    · exact hsame.ge
    · exact hlt.le
  rcases h.generation_record s s' l with ⟨hnot, hsame⟩ | ⟨hcommits, hnew⟩
  · refine ⟨fun hsteady => ?_, fun k g hk => ?_, fun o pc k g hplace hb hk => ?_, ?_⟩
    · have hbefore := hsteady.before hs hwf hmove hnot
      rw [hsame, hs.settled_step hwf hmove hnot, hwf.run_stays hnative hmove hbefore.2]
      exact hok.current hbefore
    · rw [hsame] at hk
      obtain ⟨htoken, hgeneration⟩ := hok.bound k g hk
      exact ⟨htoken.trans hgrows, hgeneration.trans hlater⟩
    · rw [hsame] at hk
      rcases hb.before hplace hwf hs hon hnative hmove with ⟨pc', hplace', hb'⟩ | hlt
      · exact (hok.fresh o pc' k g hplace' hb' hk).trans_le hlater
      · exact (hok.bound k g hk).2.trans_lt hlt
    · rw [hsame]
      exact hok.ordered
  · obtain ⟨o, pc, hl, hplace, hb⟩ := Client.commits_place hcommits
    obtain ⟨-, a, -, -, -, hnone, hsettled⟩ := hs.commit hwf hmove hcommits
    have hrun : s'.native.run.generation = s.native.run.generation := by
      rcases hwf.run_later hnative hmove with hsame | ⟨-, n, hn⟩
      · exact hsame
      · rw [hl] at hn
        cases hn
    refine ⟨fun _ => ?_, fun k g hk => ?_, fun o pc k g hplace' hb' hk => ?_,
      fun j k g g' hlt hj hk => ?_⟩
    · rw [hnew, hsettled, hrun]
      exact Function.update_self _ _ _
    · rw [hsettled, hrun]
      rw [hnew] at hk
      by_cases hk' : k = s.settled.2 + 1
      · subst hk'
        rw [Function.update_self] at hk
        cases hk
        exact ⟨Nat.le_refl _, Nat.le_refl _⟩
      · rw [Function.update_of_ne hk'] at hk
        obtain ⟨htoken, hgeneration⟩ := hok.bound k g hk
        exact ⟨htoken.trans (Nat.le_succ _), hgeneration⟩
    · -- the start that succeeded is over, and it held the lock
      obtain ⟨b, hattempt⟩ := hb'.attempt
      rw [(hwf.step hmove).attempt_of_place hplace' hattempt] at hnone
      cases hnone
    · rw [hnew] at hj hk
      by_cases hk' : k = s.settled.2 + 1
      · subst hk'
        rw [Function.update_self] at hk
        cases hk
        rw [Function.update_of_ne (Nat.ne_of_lt hlt)] at hj
        exact hok.fresh o pc j g hplace hb hj
      · rw [Function.update_of_ne hk'] at hk
        have hbound := (hok.bound k g' hk).1
        rw [Function.update_of_ne (by omega)] at hj
        exact hok.ordered j k g g' hlt hj hk

end Identity

theorem runHistory_ok_of_reach {P : Platform} {config : Config} {p : Client × RunHistory}
    {ok : Client × RunHistory → ClientLabel → Prop} (h : (runLts P config).Reach ok p) :
    p.2.Ok p.1 := by
  refine Lts.Reach.recorded_invariant (I := fun s h => RunHistory.Ok s h) ?_ ?_ h
  · rintro s ⟨native, callback, -, rfl⟩
    exact ⟨fun hsteady => (by cases hsteady.1), fun _ _ hk => (by cases hk),
      fun _ _ _ _ hplace => (by cases hplace), fun _ _ _ _ _ hj => (by cases hj)⟩
  · intro s h l t _ hs hstep hok
    have hwf := wf_of_reach hs
    exact hok.step hwf (runsWf_of_reach hs) (onWf_of_reachable hs) (native_of_reachable hs)
      (hwf.move hstep)

end PyNetFT.Python
