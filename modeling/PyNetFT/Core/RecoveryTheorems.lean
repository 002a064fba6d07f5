/-
PyNetFT.Core.RecoveryTheorems — the recovery policy in every reachable
state, and what follows a failed session.

The words of `Recovery` are an invariant of the whole client as long as
deadlines fit the clock. What "is followed by" means is a bounded
response: counted in its own steps, the thread that closed a failed
session is in its backoff after two and in a new session after six, and
each of these steps can be taken, at the latest once the backoff time
has passed.
-/
import PyNetFT.Core.Recovery

namespace PyNetFT.Core

open PyNetFT.Lib

/-! ## The invariant -/

structure Sys.RunWf (config : Config) (s : Sys) : Prop where
  thread : ∀ w t, s.shared.activeWorkerId = some w → s.workers w = some t →
    RunThread config w s.shared t.pc t.backoff
  words : ∀ w, RunWord config.recoveryPolicy (runEvents w s.shared.log)
  fresh : ∀ w, s.created ≤ w → runEvents w s.shared.log = []
  count : s.shared.health.reconnectCount = backoffs s.shared.log
  unlatched : config.recoveryPolicy = .reconnect → s.shared.faultLatch = .none
  saved : ∀ c call k, s.calls c = some call → call.pc.control? = some k →
    config.recoveryPolicy = .reconnect → k.fault = .none
  data : ∀ c call d, s.calls c = some call → call.pc.data? = some d →
    d.health.reconnectCount = backoffs s.shared.log

theorem RunOk.frame {s s' : Shared} {word : List RunEvent} {policy : RecoveryPolicy}
    {stage : Stage} (h : RunOk s word policy stage)
    (hstopping : s.stopping = true → s'.stopping = true) (hs : s.SameFault s') :
    RunOk s' word policy stage := by
  cases policy <;> cases stage <;> simp only [RunOk, hs.health, hs.latch] at h ⊢
  case reconnect.concluded => exact ⟨h.1, fun e => hstopping (h.2 e)⟩
  case reconnect.closed => exact ⟨h.1, fun e => hstopping (h.2 e)⟩
  case reconnect.leaving => exact ⟨hstopping h.1, h.2⟩
  case failStop.concluded => exact ⟨h.1, fun e => hstopping (h.2 e)⟩
  case failStop.closed => exact ⟨h.1, fun e => hstopping (h.2 e)⟩
  case failStop.leaving => exact h.imp_left fun hl => ⟨hstopping hl.1, hl.2⟩
  all_goals exact h

theorem RunThread.frame {config : Config} {w : Nat} {s s' : Shared} {pc : WorkerPc}
    {backoff : ℚ} (h : RunThread config w s pc backoff)
    (hstopping : s.stopping = true → s'.stopping = true) (hs : s.SameFault s')
    (hevents : runEvents w s'.log = runEvents w s.log) : RunThread config w s' pc backoff where
  ok := ⟨by rw [hs.health]; exact h.ok.configured, h.ok.outcome⟩
  run := by
    rw [hevents]
    exact h.run.frame hstopping hs
  nonneg := h.nonneg
  bounded := h.bounded

section System

variable {P : Platform} {config : Config} {s s' : Sys}

theorem Sys.runWf_new (config : Config) (clock : TimePoint) :
    (Sys.new config clock).RunWf config where
  thread := by simp [Sys.new]
  words := by
    intro w
    cases config.recoveryPolicy with
    | reconnect => exact .inl .nil
    | failStop => exact .inl rfl
  fresh := fun _ _ => rfl
  count := rfl
  unlatched := fun _ => rfl
  saved := by simp [Sys.new]
  data := by simp [Sys.new]

/-- The words as far as the log is concerned. -/
structure Shared.SameRun (s s' : Shared) : Prop where
  events : ∀ w, runEvents w s'.log = runEvents w s.log
  backoffs : backoffs s'.log = backoffs s.log

theorem Shared.SameRun.of_log {s s' : Shared} (h : s'.log = s.log) : s.SameRun s' :=
  ⟨fun w => by rw [h], by rw [h]⟩

/-- Calls attempt commands; they add nothing to the words. -/
theorem CallMove.run {c : Nat} {caller : Option Nat} {pc pc' : CallPc}
    (h : CallMove config c caller s pc pc' s') : s.shared.SameRun s'.shared := by
  have hattempt : ∀ (u : Shared) command event, u.SameRun (u.attempt command event) :=
    fun u command event => ⟨(attempt_run u command event).1, (attempt_run u command event).2⟩
  cases h with
  | command event =>
    unfold Sys.withShared Shared.stopCommand Shared.stopStreaming
    dsimp only
    split
    · exact ⟨(hattempt _ _ _).events, (hattempt _ _ _).backoffs⟩
    · exact .of_log rfl
  | bias first second =>
    unfold Sys.withShared Shared.bias
    dsimp only
    split
    · exact .of_log rfl
    · have hfirst := hattempt s.shared .setSoftwareBias first
      have hsecond := hattempt (s.shared.attempt .setSoftwareBias first) .startRealtime second
      have hboth : s.shared.SameRun
          ((s.shared.attempt .setSoftwareBias first).attempt .startRealtime second) :=
        ⟨fun w => (hsecond.events w).trans (hfirst.events w),
          hsecond.backoffs.trans hfirst.backoffs⟩
      split
      · exact hfirst
      · split
        · exact hboth
        · exact ⟨hboth.events, hboth.backoffs⟩
  | republish =>
    dsimp only
    split
    · exact .of_log rfl
    · exact .of_log rfl
  | stopIdle =>
    unfold Shared.markStopped
    split
    · exact .of_log rfl
    · exact .of_log rfl
  | reapStop =>
    unfold Sys.reap Sys.withShared Shared.markStopped
    dsimp only
    split
    · exact .of_log rfl
    · exact .of_log rfl
  | wait => exact .of_log rfl
  | take => exact .of_log rfl
  | save => exact .of_log rfl
  | reset => exact .of_log rfl
  | arm => exact .of_log rfl
  | spawn => exact .of_log rfl
  | disarm => exact .of_log rfl
  | restoreRecord => exact .of_log rfl
  | restoreData => exact .of_log rfl
  | clearLatch => exact .of_log rfl
  | request => exact .of_log rfl
  | reapStart => exact .of_log rfl
  | snapshot => exact .of_log rfl

/-- A step of a call: the words stay; what is left to show is about the
latch, the count, what `start` has saved, and a thread that is there. -/
theorem Sys.RunWf.call (h : s.RunWf config) {c : Nat} {call : Call} {pc' : CallPc}
    (hcalls : s'.calls = s.calls) (hrun : s.shared.SameRun s'.shared)
    (hcreated : s.created ≤ s'.created)
    (hthread : ∀ w t, s'.shared.activeWorkerId = some w → s'.workers w = some t →
      RunThread config w s'.shared t.pc t.backoff)
    (hcount : s'.shared.health.reconnectCount = s.shared.health.reconnectCount)
    (hlatch : config.recoveryPolicy = .reconnect → s'.shared.faultLatch = .none)
    (hsaved : ∀ k, pc'.control? = some k → config.recoveryPolicy = .reconnect → k.fault = .none)
    (hdata : ∀ d, pc'.data? = some d → d.health.reconnectCount = backoffs s.shared.log) :
    (s'.setCall c (some { call with pc := pc' })).RunWf config where
  thread := hthread
  words := by
    intro w
    rw [Sys.setCall_shared, hrun.events]
    exact h.words w
  fresh := by
    intro w hw
    rw [Sys.setCall_shared, hrun.events]
    exact h.fresh w (hcreated.trans hw)
  count := by
    rw [Sys.setCall_shared, hrun.backoffs, hcount]
    exact h.count
  unlatched := hlatch
  saved := by
    intro j call' k hj hk
    rcases Sys.setCall_cases hj with ⟨rfl, heq⟩ | ⟨-, hj⟩
    · cases heq
      exact hsaved k hk
    · exact h.saved j call' k (hcalls ▸ hj) hk
  data := by
    intro j call' d hj hd
    rw [Sys.setCall_shared, hrun.backoffs]
    rcases Sys.setCall_cases hj with ⟨rfl, heq⟩ | ⟨-, hj⟩
    · cases heq
      exact hdata d hd
    · exact h.data j call' d (hcalls ▸ hj) hd

/-- A step that leaves latch, health and threads alone. -/
theorem Sys.RunWf.call_same (h : s.RunWf config) {c : Nat} {call : Call} {pc' : CallPc}
    (hc : s.calls c = some call) (hcalls : s'.calls = s.calls)
    (hrun : s.shared.SameRun s'.shared) (hs : s.shared.SameFault s'.shared)
    (hstopping : s.shared.stopping = true → s'.shared.stopping = true)
    (hactive : s'.shared.activeWorkerId = s.shared.activeWorkerId ∨
      s'.shared.activeWorkerId = none)
    (hworkers : s'.workers = s.workers) (hcreated : s'.created = s.created)
    (hsaved : ∀ k, pc'.control? = some k → call.pc.control? = some k ∨
      k.fault = s.shared.faultLatch)
    (hdata : ∀ d, pc'.data? = some d → call.pc.data? = some d) :
    (s'.setCall c (some { call with pc := pc' })).RunWf config := by
  refine h.call hcalls hrun hcreated.ge ?_ (by rw [hs.health]) ?_ ?_ ?_
  · intro w t hw ht
    rcases hactive with hsame | hnone
    · rw [hworkers] at ht
      exact (h.thread w t (hsame ▸ hw) ht).frame hstopping hs (hrun.events w)
    · rw [hnone] at hw
      cases hw
  · intro hpolicy
    rw [hs.latch]
    exact h.unlatched hpolicy
  · intro k hk hpolicy
    rcases hsaved k hk with hold | hnew
    · exact h.saved c call k hc hold hpolicy
    · rw [hnew]
      exact h.unlatched hpolicy
  · intro d hd
    exact h.data c call d hc (hdata d hd)

/-- A step while no thread is there. -/
theorem Sys.RunWf.call_idle (h : s.RunWf config) {c : Nat} {call : Call} {pc' : CallPc}
    (hc : s.calls c = some call) (hcalls : s'.calls = s.calls)
    (hrun : s.shared.SameRun s'.shared) (hactive : s'.shared.activeWorkerId = none)
    (hcreated : s'.created = s.created)
    (hcount : s'.shared.health.reconnectCount = s.shared.health.reconnectCount)
    (hlatch : config.recoveryPolicy = .reconnect → s'.shared.faultLatch = .none)
    (hsaved : ∀ k, pc'.control? = some k → call.pc.control? = some k)
    (hdata : ∀ d, pc'.data? = some d →
      call.pc.data? = some d ∨ d.health = s.shared.health) :
    (s'.setCall c (some { call with pc := pc' })).RunWf config := by
  refine h.call hcalls hrun hcreated.ge ?_ hcount hlatch ?_ ?_
  · intro w t hw
    rw [hactive] at hw
    cases hw
  · intro k hk hpolicy
    exact h.saved c call k hc (hsaved k hk) hpolicy
  · intro d hd
    rcases hdata d hd with hold | hnew
    · exact h.data c call d hc hold
    · rw [hnew]
      exact h.count

/-- A new thread has the empty word. -/
theorem Sys.RunWf.spawn (h : s.RunWf config) (htimes : config.TimesOk) {c : Nat} {call : Call}
    {pc' : CallPc} (hplain : pc'.resets = false) :
    ((s.spawn config).setCall c (some { call with pc := pc' })).RunWf config := by
  obtain ⟨hcontrol, hdata⟩ := CallPc.no_data_of_resets hplain
  refine h.call rfl (.of_log rfl) (Nat.le_succ _) ?_ rfl h.unlatched ?_ ?_
  · intro w t hw ht
    obtain rfl : s.created = w := Option.some.inj hw
    simp only [Sys.spawn, Function.update_self, Option.some.injEq] at ht
    subst ht
    have hword : runEvents s.created s.shared.log = [] := h.fresh _ le_rfl
    refine ⟨WorkerPc.ok_of_run rfl _, ?_, ?_, htimes.ordered⟩
    · show RunOk _ (runEvents s.created s.shared.log) _ _
      rw [hword]
      cases config.recoveryPolicy with
      | reconnect => exact .nil
      | failStop => rfl
    · obtain ⟨ticks, hticks⟩ := htimes.initial
      obtain ⟨q, hq, hq0, -⟩ := checkedDuration_ok hticks
      dsimp only
      rw [hq]
      exact hq0
  · intro k hk
    rw [hcontrol] at hk
    cases hk
  · intro d hd
    rw [hdata] at hd
    cases hd

theorem Sys.RunWf.callMove (h : s.RunWf config) (htimes : config.TimesOk) (hwf : s.Wf)
    (hfault : s.FaultWf) {c : Nat} {call : Call} {pc' : CallPc} (hc : s.calls c = some call)
    (hmove : CallMove config c call.caller s call.pc pc' s') :
    (s'.setCall c (some { call with pc := pc' })).RunWf config := by
  obtain ⟨caller, op, pc⟩ := call
  have hok := hfault.calls _ _ hc
  have hrun := hmove.run
  dsimp only at hmove hok
  cases hmove with
  | wait _ after =>
    obtain ⟨hcontrol, hdata⟩ := CallPc.no_data_of_resets (CallPc.resets_false_of_holds after.2)
    exact h.call_same hc rfl hrun (.refl _) id (.inl rfl) rfl rfl (by simp [hcontrol])
      (by simp [hdata])
  | take _ _ _ _ after =>
    have hres : pc'.resets = false := by
      by_contra hne
      rw [CallPc.joins_of_holds (CallPc.holds_of_resets (by simpa using hne))] at after
      cases after
    obtain ⟨hcontrol, hdata⟩ := CallPc.no_data_of_resets hres
    exact h.call_same hc rfl hrun ⟨rfl, rfl⟩ id (.inl rfl) rfl rfl (by simp [hcontrol])
      (by simp [hdata])
  | save =>
    refine h.call_same hc rfl hrun ⟨rfl, rfl⟩ id (.inl rfl) rfl rfl ?_ (fun _ hd => by cases hd)
    intro k hk
    cases hk
    exact .inr rfl
  | reset =>
    refine h.call_idle hc rfl hrun (hwf.inactive_of_resets hc rfl) rfl rfl (fun _ => rfl)
      (fun _ hk => hk) ?_
    intro d hd
    cases hd
    exact .inr rfl
  | arm =>
    exact h.call_idle hc rfl hrun (hwf.inactive_of_resets hc rfl) rfl rfl h.unlatched
      (fun _ hk => hk) (fun _ hd => .inl hd)
  | spawn => exact h.spawn htimes rfl
  | disarm =>
    exact h.call_idle hc rfl hrun (hwf.inactive_of_resets hc rfl) rfl rfl h.unlatched
      (fun _ hk => hk) (fun _ hd => .inl hd)
  | restoreRecord =>
    exact h.call_idle hc rfl hrun (hwf.inactive_of_resets hc rfl) rfl rfl h.unlatched
      (fun _ hk => hk) (fun _ hd => .inl hd)
  | restoreData =>
    have hcount := h.data _ _ _ hc rfl
    exact h.call_idle hc rfl hrun (hwf.inactive_of_resets hc rfl) rfl (hcount.trans h.count.symm)
      h.unlatched (fun _ hk => hk) (fun _ hd => .inl hd)
  | clearLatch =>
    exact h.call_idle hc rfl hrun (hwf.inactive_of_resets hc rfl) rfl rfl (fun _ => rfl)
      (fun _ hk => hk) (fun _ hd => .inl hd)
  | @republish k d message =>
    have hpublish := publish_handles s.shared k.fault d.health.lastError
    refine h.call_idle hc rfl hrun ?_ rfl ?_ ?_ (fun _ hk => by cases hk) (fun _ hd => by cases hd)
    · dsimp only
      split
      · exact hpublish.active.trans (hwf.inactive_of_resets hc rfl)
      · exact hwf.inactive_of_resets hc rfl
    · dsimp only
      split
      · unfold Impl.publish
        split <;> rfl
      · rfl
    · intro hpolicy
      dsimp only
      rw [if_neg (by simp [h.saved _ _ _ hc rfl hpolicy])]
      exact h.unlatched hpolicy
  | request =>
    exact h.call_same hc rfl hrun ⟨rfl, rfl⟩ (fun _ => rfl) (.inl rfl) rfl rfl
      (fun _ hk => by cases hk) (fun _ hd => by cases hd)
  | command event =>
    refine h.call_same hc rfl hrun (stopCommand_health _ _) ?_
      (.inl (stopCommand_handles _ _).active) rfl rfl (fun _ hk => by cases hk)
      (fun _ hd => by cases hd)
    intro hstop
    unfold Sys.withShared Shared.stopCommand Shared.stopStreaming
    dsimp only
    split <;> exact hstop
  | stopIdle worker joining =>
    have hidle := (hwf.idle_of_no_worker worker joining).active
    refine h.call_idle hc rfl hrun ((markStopped_handles _).active.trans hidle) rfl ?_ ?_
      (fun _ hk => by cases hk) (fun _ hd => by cases hd)
    · unfold Shared.markStopped
      split <;> rfl
    · intro hpolicy
      unfold Shared.markStopped
      split <;> exact h.unlatched hpolicy
  | reapStart =>
    exact h.call_idle hc rfl hrun rfl rfl rfl h.unlatched (fun _ hk => by cases hk)
      (fun _ hd => by cases hd)
  | reapStop =>
    refine h.call_idle hc rfl hrun rfl rfl ?_ ?_ (fun _ hk => by cases hk)
      (fun _ hd => by cases hd)
    · unfold Sys.reap Sys.withShared Shared.markStopped
      dsimp only
      split <;> rfl
    · intro hpolicy
      unfold Sys.reap Sys.withShared Shared.markStopped
      dsimp only
      split <;> exact h.unlatched hpolicy
  | bias first second =>
    refine h.call_same hc rfl hrun (bias_health _ _ _) ?_ (.inl (bias_handles _ _ _).active) rfl
      rfl (fun _ hk => by cases hk) (fun _ hd => by cases hd)
    intro hstop
    unfold Sys.withShared Shared.bias
    simp [hstop]
  | snapshot =>
    exact h.call_same hc rfl hrun ⟨rfl, rfl⟩ id (.inl rfl) rfl rfl (fun _ hk => by cases hk)
      (fun _ hd => by cases hd)

theorem Sys.FaultWf.unlatched_of_early (hfault : s.FaultWf) {w : Nat} {t : Worker}
    (hw : s.shared.activeWorkerId = some w) (ht : s.workers w = some t)
    (hearly : t.pc.phase.late = false) : s.shared.faultLatch = .none := by
  by_contra hne
  rw [hfault.late hne w t hw ht] at hearly
  cases hearly

theorem Sys.RunWf.step (h : s.RunWf config) (htimes : config.TimesOk) (hwf : s.Wf)
    (hfault : s.FaultWf) {l : Label} (hfit : config.DeadlinesFit s.shared.clock)
    (hstep : s.step P config l = some s') : s'.RunWf config := by
  cases Sys.step_move hstep with
  | tick ticks =>
    exact ⟨fun w t hw ht => (h.thread w t hw ht).frame id ⟨rfl, rfl⟩ rfl, h.words, h.fresh,
      h.count, h.unlatched, h.saved, h.data⟩
  | places label places =>
    refine ⟨?_, ?_, ?_, ?_, ?_, ?_, ?_⟩
    · rw [places.shared]
      intro w t' hw ht'
      obtain ⟨t, ht, hpc, hbackoff⟩ := places.thread_backoff ht'
      exact hpc ▸ hbackoff ▸ h.thread w t hw ht
    · rw [places.shared]
      exact h.words
    · rw [places.shared, places.created]
      exact h.fresh
    · rw [places.shared]
      exact h.count
    · rw [places.shared]
      exact h.unlatched
    · intro c call k hc hk
      rcases places.new c call hc with hold | hplain
      · exact h.saved c call k hold hk
      · rw [(CallPc.no_data_of_resets
          (CallPc.resets_false_of_holds (CallPc.of_plain hplain).1)).1] at hk
        cases hk
    · rw [places.shared]
      intro c call d hc hd
      rcases places.new c call hc with hold | hplain
      · exact h.data c call d hold hd
      · rw [(CallPc.no_data_of_resets
          (CallPc.resets_false_of_holds (CallPc.of_plain hplain).1)).2] at hd
        cases hd
  | call choice hc _ move => exact h.callMove htimes hwf hfault hc move
  | @worker w t t' shared' choice ht step move =>
    obtain ⟨hrun, -, hactive, -⟩ := move.lifecycle
    have hw := hwf.active_of_running ht hrun
    obtain ⟨hthread, hframe⟩ := workerStep_run htimes hfit (h.thread w t hw ht)
      (hfault.unlatched_of_early hw ht) step
    -- no `start` has anything saved while a thread is running
    have hnoReset : ∀ c call, s.calls c = some call → call.pc.resets = false := by
      intro c call hc
      by_contra hne
      have := hwf.inactive_of_resets hc (by simpa using hne)
      rw [hw] at this
      cases this
    refine ⟨?_, ?_, ?_, ?_, ?_, ?_, ?_⟩
    · intro v u hv hu
      obtain rfl : v = w := Option.some.inj (hv.symm.trans (hactive.trans hw))
      simp only [Sys.setWorker, Function.update_self, Option.some.injEq] at hu
      exact hu ▸ hthread
    · intro v
      by_cases hv : v = w
      · subst hv
        exact hthread.run.word
      · show RunWord _ (runEvents v shared'.log)
        rw [hframe.others v hv]
        exact h.words v
    · intro v hv
      have hlt := (hwf.workers.created w).mp (by rw [ht]; rfl)
      have hv' : s.created ≤ v := hv
      show runEvents v shared'.log = []
      rw [hframe.others v (by omega)]
      exact h.fresh v hv'
    · have hcount := hframe.count
      have hold := h.count
      show shared'.health.reconnectCount = backoffs shared'.log
      omega
    · intro hpolicy
      have hold := h.unlatched hpolicy
      show shared'.faultLatch = .none
      have hstage := (h.thread w t hw ht).run
      rw [hpolicy] at hstage
      cases move with
      | quiet phase quiet => exact (congrArg Control.faultLatch quiet.control).trans hold
      | connect => exact hold
      | start => exact hold
      | close event phases control health =>
        refine (congrArg Control.faultLatch control).trans ?_
        unfold Shared.control Shared.closeSession Shared.stopStreaming
        dsimp only
        split <;> exact hold
      | fail => exact hold
      | latch code message place =>
        rw [place] at hstage
        exact hstage.elim
      | exit => exact hold
      | finish => split <;> exact hold
    · intro c call k hc hk
      rw [(CallPc.no_data_of_resets (hnoReset c call hc)).1] at hk
      cases hk
    · intro c call d hc hd
      rw [(CallPc.no_data_of_resets (hnoReset c call hc)).2] at hd
      cases hd

theorem timesOk_of_reach {ok : Sys → Label → Prop} (h : (clientLts P config).Reach ok s) :
    config.TimesOk := by
  induction h with
  | init hinit =>
    obtain ⟨clock, hvalid, -⟩ := hinit
    exact validateConfig_timesOk hvalid
  | step _ _ _ ih => exact ih

/-- Steps at clock readings whose deadlines fit. -/
def Sys.InTime (config : Config) (s : Sys) (_ : Label) : Prop :=
  config.DeadlinesFit s.shared.clock

theorem runWf_of_reach (h : (clientLts P config).Reach (Sys.InTime config) s) :
    s.RunWf config := by
  have htimes := timesOk_of_reach h
  refine h.invariant_using (K := fun s => s.Wf ∧ s.FaultWf) ?_ ?_ ?_
  · intro u hu
    exact ⟨wf_of_reachable hu.reachable, faultWf_of_reachable hu.reachable⟩
  · rintro u ⟨clock, -, rfl⟩
    exact Sys.runWf_new config clock
  · intro u l v hfit hstep hK _ hu
    exact hu.step htimes hK.1 hK.2 hfit hstep

/-! ## Steps of others -/

/-- The thread `w` is where it was, and so is what it has done. -/
structure Sys.Keeps (w : Nat) (s s' : Sys) : Prop where
  thread : (s'.workers w).map (fun t => (t.pc, t.backoff))
    = (s.workers w).map (fun t => (t.pc, t.backoff))
  fault : s.shared.SameFault s'.shared
  events : runEvents w s'.shared.log = runEvents w s.shared.log

theorem Sys.Wf.not_finished (hwf : s.Wf) {c w : Nat} {call : Call} {t : Worker}
    (hc : s.calls c = some call) {v : Nat} (hv : call.pc.joins = some v)
    (hw : s.shared.activeWorkerId = some w) (ht : s.workers w = some t)
    (hrun : t.pc.phase ≠ .done) : s.finished v = false := by
  obtain ⟨hreap, rfl⟩ := hwf.reaping_of_joins hc hv
  obtain rfl : w = s.joined.length := Option.some.inj (hw.symm.trans hreap.active)
  unfold Sys.finished
  rw [ht]
  simp only [decide_eq_false_iff_not]
  intro hdone
  rw [hdone] at hrun
  exact hrun rfl

/-- While a thread runs, no call touches it, the latch or the health
record. -/
theorem CallMove.keeps {c w : Nat} {call : Call} {pc' : CallPc} {t : Worker} (hwf : s.Wf)
    (hc : s.calls c = some call) (ht : s.workers w = some t) (hrun : t.pc.phase ≠ .done)
    (hmove : CallMove config c call.caller s call.pc pc' s') : s.Keeps w s' := by
  have hw := hwf.active_of_running ht hrun
  have hevents := hmove.run.events w
  have hreset : call.pc.resets = true → s.Keeps w s' := by
    intro hres
    rw [hwf.inactive_of_resets hc hres] at hw
    cases hw
  have hjoin : ∀ v, call.pc.joins = some v → s.finished v = true → s.Keeps w s' := by
    intro v hv hdone
    rw [hwf.not_finished hc hv hw ht hrun] at hdone
    cases hdone
  obtain ⟨caller, op, pc⟩ := call
  dsimp only at hmove hreset hjoin
  cases hmove with
  | wait => exact ⟨rfl, .refl _, hevents⟩
  | take => exact ⟨rfl, ⟨rfl, rfl⟩, hevents⟩
  | save => exact ⟨rfl, ⟨rfl, rfl⟩, hevents⟩
  | reset => exact hreset rfl
  | arm => exact hreset rfl
  | spawn => exact hreset rfl
  | disarm => exact hreset rfl
  | restoreRecord => exact hreset rfl
  | restoreData => exact hreset rfl
  | clearLatch => exact hreset rfl
  | republish => exact hreset rfl
  | request => exact ⟨rfl, ⟨rfl, rfl⟩, hevents⟩
  | command event => exact ⟨rfl, stopCommand_health _ _, hevents⟩
  | stopIdle worker joining =>
    rw [(hwf.idle_of_no_worker worker joining).active] at hw
    cases hw
  | reapStart _ finished => exact hjoin _ rfl finished
  | reapStop _ finished => exact hjoin _ rfl finished
  | bias first second => exact ⟨rfl, bias_health _ _ _, hevents⟩
  | snapshot => exact ⟨rfl, ⟨rfl, rfl⟩, hevents⟩

/-- Is this a step of the thread `w`? -/
def Label.isWorker (w : Nat) : Label → Bool
  | .worker v _ => decide (v = w)
  | _ => false

/-- While a thread runs, the steps of others leave it where it is. -/
theorem Sys.Wf.keeps (hwf : s.Wf) {w : Nat} {t : Worker} (ht : s.workers w = some t)
    (hrun : t.pc.phase ≠ .done) {l : Label} (hl : l.isWorker w = false)
    (hstep : s.step P config l = some s') : s.Keeps w s' := by
  cases Sys.step_move hstep with
  | tick ticks => exact ⟨rfl, ⟨rfl, rfl⟩, rfl⟩
  | places label places =>
    exact ⟨places.threads w, by rw [places.shared]; exact .refl _, by rw [places.shared]⟩
  | call choice hc _ move =>
    obtain ⟨hthread, hfault, hevents⟩ := move.keeps hwf hc ht hrun
    exact ⟨hthread, hfault, hevents⟩
  | @worker v u u' shared' choice hu _ move =>
    have hw := hwf.active_of_running ht hrun
    have hv := hwf.active_of_running hu move.lifecycle.1
    obtain rfl : w = v := Option.some.inj (hw.symm.trans hv)
    simp [Label.isWorker] at hl

/-- Words only grow. -/
theorem Sys.RunWf.grows (h : s.RunWf config) (htimes : config.TimesOk) (hwf : s.Wf)
    (hfault : s.FaultWf) {l : Label} (hfit : config.DeadlinesFit s.shared.clock)
    (hstep : s.step P config l = some s') (w : Nat) :
    runEvents w s.shared.log <+: runEvents w s'.shared.log := by
  cases Sys.step_move hstep with
  | tick ticks => exact List.prefix_rfl
  | places label places => exact places.shared ▸ List.prefix_rfl
  | call choice hc _ move => exact (move.run.events w).symm ▸ List.prefix_rfl
  | @worker v t t' shared' choice ht step move =>
    have hv := hwf.active_of_running ht move.lifecycle.1
    obtain ⟨-, hframe⟩ := workerStep_run htimes hfit (h.thread v t hv ht)
      (hfault.unlatched_of_early hv ht) step
    by_cases hw : w = v
    · subst hw
      exact hframe.own
    · exact (hframe.others w hw).symm ▸ List.prefix_rfl

/-! ## What follows a failed session -/

/-- The places of a thread that recovers, by the number of its own steps
since it closed the failed session. -/
inductive RecoveryAt : Nat → WorkerPc → Prop where
  | closed (outcome : SessionOutcome) (failed : outcome.result ≠ .stopped) :
      RecoveryAt 0 (.sessionClosed outcome)
  | entering (outcome : SessionOutcome) : RecoveryAt 1 (.enterBackoff outcome)
  | deadline : RecoveryAt 2 .backoffDeadline
  | waiting (deadline : TimePoint) : RecoveryAt 3 (.backoffWait deadline)
  | head : RecoveryAt 4 .loopHead
  | begin : RecoveryAt 5 .sessionBegin

/-- How far a thread is `n` of its own steps after it closed a failed
session with the word `word` and the count `count`: the backoff begins
with the second step, the next session with the sixth. -/
def Sys.Recovers (w : Nat) (word : List RunEvent) (count n : Nat) (s : Sys) : Prop :=
  if n < 6 then
    ∃ t, s.workers w = some t ∧ RecoveryAt n t.pc ∧
      runEvents w s.shared.log = word ++ (if n < 2 then [] else [.backoff]) ∧
      s.shared.health.reconnectCount = count + (if n < 2 then 0 else 1) ∧
      (2 ≤ n → s.shared.health.state = .backoff)
  else word ++ [.backoff, .started] <+: runEvents w s.shared.log

/-- The places of a thread that fails and stops. -/
inductive LatchAt (result : SessionResult) : Nat → WorkerPc → Prop where
  | closed (outcome : SessionOutcome) (same : outcome.result = result) :
      LatchAt result 0 (.sessionClosed outcome)
  | latching (message : String) : LatchAt result 1 (.latchFault (faultFor result) message)

/-- How far a thread is `n` of its own steps after it closed a session
that failed with `result`, under fail-stop. -/
def Sys.Latches (w : Nat) (result : SessionResult) (n : Nat) (s : Sys) : Prop :=
  if n < 2 then
    ∃ t, s.workers w = some t ∧ LatchAt result n t.pc ∧
      runEvents w s.shared.log = [.started, .ended result]
  else runEvents w s.shared.log = [.started, .ended result, .latched (faultFor result)]

/-- The thread can take its next step, at the latest after some time. -/
def Sys.CanMove (P : Platform) (config : Config) (w : Nat) (s : Sys) : Prop :=
  ∃ ticks choice u, (clientLts P config).exec s [.tick ticks, .worker w choice] = some u

theorem RecoveryAt.phase {n : Nat} {pc : WorkerPc} (h : RecoveryAt n pc) :
    pc.phase ≠ .done ∧ pc.phase ≠ .open := by
  cases h <;> simp [WorkerPc.phase]

theorem LatchAt.phase {result : SessionResult} {n : Nat} {pc : WorkerPc}
    (h : LatchAt result n pc) : pc.phase ≠ .done ∧ pc.phase ≠ .open := by
  cases h <;> simp [WorkerPc.phase]

/-- A thread that is kept by a step. -/
theorem Sys.Keeps.same {w : Nat} (h : s.Keeps w s') {t : Worker} (ht : s.workers w = some t) :
    ∃ t', s'.workers w = some t' ∧ t'.pc = t.pc := by
  have hthread := h.thread
  rw [ht] at hthread
  obtain ⟨t', ht', heq⟩ := Option.map_eq_some_iff.mp hthread
  exact ⟨t', ht', (Prod.mk.inj heq).1⟩

/-- A step of the thread `w`, when it is not inside its callback. -/
theorem Sys.Wf.nested_none (hwf : s.Wf) {w : Nat} {t : Worker} (ht : s.workers w = some t)
    (hopen : t.pc.phase ≠ .open) : t.nested = none := by
  by_contra hne
  exact hopen (hwf.workers.waiting w t ht (Option.isSome_iff_ne_none.mpr hne))

theorem Sys.step_worker {w : Nat} {choice : WorkerChoice}
    (hstep : s.step P config (.worker w choice) = some s') :
    ∃ t t' shared', s.workers w = some t ∧
      workerStep P config w choice t s.shared = some (t', shared') ∧
      s'.shared = shared' ∧ s'.workers w = some t' := by
  cases Sys.step_move hstep with
  | places label => simp at label
  | @worker _ t t' shared' _ ht step =>
    exact ⟨t, t', shared', ht, step, rfl, by simp [Sys.setWorker]⟩

/-- The steps of others. -/
theorem Sys.Recovers.other (hwf : s.Wf) (hrun : s.RunWf config) (htimes : config.TimesOk)
    (hfault : s.FaultWf) (hfit : config.DeadlinesFit s.shared.clock) {w count n : Nat}
    {word : List RunEvent} {l : Label} (hl : l.isWorker w = false)
    (h : s.Recovers w word count n) (hstep : s.step P config l = some s') :
    s'.Recovers w word count n := by
  unfold Sys.Recovers at h ⊢
  split at h
  · rename_i hn
    rw [if_pos hn]
    obtain ⟨t, ht, hat, hword, hcount, hstate⟩ := h
    have hkeeps := hwf.keeps ht hat.phase.1 hl hstep
    obtain ⟨t', ht', hpc⟩ := hkeeps.same ht
    refine ⟨t', ht', hpc ▸ hat, hkeeps.events.trans hword, ?_, ?_⟩
    · rw [hkeeps.fault.health]
      exact hcount
    · rw [hkeeps.fault.health]
      exact hstate
  · rename_i hn
    rw [if_neg hn]
    exact h.trans (hrun.grows htimes hwf hfault hfit hstep w)

/-- The steps of the thread itself, as long as nobody asks it to stop. -/
theorem Sys.Recovers.own (hpolicy : config.recoveryPolicy = .reconnect) (hwf : s.Wf)
    (hrun : s.RunWf config) (htimes : config.TimesOk) (hfault : s.FaultWf)
    (hfit : config.DeadlinesFit s.shared.clock) (hgo : s.shared.stopping = false)
    {w count n : Nat} {word : List RunEvent} {choice : WorkerChoice}
    (h : s.Recovers w word count n) (hstep : s.step P config (.worker w choice) = some s') :
    s'.Recovers w word count (n + 1) := by
  unfold Sys.Recovers at h
  split at h
  · obtain ⟨t, ht, hat, hword, hcount, hstate⟩ := h
    have hnested := hwf.nested_none ht hat.phase.2
    have hw := hwf.active_of_running ht hat.phase.1
    have hthread := hrun.thread w t hw ht
    obtain ⟨u, t', shared', hu, hmove, rfl, ht'⟩ := Sys.step_worker hstep
    obtain rfl : t = u := Option.some.inj (ht.symm.trans hu)
    obtain ⟨pc, backoff, nested⟩ := t
    obtain rfl : nested = none := hnested
    unfold Sys.Recovers
    rw [ht']
    generalize s'.shared = shared' at hmove ⊢
    dsimp only at hat hthread
    unfold workerStep at hmove
    cases hat with
    | closed outcome failed =>
      simp only [Option.isSome_none, Bool.false_eq_true, if_false, WorkerPc.part, runStep, hpolicy,
        reduceCtorEq, and_false, failed, hgo, or_self, Option.map_some, Option.some.injEq,
        Prod.mk.injEq] at hmove
      obtain ⟨rfl, rfl⟩ := hmove
      exact ⟨_, rfl, .entering outcome, hword, hcount, by simp⟩
    | entering outcome =>
      simp only [Option.isSome_none, Bool.false_eq_true, if_false, WorkerPc.part, runStep,
        Option.map_some, Option.some.injEq, Prod.mk.injEq] at hmove
      obtain ⟨rfl, rfl⟩ := hmove
      refine ⟨_, rfl, .deadline, ?_, ?_, fun _ => rfl⟩
      · dsimp only
        rw [runEvents_snoc, hword]
        simp [Event.runEvent]
      · simpa using hcount
    | deadline =>
      obtain ⟨deadline, hdeadline⟩ := backoffDeadline_ok htimes hfit hthread.nonneg hthread.bounded
      simp only [Option.isSome_none, Bool.false_eq_true, if_false, WorkerPc.part, runStep,
        hdeadline, Option.map_some, Option.some.injEq, Prod.mk.injEq] at hmove
      obtain ⟨rfl, rfl⟩ := hmove
      exact ⟨_, rfl, .waiting deadline, hword, hcount, fun _ => hstate (by omega)⟩
    | waiting deadline =>
      simp only [Option.isSome_none, Bool.false_eq_true, if_false, WorkerPc.part, runStep] at hmove
      split at hmove
      · simp only [Option.map_some, Option.some.injEq, Prod.mk.injEq] at hmove
        obtain ⟨rfl, rfl⟩ := hmove
        exact ⟨_, rfl, .head, hword, hcount, fun _ => hstate (by omega)⟩
      · cases hmove
    | head =>
      have hlatch : s.shared.faulted = false := by
        simp [Impl.faulted, hrun.unlatched hpolicy]
      simp only [Option.isSome_none, Bool.false_eq_true, if_false, WorkerPc.part, runStep, hgo,
        hlatch, Bool.or_self, Option.map_some, Option.some.injEq, Prod.mk.injEq] at hmove
      obtain ⟨rfl, rfl⟩ := hmove
      exact ⟨_, rfl, .begin, hword, hcount, fun _ => hstate (by omega)⟩
    | begin =>
      simp only [Option.isSome_none, Bool.false_eq_true, if_false, WorkerPc.part, configureStep,
        Option.map_some, Option.some.injEq, Prod.mk.injEq] at hmove
      obtain ⟨rfl, rfl⟩ := hmove
      show _ <+: _
      dsimp only
      rw [runEvents_snoc, hword]
      simp [Event.runEvent]
  · rename_i hn
    unfold Sys.Recovers
    rw [if_neg (by omega)]
    exact h.trans (hrun.grows htimes hwf hfault hfit hstep w)

/-- A complete word of a fail-stop run stays as it is. -/
theorem RunWord.complete {word : List RunEvent} {result : SessionResult}
    (h : RunWord .failStop word)
    (hgrows : [.started, .ended result, .latched (faultFor result)] <+: word) :
    word = [.started, .ended result, .latched (faultFor result)] := by
  refine (hgrows.eq_of_length_le ?_).symm
  rcases h with rfl | rfl | ⟨_, rfl⟩ | ⟨_, -, rfl⟩ <;> simp

theorem Sys.Latches.later (hpolicy : config.recoveryPolicy = .failStop) (hwf : s.Wf)
    (hrun : s.RunWf config) (htimes : config.TimesOk) (hfault : s.FaultWf)
    (hfit : config.DeadlinesFit s.shared.clock) {w : Nat} {result : SessionResult} {l : Label}
    (h : runEvents w s.shared.log = [.started, .ended result, .latched (faultFor result)])
    (hstep : s.step P config l = some s') :
    runEvents w s'.shared.log = [.started, .ended result, .latched (faultFor result)] := by
  have hgrows := hrun.grows htimes hwf hfault hfit hstep w
  rw [h] at hgrows
  have hword := (hrun.step htimes hwf hfault hfit hstep).words w
  rw [hpolicy] at hword
  exact hword.complete hgrows

theorem Sys.Latches.other (hpolicy : config.recoveryPolicy = .failStop) (hwf : s.Wf)
    (hrun : s.RunWf config) (htimes : config.TimesOk) (hfault : s.FaultWf)
    (hfit : config.DeadlinesFit s.shared.clock) {w n : Nat} {result : SessionResult} {l : Label}
    (hl : l.isWorker w = false) (h : s.Latches w result n)
    (hstep : s.step P config l = some s') : s'.Latches w result n := by
  unfold Sys.Latches at h ⊢
  split at h
  · rename_i hn
    rw [if_pos hn]
    obtain ⟨t, ht, hat, hword⟩ := h
    have hkeeps := hwf.keeps ht hat.phase.1 hl hstep
    obtain ⟨t', ht', hpc⟩ := hkeeps.same ht
    exact ⟨t', ht', hpc ▸ hat, hkeeps.events.trans hword⟩
  · rename_i hn
    rw [if_neg hn]
    exact Sys.Latches.later hpolicy hwf hrun htimes hfault hfit h hstep

/-- A fail-stop thread latches whether or not `stop` is called. -/
theorem Sys.Latches.own (hpolicy : config.recoveryPolicy = .failStop) (hwf : s.Wf)
    (hrun : s.RunWf config) (htimes : config.TimesOk) (hfault : s.FaultWf)
    (hfit : config.DeadlinesFit s.shared.clock) {w n : Nat} {result : SessionResult}
    (hfailed : result ≠ .stopped) {choice : WorkerChoice} (h : s.Latches w result n)
    (hstep : s.step P config (.worker w choice) = some s') : s'.Latches w result (n + 1) := by
  unfold Sys.Latches at h
  split at h
  · obtain ⟨t, ht, hat, hword⟩ := h
    have hnested := hwf.nested_none ht hat.phase.2
    have hw := hwf.active_of_running ht hat.phase.1
    obtain ⟨u, t', shared', hu, hmove, rfl, ht'⟩ := Sys.step_worker hstep
    obtain rfl : t = u := Option.some.inj (ht.symm.trans hu)
    obtain ⟨pc, backoff, nested⟩ := t
    obtain rfl : nested = none := hnested
    unfold Sys.Latches
    rw [ht']
    generalize s'.shared = shared' at hmove ⊢
    dsimp only at hat
    unfold workerStep at hmove
    cases hat with
    | closed outcome same =>
      subst same
      simp only [Option.isSome_none, Bool.false_eq_true, if_false, WorkerPc.part, runStep, hpolicy,
        and_true, ne_eq, hfailed, not_false_eq_true, if_true, Option.map_some, Option.some.injEq,
        Prod.mk.injEq] at hmove
      obtain ⟨rfl, rfl⟩ := hmove
      exact ⟨_, rfl, .latching outcome.message, hword⟩
    | latching message =>
      have hnone := hfault.unlatched_of_early hw ht rfl
      simp only [Option.isSome_none, Bool.false_eq_true, if_false, WorkerPc.part, runStep, hnone,
        if_true, Option.map_some, Option.some.injEq, Prod.mk.injEq] at hmove
      obtain ⟨rfl, rfl⟩ := hmove
      show runEvents w (s.shared.log ++ [_]) = _
      rw [runEvents_snoc, hword]
      simp [Event.runEvent]
  · rename_i hn
    unfold Sys.Latches
    rw [if_neg (by omega)]
    exact Sys.Latches.later hpolicy hwf hrun htimes hfault hfit h hstep

theorem Sys.canMove_of_step {w : Nat} {t : Worker} (ht : s.workers w = some t) (ticks : Nat)
    (h : (workerStep P config w .go t
      { s.shared with clock := s.shared.clock + ticks }).isSome = true) :
    s.CanMove P config w := by
  obtain ⟨r, hr⟩ := Option.isSome_iff_exists.mp h
  let waited := s.withShared { s.shared with clock := s.shared.clock + ticks }
  have hstep : waited.step P config (.worker w .go)
      = some ((waited.withShared r.2).setWorker w r.1) := by
    simp only [waited, Sys.step, Sys.withShared, ht]
    rw [hr]
    rfl
  refine ⟨ticks, .go, (waited.withShared r.2).setWorker w r.1, ?_⟩
  show (waited.step P config (.worker w .go)).bind some = _
  rw [hstep]
  rfl

/-- None of these places blocks; the backoff ends when its time is over. -/
theorem Sys.Recovers.canMove (hwf : s.Wf) {w count n : Nat} {word : List RunEvent} (hn : n < 6)
    (h : s.Recovers w word count n) : s.CanMove P config w := by
  unfold Sys.Recovers at h
  rw [if_pos hn] at h
  obtain ⟨t, ht, hat, -⟩ := h
  have hnested := hwf.nested_none ht hat.phase.2
  obtain ⟨pc, backoff, nested⟩ := t
  obtain rfl : nested = none := hnested
  dsimp only at hat
  cases hat with
  | closed outcome failed => exact Sys.canMove_of_step ht 0 rfl
  | entering outcome => exact Sys.canMove_of_step ht 0 rfl
  | deadline =>
    refine Sys.canMove_of_step ht 0 ?_
    simp only [workerStep, Option.isSome_none, Bool.false_eq_true, if_false, WorkerPc.part, runStep]
    split <;> rfl
  | waiting deadline =>
    refine Sys.canMove_of_step ht (deadline - s.shared.clock) ?_
    have hover : deadline ≤ s.shared.clock + (deadline - s.shared.clock) := le_add_tsub
    simp only [workerStep, Option.isSome_none, Bool.false_eq_true, if_false, WorkerPc.part, runStep,
      hover, or_true, if_true]
    rfl
  | head => exact Sys.canMove_of_step ht 0 rfl
  | begin => exact Sys.canMove_of_step ht 0 rfl

theorem Sys.Latches.canMove (hwf : s.Wf) {w n : Nat} {result : SessionResult} (hn : n < 2)
    (h : s.Latches w result n) : s.CanMove P config w := by
  unfold Sys.Latches at h
  rw [if_pos hn] at h
  obtain ⟨t, ht, hat, -⟩ := h
  have hnested := hwf.nested_none ht hat.phase.2
  obtain ⟨pc, backoff, nested⟩ := t
  obtain rfl : nested = none := hnested
  dsimp only at hat
  cases hat with
  | closed outcome same => exact Sys.canMove_of_step ht 0 rfl
  | latching message => exact Sys.canMove_of_step ht 0 rfl

/-! ## The policies -/

/-- Without a backoff in any word there is none in the log. -/
theorem backoffs_eq_zero {log : List Event} (h : ∀ w, RunEvent.backoff ∉ runEvents w log) :
    backoffs log = 0 := by
  refine List.countP_eq_zero.mpr ?_
  intro e he hback
  cases e with
  | backoff w =>
    refine h w (List.mem_filterMap.mpr ⟨_, he, ?_⟩)
    simp [Event.runEvent]
  | _ => cases hback

theorem RunWord.no_backoff {word : List RunEvent} (h : RunWord .failStop word) :
    RunEvent.backoff ∉ word := by
  rcases h with rfl | rfl | ⟨_, rfl⟩ | ⟨_, -, rfl⟩ <;> simp

/-- The latch of a fail-stop run whose fault is latched. -/
theorem RunOk.latch {shared : Shared} {stage : Stage} {result : SessionResult}
    {word : List RunEvent} (h : RunOk shared word .failStop stage)
    (hword : word = [.started, .ended result, .latched (faultFor result)]) :
    shared.faultLatch = faultFor result := by
  subst hword
  cases stage <;> simp [RunOk] at h
  case leaving => exact h.2

/-- Steps of a run that nobody asks to stop. -/
def Sys.Undisturbed (config : Config) (s : Sys) (l : Label) : Prop :=
  s.InTime config l ∧ s.shared.stopping = false

/-- The recovery policies, for every accepted configuration and every run
in which the deadlines fit the clock. The reconnect count is the number
of backoffs, and each thread's word is one its policy allows. Reconnect:
no fault is latched, a thread leaves only when asked to stop, and
counted in its own steps the thread that closed a failed session is in
its backoff after two and in a new session after six, unless `stop`
intervenes; nothing blocks it on the way. Fail-stop: no reconnect, and
two steps after the session failed its own fault is latched, which the
word keeps as its last event. -/
theorem recovery_policy_semantics (P : Platform) (config : Config) {s : Sys}
    (h : (clientLts P config).Reach (Sys.InTime config) s) :
    s.shared.health.reconnectCount = backoffs s.shared.log ∧
      (∀ w, RunWord config.recoveryPolicy (runEvents w s.shared.log)) ∧
      (config.recoveryPolicy = .reconnect →
        s.shared.faultLatch = .none ∧
        ∀ w t, s.shared.activeWorkerId = some w → s.workers w = some t →
          (t.pc.stage = .leaving → s.shared.stopping = true) ∧
          (t.pc.stage = .waiting → s.shared.health.state = .backoff) ∧
          ∀ outcome, t.pc = .sessionClosed outcome → outcome.result ≠ .stopped →
            (∃ before, Rounds before ∧
              runEvents w s.shared.log = before ++ [.started, .ended outcome.result]) ∧
            ∀ labels u, (clientLts P config).Path (Sys.Undisturbed config) s labels u →
              u.Recovers w (runEvents w s.shared.log) s.shared.health.reconnectCount
                (labels.countP (Label.isWorker w)) ∧
              (labels.countP (Label.isWorker w) < 6 → u.CanMove P config w)) ∧
      (config.recoveryPolicy = .failStop →
        s.shared.health.reconnectCount = 0 ∧
        ∀ w t, s.shared.activeWorkerId = some w → s.workers w = some t →
          (∀ result,
            runEvents w s.shared.log = [.started, .ended result, .latched (faultFor result)] →
            s.shared.faultLatch = faultFor result) ∧
          ∀ outcome, t.pc = .sessionClosed outcome → outcome.result ≠ .stopped →
            ∀ labels u, (clientLts P config).Path (Sys.InTime config) s labels u →
              u.Latches w outcome.result (labels.countP (Label.isWorker w)) ∧
              (labels.countP (Label.isWorker w) < 2 → u.CanMove P config w)) := by
  have hrun := runWf_of_reach h
  have htimes := timesOk_of_reach h
  have hK : ∀ v, (clientLts P config).Reach (Sys.InTime config) v →
      v.Wf ∧ v.FaultWf ∧ v.RunWf config := fun v hv =>
    ⟨wf_of_reachable hv.reachable, faultWf_of_reachable hv.reachable, runWf_of_reach hv⟩
  refine ⟨hrun.count, hrun.words, ?_, ?_⟩
  · intro hpolicy
    refine ⟨hrun.unlatched hpolicy, ?_⟩
    intro w t hw ht
    have hstage := (hrun.thread w t hw ht).run
    rw [hpolicy] at hstage
    refine ⟨?_, ?_, ?_⟩
    · intro hleaving
      rw [hleaving] at hstage
      exact hstage.1
    · intro hwaiting
      rw [hwaiting] at hstage
      exact hstage.2
    · intro outcome hpc hfailed
      rw [hpc] at hstage
      refine ⟨hstage.1, ?_⟩
      intro labels u hpath
      have hrecovers :
        s.Recovers w (runEvents w s.shared.log) s.shared.health.reconnectCount 0 := by
        refine ⟨t, ht, ?_, by simp, rfl, by simp⟩
        rw [hpc]
        exact .closed outcome hfailed
      have hu := hpath.counts (Label.isWorker w) (I := fun n v => v.Recovers w
        (runEvents w s.shared.log) s.shared.health.reconnectCount n)
        (fun _ _ hok => hok.1) hK ?_ ?_ h hrecovers
      · rw [Nat.zero_add] at hu
        exact ⟨hu, fun hn => hu.canMove (hpath.reachable h.reachable |> wf_of_reachable) hn⟩
      · intro n v l v' hok hstep hv hmine hn
        cases l <;> simp only [Label.isWorker, reduceCtorEq, decide_eq_true_eq] at hmine
        subst hmine
        exact hn.own hpolicy hv.1 hv.2.2 htimes hv.2.1 hok.1 hok.2 hstep
      · intro n v l v' hok hstep hv hmine hn
        exact hn.other hv.1 hv.2.2 htimes hv.2.1 hok.1 hmine hstep
  · intro hpolicy
    refine ⟨?_, ?_⟩
    · rw [hrun.count]
      refine backoffs_eq_zero fun w => ?_
      have hword := hrun.words w
      rw [hpolicy] at hword
      exact hword.no_backoff
    intro w t hw ht
    have hstage := (hrun.thread w t hw ht).run
    rw [hpolicy] at hstage
    refine ⟨fun result hword => hstage.latch hword, ?_⟩
    intro outcome hpc hfailed labels u hpath
    rw [hpc] at hstage
    have hlatches : s.Latches w outcome.result 0 := by
      refine ⟨t, ht, ?_, hstage.1⟩
      rw [hpc]
      exact .closed outcome rfl
    have hu := hpath.counts (Label.isWorker w) (I := fun n v => v.Latches w outcome.result n)
      (fun _ _ hok => hok) hK ?_ ?_ h hlatches
    · rw [Nat.zero_add] at hu
      exact ⟨hu, fun hn => hu.canMove (hpath.reachable h.reachable |> wf_of_reachable) hn⟩
    · intro n v l v' hok hstep hv hmine hn
      cases l <;> simp only [Label.isWorker, reduceCtorEq, decide_eq_true_eq] at hmine
      subst hmine
      exact hn.own hpolicy hv.1 hv.2.2 htimes hv.2.1 hok hfailed hstep
    · intro n v l v' hok hstep hv hmine hn
      exact hn.other hpolicy hv.1 hv.2.2 htimes hv.2.1 hok hmine hstep

end System

theorem overrideConfig_fits : overrideConfig.DeadlinesFit 1000 := by
  have hreceive : checkedDuration overrideConfig.receiveTimeout = .ok 100000000 := by
    decide +kernel
  have hmaximum : checkedDuration overrideConfig.reconnectMaxDelay = .ok 5000000000 := by
    decide +kernel
  intro ticks h
  rw [hreceive, hmaximum] at h
  rcases h with h | h
  · cases h
    decide +kernel
  · cases h
    decide +kernel

/-- `start`, and a first session that ends because the sensor cannot be
connected to. -/
def refusedRun : List Label :=
  [.invoke 0 none (.start (some 7)), .call 0 .go, .call 0 .go, .call 0 .go, .call 0 .go,
   .worker 0 .go, .worker 0 .go, .worker 0 .go, .worker 0 (.http (.failed "")), .worker 0 .go,
   .worker 0 .go, .worker 0 (.connect (some "refused")), .worker 0 .go, .worker 0 (.send .sent)]

/-- After it, the next session is six steps away. -/
theorem recovery_policy_semantics_refused :
    ∃ s, (clientLts exactPlatform overrideConfig).Reach (Sys.InTime overrideConfig) s ∧
      runEvents 0 s.shared.log = [.started, .ended .socket] ∧ s.shared.faultLatch = .none ∧
      ∀ labels u,
        (clientLts exactPlatform overrideConfig).Path (Sys.Undisturbed overrideConfig) s labels u →
        labels.countP (Label.isWorker 0) = 6 →
        [.started, .ended .socket, .backoff, .started] <+: runEvents 0 u.shared.log := by
  have hinit : (clientLts exactPlatform overrideConfig).Reach (Sys.InTime overrideConfig)
      (Sys.new overrideConfig 1000) := .init ⟨1000, overrideConfig_valid, rfl⟩
  obtain ⟨s, hs, hp⟩ := Lts.exists_of_execChecked (l := refusedRun)
    (p := fun s : Sys => decide (s.shared.activeWorkerId = some 0 ∧
      (s.workers 0).map (fun t => t.pc) = some (.sessionClosed ⟨.socket, "refused", false⟩) ∧
      runEvents 0 s.shared.log = [.started, .ended .socket]))
    (fun s _ => decide (s.shared.clock = 1000))
    (fun s _ hclock => by
      rw [Sys.InTime, of_decide_eq_true hclock]
      exact overrideConfig_fits)
    hinit (by decide +kernel)
  obtain ⟨hactive, hat, hword⟩ := of_decide_eq_true hp
  obtain ⟨t, ht, hpc⟩ := Option.map_eq_some_iff.mp hat
  obtain ⟨hlatch, hthread⟩ :=
    (recovery_policy_semantics exactPlatform overrideConfig hs).2.2.1 rfl
  refine ⟨s, hs, hword, hlatch, ?_⟩
  intro labels u hpath hsix
  have hrecovers := (((hthread 0 t hactive ht).2.2 _ hpc (by simp)).2 labels u hpath).1
  rw [hsix, hword] at hrecovers
  exact hrecovers

end PyNetFT.Core
