/-
PyNetFT.Bindings.NativeRuns — which receive thread belongs to which run.

A run begins when `start` resets the queue, before the core creates the
receive thread. At that moment every older thread is on its way out: the
client was stopped, or it was never running, or its fault latch is set.
So from then on only the run's own thread can push, and that stays true
whatever the readers, a failing `start` or a late `stop` do.
-/
import PyNetFT.Bindings.NativeTheorems

namespace PyNetFT.Bindings

open PyNetFT.Lib PyNetFT.Core

/-! ## The thread of the current run -/

/-- What a place of the native call `n` says about the current run. -/
def NativePc.RunOk (n : Nat) (s : Native) : NativePc → Prop
  | .startHalt | .startClose => s.core.LateBelow s.core.created
  | .startReset => s.core.LateBelow s.core.created ∧ s.queue.isClosed = true
  | .startCore | .startUnwind _ | .startUnwindClose _ => s.core.created = s.run.worker
  | .startAwait => s.core.created = s.run.worker ∨
      ∃ call, s.core.calls (coreId n) = some call ∧ call.pc = .returned .done
  | .stopAwait => ∀ call result, s.core.calls (coreId n) = some call →
      call.pc = .returned result → s.core.LateBelow s.core.created
  | _ => True

structure Native.RunWf (s : Native) : Prop where
  lower : s.run.worker ≤ s.core.created
  upper : s.core.created ≤ s.run.worker + 1
  old : s.core.LateBelow s.run.worker
  places : ∀ n call, s.calls n = some call → call.pc.RunOk n s
  idle : s.running = false → (∀ n call, s.calls n = some call → call.pc.busy = false) →
    s.core.LateBelow s.core.created

section Runs

variable {P : Platform} {config : Config} {s s' : Native} {n : Nat} {pc pc' : NativePc}

theorem NativePc.runOk_of_free (h : pc.holds = false) (n : Nat) (s : Native) : pc.RunOk n s := by
  cases pc <;> simp_all [NativePc.holds, NativePc.RunOk]

theorem NativePc.eq_of_awaits {op : Op} (h : pc.awaits = some op) :
    pc = .startAwait ∧ op.entry.part = .start ∨ pc = .stopAwait ∧ op.entry.part = .stop := by
  cases pc <;> cases h
  · exact .inl ⟨rfl, rfl⟩
  · exact .inr ⟨rfl, rfl⟩

theorem NativePc.RunOk.frame (h : pc.RunOk n s) (hcore : s'.core = s.core)
    (hworker : s'.run.worker = s.run.worker) (hclosed : s'.queue.isClosed = s.queue.isClosed) :
    pc.RunOk n s' := by
  cases pc <;> simp only [NativePc.RunOk, hcore, hworker, hclosed] at h ⊢ <;> exact h

/-- A core `start` belongs to a native one. -/
theorem Native.CallsWf.starting (h : s.CallsWf) {c : Nat} {call : Call}
    (hc : s.core.calls c = some call) (hpart : call.pc.part = .start) :
    ∃ n nc, c = coreId n ∧ s.calls n = some nc ∧ nc.pc = .startAwait := by
  rcases Nat.mod_two_eq_zero_or_one c with heven | hodd
  · obtain ⟨n, rfl⟩ : ∃ n, c = coreId n := ⟨c / 2, by unfold coreId; omega⟩
    obtain ⟨-, hfits, nc, hnc, hawaits⟩ := h.waits n call hc
    refine ⟨n, nc, rfl, hnc, ?_⟩
    have hentry : call.op.entry.part = .start := by
      rcases hfits with hfits | ⟨result, hreturned⟩
      · exact hfits.symm.trans hpart
      · rw [hreturned] at hpart
        cases hpart
    rcases NativePc.eq_of_awaits hawaits with ⟨hpc, -⟩ | ⟨-, hstop⟩
    · exact hpc
    · rw [hentry] at hstop
      cases hstop
  · rw [(h.others c call hodd hc).2] at hpart
    cases hpart

/-- The core creates threads for a native `start` only. -/
theorem Native.CallsWf.armed (h : s.CallsWf) {c : Nat} {call : Call}
    (hc : s.core.calls c = some call) (harmed : call.pc.armed = true) :
    ∃ n nc, c = coreId n ∧ s.calls n = some nc ∧ nc.pc = .startAwait := by
  refine h.starting hc ?_
  cases hpc : call.pc <;> rw [hpc] at harmed <;> first | rfl | cases harmed

/-- A core step that creates a thread is the last one of the native
`start` that owns the lock. -/
theorem Native.CallsWf.created (h : s.CallsWf) {core : Sys} {l : Label}
    (hstep : s.core.step P config l = some core) :
    core.created = s.core.created ∨ ∃ n nc call, s.calls n = some nc ∧ nc.pc = .startAwait ∧
      s.core.calls (coreId n) = some call ∧ call.pc.armed = true ∧
      core.calls (coreId n) = some { call with pc := .returned .done } ∧
      core.created = s.core.created + 1 := by
  rcases created_step hstep with hsame | ⟨c, call, hc, harmed, hreturned, hcreated⟩
  · exact .inl hsame
  · obtain ⟨n, nc, rfl, hnc, hpc⟩ := h.armed hc harmed
    exact .inr ⟨n, nc, call, hnc, hpc, hc, harmed, hreturned, hcreated⟩

/-- While a call other than a waiting `start` owns the lock, no thread is
created. -/
theorem Native.CallsWf.created_of_holds (h : s.CallsWf) {core : Sys} {l : Label}
    (hstep : s.core.step P config l = some core) {call : NativeCall} (hn : s.calls n = some call)
    (hholds : call.pc.holds = true) (hpc : call.pc ≠ .startAwait) :
    core.created = s.core.created := by
  rcases h.created hstep with hsame | ⟨m, mc, -, hm, hmpc, -⟩
  · exact hsame
  · obtain rfl := h.owner_unique hn hholds hm (by rw [hmpc]; rfl)
    rw [hn] at hm
    cases hm
    exact absurd hmpc hpc

/-- A core call that a native call waits for stays once it has returned. -/
theorem Native.CallsWf.returned_stays (h : s.CallsWf) {l : Label}
    (hstep : s.coreStep P config l = some s') {call : Call} {result : CallResult}
    (hc : s.core.calls (coreId n) = some call) (hpc : call.pc = .returned result) :
    s'.core.calls (coreId n) = some call := by
  cases h.core_calls hstep with
  | same calls => rw [calls, hc]
  | made odd _ after =>
    rw [after, Sys.setCall_calls_of_ne _ _ (odd_ne_coreId odd).symm, hc]
  | collected odd after =>
    rw [after, Sys.setCall_calls_of_ne _ _ (odd_ne_coreId odd).symm, hc]
  | @moved c call' choice pc' u present step after =>
    have hne : coreId n ≠ c := by
      rintro rfl
      rw [hc] at present
      cases present
      simp [callStep, hpc, CallPc.part, otherStep] at step
    rw [after, Sys.setCall_calls_of_ne _ _ hne, callMove_calls (callStep_move step), hc]

/-- The core facts that hold in every state of a native client. -/
structure Core.CoreOk (core : Sys) : Prop where
  wf : core.Wf
  session : core.SessionWf
  fault : core.FaultWf

theorem coreOk_of_reachable (h : (nativeLts P config).Reachable s) : Core.CoreOk s.core := by
  have hcore := (native_simulates P config).reachable h
  exact ⟨wf_of_reachable hcore, sessionWf_of_reachable hcore, faultWf_of_reachable hcore⟩

/-- A core `stop` that has just returned leaves every thread behind. -/
theorem Native.CallsWf.stop_returns (h : s.CallsWf) (hok : Core.CoreOk s.core) {l : Label}
    (hstep : s.coreStep P config l = some s') {nc : NativeCall} (hn : s.calls n = some nc)
    (hpc : nc.pc = .stopAwait) {call : Call} {result : CallResult}
    (hc : s'.core.calls (coreId n) = some call) (hreturned : call.pc = .returned result) :
    (∃ before, s.core.calls (coreId n) = some before ∧ before.pc = .returned result) ∨
      s'.core.Quiescent := by
  cases h.core_calls hstep with
  | same calls => exact .inl ⟨call, calls ▸ hc, hreturned⟩
  | made odd _ after =>
    rw [after, Sys.setCall_calls_of_ne _ _ (odd_ne_coreId odd).symm] at hc
    exact .inl ⟨call, hc, hreturned⟩
  | collected odd after =>
    rw [after, Sys.setCall_calls_of_ne _ _ (odd_ne_coreId odd).symm] at hc
    exact .inl ⟨call, hc, hreturned⟩
  | @moved c before choice pc' u present step after =>
    rw [after] at hc
    rcases Sys.setCall_cases hc with ⟨rfl, heq⟩ | ⟨-, hold⟩
    · cases heq
      obtain rfl : pc' = .returned result := hreturned
      obtain ⟨hcaller, hfits, mc, hm, hawaits⟩ := h.waits n before present
      obtain rfl : nc = mc := Option.some.inj (hn.symm.trans hm)
      have hpart : before.pc.part = .stop := by
        rcases hfits with hfits | ⟨result', hdone⟩
        · rcases NativePc.eq_of_awaits hawaits with ⟨hstart, -⟩ | ⟨-, hstop⟩
          · rw [hpc] at hstart
            cases hstart
          · exact hfits.trans hstop
        · simp [callStep, hdone, CallPc.part, otherStep] at step
      have hcall : s.core.step P config (.call (coreId n) choice) = some s'.core := by
        simp only [Sys.step, present, step, Option.map_some, after]
      have hafter : s'.core.calls (coreId n) = some { before with pc := .returned result } := by
        rw [after, Sys.setCall_calls_self]
      exact .inr (Sys.quiescent_of_stop_returned hok.wf hok.session hok.fault present hpart
        hcaller hcall hafter)
    · rw [callMove_calls (callStep_move step)] at hold
      exact .inl ⟨call, hold, hreturned⟩

/-- A core step leaves the run's thread the only one that is not on its
way out. -/
theorem Native.RunWf.core (h : s.RunWf) (hcalls : s.CallsWf) (hok : Core.CoreOk s.core)
    {l : Label} (hstep : s.coreStep P config l = some s') : s'.RunWf := by
  obtain ⟨hcore, -⟩ := Native.coreStep_cases hstep
  obtain ⟨-, hsame, hrunning, -, hworker, hclosed, -⟩ := Native.coreStep_control hstep
  have hwf' := hok.wf.step hcore
  have hlate : ∀ {m : Nat} {nc : NativeCall}, s.calls m = some nc → nc.pc.holds = true →
      nc.pc ≠ .startAwait → s.core.LateBelow s.core.created →
      s'.core.LateBelow s'.core.created := by
    intro m nc hm hholds hpc hall
    rw [hcalls.created_of_holds hcore hm hholds hpc]
    exact hall.step (Nat.le_refl _) hcore
  have hspawn : s'.core.created = s.core.created ∨
      (s'.core.created = s.run.worker + 1 ∧ ∃ m mc, s.calls m = some mc ∧ mc.pc = .startAwait ∧
        ∃ call, s'.core.calls (coreId m) = some call ∧ call.pc = .returned .done) := by
    rcases hcalls.created hcore with hkept | ⟨m, mc, call, hm, hmpc, hc, harmed, hdone, hcreated⟩
    · exact .inl hkept
    · have hplace := h.places m mc hm
      rw [hmpc] at hplace
      rcases hplace with hfresh | ⟨call', hc', hpc'⟩
      · exact .inr ⟨by rw [hcreated, hfresh], m, mc, hm, hmpc, _, hdone, rfl⟩
      · rw [hc] at hc'
        cases hc'
        rw [hpc'] at harmed
        cases harmed
  refine ⟨?_, ?_, ?_, ?_, ?_⟩
  · rw [hworker]
    rcases hspawn with hkept | ⟨hnew, -⟩
    · rw [hkept]
      exact h.lower
    · omega
  · rw [hworker]
    rcases hspawn with hkept | ⟨hnew, -⟩
    · rw [hkept]
      exact h.upper
    · omega
  · rw [hworker]
    exact h.old.step h.lower hcore
  · rw [hsame]
    intro m mc hm
    have hplace := h.places m mc hm
    cases hpc : mc.pc with
    | startHalt =>
      rw [hpc] at hplace
      exact hlate hm (by rw [hpc]; rfl) (by simp [hpc]) hplace
    | startClose =>
      rw [hpc] at hplace
      exact hlate hm (by rw [hpc]; rfl) (by simp [hpc]) hplace
    | startReset =>
      rw [hpc] at hplace
      exact ⟨hlate hm (by rw [hpc]; rfl) (by simp [hpc]) hplace.1, hclosed.trans hplace.2⟩
    | startCore =>
      rw [hpc] at hplace
      show s'.core.created = s'.run.worker
      rw [hcalls.created_of_holds hcore hm (by rw [hpc]; rfl) (by simp [hpc]), hworker]
      exact hplace
    | startUnwind =>
      rw [hpc] at hplace
      show s'.core.created = s'.run.worker
      rw [hcalls.created_of_holds hcore hm (by rw [hpc]; rfl) (by simp [hpc]), hworker]
      exact hplace
    | startUnwindClose =>
      rw [hpc] at hplace
      show s'.core.created = s'.run.worker
      rw [hcalls.created_of_holds hcore hm (by rw [hpc]; rfl) (by simp [hpc]), hworker]
      exact hplace
    | startAwait =>
      rw [hpc] at hplace
      rcases hplace with hfresh | ⟨call, hc, hdone⟩
      · rcases hspawn with hkept | ⟨-, m', mc', hm', hpc', hdone⟩
        · left
          rw [hkept, hworker]
          exact hfresh
        · right
          rw [hcalls.owner_unique hm (by rw [hpc]; rfl) hm' (by rw [hpc']; rfl)]
          exact hdone
      · exact .inr ⟨call, hcalls.returned_stays hstep hc hdone, hdone⟩
    | stopAwait =>
      rw [hpc] at hplace
      intro call result hc hreturned
      rcases hcalls.stop_returns hok hstep hm hpc hc hreturned with ⟨before, hb, hbpc⟩ | hquiet
      · exact hlate hm (by rw [hpc]; rfl) (by simp [hpc]) (hplace before result hb hbpc)
      · exact lateBelow_of_quiescent hwf' hquiet _
    | _ => trivial
  · rw [hrunning, hsame]
    intro hrun hbusy
    rcases hspawn with hkept | ⟨-, m, mc, hm, hmpc, -⟩
    · rw [hkept]
      exact (h.idle hrun hbusy).step (Nat.le_refl _) hcore
    · have := hbusy m mc hm
      rw [hmpc] at this
      cases this

/-- The other calls after a step of a call that owns the lock. -/
theorem Native.CallsWf.others_free (h : s.CallsWf) {call : NativeCall} (hn : s.calls n = some call)
    (hholds : call.pc.holds = true) {m : Nat} {mc : NativeCall} (hm : s.calls m = some mc)
    (hne : m ≠ n) : mc.pc.holds = false := by
  by_contra hother
  exact hne (h.owner_unique hm (by simpa using hother) hn hholds)

/-- A step of a call at a place that does not count as busy: if nothing
is busy after it, nothing was before. -/
theorem idle_before {call : NativeCall} (hn : s.calls n = some call)
    (hcalls : s'.calls = s.calls) (hpc : call.pc.busy = false)
    (h : ∀ m mc, (s'.setCall n (some { call with pc := pc' })).calls m = some mc →
      mc.pc.busy = false) : ∀ m mc, s.calls m = some mc → mc.pc.busy = false := by
  intro m mc hm
  by_cases heq : m = n
  · subst heq
    rw [hn] at hm
    cases hm
    exact hpc
  · refine h m mc ?_
    rw [Native.setCall_calls_of_ne _ _ heq, hcalls]
    exact hm

/-- A step of the call `n` that creates no thread and begins no run. -/
theorem Native.RunWf.of_frame (h : s.RunWf) {after : Option NativeCall}
    (hcalls : s'.calls = s.calls) (hworkers : s'.core.workers = s.core.workers)
    (hcreated : s'.core.created = s.core.created) (hworker : s'.run.worker = s.run.worker)
    (hothers : ∀ m mc, m ≠ n → s.calls m = some mc → mc.pc.RunOk m s → mc.pc.RunOk m s')
    (hmine : ∀ c, after = some c → c.pc.RunOk n s')
    (hidle : s'.running = false →
      (∀ m mc, (s'.setCall n after).calls m = some mc → mc.pc.busy = false) →
      s.core.LateBelow s.core.created) : (s'.setCall n after).RunWf := by
  have hlate : ∀ {k : Nat}, s.core.LateBelow k → s'.core.LateBelow k := by
    intro k hk w t ht
    rw [hworkers] at ht
    exact hk w t ht
  refine ⟨?_, ?_, ?_, ?_, ?_⟩
  · show s'.run.worker ≤ s'.core.created
    rw [hworker, hcreated]
    exact h.lower
  · show s'.core.created ≤ s'.run.worker + 1
    rw [hworker, hcreated]
    exact h.upper
  · show s'.core.LateBelow s'.run.worker
    rw [hworker]
    exact hlate h.old
  · intro m mc hm
    have hplace : mc.pc.RunOk m s' := by
      rcases Native.setCall_cases hm with ⟨rfl, heq⟩ | ⟨hne, hold⟩
      · exact hmine mc heq
      · rw [hcalls] at hold
        exact hothers m mc hne hold (h.places m mc hold)
    exact hplace.frame rfl rfl rfl
  · intro hrun hbusy
    show s'.core.LateBelow s'.core.created
    rw [hcreated]
    exact hlate (hidle hrun hbusy)

theorem Native.RunWf.late_of_fresh (h : s.RunWf) (hfresh : s.core.created = s.run.worker) :
    s.core.LateBelow s.core.created := by
  rw [hfresh]
  exact h.old

/-- Before `start` begins a run, no thread can still push. -/
theorem Native.RunWf.late_of_begin (h : s.RunWf) (hcalls : s.CallsWf) (hok : Core.CoreOk s.core)
    {op : NativeOp} (hn : s.calls n = some ⟨op, .startCheck⟩)
    (hbegin : s.running = false ∨ s.core.shared.faulted = true) :
    s.core.LateBelow s.core.created := by
  rcases hbegin with hrun | hfault
  · refine h.idle hrun ?_
    intro m mc hm
    by_cases heq : m = n
    · subst heq
      rw [hn] at hm
      cases hm
      rfl
    · by_contra hbusy
      have hfree := hcalls.others_free hn rfl hm heq
      rw [NativePc.holds_of_busy (by simpa using hbusy)] at hfree
      cases hfree
  · exact lateBelow_of_faulted hok.wf hok.fault hfault _

theorem NativePc.of_read (h : pc.part = .read) : pc.holds = false ∧ pc.busy = false := by
  cases pc <;> simp_all [NativePc.part, NativePc.holds, NativePc.busy]

/-- A core call made or taken off leaves the threads alone. -/
theorem Native.CallsWf.threads (h : s.CallsWf) (hmove : NativeMove n s pc pc' s') :
    s'.core.workers = s.core.workers ∧ s'.core.created = s.core.created := by
  rcases hmove.core with hsame | ⟨op, hinvoke⟩ | hcollect
  · rw [hsame]
    exact ⟨rfl, rfl⟩
  · rw [(invoke_outside hinvoke).2]
    exact ⟨rfl, rfl⟩
  · rw [collect_outside (fun c hc => (h.waits n c hc).1) hcollect]
    exact ⟨rfl, rfl⟩

/-- `start` begins a run once every thread is on its way out. -/
theorem Native.RunWf.reset (h : s.RunWf) (hcalls : s.CallsWf) {op : NativeOp}
    (hn : s.calls n = some ⟨op, .startReset⟩) :
    (s.resetQueue.setCall n (some ⟨op, .startCore⟩)).RunWf := by
  obtain ⟨hlate, -⟩ := h.places n _ hn
  refine ⟨Nat.le_refl _, Nat.le_succ _, hlate, ?_, fun _ _ => hlate⟩
  intro m mc hm
  rcases Native.setCall_cases hm with ⟨rfl, heq⟩ | ⟨hne, hold⟩
  · cases heq
    rfl
  · exact NativePc.runOk_of_free (hcalls.others_free hn rfl hold hne) _ _

/-- A step of a native call, other than the one that begins a run, leaves
the run's thread alone. -/
theorem Native.RunWf.call (h : s.RunWf) (hcalls : s.CallsWf) (hok : Core.CoreOk s.core)
    {call : NativeCall} (hn : s.calls n = some call)
    (hmove : NativeMove n s call.pc pc' s') :
    (s'.setCall n (some { call with pc := pc' })).RunWf := by
  obtain ⟨hsame, -⟩ := hmove.lock
  obtain ⟨hworkers, hcreated⟩ := hcalls.threads hmove
  obtain ⟨op, pc⟩ := call
  dsimp only at hmove hn ⊢
  have hplace := h.places n _ hn
  dsimp only at hplace
  -- the owner of the lock is alone, so what it does to core and queue concerns no other call
  have halone : ∀ {u : Native}, pc.holds = true → ∀ m mc, m ≠ n → s.calls m = some mc →
      mc.pc.RunOk m s → mc.pc.RunOk m u := fun hholds m mc hne hm _ =>
    NativePc.runOk_of_free (hcalls.others_free hn hholds hm hne) _ _
  have hbusy : ∀ {u : Native} {c : NativeCall}, c.pc.busy = true → u.running = false →
      (∀ m mc, (u.setCall n (some c)).calls m = some mc → mc.pc.busy = false) →
      s.core.LateBelow s.core.created := by
    intro u c hc _ hall
    have := hall n c (Native.setCall_calls_self _ _ _)
    rw [hc] at this
    cases this
  cases hmove with
  | look before after =>
    refine h.of_frame rfl rfl rfl rfl (fun _ _ _ _ => id) ?_ ?_
    · rintro c ⟨⟩
      exact NativePc.runOk_of_free (NativePc.of_read after).1 _ _
    · exact fun hrun hall => h.idle hrun (idle_before hn rfl (NativePc.of_read before.1).2 hall)
  | take front free current same =>
    refine h.of_frame rfl rfl rfl rfl ?_ ?_ ?_
    · exact fun m mc _ _ hm => hm.frame rfl rfl same.1
    · rintro c ⟨⟩
      trivial
    · exact fun hrun hall => h.idle hrun (idle_before hn rfl rfl hall)
  | enter free place =>
    have hnobody : ∀ m mc, m ≠ n → s.calls m = some mc → mc.pc.RunOk m s →
        mc.pc.RunOk m { s with lock := some n } :=
      fun m mc _ _ hm => hm.frame rfl rfl rfl
    rcases place with ⟨rfl, rfl⟩ | ⟨rfl, rfl⟩
    · refine h.of_frame rfl rfl rfl rfl hnobody ?_ ?_
      · rintro c ⟨⟩
        trivial
      · exact fun hrun hall => h.idle hrun (idle_before hn rfl rfl hall)
    · refine h.of_frame rfl rfl rfl rfl hnobody ?_ ?_
      · rintro c ⟨⟩
        trivial
      · exact fun hrun hall => h.idle hrun (idle_before hn rfl rfl hall)
  | already =>
    refine h.of_frame rfl rfl rfl rfl (halone rfl) ?_ ?_
    · rintro c ⟨⟩
      trivial
    · exact fun hrun hall => h.idle hrun (idle_before hn rfl rfl hall)
  | begin idle =>
    have hlate := h.late_of_begin hcalls hok hn idle
    refine h.of_frame rfl rfl rfl rfl (halone rfl) ?_ (fun _ _ => hlate)
    rintro c ⟨⟩
    exact hlate
  | halt place =>
    rcases place with ⟨rfl, rfl⟩ | ⟨rfl, rfl⟩ | ⟨message, rfl, rfl⟩
    · refine h.of_frame rfl rfl rfl rfl (halone rfl) ?_ (fun _ _ => hplace)
      rintro c ⟨⟩
      exact hplace
    · refine h.of_frame rfl rfl rfl rfl (halone rfl) ?_ (hbusy rfl)
      rintro c ⟨⟩
      trivial
    · refine h.of_frame rfl rfl rfl rfl (halone rfl) ?_ (fun _ _ => h.late_of_fresh hplace)
      rintro c ⟨⟩
      exact hplace
  | close place =>
    rcases place with ⟨rfl, rfl⟩ | ⟨rfl, rfl⟩
    · refine h.of_frame rfl rfl rfl rfl (halone rfl) ?_ (fun _ _ => hplace)
      rintro c ⟨⟩
      exact ⟨hplace, rfl⟩
    · refine h.of_frame rfl rfl rfl rfl (halone rfl) ?_ (hbusy rfl)
      rintro c ⟨⟩
      trivial
  | reset => exact h.reset hcalls hn
  | call place invoke =>
    rcases place with ⟨rfl, rfl, rfl⟩ | ⟨rfl, rfl, rfl⟩
    · refine h.of_frame rfl hworkers hcreated rfl (halone rfl) ?_ (hbusy rfl)
      rintro c ⟨⟩
      exact .inl (hcreated.trans hplace)
    · refine h.of_frame rfl hworkers hcreated rfl (halone rfl) ?_ (hbusy rfl)
      rintro c ⟨⟩
      intro k result hk hreturned
      rw [(invoke_outside invoke).2, Sys.setCall_calls_self] at hk
      cases hk
      cases hreturned
  | started =>
    refine h.of_frame rfl hworkers hcreated rfl (halone rfl) ?_ (hbusy rfl)
    rintro c ⟨⟩
    trivial
  | failed returned collect =>
    have hfresh : s.core.created = s.run.worker := by
      rcases hplace with hfresh | ⟨k, hk, hdone⟩
      · exact hfresh
      · rw [returned] at hk
        cases hk
        cases hdone
    refine h.of_frame rfl hworkers hcreated rfl (halone rfl) ?_
      (fun _ _ => h.late_of_fresh hfresh)
    rintro c ⟨⟩
    exact hcreated.trans hfresh
  | run =>
    refine h.of_frame rfl rfl rfl rfl (halone rfl) ?_ (fun hrun => by cases hrun)
    rintro c ⟨⟩
    trivial
  | unwind =>
    refine h.of_frame rfl rfl rfl rfl (halone rfl) ?_ (fun _ _ => h.late_of_fresh hplace)
    rintro c ⟨⟩
    trivial
  | stopped returned collect =>
    refine h.of_frame rfl hworkers hcreated rfl (halone rfl) ?_
      (fun _ _ => hplace _ _ returned rfl)
    rintro c ⟨⟩
    trivial

theorem Native.RunWf.step (h : s.RunWf) (hcalls : s.CallsWf) (hok : Core.CoreOk s.core)
    {l : NativeLabel} (hstep : s.step P config l = some s') : s'.RunWf := by
  cases Native.step_move hstep with
  | core step => exact h.core hcalls hok step
  | @invoke n op free =>
    refine h.of_frame rfl rfl rfl rfl (fun _ _ _ _ => id) ?_ ?_
    · rintro c ⟨⟩
      exact NativePc.runOk_of_free op.entry_free _ _
    · intro hrun hall
      refine h.idle hrun ?_
      intro m mc hm
      refine hall m mc ?_
      rw [Native.setCall_calls_of_ne _ _ (by rintro rfl; rw [free] at hm; cases hm)]
      exact hm
  | call present move => exact h.call hcalls hok present move
  | @collect n op result present =>
    refine h.of_frame rfl rfl rfl rfl (fun _ _ _ _ => id) (by simp) ?_
    intro hrun hall
    refine h.idle hrun ?_
    intro m mc hm
    by_cases heq : m = n
    · subst heq
      rw [present] at hm
      cases hm
      rfl
    · refine hall m mc ?_
      rw [Native.setCall_calls_of_ne _ _ heq]
      exact hm

theorem runWf_of_reachable (h : (nativeLts P config).Reachable s) : s.RunWf := by
  refine Lts.Reach.invariant_using (K := fun s => s.CallsWf ∧ Core.CoreOk s.core) ?_ ?_ ?_ h
  · exact fun s hs => ⟨callsWf_of_reachable hs, coreOk_of_reachable hs⟩
  · rintro s ⟨clock, capacity, queue, -, -, rfl⟩
    refine ⟨Nat.le_refl _, Nat.zero_le _, ?_, by simp, ?_⟩
    · intro w t ht
      cases ht
    · intro _ _ w t ht
      cases ht
  · exact fun s l t _ hstep hK _ hs => hs.step hK.1 hK.2 hstep

end Runs

end PyNetFT.Bindings
