/-
PyNetFT.Bindings.Running — what `running_` means.

`start` sets `running_` last, behind the core's own `start`, and every
path that closes the queue clears it first. So while it is set, the queue
is open and the current run has its receive thread. `read` and
`wait_for_first_sample` look at it before anything else, and take from
it that the generation they hold is the one of a run that has begun.
-/
import PyNetFT.Bindings.NativeRuns

namespace PyNetFT.Bindings

open PyNetFT.Lib PyNetFT.Core

/-- What a place of the native call `n` says about `running_`, the queue
and the receive thread of the run. -/
def NativePc.OpenOk (n : Nat) (s : Native) : NativePc → Prop
  | .startClose | .startReset | .startUnwind _ | .startUnwindClose _ | .stopClose | .stopCore
  | .stopAwait => s.running = false
  | .startCore => s.running = false ∧ s.queue.isClosed = false
  | .startAwait => s.running = false ∧ s.queue.isClosed = false ∧
      ∀ call result, s.core.calls (coreId n) = some call → call.pc = .returned result →
        (∃ message, result = .threw message) ∨ s.core.created = s.run.worker + 1
  | .startRun => s.running = false ∧ s.queue.isClosed = false ∧
      s.core.created = s.run.worker + 1
  | _ => True

structure Native.OpenWf (s : Native) : Prop where
  running : s.running = true → s.queue.isClosed = false ∧ s.core.created = s.run.worker + 1
  places : ∀ n call, s.calls n = some call → call.pc.OpenOk n s

/-- A core `start` returns normally with a new receive thread only. -/
theorem callStep_started {config : Config} {core u : Sys} {c : Nat} {call : Call}
    {choice : CallChoice} {result : CallResult} (hpart : call.pc.part = .start)
    (h : callStep config c call choice core = some (.returned result, u)) :
    (∃ message, result = .threw message) ∨ u.created = core.created + 1 := by
  obtain ⟨caller, op, pc⟩ := call
  simp only [callStep, hpart] at h
  cases pc <;> dsimp only [Core.startStep, startDecide] at h <;> (repeat' split at h) <;> cases h
  all_goals first | exact .inl ⟨_, rfl⟩ | exact .inr rfl

section Open

variable {P : Platform} {config : Config} {s s' : Native} {n : Nat} {pc pc' : NativePc}

theorem NativePc.openOk_of_free (h : pc.holds = false) (n : Nat) (s : Native) :
    pc.OpenOk n s := by
  cases pc <;> simp_all [NativePc.holds, NativePc.OpenOk]

theorem NativePc.OpenOk.frame (h : pc.OpenOk n s) (hrunning : s'.running = s.running)
    (hclosed : s'.queue.isClosed = s.queue.isClosed) (hcore : s'.core = s.core)
    (hworker : s'.run.worker = s.run.worker) : pc.OpenOk n s' := by
  cases pc <;> simp only [NativePc.OpenOk, hrunning, hclosed, hcore, hworker] at h ⊢ <;> exact h

/-- While `start` waits for the core, `running_` is off. -/
theorem Native.OpenWf.off_of_await (h : s.OpenWf) {nc : NativeCall} (hn : s.calls n = some nc)
    (hpc : nc.pc = .startAwait) : s.running = false := by
  have hplace := h.places n nc hn
  rw [hpc] at hplace
  exact hplace.1

/-- The core's answer to a native `start`. -/
theorem Native.OpenWf.answer (h : s.OpenWf) (hcalls : s.CallsWf) (hrun : s.RunWf) {l : Label}
    (hstep : s.coreStep P config l = some s') {nc : NativeCall} (hn : s.calls n = some nc)
    (hpc : nc.pc = .startAwait) {call : Call} {result : CallResult}
    (hc : s'.core.calls (coreId n) = some call) (hreturned : call.pc = .returned result) :
    (∃ message, result = .threw message) ∨ s'.core.created = s.run.worker + 1 := by
  have hplace := h.places n nc hn
  have hrunOk := hrun.places n nc hn
  rw [hpc] at hplace hrunOk
  have hcore := (Native.coreStep_cases hstep).1
  -- the answer was there before: no other thread is created meanwhile
  have hstays : s.core.calls (coreId n) = some call →
      (∃ message, result = .threw message) ∨ s'.core.created = s.run.worker + 1 := by
    intro hbefore
    refine (hplace.2.2 call result hbefore hreturned).imp_right ?_
    intro hcreated
    rcases hcalls.created hcore with hsame | ⟨m, mc, armed, hm, hmpc, harmedCall, harmed, -⟩
    · exact hsame.trans hcreated
    · obtain rfl := hcalls.owner_unique hn (by rw [hpc]; rfl) hm (by rw [hmpc]; rfl)
      rw [hbefore] at harmedCall
      cases harmedCall
      rw [hreturned] at harmed
      cases harmed
  cases hcalls.core_calls hstep with
  | same calls => exact hstays (calls ▸ hc)
  | made odd _ after =>
    rw [after, Sys.setCall_calls_of_ne _ _ (odd_ne_coreId odd).symm] at hc
    exact hstays hc
  | collected odd after =>
    rw [after, Sys.setCall_calls_of_ne _ _ (odd_ne_coreId odd).symm] at hc
    exact hstays hc
  | @moved c before choice after u present step hafter =>
    rw [hafter] at hc
    rcases Sys.setCall_cases hc with ⟨rfl, heq⟩ | ⟨-, hold⟩
    · cases heq
      obtain rfl : after = .returned result := hreturned
      obtain ⟨-, hfits, mc, hm, hawaits⟩ := hcalls.waits n before present
      obtain rfl : nc = mc := Option.some.inj (hn.symm.trans hm)
      have hpart : before.pc.part = .start := by
        rcases hfits with hfits | ⟨result', hdone⟩
        · rcases NativePc.eq_of_awaits hawaits with ⟨-, hstart⟩ | ⟨hstop, -⟩
          · exact hfits.trans hstart
          · rw [hpc] at hstop
            cases hstop
        · simp [callStep, hdone, CallPc.part, otherStep] at step
      refine (callStep_started hpart step).imp_right ?_
      intro hcreated
      have hfresh : s.core.created = s.run.worker := by
        rcases hrunOk with hfresh | ⟨call', hc', hdone⟩
        · exact hfresh
        · rw [present] at hc'
          cases hc'
          simp [callStep, hdone, CallPc.part, otherStep] at step
      rw [hafter]
      exact hcreated.trans (congrArg (· + 1) hfresh)
    · exact hstays (callMove_calls (callStep_move step) ▸ hold)

theorem Native.OpenWf.core (h : s.OpenWf) (hcalls : s.CallsWf) (hrun : s.RunWf) {l : Label}
    (hstep : s.coreStep P config l = some s') : s'.OpenWf := by
  obtain ⟨hcore, -⟩ := Native.coreStep_cases hstep
  obtain ⟨-, hsame, hrunning, -, hworker, hclosed, -⟩ := Native.coreStep_control hstep
  constructor
  · rw [hrunning, hclosed, hworker]
    intro hon
    obtain ⟨hopen, hcreated⟩ := h.running hon
    refine ⟨hopen, ?_⟩
    rcases hcalls.created hcore with hkept | ⟨m, mc, -, hm, hmpc, -⟩
    · exact hkept.trans hcreated
    · rw [h.off_of_await hm hmpc] at hon
      cases hon
  · rw [hsame]
    intro m mc hm
    have hplace := h.places m mc hm
    cases hpc : mc.pc with
    | startClose | startReset | startUnwind | startUnwindClose | stopClose | stopCore | stopAwait =>
      rw [hpc] at hplace
      exact hrunning.trans hplace
    | startCore =>
      rw [hpc] at hplace
      exact ⟨hrunning.trans hplace.1, hclosed.trans hplace.2⟩
    | startAwait =>
      rw [hpc] at hplace
      refine ⟨hrunning.trans hplace.1, hclosed.trans hplace.2.1, ?_⟩
      intro call result hc hreturned
      rw [hworker]
      exact h.answer hcalls hrun hstep hm hpc hc hreturned
    | startRun =>
      rw [hpc] at hplace
      refine ⟨hrunning.trans hplace.1, hclosed.trans hplace.2.1, ?_⟩
      rw [hworker, hcalls.created_of_holds hcore hm (by rw [hpc]; rfl) (by simp [hpc])]
      exact hplace.2.2
    | _ => trivial

/-- A step of the call `n` that leaves the others alone. -/
theorem Native.OpenWf.of_frame (h : s.OpenWf) {after : Option NativeCall}
    (hcalls : s'.calls = s.calls)
    (hothers : ∀ m mc, m ≠ n → s.calls m = some mc → mc.pc.OpenOk m s → mc.pc.OpenOk m s')
    (hmine : ∀ c, after = some c → c.pc.OpenOk n s')
    (hrunning : s'.running = true →
      s'.queue.isClosed = false ∧ s'.core.created = s'.run.worker + 1) :
    (s'.setCall n after).OpenWf := by
  refine ⟨hrunning, ?_⟩
  intro m mc hm
  have hplace : mc.pc.OpenOk m s' := by
    rcases Native.setCall_cases hm with ⟨rfl, heq⟩ | ⟨hne, hold⟩
    · exact hmine mc heq
    · rw [hcalls] at hold
      exact hothers m mc hne hold (h.places m mc hold)
  exact hplace.frame rfl rfl rfl rfl

theorem Native.OpenWf.call (h : s.OpenWf) (hcalls : s.CallsWf)
    {call : NativeCall} (hn : s.calls n = some call) (hmove : NativeMove n s call.pc pc' s') :
    (s'.setCall n (some { call with pc := pc' })).OpenWf := by
  obtain ⟨-, hcreated⟩ := hcalls.threads hmove
  obtain ⟨op, pc⟩ := call
  dsimp only at hmove hn ⊢
  have hplace := h.places n _ hn
  dsimp only at hplace
  -- the owner of the lock is alone
  have halone : ∀ {u : Native}, pc.holds = true → ∀ m mc, m ≠ n → s.calls m = some mc →
      mc.pc.OpenOk m s → mc.pc.OpenOk m u := fun hholds m mc hne hm _ =>
    NativePc.openOk_of_free (hcalls.others_free hn hholds hm hne) _ _
  have hoff : ∀ {u : Native}, u.running = false → u.running = true →
      u.queue.isClosed = false ∧ u.core.created = u.run.worker + 1 := by
    intro u hno hyes
    rw [hno] at hyes
    cases hyes
  cases hmove with
  | look before after =>
    refine h.of_frame rfl (fun _ _ _ _ => id) ?_ h.running
    rintro c ⟨⟩
    exact NativePc.openOk_of_free (NativePc.of_read after).1 _ _
  | take front free current same =>
    refine h.of_frame rfl (fun m mc _ _ hm => hm.frame rfl same.1 rfl rfl) ?_ ?_
    · rintro c ⟨⟩
      trivial
    · intro hon
      exact ⟨same.1.trans free, (h.running hon).2⟩
  | enter free place =>
    refine h.of_frame rfl (fun m mc _ _ hm => hm.frame rfl rfl rfl rfl) ?_ h.running
    rintro c ⟨⟩
    rcases place with ⟨-, rfl⟩ | ⟨-, rfl⟩ <;> trivial
  | already =>
    refine h.of_frame rfl (halone rfl) ?_ h.running
    rintro c ⟨⟩
    trivial
  | begin idle =>
    refine h.of_frame rfl (halone rfl) ?_ h.running
    rintro c ⟨⟩
    trivial
  | halt place =>
    have hholds : pc.holds = true := by
      rcases place with ⟨rfl, -⟩ | ⟨rfl, -⟩ | ⟨message, rfl, -⟩ <;> rfl
    refine h.of_frame rfl (halone hholds) ?_ (hoff rfl)
    rintro c ⟨⟩
    rcases place with ⟨-, rfl⟩ | ⟨-, rfl⟩ | ⟨message, -, rfl⟩ <;> rfl
  | close place =>
    rcases place with ⟨rfl, rfl⟩ | ⟨rfl, rfl⟩
    · refine h.of_frame rfl (halone rfl) ?_ (hoff hplace)
      rintro c ⟨⟩
      exact hplace
    · refine h.of_frame rfl (halone rfl) ?_ (hoff hplace)
      rintro c ⟨⟩
      exact hplace
  | reset =>
    refine h.of_frame rfl (halone rfl) ?_ (hoff hplace)
    rintro c ⟨⟩
    exact ⟨hplace, rfl⟩
  | call place invoke =>
    rcases place with ⟨rfl, rfl, rfl⟩ | ⟨rfl, rfl, rfl⟩
    · refine h.of_frame rfl (halone rfl) ?_ (hoff hplace.1)
      rintro c ⟨⟩
      refine ⟨hplace.1, hplace.2, ?_⟩
      intro k result hk hreturned
      rw [(invoke_outside invoke).2, Sys.setCall_calls_self] at hk
      cases hk
      cases hreturned
    · refine h.of_frame rfl (halone rfl) ?_ (hoff hplace)
      rintro c ⟨⟩
      exact hplace
  | started returned collect accepted =>
    refine h.of_frame rfl (halone rfl) ?_ (hoff hplace.1)
    rintro c ⟨⟩
    refine ⟨hplace.1, hplace.2.1, hcreated.trans ?_⟩
    rcases hplace.2.2 _ _ returned rfl with ⟨message, hthrew⟩ | hnew
    · exact absurd hthrew (accepted message)
    · exact hnew
  | failed =>
    refine h.of_frame rfl (halone rfl) ?_ (hoff hplace.1)
    rintro c ⟨⟩
    exact hplace.1
  | run =>
    refine h.of_frame rfl (halone rfl) ?_ (fun _ => hplace.2)
    rintro c ⟨⟩
    trivial
  | unwind =>
    refine h.of_frame rfl (halone rfl) ?_ (hoff hplace)
    rintro c ⟨⟩
    trivial
  | stopped =>
    refine h.of_frame rfl (halone rfl) ?_ (hoff hplace)
    rintro c ⟨⟩
    trivial

theorem Native.OpenWf.step (h : s.OpenWf) (hcalls : s.CallsWf) (hrun : s.RunWf)
    {l : NativeLabel} (hstep : s.step P config l = some s') : s'.OpenWf := by
  cases Native.step_move hstep with
  | core step => exact h.core hcalls hrun step
  | @invoke n op free =>
    refine h.of_frame rfl (fun _ _ _ _ => id) ?_ h.running
    rintro c ⟨⟩
    exact NativePc.openOk_of_free op.entry_free _ _
  | call present move => exact h.call hcalls present move
  | collect => exact h.of_frame rfl (fun _ _ _ _ => id) (by simp) h.running

theorem openWf_of_reachable (h : (nativeLts P config).Reachable s) : s.OpenWf := by
  refine Lts.Reach.invariant_using (K := fun s => s.CallsWf ∧ s.RunWf) ?_ ?_ ?_ h
  · exact fun s hs => ⟨callsWf_of_reachable hs, runWf_of_reachable hs⟩
  · rintro s ⟨clock, capacity, queue, -, -, rfl⟩
    exact ⟨by simp, by simp⟩
  · exact fun s l t _ hstep hK _ hs => hs.step hK.1 hK.2 hstep

end Open

end PyNetFT.Bindings
