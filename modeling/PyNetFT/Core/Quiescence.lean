/-
PyNetFT.Core.Quiescence — what holds once a `stop` from outside the
receive thread has returned.

Two more invariants are needed on top of the lifecycle: the fault latch
and `health_.state` say the same thing, except while a failing `start`
puts the old values back one by one; and a latched fault finds its
thread on the way out. From these a returned `stop` leaves a state that
no step changes until the next `start`.
-/
import PyNetFT.Core.Sessions

namespace PyNetFT.Core

open PyNetFT.Lib

/-! ## The latch and the state -/

/-- The phases of a thread that is on its way out. -/
def Phase.late : Phase → Bool
  | .finishing | .closed | .exited | .done => true
  | _ => false

/-- A failing `start` has put the health record back but not the latch. -/
def CallPc.restored : CallPc → Bool
  | .rollbackLatch _ _ _ | .rollbackPublish _ _ _ => true
  | _ => false

/-- What the reset section of `start` knows about fault and state. -/
def CallPc.FaultOk (s : Shared) : CallPc → Prop
  | .startSaved _ k => k.fault = s.faultLatch
  | .startReset _ k d | .startArmed k d | .rollbackRecord k d _ | .rollbackData k d _ =>
      s.faultLatch = .none ∧ s.health.state ≠ .faulted ∧
        (d.health.state = .faulted ↔ k.fault ≠ .none)
  | .rollbackLatch k d _ | .rollbackPublish k d _ =>
      s.faultLatch = .none ∧ s.health = d.health ∧
        (d.health.state = .faulted ↔ k.fault ≠ .none)
  | _ => True

structure Sys.FaultWf (s : Sys) : Prop where
  latched : s.shared.faultLatch ≠ .none → s.shared.health.state = .faulted
  faulted : s.shared.health.state = .faulted → s.shared.faultLatch ≠ .none ∨
    ∃ c call, s.calls c = some call ∧ call.pc.restored = true
  late : s.shared.faultLatch ≠ .none → ∀ w t, s.shared.activeWorkerId = some w →
    s.workers w = some t → t.pc.phase.late = true
  named : ∀ w t code message, s.workers w = some t → t.pc = .latchFault code message →
    code ≠ .none
  calls : ∀ c call, s.calls c = some call → call.pc.FaultOk s.shared

/-- The two members the invariant is about. -/
structure Shared.SameFault (s s' : Shared) : Prop where
  latch : s'.faultLatch = s.faultLatch
  health : s'.health = s.health

theorem Shared.SameFault.refl (s : Shared) : s.SameFault s := ⟨rfl, rfl⟩

theorem CallPc.FaultOk.frame {pc : CallPc} {s s' : Shared} (h : pc.FaultOk s)
    (hs : s.SameFault s') : pc.FaultOk s' := by
  cases pc <;> simp only [CallPc.FaultOk, hs.latch, hs.health] at h ⊢ <;> exact h

theorem CallPc.faultOk_of_plain {pc : CallPc} (h : pc.resets = false) (s : Shared) :
    pc.FaultOk s := by
  cases pc <;> trivial

theorem CallPc.restored_false_of_resets {pc : CallPc} (h : pc.resets = false) :
    pc.restored = false := by
  cases pc <;> trivial

theorem CallPc.resets_of_restored {pc : CallPc} (h : pc.restored = true) : pc.resets = true := by
  cases pc <;> simp_all [CallPc.restored, CallPc.resets]

section System

variable {P : Platform} {config : Config} {s s' : Sys}

theorem Sys.faultWf_new (config : Config) (clock : TimePoint) :
    (Sys.new config clock).FaultWf where
  latched := by simp [Sys.new, Impl.new]
  faulted := by simp [Sys.new, Impl.new]
  late := by simp [Sys.new]
  named := by simp [Sys.new]
  calls := by simp [Sys.new]

/-- Outside the reset section the two say the same. -/
theorem Sys.FaultWf.state_iff (h : s.FaultWf)
    (hquiet : ∀ c call, s.calls c = some call → call.pc.restored = false) :
    s.shared.health.state = .faulted ↔ s.shared.faultLatch ≠ .none := by
  refine ⟨fun hstate => ?_, h.latched⟩
  rcases h.faulted hstate with hlatch | ⟨c, call, hc, hpc⟩
  · exact hlatch
  · rw [hquiet c call hc] at hpc
    cases hpc

/-- Latch and health unchanged, threads unmoved, and the moving call's new
place in order. -/
theorem Sys.FaultWf.call_same (h : s.FaultWf) {c : Nat} {call : Call} {pc' : CallPc}
    (hc : s.calls c = some call) (hcalls : s'.calls = s.calls)
    (hs : s.shared.SameFault s'.shared)
    (hactive : s'.shared.activeWorkerId = s.shared.activeWorkerId ∨
      s'.shared.activeWorkerId = none)
    (hworkers : s'.workers = s.workers)
    (hpc : call.pc.restored = true → pc'.restored = true) (hpc' : pc'.FaultOk s'.shared) :
    (s'.setCall c (some { call with pc := pc' })).FaultWf where
  latched := by
    simp only [Sys.setCall_shared, hs.latch, hs.health]
    exact h.latched
  faulted := by
    simp only [Sys.setCall_shared, hs.latch, hs.health]
    intro hstate
    rcases h.faulted hstate with hlatch | ⟨k, call', hk, hrest⟩
    · exact .inl hlatch
    · refine .inr ?_
      by_cases hkc : k = c
      · subst hkc
        rw [hc] at hk
        cases hk
        exact ⟨k, _, Sys.setCall_calls_self _ _ _, hpc hrest⟩
      · exact ⟨k, call', by rw [Sys.setCall_calls_of_ne _ _ hkc, hcalls]; exact hk, hrest⟩
  late := by
    simp only [Sys.setCall_shared, Sys.setCall_workers, hs.latch, hworkers]
    intro hlatch w t hw ht
    rcases hactive with hsame | hnone
    · exact h.late hlatch w t (hsame ▸ hw) ht
    · rw [hnone] at hw
      cases hw
  named := by
    simp only [Sys.setCall_workers, hworkers]
    exact h.named
  calls := by
    intro k call' hk
    rcases Sys.setCall_cases hk with ⟨rfl, heq⟩ | ⟨-, hk⟩
    · cases heq
      exact hpc'
    · rw [hcalls] at hk
      exact (h.calls k call' hk).frame hs

/-- A section under the lifecycle lock that writes latch or health. There
is no running thread, and no other call is in its reset section. -/
theorem Sys.FaultWf.call_writes (h : s.FaultWf) (hwf : s.Wf) {c : Nat} {call : Call}
    {pc' : CallPc} (hc : s.calls c = some call) (hcalls : s'.calls = s.calls)
    (hfree : call.pc.holds = true ∨ s.lifecycle = none)
    (hworkers : s'.workers = s.workers) (hactive : s'.shared.activeWorkerId = none)
    (hlatched : s'.shared.faultLatch ≠ .none → s'.shared.health.state = .faulted)
    (hfaulted : s'.shared.health.state = .faulted →
      s'.shared.faultLatch ≠ .none ∨ pc'.restored = true)
    (hpc' : pc'.FaultOk s'.shared) :
    (s'.setCall c (some { call with pc := pc' })).FaultWf where
  latched := hlatched
  faulted := by
    intro hstate
    rcases hfaulted hstate with hlatch | hrest
    · exact .inl hlatch
    · exact .inr ⟨c, _, Sys.setCall_calls_self _ _ _, hrest⟩
  late := by
    intro _ w t hw
    rw [Sys.setCall_shared, hactive] at hw
    cases hw
  named := by
    simp only [Sys.setCall_workers, hworkers]
    exact h.named
  calls := by
    intro k call' hk
    rcases Sys.setCall_cases hk with ⟨rfl, heq⟩ | ⟨hne, hk⟩
    · cases heq
      exact hpc'
    · rw [hcalls] at hk
      exact CallPc.faultOk_of_plain
        (CallPc.resets_false_of_holds (hwf.others_free hc hfree hk hne)) _

theorem bias_health (s : Shared) (first second : SendEvent) :
    s.SameFault (s.bias first second).1 := by
  unfold Shared.bias
  split
  · exact .refl s
  · dsimp only
    split
    · exact ⟨rfl, rfl⟩
    · split
      · exact ⟨rfl, rfl⟩
      · exact ⟨rfl, rfl⟩

theorem stopCommand_health (s : Shared) (event : SendEvent) :
    s.SameFault (s.stopCommand event) := by
  unfold Shared.stopCommand Shared.stopStreaming
  split
  · exact ⟨rfl, rfl⟩
  · exact ⟨rfl, rfl⟩

/-- `Stopped`, or `Faulted` exactly when the latch is set. -/
def Shared.Settled (s : Shared) : Prop :=
  s.health.state = if s.faultLatch ≠ .none then .faulted else .stopped

theorem Shared.Settled.latched {s : Shared} (h : s.Settled) (hne : s.faultLatch ≠ .none) :
    s.health.state = .faulted := by
  rw [h, if_pos hne]

theorem Shared.Settled.faulted {s : Shared} (h : s.Settled) (hst : s.health.state = .faulted) :
    s.faultLatch ≠ .none := by
  intro hnone
  rw [h, hnone] at hst
  cases hst

theorem markStopped_settled (s : Shared) (h : s.faultLatch ≠ .none → s.health.state = .faulted) :
    s.markStopped.Settled := by
  unfold Shared.Settled Shared.markStopped Impl.faulted
  by_cases hlatch : s.faultLatch = .none
  · simp [hlatch]
  · simp [hlatch, h hlatch]

/-- Nobody but the owner of the lock is in its reset section. -/
theorem Sys.Wf.restored_false (hwf : s.Wf) {c : Nat} {call : Call} (hc : s.calls c = some call)
    (hfree : call.pc.holds = true ∨ s.lifecycle = none) (hself : call.pc.restored = false)
    {k : Nat} {call' : Call} (hk : s.calls k = some call') : call'.pc.restored = false := by
  by_cases hkc : k = c
  · subst hkc
    rw [hc] at hk
    cases hk
    exact hself
  · exact CallPc.restored_false_of_resets
      (CallPc.resets_false_of_holds (hwf.others_free hc hfree hk hkc))

theorem Sys.FaultWf.spawn (h : s.FaultWf) {c : Nat} {op : Op} {caller : Option Nat}
    {k : SavedControl} {d : SavedData} (hc : s.calls c = some ⟨caller, op, .startArmed k d⟩)
    (config : Config) :
    ((s.spawn config).setCall c (some ⟨caller, op, .returned .done⟩)).FaultWf where
  latched := h.latched
  faulted := fun hstate => absurd hstate (h.calls _ _ hc).2.1
  late := fun hlatch => absurd (h.calls _ _ hc).1 hlatch
  named := by
    intro w t code message ht hpc
    simp only [Sys.spawn, Sys.setCall_workers] at ht
    by_cases hw : w = s.created
    · subst hw
      rw [Function.update_self] at ht
      cases ht
      cases hpc
    · rw [Function.update_of_ne hw] at ht
      exact h.named w t code message ht hpc
  calls := by
    intro j call' hj
    rcases Sys.setCall_cases hj with ⟨rfl, heq⟩ | ⟨-, hj⟩
    · cases heq
      trivial
    · exact (h.calls j call' hj).frame ⟨rfl, rfl⟩

theorem Sys.FaultWf.callMove (h : s.FaultWf) (hwf : s.Wf) {c : Nat} {call : Call}
    {pc' : CallPc} (hc : s.calls c = some call)
    (hmove : CallMove config c call.caller s call.pc pc' s') :
    (s'.setCall c (some { call with pc := pc' })).FaultWf := by
  obtain ⟨caller, op, pc⟩ := call
  have hok := h.calls _ _ hc
  dsimp only at hmove hok
  cases hmove with
  | wait before after =>
    refine h.call_same hc rfl (.refl _) (.inl rfl) rfl ?_
      (CallPc.faultOk_of_plain (CallPc.resets_false_of_holds after.2) _)
    intro hrest
    rw [CallPc.restored_false_of_resets before.2] at hrest
    cases hrest
  | take _ _ before _ after =>
    have hpc' : pc'.resets = false := by
      by_contra hne
      rw [CallPc.joins_of_holds (CallPc.holds_of_resets (by simpa using hne))] at after
      cases after
    refine h.call_same hc rfl ⟨rfl, rfl⟩ (.inl rfl) rfl ?_ (CallPc.faultOk_of_plain hpc' _)
    intro hrest
    rw [CallPc.restored_false_of_resets before.2] at hrest
    cases hrest
  | save _ _ _ before =>
    refine h.call_same hc rfl ⟨rfl, rfl⟩ (.inl rfl) rfl ?_ rfl
    rcases before with rfl | rfl <;> intro hrest <;> cases hrest
  | reset =>
    have hstate := h.state_iff fun j call' hj => hwf.restored_false hc (.inl rfl) rfl hj
    refine h.call_writes hwf hc rfl (.inl rfl) rfl (hwf.inactive_of_resets hc rfl)
      (fun hne => absurd rfl hne) (fun hstate => by cases hstate) ⟨rfl, ?_, ?_⟩
    · intro hstate
      cases hstate
    · rw [show _ = s.shared.faultLatch from hok]
      exact hstate
  | arm => exact h.call_same hc rfl ⟨rfl, rfl⟩ (.inl rfl) rfl (fun hrest => by cases hrest) hok
  | spawn => exact h.spawn hc config
  | disarm => exact h.call_same hc rfl ⟨rfl, rfl⟩ (.inl rfl) rfl (fun hrest => by cases hrest) hok
  | restoreRecord =>
    exact h.call_same hc rfl ⟨rfl, rfl⟩ (.inl rfl) rfl (fun hrest => by cases hrest) hok
  | restoreData =>
    obtain ⟨hlatch, -, hsaved⟩ := hok
    exact h.call_writes hwf hc rfl (.inl rfl) rfl (hwf.inactive_of_resets hc rfl)
      (fun hne => absurd hlatch hne) (fun _ => .inr rfl) ⟨hlatch, rfl, hsaved⟩
  | clearLatch =>
    obtain ⟨hlatch, hhealth, hsaved⟩ := hok
    exact h.call_same hc rfl ⟨hlatch.symm, rfl⟩ (.inl rfl) rfl (fun _ => rfl)
      ⟨rfl, hhealth, hsaved⟩
  | @republish k d message =>
    obtain ⟨hlatch, hhealth, hsaved⟩ := hok
    have hidle := hwf.inactive_of_resets hc rfl
    by_cases hfault : k.fault = .none
    · -- nothing to publish, and the restored state is not `Faulted`
      have hstate : s.shared.health.state ≠ .faulted := by
        rw [hhealth]
        exact fun e => hsaved.mp e hfault
      refine h.call_writes hwf hc rfl (.inl rfl) rfl ?_ ?_ ?_ trivial
      · simpa [hfault] using hidle
      · simp [hfault, hlatch]
      · simp [hfault, hstate]
    · refine h.call_writes hwf hc rfl (.inl rfl) rfl ?_ ?_ ?_ trivial
      · simpa [hfault, Impl.publish, hlatch] using hidle
      · simp [hfault, Impl.publish, hlatch]
      · simp [hfault, Impl.publish, hlatch]
  | request =>
    exact h.call_same hc rfl ⟨rfl, rfl⟩ (.inl rfl) rfl (fun hrest => by cases hrest) trivial
  | command event =>
    exact h.call_same hc rfl (stopCommand_health _ _) (.inl (stopCommand_handles _ _).active) rfl
      (fun hrest => by cases hrest) trivial
  | stopIdle worker joining =>
    have hsettled := markStopped_settled s.shared h.latched
    have hidle := (hwf.idle_of_no_worker worker joining).active
    exact h.call_writes hwf hc rfl (.inl rfl) rfl ((markStopped_handles _).active.trans hidle)
      hsettled.latched (fun hst => .inl (hsettled.faulted hst)) trivial
  | reapStart =>
    exact h.call_same hc rfl ⟨rfl, rfl⟩ (.inr rfl) rfl (fun hrest => by cases hrest) trivial
  | reapStop free =>
    have hsettled := markStopped_settled s.shared h.latched
    exact h.call_writes hwf hc rfl (.inr free) rfl rfl hsettled.latched
      (fun hst => .inl (hsettled.faulted hst)) trivial
  | bias first second =>
    exact h.call_same hc rfl (bias_health _ _ _) (.inl (bias_handles _ _ _).active) rfl
      (fun hrest => by cases hrest) trivial
  | snapshot =>
    exact h.call_same hc rfl ⟨rfl, rfl⟩ (.inl rfl) rfl (fun hrest => by cases hrest) trivial

/-- What a move of the running thread does to latch and state. -/
theorem WorkerMove.fault {t t' : Worker} {s s' : Shared} (hmove : WorkerMove t s t' s')
    (hlatched : s.faultLatch ≠ .none → s.health.state = .faulted)
    (hlate : s.faultLatch ≠ .none → t.pc.phase.late = true)
    (hnamed : ∀ code message, t.pc = .latchFault code message → code ≠ .none) :
    (s'.faultLatch ≠ .none → s'.health.state = .faulted) ∧
      (s'.health.state = .faulted → s'.faultLatch ≠ .none ∨ s.health.state = .faulted) ∧
      (s'.faultLatch ≠ .none → t'.pc.phase.late = true) ∧
      (s.faultLatch ≠ .none → s'.faultLatch = s.faultLatch) ∧
      ∀ code message, t'.pc = .latchFault code message → code ≠ .none := by
  -- a place in another phase is not `latchFault`
  have hplace : ∀ {phase : Phase}, t'.pc.phase = phase → phase ≠ .latching →
      ∀ code message, t'.pc = .latchFault code message → code ≠ .none := by
    intro phase hphase hne code message hpc
    rw [hpc] at hphase
    exact absurd hphase.symm hne
  -- before the latch is set nothing has to be shown about it
  have hunset : ∀ {phase : Phase}, t.pc.phase = phase → phase.late = false →
      s.faultLatch = .none := by
    intro phase hphase hno
    by_contra hne
    have := hlate hne
    rw [hphase, hno] at this
    cases this
  cases hmove with
  | quiet phase quiet =>
    have hlatch : s'.faultLatch = s.faultLatch := congrArg Control.faultLatch quiet.control
    have hnone : s.faultLatch = .none := by
      cases hbefore : t.pc.phase <;> cases hafter : t'.pc.phase <;>
        first
        | exact hunset hbefore rfl
        | (rw [hbefore, hafter] at phase; cases phase)
    rw [hlatch]
    refine ⟨fun hne => absurd hnone hne, fun hst => .inr (quiet.state hst),
      fun hne => absurd hnone hne, fun _ => rfl, ?_⟩
    intro code message hpc
    rw [hpc] at phase
    cases hbefore : t.pc.phase <;> rw [hbefore] at phase <;> cases phase
  | connect before after =>
    exact ⟨hlatched, fun hst => .inr hst, fun hne => absurd (hunset before rfl) hne,
      fun _ => rfl, hplace after (by decide)⟩
  | start event before after running =>
    exact ⟨hlatched, fun hst => .inr hst, fun hne => absurd (hunset before rfl) hne,
      fun _ => rfl, hplace after (by decide)⟩
  | close event phases control health =>
    have hlatch : s'.faultLatch = s.faultLatch := by
      refine (congrArg Control.faultLatch control).trans ?_
      simp only [Shared.control, Shared.closeSession, Shared.stopStreaming, Shared.attempt]
      split <;> rfl
    rw [hlatch, health]
    refine ⟨hlatched, fun hst => .inr hst, ?_, fun _ => rfl, ?_⟩
    · intro hne
      rcases phases with ⟨before, -⟩ | ⟨-, after⟩
      · exact absurd (hunset before rfl) hne
      · rw [after]
        rfl
    · rcases phases with ⟨-, after⟩ | ⟨-, after⟩
      · exact hplace after (by decide)
      · exact hplace after (by decide)
  | fail code message before place named =>
    refine ⟨hlatched, fun hst => .inr hst, ?_, fun _ => rfl, ?_⟩
    · intro hne
      rcases before with before | before
      · exact absurd (hunset before rfl) hne
      · exact absurd (hunset before rfl) hne
    · intro code' message' hpc
      rw [place] at hpc
      cases hpc
      exact named
  | latch code message place after impl rest =>
    have hphase : t.pc.phase = .latching := by rw [place]; rfl
    have hnone := hunset hphase rfl
    have hcode := hnamed code message place
    rw [impl]
    rw [Impl.publish, if_pos hnone]
    exact ⟨fun _ => rfl, fun _ => .inl hcode, fun _ => by rw [after]; rfl,
      fun hne => absurd hnone hne, hplace after (by decide)⟩
  | exit before after =>
    exact ⟨hlatched, fun hst => .inr hst, fun _ => by rw [after]; rfl, fun _ => rfl,
      hplace after (by decide)⟩
  | finish before after =>
    refine ⟨?_, ?_, fun _ => by rw [after]; rfl, ?_, hplace after (by decide)⟩
    · split
      · exact hlatched
      · rename_i hno
        intro hne
        exact absurd (by simpa [Impl.faulted] using hne) hno
    · split
      · exact fun hst => .inr hst
      · intro hst
        cases hst
    · intro _
      split <;> rfl

theorem Sys.FaultWf.step (h : s.FaultWf) (hwf : s.Wf) {l : Label}
    (hstep : s.step P config l = some s') : s'.FaultWf := by
  cases Sys.step_move hstep with
  | tick ticks =>
    exact ⟨h.latched, h.faulted, h.late, h.named,
      fun c call hc => (h.calls c call hc).frame ⟨rfl, rfl⟩⟩
  | places label places =>
    refine ⟨?_, ?_, ?_, ?_, ?_⟩
    · rw [places.shared]
      exact h.latched
    · rw [places.shared]
      intro hstate
      rcases h.faulted hstate with hlatch | ⟨c, call, hc, hrest⟩
      · exact .inl hlatch
      · rcases places.old c call hc with hkeep | hplain
        · exact .inr ⟨c, call, hkeep, hrest⟩
        · have := CallPc.resets_of_restored hrest
          rw [CallPc.resets_false_of_holds (CallPc.of_plain hplain).1] at this
          cases this
    · rw [places.shared]
      intro hlatch w t' hw ht'
      obtain ⟨t, ht, hpc⟩ := places.thread ht'
      exact hpc ▸ h.late hlatch w t hw ht
    · intro w t' code message ht' hpc'
      obtain ⟨t, ht, hpc⟩ := places.thread ht'
      exact h.named w t code message ht (hpc.trans hpc')
    · intro c call hc
      rw [places.shared]
      rcases places.new c call hc with hold | hplain
      · exact h.calls c call hold
      · exact CallPc.faultOk_of_plain
          (CallPc.resets_false_of_holds (CallPc.of_plain hplain).1) _
  | call choice hc _ move => exact h.callMove hwf hc move
  | @worker w t t' shared' choice ht step move =>
    obtain ⟨hrun, -, hactive, -⟩ := move.lifecycle
    have hw := hwf.active_of_running ht hrun
    -- a running thread means that no `start` is in its reset section
    have hnoReset : ∀ c call, s.calls c = some call → call.pc.resets = false := by
      intro c call hc
      by_contra hne
      have := hwf.inactive_of_resets hc (by simpa using hne)
      rw [hw] at this
      cases this
    have hiff := h.state_iff fun c call hc => CallPc.restored_false_of_resets (hnoReset c call hc)
    obtain ⟨hlatched, hfaulted, hlate, hkeep, hnamed⟩ := move.fault h.latched
      (fun hne => h.late hne w t hw ht) (fun code message => h.named w t code message ht)
    have hthread : ∀ v u, ((s.withShared shared').setWorker w t').workers v = some u →
        v = w ∧ u = t' ∨ v ≠ w ∧ s.workers v = some u := by
      intro v u hu
      by_cases hv : v = w
      · subst hv
        simp only [Sys.setWorker, Function.update_self, Option.some.injEq] at hu
        exact .inl ⟨rfl, hu.symm⟩
      · exact .inr ⟨hv, by simpa [Sys.setWorker, Sys.withShared, hv] using hu⟩
    refine ⟨hlatched, ?_, ?_, ?_, ?_⟩
    · intro hstate
      rcases hfaulted hstate with hlatch | hold
      · exact .inl hlatch
      · refine .inl ?_
        have := hiff.mp hold
        show shared'.faultLatch ≠ .none
        rw [hkeep this]
        exact this
    · intro hlatch v u hv hu
      rcases hthread v u hu with ⟨rfl, rfl⟩ | ⟨hne, -⟩
      · exact hlate hlatch
      · exact absurd (Option.some.inj (hv.symm.trans (hactive.trans hw))) hne
    · intro v u code message hu hpc
      rcases hthread v u hu with ⟨rfl, rfl⟩ | ⟨-, hu⟩
      · exact hnamed code message hpc
      · exact h.named v u code message hu hpc
    · exact fun c call hc => CallPc.faultOk_of_plain (hnoReset c call hc) _

theorem faultWf_of_reachable (h : (clientLts P config).Reachable s) : s.FaultWf := by
  refine Lts.Reach.invariant_using (K := Sys.Wf) (fun s hs => wf_of_reachable hs) ?_ ?_ h
  · rintro s ⟨clock, -, rfl⟩
    exact Sys.faultWf_new config clock
  · intro s l t _ hstep hwf _ hs
    exact hs.step hwf hstep

/-! ## Quiescence -/

/-- No thread, no session, no `start` under way, and the state settled. -/
structure Sys.Quiescent (s : Sys) : Prop where
  worker : s.shared.worker = none
  joining : s.shared.joining = false
  off : s.shared.sessionStarted = false
  calls : ∀ c call, s.calls c = some call → call.pc.resets = false
  settled : s.shared.Settled

/-- A call of `start` is at the head of its loop and takes a step. -/
def Sys.StartBegins (s : Sys) : Label → Prop
  | .call c _ => ∃ call callback, s.calls c = some call ∧
      (call.pc = .startEnter callback ∨ call.pc = .startAwaitJoin callback)
  | _ => False

/-- What a quiescent client does not change. -/
structure Shared.Unchanged (s s' : Shared) : Prop where
  worker : s'.worker = s.worker
  joining : s'.joining = s.joining
  sessionStarted : s'.sessionStarted = s.sessionStarted
  faultLatch : s'.faultLatch = s.faultLatch
  health : s'.health = s.health
  log : s'.log = s.log

theorem Shared.Settled.markStopped {s : Shared} (h : s.Settled) : s.markStopped = s := by
  unfold Shared.markStopped
  by_cases hlatch : s.faultLatch = .none
  · have hstate : s.health.state = .stopped := by
      rw [h, if_neg (by simp [hlatch])]
    have hno : s.faulted = false := by simp [Impl.faulted, hlatch]
    rw [hno, ← hstate]
    rfl
  · simp [Impl.faulted, hlatch]

theorem Sys.Quiescent.done (h : s.Quiescent) (hwf : s.Wf) {w : Nat} {t : Worker}
    (ht : s.workers w = some t) : t.pc = .done := by
  refine hwf.workers.others w t ht ?_
  rw [(hwf.idle_of_no_worker h.worker h.joining).active]
  simp

theorem Sys.Quiescent.callMove (h : s.Quiescent) (hwf : s.Wf) {c : Nat} {call : Call}
    {pc' : CallPc} (hc : s.calls c = some call)
    (hbegins : ∀ callback, call.pc ≠ .startEnter callback ∧ call.pc ≠ .startAwaitJoin callback)
    (hmove : CallMove config c call.caller s call.pc pc' s') :
    s.shared.Unchanged s'.shared ∧ pc'.resets = false := by
  obtain ⟨caller, op, pc⟩ := call
  have hres : pc.resets = false := h.calls _ _ hc
  dsimp only at hmove hbegins
  cases hmove with
  | wait _ after =>
    exact ⟨⟨rfl, rfl, rfl, rfl, rfl, rfl⟩, CallPc.resets_false_of_holds after.2⟩
  | take worker =>
    rw [h.worker] at worker
    cases worker
  | save _ _ _ before =>
    rcases before with rfl | rfl
    · exact absurd rfl (hbegins _).1
    · exact absurd rfl (hbegins _).2
  | reset => cases hres
  | arm => cases hres
  | spawn => cases hres
  | disarm => cases hres
  | restoreRecord => cases hres
  | restoreData => cases hres
  | clearLatch => cases hres
  | republish => cases hres
  | request => exact ⟨⟨rfl, rfl, rfl, rfl, rfl, rfl⟩, rfl⟩
  | command event =>
    refine ⟨?_, rfl⟩
    simp only [Sys.withShared, Shared.stopCommand, stopStreaming_same h.off]
    exact ⟨rfl, rfl, rfl, rfl, rfl, rfl⟩
  | stopIdle =>
    refine ⟨?_, rfl⟩
    simp only [h.settled.markStopped]
    exact ⟨rfl, rfl, rfl, rfl, rfl, rfl⟩
  | reapStart =>
    have := (hwf.reaping_of_joins hc rfl).1.joining
    rw [h.joining] at this
    cases this
  | reapStop =>
    have := (hwf.reaping_of_joins hc rfl).1.joining
    rw [h.joining] at this
    cases this
  | bias first second =>
    refine ⟨?_, rfl⟩
    simp only [Sys.withShared, bias_same h.off]
    exact ⟨rfl, rfl, rfl, rfl, rfl, rfl⟩
  | snapshot => exact ⟨⟨rfl, rfl, rfl, rfl, rfl, rfl⟩, rfl⟩

theorem Sys.Quiescent.of_unchanged (h : s.Quiescent) (hs : s.shared.Unchanged s'.shared)
    (hcalls : ∀ c call, s'.calls c = some call → call.pc.resets = false) : s'.Quiescent where
  worker := hs.worker.trans h.worker
  joining := hs.joining.trans h.joining
  off := hs.sessionStarted.trans h.off
  calls := hcalls
  settled := by
    unfold Shared.Settled
    rw [hs.health, hs.faultLatch]
    exact h.settled

/-- Nothing happens to a quiescent client until a `start` begins. -/
theorem Sys.Quiescent.step (h : s.Quiescent) (hwf : s.Wf) {l : Label}
    (hbegins : ¬ s.StartBegins l) (hstep : s.step P config l = some s') :
    s'.Quiescent ∧ s.shared.Unchanged s'.shared := by
  cases Sys.step_move hstep with
  | tick ticks =>
    have hsame : s.shared.Unchanged { s.shared with clock := s.shared.clock + ticks } :=
      ⟨rfl, rfl, rfl, rfl, rfl, rfl⟩
    exact ⟨h.of_unchanged hsame h.calls, hsame⟩
  | places label places =>
    have hsame : s.shared.Unchanged s'.shared := by
      rw [places.shared]
      exact ⟨rfl, rfl, rfl, rfl, rfl, rfl⟩
    refine ⟨h.of_unchanged hsame ?_, hsame⟩
    intro c call hc
    rcases places.new c call hc with hold | hplain
    · exact h.calls c call hold
    · exact CallPc.resets_false_of_holds (CallPc.of_plain hplain).1
  | @call c call pc' u choice hc _ move =>
    obtain ⟨hsame, hpc'⟩ := h.callMove hwf hc
      (fun callback => ⟨fun e => hbegins ⟨call, callback, hc, .inl e⟩,
        fun e => hbegins ⟨call, callback, hc, .inr e⟩⟩) move
    refine ⟨h.of_unchanged hsame ?_, hsame⟩
    intro k call' hk
    rcases Sys.setCall_cases hk with ⟨rfl, heq⟩ | ⟨-, hk⟩
    · cases heq
      exact hpc'
    · exact h.calls k call' (callMove_calls move ▸ hk)
  | worker choice ht _ move =>
    have := move.lifecycle.1
    rw [h.done hwf ht] at this
    exact absurd rfl this

/-- How a `stop` from another thread returns: with nothing to join, or
after its join. -/
theorem stopStep_returned {c : Nat} {choice : CallChoice} {pc : CallPc} {result : CallResult}
    (h : stopStep c none choice s pc = some (.returned result, s')) :
    pc = .stopDecide ∧ s.shared.worker = none ∧ s.shared.joining = false ∧
        s' = { s with lifecycle := none, shared := s.shared.markStopped } ∨
      ∃ w, pc = .stopJoin w ∧ s.lifecycle = none ∧ s.finished w = true ∧
        s' = (s.withShared s.shared.markStopped).reap w none := by
  cases pc <;> dsimp only [stopStep] at h
  case stopEnter =>
    split at h
    · cases h
    · cases h
  case stopCommand =>
    split at h
    · cases h
    · cases h
  case stopDecide =>
    split at h
    · rename_i hself
      simp [Shared.calledByWorker] at hself
    · split at h
      · cases h
      · rename_i hjoining
        split at h
        · rename_i hw
          refine .inl ⟨rfl, hw, by simpa using hjoining, ?_⟩
          exact (Prod.mk.inj (Option.some.inj h)).2.symm
        · cases h
  case stopAwaitJoin =>
    split at h
    · cases h
    · cases h
  case stopJoin w =>
    split at h
    · rename_i hcond
      refine .inr ⟨w, rfl, by simpa using hcond.1, hcond.2, ?_⟩
      exact (Prod.mk.inj (Option.some.inj h)).2.symm
    · cases h
  all_goals cases h

/-- A `stop` from another thread leaves the client quiescent. -/
theorem Sys.quiescent_of_stop_returned (hwf : s.Wf) (hses : s.SessionWf) (hfault : s.FaultWf)
    {c : Nat} {call : Call} {choice : CallChoice} {result : CallResult}
    (hc : s.calls c = some call) (hpart : call.pc.part = .stop) (hcaller : call.caller = none)
    (hstep : s.step P config (.call c choice) = some s')
    (hreturned : s'.calls c = some { call with pc := .returned result }) : s'.Quiescent := by
  simp only [Sys.step, hc, callStep, hpart, hcaller, Option.map_eq_some_iff] at hstep
  obtain ⟨⟨pc', u⟩, hmove, rfl⟩ := hstep
  rw [Sys.setCall_calls_self] at hreturned
  obtain rfl : pc' = .returned result := congrArg Call.pc (Option.some.inj hreturned)
  have hsettled := markStopped_settled s.shared hfault.latched
  have hses' := markStopped_session s.shared
  rcases stopStep_returned hmove with ⟨hpc, hworker, hjoining, rfl⟩ | ⟨w, hpc, hfree, hdone, rfl⟩
  · have hidle := hwf.idle_of_no_worker hworker hjoining
    refine ⟨?_, ?_, ?_, ?_, hsettled⟩
    · exact (markStopped_handles _).worker.trans hworker
    · exact (markStopped_handles _).joining.trans hjoining
    · exact hses'.sessionStarted.trans (hses.idle hidle.active)
    · intro k call' hk
      rcases Sys.setCall_cases hk with ⟨rfl, heq⟩ | ⟨hne, hk⟩
      · cases heq
        rfl
      · exact CallPc.resets_false_of_holds
          (hwf.others_free hc (.inl (by rw [hpc]; rfl)) hk hne)
  · obtain ⟨hreap, rfl⟩ := hwf.reaping_of_joins hc (by rw [hpc]; rfl)
    refine ⟨?_, rfl, ?_, ?_, hsettled⟩
    · exact (markStopped_handles _).worker.trans hreap.worker
    · exact hses'.sessionStarted.trans (hses.not_started_of_finished hreap.active hdone)
    · intro k call' hk
      rcases Sys.setCall_cases hk with ⟨rfl, heq⟩ | ⟨hne, hk⟩
      · cases heq
        rfl
      · exact CallPc.resets_false_of_holds (hwf.others_free hc (.inr hfree) hk hne)

end System

/-! ## One worker, joined once, and quiet after a stop -/

/-- The callback invocations of a log. -/
def callbacks (log : List Event) : List Event :=
  log.filter fun
    | .callbackCalled _ _ => true
    | _ => false

/-- For any calls from any threads, the callback included, and any failing
thread creation: at most one receive thread has not finished; a thread
is joined once, by another thread, and one call at a time; every thread
is joined, joinable or being joined. When a `stop` from outside the
receive thread returns, then until a `start` begins there is no thread,
no callback, a settled state and no change of health. -/
theorem single_worker_joined_once (P : Platform) (config : Config) {s : Sys}
    (h : (clientLts P config).Reachable s) :
    (∀ v w t u, s.workers v = some t → s.workers w = some u → t.pc ≠ .done → u.pc ≠ .done →
        v = w) ∧
      (s.joined.map Prod.fst).Nodup ∧
      (∀ p ∈ s.joined, p.2 ≠ some p.1) ∧
      (∀ c call w, s.calls c = some call → call.pc.joins = some w →
        call.caller ≠ some w ∧ w ∉ s.joined.map Prod.fst ∧
          ∀ c' call', s.calls c' = some call' → call'.pc.joins = some w → c' = c) ∧
      s.created = s.joined.length + (if s.shared.worker.isSome then 1 else 0)
        + (if s.shared.joining then 1 else 0) ∧
      ∀ c call choice result t, s.calls c = some call → call.pc.part = .stop →
        call.caller = none → s.step P config (.call c choice) = some t →
        t.calls c = some { call with pc := .returned result } →
        ∀ labels u, (clientLts P config).Path (fun s l => ¬ s.StartBegins l) t labels u →
          (∀ w v, u.workers w = some v → v.pc = .done) ∧
            u.shared.worker = none ∧ u.shared.joining = false ∧
            callbacks u.shared.log = callbacks t.shared.log ∧
            (u.shared.health.state = if u.shared.faultLatch ≠ .none then .faulted else .stopped) ∧
            u.shared.health = t.shared.health := by
  have hwf := wf_of_reachable h
  refine ⟨?_, ?_, ?_, ?_, ?_, ?_⟩
  · intro v w t u hv hw ht hu
    have h1 := hwf.active_of_running hv fun e => ht (WorkerPc.phase_eq_done e)
    have h2 := hwf.active_of_running hw fun e => hu (WorkerPc.phase_eq_done e)
    exact Option.some.inj (h1.symm.trans h2)
  · rw [hwf.joined]
    exact List.nodup_range
  · intro p hp
    rw [hwf.joiners p hp]
    simp
  · intro c call w hc hw
    obtain ⟨hreap, rfl⟩ := hwf.reaping_of_joins hc hw
    refine ⟨?_, ?_, ?_⟩
    · rw [hwf.calls.outside _ _ hc (CallPc.outside_of_joins hw)]
      simp
    · rw [hwf.joined]
      simp
    · intro c' call' hc' hw'
      have := hreap.joins c' call' hc'
      rw [hw'] at this
      split at this
      · assumption
      · cases this
  · cases hwf.slot with
    | idle hi => simp [hi.worker, hi.joining, hi.created]
    | held hh => simp [hh.worker, hh.joining, hh.created]
    | reaping k hr => simp [hr.worker, hr.joining, hr.created]
  · intro c call choice result t hc hpart hcaller hstep hreturned labels u hpath
    have hquiet := Sys.quiescent_of_stop_returned hwf (sessionWf_of_reachable h)
      (faultWf_of_reachable h) hc hpart hcaller hstep hreturned
    have ht : (clientLts P config).Reachable t := Lts.Reachable.step (l := .call c choice) h hstep
    -- a quiescent client stays as it is along the run
    have hkept := hpath.preserves (K := Sys.Wf)
      (I := fun u => u.Quiescent ∧ u.shared.log = t.shared.log ∧
        u.shared.health = t.shared.health) (fun _ hv => wf_of_reachable hv) ?_ ht
      ⟨hquiet, rfl, rfl⟩
    · obtain ⟨hu, hlog, hhealth⟩ := hkept
      have huwf := wf_of_reachable (hpath.reachable ht)
      refine ⟨fun w v hv => hu.done huwf hv, hu.worker, hu.joining, ?_, hu.settled, hhealth⟩
      rw [hlog]
    · intro v l v' hok hstep' hvwf _ hv
      obtain ⟨hq, hsame⟩ := hv.1.step hvwf hok hstep'
      exact ⟨hq, hsame.log.trans hv.2.1, hsame.health.trans hv.2.2⟩

/-- The `stop` of `stoppingRun` joins its thread and returns. -/
theorem single_worker_joined_once_stopped :
    ∃ s t, (clientLts exactPlatform overrideConfig).Reachable s ∧ s.created = 1 ∧
      s.step exactPlatform overrideConfig (.call 2 .go) = some t ∧
      (∀ w v, t.workers w = some v → v.pc = .done) ∧
      (t.shared.health.state = if t.shared.faultLatch ≠ .none then .faulted else .stopped) := by
  obtain ⟨s, hs, hp⟩ := Lts.exists_of_exec (l := streamingRun ++ stoppingRun.dropLast)
    (p := fun s : Sys => decide (s.created = 1 ∧ s.calls 2 = some ⟨none, .stop, .stopJoin 0⟩ ∧
      s.lifecycle = none ∧ s.finished 0 = true))
    overrideConfig_reachable (by decide +kernel)
  obtain ⟨hcreated, hc, hfree, hdone⟩ := of_decide_eq_true hp
  have hstep : s.step exactPlatform overrideConfig (.call 2 .go)
      = some (((s.withShared s.shared.markStopped).reap 0 none).setCall 2
        (some ⟨none, .stop, .returned .done⟩)) := by
    simp [Sys.step, hc, callStep, CallPc.part, stopStep, hfree, hdone]
  have hquiet := (single_worker_joined_once exactPlatform overrideConfig hs).2.2.2.2.2 2 _ .go
    .done _ hc rfl rfl hstep (Sys.setCall_calls_self _ _ _) [] _ (Lts.Path.nil _)
  exact ⟨s, _, hs, hcreated, hstep, hquiet.1, hquiet.2.2.2.2.1⟩

end PyNetFT.Core
