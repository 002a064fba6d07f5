/-
PyNetFT.Core.FailedStarts — a `start` that cannot create its thread.

`start` saves and resets some twenty members under three locks before it
creates the thread, and puts them back one group at a time when that
fails. `CallPc.undone` says, for each place on the way in and out, what
the rest of the way out would make of the members. No step of `start`
changes it: it is the state of the last decision in the loop of `start`
as long as only the clock and the `health()` calls of other threads touch
the members (`Shared.Aged`), and nothing else can, because that `start`
has the lifecycle lock and no receive thread is alive.
-/
import PyNetFT.Core.Counters
import PyNetFT.Core.RateWindows
import PyNetFT.Core.Snapshots

namespace PyNetFT.Core

open PyNetFT.Lib

/-! ## What the others do in the meantime -/

/-- The members at a later reading of the clock, the rate windows pruned
at `now`. -/
def Shared.aged (s : Shared) (now clock : TimePoint) : Shared :=
  { s with
    clock := clock
    receiveTimes := pruneRateWindow s.receiveTimes now
    deliveryTimes := pruneRateWindow s.deliveryTimes now }

/-- Time has passed, and `health()` calls may have cut stale entries from
the rate windows; without such calls (`quiet`) the windows are as they
were. -/
def Shared.Aged (quiet : Bool) (s s' : Shared) : Prop :=
  ∃ now ≤ s'.clock, s.clock ≤ s'.clock ∧ (quiet = true → now = 0) ∧ s' = s.aged now s'.clock

/-- What users and the next `start` see of the members. -/
structure Shared.LooksLike (s s' : Shared) : Prop where
  faultLatch : s'.faultLatch = s.faultLatch
  latest : s'.latest = s.latest
  generation : s'.generation = s.generation ∧ s'.deliveredGeneration = s.deliveredGeneration
  snapshot : ∀ now, s'.clock ≤ now →
    ({ s' with clock := now } : Shared).snapshot = ({ s with clock := now } : Shared).snapshot
  saveControl : s'.saveControl = s.saveControl
  resetRun : s'.resetRun = { s.resetRun with clock := s'.clock }

section Aging

variable {quiet : Bool} {s s' u : Shared}

theorem pruneRateWindow_zero (times : List TimePoint) : pruneRateWindow times 0 = times :=
  SlidingWindow.prune_zero ticksPerSecond times

theorem pruneRateWindow_twice (times : List TimePoint) (a b : TimePoint) :
    pruneRateWindow (pruneRateWindow times a) b = pruneRateWindow times (max a b) :=
  SlidingWindow.prune_prune ticksPerSecond times a b

theorem Shared.aged_zero (s : Shared) (clock : TimePoint) :
    s.aged 0 clock = { s with clock := clock } := by
  simp only [Shared.aged, pruneRateWindow_zero]

theorem Shared.Aged.tick (quiet : Bool) (s : Shared) (ticks : Nat) :
    s.Aged quiet { s with clock := s.clock + ticks } :=
  ⟨0, Nat.zero_le _, Nat.le_add_right _ _, fun _ => rfl, (s.aged_zero _).symm⟩

theorem Shared.Aged.refl (quiet : Bool) (s : Shared) : s.Aged quiet s :=
  Shared.Aged.tick quiet s 0

theorem Shared.Aged.trans (h : s.Aged quiet u) (h' : u.Aged quiet s') : s.Aged quiet s' := by
  obtain ⟨a, ha, hclock, hquiet, heq⟩ := h
  obtain ⟨b, hb, hclock', hquiet', heq'⟩ := h'
  refine ⟨max a b, max_le (ha.trans hclock') hb, hclock.trans hclock', fun hq => ?_, ?_⟩
  · rw [hquiet hq, hquiet' hq, max_self]
  · calc s' = u.aged b s'.clock := heq'
      _ = (s.aged a u.clock).aged b s'.clock := by rw [← heq]
      _ = s.aged (max a b) s'.clock := by simp only [Shared.aged, pruneRateWindow_twice]

theorem Shared.Aged.snapshot (s : Shared) : s.Aged false s.snapshot.1 :=
  ⟨s.clock, le_rfl, le_rfl, fun hq => (by cases hq), rfl⟩

/-- Without `health()` calls only time passes. -/
theorem Shared.Aged.exact (h : s.Aged true s') : s' = { s with clock := s'.clock } := by
  obtain ⟨now, -, -, hquiet, heq⟩ := h
  rw [hquiet rfl, Shared.aged_zero] at heq
  exact heq

/-- Nobody can tell. -/
theorem Shared.Aged.looksLike (h : s.Aged quiet s') : s.LooksLike s' := by
  obtain ⟨a, ha, -, -, heq⟩ := h
  rw [heq]
  refine ⟨rfl, rfl, ⟨rfl, rfl⟩, ?_, rfl, rfl⟩
  intro now hnow
  have hmax : max a now = now := max_eq_right (ha.trans hnow)
  simp only [Shared.snapshot, Shared.aged, pruneRateWindow_twice, hmax]
  rfl

end Aging

/-! ## The way back -/

/-- The first section of the rollback, with the fault. -/
def Shared.restoreControl (s : Shared) (k : SavedControl) : Shared :=
  { s with
    stopping := k.stopping
    workerExited := k.workerExited
    faultLatch := k.fault
    callback := k.callback
    lastDeliveryAt := k.lastDeliveryAt }

/-- What the rest of the rollback would make of the members. -/
def CallPc.undone (s : Shared) : CallPc → Shared
  | .startSaved _ k => s.restoreControl k
  | .startReset _ k d | .startArmed k d => (s.restoreData d).restoreControl k
  | .rollbackRecord k d _ =>
      { s.restoreData d with faultLatch := k.fault, lastDeliveryAt := k.lastDeliveryAt }
  | .rollbackData k d _ => { s.restoreData d with faultLatch := k.fault }
  | .rollbackLatch k _ _ | .rollbackPublish k _ _ => { s with faultLatch := k.fault }
  | _ => s

/-- The others keep it. -/
theorem CallPc.undone_aged {quiet : Bool} {s s' : Shared} (pc : CallPc) (h : s.Aged quiet s') :
    (pc.undone s).Aged quiet (pc.undone s') := by
  obtain ⟨now, hnow, hclock, hquiet, heq⟩ := h
  have hkept : ∀ f : Shared → Shared, (∀ u, (f u).clock = u.clock) →
      (∀ a b, f (s.aged a b) = (f s).aged 0 b) → (f s).Aged quiet (f s') := by
    intro f hf hage
    refine ⟨0, Nat.zero_le _, ?_, fun _ => rfl, ?_⟩
    · rw [hf, hf]
      exact hclock
    · rw [hf, ← hage now, ← heq]
  have haged : ∀ f : Shared → Shared, (∀ u, (f u).clock = u.clock) →
      (∀ a b, f (s.aged a b) = (f s).aged a b) → (f s).Aged quiet (f s') := by
    intro f hf hage
    refine ⟨now, ?_, ?_, hquiet, ?_⟩
    · rw [hf]
      exact hnow
    · rw [hf, hf]
      exact hclock
    · rw [hf, ← hage, ← heq]
  cases pc
  case startReset | startArmed | rollbackRecord | rollbackData =>
    refine hkept (fun u => CallPc.undone u _) (fun _ => rfl) fun _ b => ?_
    rw [Shared.aged_zero]
    rfl
  all_goals exact haged (fun u => CallPc.undone u _) (fun _ => rfl) fun _ _ => rfl

/-- The code in the health record is the latched one. -/
def Coded (code : FaultCode) (health : HealthSnapshot) : Prop := health.faultCode = code

section System

variable {P : Platform} {config : Config} {s s' : Sys}

theorem coded_step (hl : s.LatchedWf Coded) (hwf : s.Wf) (hf : s.FaultWf) {l : Label}
    (hstep : s.step P config l = some s') : s'.LatchedWf Coded := by
  by_cases hthread : ∃ w choice, l = .worker w choice
  · obtain ⟨w, choice, rfl⟩ := hthread
    cases Sys.step_move hstep with
    | places label => simp at label
    | worker _ ht step move =>
      refine Sys.LatchedWf.worker hwf ht move fun hne => ?_
      have hw := hwf.active_of_running ht move.lifecycle.1
      rcases move.latched (fun hne => hf.late hne _ _ hw ht) hne with
        ⟨hbefore, hlatch, hhealth⟩ | ⟨code, message, -, -, hlatch, hhealth⟩
      · rw [hlatch, hhealth]
        exact hl.latched hbefore
      · rw [hlatch, hhealth]
        rfl
  · exact hl.others (fun _ _ _ => rfl) hf (fun w choice heq => hthread ⟨w, choice, heq⟩) hstep

theorem coded_of_reachable (h : (clientLts P config).Reachable s) : s.LatchedWf Coded := by
  refine Lts.Reach.invariant_using (I := fun s => s.LatchedWf Coded)
    (K := fun s => s.Wf ∧ s.FaultWf)
    (fun s hs => ⟨wf_of_reachable hs.reachable, faultWf_of_reachable hs.reachable⟩) ?_ ?_ h
  · rintro s ⟨clock, -, rfl⟩
    exact ⟨by simp [Sys.new, Impl.new], by simp [Sys.new]⟩
  · intro s l t _ hstep hwf _ hl
    exact coded_step hl hwf.1 hwf.2 hstep

/-- A step of the failing `start` between its last decision and its
exception. -/
theorem CallMove.undone {c : Nat} {caller : Option Nat} {pc pc' : CallPc}
    (hmove : CallMove config c caller s pc pc' s') (hres : pc.resets = true)
    (hfault : pc.FaultOk s.shared)
    (hcoded : ∀ k d, pc.control? = some k → pc.data? = some d → k.fault ≠ .none →
      Coded k.fault d.health) :
    pc' = .returned .done ∨ pc'.undone s'.shared = pc.undone s.shared := by
  cases hmove with
  | reset | arm | disarm | restoreRecord | restoreData | clearLatch => exact .inr rfl
  | spawn => exact .inl rfl
  | @republish k d message =>
    obtain ⟨hlatch, hhealth, hstate⟩ := hfault
    refine .inr ?_
    dsimp only [CallPc.undone]
    by_cases hnone : k.fault = .none
    · rw [if_neg (not_not.mpr hnone), hnone, ← hlatch]
    · rw [if_pos hnone]
      have hcode : d.health.faultCode = k.fault := hcoded k d rfl rfl hnone
      have hsame : { d.health with
          state := .faulted, faultCode := k.fault, lastError := d.health.lastError }
          = d.health := by
        rw [← hcode, ← hstate.mpr hnone]
      simp only [Impl.publish, hlatch, if_true, hhealth, hsame]
  | wait before => rw [before.2] at hres; cases hres
  | take _ _ before => rw [before.2] at hres; cases hres
  | save _ _ _ before => rcases before with rfl | rfl <;> cases hres
  | request | command | stopIdle | reapStart | reapStop | bias | snapshot => cases hres

/-! ## While `start` has the lifecycle lock -/

/-- The call `c` is not collected and, if `quiet`, no `health()` takes
its snapshot. -/
def Sys.InCall (c : Nat) (quiet : Bool) (s : Sys) (l : Label) : Prop :=
  l ≠ .collect c ∧ (quiet = true → ∀ k choice call, l = .call k choice →
    s.calls k = some call → call.pc ≠ .healthEnter)

/-- A call stays as it is until it moves or is collected. -/
theorem Sys.call_stays {c : Nat} {call : Call} {l : Label} (hc : s.calls c = some call)
    (hown : ∀ choice, l ≠ .call c choice) (hcollect : l ≠ .collect c)
    (hstep : s.step P config l = some s') : s'.calls c = some call := by
  cases l with
  | tick ticks =>
    cases hstep
    exact hc
  | invoke k caller op =>
    dsimp only [Sys.step, Sys.invoke] at hstep
    split at hstep
    · cases hstep
    · rename_i hfresh
      have hne : c ≠ k := by
        rintro rfl
        rw [hc] at hfresh
        exact hfresh rfl
      (repeat' split at hstep) <;> cases hstep <;>
        exact (Sys.setCall_calls_of_ne _ _ hne).trans hc
  | collect k =>
    have hne : c ≠ k := fun heq => hcollect (heq ▸ rfl)
    dsimp only [Sys.step, Sys.collect] at hstep
    (repeat' split at hstep) <;> cases hstep <;>
      exact (Sys.setCall_calls_of_ne _ _ hne).trans hc
  | call k choice =>
    have hne : c ≠ k := fun heq => hown choice (heq ▸ rfl)
    cases Sys.step_move hstep with
    | places label => simp at label
    | call _ _ _ move =>
      exact (Sys.setCall_calls_of_ne _ _ hne).trans ((callMove_calls move) ▸ hc)
  | worker w choice =>
    cases Sys.step_move hstep with
    | places label => simp at label
    | worker => exact hc

/-- Nobody else has a section that changes the members then. -/
theorem Sys.Wf.aged_beside (hwf : s.Wf) (hses : s.SessionWf) {c : Nat} {call : Call}
    {quiet : Bool} {l : Label} (hc : s.calls c = some call) (hres : call.pc.resets = true)
    (hown : ∀ choice, l ≠ .call c choice) (hin : s.InCall c quiet l)
    (hstep : s.step P config l = some s') :
    s.shared.Aged quiet s'.shared ∧ s'.created = s.created := by
  have hholds := CallPc.holds_of_resets hres
  have hlock : s.lifecycle = some c := (hwf.calls.owner c).mpr ⟨call, hc, hholds⟩
  have hidle := hwf.inactive_of_resets hc hres
  cases Sys.step_move hstep with
  | tick ticks => exact ⟨.tick quiet _ ticks, rfl⟩
  | places label places => exact ⟨places.shared ▸ .refl quiet _, places.created⟩
  | @call k other pc' u choice hk _ move =>
    have hne : k ≠ c := fun heq => hown choice (heq ▸ rfl)
    have hfree : other.pc.holds = false := by
      by_contra hother
      exact hne (hwf.owner_unique hk (by simpa using hother) hc hholds)
    obtain ⟨caller, op, pc⟩ := other
    change s.shared.Aged quiet u.shared ∧ u.created = s.created
    dsimp only at move hfree
    cases move with
    | wait => exact ⟨.refl quiet _, rfl⟩
    | take _ _ _ free =>
      rcases free with hpc | hnone
      · rw [hfree] at hpc
        cases hpc
      · rw [hlock] at hnone
        cases hnone
    | save _ _ free | request free | reapStart free | reapStop free =>
      rw [hlock] at free
      cases free
    | reset | arm | spawn | disarm | restoreRecord | restoreData | clearLatch | republish
    | command | stopIdle => cases hfree
    | bias first second =>
      refine ⟨?_, rfl⟩
      simp only [Sys.withShared, bias_same (hses.idle hidle)]
      exact .refl quiet _
    | snapshot =>
      cases quiet with
      | false => exact ⟨.snapshot _, rfl⟩
      | true => exact absurd rfl (hin.2 rfl k choice _ rfl hk)
  | worker choice ht _ move =>
    have hactive := hwf.active_of_running ht move.lifecycle.1
    rw [hidle] at hactive
    cases hactive

/-! ## From the save to the exception -/

/-- What is so from the first section that saves up to the return of
`start`, when `u` were the members before it. -/
def CallPc.Undoing (quiet : Bool) (u : Shared) (created : Nat) (s : Sys) (pc : CallPc) : Prop :=
  pc.resets = true ∧ u.Aged quiet (pc.undone s.shared) ∧ s.created = created

/-- A section of that `start` itself. -/
theorem CallPc.Undoing.own {quiet : Bool} {u : Shared} {created c : Nat} {caller : Option Nat}
    {pc pc' : CallPc} (hu : pc.Undoing quiet u created s) (hfault : pc.FaultOk s.shared)
    (hcoded : ∀ k d, pc.control? = some k → pc.data? = some d → k.fault ≠ .none →
      Coded k.fault d.health)
    (hmove : CallMove config c caller s pc pc' s') :
    (∃ result, pc' = .returned result) ∨ pc'.Undoing quiet u created s' := by
  obtain ⟨hres, haged, hcreated⟩ := hu
  rcases hmove.undone hres hfault hcoded with hdone | hsame
  · exact .inl ⟨_, hdone⟩
  · cases hmove with
    | reset | arm | disarm | restoreRecord | restoreData | clearLatch =>
      exact .inr ⟨rfl, hsame ▸ haged, hcreated⟩
    | spawn | republish => exact .inl ⟨_, rfl⟩
    | wait before => rw [before.2] at hres; cases hres
    | take _ _ before => rw [before.2] at hres; cases hres
    | save _ _ _ before => rcases before with rfl | rfl <;> cases hres
    | request | command | stopIdle | reapStart | reapStop | bias | snapshot => cases hres

/-- What the proofs below use of a reachable state. -/
structure Sys.Kept (s : Sys) : Prop where
  wf : s.Wf
  session : s.SessionWf
  fault : s.FaultWf
  coded : s.LatchedWf Coded

theorem kept_of_reachable (h : (clientLts P config).Reachable s) : s.Kept :=
  ⟨wf_of_reachable h, sessionWf_of_reachable h, faultWf_of_reachable h, coded_of_reachable h⟩

/-- The call `c` of `start` is on its way, or has returned. -/
def Sys.OnTheWay (quiet : Bool) (u : Shared) (created c : Nat) (caller : Option Nat) (op : Op)
    (s : Sys) : Prop :=
  ∃ pc, s.calls c = some ⟨caller, op, pc⟩ ∧
    ((∃ result, pc = .returned result) ∨ pc.Undoing quiet u created s)

theorem Sys.OnTheWay.step {quiet : Bool} {u : Shared} {created c : Nat} {caller : Option Nat}
    {op : Op} (hway : s.OnTheWay quiet u created c caller op) (hkept : s.Kept) {l : Label}
    (hin : s.InCall c quiet l) (hstep : s.step P config l = some s') :
    s'.OnTheWay quiet u created c caller op := by
  obtain ⟨pc, hc, hpc⟩ := hway
  by_cases hown : ∃ choice, l = .call c choice
  · obtain ⟨choice, rfl⟩ := hown
    cases Sys.step_move hstep with
    | places label => simp at label
    | @call _ call pc' t _ hc' step move =>
      cases hc.symm.trans hc'
      refine ⟨pc', Sys.setCall_calls_self .., ?_⟩
      rcases hpc with ⟨result, rfl⟩ | hu
      · cases step
      · have hnext : _ ∨ pc'.Undoing quiet u created t :=
          hu.own (hkept.fault.calls _ _ hc) (fun k d => hkept.coded.saved c _ k d hc) move
        exact hnext
  · have hothers : ∀ choice, l ≠ .call c choice := fun choice heq => hown ⟨choice, heq⟩
    refine ⟨pc, Sys.call_stays hc hothers hin.1 hstep, hpc.imp_right ?_⟩
    rintro ⟨hres, haged, hcreated⟩
    obtain ⟨hbeside, hsame⟩ := hkept.wf.aged_beside hkept.session hc hres hothers hin hstep
    exact ⟨hres, haged.trans (pc.undone_aged hbeside), hsame.trans hcreated⟩

theorem Sys.OnTheWay.run {quiet : Bool} {u : Shared} {created c : Nat} {caller : Option Nat}
    {op : Op} (hreach : (clientLts P config).Reachable s)
    (hway : s.OnTheWay quiet u created c caller op) {labels : List Label} {t : Sys}
    (hpath : (clientLts P config).Path (Sys.InCall c quiet) s labels t) :
    t.OnTheWay quiet u created c caller op :=
  Lts.Path.preserves (K := Sys.Kept) (fun _ => kept_of_reachable)
    (fun _ _ _ hin hstep hkept _ hway => hway.step hkept hin hstep) hpath hreach hway

/-- The exception leaves `start` with everything put back: without
`health()` calls in between each member is what it was in `u`. -/
structure Sys.PutBack (quiet : Bool) (u : Shared) (created : Nat) (s : Sys) : Prop where
  shared : u.Aged quiet s.shared
  same : quiet = true → s.shared = { u with clock := s.shared.clock }
  looks : u.LooksLike s.shared
  lifecycle : s.lifecycle = none
  created : s.created = created

theorem Sys.OnTheWay.thrown {quiet : Bool} {u : Shared} {created c : Nat} {caller : Option Nat}
    {op : Op} (hway : s.OnTheWay quiet u created c caller op) (hkept : s.Kept)
    {k : SavedControl} {d : SavedData} {message : String}
    (hc : s.calls c = some ⟨caller, op, .rollbackPublish k d message⟩) {choice : CallChoice}
    (hstep : s.step P config (.call c choice) = some s') :
    s'.calls c = some ⟨caller, op, .returned (.threw message)⟩ ∧
      s'.PutBack quiet u created := by
  obtain ⟨pc, hc', hpc⟩ := hway
  cases hc.symm.trans hc'
  rcases hpc with ⟨result, hreturned⟩ | ⟨hres, haged, hcreated⟩
  · cases hreturned
  cases Sys.step_move hstep with
  | places label => simp at label
  | @call _ call pc' t _ hc' step move =>
    cases hc.symm.trans hc'
    have hundone := move.undone hres (hkept.fault.calls _ _ hc)
      (fun k d => hkept.coded.saved c _ k d hc)
    cases move with
    | republish =>
      rcases hundone with hdone | hsame
      · cases hdone
      · have hback := hsame ▸ haged
        refine ⟨Sys.setCall_calls_self .., hback, ?_, hback.looksLike, rfl, hcreated⟩
        rintro rfl
        exact hback.exact
    | wait before => cases before.2
    | take _ _ before => cases before.2
    | save _ _ _ before => rcases before with hpc | hpc <;> cases hpc

/-! ## The whole call -/

/-- No other thread is inside `start` or `stop`. -/
def Sys.Alone (c : Nat) (s : Sys) (l : Label) : Prop :=
  ∀ k choice call, l = .call k choice → k ≠ c → s.calls k = some call → call.pc.part = .other

/-- The members once the thread `w` has finished and is reaped; of what
it does, only the end of `finish_session` can still be missing. -/
def Sys.reapedOf (s : Sys) : Option Nat → Shared
  | none => s.shared
  | some w =>
      { (if s.finished w then s.shared else s.shared.markStopped) with
        worker := none, activeWorkerId := none, joining := false }

/-- The members with an exited thread reaped. -/
def Sys.reaped (s : Sys) : Shared := s.reapedOf s.shared.worker

theorem Shared.Aged.markStopped {quiet : Bool} {s s' : Shared} (h : s.Aged quiet s') :
    s.markStopped.Aged quiet s'.markStopped := by
  obtain ⟨now, hnow, hclock, hquiet, heq⟩ := h
  have hkept : ∀ u : Shared, u.markStopped.clock = u.clock := by
    intro u
    unfold Shared.markStopped
    split <;> rfl
  refine ⟨now, ?_, ?_, hquiet, ?_⟩
  · rw [hkept]
    exact hnow
  · rw [hkept, hkept]
    exact hclock
  · rw [hkept, heq]
    unfold Shared.markStopped
    have hfaulted : (s.aged now s'.clock).faulted = s.faulted := rfl
    rw [hfaulted]
    split <;> rfl

theorem Sys.reapedOf_aged {quiet : Bool} (h : s.shared.Aged quiet s'.shared)
    (hfinished : ∀ w, s'.finished w = s.finished w) (left : Option Nat) :
    (s.reapedOf left).Aged quiet (s'.reapedOf left) := by
  have hlater : ∀ {a b : Shared}, a.Aged quiet b →
      Shared.Aged quiet { a with worker := none, activeWorkerId := none, joining := false }
        { b with worker := none, activeWorkerId := none, joining := false } := by
    rintro a b ⟨now, hnow, hclock, hquiet, heq⟩
    refine ⟨now, hnow, hclock, hquiet, ?_⟩
    rw [heq]
    rfl
  cases left with
  | none => exact h
  | some w =>
    dsimp only [Sys.reapedOf]
    rw [hfinished w]
    split
    · exact hlater h
    · exact hlater h.markStopped

/-- Before its last decision `start` has at most a thread to reap. -/
def CallPc.Reaping (quiet : Bool) (u : Shared) (created : Nat) (s : Sys) : CallPc → Prop
  | .startEnter _ => s.shared.workerExited = true ∧ s.shared.joining = false ∧
      u.Aged quiet s.reaped ∧ s.created = created
  | .startJoin _ w => s.shared.workerExited = true ∧
      u.Aged quiet (s.reapedOf (some w)) ∧ s.created = created
  | _ => False

theorem Sys.Kept.off_of_exited (h : s.Kept) (hexited : s.shared.workerExited = true) :
    s.shared.sessionStarted = false := by
  cases hactive : s.shared.activeWorkerId with
  | none => exact h.session.idle hactive
  | some w =>
    by_contra hon
    have hslot : w < s.created := by
      cases h.wf.slot with
      | idle hi =>
        rw [hi.active] at hactive
        cases hactive
      | held hh =>
        cases hh.active.symm.trans hactive
        rw [hh.created]
        exact Nat.lt_succ_self _
      | reaping k hr =>
        cases hr.active.symm.trans hactive
        rw [hr.created]
        exact Nat.lt_succ_self _
    obtain ⟨t, ht⟩ := Option.isSome_iff_exists.mp ((h.wf.workers.created w).mpr hslot)
    have hstream := (h.session.thread w t hactive ht).started (by simpa using hon)
    rcases (h.wf.workers.exited w t hactive ht).mp hexited with hphase | hphase <;>
      (rw [hphase] at hstream; cases hstream)

/-- The last step of a thread that has exited. -/
theorem WorkerMove.finished {t t' : Worker} {u u' : Shared} (hmove : WorkerMove t u t' u')
    (hphase : t.pc.phase = .exited) : t'.pc = .done ∧ u' = u.markStopped := by
  cases hmove with
  | quiet phase =>
    rw [hphase] at phase
    cases phase
  | connect before | start _ before | exit before =>
    rw [hphase] at before
    cases before
  | close _ phases =>
    rw [hphase] at phases
    rcases phases with ⟨hopen, -⟩ | ⟨hfinishing, -⟩
    · cases hopen
    · cases hfinishing
  | fail _ _ before =>
    rw [hphase] at before
    rcases before with hidle | hopen
    · cases hidle
    · cases hopen
  | latch code message place =>
    rw [place] at hphase
    cases hphase
  | finish _ after => exact ⟨WorkerPc.phase_eq_done after, rfl⟩

theorem Sys.SamePlaces.finished (hp : s.SamePlaces s') (w : Nat) :
    s'.finished w = s.finished w := by
  have hthread := hp.threads w
  unfold Sys.finished
  cases hs : s.workers w <;> cases hs' : s'.workers w <;> rw [hs, hs'] at hthread
  · cases hthread
  · cases hthread
  · obtain ⟨hpc, -⟩ := Prod.mk.inj (Option.some.inj hthread)
    dsimp only
    rw [hpc]

/-- The calls other than `start` and `stop`, with no session on. -/
theorem otherStep_aged {quiet : Bool} {choice : CallChoice} {pc pc' : CallPc}
    (hoff : s.shared.sessionStarted = false) (hquiet : quiet = true → pc ≠ .healthEnter)
    (h : otherStep choice s pc = some (pc', s')) :
    s.shared.Aged quiet s'.shared ∧ s'.workers = s.workers ∧ s'.created = s.created := by
  cases pc <;> dsimp only [otherStep] at h
  case biasEnter =>
    split at h <;> cases h
    refine ⟨?_, rfl, rfl⟩
    simp only [Sys.withShared, bias_same hoff]
    exact .refl quiet _
  case healthEnter =>
    cases h
    cases quiet with
    | false => exact ⟨.snapshot _, rfl, rfl⟩
    | true => exact absurd rfl (hquiet rfl)
  all_goals
    (repeat' split at h) <;> cases h
    all_goals exact ⟨.refl quiet _, rfl, rfl⟩

/-- The end of `finish_session` was expected. -/
theorem Sys.reapedOf_finish {w : Nat} {t t' : Worker} {shared' : Shared}
    (ht : s.workers w = some t) (hrun : t.pc.phase = .exited) (hdone : t'.pc = .done)
    (hshared : shared' = s.shared.markStopped) :
    ((s.withShared shared').setWorker w t').reapedOf (some w) = s.reapedOf (some w) := by
  have hbefore : s.finished w = false := by
    unfold Sys.finished
    rw [ht]
    refine decide_eq_false fun hpc => ?_
    rw [hpc] at hrun
    cases hrun
  have hafter : ((s.withShared shared').setWorker w t').finished w = true := by
    simp [Sys.finished, Sys.setWorker, hdone]
  simp only [Sys.reapedOf, hbefore, hafter, if_true, Bool.false_eq_true, if_false]
  rw [← hshared]
  rfl

/-- The thread that is still to be reaped. -/
theorem Sys.Wf.worker_of_active (hwf : s.Wf) {w : Nat} (hactive : s.shared.activeWorkerId = some w)
    (hjoining : s.shared.joining = false) : s.shared.worker = some w := by
  cases hwf.slot with
  | idle hi =>
    rw [hi.active] at hactive
    cases hactive
  | held hh => exact hh.worker.trans (hh.active.symm.trans hactive)
  | reaping k hr =>
    rw [hr.joining] at hjoining
    cases hjoining

/-- What the others do before the last decision. -/
theorem CallPc.Reaping.beside {quiet : Bool} {u : Shared} {created c : Nat} {call : Call}
    {l : Label} (hr : call.pc.Reaping quiet u created s) (hkept : s.Kept)
    (hc : s.calls c = some call) (hown : ∀ choice, l ≠ .call c choice)
    (hin : s.InCall c quiet l) (halone : s.Alone c l) (hstep : s.step P config l = some s') :
    call.pc.Reaping quiet u created s' := by
  obtain ⟨caller, op, pc⟩ := call
  have hexited : s.shared.workerExited = true := by
    cases pc <;> first | exact hr.1 | exact hr.elim
  have hkeeps : s.shared.Aged quiet s'.shared → (∀ w, s'.finished w = s.finished w) →
      s'.created = s.created → pc.Reaping quiet u created s' := by
    intro haged hfinished hcreated
    have hleft := s.reapedOf_aged haged hfinished
    obtain ⟨now, -, -, -, heq⟩ := id haged
    have hworker : s'.shared.worker = s.shared.worker := by rw [heq]; rfl
    have hjoining : s'.shared.joining = s.shared.joining := by rw [heq]; rfl
    have hexit : s'.shared.workerExited = s.shared.workerExited := by rw [heq]; rfl
    cases pc
    case startEnter =>
      obtain ⟨-, hfree, hu, hsame⟩ := hr
      refine ⟨hexit.trans hexited, hjoining.trans hfree, ?_, hcreated.trans hsame⟩
      unfold Sys.reaped at hu ⊢
      rw [hworker]
      exact hu.trans (hleft _)
    case startJoin w =>
      obtain ⟨-, hu, hsame⟩ := hr
      exact ⟨hexit.trans hexited, hu.trans (hleft _), hcreated.trans hsame⟩
    all_goals exact hr.elim
  cases Sys.step_move hstep with
  | tick ticks => exact hkeeps (.tick quiet _ ticks) (fun _ => rfl) rfl
  | places label places =>
    exact hkeeps (places.shared ▸ .refl quiet _) places.finished places.created
  | @call k other pc' t choice hk step _ =>
    have hne : k ≠ c := fun heq => hown choice (heq ▸ rfl)
    have hpart := halone k choice other rfl hne hk
    have hother : otherStep choice s other.pc = some (pc', t) := by
      simpa only [callStep, hpart] using step
    obtain ⟨haged, hworkers, hcreated⟩ := otherStep_aged (hkept.off_of_exited hexited)
      (fun hq => hin.2 hq k choice other rfl hk) hother
    refine hkeeps haged (fun w => ?_) hcreated
    simp only [Sys.finished, Sys.setCall, hworkers]
  | @worker w t t' shared' choice ht _ move =>
    have hactive := hkept.wf.active_of_running ht move.lifecycle.1
    have hphase : t.pc.phase = .exited :=
      ((hkept.wf.workers.exited w t hactive ht).mp hexited).resolve_right move.lifecycle.1
    obtain ⟨hdone, hshared⟩ := move.finished hphase
    have hsame := Sys.reapedOf_finish ht hphase hdone hshared
    have hexit : shared'.workerExited = true := by
      rw [hshared]
      exact (markStopped_handles _).exited.trans hexited
    cases pc
    case startEnter callback =>
      obtain ⟨-, hfree, hu, hcreated⟩ := hr
      have hworker := hkept.wf.worker_of_active hactive hfree
      have hhandle : shared'.worker = some w := by
        rw [hshared]
        exact (markStopped_handles _).worker.trans hworker
      have hjoining : shared'.joining = false := by
        rw [hshared]
        exact (markStopped_handles _).joining.trans hfree
      refine ⟨hexit, hjoining, ?_, hcreated⟩
      have hleft : ((s.withShared shared').setWorker w t').shared.worker = some w := hhandle
      unfold Sys.reaped at hu ⊢
      rw [hleft, hsame]
      rwa [hworker] at hu
    case startJoin callback v =>
      obtain ⟨-, hu, hcreated⟩ := hr
      obtain ⟨hreap, rfl⟩ := hkept.wf.reaping_of_joins hc rfl
      obtain rfl : w = s.joined.length := Option.some.inj (hactive.symm.trans hreap.active)
      exact ⟨hexit, hsame ▸ hu, hcreated⟩
    all_goals exact hr.elim

theorem markStopped_taken (s : Shared) :
    ({ ({ s with joining := true, worker := none } : Shared).markStopped with
      worker := none, activeWorkerId := none, joining := false } : Shared)
      = { s.markStopped with worker := none, activeWorkerId := none, joining := false } := by
  unfold Shared.markStopped
  have hfaulted : ({ s with joining := true, worker := none } : Shared).faulted = s.faulted := rfl
  rw [hfaulted]
  split <;> rfl

/-- A section of `start` before its last decision, and the decision. -/
theorem CallPc.Reaping.own {quiet : Bool} {u : Shared} {created c : Nat} {call : Call}
    {choice : CallChoice} {pc' : CallPc} (hr : call.pc.Reaping quiet u created s) (hkept : s.Kept)
    (hc : s.calls c = some call) (hstep : callStep config c call choice s = some (pc', s')) :
    (∃ result, pc' = .returned result) ∨ pc'.Reaping quiet u created s' ∨
      pc'.Undoing quiet u created s' := by
  obtain ⟨caller, op, pc⟩ := call
  cases pc
  case startEnter callback =>
    obtain ⟨hexited, hfree, hu, hcreated⟩ := hr
    dsimp only [callStep, CallPc.part, startStep] at hstep
    split at hstep
    · cases hstep
    split at hstep
    · cases hstep
      exact .inl ⟨_, rfl⟩
    split at hstep
    · rename_i hjoining
      rw [hfree] at hjoining
      cases hjoining
    have hdecide := Option.some.inj hstep
    unfold startDecide at hdecide
    unfold Sys.reaped at hu
    split at hdecide
    · rename_i w hworker
      rw [hworker] at hu
      split at hdecide
      · rename_i hrunning
        rw [hexited] at hrunning
        cases hrunning
      · cases hdecide
        refine .inr (.inl ⟨hexited, ?_, hcreated⟩)
        have hleft : (s.withShared { s.shared with joining := true, worker := none }).reapedOf
            (some w) = s.reapedOf (some w) := by
          have hfinished : (s.withShared
              { s.shared with joining := true, worker := none }).finished w = s.finished w := rfl
          dsimp only [Sys.reapedOf]
          rw [hfinished]
          split
          · rfl
          · exact markStopped_taken s.shared
        exact hleft ▸ hu
    · rename_i hworker
      rw [hworker] at hu
      cases hdecide
      -- what is undone at once is what was saved a moment ago
      exact .inr (.inr ⟨rfl, hu, hcreated⟩)
  case startJoin callback w =>
    obtain ⟨hexited, hu, hcreated⟩ := hr
    have hworker := (hkept.wf.reaping_of_joins hc rfl).1.worker
    dsimp only [callStep, CallPc.part, startStep] at hstep
    split at hstep
    · rename_i hfinished
      cases hstep
      refine .inr (.inl ⟨hexited, rfl, ?_, hcreated⟩)
      have hleft : (s.reap w caller).reaped = s.reapedOf (some w) := by
        simp only [Sys.reaped, Sys.reap, Sys.reapedOf, hworker, hfinished.2, if_true]
      exact hleft ▸ hu
    · cases hstep
  all_goals exact hr.elim

/-- The call `c` of `start` is reaping, on its way, or has returned. -/
def Sys.Attempting (quiet : Bool) (u : Shared) (created c : Nat) (caller : Option Nat) (op : Op)
    (s : Sys) : Prop :=
  (∃ pc, s.calls c = some ⟨caller, op, pc⟩ ∧ pc.Reaping quiet u created s) ∨
    s.OnTheWay quiet u created c caller op

theorem Sys.Attempting.step {quiet : Bool} {u : Shared} {created c : Nat} {caller : Option Nat}
    {op : Op} (hstart : s.Attempting quiet u created c caller op) (hkept : s.Kept) {l : Label}
    (hin : s.InCall c quiet l) (halone : s.Alone c l) (hstep : s.step P config l = some s') :
    s'.Attempting quiet u created c caller op := by
  rcases hstart with ⟨pc, hc, hr⟩ | hway
  · by_cases hown : ∃ choice, l = .call c choice
    · obtain ⟨choice, rfl⟩ := hown
      cases Sys.step_move hstep with
      | places label => simp at label
      | @call _ call pc' t _ hc' step move =>
        cases hc.symm.trans hc'
        have hnext := hr.own hkept hc step
        have hcall := Sys.setCall_calls_self t c (some ⟨caller, op, pc'⟩)
        rcases hnext with hreturned | hreaping | hundoing
        · exact .inr ⟨pc', hcall, .inl hreturned⟩
        · refine .inl ⟨pc', hcall, ?_⟩
          cases pc' <;> exact hreaping
        · exact .inr ⟨pc', hcall, .inr hundoing⟩
    · have hothers : ∀ choice, l ≠ .call c choice := fun choice heq => hown ⟨choice, heq⟩
      exact .inl ⟨pc, Sys.call_stays hc hothers hin.1 hstep,
        hr.beside hkept hc hothers hin halone hstep⟩
  · exact .inr (hway.step hkept hin hstep)

theorem Sys.Attempting.run {quiet : Bool} {u : Shared} {created c : Nat} {caller : Option Nat}
    {op : Op} (hreach : (clientLts P config).Reachable s)
    (hstart : s.Attempting quiet u created c caller op) {labels : List Label} {t : Sys}
    (hpath : (clientLts P config).Path (fun s l => s.InCall c quiet l ∧ s.Alone c l) s labels t) :
    t.Attempting quiet u created c caller op :=
  Lts.Path.preserves (K := Sys.Kept) (fun _ => kept_of_reachable)
    (fun _ _ _ hok hstep hkept _ hstart => hstart.step hkept hok.1 hok.2 hstep) hpath hreach hstart

/-! ## A start that fails changes nothing -/

/-- The places of the rollback. -/
def CallPc.rollsBack : CallPc → Bool
  | .rollbackRecord _ _ _ | .rollbackData _ _ _ | .rollbackLatch _ _ _
  | .rollbackPublish _ _ _ => true
  | _ => false

theorem rollback_steps (P : Platform) (config : Config) {c : Nat} {call : Call}
    (hc : s.calls c = some call) (hpc : call.pc.rollsBack = true) :
    (s.step P config (.call c .go)).isSome = true := by
  obtain ⟨caller, op, pc⟩ := call
  cases pc
  case rollbackRecord | rollbackData | rollbackLatch | rollbackPublish =>
    simp [Sys.step, hc, callStep, CallPc.part, startStep]
  all_goals cases hpc

end System

/-- **A `start` that fails to create its thread changes nothing.** The
client has no running receive thread when the call begins and no other
thread is in `start` or `stop` until it throws: then each member is what
it was, except that an exited thread has been reaped. From the last
decision of `start` on, whatever the other threads do, each member is
what it was then. Other threads' `health()` calls show in neither case,
but may have cut stale entries from the rate windows. The rollback never
has to wait. -/
theorem failed_start_changes_nothing (P : Platform) (config : Config) (quiet : Bool) {s : Sys}
    (hreach : (clientLts P config).Reachable s) {c : Nat} {caller : Option Nat} {op : Op} :
    (∀ callback labels t k d message choice t', s.shared.workerExited = true →
      s.shared.joining = false → s.calls c = some ⟨caller, op, .startEnter callback⟩ →
      (clientLts P config).Path (fun s l => s.InCall c quiet l ∧ s.Alone c l) s labels t →
      t.calls c = some ⟨caller, op, .rollbackPublish k d message⟩ →
      t.step P config (.call c choice) = some t' →
      t'.calls c = some ⟨caller, op, .returned (.threw message)⟩ ∧
        t'.PutBack quiet s.reaped s.created) ∧
    (∀ choice s₁ callback k₁ labels t k d message choice' t',
      s.step P config (.call c choice) = some s₁ →
      s₁.calls c = some ⟨caller, op, .startSaved callback k₁⟩ →
      (clientLts P config).Path (Sys.InCall c quiet) s₁ labels t →
      t.calls c = some ⟨caller, op, .rollbackPublish k d message⟩ →
      t.step P config (.call c choice') = some t' →
      t'.calls c = some ⟨caller, op, .returned (.threw message)⟩ ∧
        t'.PutBack quiet s.shared s.created) ∧
    (∀ k d message t, s.calls c = some ⟨caller, op, .startArmed k d⟩ →
      s.step P config (.call c (.threadFails message)) = some t →
      t.calls c = some ⟨caller, op, .rollbackRecord k d message⟩) ∧
    ∀ call, s.calls c = some call → call.pc.rollsBack = true →
      (s.step P config (.call c .go)).isSome = true := by
  refine ⟨?_, ?_, ?_, fun call hc hpc => rollback_steps P config hc hpc⟩
  · intro callback labels t k d message choice t' hexited hfree hc hpath ht hstep
    have hstart : s.Attempting quiet s.reaped s.created c caller op :=
      .inl ⟨_, hc, hexited, hfree, .refl quiet _, rfl⟩
    have hkept := kept_of_reachable (hpath.reachable hreach)
    rcases hstart.run hreach hpath with ⟨pc, hc', hr⟩ | hway
    · cases ht.symm.trans hc'
      exact hr.elim
    · exact hway.thrown hkept ht hstep
  · intro choice s₁ callback k₁ labels t k d message choice' t' hsave hc hpath ht hstep
    have hreach₁ : (clientLts P config).Reachable s₁ := 
      Lts.Reachable.step (l := .call c choice) hreach hsave
    have hkept := kept_of_reachable (hpath.reachable hreach₁)
    have hway : s₁.OnTheWay quiet s.shared s.created c caller op := by
      cases Sys.step_move hsave with
      | places label => simp at label
      | @call _ call pc' v _ hc' step move =>
        rw [Sys.setCall_calls_self] at hc
        obtain ⟨caller, op, pc⟩ := call
        cases Option.some.inj hc
        refine ⟨_, Sys.setCall_calls_self .., .inr ?_⟩
        dsimp only at move
        cases move with
        | save => exact ⟨rfl, .refl quiet _, rfl⟩
        | wait _ after => cases after.2
        | take _ _ _ _ after => cases after
    exact (hway.run hreach₁ hpath).thrown hkept ht hstep
  · intro k d message t hc hstep
    simp only [Sys.step, hc, callStep, CallPc.part, startStep, Option.map_some] at hstep
    cases hstep
    exact Sys.setCall_calls_self ..

/-! ## A faulted client -/

/-- The rest of a second `start`, from its entry to the last section of
its rollback. -/
def failingSections : List Label :=
  [.call 1 .go, .call 1 .go, .call 1 .go, .call 1 .go, .call 1 .go,
   .call 1 (.threadFails "no thread"), .call 1 .go, .call 1 .go, .call 1 .go]

/-- It has run into the exception of `std::thread`, in its rollback. -/
def isFailing : Option Call → Bool
  | some ⟨caller, op, .rollbackPublish _ _ message⟩ =>
      decide (caller = none ∧ op = .start (some 8) ∧ message = "no thread")
  | _ => false

/-- Only the call 1 moves, and it is no `health()`. -/
def ownSection (s : Sys) : Label → Bool
  | .call 1 _ => decide ((s.calls 1).map (·.pc) ≠ some .healthEnter)
  | _ => false

theorem alone_of_ownSection (s : Sys) (l : Label) (h : ownSection s l = true) :
    s.InCall 1 true l ∧ s.Alone 1 l := by
  unfold ownSection at h
  split at h
  · have hpc := of_decide_eq_true h
    refine ⟨⟨fun heq => (by cases heq), fun _ k choice call heq hk => ?_⟩,
      fun k choice call heq hne => ?_⟩
    · cases heq
      rw [hk] at hpc
      exact fun hhealth => hpc (congrArg some hhealth)
    · cases heq
      exact absurd rfl hne
  · cases h

/-- The client is faulted, its thread has exited and is not joined yet.
After the failed `start` it is joined, and the fault is as it was. -/
theorem failed_start_changes_nothing_faulted :
    ∃ s t : Sys, (clientLts exactPlatform faultingConfig).Reachable s ∧
      s.shared.worker = some 0 ∧
      s.shared.faultLatch = .socket ∧
      t.calls 1 = some ⟨none, .start (some 8), .returned (.threw "no thread")⟩ ∧
      t.PutBack true s.reaped s.created ∧ t.shared.faultLatch = .socket := by
  have hinit : (clientLts exactPlatform faultingConfig).Reachable (Sys.new faultingConfig 1000) :=
    .init ⟨1000, by decide +kernel, rfl⟩
  obtain ⟨s, hs, hp⟩ := Lts.exists_of_exec (l := faultingRun ++ [.invoke 1 none (.start (some 8))])
    (p := fun s : Sys => decide (s.shared.workerExited = true ∧ s.shared.joining = false ∧
        s.calls 1 = some ⟨none, .start (some 8), .startEnter (some 8)⟩ ∧
        s.shared.worker = some 0 ∧ s.shared.faultLatch = .socket) &&
      ((clientLts exactPlatform faultingConfig).execChecked ownSection s failingSections).any
        fun t => isFailing (t.calls 1))
    hinit (by decide +kernel)
  obtain ⟨hbefore, hrun⟩ := Bool.and_eq_true_iff.mp hp
  obtain ⟨hexited, hfree, hc, hworker, hlatch⟩ := of_decide_eq_true hbefore
  obtain ⟨t, hexec, hplace⟩ := (Option.any_eq_true _ _).mp hrun
  have hpath := Lts.path_of_execChecked ownSection alone_of_ownSection hexec
  unfold isFailing at hplace
  split at hplace
  · rename_i caller op k d message ht
    obtain ⟨rfl, rfl, rfl⟩ := of_decide_eq_true hplace
    have hpc : (CallPc.rollbackPublish k d "no thread").rollsBack = true := rfl
    obtain ⟨t', hstep⟩ := Option.isSome_iff_exists.mp
      (rollback_steps exactPlatform faultingConfig ht hpc)
    obtain ⟨hthrew, hback⟩ := (failed_start_changes_nothing exactPlatform faultingConfig true hs).1
      (some 8) _ t k d "no thread" .go t' hexited hfree hc hpath ht hstep
    have hreaped : s.reaped.faultLatch = s.shared.faultLatch := by
      simp only [Sys.reaped, Sys.reapedOf, hworker]
      split
      · rfl
      · exact markStopped_latch s.shared
    exact ⟨s, t', hs, hworker, hlatch, hthrew, hback,
      hback.looks.faultLatch.trans (hreaped.trans hlatch)⟩
  · cases hplace

end PyNetFT.Core
