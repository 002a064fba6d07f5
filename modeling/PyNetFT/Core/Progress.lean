/-
PyNetFT.Core.Progress — what the waits of a client can come to.

A call of the client waits for the lifecycle lock, for another call that
is joining, for the receive thread, or for its own deadline. The receive
thread waits for the network, for its backoff, or for a call its callback
has made, and that call can wait for the lock in turn. `no_deadlock`
follows this chain: whatever a call waits for, something on the chain can
move, if need be after some time and with a network that stays silent.

The model has no notifications: a wait is over when its predicate holds.
For three kinds of wait that is what the source does. `joining_` changes
under the lifecycle lock and is notified afterwards; the waits for a
first sample and for a backoff have deadlines. The fourth is `start` on a
faulted client that waits for the old thread to leave. `finish_session`
stores `worker_exited_` and notifies without the lifecycle lock, and a
`start` that has just found its predicate false misses it and sleeps
until the next notification. So that wait is not said to end: such a call
never counts as one that can move, and of it `no_deadlock` says only that
the chain moves as long as the thread is there.

Moving is not yet returning. `bounded_waiting` bounds the two waits that
`stop` depends on: the lock is given back within seven steps of its
owner, and a thread that is being joined by `stop` takes at most twelve
more steps, not counting waits that a signal interrupts. The rank of a
place (`WorkerPc.stopRank`, `CallPc.lockRank`) is the length of the longest
way out of it once `stopping_` is set.
-/
import PyNetFT.Core.Sessions
import PyNetFT.Lib.Ranking
import Mathlib.Logic.Relation

namespace PyNetFT.Core

open PyNetFT.Lib

variable {P : Platform} {config : Config} {s s' : Sys}

/-! ## Who is inside which callback -/

/-- The call a callback is inside of was made by its thread. -/
def Sys.NestedWf (s : Sys) : Prop :=
  ∀ w t c, s.workers w = some t → t.nested = some c →
    ∃ call, s.calls c = some call ∧ call.caller = some w

theorem Sys.NestedWf.invoke (h : s.NestedWf) {c : Nat} {caller : Option Nat} {op : Op}
    (hstep : s.invoke c caller op = some s') : s'.NestedWf := by
  unfold Sys.invoke at hstep
  split at hstep
  · cases hstep
  rename_i hfresh
  -- the calls that were there are still there
  have hold : ∀ (u : Sys) (call : Option Call) (k : Nat) (call' : Call), u.calls = s.calls →
      s.calls k = some call' → (u.setCall c call).calls k = some call' := by
    intro u call k call' hu hk
    have hne : k ≠ c := by
      rintro rfl
      simp [hk] at hfresh
    rw [Sys.setCall_calls_of_ne _ _ hne, hu]
    exact hk
  split at hstep
  · cases hstep
    intro w t k ht hnested
    obtain ⟨call, hcall, hcaller⟩ := h w t k ht hnested
    exact ⟨call, hold s _ k call rfl hcall, hcaller⟩
  · rename_i v
    split at hstep
    · cases hstep
    · rename_i u hu
      split at hstep
      · cases hstep
        intro w t k ht hnested
        by_cases hw : w = v
        · subst hw
          simp only [Sys.setWorker, Sys.setCall_workers, Function.update_self,
            Option.some.injEq] at ht
          subst ht
          cases hnested
          exact ⟨_, Sys.setCall_calls_self _ _ _, rfl⟩
        · obtain ⟨call, hcall, hcaller⟩ :=
            h w t k (by simpa [Sys.setWorker, hw] using ht) hnested
          exact ⟨call, hold (s.setWorker v { u with nested := some c }) _ k call rfl hcall,
            hcaller⟩
      · cases hstep

theorem Sys.NestedWf.collect (h : s.NestedWf) {c : Nat} (hstep : s.collect c = some s') :
    s'.NestedWf := by
  unfold Sys.collect at hstep
  split at hstep
  · rename_i caller op result hc
    -- a thread that is not the caller was inside another call
    have hother : ∀ (u : Sys) (w : Nat) (t : Worker) (k : Nat), u.calls = s.calls →
        s.workers w = some t → t.nested = some k → caller ≠ some w →
        ∃ call, (u.setCall c none).calls k = some call ∧ call.caller = some w := by
      intro u w t k hu ht hnested hne
      obtain ⟨call, hcall, hcaller⟩ := h w t k ht hnested
      have hkc : k ≠ c := by
        rintro rfl
        rw [hc] at hcall
        cases hcall
        exact hne hcaller
      exact ⟨call, by rw [Sys.setCall_calls_of_ne _ _ hkc, hu]; exact hcall, hcaller⟩
    split at hstep
    · cases hstep
      intro w t k ht hnested
      exact hother s w t k rfl ht hnested (by simp)
    · rename_i v
      split at hstep
      · cases hstep
      · rename_i u hu
        cases hstep
        intro w t k ht hnested
        by_cases hw : w = v
        · subst hw
          simp only [Sys.setWorker, Sys.setCall_workers, Function.update_self,
            Option.some.injEq] at ht
          subst ht
          cases hnested
        · have ht' : s.workers w = some t := by simpa [Sys.setWorker, hw] using ht
          refine hother (s.setWorker v { u with nested := none }) w t k rfl ht' hnested ?_
          rintro heq
          exact hw (Option.some.inj heq).symm
  · cases hstep

theorem Sys.NestedWf.step (h : s.NestedWf) {l : Label} (hstep : s.step P config l = some s') :
    s'.NestedWf := by
  cases l with
  | invoke c caller op => exact h.invoke hstep
  | collect c => exact h.collect hstep
  | tick ticks =>
    cases hstep
    exact h
  | call c choice =>
    cases Sys.step_move hstep with
    | places label => simp at label
    | @call _ call pc' u _ hc _ move =>
      obtain ⟨caller, op, pc⟩ := call
      dsimp only at move
      intro w t k ht hnested
      have hworker : s.workers w = some t := by
        by_contra hne
        -- only a new thread is not an old one, and it is inside no call
        cases move with
        | spawn =>
          simp only [Sys.setCall_workers, Sys.spawn, Function.update_apply] at ht
          split at ht
          · cases ht
            cases hnested
          · exact hne ht
        | _ => exact hne ht
      obtain ⟨call', hcall', hcaller⟩ := h w t k hworker hnested
      by_cases hk : k = c
      · subst hk
        rw [hc] at hcall'
        cases hcall'
        exact ⟨_, Sys.setCall_calls_self _ _ _, hcaller⟩
      · refine ⟨call', ?_, hcaller⟩
        rw [Sys.setCall_calls_of_ne _ _ hk, callMove_calls move]
        exact hcall'
  | worker v choice =>
    cases Sys.step_move hstep with
    | places label => simp at label
    | @worker _ u u' shared' _ hu step _ =>
      intro w t k ht hnested
      by_cases hw : w = v
      · subst hw
        simp only [Sys.setWorker, Function.update_self, Option.some.injEq] at ht
        subst ht
        rw [(workerStep_nested step).2] at hnested
        cases hnested
      · exact h w t k (by simpa [Sys.setWorker, Sys.withShared, hw] using ht) hnested

theorem nestedWf_of_reachable (h : (clientLts P config).Reachable s) : s.NestedWf := by
  refine Lts.Reach.invariant ?_ ?_ h
  · rintro s ⟨clock, -, rfl⟩ w t c ht
    cases ht
  · intro s l t _ hstep hs
    exact hs.step hstep

/-! ## What can move -/

/-- The label is enabled, at the latest after some time. -/
def Sys.Enabled (P : Platform) (config : Config) (s : Sys) (l : Label) : Prop :=
  ∃ ticks u, (clientLts P config).exec s [.tick ticks, l] = some u

/-- What a receive thread waits for at a place: the answer of the network
with nothing on it, or of a callback that returns. -/
def WorkerPc.answer : WorkerPc → WorkerChoice
  | .configure => .http (.failed "")
  | .connect => .connect none
  | .startRealtime | .sessionDone _ | .finishClose => .send .sent
  | .receivePoll _ _ => .poll .expired
  | .receiveRecv _ => .recv .interrupted
  | .callback _ _ _ => .callbackReturns
  | _ => .go

/-- How long it waits at most: for a datagram or the end of a backoff. -/
def WorkerPc.wait (clock : TimePoint) : WorkerPc → Nat
  | .receivePoll _ polling => polling.since + pollMilliseconds polling.remaining * 1000000 - clock
  | .backoffWait deadline => deadline - clock
  | _ => 0

/-- A thread that has not finished goes on when it is answered. -/
theorem workerStep_answer {w : Nat} {t : Worker} (shared : Shared) (hrun : t.pc ≠ .done)
    (hnested : t.nested = none) :
    (workerStep P config w t.pc.answer t
      { shared with clock := shared.clock + t.pc.wait shared.clock }).isSome = true := by
  obtain ⟨pc, backoff, nested⟩ := t
  obtain rfl : nested = none := hnested
  cases pc with
  | done => exact absurd rfl hrun
  | receivePoll rx polling =>
    have hover : polling.since + pollMilliseconds polling.remaining * 1000000 ≤ shared.clock +
        (polling.since + pollMilliseconds polling.remaining * 1000000 - shared.clock) :=
      le_add_tsub
    simp [workerStep, WorkerPc.part, WorkerPc.answer, WorkerPc.wait, transportStep, hover]
  | backoffWait deadline =>
    have hover : deadline ≤ shared.clock + (deadline - shared.clock) := le_add_tsub
    simp [workerStep, WorkerPc.part, WorkerPc.wait, runStep, hover]
  | _ =>
    simp only [workerStep, Option.isSome_none, Bool.false_eq_true, if_false, WorkerPc.part,
      WorkerPc.answer, WorkerPc.wait, runStep, connectStep, configureStep, transportStep,
      receiveStep, recordStep, Option.isSome_map]
    try repeat' split
    all_goals rfl

theorem Sys.enabled_worker {w : Nat} {t : Worker} (ht : s.workers w = some t)
    (hrun : t.pc ≠ .done) (hnested : t.nested = none) :
    s.Enabled P config (.worker w t.pc.answer) := by
  obtain ⟨r, hr⟩ := Option.isSome_iff_exists.mp (workerStep_answer s.shared hrun hnested)
  refine ⟨t.pc.wait s.shared.clock, (s.withShared r.2).setWorker w r.1, ?_⟩
  simp only [Lts.exec, clientLts, Sys.step, Sys.withShared, Option.bind_some, ht]
  rw [hr]
  rfl

/-- What a call waits for that holds the lock or needs none: its sends go
through, its thread can be created. -/
def CallPc.answer : CallPc → CallChoice
  | .stopCommand => .send .sent
  | .biasEnter => .sends .sent .sent
  | _ => .go

def CallPc.wait (clock : TimePoint) : CallPc → Nat
  | .waitSleep deadline _ => deadline - clock
  | _ => 0

theorem Sys.enabled_call {c : Nat} {call : Call} (choice : CallChoice)
    (hc : s.calls c = some call) (ticks : Nat)
    (h : (callStep config c call choice
      (s.withShared { s.shared with clock := s.shared.clock + ticks })).isSome = true) :
    s.Enabled P config (.call c choice) := by
  obtain ⟨r, hr⟩ := Option.isSome_iff_exists.mp h
  refine ⟨ticks, r.2.setCall c (some { call with pc := r.1 }), ?_⟩
  simp only [Lts.exec, clientLts, Sys.step, Option.bind_some]
  simp only [Sys.withShared] at hr ⊢
  simp only [hc, hr]
  rfl

/-- The owner of the lock goes on by itself. -/
theorem callStep_holds {c : Nat} {call : Call} (hholds : call.pc.holds = true) :
    (callStep config c call call.pc.answer s).isSome = true := by
  obtain ⟨caller, op, pc⟩ := call
  cases pc with
  | stopDecide =>
    simp only [callStep, CallPc.part, stopStep]
    repeat' split
    all_goals rfl
  | _ => first | rfl | cases hholds

/-- So does a call of the functions that do not take the lock. -/
theorem callStep_other {c : Nat} {call : Call} (hpart : call.pc.part = .other)
    (hreturned : ∀ result, call.pc ≠ .returned result) :
    (callStep config c call call.pc.answer (s.withShared
      { s.shared with clock := s.shared.clock + call.pc.wait s.shared.clock })).isSome = true := by
  obtain ⟨caller, op, pc⟩ := call
  cases pc with
  | returned result => exact absurd rfl (hreturned result)
  | waitSleep deadline generation =>
    have hover : deadline ≤ s.shared.clock + (deadline - s.shared.clock) := le_add_tsub
    simp [callStep, CallPc.part, CallPc.wait, otherStep, Sys.withShared, hover]
  | waitEnter timeout =>
    simp only [callStep, CallPc.part, otherStep]
    split <;> rfl
  | waitCapture deadline =>
    simp only [callStep, CallPc.part, otherStep, apply_ite Option.isSome, Option.isSome_some,
      ite_self]
  | _ => first | rfl | cases hpart

/-! ## Who waits for whom -/

/-- The parties of a run. -/
inductive Party where
  | call (c : Nat)
  | thread (w : Nat)
  deriving DecidableEq

/-- The places that go on as soon as they get the lock, or when another
call or the thread is out of the way. -/
def CallPc.takesLock : CallPc → Bool
  | .startEnter _ | .startAwaitJoin _ | .startAwaitExit _ | .startJoin _ _ | .stopEnter
  | .stopAwaitJoin | .stopJoin _ => true
  | _ => false

/-- One party waits for another. -/
inductive Sys.WaitsFor (s : Sys) : Party → Party → Prop where
  | lock {c d : Nat} {call : Call} (present : s.calls c = some call)
      (takes : call.pc.takesLock = true) (owner : s.lifecycle = some d) :
      s.WaitsFor (.call c) (.call d)
  | joiner {c d : Nat} {call other : Call} (present : s.calls c = some call)
      (awaits : call.pc = .stopAwaitJoin ∨ ∃ callback, call.pc = .startAwaitJoin callback)
      (joining : s.calls d = some other) (joins : other.pc.joins.isSome = true) :
      s.WaitsFor (.call c) (.call d)
  | exit {c w : Nat} {call : Call} {callback : Option Nat} (present : s.calls c = some call)
      (awaits : call.pc = .startAwaitExit callback) (active : s.shared.activeWorkerId = some w) :
      s.WaitsFor (.call c) (.thread w)
  | join {c w : Nat} {call : Call} (present : s.calls c = some call)
      (joins : call.pc.joins = some w) : s.WaitsFor (.call c) (.thread w)
  | nested {w c : Nat} {t : Worker} (present : s.workers w = some t)
      (nested : t.nested = some c) : s.WaitsFor (.thread w) (.call c)

/-- The wait whose notification can come before the call sleeps. -/
def CallPc.awaitsExit : CallPc → Bool
  | .startAwaitExit _ => true
  | _ => false

/-- A party can take its next step, at the latest after some time; a call
that has returned can be taken off. A call that can miss its notification
does not count. -/
def Sys.CanGo (P : Platform) (config : Config) (s : Sys) : Party → Prop
  | .call c => (∀ call, s.calls c = some call → call.pc.awaitsExit = false) ∧
      ((∃ choice, s.Enabled P config (.call c choice)) ∨ s.Enabled P config (.collect c))
  | .thread w => ∃ choice, s.Enabled P config (.worker w choice)

/-- What the party waits for, or what that waits for in turn, can move. -/
def Sys.Unblocked (P : Platform) (config : Config) (s : Sys) (p : Party) : Prop :=
  ∃ q, Relation.ReflTransGen s.WaitsFor p q ∧ s.CanGo P config q

theorem Sys.Unblocked.of_canGo {p : Party} (h : s.CanGo P config p) : s.Unblocked P config p :=
  ⟨p, .refl, h⟩

theorem Sys.Unblocked.of_call {c : Nat} {call : Call} (hc : s.calls c = some call)
    (hpc : call.pc.awaitsExit = false)
    (h : (∃ choice, s.Enabled P config (.call c choice)) ∨ s.Enabled P config (.collect c)) :
    s.Unblocked P config (.call c) := by
  refine .of_canGo ⟨fun call' hc' => ?_, h⟩
  rw [hc] at hc'
  cases hc'
  exact hpc

theorem Sys.Unblocked.head {p q : Party} (hpq : s.WaitsFor p q) (h : s.Unblocked P config q) :
    s.Unblocked P config p := by
  obtain ⟨r, hqr, hr⟩ := h
  exact ⟨r, .head hpq hqr, hr⟩

section Chain

variable {c : Nat} {call : Call}

theorem Sys.Wf.unblocked_owner (hwf : s.Wf) (howner : s.lifecycle = some c) :
    s.Unblocked P config (.call c) := by
  obtain ⟨call, hc, hholds⟩ := (hwf.calls.owner c).mp howner
  have hpc : call.pc.awaitsExit = false := by
    cases hpc : call.pc <;> first | rfl | (rw [hpc] at hholds; cases hholds)
  exact .of_call hc hpc (.inl ⟨_, Sys.enabled_call _ hc 0 (callStep_holds hholds)⟩)

/-- A call at a place that takes the lock, when nothing but the lock is
in the way. -/
theorem Sys.Wf.unblocked_takes (hwf : s.Wf) (hc : s.calls c = some call)
    (htakes : call.pc.takesLock = true)
    (hfree : s.lifecycle = none → s.Unblocked P config (.call c)) :
    s.Unblocked P config (.call c) := by
  cases hlock : s.lifecycle with
  | none => exact hfree hlock
  | some d => exact .head (.lock hc htakes hlock) (hwf.unblocked_owner hlock)

/-- The head of `start` and `stop`, and every place that is not a wait for
another party. -/
theorem Sys.Wf.unblocked_inside (hwf : s.Wf) (hc : s.calls c = some call)
    (hplace : call.pc.outside = false ∨ call.pc.holds = true) :
    s.Unblocked P config (.call c) := by
  by_cases hholds : call.pc.holds = true
  · exact hwf.unblocked_owner ((hwf.calls.owner c).mpr ⟨call, hc, hholds⟩)
  have houtside : call.pc.outside = false := hplace.resolve_right hholds
  obtain ⟨caller, op, pc⟩ := call
  dsimp only at houtside hholds
  have hother : ∀ pc', pc = pc' → pc'.part = .other → (∀ result, pc' ≠ .returned result) →
      s.Unblocked P config (.call c) := by
    rintro pc' rfl hpart hreturned
    have hexit : pc.awaitsExit = false := by cases pc <;> first | rfl | cases hpart
    exact .of_call hc hexit (.inl ⟨_, Sys.enabled_call _ hc _ (callStep_other hpart hreturned)⟩)
  cases pc with
  | startEnter callback =>
    refine hwf.unblocked_takes hc rfl fun hfree =>
      .of_call hc rfl (.inl ⟨.go, Sys.enabled_call _ hc 0 ?_⟩)
    simp only [callStep, CallPc.part, startStep, Sys.withShared, hfree, Option.isSome_none,
      Bool.false_eq_true, if_false]
    repeat' split
    all_goals rfl
  | stopEnter =>
    refine hwf.unblocked_takes hc rfl fun hfree =>
      .of_call hc rfl (.inl ⟨.go, Sys.enabled_call _ hc 0 ?_⟩)
    simp [callStep, CallPc.part, stopStep, Sys.withShared, hfree]
  | returned result =>
    refine .of_call hc rfl (.inr ⟨0, ?_⟩)
    simp only [Lts.exec, clientLts, Sys.step, Option.bind_some, Sys.collect, Sys.withShared, hc]
    cases caller with
    | none => exact ⟨_, rfl⟩
    | some w =>
      obtain ⟨t, ht, -⟩ := hwf.calls.nested c _ w hc rfl
      simp only [ht]
      exact ⟨_, rfl⟩
  | biasEnter => exact hother _ rfl rfl (by simp)
  | healthEnter => exact hother _ rfl rfl (by simp)
  | latestEnter => exact hother _ rfl rfl (by simp)
  | waitEnter timeout => exact hother _ rfl rfl (by simp)
  | waitCapture deadline => exact hother _ rfl rfl (by simp)
  | waitSleep deadline generation => exact hother _ rfl rfl (by simp)
  | stopCommand => exact absurd rfl hholds
  | stopDecide => exact absurd rfl hholds
  | _ => cases houtside

/-- The receive thread: by itself, or through the call its callback is
inside of, which is at no place where threads wait. -/
theorem Sys.Wf.unblocked_thread (hwf : s.Wf) (hnested : s.NestedWf) {w : Nat} {t : Worker}
    (ht : s.workers w = some t) (hrun : t.pc ≠ .done) : s.Unblocked P config (.thread w) := by
  cases hinside : t.nested with
  | none => exact .of_canGo ⟨_, Sys.enabled_worker ht hrun hinside⟩
  | some d =>
    obtain ⟨call, hd, hcaller⟩ := hnested w t d ht hinside
    refine .head (.nested ht hinside) (hwf.unblocked_inside hd (.inl ?_))
    by_contra hout
    have := hwf.calls.outside d call hd (by simpa using hout)
    rw [hcaller] at this
    cases this

/-- The active thread is there. -/
theorem Sys.Wf.active_present (hwf : s.Wf) {w : Nat} (hw : s.shared.activeWorkerId = some w) :
    ∃ t, s.workers w = some t := by
  refine Option.isSome_iff_exists.mp ((hwf.workers.created w).mpr ?_)
  cases hwf.slot with
  | idle hi =>
    rw [hi.active] at hw
    cases hw
  | held hh =>
    rw [hh.active] at hw
    have := hh.created
    cases hw
    omega
  | reaping k hr =>
    rw [hr.active] at hw
    have := hr.created
    cases hw
    omega

theorem Sys.Wf.unblocked_joiner (hwf : s.Wf) (hnested : s.NestedWf) (hc : s.calls c = some call)
    (hjoins : call.pc.joins.isSome = true) : s.Unblocked P config (.call c) := by
  obtain ⟨w, hw⟩ := Option.isSome_iff_exists.mp hjoins
  have htakes : call.pc.takesLock = true := by
    cases hpc : call.pc <;> rw [hpc] at hw <;> first | rfl | cases hw
  refine hwf.unblocked_takes hc htakes fun hfree => ?_
  obtain ⟨hreap, rfl⟩ := hwf.reaping_of_joins hc hw
  obtain ⟨t, ht⟩ := hwf.active_present hreap.active
  by_cases hdone : t.pc = .done
  · obtain ⟨caller, op, pc⟩ := call
    cases pc <;> dsimp only [CallPc.joins] at hw <;> cases hw
    all_goals
      refine .of_call hc rfl (.inl ⟨.go, Sys.enabled_call _ hc 0 ?_⟩)
      simp [callStep, CallPc.part, startStep, stopStep, Sys.withShared, hfree, Sys.finished, ht,
        hdone]
  · exact .head (.join hc hw) (hwf.unblocked_thread hnested ht hdone)

/-- A call that waits for the end of another join. -/
theorem Sys.Wf.unblocked_awaitJoin (hwf : s.Wf) (hnested : s.NestedWf)
    (hc : s.calls c = some call)
    (hpc : call.pc = .stopAwaitJoin ∨ ∃ callback, call.pc = .startAwaitJoin callback)
    (hfree : s.lifecycle = none) : s.Unblocked P config (.call c) := by
  by_cases hjoining : s.shared.joining = true
  · -- somebody is joining, and it is not us
    cases hwf.slot with
    | idle hi =>
      rw [hi.joining] at hjoining
      cases hjoining
    | held hh =>
      rw [hh.joining] at hjoining
      cases hjoining
    | reaping k hr =>
      obtain ⟨other, hk⟩ := Option.isSome_iff_exists.mp hr.present
      have hjoins : other.pc.joins.isSome = true := by
        rw [hr.joins k other hk, if_pos rfl]
        rfl
      exact .head (.joiner hc hpc hk hjoins) (hwf.unblocked_joiner hnested hk hjoins)
  · obtain ⟨caller, op, pc⟩ := call
    dsimp only at hpc
    have hplace : pc.awaitsExit = false := by rcases hpc with rfl | ⟨callback, rfl⟩ <;> rfl
    refine .of_call hc hplace (.inl ⟨.go, Sys.enabled_call _ hc 0 ?_⟩)
    rcases hpc with rfl | ⟨callback, rfl⟩
    · simp [callStep, CallPc.part, stopStep, Sys.withShared, hfree, hjoining]
    · simp [callStep, CallPc.part, startStep, Sys.withShared, hfree, hjoining]

end Chain

/-- Any call, wherever it is but there. -/
theorem Sys.Wf.unblocked_call (hwf : s.Wf) (hnested : s.NestedWf) {c : Nat} {call : Call}
    (hc : s.calls c = some call) (hexit : call.pc.awaitsExit = false) :
    s.Unblocked P config (.call c) := by
  by_cases hinside : call.pc.outside = false ∨ call.pc.holds = true
  · exact hwf.unblocked_inside hc hinside
  rw [not_or] at hinside
  cases hpc : call.pc with
  | startAwaitJoin callback =>
    exact hwf.unblocked_takes hc (by rw [hpc]; rfl)
      (hwf.unblocked_awaitJoin hnested hc (.inr ⟨callback, hpc⟩))
  | startAwaitExit callback =>
    rw [hpc] at hexit
    cases hexit
  | startJoin callback w => exact hwf.unblocked_joiner hnested hc (by rw [hpc]; rfl)
  | stopAwaitJoin =>
    exact hwf.unblocked_takes hc (by rw [hpc]; rfl)
      (hwf.unblocked_awaitJoin hnested hc (.inl hpc))
  | stopJoin w => exact hwf.unblocked_joiner hnested hc (by rw [hpc]; rfl)
  | _ =>
    rw [hpc] at hinside
    first
      | exact absurd rfl hinside.1
      | exact absurd rfl hinside.2

/-- The number of steps from a place to the end of the thread, at most,
once `stopping_` is set; a `poll` that a signal interrupts does not count. -/
def WorkerPc.stopRank : WorkerPc → Nat
  | .done => 0
  | .finishState => 1
  | .finishExited => 2
  | .finishClose => 3
  | .loopHead | .latchFault _ _ => 4
  | .sessionClosed _ | .escaped _ | .backoffWait _ => 5
  | .sessionDone _ | .backoffDeadline => 6
  | .enterBackoff _ | .receiveHead _ | .timedOut _ | .receiveFailed _ _ | .received _ _
  | .connectFailed _ | .startRealtime | .discoveryFailed _ | .sessionCheck | .configuredCheck => 7
  | .delivered _ _ _ | .callbackFailed _ _ _ | .malformed _ | .receiveRecv _ | .connect
  | .applyConfiguration _ | .sessionBegin | .firstDeadline => 8
  | .receiveReady _ _ | .callback _ _ _ | .resetTrackers | .configure => 9
  | .receivePoll _ _ | .classify _ _ _ => 10
  | .receiveEnter _ _ | .validRecord _ _ => 11
  | .receiveNow _ => 12

theorem WorkerPc.stopRank_le (pc : WorkerPc) : pc.stopRank ≤ 12 := by
  cases pc <;> simp [WorkerPc.stopRank]

theorem recordReturned_stopRank (rx : Reception) (outcome : Option SessionResult) :
    (recordReturned rx outcome).stopRank ≤ 7 := by
  cases outcome <;> simp [recordReturned, WorkerPc.stopRank]

section Ranks

variable {w : Nat} {choice : WorkerChoice} {shared : Shared} {pc : WorkerPc}
  {r : WorkerPc × Shared}

theorem runStep_stopRank {backoff : ℚ} {r : WorkerPc × ℚ × Shared} (hstop : shared.stopping = true)
    (h : runStep config w choice backoff shared pc = some r) : r.1.stopRank < pc.stopRank := by
  cases pc <;> simp only [runStep, hstop, Bool.true_or, or_true, true_or, if_true] at h
  case sessionClosed outcome =>
    cases h
    dsimp only
    split <;> simp [WorkerPc.stopRank]
  all_goals
    try split at h
    all_goals
      cases h
      try simp [WorkerPc.stopRank]

theorem connectStep_stopRank (hstop : shared.stopping = true)
    (h : connectStep choice shared pc = some r) : r.1.stopRank < pc.stopRank := by
  cases pc <;> simp only [connectStep, hstop, if_true] at h
  all_goals
    try split at h
    all_goals
      cases h
      try simp [WorkerPc.stopRank]

theorem configureStep_stopRank (hstop : shared.stopping = true)
    (h : configureStep P config w choice shared pc = some r) : r.1.stopRank < pc.stopRank := by
  cases pc <;> simp only [configureStep, hstop, if_true] at h
  case configure =>
    split at h
    · split at h <;> cases h <;> simp [WorkerPc.stopRank]
    · cases h
  all_goals
    try split at h
    all_goals
      cases h
      try simp [WorkerPc.stopRank]

/-- Only an interrupted `poll` may be entered again. -/
theorem transportStep_stopRank (h : transportStep P choice shared pc = some r) :
    r.1.stopRank + (if choice = .poll .interrupted then 0 else 1) ≤ pc.stopRank := by
  cases pc <;> dsimp only [transportStep] at h
  case receivePoll rx polling =>
    split at h
    · split at h
      · cases h
        simp [WorkerPc.stopRank]
      · cases h
    · split at h <;> cases h <;> simp [WorkerPc.stopRank]
    · cases h
      simp [WorkerPc.stopRank]
    · cases h
      simp [WorkerPc.stopRank]
    · cases h
  case receiveEnter rx timeout =>
    split at h
    · cases h
      simp only [WorkerPc.stopRank]
      split <;> omega
    · split at h
      · cases h
        simp only [WorkerPc.stopRank]
        split <;> omega
      · split at h <;> cases h <;> simp only [WorkerPc.stopRank] <;> split <;> omega
  case receiveReady rx invalid =>
    split at h
    · cases h
      simp only [WorkerPc.stopRank]
      split <;> omega
    · split at h <;> cases h <;> simp only [WorkerPc.stopRank] <;> split <;> omega
  case receiveRecv rx =>
    split at h <;> cases h <;> simp [WorkerPc.stopRank]
  all_goals cases h

theorem receiveStep_stopRank (hstop : shared.stopping = true)
    (h : receiveStep config shared pc = some r) : r.1.stopRank < pc.stopRank := by
  cases pc <;> simp only [receiveStep, hstop, if_true] at h
  case receiveNow rx =>
    cases h
    dsimp only
    split <;> simp [WorkerPc.stopRank]
  case malformed rx =>
    cases h
    dsimp only
    split <;> simp [WorkerPc.stopRank]
  case validRecord rx record =>
    split at h <;> cases h <;> simp [WorkerPc.stopRank]
  all_goals
    cases h
    try simp [WorkerPc.stopRank]

theorem recordStep_stopRank (h : recordStep P config w choice shared pc = some r) :
    r.1.stopRank < pc.stopRank := by
  have hreturned : ∀ (rx : Reception) (outcome : Option SessionResult),
      (recordReturned rx outcome).stopRank < 8 := by
    intro rx outcome
    have := recordReturned_stopRank rx outcome
    omega
  cases pc <;> dsimp only [recordStep] at h
  case classify rx record receivedAt =>
    split at h
    · cases h
      simp [WorkerPc.stopRank]
    · split at h
      · cases h
        exact (hreturned _ _).trans (by simp [WorkerPc.stopRank])
      · split at h
        · cases h
          show (recordReturned rx (some .sensorConfiguration)).stopRank < 10
          exact (hreturned _ _).trans (by decide)
        · split at h <;> cases h <;> simp [WorkerPc.stopRank]
  case callback rx outcome sample =>
    split at h <;> cases h <;> simp [WorkerPc.stopRank]
  case callbackFailed rx outcome message =>
    cases h
    exact hreturned _ _
  case delivered rx outcome sample =>
    cases h
    exact hreturned _ _
  all_goals cases h

/-- Once `stopping_` is set, every step brings the thread closer to its
end. -/
theorem workerStep_stopRank {t t' : Worker} {shared' : Shared} (hstop : shared.stopping = true)
    (h : workerStep P config w choice t shared = some (t', shared')) :
    t'.pc.stopRank + (if choice = .poll .interrupted then 0 else 1) ≤ t.pc.stopRank := by
  have hlt : t'.pc.stopRank < t.pc.stopRank →
      t'.pc.stopRank + (if choice = .poll .interrupted then 0 else 1) ≤ t.pc.stopRank := by
    intro h
    split <;> omega
  cases (workerStep_parts h).2 with
  | run _ step => exact hlt (runStep_stopRank hstop step)
  | connect _ step => exact hlt (connectStep_stopRank hstop step)
  | configure _ step => exact hlt (configureStep_stopRank hstop step)
  | transport _ step => exact transportStep_stopRank step
  | receive _ step => exact hlt (receiveStep_stopRank hstop step)
  | record _ step => exact hlt (recordStep_stopRank step)

end Ranks

/-- A step of the thread `w` other than a wait that a signal ended. -/
def Label.advances (w : Nat) : Label → Bool
  | .worker v choice => decide (v = w) && decide (choice ≠ .poll .interrupted)
  | _ => false

/-- The thread `w` is over, or it is being joined with `stopping_` set. -/
def Sys.Winding (w : Nat) (s : Sys) : Prop :=
  ∃ t, s.workers w = some t ∧ (t.pc = .done ∨ s.shared.stopping = true ∧
    s.shared.joining = true ∧ s.shared.activeWorkerId = some w)

def Sys.stopRank (w : Nat) (s : Sys) : Nat :=
  match s.workers w with
  | some t => t.pc.stopRank
  | none => 0

theorem Sys.stopRank_eq {w : Nat} {t : Worker} (ht : s.workers w = some t) :
    s.stopRank w = t.pc.stopRank := by
  simp [Sys.stopRank, ht]

/-- While a call is joining, no other call clears `stopping_` or ends the
join of an unfinished thread. -/
theorem CallMove.joining {c : Nat} {call : Call} {pc' : CallPc} (hwf : s.Wf)
    (hc : s.calls c = some call) (hjoining : s.shared.joining = true)
    (hmove : CallMove config c call.caller s call.pc pc' s') :
    (s'.shared.stopping = s.shared.stopping ∨ s'.shared.stopping = true) ∧
      (s'.shared.joining = true ∧ s'.shared.activeWorkerId = s.shared.activeWorkerId ∨
        ∃ v, s.shared.activeWorkerId = some v ∧ s.finished v = true) := by
  have hreset : call.pc.resets = true → False := by
    intro hres
    rw [(hwf.calls.resets c call hc hres).2] at hjoining
    cases hjoining
  have hstopping : s'.shared.stopping = s.shared.stopping ∨ s'.shared.stopping = true := by
    rcases hmove.stopping.1 with h | h | h
    · exact .inl h
    · exact .inr h
    · exact (hreset h).elim
  refine ⟨hstopping, ?_⟩
  obtain ⟨caller, op, pc⟩ := call
  dsimp only at hmove hreset
  cases hmove with
  | wait => exact .inl ⟨hjoining, rfl⟩
  | take => exact .inl ⟨rfl, rfl⟩
  | save => exact .inl ⟨hjoining, rfl⟩
  | request => exact .inl ⟨hjoining, rfl⟩
  | command event =>
    have h := stopCommand_handles s.shared event
    exact .inl ⟨h.joining.trans hjoining, h.active⟩
  | stopIdle _ joining =>
    rw [joining] at hjoining
    cases hjoining
  | @reapStart callback w _ finished =>
    obtain ⟨hreap, rfl⟩ := hwf.reaping_of_joins hc rfl
    exact .inr ⟨_, hreap.active, finished⟩
  | @reapStop w _ finished =>
    obtain ⟨hreap, rfl⟩ := hwf.reaping_of_joins hc rfl
    exact .inr ⟨_, hreap.active, finished⟩
  | bias first second =>
    have h := bias_handles s.shared first second
    exact .inl ⟨h.joining.trans hjoining, h.active⟩
  | snapshot => exact .inl ⟨hjoining, rfl⟩
  | reset => exact (hreset rfl).elim
  | arm => exact (hreset rfl).elim
  | spawn => exact (hreset rfl).elim
  | disarm => exact (hreset rfl).elim
  | restoreRecord => exact (hreset rfl).elim
  | restoreData => exact (hreset rfl).elim
  | clearLatch => exact (hreset rfl).elim
  | republish => exact (hreset rfl).elim

/-- A thread that was there is there after a call's step. -/
theorem CallMove.keeps_thread {c : Nat} {caller : Option Nat} {pc pc' : CallPc} (hwf : s.Wf)
    {w : Nat}
    {t : Worker} (ht : s.workers w = some t)
    (hmove : CallMove config c caller s pc pc' s') : s'.workers w = some t := by
  cases hmove with
  | spawn =>
    have hw : w < s.created := (hwf.workers.created w).mp (by rw [ht]; rfl)
    simp only [Sys.spawn, Function.update_of_ne (Nat.ne_of_lt hw)]
    exact ht
  | _ => exact ht

theorem Sys.Winding.step {w : Nat} {l : Label} (hwf : s.Wf) (hstep : s.step P config l = some s')
    (h : s.Winding w) :
    s'.Winding w ∧ s'.stopRank w + (if l.advances w then 1 else 0) ≤ s.stopRank w := by
  obtain ⟨t, ht, hplace⟩ := h
  -- a step that leaves the thread where it is
  have hstay : ∀ t', s'.workers w = some t' → t'.pc = t.pc → l.advances w = false →
      s'.stopRank w + (if l.advances w then 1 else 0) ≤ s.stopRank w := by
    intro t' ht' hpc hother
    rw [Sys.stopRank_eq ht, Sys.stopRank_eq ht', hpc, hother]
    simp
  cases Sys.step_move hstep with
  | tick ticks => exact ⟨⟨t, ht, hplace⟩, hstay t ht rfl rfl⟩
  | places label places =>
    obtain ⟨t', ht', hpc⟩ : ∃ t', s'.workers w = some t' ∧ t'.pc = t.pc := by
      have hthread := places.threads w
      rw [ht] at hthread
      obtain ⟨t', ht', heq⟩ := Option.map_eq_some_iff.mp hthread
      exact ⟨t', ht', (Prod.mk.inj heq).1⟩
    refine ⟨⟨t', ht', by rw [hpc, places.shared]; exact hplace⟩, hstay t' ht' hpc ?_⟩
    rcases label with ⟨c, caller, op, rfl⟩ | ⟨c, rfl⟩
    · rfl
    · rfl
  | @call c call pc' u choice hc _ move =>
    have ht' : u.workers w = some t := move.keeps_thread hwf ht
    refine ⟨⟨t, ht', ?_⟩, hstay t ht' rfl rfl⟩
    rcases hplace with hdone | ⟨hstopping, hjoining, hactive⟩
    · exact .inl hdone
    obtain ⟨hset, hjoin⟩ := move.joining hwf hc hjoining
    rcases hjoin with ⟨hjoining', hactive'⟩ | ⟨v, hv, hfinished⟩
    · refine .inr ⟨?_, hjoining', hactive'.trans hactive⟩
      rcases hset with hsame | hset
      · exact hsame.trans hstopping
      · exact hset
    · obtain rfl : v = w := Option.some.inj (hv.symm.trans hactive)
      simp only [Sys.finished, ht, decide_eq_true_eq] at hfinished
      exact .inl hfinished
  | @worker v u u' shared' choice hu step move =>
    obtain ⟨hrun, -, hactive', hjoining', -⟩ := move.lifecycle
    have hv := hwf.active_of_running hu hrun
    rcases hplace with hdone | ⟨hstopping, hjoining, hactive⟩
    · -- the thread of the step is another one
      have hvw : w ≠ v := by
        rintro rfl
        rw [ht] at hu
        cases hu
        rw [hdone] at hrun
        exact hrun rfl
      have ht' : ((s.withShared shared').setWorker v u').workers w = some t := by
        simpa [Sys.setWorker, Sys.withShared, hvw] using ht
      exact ⟨⟨t, ht', .inl hdone⟩, hstay t ht' rfl (by simp [Label.advances, hvw.symm])⟩
    · obtain rfl : w = v := Option.some.inj (hactive.symm.trans hv)
      rw [ht] at hu
      cases hu
      have ht' : ((s.withShared shared').setWorker w u').workers w = some u' := by
        simp [Sys.setWorker]
      refine ⟨⟨u', ht', .inr ⟨move.stopping.trans hstopping, hjoining'.trans hjoining,
        hactive'.trans hactive⟩⟩, ?_⟩
      rw [Sys.stopRank_eq ht, Sys.stopRank_eq ht']
      have hless := workerStep_stopRank hstopping step
      by_cases hchoice : choice = .poll .interrupted
      · simpa [Label.advances, hchoice] using hless
      · simpa [Label.advances, hchoice] using hless

/-- A `stop` that joins has set `stopping_`. -/
def Sys.JoinRequested (s : Sys) : Prop :=
  ∀ c call w, s.calls c = some call → call.pc = .stopJoin w → s.shared.stopping = true

/-- It has come there from its locked section. -/
theorem callStep_stopJoin {c w : Nat} {call : Call} {choice : CallChoice}
    (h : callStep config c call choice s = some (.stopJoin w, s')) : call.pc = .stopDecide := by
  obtain ⟨caller, op, pc⟩ := call
  -- `start` and the other functions do not go to this place
  have hdecide : ∀ callback, (startDecide c callback s).1 ≠ .stopJoin w := by
    intro callback
    unfold startDecide
    split
    · split
      · split <;> simp
      · simp
    · simp
  cases pc <;> simp only [callStep, CallPc.part] at h
  case stopDecide => rfl
  case startEnter callback =>
    dsimp only [startStep] at h
    split at h
    · cases h
    · split at h
      · cases h
      · split at h
        · cases h
        · exact absurd (congrArg Prod.fst (Option.some.inj h)) (hdecide callback)
  case startAwaitJoin callback =>
    dsimp only [startStep] at h
    split at h
    · cases h
    · exact absurd (congrArg Prod.fst (Option.some.inj h)) (hdecide callback)
  all_goals
    dsimp only [startStep, stopStep, otherStep] at h
    try split at h
    all_goals cases h

theorem Sys.JoinRequested.step (h : s.JoinRequested) (hwf : s.Wf) (hreq : s.StopRequested)
    {l : Label} (hstep : s.step P config l = some s') : s'.JoinRequested := by
  cases Sys.step_move hstep with
  | tick ticks => exact h
  | places label places =>
    intro c call w hc hpc
    rw [places.shared]
    rcases places.new c call hc with hold | hplain
    · exact h c call w hold hpc
    · rw [hpc] at hplain
      cases hplain
  | @call c call pc' u choice hc step move =>
    intro k call' w hk hpc
    show u.shared.stopping = true
    rcases Sys.setCall_cases hk with ⟨rfl, heq⟩ | ⟨hne, hk⟩
    · cases heq
      obtain rfl : pc' = .stopJoin w := hpc
      have hlock := callStep_stopJoin step
      have := hreq k call hc (by rw [hlock]; rfl)
      rcases move.stopping.1 with hsame | hset | hres
      · exact hsame.trans this
      · exact hset
      · rw [hlock] at hres
        cases hres
    · have hk' : s.calls k = some call' := callMove_calls move ▸ hk
      have hstopping := h k call' w hk' hpc
      have hjoining := (hwf.reaping_of_joins hk' (by rw [hpc]; rfl)).1.joining
      rcases (move.joining hwf hc hjoining).1 with hsame | hset
      · exact hsame.trans hstopping
      · exact hset
  | worker choice ht _ move =>
    intro c call w hc hpc
    exact move.stopping.trans (h c call w hc hpc)

theorem joinRequested_of_reachable (h : (clientLts P config).Reachable s) : s.JoinRequested := by
  refine Lts.Reach.invariant_using (K := fun s => s.Wf ∧ s.StopRequested) ?_ ?_ ?_ h
  · exact fun s hs => ⟨wf_of_reachable hs, stopRequested_of_reachable hs⟩
  · rintro s ⟨clock, -, rfl⟩ c call w hc
    cases hc
  · rintro s l t - hstep ⟨hwf, hreq⟩ - hs
    exact hs.step hwf hreq hstep

/-- The number of steps to the end of a locked section, at most. -/
def CallPc.lockRank : CallPc → Nat
  | .startSaved _ _ => 7
  | .startReset _ _ _ => 6
  | .startArmed _ _ => 5
  | .rollbackRecord _ _ _ => 4
  | .rollbackData _ _ _ => 3
  | .rollbackLatch _ _ _ | .stopCommand => 2
  | .rollbackPublish _ _ _ | .stopDecide => 1
  | _ => 0

theorem CallPc.lockRank_of_not_holds {pc : CallPc} (h : pc.holds = false) : pc.lockRank = 0 := by
  cases pc <;> first | rfl | cases h

theorem CallPc.lockRank_pos {pc : CallPc} (h : pc.holds = true) : 0 < pc.lockRank := by
  cases pc <;> first | (simp [CallPc.lockRank]; done) | cases h

theorem CallPc.lockRank_le (pc : CallPc) : pc.lockRank ≤ 7 := by
  cases pc <;> simp [CallPc.lockRank]

/-- The owner of the lock gets closer to giving it back with every step. -/
theorem CallMove.lockRank {c : Nat} {caller : Option Nat} {pc pc' : CallPc}
    (hholds : pc.holds = true) (h : CallMove config c caller s pc pc' s') :
    pc'.lockRank < pc.lockRank := by
  have hpos := CallPc.lockRank_pos hholds
  cases h with
  | wait _ after =>
    rw [CallPc.lockRank_of_not_holds after.2]
    exact hpos
  | take _ _ _ _ after =>
    have : pc'.holds = false := by
      by_contra hne
      rw [CallPc.joins_of_holds (by simpa using hne)] at after
      cases after
    rw [CallPc.lockRank_of_not_holds this]
    exact hpos
  | save _ _ _ before => rcases before with rfl | rfl <;> cases hholds
  | request => cases hholds
  | reapStart => cases hholds
  | reapStop => cases hholds
  | bias => cases hholds
  | snapshot => cases hholds
  | _ => simp [CallPc.lockRank]

/-- A step of the call `c`. -/
def Label.isCall (c : Nat) : Label → Bool
  | .call d _ => decide (d = c)
  | _ => false

def Sys.lockRank (c : Nat) (s : Sys) : Nat :=
  match s.calls c with
  | some call => call.pc.lockRank
  | none => 0

theorem Sys.lockRank_eq {c : Nat} {call : Call} (hc : s.calls c = some call) :
    s.lockRank c = call.pc.lockRank := by
  simp [Sys.lockRank, hc]

theorem Sys.Wf.lockRank_step (hwf : s.Wf) {c : Nat} {l : Label} (howner : s.lifecycle = some c)
    (hstep : s.step P config l = some s') :
    s'.lockRank c + (if l.isCall c then 1 else 0) ≤ s.lockRank c := by
  obtain ⟨call, hc, hholds⟩ := (hwf.calls.owner c).mp howner
  rw [Sys.lockRank_eq hc]
  have hstay : s'.calls c = some call → l.isCall c = false →
      s'.lockRank c + (if l.isCall c then 1 else 0) ≤ call.pc.lockRank := by
    intro hc' hother
    rw [Sys.lockRank_eq hc', hother]
    simp
  cases Sys.step_move hstep with
  | tick ticks => exact hstay hc rfl
  | places label places =>
    refine hstay ?_ ?_
    · rcases places.old c call hc with hsame | hplain
      · exact hsame
      · rw [(CallPc.of_plain hplain).1] at hholds
        cases hholds
    · rcases label with ⟨d, caller, op, rfl⟩ | ⟨d, rfl⟩
      · rfl
      · rfl
  | @call d other pc' u choice hd _ move =>
    by_cases hcd : d = c
    · subst hcd
      rw [hc] at hd
      cases hd
      rw [Sys.lockRank_eq (Sys.setCall_calls_self _ _ _)]
      have hless := move.lockRank hholds
      simp only [Label.isCall, decide_true, if_true]
      omega
    · refine hstay ?_ (by simp [Label.isCall, hcd])
      rw [Sys.setCall_calls_of_ne _ _ (fun e => hcd e.symm), callMove_calls move]
      exact hc
  | worker choice ht _ move => exact hstay hc rfl

/-- The waits behind `stop` are bounded. From the moment a `stop` begins to
join a thread, that thread takes at most twelve steps other than waits a
signal ends; until it is over, it or a call it waits for can move. And a
call that owns the lifecycle lock can always move, and gives the lock
back with its seventh step at the latest. -/
theorem bounded_waiting (P : Platform) (config : Config) {s : Sys}
    (h : (clientLts P config).Reachable s) :
    (∀ c call w, s.calls c = some call → call.pc = .stopJoin w →
      ∀ ls t, (clientLts P config).Path (fun _ _ => True) s ls t →
        ls.countP (Label.advances w) ≤ 12 ∧
        (t.finished w = true ∨
          ∃ q, Relation.ReflTransGen t.WaitsFor (.thread w) q ∧ t.CanGo P config q)) ∧
    ∀ c, s.lifecycle = some c →
      ∀ ls t, (clientLts P config).Path (fun u _ => u.lifecycle = some c) s ls t →
        ls.countP (Label.isCall c) ≤ 7 ∧
        (t.lifecycle = some c → ∃ choice, t.Enabled P config (.call c choice)) := by
  have hwf := wf_of_reachable h
  constructor
  · intro c call w hc hpc ls t hp
    have ht := hp.reachable h
    obtain ⟨hreap, rfl⟩ := hwf.reaping_of_joins hc (by rw [hpc]; rfl)
    obtain ⟨u, hu⟩ := hwf.active_present hreap.active
    have hwinding : s.Winding s.joined.length :=
      ⟨u, hu, .inr ⟨joinRequested_of_reachable h c call _ hc hpc, hreap.joining, hreap.active⟩⟩
    obtain ⟨⟨v, hv, -⟩, hrank⟩ := hp.ranked (Sys.stopRank s.joined.length)
      (Label.advances s.joined.length) (fun _ hs => wf_of_reachable hs)
      (fun _ _ _ _ hstep hK hI => Sys.Winding.step hK hstep hI) h hwinding
    rw [Sys.stopRank_eq hu] at hrank
    have hle := u.pc.stopRank_le
    refine ⟨by omega, ?_⟩
    by_cases hdone : v.pc = .done
    · exact .inl (by simp [Sys.finished, hv, hdone])
    · exact .inr ((wf_of_reachable ht).unblocked_thread (nestedWf_of_reachable ht) hv hdone)
  · intro c howner ls t hp
    obtain ⟨call, hc, -⟩ := (hwf.calls.owner c).mp howner
    obtain ⟨-, hrank⟩ := hp.ranked (I := fun _ => True) (Sys.lockRank c) (Label.isCall c)
      (fun _ hs => wf_of_reachable hs)
      (fun _ _ _ hok hstep hK _ => ⟨trivial, hK.lockRank_step hok hstep⟩) h trivial
    rw [Sys.lockRank_eq hc] at hrank
    have hle := call.pc.lockRank_le
    refine ⟨by omega, fun howner' => ?_⟩
    obtain ⟨call', hc', hholds⟩ := ((wf_of_reachable (hp.reachable h)).calls.owner c).mp howner'
    exact ⟨_, Sys.enabled_call _ hc' 0 (callStep_holds hholds)⟩

/-- The `stop` of `stoppingRun` when it begins to join. -/
theorem bounded_waiting_stopped :
    ∃ s, (clientLts exactPlatform overrideConfig).Reachable s ∧
      s.calls 2 = some ⟨none, .stop, .stopJoin 0⟩ ∧
      ∀ ls t, (clientLts exactPlatform overrideConfig).Path (fun _ _ => True) s ls t →
        ls.countP (Label.advances 0) ≤ 12 := by
  obtain ⟨s, hs, hp⟩ := Lts.exists_of_exec (l := streamingRun ++ stoppingRun.take 6)
    (p := fun s : Sys => decide (s.calls 2 = some ⟨none, .stop, .stopJoin 0⟩))
    overrideConfig_reachable (by decide +kernel)
  have hc := of_decide_eq_true hp
  exact ⟨s, hs, hc, fun ls t hpath =>
    ((bounded_waiting exactPlatform overrideConfig hs).1 2 _ 0 hc rfl ls t hpath).1⟩

end PyNetFT.Core
