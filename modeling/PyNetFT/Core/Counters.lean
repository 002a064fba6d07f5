/-
PyNetFT.Core.Counters — the counters of `health_` never go down.

Only the receive thread counts. A failing `start` puts back the whole
health record it saved, counters included, but between the two no thread
is running, so they are the counters that are there
(`countsWf_of_reachable`).
-/
import PyNetFT.Core.Tally
import PyNetFT.Core.Snapshots

namespace PyNetFT.Core

open PyNetFT.Lib

/-- No counter is smaller in the second snapshot. -/
def HealthSnapshot.CountersLe (a b : HealthSnapshot) : Prop :=
  List.Forall₂ (· ≤ ·) a.counters b.counters

theorem HealthSnapshot.CountersLe.refl (a : HealthSnapshot) : a.CountersLe a :=
  List.forall₂_refl _

theorem HealthSnapshot.CountersLe.trans {a b c : HealthSnapshot} (hab : a.CountersLe b)
    (hbc : b.CountersLe c) : a.CountersLe c := by
  unfold HealthSnapshot.CountersLe at *
  simp only [HealthSnapshot.counters, List.forall₂_cons, List.forall₂_nil_left_iff, and_true]
    at hab hbc ⊢
  omega

theorem HealthSnapshot.countersLe_of_counts {a b : HealthSnapshot} (h : b.counts = a.counts) :
    a.CountersLe b := by
  have hsame : b.counters = a.counters := by
    change b.counts.counters = a.counts.counters
    rw [h]
  rw [HealthSnapshot.CountersLe, hsame]
  exact List.forall₂_refl _

/-! ## What one step counts -/

section Worker

variable {P : Platform} {config : Config} {s s' : Shared} {pc pc' : WorkerPc}

/-- A record counts its own fate upwards. -/
theorem classifyRecord_countersLe (config : Config) (impl : Impl) (record : RawRecord)
    (receivedAt : TimePoint) :
    impl.health.CountersLe (impl.classifyRecord config record receivedAt).1.health := by
  unfold Impl.classifyRecord
  dsimp only
  split
  · exact .refl _
  · dsimp only
    split <;>
    · simp only [HealthSnapshot.CountersLe, HealthSnapshot.counters, HealthSnapshot.countRecord,
        List.forall₂_cons, List.forall₂_nil_left_iff, and_true]
      (repeat' apply And.intro) <;> (try split) <;> omega

theorem WorkerPc.counted_countersLe (pc : WorkerPc) (impl : Impl) :
    impl.health.CountersLe (pc.counted impl).health := by
  cases pc
  case timedOut =>
    dsimp only [WorkerPc.counted]
    split
    · exact .refl _
    · simp [HealthSnapshot.CountersLe, HealthSnapshot.counters]
  case malformed => simp [WorkerPc.counted, HealthSnapshot.CountersLe, HealthSnapshot.counters]
  case enterBackoff => simp [WorkerPc.counted, HealthSnapshot.CountersLe, HealthSnapshot.counters]
  case applyConfiguration configuration =>
    dsimp only [WorkerPc.counted, Impl.applyConfiguration]
    split
    · exact .refl _
    · split
      · exact .refl _
      · simp [HealthSnapshot.CountersLe, HealthSnapshot.counters]
  all_goals exact .refl _

theorem RecordMove.countersLe (hmove : RecordMove P config s s' pc pc') :
    s.health.CountersLe s'.health := by
  have hclass : ∀ {record receivedAt decision}, s.toImpl.classifyRecord config record receivedAt
      = (s'.toImpl, .ok decision) → s.health.CountersLe s'.health := by
    intro record receivedAt decision h
    have hle := classifyRecord_countersLe config s.toImpl record receivedAt
    rw [h] at hle
    exact hle
  cases hmove with
  | outside before after tally =>
    refine (pc.counted_countersLe s.toImpl).trans ?_
    exact HealthSnapshot.countersLe_of_counts (congrArg Tally.counts tally)
  | arrives impl =>
    rw [impl]
    exact .refl _
  | refused missing after tally =>
    exact HealthSnapshot.countersLe_of_counts (congrArg Tally.counts tally)
  | settled classified => exact hclass classified
  | unscaled classified => exact hclass classified
  | handed classified => exact hclass classified
  | returned same =>
    rw [same]
    exact .refl _
  | threw same =>
    rw [same]
    exact .refl _
  | failed impl =>
    rw [impl]
    simp [Impl.recordCallbackError, HealthSnapshot.CountersLe, HealthSnapshot.counters]
  | delivered impl =>
    rw [impl]
    simp [Impl.recordDelivered, HealthSnapshot.CountersLe, HealthSnapshot.counters]

end Worker

/-! ## The saved counters -/

/-- What a `start` has saved are the counters that are there. -/
def Sys.CountsWf (s : Sys) : Prop :=
  ∀ c call d, s.calls c = some call → call.pc.data? = some d →
    d.health.counts = s.shared.health.counts

section System

variable {P : Platform} {config : Config} {s s' : Sys}

/-- A thread that steps is the active one, so no `start` is in its reset
section. -/
theorem Sys.Wf.noReset_of_running (hwf : s.Wf) {w : Nat} {t : Worker} (ht : s.workers w = some t)
    (hrun : t.pc.phase ≠ .done) : s.NoReset := by
  intro c call hc
  by_contra hres
  have hidle := hwf.inactive_of_resets hc (by simpa using hres)
  rw [hwf.active_of_running ht hrun] at hidle
  cases hidle

/-- No call counts anything. -/
theorem CallMove.counts {c : Nat} {caller : Option Nat} {pc pc' : CallPc}
    (hmove : CallMove config c caller s pc pc' s')
    (hsaved : ∀ d, pc.data? = some d → d.health.counts = s.shared.health.counts) :
    s'.shared.health.counts = s.shared.health.counts := by
  have houtside : pc.resets = false → pc'.resets = false →
      s'.shared.health.counts = s.shared.health.counts := by
    intro hbefore hafter
    rcases (hmove.tally_outside hbefore hafter).2.2 with hsame | hpruned
    · exact congrArg Tally.counts hsame
    · rw [hpruned]
      rfl
  cases hmove with
  | wait before after => exact houtside before.2 (CallPc.resets_false_of_holds after.2)
  | take _ _ before _ after => exact houtside before.2 (CallPc.resets_false_of_joins after)
  | request | command | stopIdle | reapStart | reapStop | bias | snapshot => exact houtside rfl rfl
  | restoreData => exact hsaved _ rfl
  | republish =>
    dsimp only
    split
    · exact congrArg Tally.counts (publish_tally _ _ _)
    · rfl
  | save | reset | arm | spawn | disarm | restoreRecord | clearLatch => rfl

theorem Sys.CountsWf.step (h : s.CountsWf) (hwf : s.Wf) {l : Label}
    (hstep : s.step P config l = some s') : s'.CountsWf := by
  cases Sys.step_move hstep with
  | tick ticks => exact h
  | places label places =>
    intro c call d hc hd
    rw [places.shared]
    rcases places.new c call hc with hold | hplain
    · exact h c call d hold hd
    · rw [(CallPc.no_data_of_resets
        (CallPc.resets_false_of_holds (CallPc.of_plain hplain).1)).2] at hd
      cases hd
  | @call c call pc' u choice hc _ move =>
    have hcounts := move.counts (fun d => h c call d hc)
    intro j other d hj hd
    refine Eq.trans ?_ hcounts.symm
    rcases Sys.setCall_cases hj with ⟨rfl, heq⟩ | ⟨-, hj⟩
    · cases heq
      rcases move.data_of hd with hold | rfl
      · exact h j call d hc hold
      · rfl
    · exact h j other d (callMove_calls move ▸ hj) hd
  | worker choice ht _ move =>
    -- a running thread means that no `start` has anything saved
    intro c call d hc hd
    have hres := hwf.noReset_of_running ht move.lifecycle.1 c call hc
    rw [(CallPc.no_data_of_resets hres).2] at hd
    cases hd

theorem countsWf_of_reachable (h : (clientLts P config).Reachable s) : s.CountsWf := by
  refine Lts.Reach.invariant_using (K := Sys.Wf) (fun s hs => wf_of_reachable hs.reachable) ?_ ?_ h
  · rintro s ⟨clock, -, rfl⟩ c call d hc
    cases hc
  · intro s l t _ hstep hwf _ hs
    exact hs.step hwf hstep

/-- A step that is not the receive thread's counts nothing. -/
theorem counts_of_step (hcounts : s.CountsWf) {l : Label} (hstep : s.step P config l = some s') :
    s'.shared.health.counts = s.shared.health.counts ∨
      ∃ w choice t t' shared', l = .worker w choice ∧ s.workers w = some t ∧
        s' = (s.withShared shared').setWorker w t' ∧ t.pc.phase ≠ .done ∧
        RecordMove P config s.shared shared' t.pc t'.pc := by
  cases Sys.step_move hstep with
  | tick ticks => exact .inl rfl
  | places label places => exact .inl (by rw [places.shared])
  | @call c call pc' u choice hc _ move => exact .inl (move.counts fun d => hcounts c call d hc)
  | @worker w t t' shared' choice ht step move =>
    exact .inr ⟨w, choice, t, t', shared', rfl, ht, rfl, move.lifecycle.1, workerStep_record step⟩

theorem countersLe_of_step (hcounts : s.CountsWf) {l : Label}
    (hstep : s.step P config l = some s') :
    s.shared.health.CountersLe s'.shared.health := by
  rcases counts_of_step hcounts hstep with hsame | ⟨w, _, t, t', shared', -, -, rfl, -, hmove⟩
  · exact HealthSnapshot.countersLe_of_counts hsame
  · exact hmove.countersLe

/-- Along every run no counter goes down. -/
theorem countersLe_of_path {ok : Sys → Label → Prop} {labels : List Label}
    (hpath : (clientLts P config).Path ok s labels s') (hs : (clientLts P config).Reachable s) :
    s.shared.health.CountersLe s'.shared.health := by
  refine hpath.preserves (K := Sys.CountsWf)
    (I := fun t => s.shared.health.CountersLe t.shared.health)
    (fun t ht => countsWf_of_reachable ht) ?_ hs (.refl _)
  intro t l u _ hstep hcounts _ hle
  exact hle.trans (countersLe_of_step hcounts hstep)

/-- The clock does not go back. -/
theorem clock_le_of_step {l : Label} (hstep : s.step P config l = some s') :
    s.shared.clock ≤ s'.shared.clock := by
  cases Sys.step_move hstep with
  | tick ticks => exact Nat.le_add_right _ _
  | places label places => exact (congrArg Shared.clock places.shared).ge
  | call choice hc _ move => exact move.clock.ge
  | worker choice ht _ move => exact move.clock.ge

/-! ## The thread that is in a session -/

/-- Some thread is at this place. -/
def Sys.At (s : Sys) (pc : WorkerPc) : Prop := ∃ w t, s.workers w = some t ∧ t.pc = pc

theorem WorkerPc.running_of_part {pc : WorkerPc} (h : pc.part ≠ .run) : pc.phase ≠ .done := by
  intro hdone
  rw [WorkerPc.phase_eq_done hdone] at h
  exact h rfl

theorem Sys.SamePlaces.at_iff (hp : s.SamePlaces s') (pc : WorkerPc) : s'.At pc ↔ s.At pc := by
  constructor
  · rintro ⟨w, t, ht, rfl⟩
    obtain ⟨u, hu, heq⟩ := hp.thread ht
    exact ⟨w, u, hu, heq⟩
  · rintro ⟨w, t, ht, rfl⟩
    have hback : s'.SamePlaces s := ⟨hp.shared.symm, hp.lifecycle.symm, hp.created.symm,
      hp.joined.symm, fun v => (hp.threads v).symm, hp.old, hp.new⟩
    obtain ⟨u, hu, heq⟩ := hback.thread ht
    exact ⟨w, u, hu, heq⟩

/-- A call brings nobody into `receive_session` and nobody out of it. -/
theorem Sys.Wf.at_call (hwf : s.Wf) {c : Nat} {caller : Option Nat} {place place' : CallPc}
    (hmove : CallMove config c caller s place place' s') {pc : WorkerPc}
    (hpc : pc.part ≠ .run) : s'.At pc ↔ s.At pc := by
  constructor
  · rintro ⟨w, t, ht, rfl⟩
    rcases hmove.thread_of ht with hold | hnew
    · exact ⟨w, t, hold, rfl⟩
    · rw [hnew] at hpc
      exact absurd rfl hpc
  · rintro ⟨w, t, ht, rfl⟩
    refine ⟨w, t, ?_, rfl⟩
    cases hmove with
    | spawn =>
      have hlt : w < s.created := (hwf.workers.created w).mp (by rw [ht]; rfl)
      simpa [Sys.spawn, Function.update_of_ne hlt.ne] using ht
    | _ => exact ht

/-- Only the running thread is in a session. -/
theorem Sys.Wf.at_running (hwf : s.Wf) {w : Nat} {t : Worker} (ht : s.workers w = some t)
    (hrun : t.pc.phase ≠ .done) {pc : WorkerPc} (hpc : pc.part ≠ .run) :
    s.At pc ↔ t.pc = pc := by
  constructor
  · rintro ⟨v, u, hu, rfl⟩
    have hactive := hwf.active_of_running hu (WorkerPc.running_of_part hpc)
    rw [hwf.active_of_running ht hrun] at hactive
    cases hactive
    rw [ht] at hu
    cases hu
    rfl
  · intro heq
    exact ⟨w, t, ht, heq⟩

/-- A step is one of the running thread, or counts nothing and leaves
that thread where it is. -/
theorem record_of_step (hwf : s.Wf) (hcounts : s.CountsWf) {l : Label}
    (hstep : s.step P config l = some s') :
    ((∀ w choice, l ≠ .worker w choice) ∧
      s'.shared.health.counts = s.shared.health.counts ∧
      ∀ pc, pc.part ≠ .run → (s'.At pc ↔ s.At pc)) ∨
    ∃ w choice t t' shared', l = .worker w choice ∧ s.workers w = some t ∧
      s' = (s.withShared shared').setWorker w t' ∧
      workerStep P config w choice t s.shared = some (t', shared') ∧
      ∀ pc, pc.part ≠ .run → (s.At pc ↔ t.pc = pc) ∧ (s'.At pc ↔ t'.pc = pc) := by
  cases Sys.step_move hstep with
  | tick ticks => exact .inl ⟨fun _ _ h => (by cases h), rfl, fun _ _ => Iff.rfl⟩
  | places label places =>
    refine .inl ⟨?_, by rw [places.shared], fun pc _ => places.at_iff pc⟩
    rintro w choice rfl
    rcases label with ⟨_, _, _, h⟩ | ⟨_, h⟩ <;> cases h
  | @call c call pc' u choice hc _ move =>
    exact .inl ⟨fun _ _ h => (by cases h), move.counts fun d => hcounts c call d hc,
      fun pc hpc => hwf.at_call move hpc⟩
  | @worker w t t' shared' choice ht step move =>
    refine .inr ⟨w, choice, t, t', shared', rfl, ht, rfl, step, fun pc hpc => ?_⟩
    refine ⟨hwf.at_running ht move.lifecycle.1 hpc, ?_⟩
    constructor
    · rintro ⟨v, u, hu, rfl⟩
      by_cases heq : v = w
      · subst heq
        simp only [Sys.setWorker, Function.update_self, Option.some.injEq] at hu
        rw [hu]
      · have hother : s.workers v = some u := by
          simpa [Sys.setWorker, Sys.withShared, heq] using hu
        have hactive := hwf.active_of_running hother (WorkerPc.running_of_part hpc)
        rw [hwf.active_of_running ht move.lifecycle.1] at hactive
        cases hactive
        exact absurd rfl heq
    · intro heq
      exact ⟨w, t', by simp [Sys.setWorker], heq⟩

end System

end PyNetFT.Core
