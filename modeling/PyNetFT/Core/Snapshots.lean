/-
PyNetFT.Core.Snapshots — what `health()` says about faults.

A snapshot is a copy of `health_` with the code of the fault latch put
over it. The two agree in every state of every run but one: a failing
`start` on a client that was faulted puts `health_` back under the data
lock and publishes the old fault only after that. A `health()` that comes
between sees `Faulted` with no code. `health_snapshot_iff` names this
place as the only one.

The history keeps what the state forgets: the last fault a receive
thread published, with its message, and the codes of the snapshots taken
so far.
-/
import PyNetFT.Core.Quiescence

namespace PyNetFT.Core

open PyNetFT.Lib

/-! ## The history -/

structure FaultHistory where
  published : Option (FaultCode × String) := none
  codes : List FaultCode := []
  deriving DecidableEq

/-- A receive thread that finds the latch empty publishes; a `health()`
call takes its snapshot. -/
def FaultHistory.record (h : FaultHistory) (s : Sys) (l : Label) (_ : Sys) : FaultHistory :=
  match l with
  | .worker w _ =>
      match s.workers w with
      | some ⟨.latchFault code message, _, _⟩ =>
          if s.shared.faultLatch = .none then { h with published := some (code, message) } else h
      | _ => h
  | .call c _ =>
      match s.calls c with
      | some ⟨_, _, .healthEnter⟩ =>
          { h with codes := h.codes ++ [s.shared.snapshot.2.faultCode] }
      | _ => h
  | _ => h

/-- The client with that history. -/
def faultLts (P : Platform) (config : Config) : Lts (Sys × FaultHistory) Label :=
  (clientLts P config).recorded {} FaultHistory.record

@[simp] theorem FaultHistory.record_tick (h : FaultHistory) (s t : Sys) (ticks : Nat) :
    h.record s (.tick ticks) t = h := rfl

theorem FaultHistory.record_places (h : FaultHistory) (s t : Sys) {l : Label}
    (hl : (∃ c caller op, l = .invoke c caller op) ∨ ∃ c, l = .collect c) :
    h.record s l t = h := by
  rcases hl with ⟨c, caller, op, rfl⟩ | ⟨c, rfl⟩ <;> rfl

theorem FaultHistory.record_call_published (h : FaultHistory) (s t : Sys) (c : Nat)
    (choice : CallChoice) : (h.record s (.call c choice) t).published = h.published := by
  dsimp only [FaultHistory.record]
  split <;> rfl

theorem FaultHistory.record_worker_codes (h : FaultHistory) (s t : Sys) (w : Nat)
    (choice : WorkerChoice) : (h.record s (.worker w choice) t).codes = h.codes := by
  dsimp only [FaultHistory.record]
  split
  · split <;> rfl
  · rfl

/-- What a step of a thread adds: its own fault, if it is the first. -/
theorem FaultHistory.record_worker_published (h : FaultHistory) {s : Sys} (t : Sys) {w : Nat}
    {worker : Worker} (hw : s.workers w = some worker) (choice : WorkerChoice) :
    (h.record s (.worker w choice) t).published = h.published ∨
      ∃ code message, worker.pc = .latchFault code message ∧ s.shared.faultLatch = .none ∧
        (h.record s (.worker w choice) t).published = some (code, message) := by
  dsimp only [FaultHistory.record]
  rw [hw]
  obtain ⟨pc, backoff, nested⟩ := worker
  cases pc
  case latchFault code message =>
    by_cases hlatch : s.shared.faultLatch = .none
    · exact Or.inr ⟨code, message, rfl, hlatch, by simp [hlatch]⟩
    · exact Or.inl (by simp [hlatch])
  all_goals exact Or.inl rfl

/-! ## The message of a latched fault -/

/-- A latched fault carries the message it was published with, and a
`start` that has saved a fault has saved its message. -/
structure PublishedWf (s : Sys) (h : FaultHistory) : Prop where
  latched : s.shared.faultLatch ≠ .none →
    h.published = some (s.shared.faultLatch, s.shared.health.lastError)
  saved : ∀ c call k d, s.calls c = some call → call.pc.control? = some k →
    call.pc.data? = some d → k.fault ≠ .none → h.published = some (k.fault, d.health.lastError)

section Latched

variable {P : Platform} {config : Config} {s s' : Sys} {I : FaultCode → HealthSnapshot → Prop}

/-- A latched fault and the health record fit each other, and so do the
fault and the health record that a `start` has saved. -/
structure Sys.LatchedWf (s : Sys) (I : FaultCode → HealthSnapshot → Prop) : Prop where
  latched : s.shared.faultLatch ≠ .none → I s.shared.faultLatch s.shared.health
  saved : ∀ c call k d, s.calls c = some call → call.pc.control? = some k →
    call.pc.data? = some d → k.fault ≠ .none → I k.fault d.health

/-- A call that moves to `pc'`: the latch keeps its record or is empty,
and what the new place has saved is in order. -/
theorem Sys.LatchedWf.call_step (hl : s.LatchedWf I) {c : Nat} {call : Call} {pc' : CallPc}
    (hcalls : s'.calls = s.calls)
    (hlatch : s'.shared.faultLatch ≠ .none → I s'.shared.faultLatch s'.shared.health)
    (hsaved : ∀ k d, pc'.control? = some k → pc'.data? = some d → k.fault ≠ .none →
      I k.fault d.health) :
    (s'.setCall c (some { call with pc := pc' })).LatchedWf I := by
  refine ⟨hlatch, ?_⟩
  intro j call' k d hj hk hd hfault
  rcases Sys.setCall_cases hj with ⟨rfl, heq⟩ | ⟨-, hj⟩
  · cases heq
    exact hsaved k d hk hd hfault
  · exact hl.saved j call' k d (hcalls ▸ hj) hk hd hfault

theorem markStopped_latch (s : Shared) : s.markStopped.faultLatch = s.faultLatch := by
  unfold Shared.markStopped
  split <;> rfl

theorem markStopped_latched (hl : s.LatchedWf I) :
    s.shared.markStopped.faultLatch ≠ .none →
      I s.shared.markStopped.faultLatch s.shared.markStopped.health := by
  unfold Shared.markStopped
  split
  · exact hl.latched
  · rename_i hno
    intro hne
    exact absurd (by simpa [Impl.faulted] using hne) hno

/-- Publishing the saved fault again keeps the two together. -/
theorem Sys.LatchedWf.callMove (hl : s.LatchedWf I)
    (hI : ∀ code health, I code health →
      I code { health with state := .faulted, faultCode := code, lastError := health.lastError })
    (hf : s.FaultWf) {c : Nat} {call : Call} {pc' : CallPc} (hc : s.calls c = some call)
    (hmove : CallMove config c call.caller s call.pc pc' s') :
    (s'.setCall c (some { call with pc := pc' })).LatchedWf I := by
  obtain ⟨caller, op, pc⟩ := call
  have hok := hf.calls _ _ hc
  have hsaved := fun k d => hl.saved c _ k d hc
  dsimp only at hmove hok
  -- the latch and its record untouched
  have hsame : s.shared.SameFault s'.shared → s'.shared.faultLatch ≠ .none →
      I s'.shared.faultLatch s'.shared.health := by
    intro hs
    rw [hs.latch, hs.health]
    exact hl.latched
  cases hmove with
  | wait before after =>
    refine hl.call_step rfl hl.latched ?_
    intro k d hk
    rw [(CallPc.no_data_of_resets (CallPc.resets_false_of_holds after.2)).1] at hk
    cases hk
  | take _ _ before _ after =>
    refine hl.call_step rfl (hsame ⟨rfl, rfl⟩) ?_
    intro k d hk
    have hres := CallPc.joins_of_holds (CallPc.holds_of_resets (CallPc.resets_of_control? hk))
    rw [after] at hres
    cases hres
  | save =>
    refine hl.call_step rfl (hsame ⟨rfl, rfl⟩) ?_
    intro k d _ hd
    cases hd
  | reset =>
    refine hl.call_step rfl (fun hne => absurd rfl hne) ?_
    rintro k d ⟨⟩ ⟨⟩ hfault
    -- what was latched a moment ago is what is saved now
    have hlatch : _ = s.shared.faultLatch := hok
    rw [hlatch] at hfault ⊢
    exact hl.latched hfault
  | arm =>
    refine hl.call_step rfl (hsame ⟨rfl, rfl⟩) ?_
    rintro k d ⟨⟩ ⟨⟩ hfault
    exact hsaved _ _ rfl rfl hfault
  | spawn =>
    refine hl.call_step rfl (hsame ⟨rfl, rfl⟩) ?_
    intro k d hk
    cases hk
  | disarm =>
    refine hl.call_step rfl (hsame ⟨rfl, rfl⟩) ?_
    rintro k d ⟨⟩ ⟨⟩ hfault
    exact hsaved _ _ rfl rfl hfault
  | restoreRecord =>
    refine hl.call_step rfl (hsame ⟨rfl, rfl⟩) ?_
    rintro k d ⟨⟩ ⟨⟩ hfault
    exact hsaved _ _ rfl rfl hfault
  | restoreData =>
    refine hl.call_step rfl (fun hne => absurd hok.1 hne) ?_
    rintro k d ⟨⟩ ⟨⟩ hfault
    exact hsaved _ _ rfl rfl hfault
  | clearLatch =>
    refine hl.call_step rfl (fun hne => absurd rfl hne) ?_
    rintro k d ⟨⟩ ⟨⟩ hfault
    exact hsaved _ _ rfl rfl hfault
  | @republish k d message =>
    refine hl.call_step rfl ?_ (fun k d hk => by cases hk)
    by_cases hfault : k.fault = .none
    · simp [hfault, hok.1]
    · intro _
      simp only [ne_eq, hfault, not_false_eq_true, if_true, Impl.publish, hok.1, hok.2.1]
      exact hI _ _ (hsaved k d rfl rfl hfault)
  | request =>
    refine hl.call_step rfl (hsame ⟨rfl, rfl⟩) ?_
    intro k d hk
    cases hk
  | command event =>
    refine hl.call_step rfl (hsame (stopCommand_health _ _)) ?_
    intro k d hk
    cases hk
  | stopIdle =>
    refine hl.call_step rfl ?_ (fun k d hk => by cases hk)
    exact markStopped_latched hl
  | reapStart =>
    refine hl.call_step rfl (hsame ⟨rfl, rfl⟩) ?_
    intro k d hk
    cases hk
  | reapStop =>
    refine hl.call_step rfl ?_ (fun k d hk => by cases hk)
    exact markStopped_latched hl
  | bias first second =>
    refine hl.call_step rfl (hsame (bias_health _ _ _)) ?_
    intro k d hk
    cases hk
  | snapshot =>
    refine hl.call_step rfl (hsame ⟨rfl, rfl⟩) ?_
    intro k d hk
    cases hk

theorem Phase.late_false_of_quietly {a b : Phase} (h : a.quietly b = true) : a.late = false := by
  cases a <;> cases b <;> first | rfl | cases h

/-- A latch that is set after a step of the thread was set before with
the same record, or this step set it. -/
theorem WorkerMove.latched {t t' : Worker} {s s' : Shared} (hmove : WorkerMove t s t' s')
    (hlate : s.faultLatch ≠ .none → t.pc.phase.late = true) (hne : s'.faultLatch ≠ .none) :
    (s.faultLatch ≠ .none ∧ s'.faultLatch = s.faultLatch ∧ s'.health = s.health) ∨
      ∃ code message, t.pc = .latchFault code message ∧ s.faultLatch = .none ∧
        s'.faultLatch = code ∧
        s'.health = { s.health with
          state := .faulted, faultCode := code, lastError := message } := by
  cases hmove with
  | quiet phase quiet =>
    -- a thread that moves quietly is not on its way out
    have hlatch : s'.faultLatch = s.faultLatch := congrArg Control.faultLatch quiet.control
    have hlate' := hlate (hlatch ▸ hne)
    rw [Phase.late_false_of_quietly phase] at hlate'
    cases hlate'
  | connect => exact .inl ⟨hne, rfl, rfl⟩
  | start => exact .inl ⟨hne, rfl, rfl⟩
  | close event phases control health =>
    have hlatch : s'.faultLatch = s.faultLatch := by
      refine (congrArg Control.faultLatch control).trans ?_
      simp only [Shared.control, Shared.closeSession, Shared.stopStreaming, Shared.attempt]
      split <;> rfl
    exact .inl ⟨hlatch ▸ hne, hlatch, health⟩
  | fail => exact .inl ⟨hne, rfl, rfl⟩
  | latch code message place after impl rest =>
    rw [impl] at hne ⊢
    by_cases hnone : s.faultLatch = .none
    · refine .inr ⟨code, message, place, hnone, ?_, ?_⟩ <;> rw [Impl.publish, if_pos hnone]
    · refine .inl ⟨hnone, ?_, ?_⟩ <;> rw [Impl.publish, if_neg hnone]
  | exit => exact .inl ⟨hne, rfl, rfl⟩
  | finish =>
    split at hne
    · rename_i hfaulted
      rw [if_pos hfaulted]
      exact .inl ⟨hne, rfl, rfl⟩
    · rename_i hno
      exact absurd (by simpa [Impl.faulted] using hne) hno

/-- A step that is not a thread's keeps them together. -/
theorem Sys.LatchedWf.others (hl : s.LatchedWf I)
    (hI : ∀ code health, I code health →
      I code { health with state := .faulted, faultCode := code, lastError := health.lastError })
    (hf : s.FaultWf) {l : Label} (hnot : ∀ w choice, l ≠ .worker w choice)
    (hstep : s.step P config l = some s') : s'.LatchedWf I := by
  cases Sys.step_move hstep with
  | tick ticks => exact ⟨hl.latched, hl.saved⟩
  | places label places =>
    refine ⟨places.shared ▸ hl.latched, ?_⟩
    intro c call k d hc hk
    rcases places.new c call hc with hold | hplain
    · exact hl.saved c call k d hold hk
    · rw [(CallPc.no_data_of_resets
        (CallPc.resets_false_of_holds (CallPc.of_plain hplain).1)).1] at hk
      cases hk
  | call choice hc _ move => exact hl.callMove hI hf hc move
  | worker choice => exact absurd rfl (hnot _ choice)

/-- Nothing is saved while a thread runs. -/
theorem Sys.LatchedWf.worker (hwf : s.Wf) {w : Nat} {t t' : Worker} {shared' : Shared}
    (ht : s.workers w = some t) (move : WorkerMove t s.shared t' shared')
    (hlatch : shared'.faultLatch ≠ .none → I shared'.faultLatch shared'.health) :
    ((s.withShared shared').setWorker w t').LatchedWf I := by
  refine ⟨hlatch, ?_⟩
  intro c call k d hc hk
  have hidle := hwf.inactive_of_resets hc (CallPc.resets_of_control? hk)
  rw [hwf.active_of_running ht move.lifecycle.1] at hidle
  cases hidle

end Latched

section System

variable {P : Platform} {config : Config} {s s' : Sys} {h h' : FaultHistory}

theorem publishedWf_iff :
    PublishedWf s h ↔ s.LatchedWf fun code health => h.published = some (code, health.lastError) :=
  ⟨fun hp => ⟨hp.latched, hp.saved⟩, fun hl => ⟨hl.latched, hl.saved⟩⟩

theorem PublishedWf.step (hp : PublishedWf s h) (hwf : s.Wf) (hf : s.FaultWf) {l : Label}
    (hstep : s.step P config l = some s') : PublishedWf s' (h.record s l s') := by
  cases Sys.step_move hstep with
  | tick ticks => exact ⟨hp.latched, hp.saved⟩
  | places label places =>
    rw [FaultHistory.record_places h s s' label, publishedWf_iff]
    refine (publishedWf_iff.mp hp).others (fun _ _ hcode => hcode) hf ?_ hstep
    rintro w choice rfl
    rcases label with ⟨c, caller, op, hl⟩ | ⟨c, hl⟩ <;> cases hl
  | call choice hc _ move =>
    rw [publishedWf_iff, h.record_call_published]
    exact (publishedWf_iff.mp hp).callMove (fun _ _ hcode => hcode) hf hc move
  | @worker w t t' shared' choice ht step move =>
    have hw := hwf.active_of_running ht move.lifecycle.1
    have hlate := fun hne => hf.late hne w t hw ht
    have hpub := h.record_worker_published ((s.withShared shared').setWorker w t') ht choice
    refine publishedWf_iff.mpr (Sys.LatchedWf.worker hwf ht move fun hne => ?_)
    rcases move.latched hlate hne with ⟨hbefore, hlatch, hhealth⟩ | ⟨code, message, hpc, hnone,
      hlatch, hhealth⟩
    · rcases hpub with hkeep | ⟨code, message, -, hnone, -⟩
      · rw [hkeep, hp.latched hbefore, hlatch, hhealth]
      · exact absurd hnone hbefore
    · have hrecord : (h.record s (.worker w choice)
          ((s.withShared shared').setWorker w t')).published = some (code, message) := by
        obtain ⟨pc, backoff, nested⟩ := t
        have hpc' : pc = .latchFault code message := hpc
        subst hpc'
        simp [FaultHistory.record, ht, hnone]
      rw [hrecord, hlatch, hhealth]

theorem publishedWf_of_reachable {p : Sys × FaultHistory}
    {ok : Sys × FaultHistory → Label → Prop} (hr : (faultLts P config).Reach ok p) :
    PublishedWf p.1 p.2 := by
  refine Lts.Reach.recorded_invariant (I := PublishedWf) ?_ ?_ hr
  · rintro s ⟨clock, -, rfl⟩
    exact ⟨by simp [Sys.new, Impl.new], by simp [Sys.new]⟩
  · intro s history l t _ hs hstep hp
    exact hp.step (wf_of_reachable hs) (faultWf_of_reachable hs) hstep

/-! ## Snapshots -/

/-- What a snapshot promises about faults: the state and the code say the
same, and the error is the message that code was published with. -/
structure HealthSnapshot.Consistent (published : Option (FaultCode × String))
    (snapshot : HealthSnapshot) : Prop where
  state : snapshot.state = .faulted ↔ snapshot.faultCode ≠ .none
  error : snapshot.state = .faulted →
    published = some (snapshot.faultCode, snapshot.lastError)

/-- No `start` is between putting `health_` back and publishing the fault
its client had before. -/
def Sys.NoFaultedRollback (s : Sys) : Prop :=
  ∀ c call k, s.calls c = some call → call.pc.restored = true → call.pc.control? = some k →
    k.fault = .none

/-- A snapshot of a reachable state is consistent outside that place and
inconsistent in it. -/
theorem snapshot_consistent_iff (hf : s.FaultWf) (hp : PublishedWf s h) :
    s.shared.snapshot.2.Consistent h.published ↔ s.NoFaultedRollback := by
  constructor
  · intro hcons c call k hc hrest hk
    by_contra hfault
    -- the health record is the saved one, which says `Faulted`
    have hok := hf.calls c call hc
    obtain ⟨caller, op, pc⟩ := call
    have hplace : s.shared.faultLatch = .none ∧ s.shared.health.state = .faulted := by
      cases pc <;> cases hrest
      all_goals
        cases hk
        obtain ⟨hlatch, hhealth, hsaved⟩ := hok
        exact ⟨hlatch, hhealth ▸ hsaved.mpr hfault⟩
    have hstate := hcons.state.mp (by simp [Shared.snapshot, hplace])
    exact hstate (by simp [Shared.snapshot, hplace])
  · intro hno
    have hiff : s.shared.health.state = .faulted ↔ s.shared.faultLatch ≠ .none := by
      refine ⟨fun hstate => ?_, hf.latched⟩
      rcases hf.faulted hstate with hlatch | ⟨c, call, hc, hrest⟩
      · exact hlatch
      · have hok := hf.calls c call hc
        obtain ⟨caller, op, pc⟩ := call
        cases pc <;> cases hrest
        all_goals
          obtain ⟨-, hhealth, hsaved⟩ := hok
          exact absurd (hno c _ _ hc rfl rfl) (hsaved.mp (hhealth ▸ hstate))
    by_cases hlatch : s.shared.faultLatch = .none
    · have hstate : s.shared.health.state ≠ .faulted := fun he => hiff.mp he hlatch
      exact ⟨by simp [Shared.snapshot, hlatch, hstate],
        fun he => absurd he (by simp [Shared.snapshot, hlatch, hstate])⟩
    · exact ⟨by simp [Shared.snapshot, hlatch], fun _ => hp.latched hlatch⟩

/-- Nobody is inside the reset section of `start`. -/
def Sys.NoReset (s : Sys) : Prop :=
  ∀ c call, s.calls c = some call → call.pc.resets = false

/-- Outside the reset section a latched fault stays. -/
theorem latch_stays_without_reset (hwf : s.Wf) (hf : s.FaultWf) (hno : s.NoReset) {l : Label}
    (hstep : s.step P config l = some s') (hlatch : s.shared.faultLatch ≠ .none) :
    s'.shared.faultLatch = s.shared.faultLatch := by
  cases Sys.step_move hstep with
  | tick => rfl
  | places _ places => rw [places.shared]
  | @call c call pc' u choice hc step move =>
    obtain ⟨caller, op, pc⟩ := call
    have hres := hno c _ hc
    dsimp only at move hres
    show u.shared.faultLatch = s.shared.faultLatch
    cases move with
    | wait => rfl
    | take => rfl
    | save => rfl
    | request => rfl
    | command event => exact (stopCommand_health _ _).latch
    | stopIdle => exact markStopped_latch _
    | reapStart => rfl
    | reapStop => exact markStopped_latch _
    | bias first second => exact (bias_health _ _ _).latch
    | snapshot => rfl
    | reset | arm | spawn | disarm | restoreRecord | restoreData | clearLatch | republish =>
      cases hres
  | worker choice ht step move =>
    have hw := hwf.active_of_running ht move.lifecycle.1
    exact (move.fault hf.latched (fun hne => hf.late hne _ _ hw ht)
      (fun code message => hf.named _ _ code message ht)).2.2.2.1 hlatch

/-- The codes a step adds: the latch, if a snapshot was taken. -/
theorem FaultHistory.record_codes (h : FaultHistory) (s t : Sys) (l : Label) :
    (h.record s l t).codes = h.codes ∨
      (h.record s l t).codes = h.codes ++ [s.shared.faultLatch] := by
  cases l with
  | tick => exact Or.inl rfl
  | invoke => exact Or.inl rfl
  | collect => exact Or.inl rfl
  | worker w choice => exact Or.inl (h.record_worker_codes s t w choice)
  | call c choice =>
    dsimp only [FaultHistory.record]
    split
    · exact Or.inr rfl
    · exact Or.inl rfl

/-- The codes seen since `before`: empty ones, then one code, which is
still latched. -/
def SeenSince (before : List FaultCode) (p : Sys × FaultHistory) : Prop :=
  ∃ a b code, p.2.codes = before ++ List.replicate a .none ++ List.replicate b code ∧
    (0 < b → code ≠ .none ∧ p.1.shared.faultLatch = code)

theorem SeenSince.step {before : List FaultCode} (hseen : SeenSince before (s, h)) (hwf : s.Wf)
    (hf : s.FaultWf) (hno : s.NoReset) {l : Label} (hstep : s.step P config l = some s') :
    SeenSince before (s', h.record s l s') := by
  obtain ⟨a, b, code, hcodes, hlast⟩ := hseen
  have hstays := latch_stays_without_reset hwf hf hno hstep
  have hlast' : 0 < b → code ≠ .none ∧ s'.shared.faultLatch = code := by
    intro hb
    obtain ⟨hne, hlatch⟩ := hlast hb
    exact ⟨hne, (hstays (hlatch ▸ hne)).trans hlatch⟩
  rcases h.record_codes s s' l with hsame | hmore
  · exact ⟨a, b, code, hsame.trans hcodes, hlast'⟩
  simp only at hcodes
  by_cases hb : 0 < b
  · refine ⟨a, b + 1, code, ?_, fun _ => hlast' hb⟩
    rw [hmore, hcodes, (hlast hb).2, List.replicate_succ', List.append_assoc _ _ [code]]
  · obtain rfl : b = 0 := by omega
    rw [List.replicate_zero, List.append_nil] at hcodes
    by_cases hlatch : s.shared.faultLatch = .none
    · refine ⟨a + 1, 0, .none, ?_, by simp⟩
      rw [hmore, hcodes, hlatch, List.replicate_succ', List.append_assoc, List.replicate_zero,
        List.append_nil]
    · refine ⟨a, 1, s.shared.faultLatch, ?_, fun _ => ⟨hlatch, hstays hlatch⟩⟩
      rw [hmore, hcodes]
      rfl

end System

/-- The step of a `health()` call. -/
theorem health_step {P : Platform} {config : Config} {s : Sys} {c : Nat} {caller : Option Nat}
    {op : Op} (hc : s.calls c = some ⟨caller, op, .healthEnter⟩) (choice : CallChoice) :
    s.step P config (.call c choice) = some ((s.withShared s.shared.snapshot.1).setCall c
      (some ⟨caller, op, .returned (.snapshot s.shared.snapshot.2)⟩)) := by
  simp only [Sys.step, hc, callStep, CallPc.part, otherStep, Option.map_some]

/-- **Snapshots and faults.** In every reachable state a `health()` call
that takes its snapshot returns a consistent one exactly if no `start`
is, at that moment, between putting back the health record of a client
that was faulted and publishing its fault again. And along every run in
which no `start` is in its reset section the codes of the snapshots are
empty ones followed by one and the same code. -/
theorem health_snapshot_iff (P : Platform) (config : Config) {s : Sys} {h : FaultHistory}
    (hreach : (faultLts P config).Reachable (s, h)) :
    (∀ c caller op choice t snapshot, s.calls c = some ⟨caller, op, .healthEnter⟩ →
      s.step P config (.call c choice) = some t →
      t.calls c = some ⟨caller, op, .returned (.snapshot snapshot)⟩ →
      (snapshot.Consistent h.published ↔ s.NoFaultedRollback)) ∧
      ∀ labels t h', (faultLts P config).Path (fun p _ => p.1.NoReset) (s, h) labels (t, h') →
        ∃ a b code, h'.codes = h.codes ++ List.replicate a .none ++ List.replicate b code := by
  have hs : (clientLts P config).Reachable s := Lts.Reach.unrecorded hreach
  refine ⟨?_, ?_⟩
  · intro c caller op choice t snapshot hc hstep ht
    have hresult : snapshot = s.shared.snapshot.2 := by
      rw [health_step hc choice] at hstep
      cases hstep
      rw [Sys.setCall_calls_self] at ht
      cases ht
      rfl
    rw [hresult]
    exact snapshot_consistent_iff (faultWf_of_reachable hs) (publishedWf_of_reachable hreach)
  · intro labels t h' hpath
    have hseen : SeenSince h.codes (t, h') := by
      refine hpath.preserves (K := fun p => (clientLts P config).Reachable p.1)
        (I := SeenSince h.codes) (fun p hp => Lts.Reach.unrecorded hp) ?_ hreach ?_
      · rintro ⟨u, hu⟩ l ⟨v, hv⟩ hno hstep huR _ hI
        obtain ⟨hstep', hrecord⟩ := Lts.recorded_step hstep
        obtain rfl : hv = hu.record u l v := hrecord
        exact hI.step (wf_of_reachable huR) (faultWf_of_reachable huR) hno hstep'
      · exact ⟨0, 0, .none, by simp, by simp⟩
    obtain ⟨a, b, code, hcodes, -⟩ := hseen
    exact ⟨a, b, code, hcodes⟩

/-! ## A faulted client -/

/-- A fail-stop client with a calibration of its own. -/
def faultingConfig : Config := { overrideConfig with recoveryPolicy := .failStop }

/-- `start`, and a receive thread that cannot connect, latches the fault
and exits. -/
def faultingRun : List Label :=
  [.invoke 0 none (.start (some 7)), .call 0 .go, .call 0 .go, .call 0 .go, .call 0 .go,
   .worker 0 .go, .worker 0 .go, .worker 0 .go, .worker 0 (.http (.failed "")), .worker 0 .go,
   .worker 0 .go, .worker 0 (.connect (some "refused")), .worker 0 .go, .worker 0 (.send .sent),
   .worker 0 .go, .worker 0 .go, .worker 0 (.send .sent), .worker 0 .go, .worker 0 .go]

/-- A second `start` whose thread cannot be created, up to the restored
health record. -/
def failingStart : List Label :=
  [.invoke 1 none (.start (some 8)), .call 1 .go, .call 1 .go, .call 1 .go, .call 1 .go,
   .call 1 .go, .call 1 (.threadFails "no thread"), .call 1 .go, .call 1 .go]

theorem faultingConfig_reachable :
    (faultLts exactPlatform faultingConfig).Reachable (Sys.new faultingConfig 1000, {}) :=
  Lts.Reachable.init ⟨⟨1000, overrideConfig_valid, rfl⟩, rfl⟩

/-- The snapshot of a faulted client names its fault and its message. -/
theorem health_snapshot_faulted :
    ∃ s h, (faultLts exactPlatform faultingConfig).Reachable (s, h) ∧
      s.shared.snapshot.2.state = .faulted ∧
      s.shared.snapshot.2.Consistent h.published ∧ h.published = some (.socket, "refused") := by
  obtain ⟨⟨s, h⟩, hs, hp⟩ := Lts.exists_of_exec (l := faultingRun ++ [.invoke 2 none .health])
    (p := fun p : Sys × FaultHistory => decide (p.1.lifecycle = none ∧
      p.1.calls 2 = some ⟨none, .health, .healthEnter⟩ ∧
      p.1.shared.snapshot.2.state = .faulted ∧ p.2.published = some (.socket, "refused")))
    faultingConfig_reachable (by decide +kernel)
  obtain ⟨hfree, hc, hstate, hpub⟩ := of_decide_eq_true hp
  have hwf := wf_of_reachable (Lts.Reach.unrecorded hs)
  have hquiet : s.NoFaultedRollback := by
    intro c call k hcall hrest
    have hholds := CallPc.holds_of_resets (CallPc.resets_of_restored hrest)
    rw [hwf.holds_false_of_free hfree hcall] at hholds
    cases hholds
  refine ⟨s, h, hs, hstate, ?_, hpub⟩
  exact ((health_snapshot_iff exactPlatform faultingConfig hs).1 2 none .health .go _ _ hc
    (health_step hc .go) (Sys.setCall_calls_self _ _ _)).mpr hquiet

/-- A `health()` that comes between the two sections of the rollback
returns `Faulted` without a code. -/
theorem faulted_without_code :
    ∃ s h t snapshot, (faultLts exactPlatform faultingConfig).Reachable (s, h) ∧
      s.calls 2 = some ⟨none, .health, .healthEnter⟩ ∧
      s.step exactPlatform faultingConfig (.call 2 .go) = some t ∧
      t.calls 2 = some ⟨none, .health, .returned (.snapshot snapshot)⟩ ∧
      snapshot.state = .faulted ∧ snapshot.faultCode = .none := by
  obtain ⟨⟨s, h⟩, hs, hp⟩ := Lts.exists_of_exec
    (l := faultingRun ++ failingStart ++ [.invoke 2 none .health])
    (p := fun p : Sys × FaultHistory => decide (
      p.1.calls 2 = some ⟨none, .health, .healthEnter⟩ ∧
      p.1.shared.snapshot.2.state = .faulted ∧ p.1.shared.snapshot.2.faultCode = .none))
    faultingConfig_reachable (by decide +kernel)
  obtain ⟨hc, hstate, hcode⟩ := of_decide_eq_true hp
  exact ⟨s, h, _, _, hs, hc, health_step hc .go, Sys.setCall_calls_self _ _ _, hstate, hcode⟩

end PyNetFT.Core
