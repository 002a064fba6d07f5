/-
PyNetFT.Python.Failures — what a callback run leaves behind.

A dispatcher stores at most one failure, and only on its way out of the
loop (`FailuresWf`). The fault it stores, like the one an iterator
raises, is read with the lock held: no `start` is under way, so the latch
does not move between the three native calls (`FaultsWf`). What is stored
stays, and `_callback_run` is the run until a later `start` succeeds
(`settled_step`), so `wait` and `raise_if_failed` find it.
-/
import PyNetFT.Python.CallbackRuns
import PyNetFT.Core.Snapshots
import PyNetFT.Bindings.FirstSample
import Mathlib.Data.Finset.Card

namespace PyNetFT.Python

open PyNetFT.Lib PyNetFT.Core PyNetFT.Bindings

/-! ## Calls keep the client -/

/-- `inFlight` counts the calls, and a client with a call is not
collected. -/
structure Client.CrewWf (s : Client) : Prop where
  count : ∃ calls : Finset Nat, calls.card = s.inFlight ∧
    ∀ c, c ∈ calls ↔ (s.place (.call c)).isSome = true
  used : s.alive = false → s.inFlight = 0

section Crew

variable {P : Platform} {config : Config} {s s' : Client} {l : ClientLabel} {c : Nat}

theorem ThreadMove.crew {o : Owner} {caller nested : Option Nat} {choice : Choice} {pc pc' : Pc}
    (h : ThreadMove o caller nested choice s pc pc' s') :
    s'.inFlight = s.inFlight ∧ s'.alive = s.alive := by
  cases h
  case rollsBack a error =>
    obtain ⟨runs, hruns⟩ := s.rollback_frame a
    exact ⟨by rw [hruns], by rw [hruns]⟩
  case startClears callback r joined _ =>
    obtain ⟨runs, hruns⟩ := s.clearThread_frame r joined
    exact ⟨by rw [hruns], by rw [hruns]⟩
  case stopClears r joined _ =>
    obtain ⟨runs, hruns⟩ := s.clearThread_frame r joined
    exact ⟨by rw [hruns], by rw [hruns]⟩
  case storesError r error _ _ _ =>
    obtain ⟨runs, hruns⟩ := s.storeError_frame r error
    exact ⟨by rw [hruns], by rw [hruns]⟩
  case storesLate r error _ _ _ =>
    obtain ⟨runs, hruns⟩ := s.storeError_frame r error
    exact ⟨by rw [hruns], by rw [hruns]⟩
  case halted hafter =>
    obtain ⟨-, iterators, rfl⟩ := Client.afterStop_behind hafter
    exact ⟨rfl, rfl⟩
  case finishes => split <;> exact ⟨rfl, rfl⟩
  all_goals exact ⟨rfl, rfl⟩

/-- A new call. -/
theorem Client.CrewWf.enter (h : s.CrewWf) (hfree : s.place (.call c) = none) (pc : Pc)
    (hplace : s'.place = Function.update s.place (.call c) (some pc))
    (hcount : s'.inFlight = s.inFlight + 1) (halive : s'.alive = true) : s'.CrewWf := by
  obtain ⟨calls, hcard, hcalls⟩ := h.count
  have hnew : c ∉ calls := by
    rw [hcalls, hfree]
    simp
  refine ⟨⟨insert c calls, ?_, ?_⟩, fun hdead => ?_⟩
  · rw [Finset.card_insert_of_notMem hnew, hcard, hcount]
  · intro d
    rw [Finset.mem_insert, hcalls, hplace]
    by_cases hd : d = c
    · subst hd
      simp
    · rw [Function.update_of_ne (by simpa using hd)]
      simp [hd]
  · rw [halive] at hdead
    cases hdead

/-- A call taken off. -/
theorem Client.CrewWf.leave (h : s.CrewWf) {pc : Pc} (hthere : s.place (.call c) = some pc)
    (hplace : s'.place = Function.update s.place (.call c) none)
    (hcount : s'.inFlight = s.inFlight - 1) (halive : s'.alive = s.alive) : s'.CrewWf := by
  obtain ⟨calls, hcard, hcalls⟩ := h.count
  have hmem : c ∈ calls := by
    rw [hcalls, hthere]
    rfl
  refine ⟨⟨calls.erase c, ?_, ?_⟩, fun hdead => ?_⟩
  · rw [Finset.card_erase_of_mem hmem, hcard, hcount]
  · intro d
    rw [Finset.mem_erase, hcalls, hplace]
    by_cases hd : d = c
    · subst hd
      simp
    · rw [Function.update_of_ne (by simpa using hd)]
      simp [hd]
  · rw [hcount, h.used (halive ▸ hdead)]

theorem Client.CrewWf.step (h : s.CrewWf) (hmove : ClientMove P config s l s') : s'.CrewWf := by
  have hnone : ∀ {c : Nat}, s.threads (.call c) = none → s.place (.call c) = none := by
    intro c hfree
    rw [Client.place, hfree]
    rfl
  cases hmove with
  | native => exact ⟨h.count, h.used⟩
  | drop hunused => exact ⟨h.count, fun _ => hunused⟩
  | invoke hfree _ halive => exact h.enter (hnone hfree) _ (Client.entered_place _ _ _ _) rfl halive
  | nest hfree _ hr _ halive => exact h.enter (hnone hfree) _ (Client.nest_place hr) rfl halive
  | collect hcall =>
    exact h.leave (Client.place_of_thread hcall) (Client.left_place _ _) rfl rfl
  | unnest hcall _ _ hd =>
    exact h.leave (Client.place_of_thread hcall) (Client.unnest_place hd) rfl rfl
  | @thread o choice t pc' u ht hmove =>
    obtain ⟨hcount, halive⟩ := hmove.crew
    obtain ⟨calls, hcard, hcalls⟩ := h.count
    refine ⟨⟨calls, hcard.trans hcount.symm, fun c => ?_⟩, ?_⟩
    · rw [hcalls, Client.setThread_place]
      by_cases hc : Owner.call c = o
      · subst hc
        rw [Function.update_self, Client.place_of_thread ht]
        rfl
      · rw [Function.update_of_ne hc]
        cases hmove.threads with
        | same hthreads _ => rw [Client.place_congr hthreads]
        | built _ _ hthreads _ =>
          rw [Client.place, Client.place, hthreads, Function.update_of_ne (by simp)]
        | launched _ _ _ hthreads =>
          rw [Client.place, Client.place, hthreads, Function.update_of_ne (by simp)]
    · intro hdead
      exact hcount.trans (h.used (halive.symm.trans hdead))

theorem crewWf_of_reach {ok : Client → ClientLabel → Prop} (h : (clientLts P config).Reach ok s) :
    s.CrewWf := by
  refine Lts.Reach.invariant_using (K := Client.Wf) (I := Client.CrewWf)
    (fun _ hs => wf_of_reach hs)
    ?_ (fun _ _ _ _ hstep hwf _ hcrew => hcrew.step (hwf.move hstep)) h
  rintro s ⟨native, callback, -, rfl⟩
  exact ⟨⟨∅, rfl, fun c => ⟨fun hc => by simp at hc, fun hc => (by cases hc)⟩⟩, fun _ => rfl⟩

theorem Client.CrewWf.alive (h : s.CrewWf) {pc : Pc} (hplace : s.place (.call c) = some pc) :
    s.alive = true := by
  rw [← Bool.not_eq_false]
  intro hdead
  obtain ⟨calls, hcard, hcalls⟩ := h.count
  rw [h.used hdead, Finset.card_eq_zero] at hcard
  have hmem := (hcalls c).mpr (by rw [hplace]; rfl)
  rw [hcard] at hmem
  simp at hmem

end Crew

/-! ## What a run has stored -/

/-- The two failures a run can store. -/
def CallbackRun.outcome (run : CallbackRun) : Option PyError × Option SensorFault :=
  (run.callbackError, run.failure)

/-- The places of a dispatcher behind its loop. -/
def Pc.over : Pc → Bool
  | .halt .finish | .haltAwait .finish | .finish | .finished => true
  | _ => false

/-- The places where a dispatcher stores a failure. -/
def Pc.stores : Pc → Bool
  | .record _ | .code none _ _ => true
  | _ => false

/-- What a step does to the outcome of a run. -/
inductive OutcomeMove (s s' : Client) (l : ClientLabel) (r : Nat) : Prop where
  | same (same : (s'.runs r).outcome = (s.runs r).outcome)
  | stored {choice : Choice} {error : PyError} (label : l = .thread (.dispatcher r) choice)
      (place : s.place (.dispatcher r) = some (.record error))
      (outcome : (s'.runs r).outcome = (some error, none))
  | faulted {choice : Choice} {health : HealthSnapshot} {droppedCount : Nat}
      (label : l = .thread (.dispatcher r) choice)
      (place : s.place (.dispatcher r) = some (.code none health droppedCount))
      (outcome : (s'.runs r).outcome = ((s.runs r).callbackError,
        some ⟨s.native.core.shared.faultLatch, health, droppedCount⟩))

/-- A failure is stored once, and only on the way out. -/
structure Client.FailuresWf (s : Client) : Prop where
  clean : ∀ r, (s.runs r).outcome = (none, none) ∨
    ∃ pc, s.place (.dispatcher r) = some pc ∧ pc.over = true
  single : ∀ r, (s.runs r).callbackError = none ∨ (s.runs r).failure = none
  completed : ∀ r, s.place (.dispatcher r) = some .finished →
    (s.runs r).completed = true ∨ s.alive = false

section Outcomes

variable {P : Platform} {config : Config} {s s' : Client} {l : ClientLabel} {r : Nat} {pc : Pc}

theorem Client.Wf.outcome_step (hwf : s.Wf) (h : ClientMove P config s l s')
    (hbuilt : (s.place (.dispatcher r)).isSome = true) : OutcomeMove s s' l r := by
  rcases hwf.run_step h r with hsame | ⟨o, choice, t, hl, ht, hmove⟩
  · exact .same (by rw [hsame])
  · have hplace := Client.place_of_thread ht
    cases hmove with
    | same hsame => exact .same (by rw [hsame])
    | built _ hnew _ =>
      rw [hwf.fresh r (Nat.le_of_eq hnew.symm)] at hbuilt
      cases hbuilt
    | cancelled _ _ hrecord => exact .same (by rw [hrecord]; rfl)
    | activated _ _ hrecord => exact .same (by rw [hrecord]; rfl)
    | cleared _ _ hrecord => exact .same (by rw [hrecord]; rfl)
    | finished _ _ hrecord => exact .same (by rw [hrecord]; rfl)
    | stored howner hpc hunset hrecord =>
      subst howner
      rw [hpc] at hplace
      refine .stored hl hplace ?_
      rw [hrecord, CallbackRun.outcome, hunset.2]
    | faulted howner hpc hrecord =>
      subst howner
      rw [hpc] at hplace
      exact .faulted hl hplace (by rw [hrecord]; rfl)

/-- Behind its loop a dispatcher stays there. -/
theorem ThreadMove.over {o : Owner} {caller nested : Option Nat} {choice : Choice} {pc' : Pc}
    (h : ThreadMove o caller nested choice s pc pc' s') (hpc : pc.over = true) :
    pc'.over = true := by
  cases h
  case quiet hquiet =>
    cases hquiet
    case again hplace => rcases hplace with rfl | ⟨callback, x, rfl, -⟩ <;> cases hpc
    case leaves => rfl
    all_goals cases hpc
  case startFails hplace => rcases hplace with rfl | rfl <;> cases hpc
  case invokes hplace =>
    rcases hplace with ⟨b, rfl, rfl, -⟩ | ⟨run, error, rfl, rfl, -⟩ | ⟨ending, rfl, rfl, -⟩ |
      ⟨rfl, rfl, -⟩ | ⟨i, rfl, rfl, -⟩ | ⟨rfl, rfl, -⟩
    case inr.inr.inl => cases ending <;> first | rfl | cases hpc
    all_goals cases hpc
  case reads hplace => rcases hplace with ⟨i, rfl, rfl⟩ | ⟨rfl, rfl⟩ <;> cases hpc
  case exhausts hplace => rcases hplace with rfl | ⟨result, rfl⟩ | rfl <;> cases hpc
  case halted ending _ _ _ _ _ hafter =>
    have hbehind := (Client.afterStop_behind hafter).1
    cases ending with
    | finish =>
      rw [show pc' = _ from hbehind]
      rfl
    | stopped run => cases hpc
    | raised i fault => cases hpc
  case finishes => rfl
  all_goals cases hpc

/-- A dispatcher that a step does not move. -/
theorem Client.Wf.dispatcher_kept (hwf : s.Wf) (h : ClientMove P config s l s')
    (hplace : s.place (.dispatcher r) = some pc) (hpc : pc ≠ .unstarted)
    (hother : ∀ choice, l ≠ .thread (.dispatcher r) choice) :
    s'.place (.dispatcher r) = some pc := by
  refine hwf.stays h hplace hother ?_ (fun hunstarted => absurd hunstarted hpc)
  rintro result rfl
  obtain hfits := (hwf.fits _ _ hplace).mpr ⟨r, rfl⟩
  cases hfits

/-- **An outcome is final** once the loop is left. -/
theorem Client.Wf.over_step (hwf : s.Wf) (h : ClientMove P config s l s')
    (hplace : s.place (.dispatcher r) = some pc) (hpc : pc.over = true) :
    (∃ pc', s'.place (.dispatcher r) = some pc' ∧ pc'.over = true) ∧
      (s'.runs r).outcome = (s.runs r).outcome := by
  constructor
  · by_cases hmine : ∃ choice, l = .thread (.dispatcher r) choice
    · obtain ⟨choice, rfl⟩ := hmine
      cases h with
      | @thread _ _ t pc' u ht hmove =>
        rw [Client.place_of_thread ht] at hplace
        obtain rfl := Option.some.inj hplace
        refine ⟨pc', ?_, hmove.over hpc⟩
        rw [Client.setThread_place, Function.update_self]
        rfl
    · refine ⟨pc, hwf.dispatcher_kept h hplace ?_ fun choice heq => hmine ⟨choice, heq⟩, hpc⟩
      rintro rfl
      cases hpc
  · cases hwf.outcome_step h (by rw [hplace]; rfl) with
    | same hsame => exact hsame
    | stored _ hrecord _ =>
      rw [hplace] at hrecord
      cases Option.some.inj hrecord
      cases hpc
    | faulted _ hcode _ =>
      rw [hplace] at hcode
      cases Option.some.inj hcode
      cases hpc

/-- A dispatcher that stores a failure leaves its loop. -/
theorem ThreadMove.over_of_stores {o : Owner} {caller nested : Option Nat} {choice : Choice}
    {pc' : Pc} (h : ThreadMove o caller nested choice s pc pc' s') (hpc : pc.stores = true) :
    pc'.over = true := by
  cases h
  case quiet hquiet =>
    cases hquiet
    case again hplace => rcases hplace with rfl | ⟨callback, x, rfl, -⟩ <;> cases hpc
    case leaves => rfl
    all_goals cases hpc
  case startFails hplace => rcases hplace with rfl | rfl <;> cases hpc
  case invokes hplace =>
    rcases hplace with ⟨b, rfl, rfl, -⟩ | ⟨run, error, rfl, rfl, -⟩ | ⟨ending, rfl, rfl, -⟩ |
      ⟨rfl, rfl, -⟩ | ⟨i, rfl, rfl, -⟩ | ⟨rfl, rfl, -⟩ <;> cases hpc
  case reads hplace => rcases hplace with ⟨i, rfl, rfl⟩ | ⟨rfl, rfl⟩ <;> cases hpc
  case exhausts hplace => rcases hplace with rfl | ⟨result, rfl⟩ | rfl <;> cases hpc
  case storesFault => rfl
  case storesError => rfl
  case storesLate => rfl
  all_goals cases hpc

/-- What has been stored after a step, by the run's own dispatcher. -/
theorem Client.FailuresWf.outcome_step (hs : s.FailuresWf) (hwf : s.Wf)
    (h : ClientMove P config s l s') (r : Nat) :
    ((s'.runs r).outcome = (none, none) ∨
      ∃ pc, s'.place (.dispatcher r) = some pc ∧ pc.over = true) ∧
    ((s'.runs r).callbackError = none ∨ (s'.runs r).failure = none) := by
  rcases hs.clean r with hclean | ⟨pc, hplace, hpc⟩
  · -- a step of the dispatcher that stores leads out of the loop
    have hstores : ∀ o choice t, l = .thread o choice → s.threads o = some t → o = .dispatcher r →
        t.pc.stores = true → ∃ pc, s'.place (.dispatcher r) = some pc ∧ pc.over = true := by
      rintro o choice t rfl ht rfl hpc
      cases h with
      | @thread _ _ t' pc' u ht' hmove =>
        rw [ht] at ht'
        cases ht'
        refine ⟨pc', ?_, hmove.over_of_stores hpc⟩
        rw [Client.setThread_place, Function.update_self]
        rfl
    have hempty : (s'.runs r).outcome = (none, none) →
        ((s'.runs r).outcome = (none, none) ∨
          ∃ pc, s'.place (.dispatcher r) = some pc ∧ pc.over = true) ∧
        ((s'.runs r).callbackError = none ∨ (s'.runs r).failure = none) :=
      fun h => ⟨.inl h, .inl (Prod.mk.inj h).1⟩
    rcases hwf.run_step h r with hsame | ⟨o, choice, t, hl, ht, hmove⟩
    · exact hempty (by rw [hsame, hclean])
    · cases hmove with
      | same hsame => exact hempty (by rw [hsame, hclean])
      | built _ _ hrecord =>
        rcases hrecord with ⟨hrecord, -⟩ | ⟨hrecord, -⟩ <;> exact hempty (by rw [hrecord]; rfl)
      | cancelled _ _ hrecord => exact hempty (by rw [hrecord]; exact hclean)
      | activated _ _ hrecord => exact hempty (by rw [hrecord]; exact hclean)
      | cleared _ _ hrecord => exact hempty (by rw [hrecord]; exact hclean)
      | finished _ _ hrecord => exact hempty (by rw [hrecord]; exact hclean)
      | stored howner hpc hunset hrecord =>
        refine ⟨.inr (hstores o choice t hl ht howner (by rw [hpc]; rfl)), .inr ?_⟩
        rw [hrecord]
        exact hunset.2
      | faulted howner hpc hrecord =>
        refine ⟨.inr (hstores o choice t hl ht howner (by rw [hpc]; rfl)), .inl ?_⟩
        rw [hrecord]
        exact (Prod.mk.inj hclean).1
  · obtain ⟨hover, hsame⟩ := hwf.over_step h hplace hpc
    refine ⟨.inr hover, ?_⟩
    obtain ⟨herror, hfailure⟩ := Prod.mk.inj hsame
    rw [herror, hfailure]
    exact hs.single r

theorem ThreadMove.finished {o : Owner} {caller nested : Option Nat} {choice : Choice}
    (h : ThreadMove o caller nested choice s pc .finished s') :
    ∃ r, o = .dispatcher r ∧ ((s'.runs r).completed = true ∨ s'.alive = false) := by
  cases h with
  | quiet hquiet => cases hquiet
  | begins _ _ _ _ hplace => rcases hplace with ⟨hplace, -⟩ | ⟨hplace, -⟩ <;> cases hplace
  | invokes hplace =>
    rcases hplace with ⟨b, -, hplace, -⟩ | ⟨run, e, -, hplace, -⟩ | ⟨ending, -, hplace, -⟩ |
      ⟨-, hplace, -⟩ | ⟨i, -, hplace, -⟩ | ⟨-, hplace, -⟩ <;> cases hplace
  | reads _ _ hplace => rcases hplace with ⟨i, -, hplace⟩ | ⟨-, hplace⟩ <;> cases hplace
  | @halted ending _ _ _ _ _ _ _ hafter =>
    have hbehind := (Client.afterStop_behind hafter).1
    cases ending with
    | stopped run => rcases hbehind with hplace | ⟨r, -, hplace⟩ <;> cases hplace
    | raised i fault => cases hbehind
    | finish => cases hbehind
  | @finishes r howner =>
    refine ⟨r, howner, ?_⟩
    cases halive : s.alive with
    | true =>
      refine .inl ?_
      rw [if_pos rfl, Client.setRun_self]
    | false => exact .inr halive

theorem Client.FailuresWf.step_completed (hs : s.FailuresWf) (hwf : s.Wf)
    (h : ClientMove P config s l s') (hplace : s'.place (.dispatcher r) = some .finished) :
    (s'.runs r).completed = true ∨ s'.alive = false := by
  cases h.placed hplace with
  | kept _ hbefore =>
    rcases hs.completed r hbefore with hdone | hdead
    · left
      rcases hwf.run_step h r with hsame | ⟨o, choice, t, -, -, hmove⟩
      · rw [hsame]
        exact hdone
      · cases hmove with
        | same hsame =>
          rw [hsame]
          exact hdone
        | built _ hnew _ =>
          rw [hwf.fresh r (Nat.le_of_eq hnew.symm)] at hbefore
          cases hbefore
        | cancelled _ _ hrecord => exact hrecord ▸ hdone
        | activated _ _ hrecord => exact hrecord ▸ hdone
        | cleared _ _ hrecord => exact hrecord ▸ hdone
        | stored _ _ _ hrecord => exact hrecord ▸ hdone
        | faulted _ _ hrecord => exact hrecord ▸ hdone
        | finished _ _ hrecord =>
          rw [hrecord]
    · right
      cases h with
      | thread ht hmove => exact hmove.crew.2.trans hdead
      | drop => rfl
      | _ => exact hdead
  | moved ht hmove hstate =>
    obtain ⟨r', howner, hdone⟩ := hmove.finished
    cases howner
    rw [hstate]
    exact hdone
  | entered howner _ _ => cases howner
  | built _ hentry _ _ => cases hentry
  | launched _ hentry _ _ => cases hentry

theorem Client.FailuresWf.step (hs : s.FailuresWf) (hwf : s.Wf) (h : ClientMove P config s l s') :
    s'.FailuresWf where
  clean r := (hs.outcome_step hwf h r).1
  single r := (hs.outcome_step hwf h r).2
  completed _ hplace := hs.step_completed hwf h hplace

theorem failuresWf_of_reach {ok : Client → ClientLabel → Prop}
    (h : (clientLts P config).Reach ok s) : s.FailuresWf := by
  refine Lts.Reach.invariant_using (K := Client.Wf) (I := Client.FailuresWf)
    (fun _ hs => wf_of_reach hs) ?_
    (fun _ _ _ _ hstep hwf _ hfailures => hfailures.step hwf (hwf.move hstep)) h
  rintro s ⟨native, callback, -, rfl⟩
  exact ⟨fun r => .inl rfl, fun r => .inl rfl, fun r hplace => (by cases hplace)⟩

end Outcomes

/-! ## Fault reports -/

/-- `fault_code == health.fault_code != NONE` and
`health.state == FAULTED`. -/
structure SensorFault.Consistent (fault : SensorFault) : Prop where
  code : fault.faultCode = fault.health.faultCode
  state : fault.health.state = ClientState.faulted
  some : fault.faultCode ≠ .none

/-- A snapshot that reports the latched fault. -/
def Client.tells (s : Client) (health : HealthSnapshot) : Prop :=
  health.faultCode = s.native.core.shared.faultLatch ∧ health.state = .faulted

/-- The places of a fault report behind `faulted()`. -/
def Pc.latched : Pc → Bool
  | .health _ | .healthAwait _ | .dropped _ _ | .code _ _ _ => true
  | _ => false

/-- The snapshot a fault report has in hand. -/
def Pc.health? : Pc → Option HealthSnapshot
  | .dropped _ snapshot | .code _ snapshot _ => some snapshot
  | _ => none

/-- The exception a thread is about to raise or has raised. -/
def Pc.error? : Pc → Option PyError
  | .startRollback _ error | .startUnwind _ error | .startUnwindAwait _ error
  | .startFailed _ error | .returned (.raised error) => some error
  | .halt (.raised _ fault) | .haltAwait (.raised _ fault) => some (.sensorFault fault)
  | _ => none

/-- A `SensorFaultError` that says one thing. -/
def PyError.Sound (error : PyError) : Prop := ∀ fault, error = .sensorFault fault → fault.Consistent

structure Client.FaultsWf (s : Client) : Prop where
  latched : ∀ o pc, s.place o = some pc → pc.latched = true →
    s.native.core.shared.faultLatch ≠ .none
  asked : ∀ o iterator call health, s.place o = some (.healthAwait iterator) →
    s.native.core.calls o.healthId = some call → call.pc = .returned (.snapshot health) →
    s.tells health
  told : ∀ o pc health, s.place o = some pc → pc.health? = some health → s.tells health
  raised : ∀ o pc error, s.place o = some pc → pc.error? = some error → error.Sound
  stored : ∀ r fault, (s.runs r).failure = some fault → fault.Consistent

section Faults

variable {P : Platform} {config : Config} {s s' : Client} {l : ClientLabel} {o : Owner} {pc : Pc}

/-- Every step of the client is a step of the core or leaves it alone. -/
theorem NativeEffect.core {u : Client} {pc' : Pc} (h : NativeEffect o s u pc pc') :
    u.native.core = s.native.core ∨ ∃ k, s.native.core.step P config k = some u.native.core := by
  cases h with
  | same _ _ hsame => exact .inl (congrArg Native.core hsame)
  | invoked _ _ hinvoke =>
    simp only [Native.invoke] at hinvoke
    split at hinvoke
    · cases hinvoke
    · rw [← Option.some.inj hinvoke]
      exact .inl rfl
  | collected _ _ hcollect =>
    simp only [Native.collect] at hcollect
    split at hcollect
    · rw [← Option.some.inj hcollect]
      exact .inl rfl
    · cases hcollect
  | asked _ _ hinvoke hnative =>
    rw [hnative]
    exact .inr ⟨.invoke o.healthId none .health, hinvoke⟩
  | told _ _ hcollect hnative =>
    rw [hnative]
    exact .inr ⟨.collect o.healthId, hcollect⟩

theorem ClientMove.core (h : ClientMove P config s l s') : s'.native.core = s.native.core ∨
    ∃ k, s.native.core.step P config k = some s'.native.core := by
  cases h with
  | native _ hstep =>
    rcases Native.step_core hstep with hsame | ⟨k, hcore, -⟩
    · exact .inl hsame
    · exact .inr ⟨k, hcore⟩
  | thread _ hmove => exact hmove.native.core (P := P)
  | _ => exact .inl rfl

/-- A native `start` belongs to a `start` that holds the lock. -/
theorem Client.Wf.native_start (hwf : s.Wf) (hnative : (nativeLts P config).Reachable s.native)
    {n : Nat} {call : NativeCall} (hn : s.native.calls n = some call)
    (hpart : call.pc.part = .start) : ∃ o a, n = o.nativeId ∧ s.place o = some (.startAwait a) := by
  obtain ⟨o, pc, hid, hplace, hawaits⟩ := hwf.called n call hn
  refine ⟨o, ?_⟩
  have hop : call.op.entry.part = .start := by
    rcases fitsWf_of_reachable hnative n call hn with hfits | ⟨result, hreturned⟩
    · exact hfits.symm.trans hpart
    · rw [hreturned] at hpart
      cases hpart
  rw [hop] at hawaits
  cases pc <;> cases hawaits
  exact ⟨_, hid, hplace⟩

theorem Pc.holds_of_reports (h : pc.reports = true) : pc.holds = true := by
  cases pc <;> first | rfl | cases h

/-- A fault report holds the lock, so nobody resets the latch. -/
theorem Client.Wf.latch_kept (hwf : s.Wf) (hnative : (nativeLts P config).Reachable s.native)
    (h : ClientMove P config s l s') (hplace : s.place o = some pc) (hpc : pc.reports = true)
    (hlatch : s.native.core.shared.faultLatch ≠ .none) :
    s'.native.core.shared.faultLatch = s.native.core.shared.faultLatch := by
  rcases h.core with hsame | ⟨k, hstep⟩
  · rw [hsame]
  · have hok := coreOk_of_reachable hnative
    refine latch_stays_without_reset hok.wf hok.fault ?_ hstep hlatch
    intro c call hc
    rw [Bool.eq_false_iff]
    intro hresets
    have hpart : call.pc.part = .start := by
      cases hcall : call.pc <;> rw [hcall] at hresets <;> first | rfl | cases hresets
    obtain ⟨n, nc, -, hn, hawait⟩ := (callsWf_of_reachable hnative).starting hc hpart
    obtain ⟨o', a, -, hplace'⟩ := hwf.native_start hnative hn (by rw [hawait]; rfl)
    have hlock := hwf.owner o pc hplace (Pc.holds_of_reports hpc)
    rw [hwf.owner o' _ hplace' rfl] at hlock
    obtain rfl := Option.some.inj hlock
    rw [hplace] at hplace'
    rw [Option.some.inj hplace'] at hpc
    cases hpc

theorem Pc.reports_of_latched (h : pc.latched = true) : pc.reports = true := by
  cases pc <;> first | rfl | cases h

theorem Pc.latched_of_health {health : HealthSnapshot} (h : pc.health? = some health) :
    pc.latched = true := by
  cases pc <;> first | rfl | cases h

/-- A call that returns a snapshot took it in that step. -/
theorem callStep_snapshot {core u : Sys} {c : Nat} {call : Call} {choice : CallChoice}
    {health : HealthSnapshot}
    (h : callStep config c call choice core = some (.returned (.snapshot health), u)) :
    health = core.shared.snapshot.2 := by
  obtain ⟨caller, op, pc⟩ := call
  cases pc <;> simp only [callStep, CallPc.part] at h
  case healthEnter =>
    cases h
    rfl
  all_goals
    dsimp only [Core.startStep, Core.stopStep, Core.startDecide, otherStep] at h
    (repeat' split at h) <;> cases h

theorem Client.tells_snapshot (hlatch : s.native.core.shared.faultLatch ≠ .none) :
    s.tells s.native.core.shared.snapshot.2 :=
  ⟨rfl, if_pos hlatch⟩

section Moves

variable {caller nested : Option Nat} {choice : Choice} {pc' : Pc}

theorem ThreadMove.latched (h : ThreadMove o caller nested choice s pc pc' s')
    (hpc' : pc'.latched = true) : pc.reports = true ∧
      (pc.latched = true ∨ s.native.core.shared.faulted = true) := by
  cases h
  case quiet hquiet =>
    cases hquiet
    all_goals cases hpc'
  case begins hplace => rcases hplace with ⟨rfl, -⟩ | ⟨rfl, -⟩ <;> cases hpc'
  case invokes hplace =>
    rcases hplace with ⟨b, rfl, rfl, -⟩ | ⟨run, error, rfl, rfl, -⟩ | ⟨ending, rfl, rfl, -⟩ |
      ⟨rfl, rfl, -⟩ | ⟨i, rfl, rfl, -⟩ | ⟨rfl, rfl, -⟩ <;> cases hpc'
  case reads hplace => rcases hplace with ⟨i, rfl, rfl⟩ | ⟨rfl, rfl⟩ <;> cases hpc'
  case faults hfaulted => exact ⟨rfl, .inr hfaulted⟩
  case asksHealth => exact ⟨rfl, .inl rfl⟩
  case getsHealth => exact ⟨rfl, .inl rfl⟩
  case getsDropped => exact ⟨rfl, .inl rfl⟩
  case halted hafter =>
    have hreports := (Client.afterStop_behind hafter).1.outside.2.2.1
    rw [Pc.reports_of_latched hpc'] at hreports
    cases hreports
  all_goals cases hpc'

/-- Where the snapshot of a fault report comes from. -/
theorem ThreadMove.health {health : HealthSnapshot}
    (h : ThreadMove o caller nested choice s pc pc' s') (hpc' : pc'.health? = some health) :
    pc.health? = some health ∨ ∃ iterator call, pc = .healthAwait iterator ∧
      s.native.core.calls o.healthId = some call ∧ call.pc = .returned (.snapshot health) := by
  cases h
  case quiet hquiet =>
    cases hquiet
    all_goals cases hpc'
  case begins hplace => rcases hplace with ⟨rfl, -⟩ | ⟨rfl, -⟩ <;> cases hpc'
  case invokes hplace =>
    rcases hplace with ⟨b, rfl, rfl, -⟩ | ⟨run, error, rfl, rfl, -⟩ | ⟨ending, rfl, rfl, -⟩ |
      ⟨rfl, rfl, -⟩ | ⟨i, rfl, rfl, -⟩ | ⟨rfl, rfl, -⟩ <;> cases hpc'
  case reads hplace => rcases hplace with ⟨i, rfl, rfl⟩ | ⟨rfl, rfl⟩ <;> cases hpc'
  case getsHealth hreturned _ =>
    cases hpc'
    exact .inr ⟨_, _, rfl, hreturned, rfl⟩
  case getsDropped =>
    cases hpc'
    exact .inl rfl
  case halted hafter =>
    have hreports := (Client.afterStop_behind hafter).1.outside.2.2.1
    rw [Pc.reports_of_latched (Pc.latched_of_health hpc')] at hreports
    cases hreports
  all_goals cases hpc'

/-- Where a `SensorFaultError` comes from. -/
theorem ThreadMove.error {fault : SensorFault} (h : ThreadMove o caller nested choice s pc pc' s')
    (hpc' : pc'.error? = some (.sensorFault fault)) :
    pc.error? = some (.sensorFault fault) ∨ (∃ r, (s.runs r).failure = some fault) ∨
      ∃ iterator, pc = .code iterator fault.health fault.queueDroppedCount ∧
        fault.faultCode = s.native.core.shared.faultLatch := by
  cases h
  case quiet hquiet =>
    cases hquiet
    case refused hanswer => rcases hanswer with rfl | ⟨message, rfl⟩ <;> cases hpc'
    case unavailable hanswer => rcases hanswer with rfl | ⟨message, rfl⟩ <;> cases hpc'
    case startRaises => exact .inl hpc'
    case tells r =>
      refine .inr (.inl ⟨r, ?_⟩)
      unfold Client.failureOf at hpc'
      cases hcallback : (s.runs r).callbackError with
      | some error =>
        rw [hcallback] at hpc'
        cases hpc'
      | none =>
        rw [hcallback] at hpc'
        cases hfailure : (s.runs r).failure with
        | none =>
          rw [hfailure] at hpc'
          cases hpc'
        | some stored =>
          rw [hfailure] at hpc'
          cases hpc'
          rfl
    all_goals cases hpc'
  case begins hplace => rcases hplace with ⟨rfl, -⟩ | ⟨rfl, -⟩ <;> cases hpc'
  case invokes hplace =>
    rcases hplace with ⟨b, rfl, rfl, -⟩ | ⟨run, error, rfl, rfl, -⟩ | ⟨ending, rfl, rfl, -⟩ |
      ⟨rfl, rfl, -⟩ | ⟨i, rfl, rfl, -⟩ | ⟨rfl, rfl, -⟩
    case inr.inl => exact .inl hpc'
    case inr.inr.inl => cases ending <;> exact .inl hpc'
    all_goals cases hpc'
  case reads hplace => rcases hplace with ⟨i, rfl, rfl⟩ | ⟨rfl, rfl⟩ <;> cases hpc'
  case rollsBack => exact .inl hpc'
  case unwound => exact .inl hpc'
  case raisesFault =>
    cases hpc'
    exact .inr (.inr ⟨_, rfl, rfl⟩)
  case halted ending _ _ _ _ _ hafter =>
    have hbehind := (Client.afterStop_behind hafter).1
    cases ending with
    | stopped run => rcases hbehind with rfl | ⟨r, -, rfl⟩ <;> cases hpc'
    | raised i fault =>
      rw [show pc' = _ from hbehind] at hpc'
      exact .inl hpc'
    | finish =>
      rw [show pc' = _ from hbehind] at hpc'
      cases hpc'
  all_goals cases hpc'

end Moves

/-- A fault report has found the latch set, and it stays as it was. -/
theorem Client.FaultsWf.latch_step (hs : s.FaultsWf) (hwf : s.Wf)
    (hnative : (nativeLts P config).Reachable s.native) (h : ClientMove P config s l s')
    (hplace : s'.place o = some pc) (hpc : pc.latched = true) :
    s.native.core.shared.faultLatch ≠ .none ∧
      s'.native.core.shared.faultLatch = s.native.core.shared.faultLatch := by
  cases h.placed hplace with
  | kept _ hbefore =>
    have hlatch := hs.latched o pc hbefore hpc
    exact ⟨hlatch, hwf.latch_kept hnative h hbefore (Pc.reports_of_latched hpc) hlatch⟩
  | moved ht hmove _ =>
    obtain ⟨hreports, hbefore⟩ := hmove.latched hpc
    have hlatch : s.native.core.shared.faultLatch ≠ .none := by
      rcases hbefore with hbefore | hfaulted
      · exact hs.latched o _ (Client.place_of_thread ht) hbefore
      · exact of_decide_eq_true hfaulted
    exact ⟨hlatch, hwf.latch_kept hnative h (Client.place_of_thread ht) hreports hlatch⟩
  | @entered _ op _ hentry _ => cases op <;> rw [hentry] at hpc <;> cases hpc
  | built _ hentry _ _ =>
    rw [hentry] at hpc
    cases hpc
  | launched _ hentry _ _ =>
    rw [hentry] at hpc
    cases hpc

theorem Owner.healthId_odd (o : Owner) : o.healthId % 2 = 1 := by
  unfold Owner.healthId
  omega

/-- A thread that reports has the core calls of others out of its way. -/
theorem Client.Wf.health_before (hwf : s.Wf) (hnative : (nativeLts P config).Reachable s.native)
    (h : ClientMove P config s l s') (hplace : s.place o = some pc) (hpc : pc.reports = true)
    (hother : ∀ choice, l ≠ .thread o choice) {call : Call} {result : CallResult}
    (hc : s'.native.core.calls o.healthId = some call) (hreturned : call.pc = .returned result) :
    s.native.core.calls o.healthId = some call ∨ ∃ before choice u,
      s.native.core.calls o.healthId = some before ∧
      callStep config o.healthId before choice s.native.core = some (.returned result, u) := by
  cases h with
  | native _ hstep =>
    exact Native.returned_before (callsWf_of_reachable hnative) hstep o.healthId_odd hc hreturned
  | @thread o' choice t pc' u ht hmove =>
    have hc' : u.native.core.calls o.healthId = some call := hc
    -- the mover does not hold the lock
    have hnot : t.pc.holds = false := by
      rw [Bool.eq_false_iff]
      intro hholds
      have hlock := hwf.owner o pc hplace (Pc.holds_of_reports hpc)
      rw [hwf.owner o' t.pc (Client.place_of_thread ht) hholds] at hlock
      obtain rfl := Option.some.inj hlock
      exact hother choice rfl
    left
    cases hmove.native with
    | same _ _ hsame => rwa [hsame] at hc'
    | invoked _ _ hinvoke =>
      simp only [Native.invoke] at hinvoke
      split at hinvoke
      · cases hinvoke
      · rwa [← Option.some.inj hinvoke] at hc'
    | collected _ _ hcollect =>
      simp only [Native.collect] at hcollect
      split at hcollect
      · rwa [← Option.some.inj hcollect] at hc'
      · cases hcollect
    | asked hbefore _ _ _ =>
      rw [hbefore] at hnot
      cases hnot
    | told hbefore _ _ _ =>
      rw [hbefore] at hnot
      cases hnot
  | _ => exact .inl hc

/-- A thread comes to wait for its snapshot with a call that has not been
answered. -/
theorem ThreadMove.asks {caller nested : Option Nat} {choice : Choice} {iterator : Option Nat}
    (h : ThreadMove o caller nested choice s pc (.healthAwait iterator) s') :
    s'.native.core.calls o.healthId = some ⟨none, .health, .healthEnter⟩ := by
  cases h with
  | quiet hquiet => cases hquiet
  | begins _ _ _ _ hplace => rcases hplace with ⟨hplace, -⟩ | ⟨hplace, -⟩ <;> cases hplace
  | invokes hplace =>
    rcases hplace with ⟨b, -, hplace, -⟩ | ⟨run, e, -, hplace, -⟩ | ⟨ending, -, hplace, -⟩ |
      ⟨-, hplace, -⟩ | ⟨i, -, hplace, -⟩ | ⟨-, hplace, -⟩ <;> cases hplace
  | reads _ _ hplace => rcases hplace with ⟨i, -, hplace⟩ | ⟨-, hplace⟩ <;> cases hplace
  | asksHealth hinvoke =>
    rw [(invoke_outside hinvoke).2]
    exact Sys.setCall_calls_self _ _ _
  | halted _ _ hafter => cases (Client.afterStop_behind hafter).1.outside.2.2.1

theorem Client.FaultsWf.step_asked (hs : s.FaultsWf) (hwf : s.Wf)
    (hnative : (nativeLts P config).Reachable s.native) (h : ClientMove P config s l s')
    {iterator : Option Nat} {call : Call} {health : HealthSnapshot}
    (hplace : s'.place o = some (.healthAwait iterator))
    (hc : s'.native.core.calls o.healthId = some call)
    (hreturned : call.pc = .returned (.snapshot health)) : s'.tells health := by
  obtain ⟨hlatch, hsame⟩ := hs.latch_step hwf hnative h hplace rfl
  rw [Client.tells, hsame]
  cases h.placed hplace with
  | kept hother hbefore =>
    rcases hwf.health_before hnative h hbefore rfl hother hc hreturned with
      hcall | ⟨before, choice, u, -, hstep⟩
    · exact hs.asked o iterator call health hbefore hcall hreturned
    · rw [callStep_snapshot hstep]
      exact Client.tells_snapshot hlatch
  | moved ht hmove hstate =>
    rw [hstate] at hc
    have hcall := hc.symm.trans hmove.asks
    rw [Option.some.inj hcall] at hreturned
    cases hreturned
  | @entered _ op _ hentry _ => cases op <;> cases hentry
  | built _ hentry _ _ => cases hentry
  | launched _ hentry _ _ => cases hentry

theorem Client.FaultsWf.step_told (hs : s.FaultsWf) (hwf : s.Wf)
    (hnative : (nativeLts P config).Reachable s.native) (h : ClientMove P config s l s')
    {health : HealthSnapshot} (hplace : s'.place o = some pc) (hpc : pc.health? = some health) :
    s'.tells health := by
  obtain ⟨hlatch, hsame⟩ := hs.latch_step hwf hnative h hplace (Pc.latched_of_health hpc)
  rw [Client.tells, hsame]
  cases h.placed hplace with
  | kept _ hbefore => exact hs.told o pc health hbefore hpc
  | moved ht hmove _ =>
    have hbefore := Client.place_of_thread ht
    rcases hmove.health hpc with htold | ⟨iterator, call, hawait, hc, hreturned⟩
    · exact hs.told o _ health hbefore htold
    · rw [hawait] at hbefore
      exact hs.asked o iterator call health hbefore hc hreturned
  | @entered _ op _ hentry _ => cases op <;> rw [hentry] at hpc <;> cases hpc
  | built _ hentry _ _ =>
    rw [hentry] at hpc
    cases hpc
  | launched _ hentry _ _ =>
    rw [hentry] at hpc
    cases hpc

/-- The fault of a report that is complete. -/
theorem Client.FaultsWf.consistent (hs : s.FaultsWf) {iterator : Option Nat} {fault : SensorFault}
    (hplace : s.place o = some (.code iterator fault.health fault.queueDroppedCount))
    (hcode : fault.faultCode = s.native.core.shared.faultLatch) : fault.Consistent := by
  obtain ⟨htold, hstate⟩ := hs.told o _ fault.health hplace rfl
  refine ⟨hcode.trans htold.symm, hstate, ?_⟩
  rw [hcode]
  exact hs.latched o _ hplace rfl

theorem Client.FaultsWf.step_raised (hs : s.FaultsWf) (h : ClientMove P config s l s')
    {error : PyError} (hplace : s'.place o = some pc) (hpc : pc.error? = some error) :
    error.Sound := by
  rintro fault rfl
  cases h.placed hplace with
  | kept _ hbefore => exact hs.raised o pc _ hbefore hpc fault rfl
  | moved ht hmove _ =>
    have hbefore := Client.place_of_thread ht
    rcases hmove.error hpc with hraised | ⟨r, hstored⟩ | ⟨iterator, hcode, hlatch⟩
    · exact hs.raised o _ _ hbefore hraised fault rfl
    · exact hs.stored r fault hstored
    · rw [hcode] at hbefore
      exact hs.consistent hbefore hlatch
  | @entered _ op _ hentry _ => cases op <;> rw [hentry] at hpc <;> cases hpc
  | built _ hentry _ _ =>
    rw [hentry] at hpc
    cases hpc
  | launched _ hentry _ _ =>
    rw [hentry] at hpc
    cases hpc

theorem Client.FaultsWf.step_stored (hs : s.FaultsWf) (hwf : s.Wf) (h : ClientMove P config s l s')
    {r : Nat} {fault : SensorFault} (hstored : (s'.runs r).failure = some fault) :
    fault.Consistent := by
  rcases hwf.run_step h r with hsame | ⟨o, choice, t, -, ht, hmove⟩
  · exact hs.stored r fault (hsame ▸ hstored)
  · cases hmove with
    | same hsame => exact hs.stored r fault (hsame ▸ hstored)
    | built _ _ hrecord =>
      rcases hrecord with ⟨hrecord, -⟩ | ⟨hrecord, -⟩ <;> rw [hrecord] at hstored <;> cases hstored
    | cancelled _ _ hrecord =>
      rw [hrecord] at hstored
      exact hs.stored r fault hstored
    | activated _ _ hrecord =>
      rw [hrecord] at hstored
      exact hs.stored r fault hstored
    | cleared _ _ hrecord =>
      rw [hrecord] at hstored
      exact hs.stored r fault hstored
    | stored _ _ _ hrecord =>
      rw [hrecord] at hstored
      exact hs.stored r fault hstored
    | finished _ _ hrecord =>
      rw [hrecord] at hstored
      exact hs.stored r fault hstored
    | faulted _ hpc hrecord =>
      rw [hrecord] at hstored
      cases hstored
      have hbefore := Client.place_of_thread ht
      rw [hpc] at hbefore
      exact hs.consistent hbefore rfl

theorem Client.FaultsWf.step (hs : s.FaultsWf) (hwf : s.Wf)
    (hnative : (nativeLts P config).Reachable s.native) (h : ClientMove P config s l s') :
    s'.FaultsWf where
  latched _ _ hplace hpc := by
    obtain ⟨hlatch, hsame⟩ := hs.latch_step hwf hnative h hplace hpc
    rw [hsame]
    exact hlatch
  asked _ _ _ _ hplace hc hreturned := hs.step_asked hwf hnative h hplace hc hreturned
  told _ _ _ hplace hpc := hs.step_told hwf hnative h hplace hpc
  raised _ _ _ hplace hpc := hs.step_raised h hplace hpc
  stored _ _ hstored := hs.step_stored hwf h hstored

theorem faultsWf_of_reachable (h : (clientLts P config).Reachable s) : s.FaultsWf := by
  refine Lts.Reach.invariant_using (I := Client.FaultsWf)
    (K := fun s => s.Wf ∧ (nativeLts P config).Reachable s.native)
    (fun _ hs => ⟨wf_of_reach hs, native_of_reachable hs⟩) ?_
    (fun _ _ _ _ hstep hK _ hs => hs.step hK.1 hK.2 (hK.1.move hstep)) h
  rintro s ⟨native, callback, -, rfl⟩
  exact
    { latched := fun o pc hplace => (by cases hplace)
      asked := fun o iterator call health hplace => (by cases hplace)
      told := fun o pc health hplace => (by cases hplace)
      raised := fun o pc error hplace => (by cases hplace)
      stored := fun r fault hstored => (by cases hstored) }

end Faults

end PyNetFT.Python
