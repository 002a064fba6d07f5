/-
PyNetFT.Python.Reports — `wait` and `raise_if_failed` after a failed run.

From the moment a callback raises, or its dispatcher finds the native
client faulted, the dispatcher is on its way to store exactly that
(`Failing`). Once it has ended, a call that finds the run in
`_callback_run` raises what is stored, whatever happens around it
(`Asking`). `_callback_run` is that run until a later `start` succeeds.
What can come between is `samples` on the stopped client: it selects
iterator delivery, for which `wait` is not available.
-/
import PyNetFT.Python.Failures
import PyNetFT.Bindings.ErrorStatus

namespace PyNetFT.Python

open PyNetFT.Lib PyNetFT.Core PyNetFT.Bindings

/-! ## A failure on its way -/

/-- The run of the last successful start has a dispatcher that is at a
place of `on`, or has left its loop with an outcome in `out`. -/
def Client.Failing (on : Pc → Bool) (out : Option PyError × Option SensorFault → Prop) (r : Nat)
    (s : Client) : Prop :=
  s.settled.1 = some r ∧ ∃ pc, s.place (.dispatcher r) = some pc ∧
    (on pc = true ∧ pc.over = false ∨ pc.over = true ∧ out (s.runs r).outcome)

/-- From the places of `on` a dispatcher moves within `on`, or out of the
loop with an outcome in `out`. -/
structure Leads (on : Pc → Bool) (out : Option PyError × Option SensorFault → Prop) : Prop where
  begun : on .unstarted = false
  moves : ∀ {r caller nested choice s pc pc' u}, on pc = true → pc.dispatches = true →
    (s.runs r).outcome = (none, none) →
    ThreadMove (.dispatcher r) caller nested choice s pc pc' u →
    on pc' = true ∧ pc'.over = false ∨ pc'.over = true ∧ out (u.runs r).outcome

section Failing

variable {P : Platform} {config : Config} {s s' : Client} {l : ClientLabel} {r : Nat}
  {on : Pc → Bool} {out : Option PyError × Option SensorFault → Prop}

theorem Client.Failing.step (h : s.Failing on out r) (hleads : Leads on out) (hwf : s.Wf)
    (hruns : s.RunsWf) (hfailures : s.FailuresWf) (hmove : ClientMove P config s l s')
    (hnot : s.commits l = false) : s'.Failing on out r := by
  obtain ⟨hsettled, pc, hplace, hcases⟩ := h
  refine ⟨by rw [hruns.settled_step hwf hmove hnot, hsettled], ?_⟩
  rcases hcases with ⟨hon, hover⟩ | ⟨hover, hout⟩
  · by_cases hmine : ∃ choice, l = .thread (.dispatcher r) choice
    · obtain ⟨choice, rfl⟩ := hmine
      have hclean : (s.runs r).outcome = (none, none) := by
        rcases hfailures.clean r with hclean | ⟨pc', hplace', hover'⟩
        · exact hclean
        · rw [hplace] at hplace'
          rw [Option.some.inj hplace', hover'] at hover
          cases hover
      cases hmove with
      | @thread _ _ t pc' u ht hmove =>
        rw [Client.place_of_thread ht] at hplace
        obtain rfl := Option.some.inj hplace
        have hdispatches := (hwf.fits _ _ (Client.place_of_thread ht)).mpr ⟨r, rfl⟩
        have hnext := hleads.moves hon hdispatches hclean hmove
        refine ⟨pc', ?_, hnext⟩
        rw [Client.setThread_place, Function.update_self]
        rfl
    · refine ⟨pc, hwf.dispatcher_kept hmove hplace ?_ fun choice heq => hmine ⟨choice, heq⟩,
        .inl ⟨hon, hover⟩⟩
      rintro rfl
      rw [hleads.begun] at hon
      cases hon
  · obtain ⟨⟨pc', hplace', hover'⟩, hsame⟩ := hwf.over_step hmove hplace hover
    exact ⟨pc', hplace', .inr ⟨hover', hsame ▸ hout⟩⟩

/-- A failure on its way arrives, unless a later start succeeds. -/
theorem Client.Failing.path {ls : List ClientLabel} (hp : (clientLts P config).Path
      (fun s l => s.commits l = false) s ls s') (hs : (clientLts P config).Reachable s)
    (hleads : Leads on out) (h : s.Failing on out r) : s'.Failing on out r := by
  refine Lts.Path.preserves (K := fun s => s.Wf ∧ s.RunsWf ∧ s.FailuresWf)
    (I := fun s => s.Failing on out r)
    (fun s hs => ⟨wf_of_reach hs, runsWf_of_reach hs, failuresWf_of_reach hs⟩) ?_ hp hs h
  intro s l t hnot hstep hK _ hfailing
  exact hfailing.step hleads hK.1 hK.2.1 hK.2.2 (hK.1.move hstep) hnot

theorem Client.storeError_outcome {error : PyError} (h : (s.runs r).outcome = (none, none)) :
    ((s.storeError r error).runs r).outcome = (some error, none) := by
  obtain ⟨herror, hfailure⟩ := Prod.mk.inj h
  rw [Client.storeError, if_pos ⟨herror, hfailure⟩, Client.setRun_self, CallbackRun.outcome,
    hfailure]

/-- The way of a callback's exception. -/
theorem leads_record (error : PyError) :
    Leads (fun pc => decide (pc = .record error))
      (fun outcome => outcome = (some error, none)) where
  begun := rfl
  moves := by
    intro r caller nested choice s pc pc' u hon _ hclean hmove
    obtain rfl := of_decide_eq_true hon
    cases hmove with
    | quiet hquiet =>
      cases hquiet with
      | again hplace => rcases hplace with hplace | ⟨callback, x, hplace, -⟩ <;> cases hplace
      | leaves _ hplace =>
        rcases hplace with hplace | hplace | ⟨result, hplace⟩ | ⟨x, hplace⟩ |
          ⟨x, hplace⟩ | hplace <;>
          cases hplace
    | startFails _ hplace => rcases hplace with hplace | hplace <;> cases hplace
    | invokes hplace =>
      rcases hplace with ⟨b, hplace, -⟩ | ⟨run, e, hplace, -⟩ | ⟨ending, hplace, -⟩ |
        ⟨hplace, -⟩ | ⟨i, hplace, -⟩ | ⟨hplace, -⟩ <;> cases hplace
    | reads _ _ hplace => rcases hplace with ⟨i, hplace, -⟩ | ⟨hplace, -⟩ <;> cases hplace
    | exhausts _ hplace => rcases hplace with hplace | ⟨result, hplace⟩ | hplace <;> cases hplace
    | storesError howner =>
      cases howner
      exact .inr ⟨rfl, Client.storeError_outcome hclean⟩
    | storesLate howner =>
      cases howner
      exact .inr ⟨rfl, Client.storeError_outcome hclean⟩

/-- The way of a fault report. -/
theorem leads_latched :
    Leads Pc.latched (fun outcome => ∃ fault, outcome = (none, some fault)) where
  begun := rfl
  moves := by
    intro r caller nested choice s pc pc' u hon hdispatches hclean hmove
    cases hmove
    case quiet hquiet =>
      cases hquiet
      case again hplace => rcases hplace with rfl | ⟨callback, x, rfl, -⟩ <;> cases hon
      case leaves hplace =>
        rcases hplace with rfl | rfl | ⟨result, rfl⟩ | ⟨x, rfl⟩ | ⟨x, rfl⟩ | rfl <;> cases hon
      all_goals cases hon
    case startFails hplace => rcases hplace with rfl | rfl <;> cases hon
    case invokes hplace =>
      rcases hplace with ⟨b, rfl, rfl, -⟩ | ⟨run, error, rfl, rfl, -⟩ | ⟨ending, rfl, rfl, -⟩ |
        ⟨rfl, rfl, -⟩ | ⟨i, rfl, rfl, -⟩ | ⟨rfl, rfl, -⟩ <;> cases hon
    case reads hplace => rcases hplace with ⟨i, rfl, rfl⟩ | ⟨rfl, rfl⟩ <;> cases hon
    case exhausts hplace => rcases hplace with rfl | ⟨result, rfl⟩ | rfl <;> cases hon
    case asksHealth => exact .inl ⟨rfl, rfl⟩
    case getsHealth => exact .inl ⟨rfl, rfl⟩
    case getsDropped => exact .inl ⟨rfl, rfl⟩
    case raisesFault => cases hdispatches
    case storesFault droppedCount health howner =>
      cases howner
      refine .inr ⟨rfl, ⟨s.native.core.shared.faultLatch, health, droppedCount⟩, ?_⟩
      have hrecord := Client.setRun_self s r { s.runs r with
        failure := some ⟨s.native.core.shared.faultLatch, health, droppedCount⟩ }
      refine (congrArg CallbackRun.outcome hrecord).trans ?_
      rw [CallbackRun.outcome, (Prod.mk.inj hclean).1]
    all_goals cases hon

end Failing

/-! ## Asking for a failure -/

/-- How many steps behind its locked section a call that asks for the
failure of the run `r` is. -/
def Pc.asks (r : Nat) : Pc → Option Nat
  | .waitSelf _ r' => if r' = r then some 0 else none
  | .waitCompleted _ r' => if r' = r then some 1 else none
  | .waitJoin r' => if r' = r then some 2 else none
  | .raiseFailure r' => if r' = r then some 3 else none
  | _ => none

/-- The dispatcher of the run has ended and left this failure. -/
def Client.Failed (s : Client) (r : Nat) (error : PyError) : Prop :=
  s.place (.dispatcher r) = some .finished ∧ s.failureOf r = some error

/-- The call has raised the failure of the run, or is at least `n` steps
on its way there. -/
def Client.Asking (c r : Nat) (error : PyError) (n : Nat) (s : Client) : Prop :=
  s.Failed r error ∧ ∃ pc, s.place (.call c) = some pc ∧
    (pc = .returned (.raised error) ∨ ∃ k, pc.asks r = some k ∧ n ≤ k)

def ClientLabel.moves (o : Owner) : ClientLabel → Bool
  | .thread o' _ => decide (o' = o)
  | _ => false

section Asking

variable {P : Platform} {config : Config} {s s' : Client} {l : ClientLabel} {c r n : Nat}
  {error : PyError}

theorem Client.failureOf_congr (h : (s'.runs r).outcome = (s.runs r).outcome) :
    s'.failureOf r = s.failureOf r := by
  obtain ⟨herror, hfailure⟩ := Prod.mk.inj h
  rw [Client.failureOf, Client.failureOf, herror, hfailure]

theorem Client.Failed.step (h : s.Failed r error) (hwf : s.Wf)
    (hmove : ClientMove P config s l s') : s'.Failed r error :=
  ⟨hwf.finished_stays hmove h.1,
    (Client.failureOf_congr (hwf.over_step hmove h.1 rfl).2).trans h.2⟩

theorem Pc.asks_lt {pc : Pc} {k : Nat} (h : pc.asks r = some k) : k < 4 := by
  cases pc <;> simp only [Pc.asks] at h <;>
    first | (split at h <;> cases h <;> omega) | cases h

theorem ThreadMove.asking {o : Owner} {caller nested : Option Nat} {choice : Choice} {pc pc' : Pc}
    {k : Nat} (h : ThreadMove o caller nested choice s pc pc' s') (hk : pc.asks r = some k)
    (hfailed : s.failureOf r = some error) (hdone : (s.runs r).completed = true) :
    pc' = .returned (.raised error) ∨ pc'.asks r = some (k + 1) := by
  cases h
  case quiet hquiet =>
    cases hquiet
    case selfWait r' _ _ hpending =>
      simp only [Pc.asks] at hk
      split at hk
      · rename_i heq
        rw [heq, hdone] at hpending
        cases hpending
      · cases hk
    case expired r' _ hpending =>
      simp only [Pc.asks] at hk
      split at hk
      · rename_i heq
        rw [heq, hdone] at hpending
        cases hpending
      · cases hk
    case waitsOn =>
      simp only [Pc.asks] at hk ⊢
      split at hk <;> cases hk
      exact .inr (if_pos ‹_›)
    case completed =>
      simp only [Pc.asks] at hk ⊢
      split at hk <;> cases hk
      exact .inr (if_pos ‹_›)
    case waitJoined =>
      simp only [Pc.asks] at hk ⊢
      split at hk <;> cases hk
      exact .inr (if_pos ‹_›)
    case tells =>
      simp only [Pc.asks] at hk
      split at hk
      · rename_i heq
        rw [heq, hfailed]
        exact .inl rfl
      · cases hk
    case again hplace => rcases hplace with rfl | ⟨callback, x, rfl, -⟩ <;> cases hk
    case leaves hplace =>
      rcases hplace with rfl | rfl | ⟨result, rfl⟩ | ⟨x, rfl⟩ | ⟨x, rfl⟩ | rfl <;> cases hk
    all_goals cases hk
  case startFails hplace => rcases hplace with rfl | rfl <;> cases hk
  case invokes hplace =>
    rcases hplace with ⟨b, rfl, rfl, -⟩ | ⟨run, error, rfl, rfl, -⟩ | ⟨ending, rfl, rfl, -⟩ |
      ⟨rfl, rfl, -⟩ | ⟨i, rfl, rfl, -⟩ | ⟨rfl, rfl, -⟩ <;> cases hk
  case reads hplace => rcases hplace with ⟨i, rfl, rfl⟩ | ⟨rfl, rfl⟩ <;> cases hk
  case exhausts hplace => rcases hplace with rfl | ⟨result, rfl⟩ | rfl <;> cases hk
  all_goals cases hk

/-- A run whose dispatcher has ended is complete for any call there is. -/
theorem Client.Failed.completed (h : s.Failed r error) (hfailures : s.FailuresWf) (hcrew : s.CrewWf)
    {pc : Pc} (hplace : s.place (.call c) = some pc) : (s.runs r).completed = true := by
  rcases hfailures.completed r h.1 with hdone | hdead
  · exact hdone
  · rw [hcrew.alive hplace] at hdead
    cases hdead

theorem Client.finished_of_place (h : s.place (.dispatcher r) = some .finished) :
    s.finished r = true := by
  obtain ⟨t, ht, hpc⟩ := Client.place_some.mp h
  rw [Client.finished, ht]
  exact decide_eq_true hpc

/-- A call that asks for the failure of such a run is never held up. -/
theorem Client.Failed.enabled (h : s.Failed r error) (hdone : (s.runs r).completed = true)
    {pc : Pc} {k : Nat} (hplace : s.place (.call c) = some pc) (hk : pc.asks r = some k)
    (choice : Choice) : (s.step P config (.thread (.call c) choice)).isSome = true := by
  obtain ⟨t, ht, rfl⟩ := Client.place_some.mp hplace
  simp only [Client.step, ht, Option.isSome_map, threadStep]
  have hjoins : s.joins t.caller r = true := by
    rw [Client.joins, Client.finished_of_place h.1, Bool.or_true]
  cases hpc : t.pc <;> rw [hpc] at hk <;> simp only [Pc.asks] at hk
  case waitSelf => rfl
  case waitCompleted timeout r' =>
    split at hk
    · rename_i heq
      simp only [Pc.part, waitStep, heq, hdone, if_true, Option.isSome_some]
    · cases hk
  case waitJoin r' =>
    split at hk
    · rename_i heq
      simp only [Pc.part, waitStep, heq, hjoins, if_true, Option.isSome_some]
    · cases hk
  case raiseFailure => rfl
  all_goals cases hk

theorem Client.Asking.own (h : s.Asking c r error n) (hwf : s.Wf) (hfailures : s.FailuresWf)
    (hcrew : s.CrewWf) (hmove : ClientMove P config s l s')
    (hl : ClientLabel.moves (.call c) l = true) : s'.Asking c r error (n + 1) := by
  obtain ⟨hfailed, pc, hplace, hcases⟩ := h
  refine ⟨hfailed.step hwf hmove, ?_⟩
  cases hmove with
  | @thread o choice t pc' u ht hmove =>
    obtain rfl := of_decide_eq_true hl
    rw [Client.place_of_thread ht] at hplace
    obtain rfl := Option.some.inj hplace
    refine ⟨pc', ?_, ?_⟩
    · rw [Client.setThread_place, Function.update_self]
      rfl
    · rcases hcases with hreturned | ⟨k, hk, hn⟩
      · have hresting := hmove.not_resting
        rw [hreturned] at hresting
        cases hresting
      · have hdone := hfailed.completed hfailures hcrew (Client.place_of_thread ht)
        rcases hmove.asking hk hfailed.2 hdone with hraised | hnext
        · exact .inl hraised
        · exact .inr ⟨k + 1, hnext, Nat.succ_le_succ hn⟩
  | _ => cases hl

/-- A call moves by its own steps and leaves when it is collected. -/
theorem ClientMove.call_stays (h : ClientMove P config s l s') {pc : Pc}
    (hplace : s.place (.call c) = some pc) (hl : ClientLabel.moves (.call c) l = false)
    (hcollect : l ≠ .collect c) : s'.place (.call c) = some pc := by
  have hthere : ∀ {c' : Nat}, s.threads (.call c') = none → Owner.call c ≠ .call c' := by
    intro c' hfree heq
    rw [Client.place, heq, hfree] at hplace
    cases hplace
  cases h with
  | native => exact hplace
  | drop => exact hplace
  | invoke hfree => rw [Client.entered_place, Function.update_of_ne (hthere hfree), hplace]
  | nest hfree _ hr => rw [Client.nest_place hr, Function.update_of_ne (hthere hfree), hplace]
  | @collect c' =>
    have hne : Owner.call c ≠ .call c' := by
      rintro ⟨⟩
      exact hcollect rfl
    rw [Client.left_place, Function.update_of_ne hne, hplace]
  | @unnest c' _ _ _ _ _ _ _ hd =>
    have hne : Owner.call c ≠ .call c' := by
      rintro ⟨⟩
      exact hcollect rfl
    rw [Client.unnest_place hd, Function.update_of_ne hne, hplace]
  | @thread o choice t pc' u ht hmove =>
    have hne : Owner.call c ≠ o := by
      rintro rfl
      exact of_decide_eq_false hl rfl
    rw [Client.setThread_place, Function.update_of_ne hne]
    cases hmove.threads with
    | same hthreads _ => rw [Client.place_congr hthreads, hplace]
    | built _ _ hthreads _ =>
      rw [Client.place, hthreads, Function.update_of_ne (by simp)]
      exact hplace
    | launched _ _ _ hthreads =>
      rw [Client.place, hthreads, Function.update_of_ne (by simp)]
      exact hplace

theorem Client.Asking.other (h : s.Asking c r error n) (hwf : s.Wf)
    (hmove : ClientMove P config s l s') (hl : ClientLabel.moves (.call c) l = false)
    (hcollect : l ≠ .collect c) : s'.Asking c r error n := by
  obtain ⟨hfailed, pc, hplace, hcases⟩ := h
  exact ⟨hfailed.step hwf hmove, pc, hmove.call_stays hplace hl hcollect, hcases⟩

/-- Until its result is taken, the call can make its next step or has
returned the result, and it has returned it after four steps. -/
def Client.Answers (P : Platform) (config : Config) (s : Client) (c : Nat) (result : PyResult) :
    Prop :=
  ∀ ls t, (clientLts P config).Path (fun _ l => l ≠ .collect c) s ls t →
    ∃ pc, t.place (.call c) = some pc ∧ (pc = .returned result ∨
      ls.countP (ClientLabel.moves (.call c)) < 4 ∧
        ∀ choice, (t.step P config (.thread (.call c) choice)).isSome = true)

/-- **A call that has found a failed run raises its failure**, whatever
else happens. -/
theorem Client.Asking.answers (h : s.Asking c r error 0) (hs : (clientLts P config).Reachable s) :
    s.Answers P config c (.raised error) := by
  intro ls t hp
  have hthere : t.Asking c r error (0 + ls.countP (ClientLabel.moves (.call c))) := by
    refine Lts.Path.counts (K := fun s => s.Wf ∧ s.FailuresWf ∧ s.CrewWf)
      (I := Client.Asking c r error) _ (fun _ _ _ => trivial)
      (fun s hs => ⟨wf_of_reach hs, failuresWf_of_reach hs, crewWf_of_reach hs⟩) ?_ ?_ hp hs h
    · intro n s l u _ hstep hK hl hasking
      exact hasking.own hK.1 hK.2.1 hK.2.2 (hK.1.move hstep) hl
    · intro n s l u hcollect hstep hK hl hasking
      exact hasking.other hK.1 (hK.1.move hstep) hl hcollect
  obtain ⟨hfailed, pc, hplace, hcases⟩ := hthere
  refine ⟨pc, hplace, ?_⟩
  rcases hcases with hreturned | ⟨k, hk, hn⟩
  · exact .inl hreturned
  · have ht := hp.reachable hs
    have hdone := hfailed.completed (failuresWf_of_reach ht) (crewWf_of_reach ht) hplace
    have hlt := Pc.asks_lt hk
    exact .inr ⟨by omega, hfailed.enabled hdone hplace hk⟩

end Asking

/-! ## The locked sections of `wait` and `raise_if_failed` -/

/-- What a call of `wait` or `raise_if_failed` does that runs its locked
section now, or has found the run `r` in it before. -/
structure Client.Reports (P : Platform) (config : Config) (s : Client) (r : Nat) (error : PyError) :
    Prop where
  raiseIfFailed : ∀ c, s.lock = none → s.place (.call c) = some .raiseEnter →
    ∃ t, s.step P config (.thread (.call c) .go) = some t ∧ t.Answers P config c (.raised error)
  wait : ∀ c timeout, s.lock = none → s.place (.call c) = some (.waitEnter timeout) →
    s.mode ≠ some .iterator → ∃ t, s.step P config (.thread (.call c) .go) = some t ∧
      t.Answers P config c (.raised error)
  refused : ∀ c timeout, s.lock = none → s.place (.call c) = some (.waitEnter timeout) →
    s.mode = some .iterator → ∃ t, s.step P config (.thread (.call c) .go) = some t ∧
      t.place (.call c) = some (raiseRuntime "wait is only available for callback delivery")
  waiting : ∀ c pc k, s.place (.call c) = some pc → pc.asks r = some k →
    s.Answers P config c (.raised error)

section Reports

variable {P : Platform} {config : Config} {s s' : Client} {l : ClientLabel} {c r : Nat}
  {error : PyError}

/-- A call's step that only moves the call. -/
theorem Client.step_quiet (P : Platform) (config : Config) {t : Thread} (pc' : Pc)
    (ht : s.threads (.call c) = some t) (hstep : threadStep (.call c) t .go s = some (pc', s)) :
    ∃ u, s.step P config (.thread (.call c) .go) = some u ∧ u.place (.call c) = some pc' := by
  refine ⟨s.setThread (.call c) (some { t with pc := pc' }), ?_, ?_⟩
  · simp only [Client.step, ht, hstep, Option.map_some]
  · rw [Client.setThread_place, Function.update_self]
    rfl

theorem Client.Failed.reports (h : s.Failed r error) (hs : (clientLts P config).Reachable s)
    (hcurrent : s.lock = none → s.callbackRun = some r) : s.Reports P config r error := by
  have hwf := wf_of_reach hs
  have hanswers : ∀ {c : Nat} {choice : Choice} {u : Client} {pc : Pc} {k : Nat},
      s.step P config (.thread (.call c) choice) = some u → u.place (.call c) = some pc →
      pc.asks r = some k → u.Answers P config c (.raised error) := by
    intro c choice u pc k hstep hplace hk
    have hu : (clientLts P config).Reachable u := hs.step (l := .thread (.call c) choice) hstep
    exact Client.Asking.answers
      ⟨h.step hwf (hwf.move hstep), pc, hplace, .inr ⟨k, hk, Nat.zero_le k⟩⟩ hu
  constructor
  · intro c hfree hplace
    obtain ⟨t, ht, hpc⟩ := Client.place_some.mp hplace
    obtain ⟨u, hu, hplace'⟩ := Client.step_quiet P config (.raiseFailure r) ht
      (by simp [threadStep, hpc, Pc.part, waitStep, hfree, hcurrent hfree])
    exact ⟨u, hu, hanswers hu hplace' (if_pos rfl)⟩
  · intro c timeout hfree hplace hmode
    obtain ⟨t, ht, hpc⟩ := Client.place_some.mp hplace
    obtain ⟨u, hu, hplace'⟩ := Client.step_quiet P config (.waitSelf timeout r) ht
      (by simp [threadStep, hpc, Pc.part, waitStep, hfree, hcurrent hfree, hmode])
    exact ⟨u, hu, hanswers hu hplace' (if_pos rfl)⟩
  · intro c timeout hfree hplace hmode
    obtain ⟨t, ht, hpc⟩ := Client.place_some.mp hplace
    exact Client.step_quiet P config _ ht
      (by simp [threadStep, hpc, Pc.part, waitStep, hfree, hcurrent hfree, hmode])
  · intro c pc k hplace hk
    exact Client.Asking.answers ⟨h, pc, hplace, .inr ⟨k, hk, Nat.zero_le k⟩⟩ hs

/-- A failure that has arrived is reported. -/
theorem Client.Failing.reports {on : Pc → Bool} {out : Option PyError × Option SensorFault → Prop}
    (h : s.Failing on out r) (hs : (clientLts P config).Reachable s)
    (hfinished : s.place (.dispatcher r) = some .finished)
    (hout : out (s.runs r).outcome → s.failureOf r = some error) : s.Reports P config r error := by
  obtain ⟨hsettled, pc, hplace, hcases⟩ := h
  rw [hfinished] at hplace
  obtain rfl := Option.some.inj hplace
  rcases hcases with ⟨-, hover⟩ | ⟨-, houtcome⟩
  · cases hover
  · refine Client.Failed.reports ⟨hfinished, hout houtcome⟩ hs ?_
    intro hfree
    rw [Client.settled_of_free hfree] at hsettled
    exact hsettled

end Reports

/-! ## Iterator delivery on a stopped client -/

/-- Is this the step with which `samples` writes `_mode`? -/
def Client.selects (s : Client) : ClientLabel → Bool
  | .thread o _ =>
      match s.place o with
      | some (.samplesEnter _) => s.constructorCallback.isNone && decide (s.mode = none)
      | _ => false
  | _ => false

section Modes

variable {P : Platform} {config : Config} {s s' : Client} {l : ClientLabel}

theorem ThreadMove.mode {o : Owner} {caller nested : Option Nat} {choice : Choice} {pc pc' : Pc}
    (h : ThreadMove o caller nested choice s pc pc' s') :
    (s'.mode = s.mode ∧ s'.callbackRun = s.callbackRun) ∨ s'.mode ≠ some .iterator ∨
      s'.callbackRun = none ∨
      (∃ timeout, pc = .samplesEnter timeout) ∧ s.constructorCallback = none ∧ s.mode = none ∧
        s'.callbackRun = s.callbackRun := by
  cases h
  case installs hrun =>
    refine .inr (.inl ?_)
    simp [Client.install, hrun]
  case iterates hrun => exact .inr (.inr (.inl hrun))
  case rollsBack a error =>
    obtain ⟨runs, hruns⟩ := s.rollback_frame a
    refine .inr (.inl ?_)
    rw [hruns]
    simp
  case startClears callback r joined _ =>
    obtain ⟨runs, hruns⟩ := s.clearThread_frame r joined
    exact .inl ⟨by rw [hruns], by rw [hruns]⟩
  case stopClears r joined _ =>
    obtain ⟨runs, hruns⟩ := s.clearThread_frame r joined
    exact .inl ⟨by rw [hruns], by rw [hruns]⟩
  case storesError r error _ _ _ =>
    obtain ⟨runs, hruns⟩ := s.storeError_frame r error
    exact .inl ⟨by rw [hruns], by rw [hruns]⟩
  case storesLate r error _ _ _ =>
    obtain ⟨runs, hruns⟩ := s.storeError_frame r error
    exact .inl ⟨by rw [hruns], by rw [hruns]⟩
  case makes hfree hoffered hmode =>
    cases hbefore : s.mode with
    | none => exact .inr (.inr (.inr ⟨⟨_, rfl⟩, hoffered, rfl, rfl⟩))
    | some m =>
      refine .inl ⟨?_, rfl⟩
      rw [Client.makeIterator, hbefore]
      rfl
  case halted hafter =>
    obtain ⟨-, iterators, rfl⟩ := Client.afterStop_behind hafter
    exact .inr (.inl (by simp [Client.release]))
  case finishes => exact .inl (by split <;> exact ⟨rfl, rfl⟩)
  all_goals exact .inl ⟨rfl, rfl⟩

/-- A client with a callback run is in iterator mode only by `samples`. -/
theorem mode_of_reach (h : (clientLts P config).Reach
      (fun s l => s.selects l = false ∨ s.callbackRun = none) s) :
    s.callbackRun = none ∨ s.mode ≠ some .iterator := by
  refine Lts.Reach.invariant_using (K := Client.Wf)
    (I := fun s => s.callbackRun = none ∨ s.mode ≠ some .iterator)
    (fun _ hs => wf_of_reach hs) ?_ ?_ h
  · rintro s ⟨native, callback, -, rfl⟩
    exact .inl rfl
  · intro s l t hok hstep hwf _ hs
    cases hwf.move hstep with
    | @thread o choice thread pc' u ht hmove =>
      rcases hmove.mode with ⟨hmode, hrun⟩ | hmode | hrun | ⟨⟨timeout, hpc⟩, hoffered, hnone, hrun⟩
      · exact hs.imp hrun.trans fun hne => hmode.symm ▸ hne
      · exact .inr hmode
      · exact .inl hrun
      · rcases hok with hselects | hnorun
        · rw [Client.selects, Client.place_of_thread ht, hpc, hoffered, hnone] at hselects
          cases hselects
        · exact .inl (hrun.trans hnorun)
    | _ => exact hs

end Modes

/-! ## The contract -/

section Contract

variable {P : Platform} {config : Config} {s s' t : Client} {r : Nat} {ls : List ClientLabel}

/-- The step with which a user callback raises. -/
theorem Client.raises_step {callback error : Nat} {x : Stamped}
    (hplace : s.place (.dispatcher r) = some (.calling callback x))
    (hstep : s.step P config (.thread (.dispatcher r) (.raises error)) = some s') :
    s'.place (.dispatcher r) = some (.record (.other error)) := by
  obtain ⟨d, hd, hpc⟩ := Client.place_some.mp hplace
  simp only [Client.step, hd, threadStep, hpc, Pc.part, dispatchStep] at hstep
  split at hstep
  · cases hstep
  · cases hstep
    rw [Client.setThread_place, Function.update_self]
    rfl

/-- The step with which a dispatcher finds the native client faulted. -/
theorem Client.faults_step {choice : Choice}
    (hplace : s.place (.dispatcher r) = some (.faulted none))
    (hfaulted : s.native.core.shared.faulted = true)
    (hstep : s.step P config (.thread (.dispatcher r) choice) = some s') :
    s'.place (.dispatcher r) = some (.health none) := by
  obtain ⟨d, hd, hpc⟩ := Client.place_some.mp hplace
  simp only [Client.step, hd, threadStep, hpc, Pc.part, lockedStep, hfaulted, if_true,
    Option.map_some] at hstep
  cases hstep
  rw [Client.setThread_place, Function.update_self]
  rfl

/-- A dispatcher in its loop is that of the last successful start, and
its step does not change that. -/
theorem Client.settled_of_engaged {choice : Choice} {pc : Pc}
    (hs : (clientLts P config).Reachable s)
    (hplace : s.place (.dispatcher r) = some pc) (hpc : pc.engaged = true)
    (hstep : s.step P config (.thread (.dispatcher r) choice) = some s') :
    s'.settled.1 = some r := by
  have hwf := wf_of_reach hs
  have hruns := runsWf_of_reach hs
  obtain ⟨hcurrent, -, hquiet⟩ := hruns.engaged r pc hplace hpc
  have hnone : s.attempt = none := by
    rcases s.attempt_cases with hnone | ⟨o, before, a, hplace', hattempt, -⟩
    · exact hnone
    · have hnot := hquiet o before hplace'
      rw [Pc.starting_of_attempt hattempt] at hnot
      cases hnot
  rw [hwf.settled_outside (hwf.move hstep) hnone, Client.settled_of_none hnone]
  exact hcurrent

/-- **Failures of callback runs.** After the callback of a run has raised,
or its dispatcher has found the native client faulted, and until a later
start succeeds: once the dispatcher has ended, `raise_if_failed` raises
that failure, and so does `wait`, except in iterator mode. A run stores
one failure, every `SensorFaultError` is consistent, and a client with a
callback run comes into iterator mode only by a `samples` that finds
`_mode` empty. -/
theorem callback_failures_reported (P : Platform) (config : Config) :
    (∀ s s' t r callback x error ls, (clientLts P config).Reachable s →
      s.place (.dispatcher r) = some (.calling callback x) →
      s.step P config (.thread (.dispatcher r) (.raises error)) = some s' →
      (clientLts P config).Path (fun s l => s.commits l = false) s' ls t →
      t.place (.dispatcher r) = some .finished →
      t.Reports P config r (.callbackError (.other error))) ∧
    (∀ s s' t r choice ls, (clientLts P config).Reachable s →
      s.place (.dispatcher r) = some (.faulted none) → s.native.core.shared.faulted = true →
      s.step P config (.thread (.dispatcher r) choice) = some s' →
      (clientLts P config).Path (fun s l => s.commits l = false) s' ls t →
      t.place (.dispatcher r) = some .finished →
      ∃ fault, t.Reports P config r (.sensorFault fault)) ∧
    (∀ s r, (clientLts P config).Reachable s →
      (s.runs r).callbackError = none ∨ (s.runs r).failure = none) ∧
    (∀ s o fault, (clientLts P config).Reachable s →
      s.place o = some (.returned (.raised (.sensorFault fault))) → fault.Consistent) ∧
    ∀ s, (clientLts P config).Reach (fun s l => s.selects l = false ∨ s.callbackRun = none) s →
      s.callbackRun = none ∨ s.mode ≠ some .iterator := by
  refine ⟨?_, ?_, ?_, ?_, ?_⟩
  · intro s s' t r callback x error ls hs hplace hstep hp hfinished
    have hs' : (clientLts P config).Reachable s' :=
      hs.step (l := .thread (.dispatcher r) (.raises error)) hstep
    have hfailing : s'.Failing (fun pc => decide (pc = .record (.other error)))
        (fun outcome => outcome = (some (.other error), none)) r :=
      ⟨Client.settled_of_engaged hs hplace rfl hstep, _, Client.raises_step hplace hstep,
        .inl ⟨decide_eq_true rfl, rfl⟩⟩
    refine (Client.Failing.path hp hs' (leads_record _) hfailing).reports
      (hp.reachable hs') hfinished ?_
    intro houtcome
    rw [Client.failureOf, (Prod.mk.inj houtcome).1]
  · intro s s' t r choice ls hs hplace hfaulted hstep hp hfinished
    have hs' : (clientLts P config).Reachable s' :=
      hs.step (l := .thread (.dispatcher r) choice) hstep
    have hfailing : s'.Failing Pc.latched
      (fun outcome => ∃ fault, outcome = (none, some fault)) r :=
      ⟨Client.settled_of_engaged hs hplace rfl hstep, _, Client.faults_step hplace hfaulted hstep,
        .inl ⟨rfl, rfl⟩⟩
    have hfinal := Client.Failing.path hp hs' leads_latched hfailing
    obtain ⟨-, pc, hpc, hcases⟩ := id hfinal
    rw [hfinished] at hpc
    obtain rfl := Option.some.inj hpc
    rcases hcases with ⟨-, hover⟩ | ⟨-, fault, houtcome⟩
    · cases hover
    · refine ⟨fault, hfinal.reports (hp.reachable hs') hfinished fun _ => ?_⟩
      obtain ⟨herror, hfailure⟩ := Prod.mk.inj houtcome
      rw [Client.failureOf, herror, hfailure]
      rfl
  · exact fun s r hs => (failuresWf_of_reach hs).single r
  · exact fun s o fault hs hplace => (faultsWf_of_reachable hs).raised o _ _ hplace rfl fault rfl
  · exact fun s hs => mode_of_reach hs

end Contract

/-! ### Two runs that fail -/

/-- A client on the native client of the bindings' examples. -/
def overrideClient (config : Config) : Client := { native := overrideNative config }

theorem overrideClient_reachable :
    (clientLts exactPlatform overrideConfig).Reachable (overrideClient overrideConfig) :=
  Lts.Reachable.init ⟨_, none, ⟨1000, 4, _, overrideConfig_valid, rfl, rfl⟩, rfl⟩

theorem failStopClient_reachable :
    (clientLts exactPlatform failStopConfig).Reachable (overrideClient failStopConfig) :=
  Lts.Reachable.init ⟨_, none, ⟨1000, 4, _, by decide +kernel, rfl, rfl⟩, rfl⟩

theorem Client.commits_of_check (s : Client) (l : ClientLabel) (h : (!s.commits l) = true) :
    s.commits l = false := by
  simpa using h

/-- The thread goes on, so many steps. -/
def proceed (o : Owner) (steps : Nat) : List ClientLabel := List.replicate steps (.thread o .go)

/-- The native call `n` goes on, so many steps. -/
def nativeProceed (n steps : Nat) : List ClientLabel := List.replicate steps (.native (.call n))

/-- `start` with a callback, in the call 0. -/
def callbackStart : List ClientLabel :=
  [.invoke 0 none (.start (some 5))] ++ proceed (.call 0) 4 ++ nativeProceed 0 6 ++
    List.replicate 4 (.native (.core (.call 0 .go))) ++ nativeProceed 0 2 ++ proceed (.call 0) 3 ++
    [.collect 0]

/-- The dispatcher up to its callback, with a sample of this record. -/
def dispatcherDelivers (bytes : List UInt8) : List ClientLabel :=
  proceed (.dispatcher 0) 3 ++ (workerPushes bytes).map .native ++ nativeProceed 1 8 ++
    proceed (.dispatcher 0) 5

/-- The native stop of the dispatcher, with the receive thread's end. -/
def dispatcherStops (worker : List WorkerChoice) : List ClientLabel :=
  proceed (.dispatcher 0) 1 ++ nativeProceed 1 4 ++
    ([.core (.call 2 .go), .core (.call 2 (.send .sent)), .core (.call 2 .go)] ++
      worker.map (fun choice => .core (.worker 0 choice)) ++ [.core (.call 2 .go)] :
        List NativeLabel).map .native ++ nativeProceed 1 1 ++ proceed (.dispatcher 0) 2

/-- From the callback's exception to the end of its dispatcher. -/
def callbackFails : List ClientLabel :=
  proceed (.dispatcher 0) 1 ++
    dispatcherStops [.go, .go, .send .sent, .go, .send .sent, .go, .go]

/-- The dispatcher from its callback to the fault that the receive thread
has latched. -/
def dispatcherFaults : List ClientLabel :=
  proceed (.dispatcher 0) 3 ++ workerLatches.map .native ++ nativeProceed 1 5 ++
    proceed (.dispatcher 0) 3

/-- From there to the end of the dispatcher. -/
def faultReported : List ClientLabel :=
  proceed (.dispatcher 0) 1 ++ [.native (.core (.call 7 .go))] ++ proceed (.dispatcher 0) 3 ++
    dispatcherStops [.send .sent, .go, .go]

/-- `samples` on the stopped client and then `wait`. -/
def samplesThenWait : List ClientLabel :=
  [.invoke 1 none (.samples none), .thread (.call 1) .go, .collect 1, .invoke 2 none (.wait false)]

/-- The callback a dispatcher is in. -/
def Pc.callback? : Pc → Option Nat
  | .calling callback _ => some callback
  | _ => none

theorem Client.calling_of_callback {s : Client} {o : Owner} {callback : Nat}
    (h : (s.place o).bind Pc.callback? = some callback) :
    ∃ x, s.place o = some (.calling callback x) := by
  obtain ⟨pc, hplace, hpc⟩ := Option.bind_eq_some_iff.mp h
  cases pc <;> cases hpc
  exact ⟨_, hplace⟩

/-- A callback raises and `wait` is called; a dispatcher finds a fault and
`raise_if_failed` is called. -/
theorem callback_failures_reported_waiting :
    (∃ t, (clientLts exactPlatform overrideConfig).Reachable t ∧ t.lock = none ∧
      t.place (.call 2) = some (.waitEnter false) ∧ t.mode ≠ some .iterator ∧
      t.Reports exactPlatform overrideConfig 0 (.callbackError (.other 7))) ∧
    ∃ t fault, (clientLts exactPlatform failStopConfig).Reachable t ∧ t.lock = none ∧
      t.place (.call 2) = some .raiseEnter ∧
      t.Reports exactPlatform failStopConfig 0 (.sensorFault fault) := by
  constructor
  · obtain ⟨s, u, t, hs, hstep, hp, hfacts⟩ := Lts.exists_of_stages overrideClient_reachable
      (fun s l => !s.commits l) Client.commits_of_check
      (callbackStart ++ dispatcherDelivers (List.replicate 36 0))
      (.thread (.dispatcher 0) (.raises 7)) (callbackFails ++ [.invoke 2 none (.wait false)])
      (fun s t => decide ((s.place (.dispatcher 0)).bind Pc.callback? = some 5 ∧
        t.place (.dispatcher 0) = some .finished ∧ t.lock = none ∧
        t.place (.call 2) = some (.waitEnter false) ∧ t.mode ≠ some .iterator))
      (by decide +kernel)
    obtain ⟨hcalling, hfinished, hfree, hwait, hmode⟩ := of_decide_eq_true hfacts
    obtain ⟨x, hcalling⟩ := Client.calling_of_callback hcalling
    have hreports := (callback_failures_reported exactPlatform overrideConfig).1 s u t 0 5 x 7 _ hs
      hcalling hstep hp hfinished
    exact ⟨t, hp.reachable (hs.step hstep), hfree, hwait, hmode, hreports⟩
  · obtain ⟨s, u, t, hs, hstep, hp, hfacts⟩ := Lts.exists_of_stages failStopClient_reachable
      (fun s l => !s.commits l) Client.commits_of_check
      (callbackStart ++ dispatcherDelivers errorRecord ++ dispatcherFaults)
      (.thread (.dispatcher 0) .go) (faultReported ++ [.invoke 2 none .raiseIfFailed])
      (fun s t => decide (s.place (.dispatcher 0) = some (.faulted none) ∧
        s.native.core.shared.faulted = true ∧ t.place (.dispatcher 0) = some .finished ∧
        t.lock = none ∧ t.place (.call 2) = some .raiseEnter))
      (by decide +kernel)
    obtain ⟨hplace, hfaulted, hfinished, hfree, hraise⟩ := of_decide_eq_true hfacts
    obtain ⟨fault, hreports⟩ :=
      (callback_failures_reported exactPlatform failStopConfig).2.1 s u t 0
      .go _ hs hplace hfaulted hstep hp hfinished
    exact ⟨t, fault, hp.reachable (hs.step hstep), hfree, hraise, hreports⟩

/-- After the same exception `samples` is called on the stopped client,
and `wait` refuses to report it. -/
theorem wait_refused_after_samples :
    ∃ s u t v x, (clientLts exactPlatform overrideConfig).Reachable s ∧
      s.place (.dispatcher 0) = some (.calling 5 x) ∧
      s.step exactPlatform overrideConfig (.thread (.dispatcher 0) (.raises 7)) = some u ∧
      (clientLts exactPlatform overrideConfig).Path (fun s l => s.commits l = false) u
        (callbackFails ++ samplesThenWait) t ∧
      t.place (.dispatcher 0) = some .finished ∧ t.place (.call 2) = some (.waitEnter false) ∧
      t.step exactPlatform overrideConfig (.thread (.call 2) .go) = some v ∧
      v.place (.call 2) = some (.returned
        (.raised (.runtime "wait is only available for callback delivery"))) := by
  obtain ⟨s, u, t, hs, hstep, hp, hfacts⟩ := Lts.exists_of_stages overrideClient_reachable
    (fun s l => !s.commits l) Client.commits_of_check
    (callbackStart ++ dispatcherDelivers (List.replicate 36 0))
    (.thread (.dispatcher 0) (.raises 7)) (callbackFails ++ samplesThenWait)
    (fun s t => decide ((s.place (.dispatcher 0)).bind Pc.callback? = some 5 ∧
      t.place (.dispatcher 0) = some .finished ∧ t.lock = none ∧
      t.place (.call 2) = some (.waitEnter false) ∧ t.mode = some .iterator ∧
      t.callbackRun = some 0))
    (by decide +kernel)
  obtain ⟨hcalling, hfinished, hfree, hwait, hmode, hcurrent⟩ := of_decide_eq_true hfacts
  obtain ⟨x, hcalling⟩ := Client.calling_of_callback hcalling
  obtain ⟨d, hd, hpc⟩ := Client.place_some.mp hwait
  obtain ⟨v, hv, hplace⟩ := Client.step_quiet exactPlatform overrideConfig
    (raiseRuntime "wait is only available for callback delivery") hd
    (by simp [threadStep, hpc, Pc.part, waitStep, hfree, hcurrent, hmode])
  exact ⟨s, u, t, v, x, hs, hcalling, hstep, hp, hfinished, hwait, hv, hplace⟩

end PyNetFT.Python
