/-
PyNetFT.Python.FailedStarts — what a `start` that raises leaves behind.

The history keeps what each thread has asked of the native client and of
the user since its call began (a dispatcher: ever), and the runs of the
starts that succeeded. A run record that was built and is neither that of
a start under way nor of one that succeeded is `Abandoned`: that is for
good, its dispatcher has never got into its loop and ends by itself.

Tokens are used again after a rollback. An iterator has the token of the
last start that succeeded before `samples`, and the next success has a
larger one; a dispatcher with the token of a later run is told apart by
the identity of its record.
-/
import PyNetFT.Python.Reports

namespace PyNetFT.Python

open PyNetFT.Lib PyNetFT.Core PyNetFT.Bindings

/-! ## The history -/

/-- What a thread does outside the Python client. -/
inductive Act where
  | start | stop | read | report | callback
  deriving DecidableEq

/-- What the next step of a thread does outside; `callback` is that of
the thread's own run. -/
def Pc.act (callback : Option Nat) : Pc → Option Act
  | .startNative _ => some .start
  | .startUnwind _ _ | .halt _ | .orphanStop => some .stop
  | .nextRead _ | .read => some .read
  | .faulted _ | .health _ | .dropped _ _ | .code _ _ _ => some .report
  | .take _ => callback.map fun _ => .callback
  | _ => none

def Client.callbackOf (s : Client) : Owner → Option Nat
  | .dispatcher r => (s.runs r).callback
  | .call _ => none

/-- The run of the start that succeeds in this step, if it has one. -/
def Client.succeeding (s : Client) (l : ClientLabel) : Option Nat :=
  if s.commits l then s.attempt.bind Attempt.run else none

structure StartHistory where
  acts : Owner → List Act := fun _ => []
  succeeded : List Nat := []

def StartHistory.record (h : StartHistory) (s : Client) (l : ClientLabel) (_ : Client) :
    StartHistory :=
  match l with
  | .invoke c _ _ => { h with acts := Function.update h.acts (.call c) [] }
  | .thread o _ =>
      { acts := Function.update h.acts o
          (h.acts o ++ ((s.place o).bind (Pc.act (s.callbackOf o))).toList)
        succeeded := h.succeeded ++ (s.succeeding l).toList }
  | _ => h

/-- The client with that history. -/
def startLts (P : Platform) (config : Config) : Lts (Client × StartHistory) ClientLabel :=
  (clientLts P config).recorded {} StartHistory.record

/-! ## The native calls of a start -/

/-- What a call of `start` has done outside when it is at a place. -/
def Pc.Acted (acts : List Act) : Pc → Prop
  | .startEnter _ | .startJoin _ _ | .startJoining _ _ _ | .startJoined _ _ _ | .startBuild _
  | .startThread _ | .startNative _ => acts = []
  | .startAwait _ | .startInstall _ | .startActivate _ | .startRollback _ _
  | .startUnwind _ _ => acts = [.start]
  | .startUnwindAwait _ _ | .startFailed _ _ => acts = [.start, .stop]
  | .returned (.raised _) => acts = [] ∨ acts = [.start, .stop]
  | .returned .done => acts = [] ∨ acts = [.start]
  | _ => False

section Acts

variable {P : Platform} {config : Config} {o : Owner} {caller nested : Option Nat}
  {choice : Choice} {s s' : Client} {pc pc' : Pc} {acts : List Act} {h : StartHistory}

theorem ThreadMove.acted (hmove : ThreadMove o caller nested choice s pc pc' s')
    (hacted : pc.Acted acts) (callback : Option Nat) :
    pc'.Acted (acts ++ (pc.act callback).toList) := by
  cases hmove
  case quiet hquiet =>
    cases hquiet
    case refused hanswer =>
      have hnone : acts = [] := hacted
      rcases hanswer with rfl | ⟨message, rfl⟩ <;> exact .inl (by rw [hnone]; rfl)
    case startJoin | startLook | startJoined => simpa [Pc.act, Pc.Acted] using hacted
    case startRaises => exact .inr (by simpa [Pc.act, Pc.Acted] using hacted)
    case again hplace =>
      rcases hplace with rfl | ⟨callback, x, rfl, -⟩ <;> exact hacted.elim
    case leaves hplace =>
      rcases hplace with rfl | rfl | ⟨result, rfl⟩ | ⟨x, rfl⟩ | ⟨x, rfl⟩ | rfl <;>
        exact hacted.elim
    all_goals exact hacted.elim
  case begins hplace =>
    rcases hplace with ⟨rfl, -⟩ | ⟨rfl, -⟩ <;> simpa [Pc.act, Pc.Acted] using hacted
  case builds | launches | nativeStarted | nativeFailed | installs | activateFailsLate | rollsBack
    | unwound | startClears => simpa [Pc.act, Pc.Acted] using hacted
  case buildFails | buildFailsLate | launchFails | launchFailsLate =>
    exact .inl (by simpa [Pc.act, Pc.Acted] using hacted)
  case iterates | activates => exact .inr (by simpa [Pc.act, Pc.Acted] using hacted)
  case startFails hplace =>
    rcases hplace with rfl | rfl <;> simpa [Pc.act, Pc.Acted] using hacted
  case invokes hplace =>
    rcases hplace with ⟨a, rfl, rfl, -⟩ | ⟨run, error, rfl, rfl, -⟩ | ⟨ending, rfl, rfl, -⟩ |
      ⟨rfl, rfl, -⟩ | ⟨i, rfl, rfl, -⟩ | ⟨rfl, rfl, -⟩
    · have hnone : acts = [] := hacted
      rw [hnone]
      rfl
    · have hone : acts = [.start] := hacted
      rw [hone]
      rfl
    all_goals exact hacted.elim
  case reads hplace => rcases hplace with ⟨i, rfl, rfl⟩ | ⟨rfl, rfl⟩ <;> exact hacted.elim
  case exhausts hplace => rcases hplace with rfl | ⟨result, rfl⟩ | rfl <;> exact hacted.elim
  all_goals exact hacted.elim

/-- Every call of `start` has done outside what its place says. -/
def StartHistory.Counts (s : Client) (h : StartHistory) : Prop :=
  ∀ c t callback, s.threads (.call c) = some t → t.op = .start callback →
    t.pc.Acted (h.acts (.call c))

/-- Calls are not touched by the steps of other threads. -/
theorem ThreadsMove.call {u : Client} (h : ThreadsMove s u pc) (c : Nat) :
    u.threads (.call c) = s.threads (.call c) := by
  cases h with
  | same hthreads _ => rw [hthreads]
  | built _ _ hthreads _ => rw [hthreads, Function.update_of_ne (by simp)]
  | launched _ _ _ hthreads => rw [hthreads, Function.update_of_ne (by simp)]

/-- How a call has come to be as it is. -/
inductive CallCame (s : Client) (l : ClientLabel) (c : Nat) (t' : Thread) : Prop where
  | kept (thread : s.threads (.call c) = some t') (other : ∀ choice, l ≠ .thread (.call c) choice)
      (old : ∀ caller op, l ≠ .invoke c caller op)
  | moved {t : Thread} {choice : Choice} {pc' : Pc} {u : Client}
      (label : l = .thread (.call c) choice)
      (thread : s.threads (.call c) = some t)
      (move : ThreadMove (.call c) t.caller t.nested choice s t.pc pc' u)
      (after : t' = { t with pc := pc' })
  | entered {caller : Option Nat} {op : ClientOp} (label : l = .invoke c caller op)
      (after : t' = { caller := caller, op := op, pc := op.entry })

theorem ClientMove.call_came {l : ClientLabel} {c : Nat} {t' : Thread}
    (hmove : ClientMove P config s l s') (ht' : s'.threads (.call c) = some t') :
    CallCame s l c t' := by
  have hentered : ∀ {c₀ : Nat} {caller : Option Nat} {op : ClientOp},
      (s.entered c₀ caller op).threads (.call c) = some t' →
        CallCame s (.invoke c₀ caller op) c t' := by
    intro c₀ caller op ht
    have ht : Function.update s.threads (.call c₀)
        (some { caller := caller, op := op, pc := op.entry }) (.call c) = some t' := ht
    by_cases hnew : c = c₀
    · subst hnew
      rw [Function.update_self] at ht
      exact .entered rfl (Option.some.inj ht).symm
    · have hne : Owner.call c ≠ .call c₀ := fun heq => hnew (Owner.call.inj heq)
      rw [Function.update_of_ne hne] at ht
      refine .kept ht (fun _ h => (by cases h)) fun caller op heq => ?_
      cases heq
      exact hnew rfl
  have hleft : ∀ {c₀ : Nat}, (s.left c₀).threads (.call c) = some t' →
      s.threads (.call c) = some t' := by
    intro c₀ ht
    have ht : Function.update s.threads (.call c₀) none (.call c) = some t' := ht
    by_cases hold : Owner.call c = .call c₀
    · rw [hold, Function.update_self] at ht
      cases ht
    · rwa [Function.update_of_ne hold] at ht
  have hdispatcher : ∀ (u : Client) (r : Nat) (t : Option Thread),
      (u.setThread (.dispatcher r) t).threads (.call c) = u.threads (.call c) := by
    intro u r t
    show Function.update u.threads (.dispatcher r) t (.call c) = _
    rw [Function.update_of_ne (by simp)]
  cases hmove with
  | native | drop => exact .kept ht' (fun _ h => (by cases h)) fun _ _ h => (by cases h)
  | invoke => exact hentered ht'
  | nest => exact hentered ((hdispatcher _ _ _).symm.trans ht')
  | collect => exact .kept (hleft ht') (fun _ h => (by cases h)) fun _ _ h => (by cases h)
  | unnest =>
    exact .kept (hleft ((hdispatcher _ _ _).symm.trans ht')) (fun _ h => (by cases h))
      fun _ _ h => (by cases h)
  | @thread o choice t pc' u ht hstep =>
    have ht' : Function.update u.threads o (some { t with pc := pc' }) (.call c) = some t' := ht'
    by_cases ho : Owner.call c = o
    · subst ho
      rw [Function.update_self] at ht'
      exact .moved rfl ht hstep (Option.some.inj ht').symm
    · rw [Function.update_of_ne ho] at ht'
      refine .kept (hstep.threads.call c ▸ ht') (fun choice heq => ?_) fun _ _ h => (by cases h)
      injection heq with howner
      exact ho howner.symm

theorem StartHistory.Counts.step (hc : h.Counts s) {l : ClientLabel}
    (hmove : ClientMove P config s l s') : (h.record s l s').Counts s' := by
  intro c t' callback ht' hop
  cases hmove.call_came ht' with
  | kept ht hother hold =>
    have hsame : (h.record s l s').acts (.call c) = h.acts (.call c) := by
      cases l with
      | invoke c₀ caller op =>
        refine Function.update_of_ne (fun heq => hold caller op ?_) _ _
        rw [Owner.call.inj heq]
      | thread o choice =>
        refine Function.update_of_ne (fun heq => hother choice ?_) _ _
        rw [heq]
      | native | collect | drop => rfl
    rw [hsame]
    exact hc c t' callback ht hop
  | @moved t _ _ _ hlabel ht hstep hafter =>
    subst hlabel hafter
    dsimp only [StartHistory.record]
    rw [Function.update_self, Client.place_of_thread ht]
    exact hstep.acted (hc c t callback ht hop) _
  | entered hlabel hafter =>
    subst hlabel hafter
    dsimp only [StartHistory.record] at hop ⊢
    subst hop
    rw [Function.update_self]
    exact rfl

end Acts

/-! ## The members during a start -/

/-- The handler of a failed start finds the members as they were before
the start, or as the start has set them. -/
def Client.BackedOut (s : Client) : Prop :=
  ∀ o a error, s.place o = some (.startRollback a error) →
    s.callbackRun = a.previousRun ∧ s.runToken = a.previousToken ∧ s.running = false ∨
      s.callbackRun = a.run ∧ s.runToken = a.previousToken + 1

section Members

variable {P : Platform} {config : Config} {s s' : Client} {l : ClientLabel} {o : Owner} {pc : Pc}
  {a : Attempt}

theorem Pc.attempt_cases (h : pc.attempt = some a) :
    pc.pending = true ∨ pc = .startActivate a ∨ ∃ error, pc = .startRollback a error := by
  cases pc <;> cases h <;>
    first | exact .inl rfl | exact .inr (.inl rfl) | exact .inr (.inr ⟨_, rfl⟩)

/-- Where a start stands with the members. -/
theorem Client.RunsWf.members (hs : s.RunsWf) (hb : s.BackedOut) (hplace : s.place o = some pc)
    (hpc : pc.attempt = some a) :
    s.callbackRun = a.previousRun ∧ s.runToken = a.previousToken ∧ s.running = false ∨
      s.callbackRun = a.run ∧ s.runToken = a.previousToken + 1 := by
  have hok := hs.attempt o pc a hplace hpc
  rcases Pc.attempt_cases hpc with hpending | hactive | ⟨error, rfl⟩
  · exact .inl (hok.before hpending)
  · exact .inr ⟨(hok.after hactive).1, (hok.after hactive).2.1⟩
  · exact hb o a error hplace

theorem Client.BackedOut.step (hb : s.BackedOut) (hs : s.RunsWf) (hwf : s.Wf)
    (h : ClientMove P config s l s') : s'.BackedOut := by
  intro o a error hplace
  cases h.placed hplace with
  | kept hother hbefore =>
    have hsame := hwf.control_kept h (hwf.owner o _ hbefore rfl) hother
    rw [hsame.run, hsame.token, hsame.running]
    exact hb o a error hbefore
  | @moved t choice u ht hmove hstate =>
    have hbefore := Client.place_of_thread ht
    cases hmove.attempt rfl with
    | begun _ _ _ _ _ _ _ hpending => cases hpending
    | built _ _ hpending => cases hpending
    | installed _ hafter => cases hafter
    | kept hattempt hsame =>
      have hsame' : s.SameControl s' := hstate ▸ hsame.setThread _
      rw [hsame'.run, hsame'.token, hsame'.running]
      exact hs.members hb hbefore hattempt
  | @entered _ op _ hentry _ =>
    have hplain := op.entry_plain.2.2.2
    rw [← hentry] at hplain
    cases hplain
  | built _ hentry _ _ => cases hentry
  | launched _ hentry _ _ => cases hentry

theorem backedOut_of_reach {ok : Client → ClientLabel → Prop}
    (h : (clientLts P config).Reach ok s) : s.BackedOut :=
  Lts.Reach.invariant_using (K := fun s => s.Wf ∧ s.RunsWf) (I := Client.BackedOut)
    (fun _ hs => ⟨wf_of_reach hs, runsWf_of_reach hs⟩)
    (by rintro s ⟨native, callback, -, rfl⟩ o a error hplace; cases hplace)
    (fun _ _ _ _ hstep hwf _ hb => hb.step hwf.2 hwf.1 (hwf.1.move hstep)) h

/-- The token in use is that of the last success, or the next one while a
start is under way; likewise the run. -/
theorem Client.RunsWf.current_cases (hs : s.RunsWf) (hb : s.BackedOut) :
    s.settled = (s.callbackRun, s.runToken) ∨
      ∃ a, s.attempt = some a ∧ s.callbackRun = a.run ∧ s.runToken = s.settled.2 + 1 := by
  rcases s.attempt_cases with hnone | ⟨o, pc, a, hplace, hpc, hattempt⟩
  · exact .inl (Client.settled_of_none hnone)
  · rw [Client.settled_of_attempt hattempt]
    rcases hs.members hb hplace hpc with ⟨hrun, htoken, -⟩ | ⟨hrun, htoken⟩
    · exact .inl (by rw [hrun, htoken])
    · exact .inr ⟨a, hattempt, hrun, htoken⟩

/-- A start that succeeds returns, and leaves its own run and the next
token. -/
theorem Client.RunsWf.commit (hs : s.RunsWf) (hwf : s.Wf) (h : ClientMove P config s l s')
    (hcommits : s.commits l = true) :
    ∃ o a, l = .thread o .go ∧ s.attempt = some a ∧ s'.place o = some (.returned .done) ∧
      s'.attempt = none ∧ s'.settled = (a.run, s.settled.2 + 1) := by
  cases h with
  | @thread o choice t pc' u ht hmove =>
    have hplace := Client.place_of_thread ht
    obtain rfl : choice = .go := by
      cases choice <;> first | rfl | cases hcommits
    have hmoved : (u.setThread o (some { t with pc := pc' })).place o = some pc' := by
      rw [Client.setThread_place, Function.update_self]
      rfl
    rw [Client.commits, hplace] at hcommits
    obtain ⟨caller, op, pc, nested⟩ := t
    dsimp only at hcommits hmove hplace hmoved
    cases pc
    case startInstall a =>
      have hattempt := hwf.attempt_of_place hplace rfl
      have hnone : a.run = none := by simpa using hcommits
      have hsettled := Client.settled_of_attempt hattempt
      refine ⟨o, a, rfl, hattempt, ?_⟩
      rw [hsettled]
      cases hmove with
      | installs hrun =>
        rw [hnone] at hrun
        cases hrun
      | iterates =>
        refine ⟨hmoved, rfl, ?_⟩
        rw [Client.settled_of_free rfl]
        rfl
      | startFails hraised => exact absurd rfl hraised
      | invokes hop =>
        rcases hop with ⟨b, hpc, -⟩ | ⟨run, error, hpc, -⟩ | ⟨ending, hpc, -⟩ | ⟨hpc, -⟩ |
          ⟨i, hpc, -⟩ | ⟨hpc, -⟩ <;> cases hpc
      | reads _ _ hop => rcases hop with ⟨i, hpc, -⟩ | ⟨hpc, -⟩ <;> cases hpc
      | exhausts _ hop =>
        rcases hop with hpc | ⟨result, hpc⟩ | hpc <;> cases hpc
      | quiet hquiet =>
        have hstarting := hquiet.not_starting.1
        cases hstarting
    case startActivate a =>
      have hattempt := hwf.attempt_of_place hplace rfl
      have hafter := (hs.attempt o _ a hplace rfl).after rfl
      have hsettled := Client.settled_of_attempt hattempt
      refine ⟨o, a, rfl, hattempt, ?_⟩
      rw [hsettled]
      cases hmove with
      | activates =>
        refine ⟨hmoved, rfl, ?_⟩
        rw [Client.settled_of_free rfl]
        exact Prod.ext hafter.1 hafter.2.1
      | startFails hraised => exact absurd rfl hraised
      | activateFailsLate hraised => exact absurd rfl hraised
      | invokes hop =>
        rcases hop with ⟨b, hpc, -⟩ | ⟨run, error, hpc, -⟩ | ⟨ending, hpc, -⟩ | ⟨hpc, -⟩ |
          ⟨i, hpc, -⟩ | ⟨hpc, -⟩ <;> cases hpc
      | reads _ _ hop => rcases hop with ⟨i, hpc, -⟩ | ⟨hpc, -⟩ <;> cases hpc
      | exhausts _ hop =>
        rcases hop with hpc | ⟨result, hpc⟩ | hpc <;> cases hpc
      | quiet hquiet =>
        have hstarting := hquiet.not_starting.1
        cases hstarting
    all_goals cases hcommits
  | _ => cases hcommits

/-- The token of the last success only grows. -/
theorem Client.RunsWf.token_grows (hs : s.RunsWf) (hwf : s.Wf) (h : ClientMove P config s l s') :
    s.settled.2 ≤ s'.settled.2 := by
  cases hcommits : s.commits l with
  | false => rw [hs.settled_step hwf h hcommits]
  | true =>
    obtain ⟨o, a, -, -, -, -, hsettled⟩ := hs.commit hwf h hcommits
    rw [hsettled]
    exact Nat.le_succ _

end Members

/-! ## Dispatchers of starts that have not succeeded -/

/-- The places of a dispatcher outside its loop. -/
def Pc.idle : Pc → Bool
  | .unstarted | .awaitActivation | .check | .finish | .finished => true
  | _ => false

/-- The runs of the history, and the dispatchers of the others. -/
structure StartHistory.Runs (s : Client) (h : StartHistory) : Prop where
  settled : ∀ r, s.settled.1 = some r → r ∈ h.succeeded
  bound : ∀ r ∈ h.succeeded, r < s.made
  fresh : ∀ a r, s.attempt = some a → a.run = some r → r < s.made ∧ r ∉ h.succeeded
  unbuilt : ∀ o a, s.place o = some (.startBuild a) → a.run = none
  idle : ∀ r pc, r ∉ h.succeeded → s.place (.dispatcher r) = some pc → pc.idle = true
  acts : ∀ r, r ∉ h.succeeded → h.acts (.dispatcher r) = []

section Dispatchers

variable {P : Platform} {config : Config} {o : Owner} {caller nested : Option Nat}
  {choice : Choice} {s s' : Client} {l : ClientLabel} {pc pc' : Pc} {h : StartHistory} {r : Nat}
  {a : Attempt}

/-- Into the loop a dispatcher gets with its run current. -/
theorem ThreadMove.idle (hmove : ThreadMove o caller nested choice s pc pc' s')
    (hidle : pc.idle = true) : pc'.idle = true ∨
      ∃ r, o = .dispatcher r ∧ s.lock = none ∧ s.callbackRunIsCurrent r = true := by
  cases hmove
  case quiet hquiet =>
    cases hquiet
    case activated => exact .inl rfl
    case engages howner hfree hcurrent => exact .inr ⟨_, howner, hfree, hcurrent⟩
    case again => exact .inl rfl
    case leaves => exact .inl rfl
    all_goals cases hidle
  case finishes => exact .inl rfl
  case startFails hplace => rcases hplace with rfl | rfl <;> cases hidle
  case invokes hplace =>
    rcases hplace with ⟨a, rfl, -⟩ | ⟨run, error, rfl, -⟩ | ⟨ending, rfl, -⟩ | ⟨rfl, -⟩ |
      ⟨i, rfl, -⟩ | ⟨rfl, -⟩ <;> cases hidle
  case reads hplace => rcases hplace with ⟨i, rfl, -⟩ | ⟨rfl, -⟩ <;> cases hidle
  case exhausts hplace => rcases hplace with rfl | ⟨result, rfl⟩ | rfl <;> cases hidle
  all_goals cases hidle

/-- A start comes to build its run without one. -/
theorem ThreadMove.unbuilt (hmove : ThreadMove o caller nested choice s pc (.startBuild a) s') :
    a.run = none := by
  cases hmove
  case quiet hquiet =>
    have hstarting := hquiet.not_starting.2
    cases hstarting
  case begins hattempt hplace =>
    rcases hplace with ⟨heq, -⟩ | ⟨heq, -⟩ <;> cases heq
    rw [hattempt]
  case invokes hplace =>
    rcases hplace with ⟨b, -, heq, -⟩ | ⟨run, error, -, heq, -⟩ | ⟨ending, -, heq, -⟩ |
      ⟨-, heq, -⟩ | ⟨i, -, heq, -⟩ | ⟨-, heq, -⟩ <;> cases heq
  case reads hplace => rcases hplace with ⟨i, -, heq⟩ | ⟨-, heq⟩ <;> cases heq
  case halted ending _ _ _ _ _ hafter =>
    have hplain := (Client.afterStop_behind hafter).1.plain.2.1
    cases hplain

theorem Pc.act_of_idle (callback : Option Nat) (hidle : pc.idle = true) :
    pc.act callback = none := by
  cases pc <;> first | rfl | cases hidle

theorem Client.succeeding_cases (s : Client) (l : ClientLabel) :
    s.commits l = false ∧ s.succeeding l = none ∨
      s.commits l = true ∧ s.succeeding l = s.attempt.bind Attempt.run := by
  unfold Client.succeeding
  cases s.commits l with
  | false => exact .inl ⟨rfl, rfl⟩
  | true => exact .inr ⟨rfl, rfl⟩

theorem StartHistory.succeeded_record (h : StartHistory) (s s' : Client) (l : ClientLabel) :
    (h.record s l s').succeeded = h.succeeded ++ (s.succeeding l).toList := by
  have hnone : ∀ l, (∀ o choice, l ≠ .thread o choice) → s.succeeding l = none := by
    intro l hl
    have hnot : s.commits l = false := by
      cases l <;> first | rfl | exact absurd rfl (hl _ _)
    simp [Client.succeeding, hnot]
  cases l with
  | thread o choice => rfl
  | _ => rw [hnone _ (by simp)]; simp [StartHistory.record]

theorem StartHistory.mem_record (h : StartHistory) (s s' : Client) (l : ClientLabel) :
    r ∈ (h.record s l s').succeeded ↔ r ∈ h.succeeded ∨ s.succeeding l = some r := by
  rw [h.succeeded_record, List.mem_append, Option.mem_toList]

/-- The start under way after a step: none was, or the same, or one that
has built its run in this step. -/
theorem Client.Wf.attempt_from (hwf : s.Wf) (hmove : ClientMove P config s l s')
    (ha : s'.attempt = some a) (hrun : a.run = some r) : s.attempt = some a ∨ r = s.made := by
  rcases s'.attempt_cases with hnone | ⟨o, pc, b, hplace, hpc, hattempt⟩
  · rw [ha] at hnone
    cases hnone
  cases ha.symm.trans hattempt
  rcases hmove.attempt hplace hpc with ⟨hbefore, -⟩ | ⟨t, choice, u, hlabel, ht, hstep⟩
  · exact .inl (hwf.attempt_of_place hbefore hpc)
  · have hbefore := Client.place_of_thread ht
    cases hstep with
    | begun _ _ _ _ _ _ hnone _ =>
      rw [hrun] at hnone
      cases hnone
    | kept hattempt' => exact .inl (hwf.attempt_of_place hbefore hattempt')
    | installed hinstall =>
      rw [hinstall] at hbefore
      exact .inl (hwf.attempt_of_place hbefore rfl)
    | built _ _ _ _ hnew =>
      rw [hnew] at hrun
      exact .inr (Option.some.inj hrun).symm

/-- The run of a start under way has been built. -/
theorem Client.RunsWf.built (hs : s.RunsWf) (hwf : s.Wf) (ha : s.attempt = some a)
    (hrun : a.run = some r) : r < s.made := by
  rcases s.attempt_cases with hnone | ⟨o, pc, b, hplace, hpc, hattempt⟩
  · rw [ha] at hnone
    cases hnone
  cases ha.symm.trans hattempt
  by_contra hle
  have hsome := ((hs.attempt o pc a hplace hpc).record r hrun).1
  rw [hwf.fresh r (Nat.le_of_not_lt hle)] at hsome
  cases hsome

theorem StartHistory.Runs.step (hr : h.Runs s) (hs : s.RunsWf) (hwf : s.Wf)
    (hmove : ClientMove P config s l s') : (h.record s l s').Runs s' where
  settled r hsettled := by
    rw [h.mem_record]
    rcases s.succeeding_cases l with ⟨hnot, -⟩ | ⟨hcommits, hrun⟩
    · rw [hs.settled_step hwf hmove hnot] at hsettled
      exact .inl (hr.settled r hsettled)
    · obtain ⟨o, a, -, ha, -, -, heq⟩ := hs.commit hwf hmove hcommits
      rw [heq] at hsettled
      exact .inr (hrun.trans (by rw [ha]; exact hsettled))
  bound r hmem := by
    rcases (h.mem_record s s' l).mp hmem with hold | hnew
    · exact (hr.bound r hold).trans_le hmove.made
    · rcases s.succeeding_cases l with ⟨-, hnone⟩ | ⟨-, hrun⟩
      · rw [hnew] at hnone
        cases hnone
      · obtain ⟨a, ha, har⟩ := Option.bind_eq_some_iff.mp (hrun.symm.trans hnew)
        exact (hs.built hwf ha har).trans_le hmove.made
  fresh a r ha hrun := by
    refine ⟨(hs.step hwf hmove).built (hwf.step hmove) ha hrun, fun hmem => ?_⟩
    rcases (h.mem_record s s' l).mp hmem with hold | hnew
    · rcases hwf.attempt_from hmove ha hrun with hsame | rfl
      · exact (hr.fresh a r hsame hrun).2 hold
      · exact absurd (hr.bound _ hold) (Nat.lt_irrefl _)
    · -- a start that succeeds is not under way any more
      rcases s.succeeding_cases l with ⟨-, hnone⟩ | ⟨hcommits, -⟩
      · rw [hnew] at hnone
        cases hnone
      · obtain ⟨o, b, -, -, -, hnone, -⟩ := hs.commit hwf hmove hcommits
        rw [ha] at hnone
        cases hnone
  unbuilt o a hplace := by
    cases hmove.placed hplace with
    | kept _ hsame => exact hr.unbuilt o a hsame
    | moved _ hstep _ _ => exact hstep.unbuilt
    | @entered _ op _ hentry _ =>
      have hplain := op.entry_plain.2.2.2
      rw [← hentry] at hplain
      cases hplain
    | built _ hentry => cases hentry
    | launched _ hentry => cases hentry
  idle r pc hmem hplace := by
    have hbefore : r ∉ h.succeeded := fun hold => hmem ((h.mem_record s s' l).mpr (.inl hold))
    cases hmove.placed hplace with
    | kept _ hsame => exact hr.idle r pc hbefore hsame
    | moved ht hstep _ _ =>
      have hidle := hr.idle r _ hbefore (Client.place_of_thread ht)
      rcases hstep.idle hidle with hafter | ⟨r', howner, hfree, hcurrent⟩
      · exact hafter
      · cases howner
        have hrun := (Client.callbackRunIsCurrent_iff.mp hcurrent).2.2.2
        exact absurd (hr.settled r (by rw [Client.settled_of_free hfree]; exact hrun)) hbefore
    | entered howner => cases howner
    | built _ hentry => rw [hentry]; rfl
    | launched _ hentry => rw [hentry]; rfl
  acts r hmem := by
    have hbefore : r ∉ h.succeeded := fun hold => hmem ((h.mem_record s s' l).mpr (.inl hold))
    have hnone := hr.acts r hbefore
    cases hmove with
    | invoke | nest =>
      dsimp only [StartHistory.record]
      rw [Function.update_of_ne (by simp)]
      exact hnone
    | @thread o choice t pc' u ht hstep =>
      dsimp only [StartHistory.record]
      by_cases ho : Owner.dispatcher r = o
      · subst ho
        have hidle := hr.idle r _ hbefore (Client.place_of_thread ht)
        rw [Function.update_self, hnone, Client.place_of_thread ht]
        exact congrArg Option.toList (Pc.act_of_idle _ hidle)
      · rw [Function.update_of_ne ho]
        exact hnone
    | _ => exact hnone

theorem StartHistory.runs_of_reach {p : Client × StartHistory}
    {ok : Client × StartHistory → ClientLabel → Prop} (hreach : (startLts P config).Reach ok p) :
    p.2.Runs p.1 := by
  refine Lts.Reach.recorded_invariant (I := fun s h => StartHistory.Runs s h) ?_ ?_ hreach
  · rintro s ⟨native, callback, -, rfl⟩
    exact ⟨fun _ h => (by cases h), fun _ h => (by cases h), fun _ _ h => (by cases h),
      fun _ _ h => (by cases h), fun _ _ _ h => (by cases h), fun _ _ => rfl⟩
  · intro s h l t _ hs hstep hr
    have hwf := wf_of_reach hs
    exact hr.step (runsWf_of_reach hs) hwf (hwf.move hstep)

/-- A run that was built for a start that has failed. -/
structure Client.Abandoned (s : Client) (h : StartHistory) (r : Nat) : Prop where
  built : r < s.made
  failed : r ∉ h.succeeded
  ended : ∀ a, s.attempt = some a → a.run ≠ some r

/-- That is for good. -/
theorem Client.Abandoned.step (hab : s.Abandoned h r) (hwf : s.Wf)
    (hmove : ClientMove P config s l s') : s'.Abandoned (h.record s l s') r where
  built := hab.built.trans_le hmove.made
  failed hmem := by
    rcases (h.mem_record s s' l).mp hmem with hold | hnew
    · exact hab.failed hold
    · rcases s.succeeding_cases l with ⟨-, hnone⟩ | ⟨-, hrun⟩
      · rw [hnew] at hnone
        cases hnone
      · obtain ⟨a, ha, har⟩ := Option.bind_eq_some_iff.mp (hrun.symm.trans hnew)
        exact hab.ended a ha har
  ended a ha hrun := by
    rcases hwf.attempt_from hmove ha hrun with hsame | rfl
    · exact hab.ended a hsame hrun
    · exact Nat.lt_irrefl _ hab.built

/-- The run of a start that ends without success. -/
theorem StartHistory.Runs.abandons (hr : h.Runs s) (hs : s.RunsWf) (hwf : s.Wf)
    (hmove : ClientMove P config s l s') (ha : s.attempt = some a) (hrun : a.run = some r)
    (hnot : s.commits l = false) (hends : ∀ b, s'.attempt = some b → b.run ≠ some r) :
    s'.Abandoned (h.record s l s') r where
  built := (hs.built hwf ha hrun).trans_le hmove.made
  failed hmem := by
    rcases (h.mem_record s s' l).mp hmem with hold | hnew
    · exact (hr.fresh a r ha hrun).2 hold
    · rw [Client.succeeding, hnot] at hnew
      cases hnew
  ended := hends

/-- It is not current, whatever token is in use. -/
theorem Client.Abandoned.stale (hab : s.Abandoned h r) (hr : h.Runs s) (hs : s.RunsWf)
    (hb : s.BackedOut) : s.callbackRunIsCurrent r = false := by
  rw [Bool.eq_false_iff]
  intro hcurrent
  have hrun := (Client.callbackRunIsCurrent_iff.mp hcurrent).2.2.2
  rcases hs.current_cases hb with hsettled | ⟨a, ha, heq, -⟩
  · exact hab.failed (hr.settled r (by rw [hsettled]; exact hrun))
  · exact hab.ended a ha (heq.symm.trans hrun)

/-! ## Their dispatchers end -/

/-- How many steps a dispatcher outside the loop has before it ends. -/
def Pc.left : Pc → Nat
  | .awaitActivation => 3
  | .check => 2
  | .finish => 1
  | _ => 0

/-- The activation of such a run has been decided. -/
def StartHistory.Decided (s : Client) (h : StartHistory) : Prop :=
  ∀ r, s.Abandoned h r → (s.runs r).activation.ready = true

/-- A run record keeps a decided activation. -/
theorem RunMove.ready (hmove : RunMove o s s' pc r) (hold : r < s.made)
    (hready : (s.runs r).activation.ready = true) : (s'.runs r).activation.ready = true := by
  cases hmove with
  | same hsame => rw [hsame]; exact hready
  | built _ hnew => exact absurd hnew (Nat.ne_of_lt hold)
  | cancelled _ _ hrecord => rw [hrecord]; rfl
  | activated _ _ hrecord => rw [hrecord]; rfl
  | cleared _ _ hrecord => rw [hrecord]; exact hready
  | stored _ _ _ hrecord => rw [hrecord]; exact hready
  | faulted _ _ hrecord => rw [hrecord]; exact hready
  | finished _ _ hrecord => rw [hrecord]; exact hready

/-- A start that ends has succeeded, or decided the activation. -/
theorem ThreadMove.decides (hmove : ThreadMove o caller nested choice s pc pc' s')
    (hpc : pc.attempt = some a) (hbuilt : pc ≠ .startBuild a) (hrun : a.run = some r) :
    pc'.attempt = some a ∨ choice = .go ∧ pc = .startActivate a ∨
      (s'.runs r).activation.ready = true := by
  have hcancel : ∀ u : Client, ((u.cancelRun r).runs r).activation.ready = true := by
    intro u
    rw [Client.cancelRun, Client.setRun_self]
    rfl
  cases hmove
  case quiet hquiet =>
    have hstarting := hquiet.not_starting.1
    rw [Pc.starting_of_attempt hpc] at hstarting
    cases hstarting
  case builds | buildFails | buildFailsLate => exact absurd (by rw [Option.some.inj hpc]) hbuilt
  case launches | nativeStarted | nativeFailed | installs | activateFailsLate => exact .inl hpc
  case launchFails r' _ hrun' | launchFailsLate r' _ hrun' =>
    obtain rfl : r = r' := by
      have heq := (Option.some.inj hpc) ▸ hrun'
      exact Option.some.inj (hrun.symm.trans heq)
    exact .inr (.inr (hcancel _))
  case iterates hnone =>
    rw [← Option.some.inj hpc, hnone] at hrun
    cases hrun
  case activates hgoes _ => exact .inr (.inl ⟨hgoes, by rw [Option.some.inj hpc]⟩)
  case startFails hplace => rcases hplace with rfl | rfl <;> exact .inl hpc
  case rollsBack b error =>
    obtain rfl : b = a := Option.some.inj hpc
    refine .inr (.inr ?_)
    rw [Client.rollback, hrun]
    exact hcancel _
  case invokes hplace =>
    rcases hplace with ⟨b, rfl, rfl, -⟩ | ⟨run, error, rfl, -⟩ | ⟨ending, rfl, -⟩ |
      ⟨rfl, -⟩ | ⟨i, rfl, -⟩ | ⟨rfl, -⟩
    · exact .inl hpc
    all_goals cases hpc
  case reads hplace => rcases hplace with ⟨i, rfl, -⟩ | ⟨rfl, -⟩ <;> cases hpc
  case exhausts hplace => rcases hplace with rfl | ⟨result, rfl⟩ | rfl <;> cases hpc
  all_goals cases hpc

/-- A record that is made in a step belongs to the start under way, or is
that of a thread that could not be built. -/
theorem ThreadMove.new_run (hmove : ThreadMove o caller nested choice s pc pc' s')
    (hnew : s.made < s'.made) : s'.made = s.made + 1 ∧
      ((∃ a, pc'.attempt = some a ∧ a.run = some s.made) ∨
        (s'.runs s.made).activation.ready = true) := by
  cases hmove
  case builds => exact ⟨rfl, .inl ⟨_, rfl, rfl⟩⟩
  case buildFailsLate =>
    refine ⟨rfl, .inr ?_⟩
    rw [Client.release, Client.setRun_self]
    rfl
  case rollsBack a error =>
    obtain ⟨runs, hruns⟩ := s.rollback_frame a
    rw [hruns] at hnew
    exact absurd hnew (Nat.lt_irrefl _)
  case startClears callback r joined _ =>
    obtain ⟨runs, hruns⟩ := s.clearThread_frame r joined
    rw [hruns] at hnew
    exact absurd hnew (Nat.lt_irrefl _)
  case stopClears r joined _ =>
    obtain ⟨runs, hruns⟩ := s.clearThread_frame r joined
    rw [hruns] at hnew
    exact absurd hnew (Nat.lt_irrefl _)
  case storesError r error _ _ _ =>
    obtain ⟨runs, hruns⟩ := s.storeError_frame r error
    rw [hruns] at hnew
    exact absurd hnew (Nat.lt_irrefl _)
  case storesLate r error _ _ _ =>
    obtain ⟨runs, hruns⟩ := s.storeError_frame r error
    rw [hruns] at hnew
    exact absurd hnew (Nat.lt_irrefl _)
  case halted hafter =>
    obtain ⟨-, iterators, rfl⟩ := Client.afterStop_behind hafter
    exact absurd hnew (Nat.lt_irrefl _)
  case finishes => split at hnew <;> exact absurd hnew (Nat.lt_irrefl _)
  all_goals exact absurd hnew (Nat.lt_irrefl _)

theorem StartHistory.Decided.step (hd : h.Decided s) (hr : h.Runs s) (hwf : s.Wf)
    (hmove : ClientMove P config s l s') : (h.record s l s').Decided s' := by
  intro r hab
  have hfailed : r ∉ h.succeeded := fun hold =>
    hab.failed ((h.mem_record s s' l).mpr (.inl hold))
  rcases Nat.lt_or_ge r s.made with hold | hnew
  · by_cases hbefore : s.Abandoned h r
    · rcases hwf.run_step hmove r with hsame | ⟨o, choice, t, -, -, hrun⟩
      · rw [hsame]
        exact hd r hbefore
      · exact hrun.ready hold (hd r hbefore)
    · -- its start was under way
      obtain ⟨a, ha, hrun⟩ : ∃ a, s.attempt = some a ∧ a.run = some r := by
        by_contra hover
        exact hbefore ⟨hold, hfailed, fun a ha hrun => hover ⟨a, ha, hrun⟩⟩
      have hnot : s.commits l = false := by
        rcases s.succeeding_cases l with ⟨hnot, -⟩ | ⟨-, hsucceeds⟩
        · exact hnot
        · rw [ha] at hsucceeds
          exact absurd ((h.mem_record s s' l).mpr (.inr (hsucceeds.trans hrun))) hab.failed
      rcases s.attempt_cases with hnone | ⟨o, pc, b, hplace, hpc, hattempt⟩
      · rw [ha] at hnone
        cases hnone
      cases ha.symm.trans hattempt
      by_cases hmine : ∃ choice, l = .thread o choice
      · obtain ⟨choice, rfl⟩ := hmine
        have hstep := hwf.step hmove
        cases hmove with
        | @thread _ _ t pc' u ht hthread =>
          have heq : t.pc = pc := Option.some.inj ((Client.place_of_thread ht).symm.trans hplace)
          subst heq
          have hbuilt : t.pc ≠ .startBuild a := by
            intro hbuild
            rw [hbuild] at hplace
            rw [hr.unbuilt o a hplace] at hrun
            cases hrun
          rcases hthread.decides hpc hbuilt hrun with hkept | ⟨rfl, hactivate⟩ | hready
          · have hmoved : (u.setThread o (some { t with pc := pc' })).place o = some pc' := by
              rw [Client.setThread_place, Function.update_self]
              rfl
            exact absurd hrun (hab.ended a (hstep.attempt_of_place hmoved hkept))
          · rw [Client.commits, hplace, hactivate] at hnot
            cases hnot
          · exact hready
      · have hstays := hwf.attempt_stays hmove hplace hpc fun choice heq => hmine ⟨choice, heq⟩
        exact absurd hrun (hab.ended a hstays)
  · have hmade : s.made < s'.made := hnew.trans_lt hab.built
    have hstep := hwf.step hmove
    cases hmove with
    | @thread o choice t pc' u ht hthread =>
      obtain ⟨hone, hcases⟩ := hthread.new_run hmade
      obtain rfl : r = s.made := by
        have hlt : r < u.made := hab.built
        omega
      rcases hcases with ⟨a, hpc, hrun⟩ | hready
      · have hmoved : (u.setThread o (some { t with pc := pc' })).place o = some pc' := by
          rw [Client.setThread_place, Function.update_self]
          rfl
        exact absurd hrun (hab.ended a (hstep.attempt_of_place hmoved hpc))
      · exact hready
    | _ => exact absurd hmade (Nat.lt_irrefl _)

theorem StartHistory.decided_of_reach {p : Client × StartHistory}
    {ok : Client × StartHistory → ClientLabel → Prop} (hreach : (startLts P config).Reach ok p) :
    p.2.Decided p.1 := by
  refine Lts.Reach.invariant_using (I := fun p => p.2.Decided p.1)
    (fun p hp => (⟨wf_of_reach hp.unrecorded, StartHistory.runs_of_reach hp⟩ :
      p.1.Wf ∧ p.2.Runs p.1)) ?_ ?_ hreach
  · rintro ⟨s, h⟩ ⟨⟨native, callback, -, rfl⟩, rfl⟩ r hab
    exact absurd hab.built (Nat.not_lt_zero _)
  · rintro ⟨s, h⟩ l ⟨s', h'⟩ - hstep ⟨hwf, hr⟩ - hd
    obtain ⟨hs, hrecord⟩ := Lts.recorded_step hstep
    dsimp only at hs hrecord
    subst hrecord
    exact hd.step hr hwf (hwf.move hs)

/-- A dispatcher that is not current goes to its end. -/
theorem ThreadMove.left_lt (hmove : ThreadMove o caller nested choice s pc pc' s')
    (hidle : pc.idle = true)
    (hstale : ∀ r, o = .dispatcher r → s.callbackRunIsCurrent r = false) :
    pc'.left < pc.left := by
  cases hmove
  case quiet hquiet =>
    cases hquiet
    case activated => exact Nat.lt_succ_self 2
    case engages howner _ hcurrent =>
      rw [hstale _ howner] at hcurrent
      cases hcurrent
    case again hplace =>
      rcases hplace with rfl | ⟨callback, x, rfl, -⟩ <;> cases hidle
    case leaves hplace =>
      rcases hplace with rfl | rfl | ⟨result, rfl⟩ | ⟨x, rfl⟩ | ⟨x, rfl⟩ | rfl
      · decide
      · decide
      all_goals cases hidle
    all_goals cases hidle
  case finishes => exact Nat.zero_lt_one
  case startFails hplace => rcases hplace with rfl | rfl <;> cases hidle
  case invokes hplace =>
    rcases hplace with ⟨a, rfl, -⟩ | ⟨run, error, rfl, -⟩ | ⟨ending, rfl, -⟩ | ⟨rfl, -⟩ |
      ⟨i, rfl, -⟩ | ⟨rfl, -⟩ <;> cases hidle
  case reads hplace => rcases hplace with ⟨i, rfl, -⟩ | ⟨rfl, -⟩ <;> cases hidle
  case exhausts hplace => rcases hplace with rfl | ⟨result, rfl⟩ | rfl <;> cases hidle
  all_goals cases hidle

/-- It can take its next step; a check waits for the lock. -/
theorem Client.idle_enabled {t : Thread} (ht : s.threads (.dispatcher r) = some t)
    (hidle : t.pc.idle = true) (hleft : 0 < t.pc.left)
    (hready : (s.runs r).activation.ready = true) (hfree : t.pc = .check → s.lock = none) :
    (s.step P config (.thread (.dispatcher r) .go)).isSome = true := by
  have hstep : (dispatchStep r t .go s t.pc).isSome = true ∧ t.pc.part = .dispatch := by
    cases hpc : t.pc
    case awaitActivation => exact ⟨by simp [dispatchStep, hready], rfl⟩
    case check =>
      refine ⟨?_, rfl⟩
      unfold dispatchStep
      cases s.alive <;> simp [hfree hpc]
    case finish => exact ⟨rfl, rfl⟩
    all_goals
      rw [hpc] at hidle hleft
      first | (cases hidle; done) | exact absurd hleft (Nat.lt_irrefl 0)
  unfold Client.step
  simp only [ht, threadStep, hstep.2, Option.isSome_map]
  exact hstep.1

/-- The dispatcher of a run after `k` of its own steps, of `n` at most. -/
def Client.Ends (s : Client) (r n k : Nat) : Prop :=
  ∃ pc, s.place (.dispatcher r) = some pc ∧ pc.idle = true ∧ pc.left + k ≤ n

def ClientLabel.isOf (o : Owner) : ClientLabel → Bool
  | .thread o' _ => decide (o' = o)
  | _ => false

/-- Each of its own steps brings an abandoned dispatcher nearer to its
end. -/
theorem Client.Abandoned.ends_own (hab : s.Abandoned h r) (hr : h.Runs s) (hs : s.RunsWf)
    (hb : s.BackedOut) (hmove : ClientMove P config s (.thread (.dispatcher r) choice) s')
    {n k : Nat} (hends : s.Ends r n k) : s'.Ends r n (k + 1) := by
  obtain ⟨pc, hplace, hidle, hleft⟩ := hends
  have hstale : ∀ r', Owner.dispatcher r = .dispatcher r' → s.callbackRunIsCurrent r' = false := by
    rintro r' ⟨⟩
    exact hab.stale hr hs hb
  cases hmove with
  | @thread _ _ t pc' u ht hthread =>
    have heq : t.pc = pc := Option.some.inj ((Client.place_of_thread ht).symm.trans hplace)
    subst heq
    have hlt := hthread.left_lt hidle hstale
    refine ⟨pc', ?_, ?_, by omega⟩
    · rw [Client.setThread_place, Function.update_self]
      rfl
    · rcases hthread.idle hidle with hafter | ⟨r', howner, -, hcurrent⟩
      · exact hafter
      · rw [hstale r' howner] at hcurrent
        cases hcurrent

/-- The steps of others leave it where it is: its start is over, so that
nobody launches it any more. -/
theorem Client.Abandoned.ends_other (hab : s.Abandoned h r) (hwf : s.Wf)
    (hmove : ClientMove P config s l s') (hother : l.isOf (.dispatcher r) = false) {n k : Nat}
    (hends : s.Ends r n k) : s'.Ends r n k := by
  obtain ⟨pc, hplace, hidle, hleft⟩ := hends
  refine ⟨pc, hwf.stays hmove hplace ?_ ?_ ?_, hidle, hleft⟩
  · rintro choice rfl
    simp [ClientLabel.isOf] at hother
  · rintro result rfl
    cases hidle
  · rintro - starter a r' hstarter hrun ⟨⟩
    exact absurd hrun (hab.ended a (hwf.attempt_of_place hstarter rfl))

end Dispatchers

/-! ## Iterators and the members -/

/-- An iterator of a run before the last start that succeeded. -/
structure Client.Outdated (s : Client) (i : Nat) : Prop where
  made : i < s.madeIterators
  token : (s.iterators i).token < s.settled.2

/-- Without a start under way the client is stopped. -/
def Client.Halted (s : Client) : Prop := s.attempt = none → s.running = false

/-- No iterator is ahead of the last start that succeeded. -/
def Client.IteratorsWf (s : Client) : Prop :=
  ∀ i, i < s.madeIterators → (s.iterators i).token ≤ s.settled.2

section Members

variable {P : Platform} {config : Config} {o : Owner} {caller nested : Option Nat}
  {choice : Choice} {s s' : Client} {l : ClientLabel} {pc pc' : Pc} {a : Attempt} {i : Nat}

theorem Client.setIterator_token (s : Client) (i j : Nat) (state : GeneratorState) :
    ((s.setIterator j { s.iterators j with state := state }).iterators i).token
      = (s.iterators i).token := by
  by_cases hi : i = j
  · subst hi
    simp [Client.setIterator]
  · simp [Client.setIterator, Function.update_of_ne hi]

/-- `samples` makes an iterator under the lock, with the token in use; a
token once given stays. -/
theorem ThreadMove.iterators (hmove : ThreadMove o caller nested choice s pc pc' s') :
    (s'.madeIterators = s.madeIterators ∧ ∀ i, (s'.iterators i).token = (s.iterators i).token) ∨
      s.lock = none ∧ s'.madeIterators = s.madeIterators + 1 ∧
        (s'.iterators s.madeIterators).token = s.runToken ∧
        ∀ i, i ≠ s.madeIterators → (s'.iterators i).token = (s.iterators i).token := by
  cases hmove
  case makes timeout hfree hoffered hmode =>
    refine .inr ⟨hfree, rfl, ?_, fun i hi => ?_⟩
    · simp [Client.makeIterator, Client.setIterator]
    · simp [Client.makeIterator, Client.setIterator, Function.update_of_ne hi]
  case nextEnters | exhausts | timesOut | yields | nextFails | healthy =>
    exact .inl ⟨rfl, fun i => Client.setIterator_token _ _ _ _⟩
  case rollsBack a error =>
    obtain ⟨runs, hruns⟩ := s.rollback_frame a
    exact .inl ⟨by rw [hruns], fun i => by rw [hruns]⟩
  case startClears callback r joined _ =>
    obtain ⟨runs, hruns⟩ := s.clearThread_frame r joined
    exact .inl ⟨by rw [hruns], fun i => by rw [hruns]⟩
  case stopClears r joined _ =>
    obtain ⟨runs, hruns⟩ := s.clearThread_frame r joined
    exact .inl ⟨by rw [hruns], fun i => by rw [hruns]⟩
  case storesError r error _ _ _ =>
    obtain ⟨runs, hruns⟩ := s.storeError_frame r error
    exact .inl ⟨by rw [hruns], fun i => by rw [hruns]⟩
  case storesLate r error _ _ _ =>
    obtain ⟨runs, hruns⟩ := s.storeError_frame r error
    exact .inl ⟨by rw [hruns], fun i => by rw [hruns]⟩
  case halted ending native op result hreturned hcollect hafter =>
    rcases Client.afterStop_cases _ _ ending with ⟨rfl, heq⟩ | ⟨i, fault, rfl, heq⟩ |
        ⟨r, rfl, -, -, heq⟩ | ⟨run, rfl, -, heq⟩ <;>
      obtain ⟨rfl, rfl⟩ := Prod.mk.inj (heq.symm.trans hafter)
    · exact .inl ⟨rfl, fun _ => rfl⟩
    · exact .inl ⟨rfl, fun j => Client.setIterator_token _ _ _ _⟩
    · exact .inl ⟨rfl, fun _ => rfl⟩
    · exact .inl ⟨rfl, fun _ => rfl⟩
  case finishes => split <;> exact .inl ⟨rfl, fun _ => rfl⟩
  all_goals exact .inl ⟨rfl, fun _ => rfl⟩

/-- What a step of the client does to the iterators. -/
theorem ClientMove.iterators (hmove : ClientMove P config s l s') :
    (s'.madeIterators = s.madeIterators ∧ ∀ i, (s'.iterators i).token = (s.iterators i).token) ∨
      s.lock = none ∧ s'.madeIterators = s.madeIterators + 1 ∧
        (s'.iterators s.madeIterators).token = s.runToken ∧
        ∀ i, i ≠ s.madeIterators → (s'.iterators i).token = (s.iterators i).token := by
  cases hmove with
  | thread _ hthread => exact hthread.iterators
  | _ => exact .inl ⟨rfl, fun _ => rfl⟩

theorem Client.IteratorsWf.step (hi : s.IteratorsWf) (hs : s.RunsWf) (hwf : s.Wf)
    (hmove : ClientMove P config s l s') : s'.IteratorsWf := by
  intro i hmade
  refine le_trans ?_ (hs.token_grows hwf hmove)
  rcases hmove.iterators with ⟨hcount, htoken⟩ | ⟨hfree, hcount, hnew, hold⟩
  · rw [htoken i]
    exact hi i (hcount ▸ hmade)
  · by_cases hlast : i = s.madeIterators
    · rw [hlast, hnew, Client.settled_of_free hfree]
    · rw [hold i hlast]
      exact hi i (by omega)

theorem iteratorsWf_of_reach {ok : Client → ClientLabel → Prop}
    (h : (clientLts P config).Reach ok s) : s.IteratorsWf :=
  Lts.Reach.invariant_using (K := fun s => s.Wf ∧ s.RunsWf) (I := Client.IteratorsWf)
    (fun _ hs => ⟨wf_of_reach hs, runsWf_of_reach hs⟩)
    (by rintro s ⟨native, callback, -, rfl⟩ i hmade; exact absurd hmade (Nat.not_lt_zero i))
    (fun _ _ _ _ hstep hwf _ hi => hi.step hwf.2 hwf.1 (hwf.1.move hstep)) h

/-- A start that succeeds leaves every iterator behind. -/
theorem Client.IteratorsWf.outdated (hi : s.IteratorsWf) (hs : s.RunsWf) (hwf : s.Wf)
    (hmove : ClientMove P config s l s') (hcommits : s.commits l = true)
    (hmade : i < s.madeIterators) : s'.Outdated i := by
  obtain ⟨o, a, rfl, hattempt, -, -, hsettled⟩ := hs.commit hwf hmove hcommits
  have hkept : s'.madeIterators = s.madeIterators ∧
      ∀ i, (s'.iterators i).token = (s.iterators i).token := by
    rcases hmove.iterators with hkept | ⟨hfree, -⟩
    · exact hkept
    · rw [Client.attempt, hfree] at hattempt
      cases hattempt
  refine ⟨hkept.1 ▸ hmade, ?_⟩
  rw [hkept.2 i, hsettled]
  exact Nat.lt_succ_of_le (hi i hmade)

theorem Client.Outdated.step (hi : s.Outdated i) (hs : s.RunsWf) (hwf : s.Wf)
    (hmove : ClientMove P config s l s') : s'.Outdated i := by
  have hgrows := hs.token_grows hwf hmove
  have hmade := hi.made
  have htoken := hi.token
  rcases hmove.iterators with ⟨hcount, hkept⟩ | ⟨-, hcount, -, hkept⟩
  · exact ⟨hcount ▸ hmade, by rw [hkept i]; omega⟩
  · exact ⟨by omega, by rw [hkept i (Nat.ne_of_lt hmade)]; omega⟩

/-- Tokens are used again, but none that is as old. -/
theorem Client.Outdated.stale (hi : s.Outdated i) (hs : s.RunsWf) (hb : s.BackedOut) :
    s.iteratorIsCurrent i = false := by
  rw [Bool.eq_false_iff]
  intro hcurrent
  have htoken := (Client.iteratorIsCurrent_iff.mp hcurrent).2.2
  have hold := hi.token
  rcases hs.current_cases hb with hsettled | ⟨a, -, -, hnext⟩
  · rw [hsettled] at hold
    omega
  · omega

/-- Only a start sets `_running`. -/
theorem ThreadMove.running (hmove : ThreadMove o caller nested choice s pc pc' s')
    (hpc : pc.attempt = none) (hrunning : s'.running = true) : s.running = true := by
  cases hmove
  case startClears callback r joined _ =>
    obtain ⟨runs, hruns⟩ := s.clearThread_frame r joined
    rw [hruns] at hrunning
    exact hrunning
  case stopClears r joined _ =>
    obtain ⟨runs, hruns⟩ := s.clearThread_frame r joined
    rw [hruns] at hrunning
    exact hrunning
  case storesLate r error _ _ _ =>
    obtain ⟨runs, hruns⟩ := s.storeError_frame r error
    rw [hruns] at hrunning
    exact hrunning
  case halted hafter =>
    obtain ⟨-, iterators, rfl⟩ := Client.afterStop_behind hafter
    exact hrunning
  case finishes => split at hrunning <;> exact hrunning
  all_goals first | (cases hpc; done) | cases hrunning | exact hrunning

/-- A stopped client is started by a start that succeeds, and shows
nothing of one that does not. -/
theorem Client.Halted.step (hh : s.Halted) (hs : s.RunsWf) (hwf : s.Wf)
    (hmove : ClientMove P config s l s') (hnot : s.commits l = false) : s'.Halted := by
  intro hnone'
  have hother : ∀ {o : Owner} {pc : Pc} {a : Attempt}, s.place o = some pc → pc.attempt = some a →
      (∀ choice, l ≠ .thread o choice) → False := by
    intro o pc a hplace hpc hl
    rw [hwf.attempt_stays hmove hplace hpc hl] at hnone'
    cases hnone'
  have hstep := hwf.step hmove
  rcases s.attempt_cases with hnone | ⟨o, pc, a, hplace, hpc, -⟩
  · have hstopped := hh hnone
    cases hmove with
    | @thread o choice t pc' u ht hthread =>
      have hpc : t.pc.attempt = none := by
        cases hattempt : t.pc.attempt with
        | none => rfl
        | some a =>
          rw [hwf.attempt_of_place (Client.place_of_thread ht) hattempt] at hnone
          cases hnone
      rw [Bool.eq_false_iff]
      intro hrunning
      rw [hthread.running hpc hrunning] at hstopped
      cases hstopped
    | _ => exact hstopped
  · cases hmove with
    | @thread o' choice t pc' u ht hthread =>
      by_cases ho : o = o'
      · subst ho
        have heq : t.pc = pc := Option.some.inj ((Client.place_of_thread ht).symm.trans hplace)
        subst heq
        have hleft : pc'.attempt = none := by
          cases hattempt : pc'.attempt with
          | none => rfl
          | some b =>
            have hmoved : (u.setThread o (some { t with pc := pc' })).place o = some pc' := by
              rw [Client.setThread_place, Function.update_self]
              rfl
            rw [hstep.attempt_of_place hmoved hattempt] at hnone'
            cases hnone'
        rcases hthread.attempt_ends hpc hleft with ⟨rfl, hcommits⟩ | ⟨hpending, hsame⟩ |
            ⟨-, -, hstopped⟩
        · rw [Client.commits, hplace] at hnot
          rcases hcommits with ⟨hinstall, hiterator⟩ | hactivate
          · rw [hinstall] at hnot
            simp [hiterator] at hnot
          · rw [hactivate] at hnot
            cases hnot
        · exact hsame.running.trans ((hs.attempt o t.pc a hplace hpc).before hpending).2.2
        · exact hstopped
      · exact (hother hplace hpc fun choice' heq =>
          ho (by injection heq with h1; exact h1.symm)).elim
    | _ => exact (hother hplace hpc (by simp)).elim

/-- What a finished run has stored stays. -/
theorem Client.Wf.failure_stays {r : Nat} (hwf : s.Wf) (hmove : ClientMove P config s l s')
    (hplace : s.place (.dispatcher r) = some .finished) : s'.failureOf r = s.failureOf r := by
  have houtcome := (hwf.over_step hmove hplace rfl).2
  have herror := congrArg Prod.fst houtcome
  have hfailure := congrArg Prod.snd houtcome
  dsimp only [CallbackRun.outcome] at herror hfailure
  rw [Client.failureOf, Client.failureOf, herror, hfailure]

end Members

/-! ## A failed start over runs -/

section Clean

variable {P : Platform} {config : Config} {p q : Client × StartHistory}
  {ok : Client × StartHistory → ClientLabel → Prop} {ls : List ClientLabel} {r i : Nat}

/-- What is known of the state and the history. -/
structure StartHistory.Sound (s : Client) (h : StartHistory) : Prop where
  wf : s.Wf
  runsWf : s.RunsWf
  backedOut : s.BackedOut
  iterators : s.IteratorsWf
  runs : h.Runs s
  decided : h.Decided s

theorem StartHistory.sound_of_reach (hp : (startLts P config).Reach ok p) : p.2.Sound p.1 :=
  have hs := hp.unrecorded
  ⟨wf_of_reach hs, runsWf_of_reach hs, backedOut_of_reach hs, iteratorsWf_of_reach hs,
    runs_of_reach hp, decided_of_reach hp⟩

theorem StartHistory.Sound.move {s : Client} {h : StartHistory} {l : ClientLabel}
    (hp : h.Sound s) (hstep : (startLts P config).step (s, h) l = some q) :
    ClientMove P config s l q.1 ∧ q.2 = h.record s l q.1 :=
  have hboth := Lts.recorded_step hstep
  ⟨hp.wf.move hboth.1, hboth.2⟩

theorem StartHistory.counts_of_reach (hp : (startLts P config).Reach ok p) : p.2.Counts p.1 :=
  Lts.Reach.recorded_invariant (I := fun s h => StartHistory.Counts s h)
    (by rintro s ⟨native, callback, -, rfl⟩ c t callback' ht; cases ht)
    (fun _ _ _ _ _ hs hstep hc => hc.step ((wf_of_reach hs).move hstep)) hp

/-- As long as no start succeeds, a stopped client stays as it is. -/
theorem StartHistory.members_stay (hp : (startLts P config).Reachable p)
    (hnone : p.1.attempt = none) (hstopped : p.1.running = false)
    (hpath : (startLts P config).Path (fun p l => p.1.commits l = false) p ls q)
    (hnone' : q.1.attempt = none) :
    q.1.running = false ∧ q.1.runToken = p.1.runToken ∧ q.1.callbackRun = p.1.callbackRun := by
  have hkept : q.1.settled = p.1.settled ∧ q.1.Halted := by
    refine hpath.preserves (K := fun p => p.2.Sound p.1)
      (I := fun q => q.1.settled = p.1.settled ∧ q.1.Halted) (fun _ hq => sound_of_reach hq)
      ?_ hp ⟨rfl, fun _ => hstopped⟩
    rintro s l t hnot hstep hs - ⟨hsettled, hhalted⟩
    have hmove := (hs.move hstep).1
    exact ⟨(hs.runsWf.settled_step hs.wf hmove hnot).trans hsettled,
      hhalted.step hs.runsWf hs.wf hmove hnot⟩
  have hsettled := hkept.1
  rw [Client.settled_of_none hnone', Client.settled_of_none hnone] at hsettled
  exact ⟨hkept.2 hnone', congrArg Prod.snd hsettled, congrArg Prod.fst hsettled⟩

/-- The failure of the run before a start is not touched by it, nor
later. -/
theorem StartHistory.failure_stays (hp : (startLts P config).Reachable p) {a : Attempt}
    (ha : p.1.attempt = some a) (hrun : a.previousRun = some r)
    (hpath : (startLts P config).Path ok p ls q) : q.1.failureOf r = p.1.failureOf r := by
  have hended : p.1.place (.dispatcher r) = some .finished := by
    rcases p.1.attempt_cases with hnone | ⟨o, pc, b, hplace, hpc, hattempt⟩
    · rw [ha] at hnone
      cases hnone
    · cases ha.symm.trans hattempt
      exact ((sound_of_reach hp).runsWf.attempt o pc a hplace hpc).previous r hrun
  have hkept := hpath.preserves (K := fun p => p.2.Sound p.1)
    (I := fun q => q.1.place (.dispatcher r) = some .finished ∧ q.1.failureOf r = p.1.failureOf r)
    (fun _ hq => sound_of_reach hq) ?_ hp ⟨hended, rfl⟩
  · exact hkept.2
  · rintro s l t - hstep hs - ⟨hplace, hsame⟩
    have hmove := (hs.move hstep).1
    exact ⟨hs.wf.finished_stays hmove hplace, (hs.wf.failure_stays hmove hplace).trans hsame⟩

theorem StartHistory.abandoned_stays (hp : (startLts P config).Reachable p)
    (hab : p.1.Abandoned p.2 r) (hpath : (startLts P config).Path ok p ls q) :
    q.1.Abandoned q.2 r := by
  refine hpath.preserves (K := fun p => p.2.Sound p.1) (I := fun q => q.1.Abandoned q.2 r)
    (fun _ hq => sound_of_reach hq) ?_ hp hab
  rintro s l t - hstep hs - hab
  obtain ⟨hmove, hrecord⟩ := hs.move hstep
  rw [hrecord]
  exact hab.step hs.wf hmove

/-- **The dispatcher of a failed start** has three steps at most before
its end, and can take the next whenever the lock is free. -/
theorem StartHistory.dispatcher_ends (hp : (startLts P config).Reachable p)
    (hab : p.1.Abandoned p.2 r) (hthere : (p.1.place (.dispatcher r)).isSome = true)
    (hpath : (startLts P config).Path ok p ls q) :
    ls.countP (ClientLabel.isOf (.dispatcher r)) ≤ 3 ∧
      (q.1.place (.dispatcher r) = some .unstarted ∨ q.1.place (.dispatcher r) = some .finished ∨
        ((q.1.place (.dispatcher r) = some .check → q.1.lock = none) →
          (q.1.step P config (.thread (.dispatcher r) .go)).isSome = true)) := by
  obtain ⟨pc, hplace⟩ := Option.isSome_iff_exists.mp hthere
  have hidle := (sound_of_reach hp).runs.idle r pc hab.failed hplace
  have hbound : pc.left ≤ 3 := by cases pc <;> first | decide | cases hidle
  have hcount := hpath.counts (K := fun p => p.2.Sound p.1)
    (I := fun k q => q.1.Abandoned q.2 r ∧ q.1.Ends r pc.left k)
    (ClientLabel.isOf (.dispatcher r)) (fun _ _ _ => trivial) (fun _ hq => sound_of_reach hq)
    ?_ ?_ hp (n := 0) ⟨hab, pc, hplace, hidle, le_refl _⟩
  · obtain ⟨hab', pc', hplace', hidle', hleft⟩ := hcount
    refine ⟨by omega, ?_⟩
    obtain ⟨t, ht, rfl⟩ := Client.place_some.mp hplace'
    rw [hplace']
    rcases Nat.eq_zero_or_pos t.pc.left with hzero | hpos
    · cases hpc : t.pc
      case unstarted => exact .inl rfl
      case finished => exact .inr (.inl rfl)
      all_goals
        rw [hpc] at hidle' hzero
        first | (cases hidle'; done) | cases hzero
    · have hq := sound_of_reach (hpath.reachable hp)
      refine .inr (.inr fun hfree => ?_)
      exact Client.idle_enabled ht hidle' hpos (hq.decided r hab')
        fun hcheck => hfree (congrArg some hcheck)
  · rintro k s l t - hstep hs hmine ⟨hab, hends⟩
    obtain ⟨hmove, hrecord⟩ := hs.move hstep
    rw [hrecord]
    refine ⟨hab.step hs.wf hmove, ?_⟩
    cases l with
    | thread o choice =>
      obtain rfl : o = .dispatcher r := of_decide_eq_true hmine
      exact hab.ends_own hs.runs hs.runsWf hs.backedOut hmove hends
    | _ => cases hmine
  · rintro k s l t - hstep hs hother ⟨hab, hends⟩
    obtain ⟨hmove, hrecord⟩ := hs.move hstep
    rw [hrecord]
    exact ⟨hab.step hs.wf hmove, hab.ends_other hs.wf hmove hother hends⟩

theorem StartHistory.outdated_stays (hp : (startLts P config).Reachable p)
    (hi : p.1.Outdated i) (hpath : (startLts P config).Path ok p ls q) : q.1.Outdated i :=
  hpath.preserves (K := fun p => p.2.Sound p.1) (I := fun q => q.1.Outdated i)
    (fun _ hq => sound_of_reach hq)
    (fun _ _ _ _ hstep hs _ hi => hi.step hs.runsWf hs.wf (hs.move hstep).1) hp hi

/-- **A failed start is clean.** A `start` that raises has made no native
call, or a native start and one native stop. Until a start succeeds, a
stopped client stays stopped with its token and its run, and what that run
has stored stays for good. The run of a start that fails is abandoned: its
dispatcher neither reads nor calls back, is never current and ends. A
start that succeeds returns, and no iterator made before it is current
again. -/
theorem failed_start_is_clean (hp : (startLts P config).Reachable p) :
    (∀ c t callback, p.1.threads (.call c) = some t → t.op = .start callback →
      t.pc.Acted (p.2.acts (.call c))) ∧
    (p.1.attempt = none → p.1.running = false →
      ∀ ls q, (startLts P config).Path (fun p l => p.1.commits l = false) p ls q →
        q.1.attempt = none →
        q.1.running = false ∧ q.1.runToken = p.1.runToken ∧ q.1.callbackRun = p.1.callbackRun) ∧
    (∀ a r, p.1.attempt = some a → a.previousRun = some r →
      ∀ ls q, (startLts P config).Path (fun _ _ => True) p ls q →
        q.1.failureOf r = p.1.failureOf r) ∧
    (∀ r, p.1.Abandoned p.2 r →
      ∀ ls q, (startLts P config).Path (fun _ _ => True) p ls q →
        q.1.Abandoned q.2 r ∧ q.1.callbackRunIsCurrent r = false ∧
        q.2.acts (.dispatcher r) = [] ∧
        ((p.1.place (.dispatcher r)).isSome = true →
          ls.countP (ClientLabel.isOf (.dispatcher r)) ≤ 3 ∧
          (q.1.place (.dispatcher r) = some .unstarted ∨
            q.1.place (.dispatcher r) = some .finished ∨
            ((q.1.place (.dispatcher r) = some .check → q.1.lock = none) →
              (q.1.step P config (.thread (.dispatcher r) .go)).isSome = true)))) ∧
    ∀ l q, (startLts P config).step p l = some q →
      (∀ a r, p.1.commits l = false → p.1.attempt = some a → a.run = some r →
        (∀ b, q.1.attempt = some b → b.run ≠ some r) → q.1.Abandoned q.2 r) ∧
      (p.1.commits l = true →
        (∃ o, l = .thread o .go ∧ q.1.place o = some (.returned .done)) ∧
        ∀ i, i < p.1.madeIterators →
          ∀ ls q', (startLts P config).Path (fun _ _ => True) q ls q' →
            q'.1.iteratorIsCurrent i = false) := by
  have hsound := StartHistory.sound_of_reach hp
  refine ⟨StartHistory.counts_of_reach hp, ?_, ?_, ?_, ?_⟩
  · intro hnone hstopped ls q hpath hnone'
    exact StartHistory.members_stay hp hnone hstopped hpath hnone'
  · intro a r ha hrun ls q hpath
    exact StartHistory.failure_stays hp ha hrun hpath
  · intro r hab ls q hpath
    have hq := StartHistory.sound_of_reach (hpath.reachable hp)
    have hab' := StartHistory.abandoned_stays hp hab hpath
    exact ⟨hab', hab'.stale hq.runs hq.runsWf hq.backedOut, hq.runs.acts r hab'.failed,
      fun hthere => StartHistory.dispatcher_ends hp hab hthere hpath⟩
  · intro l q hstep
    obtain ⟨hmove, hrecord⟩ := hsound.move hstep
    constructor
    · intro a r hnot ha hrun hends
      rw [hrecord]
      exact hsound.runs.abandons hsound.runsWf hsound.wf hmove ha hrun hnot hends
    · intro hcommits
      obtain ⟨o, -, hl, -, hplace, -⟩ := hsound.runsWf.commit hsound.wf hmove hcommits
      refine ⟨⟨o, hl, hplace⟩, fun i hmade ls q' hpath => ?_⟩
      have hold := hsound.iterators.outdated hsound.runsWf hsound.wf hmove hcommits hmade
      have hq : (startLts P config).Reachable q := hp.step hstep
      have hq' := StartHistory.sound_of_reach (hpath.reachable hq)
      exact (StartHistory.outdated_stays hq hold hpath).stale hq'.runsWf hq'.backedOut

end Clean

theorem startLts_reachable {P : Platform} {config : Config} {s : Client}
    (h : (clientLts P config).init s) : (startLts P config).Reachable (s, {}) :=
  Lts.Reachable.init ⟨h, rfl⟩

/-- `samples`, and then a callback `start` up to `Thread.start`. -/
def samplesThenLaunch : List ClientLabel :=
  [.invoke 1 none (.samples none), .thread (.call 1) .go, .collect 1,
    .invoke 0 none (.start (some 5))] ++ proceed (.call 0) 2

/-- `Thread.start` raises although the thread is alive; another start is
about to succeed. -/
def raisesThenStarts : List ClientLabel :=
  [.thread (.call 0) (.raisesLate 7), .collect 0] ++ callbackStart.dropLast.dropLast

/-- The dispatcher that a failed start has left ends; another start
succeeds, and the old iterator is not current. -/
theorem failed_start_is_clean_late :
    (∃ p, (startLts exactPlatform overrideConfig).Reachable p ∧
      p.1.place (.call 0) = some (.returned (.raised (.other 7))) ∧
      (p.2.acts (.call 0) = [] ∨ p.2.acts (.call 0) = [.start, .stop]) ∧
      p.1.place (.dispatcher 0) = some .finished ∧ p.2.acts (.dispatcher 0) = [] ∧
      p.1.running = false ∧ p.1.runToken = 0 ∧ p.1.callbackRun = none) ∧
    ∃ p, (startLts exactPlatform overrideConfig).Reachable p ∧ p.1.running = true ∧
      p.1.runToken = 1 ∧ p.1.callbackRun = some 1 ∧ p.1.iteratorIsCurrent 0 = false := by
  have hinit : (startLts exactPlatform overrideConfig).Reachable
    (overrideClient overrideConfig, {}) :=
    startLts_reachable ⟨_, none, ⟨1000, 4, _, overrideConfig_valid, rfl, rfl⟩, rfl⟩
  constructor
  · have hrun : ((startLts exactPlatform overrideConfig).execChecked (fun p l => !p.1.commits l)
        (overrideClient overrideConfig, {}) (samplesThenLaunch ++
          [.thread (.call 0) (.raisesLate 7)] ++ proceed (.dispatcher 0) 2)).map
        (fun p => decide (p.1.attempt = none ∧ 0 < p.1.made ∧ 0 ∉ p.2.succeeded ∧
          p.1.place (.call 0) = some (.returned (.raised (.other 7))) ∧
          (p.1.threads (.call 0)).map Thread.op = some (.start (some 5)) ∧
          p.1.place (.dispatcher 0) = some .finished)) = some true := by
      decide +kernel
    obtain ⟨p, hexec, hfacts⟩ := Option.map_eq_some_iff.mp hrun
    obtain ⟨hnone, hmade, hfailed, hplace, hop, hfinished⟩ := of_decide_eq_true hfacts
    have hpath := Lts.path_of_execChecked _ (fun p l => p.1.commits_of_check l) hexec
    have hp := hpath.reachable hinit
    obtain ⟨t, ht, hpc⟩ := Client.place_some.mp hplace
    obtain ⟨t', ht', hstart⟩ := Option.map_eq_some_iff.mp hop
    cases ht.symm.trans ht'
    have hmembers := (failed_start_is_clean hinit).2.1 rfl rfl _ p hpath hnone
    have hacted := (failed_start_is_clean hp).1 0 t (some 5) ht hstart
    rw [hpc] at hacted
    have hclean := (failed_start_is_clean hp).2.2.2.1 0
      ⟨hmade, hfailed, fun a ha => by rw [hnone] at ha; cases ha⟩ [] p (.nil p)
    exact ⟨p, hp, hplace, hacted, hfinished, hclean.2.2.1, hmembers⟩
  · obtain ⟨p, q, q', hp, hstep, hpath, hfacts⟩ := Lts.exists_of_stages hinit
      (fun _ _ => true) (fun _ _ _ => trivial)
      (samplesThenLaunch ++ raisesThenStarts) (.thread (.call 0) .go) []
      (fun p q => decide (p.1.commits (.thread (.call 0) .go) = true ∧ 0 < p.1.madeIterators ∧
        q.1.running = true ∧ q.1.runToken = 1 ∧ q.1.callbackRun = some 1))
      (by decide +kernel)
    obtain ⟨hcommits, hmade, hrunning, htoken, hrun⟩ := of_decide_eq_true hfacts
    have hold := ((failed_start_is_clean hp).2.2.2.2 _ q hstep).2 hcommits
    exact ⟨q', hpath.reachable (hp.step hstep), hrunning, htoken, hrun, hold.2 0 hmade [] q' hpath⟩

end PyNetFT.Python
