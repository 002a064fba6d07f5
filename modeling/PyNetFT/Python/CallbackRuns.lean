/-
PyNetFT.Python.CallbackRuns — run records, their dispatchers and `start`.

`RunMove` says what a step can do to a run record. A thread handle is
cleared only behind a join, so a dispatcher that is in its loop still has
its handle, is that of the current run, and no `start` is under way
(`RunsWf.engaged`). `settledRun` and `settledToken` are the run and the
token of the last start that succeeded: a start in progress has put its
own in place or will put the old ones back (`settled_step`).
-/
import PyNetFT.Python.ClientTheorems

namespace PyNetFT.Python

open PyNetFT.Lib PyNetFT.Core PyNetFT.Bindings

/-! ## Places of `start` and of joins -/

/-- The start a thread is in, up to its rollback. -/
def Pc.attempt : Pc → Option Attempt
  | .startBuild a | .startThread a | .startNative a | .startAwait a | .startInstall a
  | .startActivate a | .startRollback a _ => some a
  | _ => none

/-- The places of a start that has not touched the control members. -/
def Pc.pending : Pc → Bool
  | .startBuild _ | .startThread _ | .startNative _ | .startAwait _ | .startInstall _ => true
  | _ => false

/-- The places of a start under the lock. -/
def Pc.starting : Pc → Bool
  | .startUnwind _ _ | .startUnwindAwait _ _ => true
  | pc => pc.attempt.isSome

/-- The run whose dispatcher a thread is about to join. -/
def Pc.joins : Pc → Option Nat
  | .startJoin _ r | .startJoining _ r _ | .stopJoin r | .stopJoining r _ => some r
  | _ => none

/-- The run that a `stop` under way has found. -/
def Pc.found : Pc → Option Nat
  | .halt (.stopped run) | .haltAwait (.stopped run) => run
  | pc => pc.joins

/-- The run whose dispatcher a thread has joined. -/
def Pc.joined : Pc → Option Nat
  | .startJoined _ r _ | .stopJoined r _ => some r
  | _ => none

theorem Pc.holds_of_starting {pc : Pc} (h : pc.starting = true) : pc.holds = true := by
  cases pc <;> first | rfl | cases h

theorem Pc.starting_of_attempt {pc : Pc} {a : Attempt} (h : pc.attempt = some a) :
    pc.starting = true := by
  cases pc <;> first | rfl | cases h

theorem Pc.holds_of_attempt {pc : Pc} {a : Attempt} (h : pc.attempt = some a) : pc.holds = true :=
  Pc.holds_of_starting (Pc.starting_of_attempt h)

/-! ## What a step does to a run record -/

inductive RunMove (o : Owner) (s s' : Client) (pc : Pc) (r : Nat) : Prop where
  | same (same : s'.runs r = s.runs r)
  | built {a : Attempt} (place : pc = .startBuild a) (new : r = s.made)
      (record : s'.runs r = { a.record with thread := true } ∧
          s'.place (.dispatcher r) = some .unstarted ∨
        s'.runs r = { a.record with
          activation := a.record.activation.cancel, callback := none, completed := true } ∧
          s'.place (.dispatcher r) = s.place (.dispatcher r))
  | cancelled {a : Attempt} (attempt : pc.attempt = some a) (run : a.run = some r)
      (record : s'.runs r = { s.runs r with
        activation := (s.runs r).activation.cancel, callback := none })
  | activated {a : Attempt} (place : pc = .startActivate a) (run : a.run = some r)
      (record : s'.runs r = { s.runs r with activation := (s.runs r).activation.activate })
  | cleared (joined : pc.joined = some r) (current : s.callbackRun = some r)
      (record : s'.runs r = { s.runs r with thread := false })
  | stored {error : PyError} (owner : o = .dispatcher r) (place : pc = .record error)
      (unset : (s.runs r).callbackError = none ∧ (s.runs r).failure = none)
      (record : s'.runs r = { s.runs r with callbackError := some error })
  | faulted {health : HealthSnapshot} {droppedCount : Nat} (owner : o = .dispatcher r)
      (place : pc = .code none health droppedCount)
      (record : s'.runs r = { s.runs r with
        failure := some ⟨s.native.core.shared.faultLatch, health, droppedCount⟩ })
  | finished (owner : o = .dispatcher r) (place : pc = .finish)
      (record : s'.runs r = { s.runs r with callback := none, completed := true })

section Runs

variable {o : Owner} {caller nested : Option Nat} {choice : Choice} {s s' : Client} {pc pc' : Pc}

theorem Client.setRun_self (s : Client) (r : Nat) (run : CallbackRun) :
    (s.setRun r run).runs r = run := Function.update_self _ _ _

theorem Client.setRun_of_ne (s : Client) {r other : Nat} (run : CallbackRun) (h : other ≠ r) :
    (s.setRun r run).runs other = s.runs other := Function.update_of_ne h _ _

theorem Client.storeError_move {r : Nat} {error : PyError} (owner : o = .dispatcher r) (other : Nat)
    (h : s'.runs = (s.storeError r error).runs) : RunMove o s s' (.record error) other := by
  unfold Client.storeError at h
  split at h
  · rename_i hunset
    by_cases hr : other = r
    · subst hr
      exact .stored owner rfl hunset (by rw [h, Client.setRun_self])
    · exact .same (by rw [h, Client.setRun_of_ne _ _ hr])
  · exact .same (by rw [h])

theorem Client.clearThread_move {r : Nat} {joined : Bool} (other : Nat) (hpc : pc.joined = some r) :
    RunMove o s (s.clearThread r joined) pc other := by
  unfold Client.clearThread
  split
  · rename_i hcurrent
    by_cases hr : other = r
    · subst hr
      exact .cleared hpc hcurrent.1 (Client.setRun_self _ _ _)
    · exact .same (Client.setRun_of_ne _ _ hr)
  · exact .same rfl

theorem Client.cancelRun_move {a : Attempt} {r : Nat} (other : Nat) (hpc : pc.attempt = some a)
    (hrun : a.run = some r) (h : s'.runs = (s.cancelRun r).runs) : RunMove o s s' pc other := by
  by_cases hr : other = r
  · subst hr
    exact .cancelled hpc hrun (by rw [h]; exact Client.setRun_self _ _ _)
  · exact .same (by rw [h]; exact Client.setRun_of_ne _ _ hr)

theorem Client.activateRun_move {a : Attempt} {r : Nat} (other : Nat) (hrun : a.run = some r)
    (h : s'.runs = (s.activateRun r).runs) : RunMove o s s' (.startActivate a) other := by
  by_cases hr : other = r
  · subst hr
    exact .activated rfl hrun (by rw [h]; exact Client.setRun_self _ _ _)
  · exact .same (by rw [h]; exact Client.setRun_of_ne _ _ hr)

theorem ThreadMove.runs (h : ThreadMove o caller nested choice s pc pc' s') (r : Nat) :
    RunMove o s s' pc r := by
  cases h
  case builds a =>
    by_cases hr : r = s.made
    · subst hr
      refine .built rfl rfl (.inl ⟨Client.setRun_self _ _ _, ?_⟩)
      rw [Client.setThread_place, Function.update_self]
      rfl
    · exact .same (Client.setRun_of_ne _ _ hr)
  case buildFailsLate a error =>
    by_cases hr : r = s.made
    · subst hr
      exact .built rfl rfl (.inr ⟨Client.setRun_self _ _ _, rfl⟩)
    · exact .same (Client.setRun_of_ne _ _ hr)
  case launchFails hrun => exact Client.cancelRun_move r rfl hrun rfl
  case launchFailsLate hrun => exact Client.cancelRun_move r rfl hrun rfl
  case activates hrun => exact Client.activateRun_move r hrun rfl
  case activateFailsLate hrun => exact Client.activateRun_move r hrun rfl
  case rollsBack a error =>
    cases hrun : a.run with
    | none => exact .same (by rw [Client.rollback, hrun])
    | some new => exact Client.cancelRun_move r rfl hrun (by rw [Client.rollback, hrun]; rfl)
  case startClears => exact Client.clearThread_move r rfl
  case stopClears => exact Client.clearThread_move r rfl
  case storesFault new droppedCount health howner =>
    by_cases hr : r = new
    · subst hr
      exact .faulted howner rfl (Client.setRun_self _ _ _)
    · exact .same (Client.setRun_of_ne _ _ hr)
  case storesError howner _ _ => exact Client.storeError_move howner r rfl
  case storesLate howner _ _ => exact Client.storeError_move howner r rfl
  case halted hafter =>
    obtain ⟨-, iterators, rfl⟩ := Client.afterStop_behind hafter
    exact .same rfl
  case finishes new howner =>
    by_cases hr : r = new
    · subst hr
      cases s.alive with
      | true => exact .finished howner rfl (Client.setRun_self _ _ _)
      | false => exact .same rfl
    · cases s.alive with
      | true => exact .same (Client.setRun_of_ne _ _ hr)
      | false => exact .same rfl
  all_goals exact .same rfl

end Runs

/-! ## Where starts, joins and loops begin -/

/-- How a start comes to be at a place. -/
inductive AttemptMove (s s' : Client) (pc pc' : Pc) (a : Attempt) : Prop where
  | begun (free : s.lock = none) (stopped : s.running = false) (same : s.SameControl s')
      (joined : ∀ r, s.callbackRun = some r → (s.runs r).thread = false)
      (token : a.previousToken = s.runToken) (previous : a.previousRun = s.callbackRun)
      (run : a.run = none) (pending : pc'.pending = true)
  | built {before : Attempt} (attempt : pc.attempt = some before) (pending : pc.pending = true)
      (after : pc'.pending = true) (same : s.SameControl s')
      (new : a = { before with run := some s.made })
      (record : s'.runs s.made = { before.record with thread := true })
      (place : s'.place (.dispatcher s.made) = some .unstarted)
  | kept (attempt : pc.attempt = some a) (same : s.SameControl s')
      (pending : pc'.pending = true → pc.pending = true) (active : pc' ≠ .startActivate a)
  | installed (place : pc = .startInstall a) (after : pc' = .startActivate a)
      (run : a.run.isSome = true) (state : s' = s.install a)

section Views

variable {o : Owner} {caller nested : Option Nat} {choice : Choice} {s s' : Client} {pc pc' : Pc}

theorem Pc.behind.plain {ending : Ending} (h : pc.behind ending) :
    pc.attempt = none ∧ pc.starting = false ∧ pc.joined = none ∧ pc.engaged = false := by
  rcases h.places with ⟨result, rfl, -⟩ | ⟨r, -, rfl⟩ | ⟨-, rfl⟩ <;> exact ⟨rfl, rfl, rfl, rfl⟩

theorem Quiet.not_starting (h : Quiet o caller nested choice s pc pc') :
    pc.starting = false ∧ pc'.starting = false := by
  have hout := h.outside
  constructor
  · rw [Bool.eq_false_iff]
    intro hstarting
    rw [Pc.holds_of_starting hstarting] at hout
    cases hout.1
  · rw [Bool.eq_false_iff]
    intro hstarting
    rw [Pc.holds_of_starting hstarting] at hout
    cases hout.2.1

theorem ThreadMove.attempt {a : Attempt} (h : ThreadMove o caller nested choice s pc pc' s')
    (hpc' : pc'.attempt = some a) : AttemptMove s s' pc pc' a := by
  cases h
  case quiet hquiet =>
    have hstarting := hquiet.not_starting.2
    rw [Pc.starting_of_attempt hpc'] at hstarting
    cases hstarting
  case begins hfree hstopped hjoined hattempt hplace =>
    rcases hplace with ⟨rfl, -⟩ | ⟨rfl, -⟩ <;> cases hpc' <;>
      exact .begun hfree hstopped ⟨rfl, rfl, rfl, rfl⟩ hjoined (by rw [hattempt]) (by rw [hattempt])
        (by rw [hattempt]) rfl
  case builds before =>
    cases hpc'
    refine .built rfl rfl rfl ⟨rfl, rfl, rfl, rfl⟩ rfl (Client.setRun_self _ _ _) ?_
    rw [Client.setThread_place, Function.update_self]
    rfl
  case launches =>
    cases hpc'
    exact .kept rfl ⟨rfl, rfl, rfl, rfl⟩ (fun _ => rfl) (by simp)
  case nativeStarted =>
    cases hpc'
    exact .kept rfl ⟨rfl, rfl, rfl, rfl⟩ (fun _ => rfl) (by simp)
  case nativeFailed =>
    cases hpc'
    exact .kept rfl ⟨rfl, rfl, rfl, rfl⟩ (fun _ => rfl) (by simp)
  case installs hrun =>
    cases hpc'
    exact .installed rfl rfl (by rw [hrun]; rfl) rfl
  case startFails hplace =>
    cases hpc'
    rcases hplace with rfl | rfl <;>
      exact .kept rfl ⟨rfl, rfl, rfl, rfl⟩ (fun hp => (by cases hp)) (by simp)
  case activateFailsLate =>
    cases hpc'
    exact .kept rfl ⟨rfl, rfl, rfl, rfl⟩ (fun hp => (by cases hp)) (by simp)
  case invokes hplace =>
    rcases hplace with ⟨b, rfl, rfl, -⟩ | ⟨run, error, rfl, rfl, -⟩ | ⟨ending, rfl, rfl, -⟩ |
      ⟨rfl, rfl, -⟩ | ⟨i, rfl, rfl, -⟩ | ⟨rfl, rfl, -⟩ <;> cases hpc'
    exact .kept rfl ⟨rfl, rfl, rfl, rfl⟩ (fun _ => rfl) (by simp)
  case reads hplace => rcases hplace with ⟨i, rfl, rfl⟩ | ⟨rfl, rfl⟩ <;> cases hpc'
  case halted hafter =>
    rw [(Client.afterStop_behind hafter).1.plain.1] at hpc'
    cases hpc'
  all_goals cases hpc'

theorem ThreadMove.starting (h : ThreadMove o caller nested choice s pc pc' s')
    (hpc' : pc'.starting = true) : pc.starting = true ∨
      s.lock = none ∧ ∀ r, s.callbackRun = some r → (s.runs r).thread = false := by
  cases h
  case quiet hquiet =>
    rw [hquiet.not_starting.2] at hpc'
    cases hpc'
  case begins hfree _ hjoined _ _ => exact .inr ⟨hfree, hjoined⟩
  case startFails hplace => rcases hplace with rfl | rfl <;> exact .inl rfl
  case invokes hplace =>
    rcases hplace with ⟨b, rfl, rfl, -⟩ | ⟨run, error, rfl, rfl, -⟩ | ⟨ending, rfl, rfl, -⟩ |
      ⟨rfl, rfl, -⟩ | ⟨i, rfl, rfl, -⟩ | ⟨rfl, rfl, -⟩ <;> first | exact .inl rfl | cases hpc'
  case reads hplace => rcases hplace with ⟨i, rfl, rfl⟩ | ⟨rfl, rfl⟩ <;> cases hpc'
  case halted hafter =>
    rw [(Client.afterStop_behind hafter).1.plain.2.1] at hpc'
    cases hpc'
  all_goals first | exact .inl rfl | cases hpc'

/-- `_callback_run` and `_run_token` are written by a start and by its
handler. -/
theorem ThreadMove.callbackRun (h : ThreadMove o caller nested choice s pc pc' s') :
    (s'.callbackRun = s.callbackRun ∧ s'.runToken = s.runToken) ∨
      (∃ a, pc = .startInstall a ∧ s'.callbackRun = a.run ∧ s'.runToken = a.previousToken + 1) ∨
      ∃ a error, pc = .startRollback a error ∧ pc' = .startUnwind a.run error ∧
        s'.callbackRun = a.previousRun ∧ s'.runToken = a.previousToken := by
  cases h
  case installs => exact .inr (.inl ⟨_, rfl, rfl, rfl⟩)
  case iterates => exact .inr (.inl ⟨_, rfl, rfl, rfl⟩)
  case rollsBack a error =>
    obtain ⟨runs, hruns⟩ := s.rollback_frame a
    exact .inr (.inr ⟨a, error, rfl, rfl, by rw [hruns], by rw [hruns]⟩)
  case startClears callback r joined _ =>
    obtain ⟨runs, hruns⟩ := s.clearThread_frame r joined
    exact .inl ⟨by rw [hruns], by rw [hruns]⟩
  case stopClears r joined _ =>
    obtain ⟨runs, hruns⟩ := s.clearThread_frame r joined
    exact .inl ⟨by rw [hruns], by rw [hruns]⟩
  case storesError r error _ _ _ =>
    obtain ⟨runs, hruns⟩ := s.storeError_frame r error
    exact .inl ⟨by rw [hruns], by rw [hruns]⟩
  case storesLate r error _ _ _ =>
    obtain ⟨runs, hruns⟩ := s.storeError_frame r error
    exact .inl ⟨by rw [hruns], by rw [hruns]⟩
  case halted hafter =>
    obtain ⟨-, iterators, rfl⟩ := Client.afterStop_behind hafter
    exact .inl ⟨rfl, rfl⟩
  case finishes => exact .inl (by split <;> exact ⟨rfl, rfl⟩)
  all_goals exact .inl ⟨rfl, rfl⟩

/-- How a start ends: it has succeeded, it gave up before the native
start, or its handler has put the old run back. -/
theorem ThreadMove.attempt_ends {a : Attempt} (h : ThreadMove o caller nested choice s pc pc' s')
    (hpc : pc.attempt = some a) (hpc' : pc'.attempt = none) :
    (choice = .go ∧ (pc = .startInstall a ∧ a.run = none ∨ pc = .startActivate a)) ∨
      (pc.pending = true ∧ s.SameControl s') ∨
      s'.callbackRun = a.previousRun ∧ s'.runToken = a.previousToken ∧ s'.running = false := by
  cases h
  case quiet hquiet =>
    have hstarting := hquiet.not_starting.1
    rw [Pc.starting_of_attempt hpc] at hstarting
    cases hstarting
  case buildFails => exact .inr (.inl ⟨rfl, rfl, rfl, rfl, rfl⟩)
  case buildFailsLate => exact .inr (.inl ⟨rfl, rfl, rfl, rfl, rfl⟩)
  case launchFails => exact .inr (.inl ⟨rfl, rfl, rfl, rfl, rfl⟩)
  case launchFailsLate => exact .inr (.inl ⟨rfl, rfl, rfl, rfl, rfl⟩)
  case iterates hgoes hrun =>
    cases hpc
    exact .inl ⟨hgoes, .inl ⟨rfl, hrun⟩⟩
  case activates hgoes _ =>
    cases hpc
    exact .inl ⟨hgoes, .inr rfl⟩
  case rollsBack =>
    cases hpc
    obtain ⟨runs, hruns⟩ := s.rollback_frame a
    exact .inr (.inr ⟨by rw [hruns], by rw [hruns], by rw [hruns]⟩)
  case startFails hplace => cases hpc'
  case invokes hplace =>
    rcases hplace with ⟨b, rfl, rfl, -⟩ | ⟨run, error, rfl, rfl, -⟩ | ⟨ending, rfl, rfl, -⟩ |
      ⟨rfl, rfl, -⟩ | ⟨i, rfl, rfl, -⟩ | ⟨rfl, rfl, -⟩ <;> first | (cases hpc; done) | cases hpc'
  case reads hplace => rcases hplace with ⟨i, rfl, rfl⟩ | ⟨rfl, rfl⟩ <;> cases hpc
  case exhausts hplace => rcases hplace with rfl | ⟨result, rfl⟩ | rfl <;> cases hpc
  all_goals first | (cases hpc; done) | cases hpc'

theorem Pc.behind.found {ending : Ending} {r : Nat} (h : pc.behind ending)
    (hpc : pc.found = some r) : (Pc.haltAwait ending).found = some r := by
  rcases h.places with ⟨result, rfl, -⟩ | ⟨r', rfl, rfl⟩ | ⟨-, rfl⟩
  · cases hpc
  · exact hpc
  · cases hpc

/-- A run to be joined was the current one. -/
theorem ThreadMove.found {r : Nat} (h : ThreadMove o caller nested choice s pc pc' s')
    (hpc' : pc'.found = some r) : pc.found = some r ∨ s.callbackRun = some r := by
  cases h
  case quiet hquiet =>
    cases hquiet
    case startJoin hcurrent _ _ _ =>
      cases hpc'
      exact .inr hcurrent
    case stopJoin hcurrent _ _ _ =>
      cases hpc'
      exact .inr hcurrent
    all_goals first | exact .inl hpc' | cases hpc'
  case begins hplace => rcases hplace with ⟨rfl, -⟩ | ⟨rfl, -⟩ <;> cases hpc'
  case invokes hplace =>
    rcases hplace with ⟨b, rfl, rfl, -⟩ | ⟨run, error, rfl, rfl, -⟩ | ⟨ending, rfl, rfl, -⟩ |
      ⟨rfl, rfl, -⟩ | ⟨i, rfl, rfl, -⟩ | ⟨rfl, rfl, -⟩
    case inr.inr.inl => cases ending <;> exact .inl hpc'
    all_goals cases hpc'
  case reads hplace => rcases hplace with ⟨i, rfl, rfl⟩ | ⟨rfl, rfl⟩ <;> cases hpc'
  case stops => exact .inr hpc'
  case halted hafter => exact .inl ((Client.afterStop_behind hafter).1.found hpc')
  all_goals cases hpc'

/-- No thread joins its own dispatcher. -/
theorem ThreadMove.joins {r : Nat} (h : ThreadMove o caller nested choice s pc pc' s')
    (hpc' : pc'.joins = some r) : pc.joins = some r ∨ caller ≠ some r := by
  cases h
  case quiet hquiet =>
    cases hquiet
    case startJoin hother =>
      cases hpc'
      exact .inr hother
    case stopJoin hother =>
      cases hpc'
      exact .inr hother
    all_goals first | exact .inl hpc' | cases hpc'
  case begins hplace => rcases hplace with ⟨rfl, -⟩ | ⟨rfl, -⟩ <;> cases hpc'
  case invokes hplace =>
    rcases hplace with ⟨b, rfl, rfl, -⟩ | ⟨run, error, rfl, rfl, -⟩ | ⟨ending, rfl, rfl, -⟩ |
      ⟨rfl, rfl, -⟩ | ⟨i, rfl, rfl, -⟩ | ⟨rfl, rfl, -⟩ <;> cases hpc'
  case reads hplace => rcases hplace with ⟨i, rfl, rfl⟩ | ⟨rfl, rfl⟩ <;> cases hpc'
  case halted ending native _ _ _ _ hafter =>
    rcases Client.afterStop_cases _ caller ending with ⟨rfl, heq⟩ | ⟨i, fault, rfl, heq⟩ |
        ⟨r', rfl, -, hother, heq⟩ | ⟨run, rfl, -, heq⟩ <;>
      obtain ⟨rfl, rfl⟩ := Prod.mk.inj (heq.symm.trans hafter) <;> cases hpc'
    exact .inr hother
  all_goals cases hpc'

theorem ThreadMove.joined {r : Nat} (h : ThreadMove o caller nested choice s pc pc' s')
    (hpc' : pc'.joined = some r) : pc.joins = some r ∧ s.joins caller r = true := by
  cases h
  case quiet hquiet =>
    cases hquiet
    case startJoined hjoins =>
      cases hpc'
      exact ⟨rfl, hjoins⟩
    case stopJoined hjoins =>
      cases hpc'
      exact ⟨rfl, hjoins⟩
    all_goals cases hpc'
  case begins hplace => rcases hplace with ⟨rfl, -⟩ | ⟨rfl, -⟩ <;> cases hpc'
  case invokes hplace =>
    rcases hplace with ⟨b, rfl, rfl, -⟩ | ⟨run, error, rfl, rfl, -⟩ | ⟨ending, rfl, rfl, -⟩ |
      ⟨rfl, rfl, -⟩ | ⟨i, rfl, rfl, -⟩ | ⟨rfl, rfl, -⟩ <;> cases hpc'
  case reads hplace => rcases hplace with ⟨i, rfl, rfl⟩ | ⟨rfl, rfl⟩ <;> cases hpc'
  case halted hafter =>
    rw [(Client.afterStop_behind hafter).1.plain.2.2.1] at hpc'
    cases hpc'
  all_goals cases hpc'

/-- A dispatcher enters its loop at the first check. -/
theorem ThreadMove.engaged (h : ThreadMove o caller nested choice s pc pc' s')
    (hpc' : pc'.engaged = true) : pc.engaged = true ∨
      ∃ r, o = .dispatcher r ∧ pc = .check ∧ s.lock = none ∧ s.callbackRunIsCurrent r = true := by
  cases h
  case quiet hquiet =>
    cases hquiet
    case engages howner hfree hcurrent => exact .inr ⟨_, howner, rfl, hfree, hcurrent⟩
    all_goals first | exact .inl rfl | cases hpc'
  case begins hplace => rcases hplace with ⟨rfl, -⟩ | ⟨rfl, -⟩ <;> cases hpc'
  case invokes hplace =>
    rcases hplace with ⟨b, rfl, rfl, -⟩ | ⟨run, error, rfl, rfl, -⟩ | ⟨ending, rfl, rfl, -⟩ |
      ⟨rfl, rfl, -⟩ | ⟨i, rfl, rfl, -⟩ | ⟨rfl, rfl, -⟩
    case inr.inr.inl => cases ending <;> first | exact .inl rfl | cases hpc'
    all_goals first | exact .inl rfl | cases hpc'
  case reads hplace =>
    rcases hplace with ⟨i, rfl, rfl⟩ | ⟨rfl, rfl⟩ <;> first | exact .inl rfl | cases hpc'
  case faults iterator _ => cases iterator <;> first | exact .inl rfl | cases hpc'
  case asksHealth iterator _ _ => cases iterator <;> first | exact .inl rfl | cases hpc'
  case getsHealth iterator _ _ _ _ _ _ => cases iterator <;> first | exact .inl rfl | cases hpc'
  case getsDropped iterator _ => cases iterator <;> first | exact .inl rfl | cases hpc'
  case halted hafter =>
    rw [(Client.afterStop_behind hafter).1.plain.2.2.2] at hpc'
    cases hpc'
  all_goals first | exact .inl rfl | cases hpc'

end Views

section Steps

variable {P : Platform} {config : Config} {s s' : Client} {l : ClientLabel} {o : Owner} {pc : Pc}
  {r : Nat}

/-- What a step of the client does to a run record. -/
theorem Client.Wf.run_step (hwf : s.Wf) (h : ClientMove P config s l s') (r : Nat) :
    s'.runs r = s.runs r ∨ ∃ o choice t, l = .thread o choice ∧ s.threads o = some t ∧
      RunMove o s s' t.pc r := by
  cases h with
  | @thread o choice t pc' u ht hmove =>
    refine .inr ⟨o, choice, t, rfl, ht, ?_⟩
    cases hmove.runs r with
    | same hsame => exact .same hsame
    | built hplace hnew hrecord =>
      have hcall : Owner.dispatcher r ≠ o := by
        rintro rfl
        have hfits := (hwf.fits _ _ (Client.place_of_thread ht)).mpr ⟨r, rfl⟩
        rw [hplace] at hfits
        cases hfits
      have hsame : (u.setThread o (some { t with pc := pc' })).place (.dispatcher r)
          = u.place (.dispatcher r) := by
        rw [Client.setThread_place, Function.update_of_ne hcall]
      refine .built hplace hnew ?_
      rw [hsame]
      exact hrecord
    | cancelled hattempt hrun hrecord => exact .cancelled hattempt hrun hrecord
    | activated hplace hrun hrecord => exact .activated hplace hrun hrecord
    | cleared hjoined hcurrent hrecord => exact .cleared hjoined hcurrent hrecord
    | stored howner hplace hunset hrecord => exact .stored howner hplace hunset hrecord
    | faulted howner hplace hrecord => exact .faulted howner hplace hrecord
    | finished howner hplace hrecord => exact .finished howner hplace hrecord
  | _ => exact .inl rfl

/-- A dispatcher that has ended stays so. -/
theorem Client.Wf.finished_stays (hwf : s.Wf) (h : ClientMove P config s l s')
    (hplace : s.place (.dispatcher r) = some .finished) :
    s'.place (.dispatcher r) = some .finished := by
  refine hwf.stays h hplace ?_ (by simp) (fun hpc => (by cases hpc))
  rintro choice rfl
  cases h with
  | thread ht hmove =>
    rw [Client.place_of_thread ht] at hplace
    have hresting := hmove.not_resting
    rw [Option.some.inj hplace] at hresting
    cases hresting

/-- Dispatchers are not taken off. -/
theorem ClientMove.dispatcher_stays (h : ClientMove P config s l s')
    (hplace : (s.place (.dispatcher r)).isSome = true) :
    (s'.place (.dispatcher r)).isSome = true := by
  obtain ⟨pc, hpc⟩ := Option.isSome_iff_exists.mp hplace
  cases h with
  | native => exact hplace
  | drop => exact hplace
  | @invoke c op _ _ =>
    rw [Client.entered_place, Function.update_of_ne (by simp)]
    exact hplace
  | nest _ _ hr _ =>
    rw [Client.nest_place hr, Function.update_of_ne (by simp)]
    exact hplace
  | collect =>
    rw [Client.left_place, Function.update_of_ne (by simp)]
    exact hplace
  | unnest _ _ _ hd =>
    rw [Client.unnest_place hd, Function.update_of_ne (by simp)]
    exact hplace
  | @thread o choice t pc' u ht hmove =>
    rw [Client.setThread_place]
    by_cases ho : Owner.dispatcher r = o
    · subst ho
      rw [Function.update_self]
      rfl
    · rw [Function.update_of_ne ho]
      cases hmove.threads with
      | same hthreads _ => exact (Client.place_congr hthreads) ▸ hplace
      | built _ _ hthreads _ =>
        rw [Client.place, hthreads]
        by_cases hnew : Owner.dispatcher r = .dispatcher s.made
        · rw [hnew, Function.update_self]
          rfl
        · rw [Function.update_of_ne hnew]
          exact hplace
      | @launched a r' _ _ _ hthreads =>
        rw [Client.place, hthreads]
        by_cases hnew : Owner.dispatcher r = .dispatcher r'
        · rw [hnew, Function.update_self]
          rfl
        · rw [Function.update_of_ne hnew]
          exact hplace

/-- Where a thread and its caller come from. -/
theorem ClientMove.came {t' : Thread} (h : ClientMove P config s l s')
    (ht' : s'.threads o = some t') :
    (∃ t, s.threads o = some t ∧ t'.caller = t.caller ∧ t'.op = t.op ∧
      (t'.pc = t.pc ∨ ∃ choice u, ThreadMove o t.caller t.nested choice s t.pc t'.pc u ∧
        s' = u.setThread o (some { t with pc := t'.pc }))) ∨
    t'.pc = t'.op.entry ∨ t'.op = .dispatch ∧ t'.pc = .awaitActivation := by
  have hset : ∀ (u : Client) (o' : Owner) (t : Thread),
      (u.setThread o' (some t)).threads o = some t' → o = o' ∧ t' = t ∨ u.threads o = some t' := by
    intro u o' t h
    have h' : Function.update u.threads o' (some t) o = some t' := h
    by_cases ho : o = o'
    · rw [ho, Function.update_self] at h'
      exact .inl ⟨ho, (Option.some.inj h').symm⟩
    · rw [Function.update_of_ne ho] at h'
      exact .inr h'
  have hleft : ∀ c, (s.left c).threads o = some t' → s.threads o = some t' := by
    intro c h
    have h' : Function.update s.threads (.call c) none o = some t' := h
    by_cases ho : o = .call c
    · rw [ho, Function.update_self] at h'
      cases h'
    · rw [Function.update_of_ne ho] at h'
      exact h'
  have hkept : s.threads o = some t' → (∃ t, s.threads o = some t ∧ t'.caller = t.caller ∧
      t'.op = t.op ∧ (t'.pc = t.pc ∨ ∃ choice u,
        ThreadMove o t.caller t.nested choice s t.pc t'.pc u ∧
        s' = u.setThread o (some { t with pc := t'.pc }))) :=
    fun h => ⟨t', h, rfl, rfl, .inl rfl⟩
  cases h with
  | native => exact .inl (hkept ht')
  | drop => exact .inl (hkept ht')
  | invoke =>
    rcases hset _ _ _ ht' with ⟨-, rfl⟩ | ht'
    · exact .inr (.inl rfl)
    · exact .inl (hkept ht')
  | nest _ _ hr _ =>
    rcases hset _ _ _ ht' with ⟨rfl, rfl⟩ | ht'
    · exact .inl ⟨_, hr, rfl, rfl, .inl rfl⟩
    · rcases hset _ _ _ ht' with ⟨-, rfl⟩ | ht'
      · exact .inr (.inl rfl)
      · exact .inl (hkept ht')
  | collect => exact .inl (hkept (hleft _ ht'))
  | unnest _ _ _ hd =>
    rcases hset _ _ _ ht' with ⟨rfl, rfl⟩ | ht'
    · exact .inl ⟨_, hd, rfl, rfl, .inl rfl⟩
    · exact .inl (hkept (hleft _ ht'))
  | @thread o' choice t pc' u ht hmove =>
    rcases hset _ _ _ ht' with ⟨rfl, rfl⟩ | ht'
    · exact .inl ⟨t, ht, rfl, rfl, .inr ⟨choice, u, hmove, rfl⟩⟩
    · cases hmove.threads with
      | same hthreads _ => exact .inl (hkept (hthreads ▸ ht'))
      | built _ _ hthreads _ =>
        rw [hthreads] at ht'
        by_cases ho : o = .dispatcher s.made
        · rw [ho, Function.update_self] at ht'
          obtain rfl := Option.some.inj ht'
          exact .inr (.inl rfl)
        · rw [Function.update_of_ne ho] at ht'
          exact .inl (hkept ht')
      | @launched a r' _ _ _ hthreads =>
        rw [hthreads] at ht'
        by_cases ho : o = .dispatcher r'
        · rw [ho, Function.update_self] at ht'
          obtain rfl := Option.some.inj ht'
          exact .inr (.inr ⟨rfl, rfl⟩)
        · rw [Function.update_of_ne ho] at ht'
          exact .inl (hkept ht')

end Steps

/-! ## The invariant -/

/-- A start under way: the dispatcher of the previous run has ended, the
control members are the old ones, or the new ones just installed. -/
structure Attempt.Ok (s : Client) (pc : Pc) (a : Attempt) : Prop where
  previous : ∀ r, a.previousRun = some r → s.place (.dispatcher r) = some .finished
  before : pc.pending = true →
    s.callbackRun = a.previousRun ∧ s.runToken = a.previousToken ∧ s.running = false
  after : pc = .startActivate a → s.callbackRun = a.run ∧ s.runToken = a.previousToken + 1 ∧
    s.running = true ∧ s.mode = some .callback
  record : ∀ r, a.run = some r →
    (s.place (.dispatcher r)).isSome = true ∧ (s.runs r).token = a.previousToken + 1

/-- What holds around the loop of a dispatcher. -/
def Client.Engaged (s : Client) (r : Nat) : Prop :=
  s.callbackRun = some r ∧ (s.runs r).thread = true ∧
    ∀ o pc, s.place o = some pc → pc.starting = false

structure Client.RunsWf (s : Client) : Prop where
  attempt : ∀ o pc a, s.place o = some pc → pc.attempt = some a → a.Ok s pc
  current : ∀ r, s.callbackRun = some r → (s.place (.dispatcher r)).isSome = true
  found : ∀ o pc r, s.place o = some pc → pc.found = some r →
    (s.place (.dispatcher r)).isSome = true
  joining : ∀ o t r, s.threads o = some t → t.pc.joins = some r → t.caller ≠ some r
  joined : ∀ o pc r, s.place o = some pc → pc.joined = some r →
    s.place (.dispatcher r) = some .finished
  ended : ∀ r, (s.runs r).thread = false →
    s.place (.dispatcher r) = none ∨ s.place (.dispatcher r) = some .finished
  engaged : ∀ r pc, s.place (.dispatcher r) = some pc → pc.engaged = true → s.Engaged r

section Invariant

variable {P : Platform} {config : Config} {s s' : Client} {l : ClientLabel} {o : Owner} {pc : Pc}
  {r : Nat}

theorem Pc.found_of_joins (h : pc.joins = some r) : pc.found = some r := by
  cases pc <;> first | exact h | cases h

/-- A run that has been built keeps its token. -/
theorem Client.Wf.token_kept (hwf : s.Wf) (h : ClientMove P config s l s')
    (hbuilt : (s.place (.dispatcher r)).isSome = true) : (s'.runs r).token = (s.runs r).token := by
  rcases hwf.run_step h r with hsame | ⟨o, choice, t, -, -, hmove⟩
  · rw [hsame]
  · cases hmove with
    | same hsame => rw [hsame]
    | built _ hnew _ =>
      rw [hwf.fresh r (Nat.le_of_eq hnew.symm)] at hbuilt
      cases hbuilt
    | cancelled _ _ hrecord => rw [hrecord]
    | activated _ _ hrecord => rw [hrecord]
    | cleared _ _ hrecord => rw [hrecord]
    | stored _ _ _ hrecord => rw [hrecord]
    | faulted _ _ hrecord => rw [hrecord]
    | finished _ _ hrecord => rw [hrecord]

theorem Client.SameControl.setThread {u : Client} (h : s.SameControl u) (t : Option Thread) :
    s.SameControl (u.setThread o t) :=
  ⟨h.running, h.mode, h.token, h.run⟩

theorem Client.RunsWf.step_attempt (hs : s.RunsWf) (hwf : s.Wf) (h : ClientMove P config s l s')
    {a : Attempt} (hplace : s'.place o = some pc) (hattempt : pc.attempt = some a) :
    a.Ok s' pc := by
  cases h.placed hplace with
  | kept hother hbefore =>
    have hok := hs.attempt o pc a hbefore hattempt
    have hsame := hwf.control_kept h (hwf.owner o pc hbefore (Pc.holds_of_attempt hattempt)) hother
    constructor
    · exact fun r hr => hwf.finished_stays h (hok.previous r hr)
    · intro hpending
      rw [hsame.run, hsame.token, hsame.running]
      exact hok.before hpending
    · intro hpc
      rw [hsame.run, hsame.token, hsame.running, hsame.mode]
      exact hok.after hpc
    · intro r hr
      obtain ⟨hbuilt, htoken⟩ := hok.record r hr
      exact ⟨h.dispatcher_stays hbuilt, (hwf.token_kept h hbuilt).trans htoken⟩
  | @moved t choice u ht hmove hstate =>
    have hbefore := Client.place_of_thread ht
    cases hmove.attempt hattempt with
    | begun _ hstopped hsame hjoined htoken hprevious hrun hpending =>
      have hsame' : s.SameControl s' := hstate ▸ hsame.setThread _
      constructor
      · intro r hr
        rw [hprevious] at hr
        rcases hs.ended r (hjoined r hr) with hnone | hfinished
        · have hcurrent := hs.current r hr
          rw [hnone] at hcurrent
          cases hcurrent
        · exact hwf.finished_stays h hfinished
      · intro _
        rw [hsame'.run, hsame'.token, hsame'.running]
        exact ⟨hprevious.symm, htoken.symm, hstopped⟩
      · rintro rfl
        cases hpending
      · intro r hr
        rw [hrun] at hr
        cases hr
    | @built before hattempt' hpending hafter hsame hnew hrecord hunstarted =>
      have hok := hs.attempt o t.pc before hbefore hattempt'
      have hsame' : s.SameControl s' := hstate ▸ hsame.setThread _
      have hother : Owner.dispatcher s.made ≠ o := by
        rintro rfl
        rw [hwf.fresh _ (Nat.le_refl _)] at hbefore
        cases hbefore
      constructor
      · intro r hr
        rw [hnew] at hr
        exact hwf.finished_stays h (hok.previous r hr)
      · intro _
        rw [hsame'.run, hsame'.token, hsame'.running, hnew]
        exact hok.before hpending
      · rintro rfl
        cases hafter
      · intro r hr
        rw [hnew] at hr
        cases hr
        refine ⟨?_, ?_⟩
        · rw [hstate, Client.setThread_place, Function.update_of_ne hother, hunstarted]
          rfl
        · rw [hstate, hnew]
          exact congrArg CallbackRun.token hrecord
    | kept hattempt' hsame hpending hactive =>
      have hok := hs.attempt o t.pc a hbefore hattempt'
      have hsame' : s.SameControl s' := hstate ▸ hsame.setThread _
      constructor
      · exact fun r hr => hwf.finished_stays h (hok.previous r hr)
      · intro hpc
        rw [hsame'.run, hsame'.token, hsame'.running]
        exact hok.before (hpending hpc)
      · exact fun hpc => absurd hpc hactive
      · intro r hr
        obtain ⟨hbuilt, htoken⟩ := hok.record r hr
        exact ⟨h.dispatcher_stays hbuilt, (hwf.token_kept h hbuilt).trans htoken⟩
    | installed hpc hafter hrun hinstall =>
      have hok := hs.attempt o t.pc a hbefore (by rw [hpc]; rfl)
      obtain ⟨r, hr⟩ := Option.isSome_iff_exists.mp hrun
      constructor
      · exact fun r hr => hwf.finished_stays h (hok.previous r hr)
      · intro hpending
        rw [hafter] at hpending
        cases hpending
      · intro _
        rw [hstate, hinstall]
        refine ⟨rfl, rfl, rfl, ?_⟩
        show some (if a.run.isSome = true then Mode.callback else .iterator) = _
        rw [if_pos hrun]
      · intro r hr
        obtain ⟨hbuilt, htoken⟩ := hok.record r hr
        exact ⟨h.dispatcher_stays hbuilt, (hwf.token_kept h hbuilt).trans htoken⟩
  | entered _ hentry hoffered =>
    have hholds := (Client.offers_entry hoffered).1
    rw [← hentry, Pc.holds_of_attempt hattempt] at hholds
    cases hholds
  | built _ hentry _ _ =>
    rw [hentry] at hattempt
    cases hattempt
  | launched _ hentry _ _ =>
    rw [hentry] at hattempt
    cases hattempt

theorem Client.RunsWf.step_current (hs : s.RunsWf) (h : ClientMove P config s l s')
    (hcurrent : s'.callbackRun = some r) : (s'.place (.dispatcher r)).isSome = true := by
  refine h.dispatcher_stays ?_
  cases h with
  | @thread o choice t pc' u ht hmove =>
    have hcurrent' : u.callbackRun = some r := hcurrent
    have hbefore := Client.place_of_thread ht
    rcases hmove.callbackRun with hsame | ⟨a, hpc, hrun, -⟩ | ⟨a, error, hpc, -, hrun, -⟩
    · exact hs.current r (hsame.1.symm.trans hcurrent')
    · have hok := hs.attempt o t.pc a hbefore (by rw [hpc]; rfl)
      exact (hok.record r (hrun.symm.trans hcurrent')).1
    · have hok := hs.attempt o t.pc a hbefore (by rw [hpc]; rfl)
      rw [hok.previous r (hrun.symm.trans hcurrent')]
      rfl
  | _ => exact hs.current r hcurrent

/-- A new call has found nothing, joins nothing and is no start. -/
theorem ClientOp.entry_plain (op : ClientOp) : op.entry.found = none ∧ op.entry.joined = none ∧
    op.entry.engaged = false ∧ op.entry.starting = false := by
  cases op <;> exact ⟨rfl, rfl, rfl, rfl⟩

theorem Client.RunsWf.step_found (hs : s.RunsWf) (h : ClientMove P config s l s')
    (hplace : s'.place o = some pc) (hfound : pc.found = some r) :
    (s'.place (.dispatcher r)).isSome = true := by
  refine h.dispatcher_stays ?_
  cases h.placed hplace with
  | kept _ hbefore => exact hs.found o pc r hbefore hfound
  | moved ht hmove _ =>
    rcases hmove.found hfound with hbefore | hcurrent
    · exact hs.found o _ r (Client.place_of_thread ht) hbefore
    · exact hs.current r hcurrent
  | @entered _ op _ hentry _ =>
    rw [hentry, op.entry_plain.1] at hfound
    cases hfound
  | built _ hentry _ _ =>
    rw [hentry] at hfound
    cases hfound
  | launched _ hentry _ _ =>
    rw [hentry] at hfound
    cases hfound

theorem Client.RunsWf.step_joined (hs : s.RunsWf) (hwf : s.Wf) (h : ClientMove P config s l s')
    (hplace : s'.place o = some pc) (hjoined : pc.joined = some r) :
    s'.place (.dispatcher r) = some .finished := by
  refine hwf.finished_stays h ?_
  cases h.placed hplace with
  | kept _ hbefore => exact hs.joined o pc r hbefore hjoined
  | @moved t choice u ht hmove _ =>
    obtain ⟨hjoins, hreturned⟩ := hmove.joined hjoined
    have hbuilt := hs.found o t.pc r (Client.place_of_thread ht) (Pc.found_of_joins hjoins)
    simp only [Client.joins, Bool.or_eq_true, decide_eq_true_eq, Bool.not_eq_true'] at hreturned
    rcases hreturned with (hthread | hself) | hfinished
    · rcases hs.ended r hthread with hnone | hdone
      · rw [hnone] at hbuilt
        cases hbuilt
      · exact hdone
    · exact absurd hself (hs.joining o t r ht hjoins)
    · unfold Client.finished at hfinished
      split at hfinished
      · rename_i d hd
        rw [Client.place_of_thread hd]
        exact congrArg some (of_decide_eq_true hfinished)
      · cases hfinished
  | @entered _ op _ hentry _ =>
    rw [hentry, op.entry_plain.2.1] at hjoined
    cases hjoined
  | built _ hentry _ _ =>
    rw [hentry] at hjoined
    cases hjoined
  | launched _ hentry _ _ =>
    rw [hentry] at hjoined
    cases hjoined

/-- A dispatcher that has not ended has its handle, and a step does not
take it. -/
theorem Client.RunsWf.handle (hs : s.RunsWf) (hwf : s.Wf) (h : ClientMove P config s l s')
    (hplace : s.place (.dispatcher r) = some pc) (hpc : pc ≠ .finished) :
    (s.runs r).thread = true ∧ (s'.runs r).thread = true := by
  have hbefore : (s.runs r).thread = true := by
    rw [← Bool.not_eq_false]
    intro hthread
    rcases hs.ended r hthread with hnone | hfinished
    · rw [hplace] at hnone
      cases hnone
    · rw [hplace] at hfinished
      exact hpc (Option.some.inj hfinished)
  refine ⟨hbefore, ?_⟩
  rcases hwf.run_step h r with hsame | ⟨o, choice, t, -, ht, hmove⟩
  · rw [hsame]
    exact hbefore
  · cases hmove with
    | same hsame =>
      rw [hsame]
      exact hbefore
    | built _ hnew _ =>
      rw [hwf.fresh r (Nat.le_of_eq hnew.symm)] at hplace
      cases hplace
    | cleared hjoined _ _ =>
      rw [hs.joined o t.pc r (Client.place_of_thread ht) hjoined] at hplace
      exact absurd (Option.some.inj hplace).symm hpc
    | cancelled _ _ hrecord => exact hrecord ▸ hbefore
    | activated _ _ hrecord => exact hrecord ▸ hbefore
    | stored _ _ _ hrecord => exact hrecord ▸ hbefore
    | faulted _ _ hrecord => exact hrecord ▸ hbefore
    | finished _ _ hrecord => exact hrecord ▸ hbefore

theorem Client.RunsWf.step_ended (hs : s.RunsWf) (hwf : s.Wf) (h : ClientMove P config s l s')
    (hthread : (s'.runs r).thread = false) :
    s'.place (.dispatcher r) = none ∨ s'.place (.dispatcher r) = some .finished := by
  have hcleared : ∀ pc, s.place (.dispatcher r) = some pc → pc = .finished := by
    intro pc hplace
    by_contra hpc
    rw [(hs.handle hwf h hplace hpc).2] at hthread
    cases hthread
  cases hplace : s'.place (.dispatcher r) with
  | none => exact .inl rfl
  | some pc =>
    cases h.placed hplace with
    | kept _ hbefore => exact .inr (congrArg some (hcleared pc hbefore))
    | moved ht hmove _ =>
      have hresting := hmove.not_resting
      rw [hcleared _ (Client.place_of_thread ht)] at hresting
      cases hresting
    | entered howner _ _ => cases howner
    | built howner _ _ hhandle =>
      cases howner
      rw [hhandle] at hthread
      cases hthread
    | launched howner _ hstarter hrun =>
      cases howner
      cases hcleared _ (hwf.launch _ _ r hstarter hrun)

theorem Client.RunsWf.engaged_stays (hs : s.RunsWf) (hwf : s.Wf) (h : ClientMove P config s l s')
    (hengaged : s.Engaged r) (hplace : s.place (.dispatcher r) = some pc) (hpc : pc ≠ .finished) :
    s'.Engaged r := by
  obtain ⟨hcurrent, hthread, hquiet⟩ := hengaged
  refine ⟨?_, (hs.handle hwf h hplace hpc).2, ?_⟩
  · cases h with
    | @thread o choice t pc' u ht hmove =>
      have hnot := hquiet o t.pc (Client.place_of_thread ht)
      rcases hmove.callbackRun with hsame | ⟨a, hstarts, -⟩ | ⟨a, error, hstarts, -⟩
      · exact hsame.1.trans hcurrent
      · rw [hstarts] at hnot
        cases hnot
      · rw [hstarts] at hnot
        cases hnot
    | _ => exact hcurrent
  · intro o pc' hplace'
    rw [Bool.eq_false_iff]
    intro hstarts
    cases h.placed hplace' with
    | kept _ hbefore =>
      rw [hquiet o pc' hbefore] at hstarts
      cases hstarts
    | moved ht hmove _ =>
      rcases hmove.starting hstarts with hbefore | ⟨-, hjoined⟩
      · rw [hquiet o _ (Client.place_of_thread ht)] at hbefore
        cases hbefore
      · rw [hjoined r hcurrent] at hthread
        cases hthread
    | @entered _ op _ hentry _ =>
      rw [hentry, op.entry_plain.2.2.2] at hstarts
      cases hstarts
    | built _ hentry _ _ =>
      rw [hentry] at hstarts
      cases hstarts
    | launched _ hentry _ _ =>
      rw [hentry] at hstarts
      cases hstarts

/-- Nobody is starting while the lock is free. -/
theorem Client.Wf.not_starting (hwf : s.Wf) (hfree : s.lock = none) (hplace : s.place o = some pc) :
    pc.starting = false := by
  rw [Bool.eq_false_iff]
  intro hstarts
  rw [hwf.owner o pc hplace (Pc.holds_of_starting hstarts)] at hfree
  cases hfree

theorem Client.RunsWf.step_engaged (hs : s.RunsWf) (hwf : s.Wf) (h : ClientMove P config s l s')
    (hplace : s'.place (.dispatcher r) = some pc) (hpc : pc.engaged = true) : s'.Engaged r := by
  have hnot : ∀ {pc : Pc}, pc.engaged = true → pc ≠ .finished := by
    rintro pc hengaged rfl
    cases hengaged
  cases h.placed hplace with
  | kept _ hbefore =>
    exact hs.engaged_stays hwf h (hs.engaged r pc hbefore hpc) hbefore (hnot hpc)
  | @moved t choice u ht hmove _ =>
    have hbefore := Client.place_of_thread ht
    rcases hmove.engaged hpc with hengaged | ⟨r', howner, hcheck, hfree, hcurrent⟩
    · exact hs.engaged_stays hwf h (hs.engaged r t.pc hbefore hengaged) hbefore (hnot hengaged)
    · cases howner
      have hne : t.pc ≠ .finished := by
        rw [hcheck]
        simp
      refine hs.engaged_stays hwf h ⟨?_, (hs.handle hwf h hbefore hne).1, ?_⟩ hbefore hne
      · exact (Client.callbackRunIsCurrent_iff.mp hcurrent).2.2.2
      · exact fun o pc hplace => hwf.not_starting hfree hplace
  | @entered _ op _ hentry _ =>
    rw [hentry, op.entry_plain.2.2.1] at hpc
    cases hpc
  | built _ hentry _ _ =>
    rw [hentry] at hpc
    cases hpc
  | launched _ hentry _ _ =>
    rw [hentry] at hpc
    cases hpc

theorem Client.RunsWf.step_joining (hs : s.RunsWf) (h : ClientMove P config s l s') {t : Thread}
    (ht : s'.threads o = some t) (hjoins : t.pc.joins = some r) : t.caller ≠ some r := by
  rcases h.came ht with ⟨before, hbefore, hcaller, -, hsame | ⟨choice, u, hmove, -⟩⟩ | hentry |
      ⟨-, hentry⟩
  · rw [hcaller]
    exact hs.joining o before r hbefore (hsame ▸ hjoins)
  · rw [hcaller]
    rcases hmove.joins hjoins with hbefore' | hother
    · exact hs.joining o before r hbefore hbefore'
    · exact hother
  · have hfound := Pc.found_of_joins hjoins
    rw [hentry, t.op.entry_plain.1] at hfound
    cases hfound
  · rw [hentry] at hjoins
    cases hjoins

theorem Client.RunsWf.step (hs : s.RunsWf) (hwf : s.Wf) (h : ClientMove P config s l s') :
    s'.RunsWf where
  attempt _ _ _ hplace hattempt := hs.step_attempt hwf h hplace hattempt
  current _ hcurrent := hs.step_current h hcurrent
  found _ _ _ hplace hfound := hs.step_found h hplace hfound
  joining _ _ _ ht hjoins := hs.step_joining h ht hjoins
  joined _ _ _ hplace hjoined := hs.step_joined hwf h hplace hjoined
  ended _ hthread := hs.step_ended hwf h hthread
  engaged _ _ hplace hpc := hs.step_engaged hwf h hplace hpc

theorem Client.runsWf_init (h : (clientLts P config).init s) : s.RunsWf := by
  obtain ⟨native, callback, -, rfl⟩ := h
  exact
    { attempt := fun o pc a hplace => (by cases hplace)
      current := fun r hcurrent => (by cases hcurrent)
      found := fun o pc r hplace => (by cases hplace)
      joining := fun o t r ht => (by cases ht)
      joined := fun o pc r hplace => (by cases hplace)
      ended := fun r _ => .inl rfl
      engaged := fun r pc hplace => (by cases hplace) }

theorem runsWf_of_reach {ok : Client → ClientLabel → Prop} (h : (clientLts P config).Reach ok s) :
    s.RunsWf :=
  Lts.Reach.invariant_using (K := Client.Wf) (I := Client.RunsWf) (fun _ hs => wf_of_reach hs)
    (fun _ hs => Client.runsWf_init hs)
    (fun _ _ _ _ hstep hwf _ hruns => hruns.step hwf (hwf.move hstep)) h

end Invariant

/-! ## The run and the token of the last start that succeeded -/

namespace Client

/-- The start under way. -/
def attempt (s : Client) : Option Attempt := s.lock.bind fun o => (s.place o).bind Pc.attempt

/-- The run and the token of the last start that succeeded. -/
def settled (s : Client) : Option Nat × Nat :=
  match s.attempt with
  | some a => (a.previousRun, a.previousToken)
  | none => (s.callbackRun, s.runToken)

/-- Is this the step with which a start succeeds? -/
def commits (s : Client) : ClientLabel → Bool
  | .thread o .go =>
      match s.place o with
      | some (.startInstall a) => a.run.isNone
      | some (.startActivate _) => true
      | _ => false
  | _ => false

end Client

section Settled

variable {P : Platform} {config : Config} {s s' : Client} {l : ClientLabel} {o : Owner} {pc : Pc}
  {a : Attempt}

theorem Client.Wf.attempt_of_place (hwf : s.Wf) (hplace : s.place o = some pc)
    (hpc : pc.attempt = some a) : s.attempt = some a := by
  rw [Client.attempt, hwf.owner o pc hplace (Pc.holds_of_attempt hpc), Option.bind_some, hplace,
    Option.bind_some, hpc]

theorem Client.attempt_cases : s.attempt = none ∨
    ∃ o pc a, s.place o = some pc ∧ pc.attempt = some a ∧ s.attempt = some a := by
  cases hattempt : s.attempt with
  | none => exact .inl rfl
  | some a =>
    have hbind := hattempt
    unfold Client.attempt at hbind
    obtain ⟨o, -, hbind⟩ := Option.bind_eq_some_iff.mp hbind
    obtain ⟨pc, hplace, hpc⟩ := Option.bind_eq_some_iff.mp hbind
    exact .inr ⟨o, pc, a, hplace, hpc, rfl⟩

theorem Client.settled_of_attempt (h : s.attempt = some a) :
    s.settled = (a.previousRun, a.previousToken) := by
  rw [Client.settled, h]

theorem Client.settled_of_none (h : s.attempt = none) :
    s.settled = (s.callbackRun, s.runToken) := by
  rw [Client.settled, h]

theorem Client.settled_of_free (h : s.lock = none) : s.settled = (s.callbackRun, s.runToken) :=
  Client.settled_of_none (by rw [Client.attempt, h]; rfl)

/-- A start that others move past stays under way. -/
theorem Client.Wf.attempt_stays (hwf : s.Wf) (h : ClientMove P config s l s')
    (hplace : s.place o = some pc) (hpc : pc.attempt = some a)
    (hother : ∀ choice, l ≠ .thread o choice) : s'.attempt = some a := by
  refine (hwf.step h).attempt_of_place (hwf.stays h hplace hother ?_ ?_) hpc
  · rintro result rfl
    cases hpc
  · rintro rfl
    cases hpc

/-- How a start under way came there. -/
theorem ClientMove.attempt (h : ClientMove P config s l s') (hplace : s'.place o = some pc)
    (hpc : pc.attempt = some a) :
    (s.place o = some pc ∧ ∀ choice, l ≠ .thread o choice) ∨
      ∃ t choice u, l = .thread o choice ∧ s.threads o = some t ∧ AttemptMove s u t.pc pc a := by
  cases h.placed hplace with
  | kept hother hbefore => exact .inl ⟨hbefore, hother⟩
  | @moved t choice u ht hmove _ hlabel => exact .inr ⟨t, choice, u, hlabel, ht, hmove.attempt hpc⟩
  | @entered _ op _ hentry _ =>
    have hplain := op.entry_plain.2.2.2
    rw [← hentry, Pc.starting_of_attempt hpc] at hplain
    cases hplain
  | built _ hentry _ _ =>
    rw [hentry] at hpc
    cases hpc
  | launched _ hentry _ _ =>
    rw [hentry] at hpc
    cases hpc

/-- Without a start under way, only a new start can come to be there. -/
theorem Client.Wf.settled_outside (hwf : s.Wf) (h : ClientMove P config s l s')
    (hnone : s.attempt = none) : s'.settled = s.settled := by
  have habsurd : ∀ {o pc a}, s.place o = some pc → pc.attempt = some a → False := by
    intro o pc a hplace hpc
    rw [hwf.attempt_of_place hplace hpc] at hnone
    cases hnone
  rw [Client.settled_of_none hnone]
  rcases s'.attempt_cases with hnone' | ⟨o, pc, a, hplace, hpc, hattempt⟩
  · rw [Client.settled_of_none hnone']
    cases h with
    | @thread o choice t pc' u ht hmove =>
      have hbefore := Client.place_of_thread ht
      rcases hmove.callbackRun with ⟨hrun, htoken⟩ | ⟨a, hpc, -⟩ | ⟨a, error, hpc, -⟩
      · exact Prod.ext hrun htoken
      · exact (habsurd hbefore (by rw [hpc]; rfl)).elim
      · exact (habsurd hbefore (by rw [hpc]; rfl)).elim
    | _ => rfl
  · rw [Client.settled_of_attempt hattempt]
    rcases h.attempt hplace hpc with ⟨hbefore, -⟩ | ⟨t, choice, u, -, ht, hmove⟩
    · exact (habsurd hbefore hpc).elim
    · have hbefore := Client.place_of_thread ht
      cases hmove with
      | begun _ _ _ _ htoken hprevious _ _ => exact Prod.ext hprevious htoken
      | built hbuilding _ _ _ _ _ _ => exact (habsurd hbefore hbuilding).elim
      | kept hkept _ _ _ => exact (habsurd hbefore hkept).elim
      | installed hinstall _ _ _ => exact (habsurd hbefore (by rw [hinstall]; rfl)).elim

/-- **The last start that succeeded** is replaced by a start that succeeds
and by nothing else. -/
theorem Client.RunsWf.settled_step (hs : s.RunsWf) (hwf : s.Wf) (h : ClientMove P config s l s')
    (hnot : s.commits l = false) : s'.settled = s.settled := by
  rcases s.attempt_cases with hnone | ⟨o, pc, a, hplace, hpc, hattempt⟩
  · exact hwf.settled_outside h hnone
  rw [Client.settled_of_attempt hattempt]
  have hlock := hwf.owner o pc hplace (Pc.holds_of_attempt hpc)
  by_cases hmine : ∃ choice, l = .thread o choice
  · obtain ⟨choice, rfl⟩ := hmine
    rcases s'.attempt_cases with hnone' | ⟨o', pc', a', hplace', hpc', hattempt'⟩
    · rw [Client.settled_of_none hnone']
      cases h with
      | @thread _ _ t pc' u ht hmove =>
        rw [Client.place_of_thread ht] at hplace
        obtain rfl := Option.some.inj hplace
        have hmoved : (u.setThread o (some { t with pc := pc' })).place o = some pc' := by
          rw [Client.setThread_place, Function.update_self]
          rfl
        have hmove' : ClientMove P config s (.thread o choice) _ := .thread ht hmove
        have hleft : pc'.attempt = none := by
          cases hpc' : pc'.attempt with
          | none => rfl
          | some b =>
            rw [(hwf.step hmove').attempt_of_place hmoved hpc'] at hnone'
            cases hnone'
        rcases hmove.attempt_ends hpc hleft with ⟨rfl, hcommits⟩ | ⟨hpending, hsame⟩ |
            ⟨hrun, htoken, -⟩
        · rw [Client.commits, Client.place_of_thread ht] at hnot
          rcases hcommits with ⟨hinstall, hiterator⟩ | hactivate
          · rw [hinstall] at hnot
            simp [hiterator] at hnot
          · rw [hactivate] at hnot
            cases hnot
        · obtain ⟨hrun', htoken', -⟩ := (hs.attempt o t.pc a
            (Client.place_of_thread ht) hpc).before hpending
          exact Prod.ext (hsame.run.trans hrun') (hsame.token.trans htoken')
        · exact Prod.ext hrun htoken
    · rw [Client.settled_of_attempt hattempt']
      rcases h.attempt hplace' hpc' with ⟨hbefore, hother⟩ | ⟨t, choice', u, hlabel, ht, hmove⟩
      · -- two starts would both hold the lock
        rw [hwf.owner o' pc' hbefore (Pc.holds_of_attempt hpc')] at hlock
        obtain rfl := Option.some.inj hlock
        exact absurd rfl (hother choice)
      · cases hlabel
        rw [Client.place_of_thread ht] at hplace
        obtain rfl := Option.some.inj hplace
        cases hmove with
        | begun hfree _ _ _ _ _ _ _ =>
          rw [hlock] at hfree
          cases hfree
        | built hbefore _ _ _ hnew _ _ =>
          rw [hpc] at hbefore
          cases hbefore
          rw [hnew]
        | kept hbefore _ _ _ =>
          rw [hpc] at hbefore
          cases hbefore
          rfl
        | installed hinstall _ _ _ =>
          rw [hinstall] at hpc
          cases hpc
          rfl
  · rw [Client.settled_of_attempt
      (hwf.attempt_stays h hplace hpc fun choice heq => hmine ⟨choice, heq⟩)]

end Settled

end PyNetFT.Python
