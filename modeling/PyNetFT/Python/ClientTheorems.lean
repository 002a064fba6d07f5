/-
PyNetFT.Python.ClientTheorems — the lock and the native calls of the
Python client.

Each aspect of a step (`LockMove`, `NativeEffect`) is read off
`ThreadMove` once. From them: who holds `_lock`, that a native call is in
flight exactly for a thread that waits for it, and that the native client
below runs as it would alone (`native_of_reachable`), so that everything
proved there holds here.
-/
import PyNetFT.Python.ClientMoves
import PyNetFT.Bindings.Isolation
import PyNetFT.Bindings.Running

namespace PyNetFT.Python

open PyNetFT.Lib PyNetFT.Core PyNetFT.Bindings

/-! ## Places -/

/-- Where a thread is. -/
def Client.place (s : Client) (o : Owner) : Option Pc := (s.threads o).map Thread.pc

section Places

variable {P : Platform} {config : Config} {s s' : Client} {o : Owner}

theorem Client.place_some {pc : Pc} : s.place o = some pc ↔ ∃ t, s.threads o = some t ∧ t.pc = pc :=
  Option.map_eq_some_iff

theorem Client.place_of_thread {t : Thread} (h : s.threads o = some t) : s.place o = some t.pc :=
  Client.place_some.mpr ⟨t, h, rfl⟩

theorem Client.place_congr (h : s'.threads = s.threads) : s'.place = s.place := by
  funext o
  rw [Client.place, Client.place, h]

theorem Client.setThread_place (s : Client) (o : Owner) (t : Option Thread) :
    (s.setThread o t).place = Function.update s.place o (t.map Thread.pc) := by
  funext other
  by_cases h : other = o
  · subst h
    simp [Client.place, Client.setThread]
  · simp [Client.place, Client.setThread, Function.update_of_ne h]

@[simp] theorem Client.entered_place (s : Client) (c : Nat) (caller : Option Nat) (op : ClientOp) :
    (s.entered c caller op).place = Function.update s.place (.call c) (some op.entry) :=
  s.setThread_place (.call c) (some { caller := caller, op := op, pc := op.entry })

@[simp] theorem Client.left_place (s : Client) (c : Nat) :
    (s.left c).place = Function.update s.place (.call c) none :=
  s.setThread_place (.call c) none

/-- A dispatcher's own call does not move it. -/
theorem Client.setNested_place {s : Client} {r : Nat} {t : Thread} (nested : Option Nat)
    (h : s.threads (.dispatcher r) = some t) :
    (s.setThread (.dispatcher r) (some { t with nested := nested })).place = s.place := by
  rw [Client.setThread_place]
  have hplace := Client.place_of_thread h
  exact (congrArg _ hplace.symm).trans (Function.update_eq_self _ _)

theorem Client.nest_place {c r : Nat} {op : ClientOp} {t : Thread}
    (h : s.threads (.dispatcher r) = some t) :
    ((s.entered c (some r) op).setThread (.dispatcher r) (some { t with nested := some c })).place
      = Function.update s.place (.call c) (some op.entry) := by
  have hr : (s.entered c (some r) op).threads (.dispatcher r) = some t := by
    simp [Client.entered, Client.setThread, h]
  rw [Client.setNested_place _ hr, Client.entered_place]

theorem Client.unnest_place {c r : Nat} {t : Thread} (h : s.threads (.dispatcher r) = some t) :
    ((s.left c).setThread (.dispatcher r) (some { t with nested := none })).place
      = Function.update s.place (.call c) none := by
  have hr : (s.left c).threads (.dispatcher r) = some t := by
    simp [Client.left, Client.setThread, h]
  rw [Client.setNested_place _ hr, Client.left_place]

end Places

/-! ## Aspects of a step -/

/-- What a step does with `_lock`. -/
inductive LockMove (o : Owner) (s s' : Client) (pc pc' : Pc) : Prop where
  | outside (before : pc.holds = false) (after : pc'.holds = false) (same : s'.lock = s.lock)
  | takes (before : pc.holds = false) (free : s.lock = none) (after : pc'.holds = true)
      (mine : s'.lock = some o)
  | inside (before : pc.holds = true) (after : pc'.holds = true)
      (same : s'.lock = s.lock ∨ s'.lock = some o)
  | gives (before : pc.holds = true) (after : pc'.holds = false) (free : s'.lock = none)

/-- What a step does with the native client. -/
inductive NativeEffect (o : Owner) (s s' : Client) (pc pc' : Pc) : Prop where
  | same (before : pc.awaits = none) (after : pc'.awaits = none) (same : s'.native = s.native)
  | invoked {op : NativeOp} (before : pc.awaits = none) (after : pc'.awaits = some op.entry.part)
      (invoke : s.native.invoke o.nativeId op = some s'.native)
  | collected {part : NativePart} (before : pc.awaits = some part) (after : pc'.awaits = none)
      (collect : s.native.collect o.nativeId = some s'.native)
  | asked {iterator : Option Nat} {core : Sys} (before : pc = .health iterator)
      (after : pc' = .healthAwait iterator)
      (invoke : s.native.core.invoke o.healthId none .health = some core)
      (native : s'.native = { s.native with core := core })
  | told {iterator : Option Nat} {core : Sys} {health : HealthSnapshot}
      (before : pc = .healthAwait iterator) (after : pc' = .dropped iterator health)
      (collect : s.native.core.collect o.healthId = some core)
      (native : s'.native = { s.native with core := core })

section Aspects

variable {o : Owner} {caller nested : Option Nat} {choice : Choice} {s s' : Client} {pc pc' : Pc}

theorem Quiet.outside (h : Quiet o caller nested choice s pc pc') :
    pc.holds = false ∧ pc'.holds = false ∧ pc.awaits = none ∧ pc'.awaits = none ∧
      pc'.dispatches = pc.dispatches := by
  cases h
  case again hplace =>
    rcases hplace with rfl | ⟨callback, x, rfl, -⟩ <;> exact ⟨rfl, rfl, rfl, rfl, rfl⟩
  case leaves hplace =>
    rcases hplace with rfl | rfl | ⟨result, rfl⟩ | ⟨x, rfl⟩ | ⟨x, rfl⟩ | rfl <;>
      exact ⟨rfl, rfl, rfl, rfl, rfl⟩
  all_goals exact ⟨rfl, rfl, rfl, rfl, rfl⟩

/-- Where `_stop_locked` leads to. -/
theorem Client.afterStop_cases (s : Client) (caller : Option Nat) (ending : Ending) :
    (ending = .finish ∧ s.afterStop caller ending = (.finish, s)) ∨
    (∃ i fault, ending = .raised i fault ∧ s.afterStop caller ending =
      (.returned (.raised (.sensorFault fault)), s.exhaust i)) ∨
    (∃ r, ending = .stopped (some r) ∧ (s.runs r).thread = true ∧ caller ≠ some r ∧
      s.afterStop caller ending = (.stopJoin r, s)) ∨
    (∃ run, ending = .stopped run ∧
      (∀ r, run = some r → (s.runs r).thread = false ∨ caller = some r) ∧
      s.afterStop caller ending = (.returned .done, s)) := by
  cases ending with
  | finish => exact .inl ⟨rfl, rfl⟩
  | raised i fault => exact .inr (.inl ⟨i, fault, rfl, rfl⟩)
  | stopped run =>
    cases run with
    | none => exact .inr (.inr (.inr ⟨none, rfl, fun r hr => (by cases hr), rfl⟩))
    | some r =>
      simp only [Client.afterStop]
      split
      · rename_i hthread
        exact .inr (.inr (.inl ⟨r, rfl, hthread.1, hthread.2, rfl⟩))
      · rename_i hthread
        refine .inr (.inr (.inr ⟨some r, rfl, ?_, rfl⟩))
        rintro r' ⟨⟩
        rw [not_and_or, not_not] at hthread
        exact hthread.imp_left Bool.eq_false_iff.mpr

/-- A place behind `_stop_locked`. -/
def Pc.behind (ending : Ending) (pc : Pc) : Prop :=
  match ending with
  | .stopped run => pc = .returned .done ∨ ∃ r, run = some r ∧ pc = .stopJoin r
  | .raised _ fault => pc = .returned (.raised (.sensorFault fault))
  | .finish => pc = .finish

theorem Pc.behind.places {ending : Ending} (h : pc.behind ending) :
    (∃ result, pc = .returned result ∧ ending ≠ .finish) ∨
      (∃ r, ending = .stopped (some r) ∧ pc = .stopJoin r) ∨ ending = .finish ∧ pc = .finish := by
  cases ending with
  | stopped run =>
    rcases h with rfl | ⟨r, rfl, rfl⟩
    · exact .inl ⟨_, rfl, by simp⟩
    · exact .inr (.inl ⟨r, rfl, rfl⟩)
  | raised i fault => exact .inl ⟨_, h, by simp⟩
  | finish => exact .inr (.inr ⟨rfl, h⟩)

theorem Pc.behind.outside {ending : Ending} (h : pc.behind ending) : pc.holds = false ∧
    pc.awaits = none ∧ pc.reports = false ∧ pc.dispatches = (Pc.haltAwait ending).dispatches := by
  rcases h.places with ⟨result, rfl, hending⟩ | ⟨r, rfl, rfl⟩ | ⟨rfl, rfl⟩
  · refine ⟨rfl, rfl, rfl, ?_⟩
    cases ending <;> first | rfl | exact absurd rfl hending
  · exact ⟨rfl, rfl, rfl, rfl⟩
  · exact ⟨rfl, rfl, rfl, rfl⟩

theorem Client.afterStop_behind {ending : Ending} (h : s.afterStop caller ending = (pc', s')) :
    pc'.behind ending ∧ ∃ iterators, s' = { s with iterators := iterators } := by
  rcases s.afterStop_cases caller ending with ⟨rfl, heq⟩ | ⟨i, fault, rfl, heq⟩ |
      ⟨r, rfl, -, -, heq⟩ | ⟨run, rfl, -, heq⟩ <;>
    obtain ⟨rfl, rfl⟩ := Prod.mk.inj (heq.symm.trans h)
  · exact ⟨rfl, s.iterators, rfl⟩
  · exact ⟨rfl, _, rfl⟩
  · exact ⟨.inr ⟨r, rfl, rfl⟩, s.iterators, rfl⟩
  · exact ⟨.inl rfl, s.iterators, rfl⟩

theorem Client.storeError_frame (s : Client) (r : Nat) (error : PyError) :
    ∃ runs, s.storeError r error = { s with runs := runs } := by
  unfold Client.storeError
  split
  · exact ⟨_, rfl⟩
  · exact ⟨s.runs, rfl⟩

theorem Client.rollback_frame (s : Client) (a : Attempt) :
    ∃ runs, s.rollback a = { s with
      running := false, mode := none, runToken := a.previousToken, callbackRun := a.previousRun,
      runs := runs } := by
  unfold Client.rollback
  dsimp only
  split
  · exact ⟨_, rfl⟩
  · exact ⟨s.runs, rfl⟩

theorem Client.clearThread_frame (s : Client) (r : Nat) (joined : Bool) :
    ∃ runs, s.clearThread r joined = { s with runs := runs } := by
  unfold Client.clearThread
  split
  · exact ⟨_, rfl⟩
  · exact ⟨s.runs, rfl⟩

theorem ThreadMove.lock (h : ThreadMove o caller nested choice s pc pc' s') :
    LockMove o s s' pc pc' := by
  cases h
  case quiet hquiet => exact .outside hquiet.outside.1 hquiet.outside.2.1 rfl
  case begins hfree _ _ _ hplace =>
    rcases hplace with ⟨rfl, -⟩ | ⟨rfl, -⟩ <;> exact .takes rfl hfree rfl rfl
  case startFails hplace => rcases hplace with rfl | rfl <;> exact .inside rfl rfl (.inl rfl)
  case rollsBack a error =>
    obtain ⟨runs, hruns⟩ := s.rollback_frame a
    exact .inside rfl rfl (.inl (by rw [hruns]))
  case invokes hplace =>
    rcases hplace with ⟨a, rfl, rfl, -⟩ | ⟨run, error, rfl, rfl, -⟩ | ⟨ending, rfl, rfl, -⟩ |
      ⟨rfl, rfl, -⟩ | ⟨i, rfl, rfl, -⟩ | ⟨rfl, rfl, -⟩
    · exact .inside rfl rfl (.inl rfl)
    · exact .inside rfl rfl (.inl rfl)
    · exact .inside rfl rfl (.inl rfl)
    · exact .outside rfl rfl rfl
    · exact .outside rfl rfl rfl
    · exact .outside rfl rfl rfl
  case reads hplace =>
    rcases hplace with ⟨i, rfl, rfl⟩ | ⟨rfl, rfl⟩ <;> exact .outside rfl rfl rfl
  case startClears callback r joined _ =>
    obtain ⟨runs, hruns⟩ := s.clearThread_frame r joined
    exact .outside rfl rfl (by rw [hruns])
  case stopClears r joined _ =>
    obtain ⟨runs, hruns⟩ := s.clearThread_frame r joined
    exact .outside rfl rfl (by rw [hruns])
  case exhausts hplace =>
    rcases hplace with rfl | ⟨result, rfl⟩ | rfl <;> exact .outside rfl rfl rfl
  case storesLate r error _ _ _ =>
    obtain ⟨runs, hruns⟩ := s.storeError_frame r error
    exact .outside rfl rfl (by rw [hruns])
  case halted hafter =>
    obtain ⟨hbehind, iterators, rfl⟩ := Client.afterStop_behind hafter
    exact .gives rfl hbehind.outside.1 rfl
  case finishes => exact .outside rfl rfl (by split <;> rfl)
  all_goals first
    | exact .outside rfl rfl rfl
    | exact .takes rfl (by assumption) rfl rfl
    | exact .inside rfl rfl (.inl rfl)
    | exact .inside rfl rfl (.inr rfl)
    | exact .gives rfl rfl rfl

theorem ThreadMove.native (h : ThreadMove o caller nested choice s pc pc' s') :
    NativeEffect o s s' pc pc' := by
  cases h
  case quiet hquiet => exact .same hquiet.outside.2.2.1 hquiet.outside.2.2.2.1 rfl
  case begins hplace => rcases hplace with ⟨rfl, -⟩ | ⟨rfl, -⟩ <;> exact .same rfl rfl rfl
  case startFails hplace => rcases hplace with rfl | rfl <;> exact .same rfl rfl rfl
  case rollsBack a error =>
    obtain ⟨runs, hruns⟩ := s.rollback_frame a
    exact .same rfl rfl (by rw [hruns])
  case invokes hinvoke hplace =>
    rcases hplace with ⟨a, rfl, rfl, rfl⟩ | ⟨run, error, rfl, rfl, rfl⟩ | ⟨ending, rfl, rfl, rfl⟩ |
      ⟨rfl, rfl, rfl⟩ | ⟨i, rfl, rfl, rfl⟩ | ⟨rfl, rfl, rfl⟩ <;> exact .invoked rfl rfl hinvoke
  case reads _ hcollect hplace =>
    rcases hplace with ⟨i, rfl, rfl⟩ | ⟨rfl, rfl⟩ <;> exact .collected rfl rfl hcollect
  case startClears callback r joined _ =>
    obtain ⟨runs, hruns⟩ := s.clearThread_frame r joined
    exact .same rfl rfl (by rw [hruns])
  case stopClears r joined _ =>
    obtain ⟨runs, hruns⟩ := s.clearThread_frame r joined
    exact .same rfl rfl (by rw [hruns])
  case exhausts hplace =>
    rcases hplace with rfl | ⟨result, rfl⟩ | rfl <;> exact .same rfl rfl rfl
  case storesError r error _ _ _ =>
    obtain ⟨runs, hruns⟩ := s.storeError_frame r error
    exact .same rfl rfl (by rw [hruns])
  case storesLate r error _ _ _ =>
    obtain ⟨runs, hruns⟩ := s.storeError_frame r error
    exact .same rfl rfl (by rw [hruns])
  case halted hcollect hafter =>
    obtain ⟨hbehind, iterators, rfl⟩ := Client.afterStop_behind hafter
    exact .collected rfl hbehind.outside.2.1 hcollect
  case asksHealth hinvoke => exact .asked rfl rfl hinvoke rfl
  case getsHealth hcollect => exact .told rfl rfl hcollect rfl
  case finishes => exact .same rfl rfl (by split <;> rfl)
  all_goals first
    | exact .same rfl rfl rfl
    | exact .collected rfl rfl (by assumption)

theorem ThreadMove.dispatches (h : ThreadMove o caller nested choice s pc pc' s') :
    pc'.dispatches = pc.dispatches := by
  cases h
  case quiet hquiet => exact hquiet.outside.2.2.2.2
  case begins hplace => rcases hplace with ⟨rfl, -⟩ | ⟨rfl, -⟩ <;> rfl
  case startFails hplace => rcases hplace with rfl | rfl <;> rfl
  case invokes hplace =>
    rcases hplace with ⟨a, rfl, rfl, -⟩ | ⟨run, error, rfl, rfl, -⟩ | ⟨ending, rfl, rfl, -⟩ |
      ⟨rfl, rfl, -⟩ | ⟨i, rfl, rfl, -⟩ | ⟨rfl, rfl, -⟩
    case inr.inr.inl => cases ending <;> rfl
    all_goals rfl
  case reads hplace => rcases hplace with ⟨i, rfl, rfl⟩ | ⟨rfl, rfl⟩ <;> rfl
  case exhausts hplace => rcases hplace with rfl | ⟨result, rfl⟩ | rfl <;> rfl
  case halted hafter => exact (Client.afterStop_behind hafter).1.outside.2.2.2
  case faults iterator _ => cases iterator <;> rfl
  case asksHealth iterator _ _ => cases iterator <;> rfl
  case getsHealth iterator _ _ _ _ _ _ => cases iterator <;> rfl
  case getsDropped iterator _ => cases iterator <;> rfl
  all_goals rfl

/-- `_running`, `_mode`, `_run_token` and `_callback_run`. -/
structure Client.SameControl (s s' : Client) : Prop where
  running : s'.running = s.running
  mode : s'.mode = s.mode
  token : s'.runToken = s.runToken
  run : s'.callbackRun = s.callbackRun

/-- They change under the lock only. -/
theorem ThreadMove.control (h : ThreadMove o caller nested choice s pc pc' s') :
    s.SameControl s' ∨ pc.holds = true ∨ s.lock = none := by
  cases h
  case invokes => exact .inl ⟨rfl, rfl, rfl, rfl⟩
  case reads => exact .inl ⟨rfl, rfl, rfl, rfl⟩
  case startFails => exact .inl ⟨rfl, rfl, rfl, rfl⟩
  case finishes =>
    refine .inl ?_
    split <;> exact ⟨rfl, rfl, rfl, rfl⟩
  all_goals first
    | exact .inr (.inl rfl)
    | exact .inr (.inr (by assumption))
    | exact .inl ⟨rfl, rfl, rfl, rfl⟩

/-- What a step does with the threads other than its own. -/
inductive ThreadsMove (s s' : Client) (pc : Pc) : Prop where
  | same (threads : s'.threads = s.threads) (made : s.made ≤ s'.made)
  | built {a : Attempt} (place : pc = .startBuild a) (made : s'.made = s.made + 1)
      (threads : s'.threads = Function.update s.threads (.dispatcher s.made)
        (some { op := .dispatch, pc := .unstarted }))
      (handle : (s'.runs s.made).thread = true)
  | launched {a : Attempt} {r : Nat} (place : pc = .startThread a) (run : a.run = some r)
      (made : s'.made = s.made)
      (threads : s'.threads = Function.update s.threads (.dispatcher r)
        (some { op := .dispatch, pc := .awaitActivation }))

theorem ThreadMove.threads (h : ThreadMove o caller nested choice s pc pc' s') :
    ThreadsMove s s' pc := by
  cases h
  case builds a =>
    have hrecord : Function.update s.runs s.made { a.record with thread := true } s.made
        = { a.record with thread := true } := Function.update_self _ _ _
    exact .built rfl rfl rfl (congrArg CallbackRun.thread hrecord)
  case buildFailsLate => exact .same rfl (Nat.le_succ _)
  case launches hrun => exact .launched rfl hrun rfl rfl
  case launchFailsLate hrun => exact .launched rfl hrun rfl rfl
  case rollsBack a error =>
    obtain ⟨runs, hruns⟩ := s.rollback_frame a
    exact .same (by rw [hruns]) (by rw [hruns])
  case startClears callback r joined _ =>
    obtain ⟨runs, hruns⟩ := s.clearThread_frame r joined
    exact .same (by rw [hruns]) (by rw [hruns])
  case stopClears r joined _ =>
    obtain ⟨runs, hruns⟩ := s.clearThread_frame r joined
    exact .same (by rw [hruns]) (by rw [hruns])
  case storesError r error _ _ _ =>
    obtain ⟨runs, hruns⟩ := s.storeError_frame r error
    exact .same (by rw [hruns]) (by rw [hruns])
  case storesLate r error _ _ _ =>
    obtain ⟨runs, hruns⟩ := s.storeError_frame r error
    exact .same (by rw [hruns]) (by rw [hruns])
  case halted hafter =>
    obtain ⟨-, iterators, rfl⟩ := Client.afterStop_behind hafter
    exact .same rfl (Nat.le_refl _)
  case finishes => exact .same (by split <;> rfl) (by split <;> exact Nat.le_refl _)
  all_goals exact .same rfl (Nat.le_refl _)

end Aspects

/-! ## Where a thread came from -/

/-- How a thread came to its place in a step. -/
inductive Placed (s s' : Client) (l : ClientLabel) (o : Owner) (pc' : Pc) : Prop where
  | kept (other : ∀ choice, l ≠ .thread o choice) (place : s.place o = some pc')
  | moved {t : Thread} {choice : Choice} {u : Client} (thread : s.threads o = some t)
      (move : ThreadMove o t.caller t.nested choice s t.pc pc' u)
      (state : s' = u.setThread o (some { t with pc := pc' })) (label : l = .thread o choice)
  | entered {c : Nat} {op : ClientOp} (owner : o = .call c) (entry : pc' = op.entry)
      (offered : s.offers op = true)
  | built (owner : o = .dispatcher s.made) (entry : pc' = .unstarted) (made : s'.made = s.made + 1)
      (handle : (s'.runs s.made).thread = true)
  | launched {starter : Owner} {a : Attempt} {r : Nat} (owner : o = .dispatcher r)
      (entry : pc' = .awaitActivation) (place : s.place starter = some (.startThread a))
      (run : a.run = some r)

section Placed

variable {P : Platform} {config : Config} {s s' : Client} {l : ClientLabel} {o : Owner} {pc' : Pc}

theorem ClientMove.placed (h : ClientMove P config s l s') (hplace : s'.place o = some pc') :
    Placed s s' l o pc' := by
  cases h with
  | native => exact .kept (by simp) hplace
  | drop => exact .kept (by simp) hplace
  | @invoke c op hfree hoffered =>
    rw [Client.entered_place] at hplace
    by_cases ho : o = .call c
    · rw [ho, Function.update_self] at hplace
      exact .entered ho (Option.some.inj hplace).symm hoffered
    · rw [Function.update_of_ne ho] at hplace
      exact .kept (by simp) hplace
  | @nest c r op t hfree hoffered hr hinside =>
    rw [Client.nest_place hr] at hplace
    by_cases ho : o = .call c
    · rw [ho, Function.update_self] at hplace
      exact .entered ho (Option.some.inj hplace).symm hoffered
    · rw [Function.update_of_ne ho] at hplace
      exact .kept (by simp) hplace
  | @collect c t result hcall hreturned houtside =>
    rw [Client.left_place] at hplace
    by_cases ho : o = .call c
    · rw [ho, Function.update_self] at hplace
      cases hplace
    · rw [Function.update_of_ne ho] at hplace
      exact .kept (by simp) hplace
  | @unnest c r t d result hcall hreturned hinside hd =>
    rw [Client.unnest_place hd] at hplace
    by_cases ho : o = .call c
    · rw [ho, Function.update_self] at hplace
      cases hplace
    · rw [Function.update_of_ne ho] at hplace
      exact .kept (by simp) hplace
  | @thread o' choice t pc'' u ht hmove =>
    rw [Client.setThread_place] at hplace
    by_cases ho : o = o'
    · subst ho
      rw [Function.update_self] at hplace
      cases hplace
      exact .moved ht hmove rfl rfl
    · rw [Function.update_of_ne ho] at hplace
      have hother : ∀ choice', ClientLabel.thread o' choice ≠ .thread o choice' := by
        rintro choice' heq
        exact ho (by injection heq with h1; exact h1.symm)
      cases hmove.threads with
      | same hthreads _ =>
        rw [Client.place_congr hthreads] at hplace
        exact .kept hother hplace
      | built hpc hmade hthreads hhandle =>
        rw [Client.place, hthreads] at hplace
        by_cases hnew : o = .dispatcher s.made
        · rw [hnew, Function.update_self] at hplace
          exact .built hnew (Option.some.inj hplace).symm hmade hhandle
        · rw [Function.update_of_ne hnew] at hplace
          exact .kept hother hplace
      | @launched a r hpc hrun _ hthreads =>
        rw [Client.place, hthreads] at hplace
        by_cases hnew : o = .dispatcher r
        · rw [hnew, Function.update_self] at hplace
          exact .launched hnew (Option.some.inj hplace).symm
            (hpc ▸ Client.place_of_thread ht) hrun
        · rw [Function.update_of_ne hnew] at hplace
          exact .kept hother hplace

/-- A new call holds nothing and waits for nothing. -/
theorem Client.offers_entry {op : ClientOp} (h : s.offers op = true) :
    op.entry.holds = false ∧ op.entry.awaits = none ∧ op.entry.reports = false ∧
      op.entry.dispatches = false := by
  cases op <;> first | exact ⟨rfl, rfl, rfl, rfl⟩ | cases h

end Placed

/-! ## The lock and the native calls -/

structure Client.Wf (s : Client) : Prop where
  owner : ∀ o pc, s.place o = some pc → pc.holds = true → s.lock = some o
  held : ∀ o, s.lock = some o → ∃ pc, s.place o = some pc ∧ pc.holds = true
  awaits : ∀ o pc part, s.place o = some pc → pc.awaits = some part →
    ∃ call, s.native.calls o.nativeId = some call ∧ call.op.entry.part = part
  called : ∀ n call, s.native.calls n = some call →
    ∃ o pc, n = o.nativeId ∧ s.place o = some pc ∧ pc.awaits = some call.op.entry.part
  reporting : ∀ o pc, s.place o = some pc → pc.reports = true → s.running = true
  fits : ∀ o pc, s.place o = some pc → (pc.dispatches = true ↔ ∃ r, o = .dispatcher r)
  fresh : ∀ r, s.made ≤ r → s.place (.dispatcher r) = none
  launch : ∀ o a r, s.place o = some (.startThread a) → a.run = some r →
    s.place (.dispatcher r) = some .unstarted

section Wf

variable {P : Platform} {config : Config} {s s' : Client} {l : ClientLabel} {o : Owner} {pc : Pc}

theorem Owner.nativeId_inj {o o' : Owner} (h : o.nativeId = o'.nativeId) : o = o' := by
  cases o <;> cases o' <;> simp only [Owner.nativeId] at h <;> first | omega | (congr; omega)

/-- The places that a thread does not leave by itself. -/
def Pc.resting : Pc → Bool
  | .unstarted | .finished | .returned _ => true
  | _ => false

theorem ThreadMove.not_resting {caller nested : Option Nat} {choice : Choice} {pc' : Pc}
    (h : ThreadMove o caller nested choice s pc pc' s') : pc.resting = false := by
  cases h
  case quiet hquiet =>
    cases hquiet
    case again hplace => rcases hplace with rfl | ⟨callback, x, rfl, -⟩ <;> rfl
    case leaves hplace =>
      rcases hplace with rfl | rfl | ⟨result, rfl⟩ | ⟨x, rfl⟩ | ⟨x, rfl⟩ | rfl <;> rfl
    all_goals rfl
  case startFails hplace => rcases hplace with rfl | rfl <;> rfl
  case invokes hplace =>
    rcases hplace with ⟨a, rfl, -⟩ | ⟨run, error, rfl, -⟩ | ⟨ending, rfl, -⟩ |
      ⟨rfl, -⟩ | ⟨i, rfl, -⟩ | ⟨rfl, -⟩ <;> rfl
  case reads hplace => rcases hplace with ⟨i, rfl, -⟩ | ⟨rfl, -⟩ <;> rfl
  case exhausts hplace => rcases hplace with rfl | ⟨result, rfl⟩ | rfl <;> rfl
  all_goals rfl

/-- A thread that does not move stays where it is, unless it is a call
taken off or a dispatcher being started. -/
theorem Client.Wf.stays (hwf : s.Wf) (h : ClientMove P config s l s')
    (hplace : s.place o = some pc) (hother : ∀ choice, l ≠ .thread o choice)
    (hreturned : ∀ result, pc ≠ .returned result)
    (hstarting : pc = .unstarted → ∀ starter a r, s.place starter = some (.startThread a) →
      a.run = some r → o = .dispatcher r → ∀ choice, l ≠ .thread starter choice) :
    s'.place o = some pc := by
  cases h with
  | native => exact hplace
  | drop => exact hplace
  | @invoke c op hfree hoffered =>
    rw [Client.entered_place, Function.update_of_ne, hplace]
    rintro rfl
    rw [Client.place, hfree] at hplace
    cases hplace
  | @nest c r op t hfree hoffered hr hinside =>
    rw [Client.nest_place hr, Function.update_of_ne, hplace]
    rintro rfl
    rw [Client.place, hfree] at hplace
    cases hplace
  | @collect c t result hcall hpc houtside =>
    rw [Client.left_place, Function.update_of_ne, hplace]
    rintro rfl
    rw [Client.place_of_thread hcall, hpc] at hplace
    exact hreturned result (Option.some.inj hplace).symm
  | @unnest c r t d result hcall hpc hinside hd =>
    rw [Client.unnest_place hd, Function.update_of_ne, hplace]
    rintro rfl
    rw [Client.place_of_thread hcall, hpc] at hplace
    exact hreturned result (Option.some.inj hplace).symm
  | @thread o' choice t pc'' u ht hmove =>
    have ho : o ≠ o' := by
      rintro rfl
      exact hother choice rfl
    rw [Client.setThread_place, Function.update_of_ne ho]
    cases hmove.threads with
    | same hthreads _ => rw [Client.place_congr hthreads, hplace]
    | built hpc _ hthreads _ =>
      rw [Client.place, hthreads, Function.update_of_ne]
      · exact hplace
      · rintro rfl
        rw [hwf.fresh s.made (Nat.le_refl _)] at hplace
        cases hplace
    | @launched a r hpc hrun _ hthreads =>
      rw [Client.place, hthreads, Function.update_of_ne]
      · exact hplace
      · rintro rfl
        have hstarter := hpc ▸ Client.place_of_thread ht
        have hnew := hwf.launch o' a r hstarter hrun
        rw [hplace] at hnew
        exact hstarting (Option.some.inj hnew) o' a r hstarter hrun rfl choice rfl

theorem ClientMove.made (h : ClientMove P config s l s') : s.made ≤ s'.made := by
  cases h with
  | thread ht hmove =>
    cases hmove.threads with
    | same _ hmade => exact hmade
    | built _ hmade _ _ => exact hmade ▸ Nat.le_succ _
    | launched _ _ hmade _ => exact Nat.le_of_eq hmade.symm
  | _ => exact Nat.le_refl _

/-- What a thread holds stays held while others move. -/
theorem Client.Wf.lock_kept (hwf : s.Wf) (h : ClientMove P config s l s') (hlock : s.lock = some o)
    (hother : ∀ choice, l ≠ .thread o choice) : s'.lock = some o := by
  cases h with
  | @thread o' choice t pc' u ht hmove =>
    have ho : o ≠ o' := by
      rintro rfl
      exact hother choice rfl
    have hnot : t.pc.holds = false := by
      rw [Bool.eq_false_iff]
      intro hholds
      have howner := hwf.owner o' t.pc (Client.place_of_thread ht) hholds
      rw [hlock] at howner
      exact ho (Option.some.inj howner)
    cases hmove.lock with
    | outside _ _ hsame => exact hsame.trans hlock
    | takes _ hfree _ _ =>
      rw [hlock] at hfree
      cases hfree
    | inside hbefore _ _ =>
      rw [hnot] at hbefore
      cases hbefore
    | gives hbefore _ _ =>
      rw [hnot] at hbefore
      cases hbefore
  | _ => exact hlock

/-- Nobody else touches the control members while the lock is held. -/
theorem Client.Wf.control_kept (hwf : s.Wf) (h : ClientMove P config s l s')
    (hlock : s.lock = some o) (hother : ∀ choice, l ≠ .thread o choice) : s.SameControl s' := by
  cases h with
  | @thread o' choice t pc' u ht hmove =>
    rcases hmove.control with hsame | hholds | hfree
    · exact ⟨hsame.running, hsame.mode, hsame.token, hsame.run⟩
    · have howner := hwf.owner o' t.pc (Client.place_of_thread ht) hholds
      rw [hlock] at howner
      obtain rfl := Option.some.inj howner
      exact absurd rfl (hother choice)
    · rw [hlock] at hfree
      cases hfree
  | _ => exact ⟨rfl, rfl, rfl, rfl⟩

theorem Client.Wf.step_owner (hwf : s.Wf) (h : ClientMove P config s l s')
    (hplace : s'.place o = some pc) (hholds : pc.holds = true) : s'.lock = some o := by
  cases h.placed hplace with
  | kept hother hbefore => exact hwf.lock_kept h (hwf.owner o pc hbefore hholds) hother
  | moved ht hmove hstate =>
    rw [hstate]
    cases hmove.lock with
    | outside _ hafter _ =>
      rw [hholds] at hafter
      cases hafter
    | takes _ _ _ hmine => exact hmine
    | inside hbefore _ hsame =>
      rcases hsame with hsame | hsame
      · exact hsame.trans (hwf.owner o _ (Client.place_of_thread ht) hbefore)
      · exact hsame
    | gives _ hafter _ =>
      rw [hholds] at hafter
      cases hafter
  | entered _ hentry hoffered =>
    rw [hentry, (Client.offers_entry hoffered).1] at hholds
    cases hholds
  | built _ hentry _ _ =>
    rw [hentry] at hholds
    cases hholds
  | launched _ hentry _ _ =>
    rw [hentry] at hholds
    cases hholds

/-- The thread that holds the lock after a step is where the lock is
held. -/
theorem Client.Wf.step_held (hwf : s.Wf) (h : ClientMove P config s l s')
    (hlock : s'.lock = some o) : ∃ pc, s'.place o = some pc ∧ pc.holds = true := by
  -- it held the lock before and has not moved
  have hkept : s.lock = some o → (∀ choice, l ≠ .thread o choice) →
      ∃ pc, s'.place o = some pc ∧ pc.holds = true := by
    intro hbefore hother
    obtain ⟨pc, hplace, hholds⟩ := hwf.held o hbefore
    refine ⟨pc, hwf.stays h hplace hother ?_ ?_, hholds⟩
    · rintro result rfl
      cases hholds
    · rintro rfl
      cases hholds
  cases h with
  | @thread o' choice t pc' u ht hmove =>
    have hmoved : (u.setThread o' (some { t with pc := pc' })).place o' = some pc' := by
      rw [Client.setThread_place, Function.update_self]
      rfl
    have hmine : t.pc.holds = true → s.lock = some o' :=
      hwf.owner o' t.pc (Client.place_of_thread ht)
    have hlock' : u.lock = some o := hlock
    by_cases ho : o = o'
    · subst ho
      refine ⟨pc', hmoved, ?_⟩
      cases hmove.lock with
      | outside hbefore _ hsame =>
        obtain ⟨pc, hplace, hholds⟩ := hwf.held o (hsame.symm.trans hlock')
        rw [Client.place_of_thread ht] at hplace
        obtain rfl := Option.some.inj hplace
        rw [hholds] at hbefore
        cases hbefore
      | takes _ _ hafter _ => exact hafter
      | inside _ hafter _ => exact hafter
      | gives _ _ hfree =>
        rw [hlock'] at hfree
        cases hfree
    · have hother : ∀ choice', ClientLabel.thread o' choice ≠ .thread o choice' := by
        intro choice' heq
        injection heq with heq
        exact ho heq.symm
      refine hkept ?_ hother
      cases hmove.lock with
      | outside _ _ hsame => exact hsame.symm.trans hlock'
      | takes _ _ _ hnew =>
        rw [hlock'] at hnew
        exact absurd (Option.some.inj hnew) ho
      | inside hbefore _ hsame =>
        rcases hsame with hsame | hnew
        · exact hsame.symm.trans hlock'
        · rw [hlock'] at hnew
          exact absurd (Option.some.inj hnew) ho
      | gives _ _ hfree =>
        rw [hlock'] at hfree
        cases hfree
  | _ => exact hkept hlock (by simp)

/-- The native client's own steps keep what is being called. -/
theorem foreign_ops {native native' : Native} {k : NativeLabel}
    (hforeign : NativeLabel.foreign k = true) (h : native.step P config k = some native')
    (n : Nat) : (native'.calls n).map NativeCall.op = (native.calls n).map NativeCall.op := by
  cases Native.step_move h with
  | core hstep => rw [(Native.coreStep_control hstep).calls]
  | invoke => cases hforeign
  | @call m call pc' u hpresent hmove =>
    by_cases hm : n = m
    · subst hm
      rw [Native.setCall_calls_self, hpresent]
      rfl
    · rw [Native.setCall_calls_of_ne _ _ hm, hmove.lock.1]
  | collect => cases hforeign

theorem op_of_ops {a b : Option NativeCall} {call : NativeCall}
    (h : b.map NativeCall.op = a.map NativeCall.op) (ha : a = some call) :
    ∃ call', b = some call' ∧ call'.op = call.op := by
  rw [ha, Option.map_some] at h
  exact Option.map_eq_some_iff.mp h

/-- A native call of one thread does not touch those of others. -/
theorem NativeEffect.calls_of_ne {o' : Owner} {pc' : Pc} (h : NativeEffect o' s s' pc pc') {n : Nat}
    (hne : n ≠ o'.nativeId) : s'.native.calls n = s.native.calls n := by
  cases h with
  | same _ _ hsame => rw [hsame]
  | invoked _ _ hinvoke =>
    simp only [Native.invoke] at hinvoke
    split at hinvoke
    · cases hinvoke
    · rw [← Option.some.inj hinvoke, Native.setCall_calls_of_ne _ _ hne]
  | collected _ _ hcollect =>
    simp only [Native.collect] at hcollect
    split at hcollect
    · rw [← Option.some.inj hcollect, Native.setCall_calls_of_ne _ _ hne]
    · cases hcollect
  | asked _ _ _ hnative => rw [hnative]
  | told _ _ _ hnative => rw [hnative]

theorem Client.Wf.step_awaits (hwf : s.Wf) (h : ClientMove P config s l s')
    (hplace : s'.place o = some pc) {part : NativePart} (hawaits : pc.awaits = some part) :
    ∃ call, s'.native.calls o.nativeId = some call ∧ call.op.entry.part = part := by
  cases h.placed hplace with
  | kept hother hbefore =>
    obtain ⟨call, hcall, hop⟩ := hwf.awaits o pc part hbefore hawaits
    cases h with
    | native hforeign hstep =>
      obtain ⟨call', hcall', hop'⟩ := op_of_ops (foreign_ops hforeign hstep o.nativeId) hcall
      exact ⟨call', hcall', hop' ▸ hop⟩
    | @thread o' choice t pc' u ht hmove =>
      have hne : o.nativeId ≠ o'.nativeId := by
        intro heq
        obtain rfl := Owner.nativeId_inj heq
        exact hother choice rfl
      exact ⟨call, (hmove.native.calls_of_ne hne).trans hcall, hop⟩
    | _ => exact ⟨call, hcall, hop⟩
  | moved ht hmove hstate =>
    rw [hstate]
    cases hmove.native with
    | same _ hafter _ =>
      rw [hawaits] at hafter
      cases hafter
    | @invoked op _ hafter hinvoke =>
      simp only [Native.invoke] at hinvoke
      split at hinvoke
      · cases hinvoke
      · refine ⟨⟨op, op.entry⟩, ?_, ?_⟩
        · have hnative := congrArg Native.calls (Option.some.inj hinvoke).symm
          exact (congrFun hnative _).trans (Native.setCall_calls_self _ _ _)
        · rw [hawaits] at hafter
          exact (Option.some.inj hafter).symm
    | collected _ hafter _ =>
      rw [hawaits] at hafter
      cases hafter
    | asked _ hafter _ _ =>
      rw [hafter] at hawaits
      cases hawaits
    | told _ hafter _ _ =>
      rw [hafter] at hawaits
      cases hawaits
  | entered _ hentry hoffered =>
    rw [hentry, (Client.offers_entry hoffered).2.1] at hawaits
    cases hawaits
  | built _ hentry _ _ =>
    rw [hentry] at hawaits
    cases hawaits
  | launched _ hentry _ _ =>
    rw [hentry] at hawaits
    cases hawaits

theorem Client.Wf.step_called (hwf : s.Wf) (h : ClientMove P config s l s') {n : Nat}
    {call : NativeCall} (hcall : s'.native.calls n = some call) :
    ∃ o pc, n = o.nativeId ∧ s'.place o = some pc ∧ pc.awaits = some call.op.entry.part := by
  -- the call was there before and its thread has not moved
  have hkept : ∀ before, s.native.calls n = some before → before.op = call.op →
      (∀ o choice, n = o.nativeId → l ≠ .thread o choice) →
      ∃ o pc, n = o.nativeId ∧ s'.place o = some pc ∧ pc.awaits = some call.op.entry.part := by
    intro before hbefore hop hother
    obtain ⟨o, pc, hn, hplace, hawaits⟩ := hwf.called n before hbefore
    refine ⟨o, pc, hn, hwf.stays h hplace (fun choice => hother o choice hn) ?_ ?_, hop ▸ hawaits⟩
    · rintro result rfl
      cases hawaits
    · rintro rfl
      cases hawaits
  cases h with
  | native hforeign hstep =>
    obtain ⟨before, hbefore, hop⟩ := op_of_ops (foreign_ops hforeign hstep n).symm hcall
    exact hkept before hbefore hop (by simp)
  | @thread o' choice t pc' u ht hmove =>
    have hmoved : (u.setThread o' (some { t with pc := pc' })).place o' = some pc' := by
      rw [Client.setThread_place, Function.update_self]
      rfl
    have hcall' : u.native.calls n = some call := hcall
    by_cases hn : n = o'.nativeId
    · subst hn
      cases hmove.native with
      | same hbefore _ hsame =>
        -- a thread that waits for nothing has no call
        rw [hsame] at hcall'
        obtain ⟨o, pc, ho, hplace, hawaits⟩ := hwf.called _ call hcall'
        obtain rfl := Owner.nativeId_inj ho
        rw [Client.place_of_thread ht] at hplace
        rw [Option.some.inj hplace, hawaits] at hbefore
        cases hbefore
      | @invoked op _ hafter hinvoke =>
        simp only [Native.invoke] at hinvoke
        split at hinvoke
        · cases hinvoke
        · rw [← Option.some.inj hinvoke, Native.setCall_calls_self] at hcall'
          obtain rfl := Option.some.inj hcall'
          exact ⟨o', pc', rfl, hmoved, hafter⟩
      | collected _ _ hcollect =>
        simp only [Native.collect] at hcollect
        split at hcollect
        · rw [← Option.some.inj hcollect, Native.setCall_calls_self] at hcall'
          cases hcall'
        · cases hcollect
      | asked hbefore _ _ hnative =>
        rw [hnative] at hcall'
        obtain ⟨o, pc, ho, hplace, hawaits⟩ := hwf.called _ call hcall'
        obtain rfl := Owner.nativeId_inj ho
        rw [Client.place_of_thread ht, hbefore] at hplace
        obtain rfl := Option.some.inj hplace
        cases hawaits
      | told hbefore _ _ hnative =>
        rw [hnative] at hcall'
        obtain ⟨o, pc, ho, hplace, hawaits⟩ := hwf.called _ call hcall'
        obtain rfl := Owner.nativeId_inj ho
        rw [Client.place_of_thread ht, hbefore] at hplace
        obtain rfl := Option.some.inj hplace
        cases hawaits
    · rw [hmove.native.calls_of_ne hn] at hcall'
      refine hkept call hcall' rfl ?_
      intro o choice' ho heq
      injection heq with heq
      exact hn (heq ▸ ho)
  | _ => exact hkept call hcall rfl (by simp)

theorem Client.callbackRunIsCurrent_iff {r : Nat} : s.callbackRunIsCurrent r = true ↔
    s.running = true ∧ s.mode = some .callback ∧ s.runToken = (s.runs r).token ∧
      s.callbackRun = some r := by
  simp [Client.callbackRunIsCurrent, and_assoc]

theorem Client.iteratorIsCurrent_iff {i : Nat} : s.iteratorIsCurrent i = true ↔
    s.running = true ∧ s.mode = some .iterator ∧ s.runToken = (s.iterators i).token := by
  simp [Client.iteratorIsCurrent, and_assoc]

theorem Client.Wf.step_reporting (hwf : s.Wf) (h : ClientMove P config s l s')
    (hplace : s'.place o = some pc) (hreports : pc.reports = true) : s'.running = true := by
  cases h.placed hplace with
  | kept hother hbefore =>
    have hholds : pc.holds = true := by
      cases pc <;> first | rfl | cases hreports
    rw [(hwf.control_kept h (hwf.owner o pc hbefore hholds) hother).running]
    exact hwf.reporting o pc hbefore hreports
  | moved ht hmove hstate =>
    rw [hstate]
    have hrunning : ∀ pc, s.place o = some pc → pc.reports = true → s.running = true :=
      hwf.reporting o
    have hthread := Client.place_of_thread ht
    generalize Thread.pc _ = before at hmove hthread
    cases hmove
    case quiet hquiet =>
      cases hquiet
      all_goals cases hreports
    case nextReports _ hcurrent => exact (Client.iteratorIsCurrent_iff.mp hcurrent).1
    case reports _ _ hcurrent => exact (Client.callbackRunIsCurrent_iff.mp hcurrent).1
    case faults => exact hrunning _ hthread rfl
    case asksHealth => exact hrunning _ hthread rfl
    case getsHealth => exact hrunning _ hthread rfl
    case getsDropped => exact hrunning _ hthread rfl
    case begins hplace => rcases hplace with ⟨rfl, -⟩ | ⟨rfl, -⟩ <;> cases hreports
    case invokes hplace =>
      rcases hplace with ⟨a, rfl, rfl, -⟩ | ⟨run, error, rfl, rfl, -⟩ | ⟨ending, rfl, rfl, -⟩ |
        ⟨rfl, rfl, -⟩ | ⟨i, rfl, rfl, -⟩ | ⟨rfl, rfl, -⟩ <;> cases hreports
    case reads hplace => rcases hplace with ⟨i, rfl, rfl⟩ | ⟨rfl, rfl⟩ <;> cases hreports
    case halted hafter =>
      rw [(Client.afterStop_behind hafter).1.outside.2.2.1] at hreports
      cases hreports
    all_goals cases hreports
  | entered _ hentry hoffered =>
    rw [hentry, (Client.offers_entry hoffered).2.2.1] at hreports
    cases hreports
  | built _ hentry _ _ =>
    rw [hentry] at hreports
    cases hreports
  | launched _ hentry _ _ =>
    rw [hentry] at hreports
    cases hreports

theorem Client.Wf.step_fits (hwf : s.Wf) (h : ClientMove P config s l s')
    (hplace : s'.place o = some pc) : pc.dispatches = true ↔ ∃ r, o = .dispatcher r := by
  cases h.placed hplace with
  | kept _ hbefore => exact hwf.fits o pc hbefore
  | moved ht hmove _ =>
    rw [hmove.dispatches]
    exact hwf.fits o _ (Client.place_of_thread ht)
  | @entered c op howner hentry hoffered =>
    rw [hentry, (Client.offers_entry hoffered).2.2.2, howner]
    simp
  | built howner hentry _ _ =>
    rw [hentry, howner]
    simp [Pc.dispatches]
  | launched howner hentry _ _ =>
    rw [hentry, howner]
    simp [Pc.dispatches]

theorem Client.Wf.step_fresh (hwf : s.Wf) (h : ClientMove P config s l s') {r : Nat}
    (hr : s'.made ≤ r) : s'.place (.dispatcher r) = none := by
  have hold : s.place (.dispatcher r) = none := hwf.fresh r (Nat.le_trans h.made hr)
  cases hplace : s'.place (.dispatcher r) with
  | none => rfl
  | some pc =>
    cases h.placed hplace with
    | kept _ hbefore =>
      rw [hold] at hbefore
      cases hbefore
    | moved ht _ _ =>
      rw [Client.place_of_thread ht] at hold
      cases hold
    | entered howner _ _ => cases howner
    | built howner _ hmade _ =>
      cases howner
      omega
    | launched howner _ hstarter hrun =>
      cases howner
      rw [hwf.launch _ _ r hstarter hrun] at hold
      cases hold

theorem Client.Wf.step_launch (hwf : s.Wf) (h : ClientMove P config s l s') {a : Attempt} {r : Nat}
    (hplace : s'.place o = some (.startThread a)) (hrun : a.run = some r) :
    s'.place (.dispatcher r) = some .unstarted := by
  cases h.placed hplace with
  | kept hother hbefore =>
    have hunstarted := hwf.launch o a r hbefore hrun
    refine hwf.stays h hunstarted ?_ (by simp) ?_
    · rintro choice rfl
      cases h with
      | thread ht hmove =>
        rw [Client.place_of_thread ht] at hunstarted
        rw [Option.some.inj hunstarted] at hmove
        cases hmove.not_resting
    · intro _ starter a' r' hstarter _ _ choice
      -- two starters would both hold the lock
      have hlock := hwf.owner o _ hbefore rfl
      rw [hwf.owner starter _ hstarter rfl] at hlock
      obtain rfl := Option.some.inj hlock
      exact hother choice
  | @moved t choice u ht hmove hstate =>
    have hdispatches := hmove.dispatches
    generalize hpc : t.pc = before at hmove hdispatches
    cases hmove
    case quiet hquiet => cases hquiet
    case begins hplace' => rcases hplace' with ⟨hplace', -⟩ | ⟨hplace', -⟩ <;> cases hplace'
    case builds a' =>
      obtain rfl : s.made = r := Option.some.inj hrun
      have hcall : o ≠ .dispatcher s.made := by
        rintro rfl
        have hfits := (hwf.fits _ _ (Client.place_of_thread ht)).mpr ⟨_, rfl⟩
        rw [hpc] at hfits
        cases hfits
      rw [hstate, Client.setThread_place, Function.update_of_ne hcall.symm, Client.setThread_place,
        Function.update_self]
      rfl
    case invokes hplace' =>
      rcases hplace' with ⟨a, -, hplace', -⟩ | ⟨run, error, -, hplace', -⟩ |
        ⟨ending, -, hplace', -⟩ |
        ⟨-, hplace', -⟩ | ⟨i, -, hplace', -⟩ | ⟨-, hplace', -⟩ <;> cases hplace'
    case reads hplace' =>
      rcases hplace' with ⟨i, -, hplace'⟩ | ⟨-, hplace'⟩ <;> cases hplace'
    case halted hafter => cases (Client.afterStop_behind hafter).1.outside.1
  | entered _ hentry hoffered =>
    have hholds := (Client.offers_entry hoffered).1
    rw [← hentry] at hholds
    cases hholds
  | built _ hentry _ _ => cases hentry
  | launched _ hentry _ _ => cases hentry

theorem Client.Wf.step (hwf : s.Wf) (h : ClientMove P config s l s') : s'.Wf where
  owner _ _ hplace hholds := hwf.step_owner h hplace hholds
  held _ hlock := hwf.step_held h hlock
  awaits _ _ _ hplace hawaits := hwf.step_awaits h hplace hawaits
  called _ _ hcall := hwf.step_called h hcall
  reporting _ _ hplace hreports := hwf.step_reporting h hplace hreports
  fits _ _ hplace := hwf.step_fits h hplace
  fresh _ hr := hwf.step_fresh h hr
  launch _ _ _ hplace hrun := hwf.step_launch h hplace hrun

theorem Client.Wf.move (hwf : s.Wf) (h : s.step P config l = some s') :
    ClientMove P config s l s' :=
  Client.step_move (fun o _ ht => hwf.reporting o _ (Client.place_of_thread ht)) h

theorem Client.wf_init (h : (clientLts P config).init s) : s.Wf := by
  obtain ⟨native, callback, ⟨clock, capacity, queue, -, -, rfl⟩, rfl⟩ := h
  exact
    { owner := fun o pc hplace => (by cases hplace)
      held := fun o hlock => (by cases hlock)
      awaits := fun o pc _ hplace => (by cases hplace)
      called := fun n call hcall => (by cases hcall)
      reporting := fun o pc hplace => (by cases hplace)
      fits := fun o pc hplace => (by cases hplace)
      fresh := fun r _ => rfl
      launch := fun o a _ hplace => (by cases hplace) }

theorem wf_of_reach {ok : Client → ClientLabel → Prop} (h : (clientLts P config).Reach ok s) :
    s.Wf :=
  Lts.Reach.invariant (I := Client.Wf) (fun _ hs => Client.wf_init hs)
    (fun _ _ _ _ hstep hwf => hwf.step (hwf.move hstep)) h

/-- A step of the client is at most one step of the native client. -/
theorem ClientMove.native_step (h : ClientMove P config s l s') : s'.native = s.native ∨
    ∃ k, s.native.step P config k = some s'.native ∧ ∀ n, k = .call n → l = .native (.call n) := by
  cases h with
  | @native k native _ hnative => exact .inr ⟨k, hnative, fun n hk => by rw [hk]⟩
  | @thread o choice t pc' u ht hmove =>
    show u.native = s.native ∨ ∃ k, s.native.step P config k = some u.native ∧ _
    have hodd : o.healthId % 2 = 1 := by
      unfold Owner.healthId
      omega
    cases hmove.native with
    | same _ _ hsame => exact .inl hsame
    | @invoked op _ _ hinvoke => exact .inr ⟨.invoke o.nativeId op, hinvoke, by simp⟩
    | collected _ _ hcollect => exact .inr ⟨.collect o.nativeId, hcollect, by simp⟩
    | @asked iterator core _ _ hinvoke hnative =>
      refine .inr ⟨.core (.invoke o.healthId none .health), ?_, by simp⟩
      simp only [Native.step, Native.coreStep, Core.Op.passes, hodd, and_self, if_true, Sys.step,
        hinvoke, Option.map_some, hnative]
    | @told iterator core health _ _ hcollect hnative =>
      refine .inr ⟨.core (.collect o.healthId), ?_, by simp⟩
      simp only [Native.step, Native.coreStep, hodd, if_true, Sys.step, hcollect, Option.map_some,
        hnative]
  | _ => exact .inl rfl

/-- The native client below is a reachable native client. -/
theorem native_of_reachable (h : (clientLts P config).Reachable s) :
    (nativeLts P config).Reachable s.native := by
  refine Lts.Reach.invariant_using (K := Client.Wf)
    (I := fun s => (nativeLts P config).Reachable s.native) (fun s hs => wf_of_reach hs) ?_ ?_ h
  · rintro s ⟨native, callback, hnative, rfl⟩
    exact Lts.Reachable.init hnative
  · intro s l s' _ hstep hwf _ hs
    rcases (hwf.move hstep).native_step with hsame | ⟨k, hnative, -⟩
    · exact hsame ▸ hs
    · exact hs.step (l := k) hnative

end Wf

end PyNetFT.Python
