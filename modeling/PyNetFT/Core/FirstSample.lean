/-
PyNetFT.Core.FirstSample — for which run `wait_for_first_sample` answers.

A run is one call of `start` that got into its reset section. The code
names it by `generation_`, which the section increments. A waiter reads
the number, sleeps, and compares when it wakes. The comparison would tie
it to its run if numbers were never used twice; but a `start` whose
thread cannot be created puts the old number back, and the next `start`
gives the same number out again. A waiter that read it from the failed
run and has not woken up in between then answers for a run that began
after its call.

The history numbers runs without reuse. `wait_answers_for_its_run` shows
that reuse is the only way: as long as no `start` gives out a number that
a sleeping waiter holds, a wait that returns true is about its own run.
-/
import PyNetFT.Core.RunBooks

namespace PyNetFT.Core

open PyNetFT.Lib

/-! ## The history -/

/-- Runs are numbered from one in the order of their reset sections.
`previous` is the run that was current before the latest one. -/
structure RunHistory where
  starts : Nat := 0
  current : Nat := 0
  previous : Nat := 0
  workerRun : Nat → Nat := fun _ => 0
  captured : Nat → Nat := fun _ => 0
  delivered : List Nat := []

/-- What a step of the call `c` adds: the reset section begins a run, the
new thread belongs to it, a rollback makes the run before it current
again, and a waiter reads which run is current. -/
def RunHistory.atCall (h : RunHistory) (s : Sys) (c : Nat) (choice : CallChoice) :
    CallPc → RunHistory
  | .startSaved _ _ =>
      { h with starts := h.starts + 1, current := h.starts + 1, previous := h.current }
  | .startArmed _ _ =>
      if choice = .go then
        { h with workerRun := Function.update h.workerRun s.created h.current }
      else h
  | .rollbackData _ _ _ => { h with current := h.previous }
  | .waitCapture _ => { h with captured := Function.update h.captured c h.current }
  | _ => h

/-- A receive thread records a delivery. -/
def RunHistory.atWorker (h : RunHistory) (w : Nat) : WorkerPc → RunHistory
  | .delivered _ _ _ => { h with delivered := h.delivered ++ [h.workerRun w] }
  | _ => h

def RunHistory.record (h : RunHistory) (s : Sys) (l : Label) (_ : Sys) : RunHistory :=
  match l with
  | .call c choice => ((s.calls c).map fun call => h.atCall s c choice call.pc).getD h
  | .worker w _ => ((s.workers w).map fun t => h.atWorker w t.pc).getD h
  | _ => h

/-- The client with that history. -/
def runLts (P : Platform) (config : Config) : Lts (Sys × RunHistory) Label :=
  (clientLts P config).recorded {} RunHistory.record

/-! ## The invariant -/

/-- The books of a run: its number is the delivered one exactly if it has
delivered. -/
structure RunBooks.Tell (b : RunBooks) (run : Nat) (delivered : List Nat) : Prop where
  either : b.deliveredGeneration = 0 ∨ b.deliveredGeneration = b.generation
  seen : b.deliveredGeneration = b.generation ∧ 0 < b.generation ↔ run ∈ delivered

/-- The places of `start` between its reset section and the end of the
run it began: the return of a successful `start`, the data section of the
rollback. -/
def CallPc.began? : CallPc → Option SavedData
  | .startReset _ _ d | .startArmed _ d | .rollbackRecord _ d _ | .rollbackData _ d _ => some d
  | _ => none

theorem CallPc.resets_of_began? {pc : CallPc} {d : SavedData} (h : pc.began? = some d) :
    pc.resets = true := by
  cases pc <;> first | rfl | cases h

structure RunsWf (s : Sys) (h : RunHistory) : Prop where
  current : h.current ≤ h.starts
  previous : h.previous ≤ h.starts
  bounded : ∀ r ∈ h.delivered, r ≤ h.starts
  books : s.shared.books.Tell h.current h.delivered
  begun : ∀ c call d, s.calls c = some call → call.pc.began? = some d →
    s.shared.generation = d.generation + 1 ∧ d.books.Tell h.previous h.delivered
  worker : ∀ w t, s.shared.activeWorkerId = some w → s.workers w = some t →
    h.workerRun w = h.current ∧ 0 < s.shared.generation
  waits : ∀ c call deadline g, s.calls c = some call → call.pc = .waitSleep deadline g →
    0 < g ∧ (g = s.shared.generation → h.captured c = h.current) ∧
      ∀ c' call' d, s.calls c' = some call' → call'.pc.began? = some d → g = d.generation →
        h.captured c = h.previous

/-- A `start` that begins a run gives it a number no sleeping waiter
holds. -/
def FreshGeneration (p : Sys × RunHistory) (l : Label) : Prop :=
  ∀ c choice call callback k, l = .call c choice → p.1.calls c = some call →
    call.pc = .startSaved callback k →
    ∀ c' call' deadline g, p.1.calls c' = some call' → call'.pc = .waitSleep deadline g →
      g ≠ p.1.shared.generation + 1

section System

variable {P : Platform} {config : Config} {s s' : Sys} {h : RunHistory}

/-- Where sleeping waiters come from. -/
theorem callStep_waitSleep {c : Nat} {call : Call} {choice : CallChoice} {deadline : TimePoint}
    {g : Nat} (hstep : callStep config c call choice s = some (.waitSleep deadline g, s')) :
    call.pc = .waitCapture deadline ∧ g = s.shared.generation ∧ 0 < g := by
  obtain ⟨caller, op, pc⟩ := call
  cases pc <;>
    simp only [callStep, CallPc.part, startStep, stopStep, otherStep, startDecide] at hstep
  case waitCapture d =>
    split at hstep
    · cases hstep
    · rename_i hpos
      cases hstep
      exact ⟨rfl, rfl, Nat.pos_of_ne_zero hpos⟩
  all_goals (repeat' split at hstep) <;> cases hstep

/-- A call moves without touching the books and without falling asleep. -/
theorem RunsWf.call_keep (hr : RunsWf s h) {c : Nat} {call : Call} {pc' : CallPc}
    (hc : s.calls c = some call) (hcalls : s'.calls = s.calls)
    (hbooks : s'.shared.books = s.shared.books) (hworkers : s'.workers = s.workers)
    (hactive : s'.shared.activeWorkerId = s.shared.activeWorkerId ∨
      s'.shared.activeWorkerId = none)
    (hbegan : ∀ d, pc'.began? = some d → call.pc.began? = some d)
    (hsleep : ∀ deadline g, pc' ≠ .waitSleep deadline g) :
    RunsWf (s'.setCall c (some { call with pc := pc' })) h := by
  have hgen : s'.shared.generation = s.shared.generation := congrArg RunBooks.generation hbooks
  -- whoever is in a begun `start` now was in one before
  have hstill : ∀ j call' d, (s'.setCall c (some { call with pc := pc' })).calls j = some call' →
      call'.pc.began? = some d → ∃ was, s.calls j = some was ∧ was.pc.began? = some d := by
    intro j call' d hj hd
    rcases Sys.setCall_cases hj with ⟨rfl, heq⟩ | ⟨-, hj⟩
    · cases heq
      exact ⟨call, hc, hbegan d hd⟩
    · exact ⟨call', hcalls ▸ hj, hd⟩
  refine ⟨hr.current, hr.previous, hr.bounded, ?_, ?_, ?_, ?_⟩
  · rw [Sys.setCall_shared, hbooks]
    exact hr.books
  · intro j call' d hj hd
    obtain ⟨was, hwas, hd'⟩ := hstill j call' d hj hd
    rw [Sys.setCall_shared, hgen]
    exact hr.begun j was d hwas hd'
  · rw [Sys.setCall_shared, Sys.setCall_workers, hworkers, hgen]
    intro w t hw ht
    rcases hactive with hsame | hnone
    · exact hr.worker w t (hsame ▸ hw) ht
    · rw [hnone] at hw
      cases hw
  · intro j call' deadline g hj hpc
    rcases Sys.setCall_cases hj with ⟨rfl, heq⟩ | ⟨-, hj⟩
    · cases heq
      exact absurd hpc (hsleep deadline g)
    · obtain ⟨hpos, hcur, hprev⟩ := hr.waits j call' deadline g (hcalls ▸ hj) hpc
      rw [Sys.setCall_shared, hgen]
      refine ⟨hpos, hcur, ?_⟩
      intro i starter d hi hd
      obtain ⟨was, hwas, hd'⟩ := hstill i starter d hi hd
      exact hprev i was d hwas hd'

/-- The reset section: a new run with a number nobody holds. -/
theorem RunsWf.begin (hr : RunsWf s h) (hwf : s.Wf) {c : Nat} {caller : Option Nat} {op : Op}
    {callback : Option Nat} {k : SavedControl}
    (hc : s.calls c = some ⟨caller, op, .startSaved callback k⟩)
    (hfresh : ∀ c' call' deadline g, s.calls c' = some call' → call'.pc = .waitSleep deadline g →
      g ≠ s.shared.generation + 1) :
    RunsWf ((s.withShared s.shared.resetRun).setCall c
        (some ⟨caller, op, .startReset callback k s.shared.saveData⟩))
      { h with starts := h.starts + 1, current := h.starts + 1, previous := h.current } := by
  have hidle := hwf.inactive_of_resets hc rfl
  have hbegun : ∀ j call' d, ((s.withShared s.shared.resetRun).setCall c
      (some ⟨caller, op, .startReset callback k s.shared.saveData⟩)).calls j = some call' →
      call'.pc.began? = some d → d = s.shared.saveData := by
    intro j call' d hj hd
    rcases Sys.setCall_cases hj with ⟨rfl, heq⟩ | ⟨hne, hj⟩
    · cases heq
      cases hd
      rfl
    · -- the owner of the lock is the only call in a begun `start`
      have hfree := hwf.others_free hc (.inl rfl) hj hne
      rw [CallPc.holds_of_resets (CallPc.resets_of_began? hd)] at hfree
      cases hfree
  refine ⟨Nat.le_refl _, hr.current.trans (Nat.le_succ _), ?_, ⟨.inl rfl, ?_⟩, ?_, ?_, ?_⟩
  · intro r hmem
    exact (hr.bounded r hmem).trans (Nat.le_succ _)
  · constructor
    · rintro ⟨heq, -⟩
      exact absurd heq (Nat.succ_ne_zero _).symm
    · intro hmem
      exact absurd (hr.bounded _ hmem) (Nat.not_succ_le_self _)
  · intro j call' d hj hd
    obtain rfl := hbegun j call' d hj hd
    exact ⟨rfl, hr.books⟩
  · intro w t hw
    exact absurd (hidle.symm.trans hw) (by simp)
  · intro j call' deadline g hj hpc
    rcases Sys.setCall_cases hj with ⟨rfl, heq⟩ | ⟨-, hj⟩
    · cases heq
      cases hpc
    · obtain ⟨hpos, hcur, -⟩ := hr.waits j call' deadline g hj hpc
      refine ⟨hpos, ?_, ?_⟩
      · intro hg
        exact absurd hg (hfresh j call' deadline g hj hpc)
      · intro i starter d hi hd hg
        obtain rfl := hbegun i starter d hi hd
        exact hcur hg

/-- The data section of a rollback: the run before is current again. -/
theorem RunsWf.withdraw (hr : RunsWf s h) (hwf : s.Wf) {c : Nat} {caller : Option Nat} {op : Op}
    {k : SavedControl} {d : SavedData} {message : String}
    (hc : s.calls c = some ⟨caller, op, .rollbackData k d message⟩) :
    RunsWf ((s.withShared (s.shared.restoreData d)).setCall c
        (some ⟨caller, op, .rollbackLatch k d message⟩))
      { h with current := h.previous } := by
  have hidle := hwf.inactive_of_resets hc rfl
  have hnone : ∀ j call' d', ((s.withShared (s.shared.restoreData d)).setCall c
      (some ⟨caller, op, .rollbackLatch k d message⟩)).calls j = some call' →
      call'.pc.began? ≠ some d' := by
    intro j call' d' hj hd
    rcases Sys.setCall_cases hj with ⟨rfl, heq⟩ | ⟨hne, hj⟩
    · cases heq
      cases hd
    · have hfree := hwf.others_free hc (.inl rfl) hj hne
      rw [CallPc.holds_of_resets (CallPc.resets_of_began? hd)] at hfree
      cases hfree
  refine ⟨hr.previous, hr.previous, hr.bounded, (hr.begun c _ d hc rfl).2, ?_, ?_, ?_⟩
  · intro j call' d' hj hd
    exact absurd hd (hnone j call' d' hj)
  · intro w t hw
    exact absurd (hidle.symm.trans hw) (by simp)
  · intro j call' deadline g hj hpc
    rcases Sys.setCall_cases hj with ⟨rfl, heq⟩ | ⟨-, hj⟩
    · cases heq
      cases hpc
    · obtain ⟨hpos, -, hprev⟩ := hr.waits j call' deadline g hj hpc
      refine ⟨hpos, hprev c _ d hc rfl, ?_⟩
      intro i starter d' hi hd
      exact absurd hd (hnone i starter d' hi)

/-- The new thread belongs to the run its `start` began. -/
theorem RunsWf.spawn (hr : RunsWf s h) {c : Nat} {caller : Option Nat}
    {op : Op} {k : SavedControl} {d : SavedData}
    (hc : s.calls c = some ⟨caller, op, .startArmed k d⟩) (config : Config) :
    RunsWf ((s.spawn config).setCall c (some ⟨caller, op, .returned .done⟩))
      { h with workerRun := Function.update h.workerRun s.created h.current } := by
  have hstill : ∀ j call' d', ((s.spawn config).setCall c
      (some ⟨caller, op, .returned .done⟩)).calls j = some call' →
      call'.pc.began? = some d' → s.calls j = some call' := by
    intro j call' d' hj hd
    rcases Sys.setCall_cases hj with ⟨rfl, heq⟩ | ⟨-, hj⟩
    · cases heq
      cases hd
    · exact hj
  refine ⟨hr.current, hr.previous, hr.bounded, hr.books, ?_, ?_, ?_⟩
  · intro j call' d' hj hd
    exact hr.begun j call' d' (hstill j call' d' hj hd) hd
  · intro w t hw _
    obtain rfl : s.created = w := Option.some.inj hw
    refine ⟨Function.update_self _ _ _, ?_⟩
    show 0 < s.shared.generation
    rw [(hr.begun c _ d hc rfl).1]
    exact Nat.succ_pos _
  · intro j call' deadline g hj hpc
    rcases Sys.setCall_cases hj with ⟨rfl, heq⟩ | ⟨-, hj⟩
    · cases heq
      cases hpc
    · obtain ⟨hpos, hcur, hprev⟩ := hr.waits j call' deadline g hj hpc
      exact ⟨hpos, hcur, fun i starter d' hi hd =>
        hprev i starter d' (hstill i starter d' hi hd) hd⟩

/-- A waiter reads the number of the current run. -/
theorem RunsWf.capture (hr : RunsWf s h) {c : Nat} {caller : Option Nat} {op : Op}
    {pc' : CallPc} (deadline : TimePoint)
    (hpc' : pc' = .waitSleep deadline s.shared.generation ∧ 0 < s.shared.generation ∨
      pc' = .returned (.seen false)) :
    RunsWf (s.setCall c (some ⟨caller, op, pc'⟩))
      { h with captured := Function.update h.captured c h.current } := by
  have hstill : ∀ j call' d', (s.setCall c (some ⟨caller, op, pc'⟩)).calls j = some call' →
      call'.pc.began? = some d' → s.calls j = some call' := by
    intro j call' d' hj hd
    rcases Sys.setCall_cases hj with ⟨rfl, heq⟩ | ⟨-, hj⟩
    · cases heq
      rcases hpc' with ⟨rfl, -⟩ | rfl <;> cases hd
    · exact hj
  refine ⟨hr.current, hr.previous, hr.bounded, hr.books, ?_, hr.worker, ?_⟩
  · intro j call' d' hj hd
    exact hr.begun j call' d' (hstill j call' d' hj hd) hd
  · intro j call' deadline' g hj hpc
    rcases Sys.setCall_cases hj with ⟨rfl, heq⟩ | ⟨hne, hj⟩
    · cases heq
      rcases hpc' with ⟨rfl, hpos⟩ | rfl
      · cases hpc
        refine ⟨hpos, fun _ => Function.update_self _ _ _, ?_⟩
        intro i starter d' hi hd hg
        have hnext := (hr.begun i starter d' (hstill i starter d' hi hd) hd).1
        omega
      · cases hpc
    · obtain ⟨hpos, hcur, hprev⟩ := hr.waits j call' deadline' g hj hpc
      simp only [Function.update_of_ne hne]
      exact ⟨hpos, hcur, fun i starter d' hi hd =>
        hprev i starter d' (hstill i starter d' hi hd) hd⟩

/-- A place that adds nothing to the history. -/
def CallPc.unrecorded : CallPc → Bool
  | .startSaved _ _ | .startArmed _ _ | .rollbackData _ _ _ | .waitCapture _ => false
  | _ => true

theorem RunHistory.atCall_unrecorded (h : RunHistory) (s : Sys) (c : Nat) (choice : CallChoice)
    {pc : CallPc} (hpc : pc.unrecorded = true) : h.atCall s c choice pc = h := by
  cases pc <;> first | rfl | cases hpc

theorem CallPc.unrecorded_of_not_resets {pc : CallPc} (h : pc.resets = false)
    (hcap : ∀ deadline, pc ≠ .waitCapture deadline) : pc.unrecorded = true := by
  cases pc <;> first | rfl | exact absurd rfl (hcap _) | cases h

theorem CallPc.began?_none_of_resets {pc : CallPc} (h : pc.resets = false) : pc.began? = none := by
  cases pc <;> first | rfl | cases h

theorem RunsWf.callMove (hr : RunsWf s h) (hwf : s.Wf) {c : Nat} {call : Call} {pc' : CallPc}
    {choice : CallChoice} (hc : s.calls c = some call)
    (hstep : callStep config c call choice s = some (pc', s'))
    (hmove : CallMove config c call.caller s call.pc pc' s')
    (hfresh : ∀ callback k, call.pc = .startSaved callback k → ∀ c' call' deadline g,
      s.calls c' = some call' → call'.pc = .waitSleep deadline g →
        g ≠ s.shared.generation + 1) :
    RunsWf (s'.setCall c (some { call with pc := pc' })) (h.atCall s c choice call.pc) := by
  obtain ⟨caller, op, pc⟩ := call
  have hbooks := hmove.books
  -- only a capture puts a call to sleep
  have hsleep : pc.unrecorded = true → ∀ deadline g, pc' ≠ .waitSleep deadline g := by
    rintro hpc deadline g rfl
    rw [show pc = .waitCapture deadline from (callStep_waitSleep hstep).1] at hpc
    cases hpc
  dsimp only at hmove hfresh hbooks ⊢
  cases hmove with
  | @wait _ _ before after =>
    by_cases hcap : ∃ deadline, pc = .waitCapture deadline
    · obtain ⟨deadline, rfl⟩ := hcap
      simp only [callStep, CallPc.part, otherStep] at hstep
      split at hstep
      · cases hstep
        exact hr.capture deadline (.inr rfl)
      · rename_i hpos
        cases hstep
        exact hr.capture deadline (.inl ⟨rfl, Nat.pos_of_ne_zero hpos⟩)
    · have hpc := CallPc.unrecorded_of_not_resets before.2 (fun d hd => hcap ⟨d, hd⟩)
      rw [h.atCall_unrecorded s c choice hpc]
      refine hr.call_keep hc rfl rfl rfl (.inl rfl) ?_ (hsleep hpc)
      rw [CallPc.began?_none_of_resets (CallPc.resets_false_of_holds after.2)]
      simp
  | take _ _ before _ after =>
    have hpc : pc.unrecorded = true := by
      refine CallPc.unrecorded_of_not_resets before.2 ?_
      rintro deadline rfl
      simp only [callStep, CallPc.part, otherStep] at hstep
      split at hstep
      all_goals
        obtain ⟨heq, -⟩ := Prod.mk.inj (Option.some.inj hstep)
        rw [← heq] at after
        cases after
    rw [h.atCall_unrecorded s c choice hpc]
    refine hr.call_keep hc rfl rfl rfl (.inl rfl) ?_ (hsleep hpc)
    intro d hd
    rw [CallPc.joins_of_holds (CallPc.holds_of_resets (CallPc.resets_of_began? hd))] at after
    cases after
  | save _ _ _ before =>
    have hpc : pc.unrecorded = true := by rcases before with rfl | rfl <;> rfl
    rw [h.atCall_unrecorded s c choice hpc]
    exact hr.call_keep hc rfl rfl rfl (.inl rfl) (fun d hd => by cases hd) (hsleep hpc)
  | reset => exact hr.begin hwf hc (hfresh _ _ rfl)
  | arm => exact hr.call_keep hc rfl rfl rfl (.inl rfl) (fun d hd => hd) (hsleep rfl)
  | spawn =>
    have hgo : choice = .go := by
      simp only [callStep, CallPc.part, startStep] at hstep
      split at hstep
      · rfl
      · cases hstep
      · cases hstep
    simp only [RunHistory.atCall, hgo, if_true]
    exact hr.spawn hc config
  | disarm =>
    have hgo : choice ≠ .go := by
      rintro rfl
      cases hstep
    simp only [RunHistory.atCall, hgo, if_false]
    exact hr.call_keep hc rfl rfl rfl (.inl rfl) (fun d hd => hd) (by simp)
  | restoreRecord =>
    exact hr.call_keep hc rfl rfl rfl (.inl rfl) (fun d hd => hd) (hsleep rfl)
  | restoreData => exact hr.withdraw hwf hc
  | clearLatch =>
    exact hr.call_keep hc rfl rfl rfl (.inl rfl) (fun d hd => by cases hd) (hsleep rfl)
  | @republish k d message =>
    refine hr.call_keep hc rfl hbooks rfl (.inl ?_) (fun d hd => by cases hd) (hsleep rfl)
    dsimp only
    split
    · exact (publish_handles _ _ _).active
    · rfl
  | request =>
    exact hr.call_keep hc rfl hbooks rfl (.inl rfl) (fun d hd => by cases hd) (hsleep rfl)
  | command event =>
    exact hr.call_keep hc rfl hbooks rfl (.inl (stopCommand_handles _ _).active)
      (fun d hd => by cases hd) (hsleep rfl)
  | stopIdle =>
    exact hr.call_keep hc rfl hbooks rfl (.inl (markStopped_handles _).active)
      (fun d hd => by cases hd) (hsleep rfl)
  | reapStart =>
    exact hr.call_keep hc rfl hbooks rfl (.inr rfl) (fun d hd => by cases hd) (hsleep rfl)
  | reapStop =>
    exact hr.call_keep hc rfl hbooks rfl (.inr rfl) (fun d hd => by cases hd) (hsleep rfl)
  | bias first second =>
    exact hr.call_keep hc rfl hbooks rfl (.inl (bias_handles _ _ _).active)
      (fun d hd => by cases hd) (hsleep rfl)
  | snapshot =>
    exact hr.call_keep hc rfl hbooks rfl (.inl rfl) (fun d hd => by cases hd) (hsleep rfl)

/-- What one step of a running thread does to the books. -/
theorem RunsWf.worker_step (hr : RunsWf s h) (hwf : s.Wf) {w : Nat} {t t' : Worker}
    {shared' : Shared} {choice : WorkerChoice} (ht : s.workers w = some t)
    (hstep : workerStep P config w choice t s.shared = some (t', shared'))
    (hmove : WorkerMove t s.shared t' shared') :
    RunsWf ((s.withShared shared').setWorker w t') (h.atWorker w t.pc) := by
  have hbooks := workerStep_books hstep
  have hw := hwf.active_of_running ht hmove.lifecycle.1
  obtain ⟨hrun, hpos⟩ := hr.worker w t hw ht
  have hactive : shared'.activeWorkerId = s.shared.activeWorkerId := hmove.lifecycle.2.2.1
  have hgen : shared'.generation = s.shared.generation := by
    rw [show shared'.generation = shared'.books.generation from rfl, hbooks]
    exact WorkerPc.writes_generation _ _
  -- a running thread means that no `start` is in its reset section
  have hnone : ∀ j call d, s.calls j = some call → call.pc.began? ≠ some d := by
    intro j call d hj hd
    have hidle := hwf.inactive_of_resets hj (CallPc.resets_of_began? hd)
    rw [hw] at hidle
    cases hidle
  have hworker : ∀ (v : Nat), shared'.activeWorkerId = some v →
      h.workerRun v = h.current ∧ 0 < shared'.generation := by
    intro v hv
    rw [hactive, hw] at hv
    cases hv
    exact ⟨hrun, hgen ▸ hpos⟩
  have hwaits : ∀ (c : Nat) (call : Call) (deadline : TimePoint) (g : Nat),
      s.calls c = some call → call.pc = .waitSleep deadline g →
      0 < g ∧ (g = shared'.generation → h.captured c = h.current) ∧
        ∀ c' call' d, s.calls c' = some call' → call'.pc.began? = some d → g = d.generation →
          h.captured c = h.previous := by
    intro c call deadline g hc hpc
    rw [hgen]
    exact hr.waits c call deadline g hc hpc
  by_cases hdel : ∃ rx outcome sample, t.pc = .delivered rx outcome sample
  · obtain ⟨rx, outcome, sample, hpc⟩ := hdel
    rw [hpc] at hbooks ⊢
    have hdelivered : shared'.deliveredGeneration = s.shared.generation :=
      congrArg RunBooks.deliveredGeneration hbooks
    refine ⟨hr.current, hr.previous, ?_, ⟨.inr (hdelivered.trans hgen.symm), ?_⟩, ?_,
      fun v u hv _ => hworker v hv, hwaits⟩
    · intro r hmem
      rcases List.mem_append.mp hmem with hold | hnew
      · exact hr.bounded r hold
      · rw [List.mem_singleton.mp hnew, hrun]
        exact hr.current
    · constructor
      · intro _
        exact List.mem_append_right _ (List.mem_singleton.mpr hrun.symm)
      · intro _
        refine ⟨hdelivered.trans hgen.symm, ?_⟩
        show 0 < shared'.generation
        rw [hgen]
        exact hpos
    · intro j call d hj hd
      exact absurd hd (hnone j call d hj)
  · have hkeep : h.atWorker w t.pc = h := by
      cases hpc : t.pc <;> first | rfl | exact absurd ⟨_, _, _, hpc⟩ hdel
    have hsame : shared'.deliveredGeneration = s.shared.deliveredGeneration := by
      rw [show shared'.deliveredGeneration = shared'.books.deliveredGeneration from rfl, hbooks]
      exact WorkerPc.writes_deliveredGeneration
        (fun rx outcome sample hpc => hdel ⟨rx, outcome, sample, hpc⟩) _
    rw [hkeep]
    refine ⟨hr.current, hr.previous, hr.bounded, ⟨?_, ?_⟩, ?_, fun v u hv _ => hworker v hv,
      hwaits⟩
    · show shared'.deliveredGeneration = 0 ∨ shared'.deliveredGeneration = shared'.generation
      rw [hsame, hgen]
      exact hr.books.either
    · show shared'.deliveredGeneration = shared'.generation ∧ 0 < shared'.generation ↔ _
      rw [hsame, hgen]
      exact hr.books.seen
    · intro j call d hj hd
      exact absurd hd (hnone j call d hj)

theorem RunsWf.step (hr : RunsWf s h) (hwf : s.Wf) {l : Label} (hfresh : FreshGeneration (s, h) l)
    (hstep : s.step P config l = some s') : RunsWf s' (h.record s l s') := by
  cases Sys.step_move hstep with
  | tick ticks =>
    exact ⟨hr.current, hr.previous, hr.bounded, hr.books, hr.begun, hr.worker, hr.waits⟩
  | places label places =>
    have hsame : h.record s l s' = h := by
      rcases label with ⟨c, caller, op, rfl⟩ | ⟨c, rfl⟩ <;> rfl
    have hold : ∀ j call d, s'.calls j = some call → call.pc.began? = some d →
        s.calls j = some call := by
      intro j call d hj hd
      rcases places.new j call hj with hj | hplain
      · exact hj
      · have hres := CallPc.resets_of_began? hd
        rw [CallPc.resets_false_of_holds (CallPc.of_plain hplain).1] at hres
        cases hres
    rw [hsame]
    refine ⟨hr.current, hr.previous, hr.bounded, ?_, ?_, ?_, ?_⟩
    · rw [places.shared]
      exact hr.books
    · intro j call d hj hd
      rw [places.shared]
      exact hr.begun j call d (hold j call d hj hd) hd
    · intro w t' hw ht'
      obtain ⟨t, ht, -⟩ := places.thread ht'
      rw [places.shared] at hw ⊢
      exact hr.worker w t hw ht
    · intro j call deadline g hj hpc
      rcases Sys.calls_new label hstep hj with hj | ⟨op, hop⟩
      · obtain ⟨hpos, hcur, hprev⟩ := hr.waits j call deadline g hj hpc
        rw [places.shared]
        exact ⟨hpos, hcur, fun i starter d hi hd => hprev i starter d (hold i starter d hi hd) hd⟩
      · rw [hpc] at hop
        cases op <;> cases hop
  | @call c call pc' u choice hc step move =>
    have hrecord : h.record s (.call c choice) (u.setCall c (some { call with pc := pc' }))
        = h.atCall s c choice call.pc := by
      simp only [RunHistory.record, hc, Option.map_some, Option.getD_some]
    rw [hrecord]
    exact hr.callMove hwf hc step move
      (fun callback k hpc => hfresh c choice call callback k rfl hc hpc)
  | @worker w t t' shared' choice ht step move =>
    have hrecord : h.record s (.worker w choice) ((s.withShared shared').setWorker w t')
        = h.atWorker w t.pc := by
      simp only [RunHistory.record, ht, Option.map_some, Option.getD_some]
    rw [hrecord]
    exact hr.worker_step hwf ht step move

theorem runsWf_of_reach {p : Sys × RunHistory} (hr : (runLts P config).Reach FreshGeneration p) :
    RunsWf p.1 p.2 := by
  refine Lts.Reach.recorded_invariant (I := RunsWf) ?_ ?_ hr
  · rintro s ⟨clock, -, rfl⟩
    refine ⟨Nat.le_refl _, Nat.le_refl _, by simp, ⟨.inl rfl, ?_⟩, ?_, ?_, ?_⟩
    · simp [Sys.new, Impl.new, Shared.books]
    · simp [Sys.new]
    · simp [Sys.new]
    · simp [Sys.new]
  · intro s history l t hok hs hstep hI
    exact hI.step (wf_of_reachable hs) hok hstep

/-- What holds of waiters and beginning runs whatever numbers are given
out: nothing is delivered while a `start` has begun a run without a
thread, and nobody sleeps with the number zero. -/
structure Sys.BegunWf (s : Sys) : Prop where
  nothing : ∀ c call d, s.calls c = some call → call.pc.began? = some d →
    s.shared.deliveredGeneration = 0
  sleeping : ∀ c call deadline g, s.calls c = some call → call.pc = .waitSleep deadline g → 0 < g

theorem Sys.BegunWf.callMove (hb : s.BegunWf) (hwf : s.Wf) {c : Nat} {call : Call} {pc' : CallPc}
    {choice : CallChoice} (hc : s.calls c = some call)
    (hstep : callStep config c call choice s = some (pc', s'))
    (hmove : CallMove config c call.caller s call.pc pc' s') :
    (s'.setCall c (some { call with pc := pc' })).BegunWf := by
  have hbooks := congrArg RunBooks.deliveredGeneration hmove.books
  constructor
  · intro j call' d hj hd
    refine Eq.trans hbooks ?_
    rcases Sys.setCall_cases hj with ⟨rfl, heq⟩ | ⟨hne, hj⟩
    · cases heq
      have hnothing := hb.nothing j call
      obtain ⟨caller, op, pc⟩ := call
      -- the place before had begun the run, or the step begins it
      dsimp only at hmove hd hnothing ⊢
      cases hmove with
      | reset => rfl
      | arm | disarm | restoreRecord => exact hnothing d hc hd
      | wait _ after =>
        rw [CallPc.began?_none_of_resets (CallPc.resets_false_of_holds after.2)] at hd
        cases hd
      | take _ _ _ _ after =>
        rw [CallPc.joins_of_holds (CallPc.holds_of_resets (CallPc.resets_of_began? hd))] at after
        cases after
      | _ => cases hd
    · rw [callMove_calls hmove] at hj
      have hres : call.pc.resets = false := by
        by_contra hne'
        have hfree := hwf.others_free hc
          (.inl (CallPc.holds_of_resets (by simpa using hne'))) hj hne
        rw [CallPc.holds_of_resets (CallPc.resets_of_began? hd)] at hfree
        cases hfree
      rw [CallPc.writes_of_not_resets hres]
      exact hb.nothing j call' d hj hd
  · intro j call' deadline g hj hpc
    rcases Sys.setCall_cases hj with ⟨rfl, heq⟩ | ⟨-, hj⟩
    · cases heq
      obtain rfl : pc' = .waitSleep deadline g := hpc
      exact (callStep_waitSleep hstep).2.2
    · exact hb.sleeping j call' deadline g (callMove_calls hmove ▸ hj) hpc

theorem Sys.BegunWf.step (hb : s.BegunWf) (hwf : s.Wf) {l : Label}
    (hstep : s.step P config l = some s') : s'.BegunWf := by
  cases Sys.step_move hstep with
  | tick ticks => exact ⟨hb.nothing, hb.sleeping⟩
  | places label places =>
    constructor
    · intro j call d hj hd
      rw [places.shared]
      rcases Sys.calls_new label hstep hj with hj | ⟨op, hop⟩
      · exact hb.nothing j call d hj hd
      · rw [hop] at hd
        cases op <;> cases hd
    · intro j call deadline g hj hpc
      rcases Sys.calls_new label hstep hj with hj | ⟨op, hop⟩
      · exact hb.sleeping j call deadline g hj hpc
      · rw [hpc] at hop
        cases op <;> cases hop
  | call choice hc step move => exact hb.callMove hwf hc step move
  | worker choice ht step move =>
    refine ⟨?_, hb.sleeping⟩
    intro j call d hj hd
    have hidle := hwf.inactive_of_resets hj (CallPc.resets_of_began? hd)
    rw [hwf.active_of_running ht move.lifecycle.1] at hidle
    cases hidle

theorem begunWf_of_reachable (h : (clientLts P config).Reachable s) : s.BegunWf := by
  refine Lts.Reach.invariant_using (K := Sys.Wf) (fun s hs => wf_of_reachable hs) ?_ ?_ h
  · rintro s ⟨clock, -, rfl⟩
    exact ⟨by simp [Sys.new], by simp [Sys.new]⟩
  · exact fun s l t _ hstep hwf _ hb => hb.step hwf hstep

end System

/-- What a waiter that returns true has seen. -/
theorem waitSleep_true {P : Platform} {config : Config} {s t : Sys} {c : Nat}
    {caller : Option Nat} {op : Op} {deadline : TimePoint} {g : Nat} {choice : CallChoice}
    (hc : s.calls c = some ⟨caller, op, .waitSleep deadline g⟩)
    (hstep : s.step P config (.call c choice) = some t)
    (ht : t.calls c = some ⟨caller, op, .returned (.seen true)⟩) :
    s.shared.generation = g ∧ s.shared.deliveredGeneration = g := by
  simp only [Sys.step, hc, callStep, CallPc.part, otherStep] at hstep
  split at hstep
  · simp only [Option.map_some, Option.some.injEq] at hstep
    rw [← hstep, Sys.setCall_calls_self] at ht
    simpa using ht
  · cases hstep

/-- **A wait answers for its run.** In every run of the client in which
no `start` gives out a number that a sleeping waiter holds: a
`wait_for_first_sample` that returns true captured its number in a run
whose receive thread has delivered a sample. And whenever no `start` is
in its reset section, `delivered_generation_` is zero or the current
number, and it is a current number above zero exactly if the current run
has delivered. -/
theorem wait_answers_for_its_run (P : Platform) (config : Config) {s : Sys} {h : RunHistory}
    (hreach : (runLts P config).Reach FreshGeneration (s, h)) :
    (∀ c caller op deadline g choice t, s.calls c = some ⟨caller, op, .waitSleep deadline g⟩ →
      s.step P config (.call c choice) = some t →
      t.calls c = some ⟨caller, op, .returned (.seen true)⟩ → h.captured c ∈ h.delivered) ∧
      ((∀ c call, s.calls c = some call → call.pc.resets = false) →
        (s.shared.deliveredGeneration = 0 ∨
          s.shared.deliveredGeneration = s.shared.generation) ∧
        (s.shared.deliveredGeneration = s.shared.generation ∧ 0 < s.shared.generation ↔
          h.current ∈ h.delivered)) := by
  have hr := runsWf_of_reach hreach
  refine ⟨?_, fun _ => ⟨hr.books.either, hr.books.seen⟩⟩
  intro c caller op deadline g choice t hc hstep ht
  obtain ⟨hgen, hdel⟩ := waitSleep_true hc hstep ht
  obtain ⟨hpos, hcur, -⟩ := hr.waits c _ deadline g hc rfl
  rw [hcur hgen.symm]
  refine hr.books.seen.mp ⟨?_, ?_⟩
  · exact hdel.trans hgen.symm
  · show 0 < s.shared.generation
    rw [hgen]
    exact hpos

/-! ## Two runs -/

/-- No step of a `start` into its reset section. -/
def beginsNoRun (p : Sys × RunHistory) : Label → Bool
  | .call c _ =>
      match p.1.calls c with
      | some ⟨_, _, .startSaved _ _⟩ => false
      | _ => true
  | _ => true

theorem freshGeneration_of_beginsNoRun {p : Sys × RunHistory} {l : Label}
    (h : beginsNoRun p l = true) : FreshGeneration p l := by
  rintro c choice ⟨caller, op, pc⟩ callback k rfl hc hpc
  have hpc' : pc = .startSaved callback k := hpc
  subst hpc'
  simp only [beginsNoRun, hc] at h
  cases h

theorem overrideRuns_init : (runLts exactPlatform overrideConfig).Reach FreshGeneration
    (Sys.new overrideConfig 1000, {}) :=
  .init ⟨⟨1000, overrideConfig_valid, rfl⟩, rfl⟩

/-- The first run of a client begins: its number is free. -/
theorem first_run_reach : ∃ p, (runLts exactPlatform overrideConfig).Reach FreshGeneration p ∧
    (runLts exactPlatform overrideConfig).exec (Sys.new overrideConfig 1000, {})
      [.invoke 0 none (.start (some 7)), .call 0 .go, .call 0 .go] = some p := by
  have hinvoked := Lts.Reach.step (l := .invoke 0 none (.start (some 7))) overrideRuns_init
    (freshGeneration_of_beginsNoRun rfl) rfl
  have hsaved := Lts.Reach.step (l := .call 0 .go) hinvoked
    (freshGeneration_of_beginsNoRun rfl) rfl
  refine ⟨_, Lts.Reach.step (l := .call 0 .go) hsaved ?_ rfl, rfl⟩
  -- the only call there is is the `start` itself
  intro _ _ _ _ _ _ _ _ c call deadline g hc hpc
  rcases Sys.setCall_cases hc with ⟨-, heq⟩ | ⟨hne, hc⟩
  · cases heq
    cases hpc
  · rcases Sys.setCall_cases hc with ⟨rfl, -⟩ | ⟨-, hc⟩
    · exact absurd rfl hne
    · cases hc

/-- A `wait_for_first_sample` up to its sleep. -/
def waiterSleeps : List Label :=
  [.invoke 1 none (.waitForFirstSample (.finite 1000)), .call 1 .go, .call 1 .go]

/-- A waiter of a run that delivers is answered for that run. -/
theorem wait_answers_delivered :
    ∃ s h t, (runLts exactPlatform overrideConfig).Reach FreshGeneration (s, h) ∧
      s.step exactPlatform overrideConfig (.call 1 .go) = some t ∧
      t.calls 1 = some ⟨none, .waitForFirstSample (.finite 1000), .returned (.seen true)⟩ ∧
      h.captured 1 ∈ h.delivered := by
  obtain ⟨⟨s, h⟩, hs, hp⟩ := Lts.exists_of_exec_checked
    (l := [.call 0 .go, .call 0 .go] ++ waiterSleeps ++ streamingRun.drop 5)
    (p := fun q : Sys × RunHistory => decide (q.1.calls 1 = some ⟨none,
        .waitForFirstSample (.finite 1000), .waitSleep 1000000001000 1⟩ ∧
      ((q.1.step exactPlatform overrideConfig (.call 1 .go)).bind (·.calls 1)) = some ⟨none,
        .waitForFirstSample (.finite 1000), .returned (.seen true)⟩))
    beginsNoRun (fun _ _ => freshGeneration_of_beginsNoRun) first_run_reach (by decide +kernel)
  obtain ⟨hc, hanswer⟩ := of_decide_eq_true hp
  obtain ⟨t, hstep, ht⟩ := Option.bind_eq_some_iff.mp hanswer
  exact ⟨s, h, t, hs, hstep, ht,
    (wait_answers_for_its_run exactPlatform overrideConfig hs).1 1 _ _ _ _ .go t hc hstep ht⟩

/-- A `start` that gets no thread, with a waiter that reads the number of
its run, and a second `start` whose run delivers. -/
def reusedGenerationRun : List Label :=
  [.invoke 0 none (.start (some 7)), .call 0 .go, .call 0 .go] ++ waiterSleeps ++
  [.call 0 .go, .call 0 (.threadFails "no thread"), .call 0 .go, .call 0 .go, .call 0 .go,
   .call 0 .go, .collect 0] ++ streamingRun

/-- The waiter of the run that failed is told that a sample has come:
it is the one of the next run. -/
theorem wait_answers_for_a_later_run :
    ∃ s h t, (runLts exactPlatform overrideConfig).Reachable (s, h) ∧
      s.step exactPlatform overrideConfig (.call 1 .go) = some t ∧
      t.calls 1 = some ⟨none, .waitForFirstSample (.finite 1000), .returned (.seen true)⟩ ∧
      h.captured 1 = 1 ∧ h.delivered = [2] := by
  obtain ⟨⟨s, h⟩, hs, hp⟩ := Lts.exists_of_exec (l := reusedGenerationRun)
    (p := fun q : Sys × RunHistory => decide (
      ((q.1.step exactPlatform overrideConfig (.call 1 .go)).bind (·.calls 1)) = some ⟨none,
        .waitForFirstSample (.finite 1000), .returned (.seen true)⟩ ∧
      q.2.captured 1 = 1 ∧ q.2.delivered = [2]))
    overrideRuns_init.reachable (by decide +kernel)
  obtain ⟨hanswer, hcaptured, hdelivered⟩ := of_decide_eq_true hp
  obtain ⟨t, hstep, ht⟩ := Option.bind_eq_some_iff.mp hanswer
  exact ⟨s, h, t, hs, hstep, ht, hcaptured, hdelivered⟩

end PyNetFT.Core
