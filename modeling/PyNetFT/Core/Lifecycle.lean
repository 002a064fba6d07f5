/-
PyNetFT.Core.Lifecycle — one receive thread at a time.

The members `worker_`, `active_worker_id_`, `joining_` and
`worker_exited_` together say which of three situations the client is
in: IDLE (no thread to join), HELD (the latest thread is joinable) or
REAPING (one call has taken the handle and is joining it). `Sys.Wf`
states that, ties it to the program counters of all calls and threads,
and is kept by every step.
-/
import PyNetFT.Core.CallTheorems
import PyNetFT.Core.WorkerTheorems

namespace PyNetFT.Core

open PyNetFT.Lib

/-! ## The three situations -/

/-- No call is joining. -/
def Sys.NoJoin (s : Sys) : Prop :=
  ∀ c call, s.calls c = some call → call.pc.joins = none

structure Sys.Idle (s : Sys) : Prop where
  worker : s.shared.worker = none
  active : s.shared.activeWorkerId = none
  joining : s.shared.joining = false
  created : s.created = s.joined.length
  joins : s.NoJoin

structure Sys.Held (s : Sys) : Prop where
  worker : s.shared.worker = some s.joined.length
  active : s.shared.activeWorkerId = some s.joined.length
  joining : s.shared.joining = false
  created : s.created = s.joined.length + 1
  joins : s.NoJoin

/-- The call `c`, and no other, is joining the latest thread. -/
structure Sys.Reaping (s : Sys) (c : Nat) : Prop where
  worker : s.shared.worker = none
  active : s.shared.activeWorkerId = some s.joined.length
  joining : s.shared.joining = true
  created : s.created = s.joined.length + 1
  joins : ∀ c' call, s.calls c' = some call →
    call.pc.joins = if c' = c then some s.joined.length else none
  present : (s.calls c).isSome = true

inductive Sys.Slot (s : Sys) : Prop where
  | idle (h : s.Idle)
  | held (h : s.Held)
  | reaping (c : Nat) (h : s.Reaping c)

/-! ## The invariant -/

/-- What the places of the calls say about locks and callers. -/
structure Sys.CallsWf (s : Sys) : Prop where
  owner : ∀ c, s.lifecycle = some c ↔ ∃ call, s.calls c = some call ∧ call.pc.holds = true
  nested : ∀ c call w, s.calls c = some call → call.caller = some w →
    ∃ t, s.workers w = some t ∧ t.nested = some c
  outside : ∀ c call, s.calls c = some call → call.pc.outside = true → call.caller = none
  resets : ∀ c call, s.calls c = some call → call.pc.resets = true →
    s.shared.worker = none ∧ s.shared.joining = false
  saved : ∀ c call k, s.calls c = some call → call.pc.control? = some k → k.workerExited = true

/-- What the places of the threads say about `worker_exited_`. -/
structure Sys.WorkersWf (s : Sys) : Prop where
  created : ∀ w, (s.workers w).isSome = true ↔ w < s.created
  others : ∀ w t, s.workers w = some t → s.shared.activeWorkerId ≠ some w → t.pc = .done
  waiting : ∀ w t, s.workers w = some t → t.nested.isSome = true → t.pc.phase = .open
  exited : ∀ w t, s.shared.activeWorkerId = some w → s.workers w = some t →
    (s.shared.workerExited = true ↔ t.pc.phase = .exited ∨ t.pc.phase = .done)
  idle : s.shared.activeWorkerId = none →
    (∀ c call, s.calls c = some call → call.pc.armed = false) → s.shared.workerExited = true
  armed : ∀ c call, s.calls c = some call → call.pc.armed = true → s.shared.workerExited = false

structure Sys.Wf (s : Sys) : Prop where
  calls : s.CallsWf
  slot : s.Slot
  workers : s.WorkersWf
  joined : s.joined.map Prod.fst = List.range s.joined.length
  joiners : ∀ p ∈ s.joined, p.2 = none

/-! ## Initially -/

theorem Sys.wf_new (config : Config) (clock : TimePoint) : (Sys.new config clock).Wf where
  calls :=
    { owner := by simp [Sys.new]
      nested := by simp [Sys.new]
      outside := by simp [Sys.new]
      resets := by simp [Sys.new]
      saved := by simp [Sys.new] }
  slot := .idle ⟨rfl, rfl, rfl, rfl, by simp [Sys.new, Sys.NoJoin]⟩
  workers :=
    { created := by simp [Sys.new]
      others := by simp [Sys.new]
      waiting := by simp [Sys.new]
      exited := by simp [Sys.new]
      idle := by intros; rfl
      armed := by simp [Sys.new] }
  joined := rfl
  joiners := by simp [Sys.new]

/-! ## Consequences used by the step lemmas -/

section Facts

variable {s : Sys}

/-- The lock has one owner. -/
theorem Sys.Wf.owner_unique (h : s.Wf) {c c' : Nat} {call call' : Call}
    (hc : s.calls c = some call) (hholds : call.pc.holds = true)
    (hc' : s.calls c' = some call') (hholds' : call'.pc.holds = true) : c = c' := by
  have h1 := (h.calls.owner c).mpr ⟨call, hc, hholds⟩
  have h2 := (h.calls.owner c').mpr ⟨call', hc', hholds'⟩
  rw [h1] at h2
  exact Option.some.inj h2

/-- While the lock is free nobody is inside a locked section. -/
theorem Sys.Wf.holds_false_of_free (h : s.Wf) (hfree : s.lifecycle = none) {c : Nat} {call : Call}
    (hc : s.calls c = some call) : call.pc.holds = false := by
  by_contra hne
  have := (h.calls.owner c).mpr ⟨call, hc, by simpa using hne⟩
  rw [hfree] at this
  cases this

/-- A call made by a receive thread finds that thread running. -/
theorem Sys.Wf.calledByWorker (h : s.Wf) {c w : Nat} {call : Call} (hc : s.calls c = some call)
    (hcaller : call.caller = some w) : s.shared.calledByWorker call.caller = true := by
  obtain ⟨t, ht, hnested⟩ := h.calls.nested c call w hc hcaller
  have hphase := h.workers.waiting w t ht (by rw [hnested]; rfl)
  have hactive : s.shared.activeWorkerId = some w := by
    by_contra hne
    have := h.workers.others w t ht hne
    rw [this] at hphase
    cases hphase
  have hexited : s.shared.workerExited = false := by
    have := h.workers.exited w t hactive ht
    rw [hphase] at this
    simpa using this
  simp [Shared.calledByWorker, hexited, hcaller, hactive]

/-- So a call that got past the self check comes from another thread. -/
theorem Sys.Wf.caller_none (h : s.Wf) {c : Nat} {call : Call} (hc : s.calls c = some call)
    (hself : s.shared.calledByWorker call.caller = false) : call.caller = none := by
  cases hcaller : call.caller with
  | none => rfl
  | some w =>
    have := h.calledByWorker hc hcaller
    rw [hself] at this
    cases this

theorem Sys.Wf.active_of_running (h : s.Wf) {w : Nat} {t : Worker} (ht : s.workers w = some t)
    (hrun : t.pc.phase ≠ .done) : s.shared.activeWorkerId = some w := by
  by_contra hne
  have := h.workers.others w t ht hne
  rw [this] at hrun
  exact hrun rfl

end Facts

/-! ## Steps that leave the threads alone -/

/-- The members the three situations are about did not change. -/
structure Sys.SameSlots (s s' : Sys) : Prop where
  worker : s'.shared.worker = s.shared.worker
  active : s'.shared.activeWorkerId = s.shared.activeWorkerId
  joining : s'.shared.joining = s.shared.joining
  workers : s'.workers = s.workers
  created : s'.created = s.created
  joined : s'.joined = s.joined

@[simp] theorem Sys.setCall_calls_self (s : Sys) (c : Nat) (call : Option Call) :
    (s.setCall c call).calls c = call := by
  simp [Sys.setCall]

theorem Sys.setCall_calls_of_ne (s : Sys) {c c' : Nat} (call : Option Call) (h : c' ≠ c) :
    (s.setCall c call).calls c' = s.calls c' := by
  simp [Sys.setCall, h]

@[simp] theorem Sys.setCall_shared (s : Sys) (c : Nat) (call : Option Call) :
    (s.setCall c call).shared = s.shared := rfl

@[simp] theorem Sys.setCall_lifecycle (s : Sys) (c : Nat) (call : Option Call) :
    (s.setCall c call).lifecycle = s.lifecycle := rfl

@[simp] theorem Sys.setCall_workers (s : Sys) (c : Nat) (call : Option Call) :
    (s.setCall c call).workers = s.workers := rfl

@[simp] theorem Sys.setCall_created (s : Sys) (c : Nat) (call : Option Call) :
    (s.setCall c call).created = s.created := rfl

@[simp] theorem Sys.setCall_joined (s : Sys) (c : Nat) (call : Option Call) :
    (s.setCall c call).joined = s.joined := rfl

/-- Either the call that was set, or one that was there before. -/
theorem Sys.setCall_cases {s : Sys} {c c' : Nat} {call' : Call} {call : Option Call}
    (h : (s.setCall c call).calls c' = some call') :
    c' = c ∧ call = some call' ∨ c' ≠ c ∧ s.calls c' = some call' := by
  by_cases hc : c' = c
  · subst hc
    rw [Sys.setCall_calls_self] at h
    exact .inl ⟨rfl, h⟩
  · rw [Sys.setCall_calls_of_ne s call hc] at h
    exact .inr ⟨hc, h⟩

section Calls

variable {s s' : Sys} {c : Nat} {call : Call} {pc' : CallPc}

/-- Who owns the lock after a step of the call `c` to `pc'`. -/
def Sys.lockAfter (s : Sys) (c : Nat) (pc pc' : CallPc) : Option Nat :=
  if pc'.holds then some c else if pc.holds then none else s.lifecycle

theorem Sys.Wf.owner_step (h : s.Wf) (hc : s.calls c = some call) (hcalls : s'.calls = s.calls)
    (hlock : s'.lifecycle = s.lockAfter c call.pc pc')
    (hfree : pc'.holds = true → call.pc.holds = false → s.lifecycle = none) (k : Nat) :
    s'.lifecycle = some k ↔
      ∃ call', (s'.setCall c (some { call with pc := pc' })).calls k = some call' ∧
        call'.pc.holds = true := by
  by_cases hk : k = c
  · subst hk
    have hself := h.calls.owner k
    simp only [Sys.setCall_calls_self, Option.some.injEq, exists_eq_left', hlock,
      Sys.lockAfter]
    split
    · simp_all
    · rename_i hpc'
      split
      · simp_all
      · rename_i hpc
        simp_all
  · rw [Sys.setCall_calls_of_ne _ _ hk, hcalls, ← h.calls.owner k, hlock, Sys.lockAfter]
    have hkc : ¬ c = k := fun e => hk e.symm
    split
    · rename_i hpc'
      -- the lock was free or already ours, so it was not theirs
      by_cases hpc : call.pc.holds = true
      · have := (h.calls.owner c).mpr ⟨call, hc, hpc⟩
        simp [this]
      · have := hfree hpc' (by simpa using hpc)
        simp [this, hkc]
    · split
      · rename_i hpc
        have := (h.calls.owner c).mpr ⟨call, hc, hpc⟩
        simp [this, hkc]
      · rfl

/-- The fields of `CallsWf` other than the owner, after a step of one
call, when its new place asks for nothing that does not hold. -/
theorem Sys.Wf.calls_step (h : s.Wf) (hc : s.calls c = some call) (hcalls : s'.calls = s.calls)
    (hworkers : ∀ w t, s.workers w = some t → ∃ t', s'.workers w = some t' ∧ t'.nested = t.nested)
    (hlock : s'.lifecycle = s.lockAfter c call.pc pc')
    (hfree : pc'.holds = true → call.pc.holds = false → s.lifecycle = none)
    (hslot : s'.shared.worker = s.shared.worker ∧ s'.shared.joining = s.shared.joining ∨
      ∀ k call', s.calls k = some call' → k ≠ c → call'.pc.resets = false)
    (hout : pc'.outside = true → call.caller = none)
    (hres : pc'.resets = true → s'.shared.worker = none ∧ s'.shared.joining = false)
    (hsaved : ∀ k, pc'.control? = some k → k.workerExited = true) :
    (s'.setCall c (some { call with pc := pc' })).CallsWf where
  owner := h.owner_step hc hcalls hlock hfree
  nested := by
    intro k call' w hk hcaller
    have hold : ∃ t, s.workers w = some t ∧ t.nested = some k := by
      rcases Sys.setCall_cases hk with ⟨rfl, heq⟩ | ⟨-, hk⟩
      · cases heq
        exact h.calls.nested _ _ _ hc hcaller
      · rw [hcalls] at hk
        exact h.calls.nested _ _ _ hk hcaller
    obtain ⟨t, ht, hnested⟩ := hold
    obtain ⟨t', ht', heq⟩ := hworkers w t ht
    exact ⟨t', ht', heq.trans hnested⟩
  outside := by
    intro k call' hk hpc
    rcases Sys.setCall_cases hk with ⟨rfl, heq⟩ | ⟨-, hk⟩
    · cases heq
      exact hout hpc
    · rw [hcalls] at hk
      exact h.calls.outside _ _ hk hpc
  resets := by
    intro k call' hk hpc
    rcases Sys.setCall_cases hk with ⟨rfl, heq⟩ | ⟨hne, hk⟩
    · cases heq
      exact hres hpc
    · rw [hcalls] at hk
      rcases hslot with ⟨hworker, hjoining⟩ | hnone
      · rw [Sys.setCall_shared, hworker, hjoining]
        exact h.calls.resets _ _ hk hpc
      · rw [hnone _ _ hk hne] at hpc
        cases hpc
  saved := by
    intro k call' control hk hpc
    rcases Sys.setCall_cases hk with ⟨rfl, heq⟩ | ⟨-, hk⟩
    · cases heq
      exact hsaved _ hpc
    · rw [hcalls] at hk
      exact h.calls.saved _ _ _ hk hpc

theorem Sys.Wf.held_of_worker (h : s.Wf) {w : Nat} (hw : s.shared.worker = some w) :
    s.Held ∧ w = s.joined.length := by
  cases h.slot with
  | idle hi =>
    rw [hi.worker] at hw
    cases hw
  | held hh =>
    rw [hh.worker] at hw
    exact ⟨hh, (Option.some.inj hw).symm⟩
  | reaping k hr =>
    rw [hr.worker] at hw
    cases hw

theorem Sys.Wf.idle_of_no_worker (h : s.Wf) (hw : s.shared.worker = none)
    (hj : s.shared.joining = false) : s.Idle := by
  cases h.slot with
  | idle hi => exact hi
  | held hh =>
    rw [hh.worker] at hw
    cases hw
  | reaping k hr =>
    rw [hr.joining] at hj
    cases hj

theorem Sys.Wf.idle_of_resets (h : s.Wf) (hc : s.calls c = some call)
    (hres : call.pc.resets = true) : s.Idle := by
  obtain ⟨hworker, hjoining⟩ := h.calls.resets _ _ hc hres
  exact h.idle_of_no_worker hworker hjoining

theorem Sys.Wf.inactive_of_resets (h : s.Wf) (hc : s.calls c = some call)
    (hres : call.pc.resets = true) : s.shared.activeWorkerId = none :=
  (h.idle_of_resets hc hres).active

/-- A step of a call that leaves the threads and the handles alone and is
neither at nor before a join. `worker_exited_` may change only inside the
reset section of `start`. -/
theorem Sys.Wf.call_keep (h : s.Wf) (hc : s.calls c = some call) (hcalls : s'.calls = s.calls)
    (hslots : s.SameSlots s')
    (hlock : s'.lifecycle = s.lockAfter c call.pc pc')
    (hfree : pc'.holds = true → call.pc.holds = false → s.lifecycle = none)
    (hjoins : call.pc.joins = none ∧ pc'.joins = none)
    (hexited : s'.shared.workerExited = s.shared.workerExited ∧ call.pc.armed = false ∧
        pc'.armed = false ∨
      call.pc.resets = true ∧ s'.shared.workerExited = !pc'.armed)
    (hout : pc'.outside = true → call.caller = none)
    (hres : pc'.resets = true → s.shared.worker = none ∧ s.shared.joining = false)
    (hsaved : ∀ k, pc'.control? = some k → k.workerExited = true) :
    (s'.setCall c (some { call with pc := pc' })).Wf := by
  have hnoJoin : s.NoJoin → (s'.setCall c (some { call with pc := pc' })).NoJoin := by
    intro hn k call' hk
    rcases Sys.setCall_cases hk with ⟨rfl, heq⟩ | ⟨-, hk⟩
    · cases heq
      exact hjoins.2
    · rw [hcalls] at hk
      exact hn _ _ hk
  refine ⟨?_, ?_, ?_, ?_, ?_⟩
  · refine h.calls_step hc hcalls ?_ hlock hfree (.inl ⟨hslots.worker, hslots.joining⟩) hout ?_
      hsaved
    · intro w t ht
      exact ⟨t, by rw [hslots.workers]; exact ht, rfl⟩
    · intro hpc
      rw [hslots.worker, hslots.joining]
      exact hres hpc
  · cases h.slot with
    | idle hi =>
      refine .idle ⟨?_, ?_, ?_, ?_, hnoJoin hi.joins⟩
      · exact hslots.worker.trans hi.worker
      · exact hslots.active.trans hi.active
      · exact hslots.joining.trans hi.joining
      · simp only [Sys.setCall_created, Sys.setCall_joined, hslots.created, hslots.joined,
          hi.created]
    | held hh =>
      refine .held ⟨?_, ?_, ?_, ?_, hnoJoin hh.joins⟩ <;>
        simp only [Sys.setCall_shared, Sys.setCall_created, Sys.setCall_joined, hslots.created,
          hslots.joined, hslots.worker, hslots.active, hslots.joining, hh.worker, hh.active,
          hh.joining, hh.created]
    | reaping k hr =>
      have hne : c ≠ k := by
        rintro rfl
        have := hr.joins _ _ hc
        rw [hjoins.1, if_pos rfl] at this
        cases this
      refine .reaping k ⟨?_, ?_, ?_, ?_, ?_, ?_⟩
      · exact hslots.worker.trans hr.worker
      · simp only [Sys.setCall_shared, Sys.setCall_joined, hslots.active, hslots.joined, hr.active]
      · exact hslots.joining.trans hr.joining
      · simp only [Sys.setCall_created, Sys.setCall_joined, hslots.created, hslots.joined,
          hr.created]
      · intro c' call' hk
        rcases Sys.setCall_cases hk with ⟨rfl, heq⟩ | ⟨-, hk⟩
        · cases heq
          rw [if_neg hne]
          exact hjoins.2
        · rw [hcalls] at hk
          rw [Sys.setCall_joined, hslots.joined]
          exact hr.joins _ _ hk
      · rw [Sys.setCall_calls_of_ne _ _ hne.symm, hcalls]
        exact hr.present
  · refine ⟨?_, ?_, ?_, ?_, ?_, ?_⟩ <;>
      simp only [Sys.setCall_workers, Sys.setCall_created, Sys.setCall_shared, hslots.workers,
        hslots.created, hslots.active]
    · exact h.workers.created
    · exact h.workers.others
    · exact h.workers.waiting
    · intro w t hactive ht
      rcases hexited with ⟨hsame, -, -⟩ | ⟨hresets, -⟩
      · rw [hsame]
        exact h.workers.exited w t hactive ht
      · rw [h.inactive_of_resets hc hresets] at hactive
        cases hactive
    · intro hactive hall
      rcases hexited with ⟨hsame, harmed, -⟩ | ⟨-, hset⟩
      · rw [hsame]
        refine h.workers.idle hactive ?_
        intro k call' hk
        by_cases hkc : k = c
        · subst hkc
          rw [hc] at hk
          cases hk
          exact harmed
        · exact hall k call' (by rw [Sys.setCall_calls_of_ne _ _ hkc, hcalls]; exact hk)
      · have hself : pc'.armed = false := hall c _ (Sys.setCall_calls_self _ _ _)
        rw [hset, hself]
        rfl
    · intro k call' hk hpc
      rcases Sys.setCall_cases hk with ⟨rfl, heq⟩ | ⟨hne, hk⟩
      · cases heq
        rcases hexited with ⟨-, -, harmed⟩ | ⟨-, hset⟩
        · rw [harmed] at hpc
          cases hpc
        · rw [hset, show pc'.armed = true from hpc]
          rfl
      · rw [hcalls] at hk
        rcases hexited with ⟨hsame, -, -⟩ | ⟨hresets, -⟩
        · rw [hsame]
          exact h.workers.armed k call' hk hpc
        · exact absurd (h.owner_unique hk (CallPc.holds_of_resets (CallPc.resets_of_armed hpc)) hc
            (CallPc.holds_of_resets hresets)) hne
  · rw [Sys.setCall_joined, hslots.joined]
    exact h.joined
  · rw [Sys.setCall_joined, hslots.joined]
    exact h.joiners

/-- A step inside the reset section of `start`. -/
theorem Sys.Wf.reset_keep (h : s.Wf) (hc : s.calls c = some call) (hres : call.pc.resets = true)
    (hres' : pc'.resets = true) (hcalls : s'.calls = s.calls) (hslots : s.SameSlots s')
    (hlock : s'.lifecycle = s.lifecycle) (hcontrol : pc'.control? = call.pc.control?)
    (hexited : s'.shared.workerExited = s.shared.workerExited ∧ call.pc.armed = false ∧
        pc'.armed = false ∨ s'.shared.workerExited = !pc'.armed) :
    (s'.setCall c (some { call with pc := pc' })).Wf := by
  have hholds := CallPc.holds_of_resets hres
  have hjoins : ∀ {pc : CallPc}, pc.resets = true → pc.joins = none := by
    intro pc hpc
    cases pc <;> simp_all [CallPc.resets, CallPc.joins]
  refine h.call_keep hc hcalls hslots ?_ ?_ ⟨hjoins hres, hjoins hres'⟩ ?_ ?_ ?_ ?_
  · rw [hlock, Sys.lockAfter, CallPc.holds_of_resets hres']
    exact (h.calls.owner c).mpr ⟨call, hc, hholds⟩
  · intro _ hpc
    rw [hholds] at hpc
    cases hpc
  · exact hexited.imp_right fun hset => ⟨hres, hset⟩
  · exact fun _ => h.calls.outside _ _ hc (CallPc.outside_of_resets hres)
  · exact fun _ => h.calls.resets _ _ hc hres
  · intro k hk
    exact h.calls.saved _ _ _ hc (hcontrol ▸ hk)

/-- The common case: the call moves to a place of no consequence. -/
theorem Sys.Wf.call_plain (h : s.Wf) (hc : s.calls c = some call) (hplain : pc'.plain = true)
    (hcalls : s'.calls = s.calls) (hslots : s.SameSlots s')
    (hexited : s'.shared.workerExited = s.shared.workerExited)
    (hlock : s'.lifecycle = if call.pc.holds then none else s.lifecycle)
    (hjoins : call.pc.joins = none) (harmed : call.pc.armed = false) :
    (s'.setCall c (some { call with pc := pc' })).Wf := by
  obtain ⟨hholds', hjoins', hout'⟩ := CallPc.of_plain hplain
  have hresets' := CallPc.resets_false_of_holds hholds'
  refine h.call_keep hc hcalls hslots ?_ ?_ ⟨hjoins, hjoins'⟩
    (.inl ⟨hexited, harmed, CallPc.armed_false_of_holds hholds'⟩) ?_ ?_ ?_
  · rw [hlock, Sys.lockAfter, hholds']
    rfl
  · intro hpc
    rw [hholds'] at hpc
    cases hpc
  · intro hpc
    rw [hout'] at hpc
    cases hpc
  · intro hpc
    rw [hresets'] at hpc
    cases hpc
  · intro k hk
    rw [CallPc.resets_of_control? hk] at hresets'
    cases hresets'

/-! ## Taking the handle, joining, starting a thread -/

theorem Sys.Wf.reaping_of_joins (h : s.Wf) (hc : s.calls c = some call) {w : Nat}
    (hw : call.pc.joins = some w) : s.Reaping c ∧ w = s.joined.length := by
  cases h.slot with
  | idle hi =>
    rw [hi.joins _ _ hc] at hw
    cases hw
  | held hh =>
    rw [hh.joins _ _ hc] at hw
    cases hw
  | reaping k hr =>
    have := hr.joins _ _ hc
    rw [hw] at this
    split at this
    · rename_i heq
      subst heq
      exact ⟨hr, Option.some.inj this⟩
    · cases this

/-- The locked section that moves `worker_` out and sets `joining_`. -/
theorem Sys.Wf.take (h : s.Wf) (hc : s.calls c = some call) {w : Nat}
    (hw : s.shared.worker = some w) (hpc' : pc'.joins = some w) (hholds : pc'.holds = false)
    (hothers : ∀ k call', s.calls k = some call' → k ≠ c → call'.pc.holds = false)
    (hcaller : call.caller = none) (lifecycle : Option Nat)
    (hlock : lifecycle = s.lockAfter c call.pc pc') :
    (({ s with
        lifecycle := lifecycle
        shared := { s.shared with joining := true, worker := none } } : Sys).setCall c
      (some { call with pc := pc' })).Wf := by
  obtain ⟨hheld, rfl⟩ := h.held_of_worker hw
  have hresets' : pc'.resets = false := CallPc.resets_false_of_holds hholds
  refine ⟨?_, ?_, ?_, h.joined, h.joiners⟩
  · refine h.calls_step hc rfl ?_ hlock ?_ (.inr ?_) ?_ ?_ ?_
    · exact fun w t ht => ⟨t, ht, rfl⟩
    · intro hpc
      rw [hholds] at hpc
      cases hpc
    · exact fun k call' hk hne => CallPc.resets_false_of_holds (hothers k call' hk hne)
    · exact fun _ => hcaller
    · intro hpc
      rw [hresets'] at hpc
      cases hpc
    · intro k hk
      rw [CallPc.resets_of_control? hk] at hresets'
      cases hresets'
  · refine .reaping c ⟨rfl, hheld.active, rfl, hheld.created, ?_, ?_⟩
    · intro k call' hk
      rcases Sys.setCall_cases hk with ⟨rfl, heq⟩ | ⟨hne, hk⟩
      · cases heq
        rw [if_pos rfl]
        exact hpc'
      · rw [if_neg hne]
        exact hheld.joins _ _ hk
    · rw [Sys.setCall_calls_self]
      rfl
  · refine ⟨h.workers.created, h.workers.others, h.workers.waiting, h.workers.exited, ?_, ?_⟩
    · intro hactive
      have := hheld.active
      rw [Sys.setCall_shared] at hactive
      rw [show s.shared.activeWorkerId = none from hactive] at this
      cases this
    · intro k call' hk hpc
      have hresets := CallPc.resets_of_armed hpc
      rcases Sys.setCall_cases hk with ⟨rfl, heq⟩ | ⟨hne, hk⟩
      · cases heq
        rw [hresets'] at hresets
        cases hresets
      · have := hothers k call' hk hne
        rw [CallPc.holds_of_resets hresets] at this
        cases this

/-- The join of a finished thread and the locked section after it. -/
theorem Sys.Wf.reap (h : s.Wf) (hc : s.calls c = some call) {w : Nat}
    (hw : call.pc.joins = some w) (hfree : s.lifecycle = none) (hdone : s.finished w = true)
    (hplain : pc'.plain = true) {shared : Shared}
    (hshared : shared.workerExited = s.shared.workerExited)
    (hworker : shared.worker = s.shared.worker) :
    (((s.withShared shared).reap w call.caller).setCall c (some { call with pc := pc' })).Wf := by
  obtain ⟨hr, rfl⟩ := h.reaping_of_joins hc hw
  obtain ⟨hholds', hjoins', -⟩ := CallPc.of_plain hplain
  have hresets' : pc'.resets = false := CallPc.resets_false_of_holds hholds'
  have hcaller : call.caller = none := h.calls.outside _ _ hc (CallPc.outside_of_joins hw)
  have hthread : ∃ t, s.workers s.joined.length = some t ∧ t.pc = .done := by
    unfold Sys.finished at hdone
    split at hdone
    · rename_i t ht
      exact ⟨t, ht, of_decide_eq_true hdone⟩
    · cases hdone
  obtain ⟨t, ht, htdone⟩ := hthread
  refine ⟨?_, ?_, ?_, ?_, ?_⟩
  · refine h.calls_step hc rfl ?_ ?_ ?_ (.inr ?_) ?_ ?_ ?_
    · exact fun w t ht => ⟨t, ht, rfl⟩
    · rw [Sys.lockAfter, hholds', h.holds_false_of_free hfree hc]
      rfl
    · intro hpc
      rw [hholds'] at hpc
      cases hpc
    · exact fun k call' hk _ => CallPc.resets_false_of_holds (h.holds_false_of_free hfree hk)
    · exact fun _ => hcaller
    · intro hpc
      rw [hresets'] at hpc
      cases hpc
    · intro k hk
      rw [CallPc.resets_of_control? hk] at hresets'
      cases hresets'
  · refine .idle ⟨?_, rfl, rfl, ?_, ?_⟩
    · exact hworker.trans hr.worker
    · simpa [Sys.reap, Sys.withShared] using hr.created
    · intro k call' hk
      rcases Sys.setCall_cases hk with ⟨rfl, heq⟩ | ⟨hne, hk⟩
      · cases heq
        exact hjoins'
      · have := hr.joins k call' hk
        rwa [if_neg hne] at this
  · refine ⟨h.workers.created, ?_, h.workers.waiting, ?_, ?_, ?_⟩
    · intro v u hu _
      by_cases hv : v = s.joined.length
      · subst hv
        rw [show s.workers s.joined.length = some u from hu] at ht
        cases ht
        exact htdone
      · refine h.workers.others v u hu ?_
        rw [hr.active]
        exact fun heq => hv (Option.some.inj heq).symm
    · intro v u hactive
      cases hactive
    · intro _ _
      have hexited : s.shared.workerExited = true := by
        rw [h.workers.exited _ t hr.active ht, htdone]
        exact .inr rfl
      exact hshared.trans hexited
    · intro k call' hk hpc
      have hresets := CallPc.resets_of_armed hpc
      rcases Sys.setCall_cases hk with ⟨rfl, heq⟩ | ⟨hne, hk⟩
      · cases heq
        rw [hresets'] at hresets
        cases hresets
      · have := h.holds_false_of_free hfree hk
        rw [CallPc.holds_of_resets hresets] at this
        cases this
  · simp only [Sys.setCall_joined, Sys.reap, Sys.withShared, List.map_append, List.map_cons,
      List.map_nil, List.length_append, List.length_singleton, h.joined]
    exact List.range_succ.symm
  · intro p hp
    simp only [Sys.setCall_joined, Sys.reap, Sys.withShared, List.mem_append,
      List.mem_singleton] at hp
    rcases hp with hp | rfl
    · exact h.joiners p hp
    · exact hcaller

/-- A new thread: `start` leaves with the handle set. -/
theorem Sys.Wf.spawn (h : s.Wf) (hc : s.calls c = some call) (harmed : call.pc.armed = true)
    (hplain : pc'.plain = true) (config : Config) :
    ((s.spawn config).setCall c (some { call with pc := pc' })).Wf := by
  have hresets := CallPc.resets_of_armed harmed
  have hholds := CallPc.holds_of_resets hresets
  have hidle := h.idle_of_resets hc hresets
  obtain ⟨hholds', hjoins', hout'⟩ := CallPc.of_plain hplain
  have hresets' : pc'.resets = false := CallPc.resets_false_of_holds hholds'
  -- nobody else is inside a locked section
  have hothers : ∀ k call', s.calls k = some call' → k ≠ c → call'.pc.holds = false := by
    intro k call' hk hne
    by_contra hpc
    exact hne (h.owner_unique hk (by simpa using hpc) hc hholds)
  have hfresh : s.workers s.created = none := by
    have := h.workers.created s.created
    simpa using this
  have hold : ∀ w t, s.workers w = some t → w ≠ s.created := by
    rintro w t ht rfl
    rw [hfresh] at ht
    cases ht
  refine ⟨?_, ?_, ?_, h.joined, h.joiners⟩
  · refine h.calls_step hc rfl ?_ ?_ ?_ (.inr ?_) ?_ ?_ ?_
    · intro w t ht
      exact ⟨t, by simpa [Sys.spawn, hold w t ht] using ht, rfl⟩
    · rw [Sys.lockAfter, hholds', hholds]
      rfl
    · intro hpc
      rw [hholds'] at hpc
      cases hpc
    · exact fun k call' hk hne => CallPc.resets_false_of_holds (hothers k call' hk hne)
    · intro hpc
      rw [hout'] at hpc
      cases hpc
    · intro hpc
      rw [hresets'] at hpc
      cases hpc
    · intro k hk
      rw [CallPc.resets_of_control? hk] at hresets'
      cases hresets'
  · refine .held ⟨?_, ?_, hidle.joining, ?_, ?_⟩
    · simp [Sys.spawn, hidle.created]
    · simp [Sys.spawn, hidle.created]
    · simp [Sys.spawn, hidle.created]
    · intro k call' hk
      rcases Sys.setCall_cases hk with ⟨rfl, heq⟩ | ⟨hne, hk⟩
      · cases heq
        exact hjoins'
      · exact hidle.joins _ _ hk
  · refine ⟨?_, ?_, ?_, ?_, ?_, ?_⟩
    · intro w
      by_cases hw : w = s.created
      · subst hw
        simp [Sys.spawn]
      · have := h.workers.created w
        simp only [Sys.spawn, Sys.setCall_workers, Sys.setCall_created]
        rw [Function.update_of_ne hw, this]
        omega
    · intro w t ht hactive
      by_cases hw : w = s.created
      · subst hw
        exact absurd rfl hactive
      · refine h.workers.others w t ?_ (by rw [hidle.active]; simp)
        simpa [Sys.spawn, hw] using ht
    · intro w t ht hnested
      by_cases hw : w = s.created
      · subst hw
        simp only [Sys.spawn, Sys.setCall_workers, Function.update_self, Option.some.injEq] at ht
        subst ht
        cases hnested
      · exact h.workers.waiting w t (by simpa [Sys.spawn, hw] using ht) hnested
    · intro w t hactive ht
      obtain rfl : w = s.created := (Option.some.inj hactive).symm
      simp only [Sys.spawn, Sys.setCall_workers, Function.update_self, Option.some.injEq] at ht
      subst ht
      have := h.workers.armed _ _ hc harmed
      simp [Sys.spawn, this, WorkerPc.phase]
    · intro hactive
      cases hactive
    · intro k call' hk hpc
      have hresets'' := CallPc.resets_of_armed hpc
      rcases Sys.setCall_cases hk with ⟨rfl, heq⟩ | ⟨hne, hk⟩
      · cases heq
        rw [hresets'] at hresets''
        cases hresets''
      · have := hothers k call' hk hne
        rw [CallPc.holds_of_resets hresets''] at this
        cases this

end Calls

/-! ## The steps of the calls -/

section CallSteps

variable {config : Config} {s s' : Sys} {c : Nat} {call : Call} {pc' : CallPc}

/-- The members of `Impl` that only `start` and `stop` write. -/
structure Shared.SameHandles (s s' : Shared) : Prop where
  worker : s'.worker = s.worker
  active : s'.activeWorkerId = s.activeWorkerId
  joining : s'.joining = s.joining
  exited : s'.workerExited = s.workerExited

theorem stopCommand_handles (s : Shared) (event : SendEvent) :
    s.SameHandles (s.stopCommand event) := by
  unfold Shared.stopCommand Shared.stopStreaming
  split
  · exact ⟨rfl, rfl, rfl, rfl⟩
  · exact ⟨rfl, rfl, rfl, rfl⟩

theorem markStopped_handles (s : Shared) : s.SameHandles s.markStopped := by
  unfold Shared.markStopped
  split
  · exact ⟨rfl, rfl, rfl, rfl⟩
  · exact ⟨rfl, rfl, rfl, rfl⟩

theorem bias_handles (s : Shared) (first second : SendEvent) :
    s.SameHandles (s.bias first second).1 := by
  unfold Shared.bias
  split
  · exact ⟨rfl, rfl, rfl, rfl⟩
  · dsimp only
    split
    · exact ⟨rfl, rfl, rfl, rfl⟩
    · split
      · exact ⟨rfl, rfl, rfl, rfl⟩
      · exact ⟨rfl, rfl, rfl, rfl⟩

theorem publish_handles (s : Shared) (code : FaultCode) (message : String) :
    s.SameHandles { s with toImpl := s.toImpl.publish code message } := by
  unfold Impl.publish
  split
  · exact ⟨rfl, rfl, rfl, rfl⟩
  · exact ⟨rfl, rfl, rfl, rfl⟩

theorem Sys.Wf.caller_outside (h : s.Wf) (hc : s.calls c = some call)
    (houtside : call.pc.outside = true ∨ s.shared.calledByWorker call.caller = false) :
    call.caller = none := by
  rcases houtside with hpc | hself
  · exact h.calls.outside _ _ hc hpc
  · exact h.caller_none hc hself

/-- Nobody else is inside a locked section: the lock is free or ours. -/
theorem Sys.Wf.others_free (h : s.Wf) (hc : s.calls c = some call)
    (hfree : call.pc.holds = true ∨ s.lifecycle = none) {k : Nat} {call' : Call}
    (hk : s.calls k = some call') (hne : k ≠ c) : call'.pc.holds = false := by
  rcases hfree with hholds | hfree
  · by_contra hne'
    exact hne (h.owner_unique hk (by simpa using hne') hc hholds)
  · exact h.holds_false_of_free hfree hk

theorem Sys.Wf.callMove (h : s.Wf) (hc : s.calls c = some call)
    (hmove : CallMove config c call.caller s call.pc pc' s') :
    (s'.setCall c (some { call with pc := pc' })).Wf := by
  obtain ⟨caller, op, pc⟩ := call
  dsimp only at hmove
  cases hmove with
  | wait before after outside =>
    refine h.call_keep hc rfl ⟨rfl, rfl, rfl, rfl, rfl, rfl⟩ ?_ ?_ ⟨before.1, after.1⟩
      (.inl ⟨rfl, ?_, CallPc.armed_false_of_holds after.2⟩) ?_ ?_ ?_
    · rw [Sys.lockAfter, after.2]
      rfl
    · intro hpc
      rw [after.2] at hpc
      cases hpc
    · by_contra hne
      rw [CallPc.resets_of_armed (by simpa using hne)] at before
      cases before.2
    · exact fun hpc => h.caller_outside hc (outside hpc)
    · intro hpc
      rw [CallPc.resets_false_of_holds after.2] at hpc
      cases hpc
    · intro k hk
      have := CallPc.resets_of_control? hk
      rw [CallPc.resets_false_of_holds after.2] at this
      cases this
  | take worker joining before free after outside =>
    have hholds' : pc'.holds = false := by
      by_contra hne
      rw [CallPc.joins_of_holds (by simpa using hne)] at after
      cases after
    exact h.take hc worker after hholds' (fun k call' hk hne => h.others_free hc free hk hne)
      (h.caller_outside hc outside) _ (by rw [Sys.lockAfter, hholds']; rfl)
  | save worker joining free before outside =>
    have hpc : pc.joins = none ∧ pc.armed = false := by
      rcases before with rfl | rfl
      · exact ⟨rfl, rfl⟩
      · exact ⟨rfl, rfl⟩
    refine h.call_keep hc rfl ⟨rfl, rfl, rfl, rfl, rfl, rfl⟩ rfl (fun _ _ => free)
      ⟨hpc.1, rfl⟩ (.inl ⟨rfl, hpc.2, rfl⟩) (fun _ => h.caller_outside hc outside)
      (fun _ => ⟨worker, joining⟩) ?_
    intro k hk
    cases hk
    exact h.workers.idle (h.idle_of_no_worker worker joining).active
      (fun k call' hk => CallPc.armed_false_of_holds (h.holds_false_of_free free hk))
  | reset =>
    exact h.reset_keep hc rfl rfl rfl ⟨rfl, rfl, rfl, rfl, rfl, rfl⟩ rfl rfl (.inl ⟨rfl, rfl, rfl⟩)
  | arm => exact h.reset_keep hc rfl rfl rfl ⟨rfl, rfl, rfl, rfl, rfl, rfl⟩ rfl rfl (.inr rfl)
  | spawn => exact h.spawn hc rfl rfl config
  | disarm =>
    exact h.reset_keep hc rfl rfl rfl ⟨rfl, rfl, rfl, rfl, rfl, rfl⟩ rfl rfl
      (.inr (h.calls.saved _ _ _ hc rfl))
  | restoreRecord =>
    exact h.reset_keep hc rfl rfl rfl ⟨rfl, rfl, rfl, rfl, rfl, rfl⟩ rfl rfl (.inl ⟨rfl, rfl, rfl⟩)
  | restoreData =>
    exact h.reset_keep hc rfl rfl rfl ⟨rfl, rfl, rfl, rfl, rfl, rfl⟩ rfl rfl (.inl ⟨rfl, rfl, rfl⟩)
  | clearLatch =>
    exact h.reset_keep hc rfl rfl rfl ⟨rfl, rfl, rfl, rfl, rfl, rfl⟩ rfl rfl (.inl ⟨rfl, rfl, rfl⟩)
  | @republish k d message =>
    have hsame : s.shared.SameHandles
        (if k.fault ≠ .none then
          { s.shared with toImpl := s.shared.toImpl.publish k.fault d.health.lastError }
          else s.shared) := by
      split
      · exact publish_handles _ _ _
      · exact ⟨rfl, rfl, rfl, rfl⟩
    exact h.call_plain hc rfl rfl ⟨hsame.worker, hsame.active, hsame.joining, rfl, rfl, rfl⟩
      hsame.exited rfl rfl rfl
  | request free =>
    refine h.call_keep hc rfl ⟨rfl, rfl, rfl, rfl, rfl, rfl⟩ rfl (fun _ _ => free) ⟨rfl, rfl⟩
      (.inl ⟨rfl, rfl, rfl⟩) ?_ ?_ ?_
    · intro e
      cases e
    · intro e
      cases e
    · intro k e
      cases e
  | command event =>
    have hsame := stopCommand_handles s.shared event
    refine h.call_keep hc rfl ⟨hsame.worker, hsame.active, hsame.joining, rfl, rfl, rfl⟩
      ((h.calls.owner c).mpr ⟨_, hc, rfl⟩) (by intro _ e; cases e) ⟨rfl, rfl⟩
      (.inl ⟨hsame.exited, rfl, rfl⟩) ?_ ?_ ?_
    · intro e
      cases e
    · intro e
      cases e
    · intro k e
      cases e
  | stopIdle worker joining outside =>
    have hsame := markStopped_handles s.shared
    exact h.call_plain hc rfl rfl ⟨hsame.worker, hsame.active, hsame.joining, rfl, rfl, rfl⟩
      hsame.exited rfl rfl rfl
  | reapStart free finished => exact h.reap hc rfl free finished rfl rfl rfl
  | reapStop free finished =>
    have hsame := markStopped_handles s.shared
    exact h.reap hc rfl free finished rfl hsame.exited hsame.worker
  | bias first second result =>
    have hsame := bias_handles s.shared first second
    exact h.call_plain hc rfl rfl ⟨hsame.worker, hsame.active, hsame.joining, rfl, rfl, rfl⟩
      hsame.exited rfl rfl rfl
  | snapshot result =>
    exact h.call_plain hc rfl rfl ⟨rfl, rfl, rfl, rfl, rfl, rfl⟩ rfl rfl rfl rfl

end CallSteps

/-! ## Calling, collecting, and the receive threads -/

section OtherSteps

variable {P : Platform} {config : Config} {s s' : Sys}

/-- Adding or removing calls at places of no consequence, with the threads
kept where they are. -/
structure Sys.SamePlaces (s s' : Sys) : Prop where
  shared : s'.shared = s.shared
  lifecycle : s'.lifecycle = s.lifecycle
  created : s'.created = s.created
  joined : s'.joined = s.joined
  threads : ∀ w, (s'.workers w).map (fun t => (t.pc, t.backoff))
    = (s.workers w).map (fun t => (t.pc, t.backoff))
  new : ∀ k call, s'.calls k = some call → s.calls k = some call ∨ call.pc.plain = true
  old : ∀ k call, s.calls k = some call → s'.calls k = some call ∨ call.pc.plain = true

theorem Sys.SamePlaces.thread_backoff (hp : s.SamePlaces s') {w : Nat} {t' : Worker}
    (h : s'.workers w = some t') :
    ∃ t, s.workers w = some t ∧ t.pc = t'.pc ∧ t.backoff = t'.backoff := by
  have := hp.threads w
  rw [h] at this
  cases ht : s.workers w with
  | none =>
    rw [ht] at this
    cases this
  | some t =>
    rw [ht] at this
    obtain ⟨hpc, hbackoff⟩ := Prod.mk.inj (Option.some.inj this)
    exact ⟨t, rfl, hpc.symm, hbackoff.symm⟩

theorem Sys.SamePlaces.thread (hp : s.SamePlaces s') {w : Nat} {t' : Worker}
    (h : s'.workers w = some t') : ∃ t, s.workers w = some t ∧ t.pc = t'.pc := by
  obtain ⟨t, ht, hpc, -⟩ := hp.thread_backoff h
  exact ⟨t, ht, hpc⟩

theorem Sys.Wf.samePlaces (h : s.Wf) (hp : s.SamePlaces s')
    (hnested : ∀ c call w, s'.calls c = some call → call.caller = some w →
      ∃ t, s'.workers w = some t ∧ t.nested = some c)
    (hwaiting : ∀ w t, s'.workers w = some t → t.nested.isSome = true → t.pc.phase = .open) :
    s'.Wf := by
  have hnoJoin : s.NoJoin → s'.NoJoin := by
    intro hn k call hk
    rcases hp.new k call hk with hk | hplain
    · exact hn k call hk
    · exact (CallPc.of_plain hplain).2.1
  refine ⟨⟨?_, hnested, ?_, ?_, ?_⟩, ?_, ⟨?_, ?_, hwaiting, ?_, ?_, ?_⟩, ?_, ?_⟩
  · intro c
    rw [hp.lifecycle, h.calls.owner c]
    constructor
    · rintro ⟨call, hc, hholds⟩
      rcases hp.old c call hc with hc | hplain
      · exact ⟨call, hc, hholds⟩
      · rw [(CallPc.of_plain hplain).1] at hholds
        cases hholds
    · rintro ⟨call, hc, hholds⟩
      rcases hp.new c call hc with hc | hplain
      · exact ⟨call, hc, hholds⟩
      · rw [(CallPc.of_plain hplain).1] at hholds
        cases hholds
  · intro c call hc hout
    rcases hp.new c call hc with hc | hplain
    · exact h.calls.outside c call hc hout
    · rw [(CallPc.of_plain hplain).2.2] at hout
      cases hout
  · intro c call hc hres
    rw [hp.shared]
    rcases hp.new c call hc with hc | hplain
    · exact h.calls.resets c call hc hres
    · rw [CallPc.resets_false_of_holds (CallPc.of_plain hplain).1] at hres
      cases hres
  · intro c call k hc hk
    rcases hp.new c call hc with hc | hplain
    · exact h.calls.saved c call k hc hk
    · have := CallPc.resets_of_control? hk
      rw [CallPc.resets_false_of_holds (CallPc.of_plain hplain).1] at this
      cases this
  · cases h.slot with
    | idle hi =>
      refine .idle ⟨?_, ?_, ?_, ?_, hnoJoin hi.joins⟩ <;>
        simp only [hp.shared, hp.created, hp.joined, hi.worker, hi.active, hi.joining, hi.created]
    | held hh =>
      refine .held ⟨?_, ?_, ?_, ?_, hnoJoin hh.joins⟩ <;>
        simp only [hp.shared, hp.created, hp.joined, hh.worker, hh.active, hh.joining, hh.created]
    | reaping k hr =>
      refine .reaping k ⟨?_, ?_, ?_, ?_, ?_, ?_⟩
      · rw [hp.shared, hr.worker]
      · rw [hp.shared, hp.joined, hr.active]
      · rw [hp.shared, hr.joining]
      · rw [hp.created, hp.joined, hr.created]
      · intro c call hc
        rw [hp.joined]
        rcases hp.new c call hc with hc' | hplain
        · exact hr.joins c call hc'
        · have hnone := (CallPc.of_plain hplain).2.1
          by_cases hck : c = k
          · subst hck
            -- the joining call is not at a plain place, so it is still there
            obtain ⟨old, hold⟩ := Option.isSome_iff_exists.mp hr.present
            have hjoins := hr.joins c old hold
            rw [if_pos rfl] at hjoins
            rcases hp.old c old hold with hkeep | hplain'
            · rw [hc] at hkeep
              cases hkeep
              rw [hnone] at hjoins
              cases hjoins
            · rw [(CallPc.of_plain hplain').2.1] at hjoins
              cases hjoins
          · rw [if_neg hck]
            exact hnone
      · obtain ⟨old, hold⟩ := Option.isSome_iff_exists.mp hr.present
        have hjoins := hr.joins k old hold
        rw [if_pos rfl] at hjoins
        rcases hp.old k old hold with hkeep | hplain'
        · rw [hkeep]
          rfl
        · rw [(CallPc.of_plain hplain').2.1] at hjoins
          cases hjoins
  · intro w
    rw [hp.created, ← h.workers.created w]
    have := congrArg Option.isSome (hp.threads w)
    simpa using this
  · intro w t ht hactive
    obtain ⟨u, hu, hpc⟩ := hp.thread ht
    rw [hp.shared] at hactive
    exact hpc ▸ h.workers.others w u hu hactive
  · intro w t hactive ht
    obtain ⟨u, hu, hpc⟩ := hp.thread ht
    rw [hp.shared] at hactive ⊢
    exact hpc ▸ h.workers.exited w u hactive hu
  · intro hactive hall
    rw [hp.shared] at hactive ⊢
    refine h.workers.idle hactive ?_
    intro c call hc
    rcases hp.old c call hc with hkeep | hplain
    · exact hall c call hkeep
    · exact CallPc.armed_false_of_holds (CallPc.of_plain hplain).1
  · intro c call hc harmed
    rw [hp.shared]
    rcases hp.new c call hc with hc | hplain
    · exact h.workers.armed c call hc harmed
    · rw [CallPc.armed_false_of_holds (CallPc.of_plain hplain).1] at harmed
      cases harmed
  · rw [hp.joined]
    exact h.joined
  · rw [hp.joined]
    exact h.joiners

theorem Worker.inCallback_iff {t : Worker} (h : t.inCallback = true) :
    t.pc.phase = .open ∧ t.nested = none := by
  unfold Worker.inCallback at h
  split at h
  · rename_i hpc
    rw [hpc]
    exact ⟨rfl, by simpa using h⟩
  · cases h

theorem Sys.setWorker_nested (s : Sys) {w : Nat} {t : Worker} (ht : s.workers w = some t)
    (nested : Option Nat) (v : Nat) :
    ((s.setWorker w { t with nested := nested }).workers v).map (fun t => (t.pc, t.backoff))
      = (s.workers v).map (fun t => (t.pc, t.backoff)) := by
  by_cases hv : v = w
  · subst hv
    simp [Sys.setWorker, ht]
  · simp [Sys.setWorker, hv]

theorem Sys.invoke_samePlaces {c : Nat} {caller : Option Nat} {op : Op}
    (hstep : s.invoke c caller op = some s') : s.SamePlaces s' := by
  unfold Sys.invoke at hstep
  split at hstep
  · cases hstep
  · rename_i hfresh
    have hnone : s.calls c = none := by simpa using hfresh
    have hcalls : ∀ (u : Sys) (call : Call), u.calls = s.calls → call.pc = op.entry →
        (∀ k call', (u.setCall c (some call)).calls k = some call' →
          s.calls k = some call' ∨ call'.pc.plain = true) ∧
        ∀ k call', s.calls k = some call' →
          (u.setCall c (some call)).calls k = some call' ∨ call'.pc.plain = true := by
      intro u call hu hpc
      constructor
      · intro k call' hk
        rcases Sys.setCall_cases hk with ⟨rfl, heq⟩ | ⟨-, hk⟩
        · cases heq
          exact .inr (hpc ▸ op.entry_plain)
        · exact .inl (hu ▸ hk)
      · intro k call' hk
        have hne : k ≠ c := by
          rintro rfl
          rw [hnone] at hk
          cases hk
        exact .inl (by rw [Sys.setCall_calls_of_ne _ _ hne, hu]; exact hk)
    split at hstep
    · cases hstep
      obtain ⟨new, old⟩ := hcalls s ⟨none, op, op.entry⟩ rfl rfl
      exact ⟨rfl, rfl, rfl, rfl, fun _ => rfl, new, old⟩
    · rename_i w
      split at hstep
      · cases hstep
      · rename_i t ht
        split at hstep
        · cases hstep
          obtain ⟨new, old⟩ := hcalls (s.setWorker w { t with nested := some c })
            ⟨some w, op, op.entry⟩ rfl rfl
          exact ⟨rfl, rfl, rfl, rfl, s.setWorker_nested ht _, new, old⟩
        · cases hstep

theorem Sys.Wf.invoke (h : s.Wf) {c : Nat} {caller : Option Nat} {op : Op}
    (hstep : s.invoke c caller op = some s') : s'.Wf := by
  have hplaces := Sys.invoke_samePlaces hstep
  unfold Sys.invoke at hstep
  split at hstep
  · cases hstep
  · split at hstep
    · cases hstep
      refine h.samePlaces hplaces ?_ h.workers.waiting
      intro k call w hk hcaller
      rcases Sys.setCall_cases hk with ⟨rfl, heq⟩ | ⟨-, hk⟩
      · cases heq
        cases hcaller
      · exact h.calls.nested k call w hk hcaller
    · rename_i w
      split at hstep
      · cases hstep
      · rename_i t ht
        split at hstep
        · rename_i hin
          obtain ⟨hphase, hidle⟩ := Worker.inCallback_iff hin
          cases hstep
          refine h.samePlaces hplaces ?_ ?_
          · intro k call v hk hcaller
            rcases Sys.setCall_cases hk with ⟨rfl, heq⟩ | ⟨hne, hk⟩
            · cases heq
              cases hcaller
              exact ⟨{ t with nested := some k }, by simp [Sys.setWorker], rfl⟩
            · obtain ⟨u, hu, hnested⟩ := h.calls.nested k call v hk hcaller
              have hvw : v ≠ w := by
                rintro rfl
                rw [ht] at hu
                cases hu
                rw [hidle] at hnested
                cases hnested
              exact ⟨u, by simpa [Sys.setWorker, hvw] using hu, hnested⟩
          · intro v u hu hnested
            by_cases hvw : v = w
            · subst hvw
              simp only [Sys.setWorker, Sys.setCall_workers, Function.update_self,
                Option.some.injEq] at hu
              subst hu
              exact hphase
            · exact h.workers.waiting v u (by simpa [Sys.setWorker, hvw] using hu) hnested
        · cases hstep

theorem Sys.collect_samePlaces {c : Nat} (hstep : s.collect c = some s') : s.SamePlaces s' := by
  unfold Sys.collect at hstep
  split at hstep
  · rename_i caller op result hc
    have hcalls : ∀ u : Sys, u.calls = s.calls →
        (∀ k call', (u.setCall c none).calls k = some call' →
          s.calls k = some call' ∨ call'.pc.plain = true) ∧
        ∀ k call', s.calls k = some call' →
          (u.setCall c none).calls k = some call' ∨ call'.pc.plain = true := by
      intro u hu
      constructor
      · intro k call' hk
        rcases Sys.setCall_cases hk with ⟨-, heq⟩ | ⟨-, hk⟩
        · cases heq
        · exact .inl (hu ▸ hk)
      · intro k call' hk
        by_cases hkc : k = c
        · subst hkc
          rw [hc] at hk
          cases hk
          exact .inr rfl
        · exact .inl (by rw [Sys.setCall_calls_of_ne _ _ hkc, hu]; exact hk)
    split at hstep
    · cases hstep
      obtain ⟨new, old⟩ := hcalls s rfl
      exact ⟨rfl, rfl, rfl, rfl, fun _ => rfl, new, old⟩
    · rename_i w
      split at hstep
      · cases hstep
      · rename_i t ht
        cases hstep
        obtain ⟨new, old⟩ := hcalls (s.setWorker w { t with nested := none }) rfl
        exact ⟨rfl, rfl, rfl, rfl, s.setWorker_nested ht _, new, old⟩
  · cases hstep

theorem Sys.Wf.collect (h : s.Wf) {c : Nat} (hstep : s.collect c = some s') : s'.Wf := by
  have hplaces := Sys.collect_samePlaces hstep
  unfold Sys.collect at hstep
  split at hstep
  · rename_i caller op result hc
    split at hstep
    · cases hstep
      refine h.samePlaces hplaces ?_ h.workers.waiting
      intro k call w hk hcaller
      rcases Sys.setCall_cases hk with ⟨-, heq⟩ | ⟨-, hk⟩
      · cases heq
      · exact h.calls.nested k call w hk hcaller
    · rename_i w
      split at hstep
      · cases hstep
      · rename_i t ht
        cases hstep
        refine h.samePlaces hplaces ?_ ?_
        · intro k call v hk hcaller
          rcases Sys.setCall_cases hk with ⟨-, heq⟩ | ⟨hne, hk⟩
          · cases heq
          · obtain ⟨u, hu, hnested⟩ := h.calls.nested k call v hk hcaller
            have hvw : v ≠ w := by
              rintro rfl
              -- the thread was inside the collected call, not inside `k`
              obtain ⟨u', hu', hnested'⟩ := h.calls.nested c _ v hc rfl
              rw [hu] at hu'
              cases hu'
              rw [hnested] at hnested'
              exact hne (Option.some.inj hnested')
            exact ⟨u, by simpa [Sys.setWorker, hvw] using hu, hnested⟩
        · intro v u hu hnested
          by_cases hvw : v = w
          · subst hvw
            simp only [Sys.setWorker, Sys.setCall_workers, Function.update_self,
              Option.some.injEq] at hu
            subst hu
            cases hnested
          · exact h.workers.waiting v u (by simpa [Sys.setWorker, hvw] using hu) hnested
  · cases hstep

theorem WorkerPc.phase_eq_done {pc : WorkerPc} (h : pc.phase = .done) : pc = .done := by
  cases pc <;> first | rfl | cases h

theorem closeSession_handles (s : Shared) (event : SendEvent) :
    s.SameHandles (s.closeSession event) := by
  unfold Shared.closeSession Shared.stopStreaming
  dsimp only
  split
  · exact ⟨rfl, rfl, rfl, rfl⟩
  · exact ⟨rfl, rfl, rfl, rfl⟩

theorem handles_of_control {s s' u : Shared} (h : s'.control = u.control)
    (hu : s.SameHandles u) : s.SameHandles s' where
  worker := (congrArg Control.worker h).trans hu.worker
  active := (congrArg Control.activeWorkerId h).trans hu.active
  joining := (congrArg Control.joining h).trans hu.joining
  exited := (congrArg Control.workerExited h).trans hu.exited

/-- A move starts from a thread that is not done, keeps the handles, and
announces the exit on the way from `closed` to `exited`. -/
theorem WorkerMove.lifecycle {t t' : Worker} {s s' : Shared} (h : WorkerMove t s t' s') :
    t.pc.phase ≠ .done ∧ s'.worker = s.worker ∧ s'.activeWorkerId = s.activeWorkerId ∧
      s'.joining = s.joining ∧
      ((s.workerExited = true ↔ t.pc.phase = .exited ∨ t.pc.phase = .done) →
        (s'.workerExited = true ↔ t'.pc.phase = .exited ∨ t'.pc.phase = .done)) := by
  -- away from the exit both sides of the equivalence stay false
  have hstay : ∀ {u : Shared}, s.SameHandles u → t.pc.phase ≠ .exited → t.pc.phase ≠ .done →
      t'.pc.phase ≠ .exited → t'.pc.phase ≠ .done →
      t.pc.phase ≠ .done ∧ u.worker = s.worker ∧ u.activeWorkerId = s.activeWorkerId ∧
        u.joining = s.joining ∧
        ((s.workerExited = true ↔ t.pc.phase = .exited ∨ t.pc.phase = .done) →
          (u.workerExited = true ↔ t'.pc.phase = .exited ∨ t'.pc.phase = .done)) := by
    intro u hu h1 h2 h3 h4
    refine ⟨h2, hu.worker, hu.active, hu.joining, ?_⟩
    rw [hu.exited]
    simp [h1, h2, h3, h4]
  cases h with
  | quiet phase quiet =>
    have hu := handles_of_control quiet.control ⟨rfl, rfl, rfl, rfl⟩
    cases ht : t.pc.phase <;> cases ht' : t'.pc.phase <;>
      first
      | (rw [ht, ht'] at phase; cases phase; done)
      | (rw [ht, ht'] at hstay
         exact hstay hu (by decide) (by decide) (by decide) (by decide))
  | connect before after =>
    exact hstay ⟨rfl, rfl, rfl, rfl⟩ (by simp [before]) (by simp [before]) (by simp [after])
      (by simp [after])
  | start event before after running =>
    exact hstay ⟨rfl, rfl, rfl, rfl⟩ (by simp [before]) (by simp [before]) (by simp [after])
      (by simp [after])
  | close event phases control health =>
    have hu := handles_of_control control (closeSession_handles s event)
    rcases phases with ⟨before, after⟩ | ⟨before, after⟩
    · exact hstay hu (by simp [before]) (by simp [before]) (by simp [after]) (by simp [after])
    · exact hstay hu (by simp [before]) (by simp [before]) (by simp [after]) (by simp [after])
  | fail code message before place named =>
    have hphase : t.pc.phase ≠ .exited ∧ t.pc.phase ≠ .done := by
      rcases before with before | before <;> rw [before] <;> simp
    exact hstay ⟨rfl, rfl, rfl, rfl⟩ hphase.1 hphase.2 (by simp [place, WorkerPc.phase])
      (by simp [place, WorkerPc.phase])
  | latch code message place after impl rest =>
    obtain ⟨h1, h2, h3, h4⟩ := publish_handles s code message
    rw [← impl] at h1 h2 h3 h4
    exact hstay ⟨h1, h2, h3, h4⟩ (by simp [place, WorkerPc.phase])
      (by simp [place, WorkerPc.phase]) (by simp [after]) (by simp [after])
  | exit before after => simp [before, after]
  | finish before after =>
    refine ⟨by simp [before], ?_, ?_, ?_, ?_⟩
    · split <;> rfl
    · split <;> rfl
    · split <;> rfl
    · intro hexited
      have : s.workerExited = true := hexited.mpr (.inl before)
      simp only [after]
      split <;> simp [this]

theorem Sys.Wf.worker (h : s.Wf) {w : Nat} {choice : WorkerChoice} {t t' : Worker}
    {shared' : Shared} (ht : s.workers w = some t)
    (hstep : workerStep P config w choice t s.shared = some (t', shared')) :
    ((s.withShared shared').setWorker w t').Wf := by
  obtain ⟨hnested, hnested'⟩ := workerStep_nested hstep
  obtain ⟨hrun, hworker, hactive, hjoining, hexited⟩ := (workerStep_move hstep).lifecycle
  have hw := h.active_of_running ht hrun
  -- a running thread means that no `start` is in its reset section
  have hnoReset : ∀ c call, s.calls c = some call → call.pc.resets = false := by
    intro c call hc
    by_contra hne
    have := h.inactive_of_resets hc (by simpa using hne)
    rw [hw] at this
    cases this
  have hthread : ∀ v u, ((s.withShared shared').setWorker w t').workers v = some u →
      v = w ∧ u = t' ∨ v ≠ w ∧ s.workers v = some u := by
    intro v u hu
    by_cases hv : v = w
    · subst hv
      simp only [Sys.setWorker, Function.update_self, Option.some.injEq] at hu
      exact .inl ⟨rfl, hu.symm⟩
    · exact .inr ⟨hv, by simpa [Sys.setWorker, Sys.withShared, hv] using hu⟩
  refine ⟨⟨h.calls.owner, ?_, h.calls.outside, ?_, h.calls.saved⟩, ?_,
    ⟨?_, ?_, ?_, ?_, ?_, ?_⟩, h.joined, h.joiners⟩
  · intro c call v hc hcaller
    obtain ⟨u, hu, hun⟩ := h.calls.nested c call v hc hcaller
    have hv : v ≠ w := by
      rintro rfl
      rw [ht] at hu
      cases hu
      rw [hnested] at hun
      cases hun
    exact ⟨u, by simpa [Sys.setWorker, Sys.withShared, hv] using hu, hun⟩
  · intro c call hc hres
    rw [hnoReset c call hc] at hres
    cases hres
  · cases h.slot with
    | idle hi =>
      rw [hi.active] at hw
      cases hw
    | held hh =>
      exact .held ⟨hworker.trans hh.worker, hactive.trans hh.active, hjoining.trans hh.joining,
        hh.created, hh.joins⟩
    | reaping k hr =>
      exact .reaping k ⟨hworker.trans hr.worker, hactive.trans hr.active,
        hjoining.trans hr.joining, hr.created, hr.joins, hr.present⟩
  · intro v
    by_cases hv : v = w
    · subst hv
      have := (h.workers.created v).mp (by rw [ht]; rfl)
      simpa [Sys.setWorker, Sys.withShared] using this
    · have := h.workers.created v
      simpa [Sys.setWorker, Sys.withShared, hv] using this
  · intro v u hu hne
    rcases hthread v u hu with ⟨rfl, -⟩ | ⟨-, hu⟩
    · exact absurd (hactive.trans hw) hne
    · exact h.workers.others v u hu (fun e => hne (hactive.trans e))
  · intro v u hu hsome
    rcases hthread v u hu with ⟨rfl, rfl⟩ | ⟨-, hu⟩
    · rw [hnested'] at hsome
      cases hsome
    · exact h.workers.waiting v u hu hsome
  · intro v u hav hu
    rcases hthread v u hu with ⟨rfl, rfl⟩ | ⟨hv, -⟩
    · exact hexited (h.workers.exited v t hw ht)
    · have : some v = some w := hav.symm.trans (hactive.trans hw)
      exact absurd (Option.some.inj this) hv
  · intro hnone
    have : none = some w := hnone.symm.trans (hactive.trans hw)
    cases this
  · intro c call hc harmed
    have := CallPc.resets_of_armed harmed
    rw [hnoReset c call hc] at this
    cases this

theorem Sys.Wf.tick (h : s.Wf) (ticks : Nat) :
    (s.withShared { s.shared with clock := s.shared.clock + ticks }).Wf := by
  refine ⟨⟨h.calls.owner, h.calls.nested, h.calls.outside, h.calls.resets, h.calls.saved⟩, ?_,
    ⟨h.workers.created, h.workers.others, h.workers.waiting, h.workers.exited, h.workers.idle,
      h.workers.armed⟩, h.joined, h.joiners⟩
  cases h.slot with
  | idle hi => exact .idle ⟨hi.worker, hi.active, hi.joining, hi.created, hi.joins⟩
  | held hh => exact .held ⟨hh.worker, hh.active, hh.joining, hh.created, hh.joins⟩
  | reaping k hr =>
    exact .reaping k ⟨hr.worker, hr.active, hr.joining, hr.created, hr.joins, hr.present⟩

/-- What a step of the system is. -/
inductive SysMove (P : Platform) (config : Config) (s : Sys) : Label → Sys → Prop where
  | tick (ticks : Nat) : SysMove P config s (.tick ticks)
      (s.withShared { s.shared with clock := s.shared.clock + ticks })
  | places {l : Label} {s' : Sys} (label : (∃ c caller op, l = .invoke c caller op) ∨
      ∃ c, l = .collect c)
      (places : s.SamePlaces s') : SysMove P config s l s'
  | call {c : Nat} {call : Call} {pc' : CallPc} {s' : Sys} (choice : CallChoice)
      (present : s.calls c = some call)
      (step : callStep config c call choice s = some (pc', s'))
      (move : CallMove config c call.caller s call.pc pc' s') :
      SysMove P config s (.call c choice) (s'.setCall c (some { call with pc := pc' }))
  | worker {w : Nat} {t t' : Worker} {shared' : Shared} (choice : WorkerChoice)
      (present : s.workers w = some t)
      (step : workerStep P config w choice t s.shared = some (t', shared'))
      (move : WorkerMove t s.shared t' shared') :
      SysMove P config s (.worker w choice) ((s.withShared shared').setWorker w t')

theorem Sys.step_move {l : Label} (hstep : s.step P config l = some s') :
    SysMove P config s l s' := by
  cases l with
  | tick ticks =>
    cases hstep
    exact .tick ticks
  | invoke c caller op => exact .places (.inl ⟨c, caller, op, rfl⟩) (Sys.invoke_samePlaces hstep)
  | call c choice =>
    simp only [Sys.step] at hstep
    split at hstep
    · cases hstep
    · rename_i call hc
      obtain ⟨⟨pc', s''⟩, hcall, rfl⟩ := Option.map_eq_some_iff.mp hstep
      exact .call choice hc hcall (callStep_move hcall)
  | collect c => exact .places (.inr ⟨c, rfl⟩) (Sys.collect_samePlaces hstep)
  | worker w choice =>
    simp only [Sys.step] at hstep
    split at hstep
    · cases hstep
    · rename_i t ht
      obtain ⟨⟨t', shared'⟩, hworker, rfl⟩ := Option.map_eq_some_iff.mp hstep
      exact .worker choice ht hworker (workerStep_move hworker)

/-- Every step keeps the invariant. -/
theorem Sys.Wf.step (h : s.Wf) {l : Label} (hstep : s.step P config l = some s') : s'.Wf := by
  cases l with
  | invoke c caller op => exact h.invoke hstep
  | collect c => exact h.collect hstep
  | tick ticks =>
    cases hstep
    exact h.tick ticks
  | call c choice =>
    cases Sys.step_move hstep with
    | places label => simp at label
    | call _ hc _ move => exact h.callMove hc move
  | worker w choice =>
    cases Sys.step_move hstep with
    | places label => simp at label
    | worker _ ht step move => exact h.worker ht step

end OtherSteps

/-- Every state a client can get into is well formed. -/
theorem wf_of_reachable {P : Platform} {config : Config} {s : Sys}
    (h : (clientLts P config).Reachable s) : s.Wf := by
  refine Lts.Reach.invariant ?_ ?_ h
  · rintro s ⟨clock, -, rfl⟩
    exact Sys.wf_new config clock
  · intro s l t _ hstep hs
    exact hs.step hstep

end PyNetFT.Core
