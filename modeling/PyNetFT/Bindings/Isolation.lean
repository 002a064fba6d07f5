/-
PyNetFT.Bindings.Isolation — the books of the runs.

With the thread of a run known (`PyNetFT.Bindings.NativeRuns`), the queue
can be accounted for: what the run's thread pushed was taken, dropped or
is still queued, and the core has counted it, except for the sample of
which the callback has just returned. Generations grow from run to run,
so a read that has captured a generation can only take samples of its
own run.
-/
import PyNetFT.Bindings.NativeRuns
import Mathlib.Data.List.Nodup

namespace PyNetFT.Bindings

open PyNetFT.Lib PyNetFT.Core

/-! ## Callback and count -/

section Hands

variable {P : Platform} {config : Config} {s s' : Native}

/-- A native `start` always passes `queue_.push`. -/
theorem NativeMove.given (config : Config) {n : Nat} {pc pc' : NativePc}
    (h : NativeMove n s pc pc' s') :
    s'.core = s.core ∨ ∃ l, s.core.step P config l = some s'.core ∧
      (∀ w choice, l ≠ .worker w choice) ∧
      ∀ c caller callback, l = .invoke c caller (.start callback) → callback.isSome = true := by
  rcases h.waits with ⟨hsame, -⟩ | ⟨op, -, hawaits, hinvoke⟩ | ⟨-, hcollect⟩
  · exact .inl hsame
  · refine .inr ⟨.invoke (coreId n) none op, hinvoke, by simp, ?_⟩
    intro c caller callback heq
    cases heq
    cases pc' <;> cases hawaits
    rfl
  · exact .inr ⟨.collect (coreId n), hcollect, by simp, by simp⟩

/-- Every step of the native client is a step of the core or leaves the
core alone. -/
theorem Native.step_core {l : NativeLabel} (h : s.step P config l = some s') :
    s'.core = s.core ∨ ∃ k, s.core.step P config k = some s'.core ∧
      ∀ c caller callback, k = .invoke c caller (.start callback) → callback.isSome = true := by
  cases Native.step_move h with
  | @core k _ step =>
    obtain ⟨hcore, -, hinvoke, -⟩ := Native.coreStep_cases step
    refine .inr ⟨k, hcore, ?_⟩
    intro c caller callback heq
    cases (hinvoke c caller _ heq).2.2
  | invoke => exact .inl rfl
  | call present move =>
    rcases move.given (P := P) config with hsame | ⟨k, hcore, -, hgiven⟩
    · exact .inl hsame
    · exact .inr ⟨k, hcore, hgiven⟩
  | collect => exact .inl rfl

theorem handWf_of_reachable (h : (nativeLts P config).Reachable s) : s.core.HandWf := by
  refine Lts.Reach.invariant_using (K := fun s => Core.CoreOk s.core) (I := fun s => s.core.HandWf)
    (fun s hs => coreOk_of_reachable hs) ?_ ?_ h
  · rintro s ⟨clock, capacity, queue, -, -, rfl⟩
    exact Sys.handWf_new config clock
  · intro s l t _ hstep hK _ hs
    rcases Native.step_core hstep with hsame | ⟨k, hcore, hgiven⟩
    · rw [hsame]
      exact hs
    · exact hs.step hK.wf hgiven hcore

end Hands

/-! ## The books of a run -/

/-- What is known of a run, current or over. -/
structure Run.Ok (log : List Event) (r : Run) : Prop where
  taken : r.taken.Sublist r.pushed
  order : r.pushed.map Stamped.index = List.range r.pushed.length
  own : ∀ x ∈ r.pushed, x.worker = r.worker
  handed : (r.pushed.map Stamped.sample).Sublist (handed r.worker log)

/-- A later run has a later generation and, if the earlier one got
anything from its thread, another thread. -/
def Run.Before (a b : Run) : Prop :=
  a.generation < b.generation ∧ (a.pushed ≠ [] → a.worker < b.worker)

structure Native.QueueWf (s : Native) : Prop where
  books : s.queue.Books s.run.pushed s.run.taken
  current : s.queue.isClosed = false → s.queue.closeGeneration = s.run.generation
  closed : s.queue.isClosed = true → s.run.generation < s.queue.closeGeneration
  thread : s.run.pushed ≠ [] → s.run.worker < s.core.created
  order : s.run.pushed.map Stamped.index = List.range s.run.pushed.length
  own : ∀ x ∈ s.run.pushed, x.worker = s.run.worker
  handed : (s.run.pushed.map Stamped.sample ++
    (s.core.handover s.run.worker).offers).Sublist
      (handed s.run.worker s.core.shared.log)
  count : s.run.deliveredBefore + s.run.pushed.length =
    s.core.shared.health.deliveredCount +
      (s.core.handover s.run.worker).uncounted
  history : ∀ r ∈ s.history, r.Ok s.core.shared.log
  ordered : s.runs.Pairwise Run.Before
  reads : ∀ n call generation x, s.calls n = some call →
    call.pc = .returned (.read generation (.sample x)) →
    ∃ r ∈ s.runs, r.generation = generation ∧ x ∈ r.taken

section Books

variable {P : Platform} {config : Config} {s s' : Native} {n : Nat} {pc pc' : NativePc}

theorem Run.Ok.mono {r : Run} {log log' : List Event} (h : r.Ok log)
    (hlog : Core.handed r.worker log <+: Core.handed r.worker log') : r.Ok log' :=
  ⟨h.taken, h.order, h.own, h.handed.trans hlog.sublist⟩

theorem Native.QueueWf.run_ok (h : s.QueueWf) : s.run.Ok s.core.shared.log :=
  ⟨h.books.taken_sublist, h.order, h.own, (List.sublist_append_left _ _).trans h.handed⟩

theorem Native.QueueWf.runs_ok (h : s.QueueWf) : ∀ r ∈ s.runs, r.Ok s.core.shared.log := by
  intro r hr
  rcases List.mem_append.mp hr with hold | hnow
  · exact h.history r hold
  · rw [List.mem_singleton.mp hnow]
    exact h.run_ok

/-- The callback, in terms of the handover. -/
theorem Native.callback_of_nothing {w : Nat} {choice : WorkerChoice}
    (h : (s.core.handover w).offers = []) : s.callback w choice = s := by
  unfold Native.callback
  split
  · rename_i hw
    rw [Sys.handover_of_some hw] at h
    cases h
  · rfl

theorem Native.callback_of_offered {w : Nat} {sample : Sample}
    (h : s.core.handover w = .offered sample) :
    s.callback w .callbackReturns =
        { s with
          queue := s.queue.push ⟨w, s.run.pushed.length, sample⟩
          run := { s.run with pushed := s.run.pushed ++ [⟨w, s.run.pushed.length, sample⟩] } } ∧
      ∀ message, s.callback w (.callbackThrows message) = { s with queue := s.queue.makeRoom } := by
  unfold Sys.handover at h
  split at h
  · rename_i t ht
    obtain ⟨pc, backoff, nested⟩ := t
    cases pc <;> cases h
    simp [Native.callback, ht]
  · cases h

/-- A step that leaves queue, runs and handover alone. -/
theorem Native.QueueWf.frame (h : s.QueueWf) (hcore : s.core.SameBooks s'.core)
    (hqueue : s'.queue = s.queue) (hrun : s'.run = s.run) (hhistory : s'.history = s.history)
    (hcalls : ∀ n call x, s'.calls n = some call → call.pc.got = some x →
      s.calls n = some call) : s'.QueueWf := by
  have hruns : s'.runs = s.runs := by
    unfold Native.runs
    rw [hhistory, hrun]
  refine ⟨?_, ?_, ?_, ?_, ?_, ?_, ?_, ?_, ?_, ?_, ?_⟩
  · rw [hqueue, hrun]
    exact h.books
  · rw [hqueue, hrun]
    exact h.current
  · rw [hqueue, hrun]
    exact h.closed
  · rw [hrun]
    exact fun hne => Nat.lt_of_lt_of_le (h.thread hne) hcore.created
  · rw [hrun]
    exact h.order
  · rw [hrun]
    exact h.own
  · rw [hrun, hcore.handover, hcore.handed]
    exact h.handed
  · rw [hrun, hcore.handover, hcore.count]
    exact h.count
  · rw [hhistory]
    exact fun r hr => (h.history r hr).mono (hcore.handed r.worker ▸ List.prefix_rfl)
  · rw [hruns]
    exact h.ordered
  · rw [hruns]
    intro n call generation x hn hpc
    exact h.reads n call generation x (hcalls n call x hn (by rw [hpc]; rfl)) hpc

/-- Calls that have not just taken a sample. -/
theorem got_before {after : Option NativeCall} (hcalls : s'.calls = s.calls)
    (hafter : ∀ c, after = some c → c.pc.got = none) :
    ∀ m mc x, (s'.setCall n after).calls m = some mc → mc.pc.got = some x →
      s.calls m = some mc := by
  intro m mc x hm hgot
  rcases Native.setCall_cases hm with ⟨-, heq⟩ | ⟨-, hold⟩
  · rw [hafter mc heq] at hgot
    cases hgot
  · rw [hcalls] at hold
    exact hold

/-- `close` ends the generation of the run. -/
theorem Native.QueueWf.close (h : s.QueueWf) : s.closeQueue.QueueWf := by
  refine ⟨h.books, by simp [Native.closeQueue, SampleQueue.close], ?_, h.thread, h.order, h.own,
    h.handed, h.count, h.history, h.ordered, h.reads⟩
  intro _
  show s.run.generation < s.queue.closeGeneration + 1
  cases hclosed : s.queue.isClosed with
  | false =>
    have := h.current hclosed
    omega
  | true =>
    have := h.closed hclosed
    omega

/-- `reset` of a closed queue begins a run after all others. -/
theorem Native.QueueWf.reset (h : s.QueueWf) (hwf : s.core.Wf)
    (hlower : s.run.worker ≤ s.core.created) (hclosed : s.queue.isClosed = true) :
    s.resetQueue.QueueWf := by
  have hlast := h.closed hclosed
  have hfresh : s.core.handover s.core.created = .nothing :=
    hwf.handover_of_created (Nat.le_refl _)
  refine ⟨Ledger.empty, fun _ => rfl, by simp [Native.resetQueue, SampleQueue.reset],
    fun hne => absurd rfl hne, rfl, by simp [Native.resetQueue], ?_, ?_, ?_, ?_, ?_⟩
  · show (([] : List Sample) ++ (s.core.handover s.core.created).offers).Sublist _
    rw [hfresh]
    exact List.nil_sublist _
  · show _ = _ + (s.core.handover s.core.created).uncounted
    rw [hfresh]
    rfl
  · intro r hr
    exact h.runs_ok r hr
  · -- every earlier run comes before the last one, or is it
    show (s.runs ++ [_]).Pairwise Run.Before
    refine List.pairwise_append.mpr ⟨h.ordered, List.pairwise_singleton _ _, ?_⟩
    intro r hr new hnew
    rw [List.mem_singleton.mp hnew]
    rcases List.mem_append.mp hr with hold | hnow
    · have hbefore := (List.pairwise_append.mp h.ordered).2.2 r hold s.run
        (List.mem_singleton.mpr rfl)
      exact ⟨Nat.lt_trans hbefore.1 hlast, fun hne => Nat.lt_of_lt_of_le (hbefore.2 hne) hlower⟩
    · rw [List.mem_singleton.mp hnow]
      exact ⟨hlast, h.thread⟩
  · intro m call generation x hm hpc
    obtain ⟨r, hr, hfound⟩ := h.reads m call generation x hm hpc
    exact ⟨r, List.mem_append_left _ hr, hfound⟩

/-- The runs after the current one has pushed or taken a sample. -/
theorem ordered_of_run (h : s.runs.Pairwise Run.Before) (run : Run)
    (hgeneration : run.generation = s.run.generation) (hworker : run.worker = s.run.worker) :
    (s.history ++ [run]).Pairwise Run.Before := by
  obtain ⟨hold, -, hlast⟩ := List.pairwise_append.mp h
  refine List.pairwise_append.mpr ⟨hold, List.pairwise_singleton _ _, ?_⟩
  intro a ha b hb
  rw [List.mem_singleton.mp hb, Run.Before, hgeneration, hworker]
  exact hlast a ha s.run (List.mem_singleton.mpr rfl)

/-- The samples read from the runs are found there again after the current
one has pushed or taken a sample. -/
theorem Native.QueueWf.reads_of_run (h : s.QueueWf) (run : Run)
    (hgeneration : run.generation = s.run.generation) (htaken : s.run.taken ⊆ run.taken)
    {m generation : Nat} {call : NativeCall} {x : Stamped} (hm : s.calls m = some call)
    (hpc : call.pc = .returned (.read generation (.sample x))) :
    ∃ r ∈ s.history ++ [run], r.generation = generation ∧ x ∈ r.taken := by
  obtain ⟨q, hq, hgen, hx⟩ := h.reads m call generation x hm hpc
  rcases List.mem_append.mp hq with hold | hnow
  · exact ⟨q, List.mem_append_left _ hold, hgen, hx⟩
  · rw [List.mem_singleton.mp hnow] at hgen hx
    exact ⟨run, List.mem_append_right _ (List.mem_singleton.mpr rfl), hgeneration.trans hgen,
      htaken hx⟩

/-- A read takes the oldest sample of its own run. -/
theorem Native.QueueWf.take (h : s.QueueWf) {op : NativeOp} {r : Reading} {x : Stamped}
    {queue : SampleQueue Stamped} (hfront : s.queue.samples = x :: queue.samples)
    (hfree : s.queue.isClosed = false) (hcurrent : s.queue.closeGeneration = r.generation)
    (hsame : queue.isClosed = s.queue.isClosed ∧
      queue.closeGeneration = s.queue.closeGeneration ∧
      queue.droppedCount = s.queue.droppedCount) :
    (Native.setCall
      { s with queue := queue, run := { s.run with taken := s.run.taken ++ [x] } } n
      (some ⟨op, .returned (.read r.generation (.sample x))⟩)).QueueWf := by
  obtain ⟨hclosed, hgeneration, hdropped⟩ := hsame
  refine ⟨h.books.take hfront hdropped, ?_, ?_, h.thread, h.order, h.own, h.handed, h.count,
    h.history, ordered_of_run h.ordered _ rfl rfl, ?_⟩
  · show queue.isClosed = false → queue.closeGeneration = s.run.generation
    rw [hclosed, hgeneration]
    exact h.current
  · show queue.isClosed = true → s.run.generation < queue.closeGeneration
    rw [hclosed, hgeneration]
    exact h.closed
  · intro m call generation y hm hpc
    rcases Native.setCall_cases hm with ⟨rfl, heq⟩ | ⟨-, hm⟩
    · cases heq
      cases hpc
      exact ⟨_, List.mem_append_right _ (List.mem_singleton.mpr rfl),
        (h.current hfree).symm.trans hcurrent, List.mem_append_right _ (List.mem_singleton.mpr rfl)⟩
    · exact h.reads_of_run { s.run with taken := s.run.taken ++ [x] } rfl
        (List.subset_append_left _ _) hm hpc

/-- What a step of a receive thread does to the queue and to the current
run. Only the run's own thread has anything to hand over. -/
inductive PushMove (s : Native) (core : Sys) (w : Nat) : WorkerChoice → Native → Prop where
  | still {choice : WorkerChoice} (books : s.core.SameBooks core) :
      PushMove s core w choice { s with core := core }
  | offer {choice : WorkerChoice} (sample : Sample)
      (before : s.core.handover s.run.worker = .nothing)
      (after : core.handover s.run.worker = .offered sample)
      (handed : handed s.run.worker core.shared.log =
        handed s.run.worker s.core.shared.log ++ [sample])
      (count : core.shared.health.deliveredCount = s.core.shared.health.deliveredCount) :
      PushMove s core w choice { s with core := core }
  | accept (sample : Sample) (own : w = s.run.worker)
      (before : s.core.handover s.run.worker = .offered sample)
      (after : core.handover s.run.worker = .accepted sample)
      (kept : s.core.shared.SameHands core.shared) :
      PushMove s core w .callbackReturns
        { s with
          core := core
          queue := s.queue.push ⟨s.run.worker, s.run.pushed.length, sample⟩
          run := { s.run with
            pushed := s.run.pushed ++ [⟨s.run.worker, s.run.pushed.length, sample⟩] } }
  | refuse (sample : Sample) (message : String) (own : w = s.run.worker)
      (before : s.core.handover s.run.worker = .offered sample)
      (after : core.handover s.run.worker = .nothing)
      (kept : s.core.shared.SameHands core.shared) :
      PushMove s core w (.callbackThrows message)
        { s with core := core, queue := s.queue.makeRoom }
  | deliver {choice : WorkerChoice} (sample : Sample)
      (before : s.core.handover s.run.worker = .accepted sample)
      (after : core.handover s.run.worker = .nothing)
      (handed : handed s.run.worker core.shared.log = handed s.run.worker s.core.shared.log)
      (count : core.shared.health.deliveredCount = s.core.shared.health.deliveredCount + 1) :
      PushMove s core w choice { s with core := core }

theorem Native.worker_move (hrun : s.RunWf) (hwf : s.core.Wf) (hhand : s.core.HandWf) {w : Nat}
    {choice : WorkerChoice} {core : Sys}
    (hstep : s.core.step P config (.worker w choice) = some core) :
    core.created = s.core.created ∧
      PushMove s core w choice { s.callback w choice with core := core } := by
  rcases Sys.step_hands hhand hwf hstep with
    ⟨hno, -⟩ | ⟨v, choice', heq, hcreated, hlive, hothers, hmove⟩
  · exact absurd rfl (hno w choice)
  cases heq
  refine ⟨hcreated, ?_⟩
  have hsame : s.core.shared.SameHands core.shared → core.handover w = s.core.handover w →
      s.core.SameBooks core := by
    intro hkept hhere
    refine ⟨Nat.le_of_eq hcreated.symm, hkept.count, hkept.handed, ?_⟩
    intro u
    by_cases hu : u = w
    · rw [hu]
      exact hhere
    · exact hothers u hu
  by_cases hown : w = s.run.worker
  · subst hown
    generalize hb : s.core.handover s.run.worker = before at hmove
    generalize ha : core.handover s.run.worker = after at hmove
    cases hmove with
    | other kept =>
      rw [Native.callback_of_nothing (by rw [hb]; rfl)]
      exact .still (hsame kept (ha.trans hb.symm))
    | offer sample hgiven hcount =>
      rw [Native.callback_of_nothing (by rw [hb]; rfl)]
      exact .offer sample hb ha ((hgiven _).trans (by rw [if_pos rfl])) hcount
    | skip _ nobody =>
      rw [nobody] at hlive
      cases hlive
    | accept sample returns kept =>
      subst returns
      rw [(Native.callback_of_offered hb).1]
      exact .accept sample rfl hb ha kept
    | refuse sample message throws kept =>
      subst throws
      rw [(Native.callback_of_offered hb).2]
      exact .refuse sample message rfl hb ha kept
    | deliver sample hgiven hcount =>
      rw [Native.callback_of_nothing (by rw [hb]; rfl)]
      exact .deliver sample hb ha (hgiven _) hcount
  · -- an older thread is on its way out, and there is no newer one
    have hnothing : s.core.handover w = .nothing := by
      rcases Nat.lt_or_gt_of_ne hown with hlt | hgt
      · exact hrun.old.handover hlt
      · exact hwf.handover_of_created (Nat.le_trans hrun.upper hgt)
    have hafter : core.handover w = .nothing := by
      rcases Nat.lt_or_gt_of_ne hown with hlt | hgt
      · exact (hrun.old.step hrun.lower hstep).handover hlt
      · exact (hwf.step hstep).handover_of_created (hcreated ▸ Nat.le_trans hrun.upper hgt)
    rw [Native.callback_of_nothing (by rw [hnothing]; rfl)]
    rw [hnothing, hafter] at hmove
    cases hmove with
    | other kept => exact .still (hsame kept (hafter.trans hnothing.symm))

/-- A push by the run's thread. -/
theorem Native.QueueWf.push (h : s.QueueWf) {core : Sys} {sample : Sample}
    (hcreated : s.run.worker < core.created)
    (hbefore : s.core.handover s.run.worker = .offered sample)
    (hafter : core.handover s.run.worker = .accepted sample)
    (hkept : s.core.shared.SameHands core.shared) (hold : ∀ r ∈ s.history, r.Ok core.shared.log) :
    ({ s with
        core := core
        queue := s.queue.push ⟨s.run.worker, s.run.pushed.length, sample⟩
        run := { s.run with
          pushed := s.run.pushed ++ [⟨s.run.worker, s.run.pushed.length, sample⟩] } } :
      Native).QueueWf := by
  have hhanded := h.handed
  have hcount := h.count
  rw [hbefore] at hhanded hcount
  refine ⟨h.books.push _, ?_, ?_, fun _ => hcreated, ?_, ?_, ?_, ?_, hold,
    ordered_of_run h.ordered _ rfl rfl, ?_⟩
  · intro hopen
    exact (SampleQueue.push_closeGeneration _ _).trans
      (h.current ((SampleQueue.push_isClosed _ _).symm.trans hopen))
  · intro hclosed
    rw [SampleQueue.push_closeGeneration]
    exact h.closed ((SampleQueue.push_isClosed _ _).symm.trans hclosed)
  · dsimp only
    rw [List.map_append, h.order, List.length_append, List.length_singleton, List.range_succ]
    rfl
  · intro x hx
    rcases List.mem_append.mp hx with hx | hx
    · exact h.own x hx
    · rw [List.mem_singleton.mp hx]
  · dsimp only
    rw [hafter, hkept.handed, List.map_append]
    exact (List.append_nil _).symm ▸ hhanded
  · dsimp only
    rw [hafter, hkept.count, List.length_append, ← Nat.add_assoc, hcount]
    rfl
  · intro m call generation y hm hpc
    exact h.reads_of_run { s.run with pushed := s.run.pushed ++ [_] } rfl
      (List.Subset.refl _) hm hpc

/-- A push that fails has made room. -/
theorem Native.QueueWf.refuse (h : s.QueueWf) {core : Sys} {sample : Sample}
    (hcreated : core.created = s.core.created)
    (hbefore : s.core.handover s.run.worker = .offered sample)
    (hafter : core.handover s.run.worker = .nothing)
    (hkept : s.core.shared.SameHands core.shared) (hold : ∀ r ∈ s.history, r.Ok core.shared.log) :
    ({ s with core := core, queue := s.queue.makeRoom } : Native).QueueWf := by
  have hhanded := h.handed
  have hcount := h.count
  rw [hbefore] at hhanded hcount
  refine ⟨h.books.makeRoom, ?_, ?_, ?_, h.order, h.own, ?_, ?_, hold, h.ordered, h.reads⟩
  · intro hopen
    exact (SampleQueue.makeRoom_closeGeneration _).trans
      (h.current ((SampleQueue.makeRoom_isClosed _).symm.trans hopen))
  · intro hclosed
    rw [SampleQueue.makeRoom_closeGeneration]
    exact h.closed ((SampleQueue.makeRoom_isClosed _).symm.trans hclosed)
  · exact fun hne => hcreated ▸ h.thread hne
  · dsimp only
    rw [hafter, hkept.handed]
    exact (List.append_nil _).symm ▸ (List.sublist_append_left _ _).trans hhanded
  · dsimp only
    rw [hafter, hkept.count]
    exact hcount

theorem Native.QueueWf.worker (h : s.QueueWf) (hrun : s.RunWf) (hwf : s.core.Wf)
    (hhand : s.core.HandWf) {w : Nat} {choice : WorkerChoice} {core : Sys}
    (hstep : s.core.step P config (.worker w choice) = some core) :
    ({ s.callback w choice with core := core } : Native).QueueWf := by
  have hold : ∀ r ∈ s.history, r.Ok core.shared.log :=
    fun r hr => (h.history r hr).mono (Sys.handed_step hhand hwf hstep r.worker)
  obtain ⟨hcreated, hmove⟩ := Native.worker_move hrun hwf hhand hstep
  generalize ({ s.callback w choice with core := core } : Native) = u at hmove ⊢
  have hthread : s.run.pushed ≠ [] → s.run.worker < core.created :=
    fun hne => hcreated ▸ h.thread hne
  have hhanded := h.handed
  have hcount := h.count
  cases hmove with
  | still books => exact h.frame books rfl rfl rfl fun _ _ _ hn _ => hn
  | offer sample before after hgiven hkept =>
    rw [before] at hhanded hcount
    refine ⟨h.books, h.current, h.closed, hthread, h.order, h.own, ?_, ?_, hold, h.ordered,
      h.reads⟩
    · dsimp only
      rw [after, hgiven]
      rw [show Handover.nothing.offers = [] from rfl, List.append_nil] at hhanded
      exact hhanded.append (List.Sublist.refl _)
    · dsimp only
      rw [after, hkept]
      exact hcount
  | accept sample own before after kept =>
    refine h.push ?_ before after kept hold
    by_contra hnot
    rw [hwf.handover_of_created (by omega)] at before
    cases before
  | refuse sample message own before after kept => exact h.refuse hcreated before after kept hold
  | deliver sample before after hgiven hkept =>
    rw [before] at hhanded hcount
    refine ⟨h.books, h.current, h.closed, hthread, h.order, h.own, ?_, ?_, hold, h.ordered,
      h.reads⟩
    · dsimp only
      rw [after, hgiven]
      exact hhanded
    · dsimp only
      rw [after, hkept]
      exact hcount

/-- A core call made or taken off hands nothing over. -/
theorem Native.CallsWf.sameBooks (h : s.CallsWf) (hmove : NativeMove n s pc pc' s') :
    s.core.SameBooks s'.core := by
  rcases hmove.core with hsame | ⟨op, hinvoke⟩ | hcollect
  · rw [hsame]
    exact .refl _
  · rw [(invoke_outside hinvoke).2]
    exact s.core.sameBooks_setCall _ _
  · rw [collect_outside (fun c hc => (h.waits n c hc).1) hcollect]
    exact s.core.sameBooks_setCall _ _

theorem Native.QueueWf.call (h : s.QueueWf) (hrun : s.RunWf) (hcalls : s.CallsWf)
    (hwf : s.core.Wf) {call : NativeCall} (hn : s.calls n = some call)
    (hmove : NativeMove n s call.pc pc' s') :
    (s'.setCall n (some { call with pc := pc' })).QueueWf := by
  have hbooks := hcalls.sameBooks hmove
  have hplace := hrun.places n call hn
  obtain ⟨op, pc⟩ := call
  dsimp only at hmove hplace ⊢
  -- a place that has just been reached without taking a sample
  have hquiet : ∀ {u : Native}, u.QueueWf → u.calls = s.calls → pc'.got = none →
      (u.setCall n (some ⟨op, pc'⟩)).QueueWf := by
    intro u hu hsame hgot
    refine hu.frame (.refl _) rfl rfl rfl (got_before rfl ?_)
    rintro c ⟨⟩
    exact hgot
  cases hmove with
  | look _ _ got => exact hquiet h rfl got
  | take front free current same => exact h.take front free current same
  | enter _ place =>
    rcases place with ⟨-, rfl⟩ | ⟨-, rfl⟩ <;>
      exact hquiet (h.frame hbooks rfl rfl rfl fun _ _ _ hm _ => hm) rfl rfl
  | already => exact hquiet (h.frame hbooks rfl rfl rfl fun _ _ _ hm _ => hm) rfl rfl
  | begin => exact hquiet h rfl rfl
  | halt place =>
    rcases place with ⟨-, rfl⟩ | ⟨-, rfl⟩ | ⟨message, -, rfl⟩ <;>
      exact hquiet (h.frame hbooks rfl rfl rfl fun _ _ _ hm _ => hm) rfl rfl
  | close place => rcases place with ⟨-, rfl⟩ | ⟨-, rfl⟩ <;> exact hquiet h.close rfl rfl
  | reset => exact hquiet (h.reset hwf hrun.lower hplace.2) rfl rfl
  | call place =>
    rcases place with ⟨-, rfl, -⟩ | ⟨-, rfl, -⟩ <;>
      exact hquiet (h.frame hbooks rfl rfl rfl fun _ _ _ hm _ => hm) rfl rfl
  | started => exact hquiet (h.frame hbooks rfl rfl rfl fun _ _ _ hm _ => hm) rfl rfl
  | failed => exact hquiet (h.frame hbooks rfl rfl rfl fun _ _ _ hm _ => hm) rfl rfl
  | run => exact hquiet (h.frame hbooks rfl rfl rfl fun _ _ _ hm _ => hm) rfl rfl
  | unwind => exact hquiet (h.close.frame hbooks rfl rfl rfl fun _ _ _ hm _ => hm) rfl rfl
  | stopped => exact hquiet (h.frame hbooks rfl rfl rfl fun _ _ _ hm _ => hm) rfl rfl

theorem Native.QueueWf.core (h : s.QueueWf) (hrun : s.RunWf) (hwf : s.core.Wf)
    (hhand : s.core.HandWf) {l : Label} (hstep : s.coreStep P config l = some s') :
    s'.QueueWf := by
  obtain ⟨hcore, hqueue, -⟩ := Native.coreStep_cases hstep
  rcases hqueue with ⟨hno, hs'⟩ | ⟨w, choice, rfl, hs'⟩
  · rcases Sys.step_hands hhand hwf hcore with ⟨-, hcount, hkept⟩ | ⟨w, choice, heq, -⟩
    · have hbooks : s.core.SameBooks s'.core :=
        ⟨Sys.created_mono hcore, hcount, fun w => (hkept w).1, fun w => (hkept w).2⟩
      rw [hs']
      exact h.frame hbooks rfl rfl rfl fun _ _ _ hn _ => hn
    · exact absurd heq (hno w choice)
  · rw [hs']
    exact h.worker hrun hwf hhand hcore

theorem Native.QueueWf.step (h : s.QueueWf) (hrun : s.RunWf) (hcalls : s.CallsWf)
    (hwf : s.core.Wf) (hhand : s.core.HandWf) {l : NativeLabel}
    (hstep : s.step P config l = some s') : s'.QueueWf := by
  cases Native.step_move hstep with
  | core step => exact h.core hrun hwf hhand step
  | @invoke n op free =>
    refine h.frame (.refl _) rfl rfl rfl (got_before rfl ?_)
    rintro c ⟨⟩
    cases op <;> rfl
  | call present move => exact h.call hrun hcalls hwf present move
  | collect => exact h.frame (.refl _) rfl rfl rfl (got_before rfl (by simp))

end Books

theorem queueWf_of_reachable {P : Platform} {config : Config} {s : Native}
    (h : (nativeLts P config).Reachable s) : s.QueueWf := by
  refine Lts.Reach.invariant_using
    (K := fun s => s.RunWf ∧ s.CallsWf ∧ s.core.Wf ∧ s.core.HandWf) ?_ ?_ ?_ h
  · intro s hs
    exact ⟨runWf_of_reachable hs, callsWf_of_reachable hs, (coreOk_of_reachable hs).wf,
      handWf_of_reachable hs⟩
  · rintro s ⟨clock, capacity, queue, -, hqueue, rfl⟩
    unfold SampleQueue.new at hqueue
    split at hqueue
    · cases hqueue
    · cases hqueue
      refine ⟨Ledger.empty, fun _ => rfl, by simp, fun hne => absurd rfl hne, rfl, by simp,
        List.nil_sublist _, rfl, by simp, List.pairwise_singleton _ _, by simp⟩
  · intro s l t _ hstep hK _ hs
    exact hs.step hK.1 hK.2.1 hK.2.2.1 hK.2.2.2 hstep

/-! ## What was taken stays -/

/-- A read has taken the sample in the run of this generation. -/
def Native.Took (s : Native) (generation : Nat) (x : Stamped) : Prop :=
  ∃ r ∈ s.runs, r.generation = generation ∧ x ∈ r.taken

section Took

variable {P : Platform} {config : Config} {s s' : Native} {generation : Nat} {x : Stamped}

/-- The runs after a step: the last one may have grown, and another one
may have begun. -/
theorem Native.Took.of_runs (h : s.Took generation x) {run : Run} {later : List Run}
    (hruns : s'.runs = s.history ++ run :: later) (hgeneration : run.generation = s.run.generation)
    (htaken : s.run.taken ⊆ run.taken) : s'.Took generation x := by
  obtain ⟨r, hr, hgen, hx⟩ := h
  unfold Native.Took
  rw [hruns]
  rcases List.mem_append.mp hr with hold | hnow
  · exact ⟨r, List.mem_append_left _ hold, hgen, hx⟩
  · obtain rfl := List.mem_singleton.mp hnow
    exact ⟨run, by simp, hgeneration.trans hgen, htaken hx⟩

/-- A step of the core takes nothing from the queue. -/
theorem Native.coreStep_taken {l : Label} (hstep : s.coreStep P config l = some s') :
    s'.history = s.history ∧ s'.run.generation = s.run.generation ∧ s'.run.taken = s.run.taken := by
  obtain ⟨-, hqueue, -⟩ := Native.coreStep_cases hstep
  rcases hqueue with ⟨-, hs'⟩ | ⟨w, choice, -, hs'⟩
  · rw [hs']
    exact ⟨rfl, rfl, rfl⟩
  · rw [hs']
    dsimp only
    unfold Native.callback
    split
    · split <;> exact ⟨rfl, rfl, rfl⟩
    · exact ⟨rfl, rfl, rfl⟩

theorem Native.Took.step (h : s.Took generation x) {l : NativeLabel}
    (hstep : s.step P config l = some s') : s'.Took generation x := by
  cases Native.step_move hstep with
  | core step =>
    obtain ⟨hhistory, hgeneration, htaken⟩ := Native.coreStep_taken step
    have hruns : s'.runs = s.history ++ [s'.run] := by rw [← hhistory]; rfl
    exact h.of_runs hruns hgeneration (htaken ▸ List.Subset.refl _)
  | invoke => exact h.of_runs rfl rfl (List.Subset.refl _)
  | @call n before pc' u present move =>
    obtain ⟨op, pc⟩ := before
    dsimp only at move
    cases move with
    | take => exact h.of_runs rfl rfl (List.subset_append_left _ _)
    | reset => exact h.of_runs (List.append_assoc _ [s.run] _) rfl (List.Subset.refl _)
    | _ => exact h.of_runs rfl rfl (List.Subset.refl _)
  | collect => exact h.of_runs rfl rfl (List.Subset.refl _)

end Took

/-! ## Runs are isolated and accounted for -/

/-- What a read that has just got its sample has done. -/
theorem read_takes {P : Platform} {config : Config} {s t : Native} {n generation : Nat}
    {call : NativeCall} {x : Stamped} (hstep : s.step P config (.call n) = some t)
    (hn : t.calls n = some call) (hpc : call.pc = .returned (.read generation (.sample x))) :
    s.queue.isClosed = false ∧ s.queue.closeGeneration = generation ∧
      s.queue.samples = x :: t.queue.samples ∧
      t.run = { s.run with taken := s.run.taken ++ [x] } := by
  cases Native.step_move hstep with
  | @call _ before pc' u present move =>
    rw [Native.setCall_calls_self] at hn
    cases hn
    obtain ⟨op, pc⟩ := before
    dsimp only at hpc move
    subst hpc
    cases move with
    | look _ _ got => cases got
    | take front free current => exact ⟨free, current, front, rfl⟩
    | enter _ place => rcases place with ⟨-, hbad⟩ | ⟨-, hbad⟩ <;> cases hbad
    | halt place =>
      rcases place with ⟨-, hbad⟩ | ⟨-, hbad⟩ | ⟨message, -, hbad⟩ <;> cases hbad
    | close place => rcases place with ⟨-, hbad⟩ | ⟨-, hbad⟩ <;> cases hbad
    | call place => rcases place with ⟨-, hbad, -⟩ | ⟨-, hbad, -⟩ <;> cases hbad

theorem Run.Ok.nodup {r : Run} {log : List Event} (h : r.Ok log) : r.pushed.Nodup := by
  refine List.Nodup.of_map Stamped.index ?_
  rw [h.order]
  exact List.nodup_range

/-- A sample was pushed in one run only. -/
theorem Native.QueueWf.pushed_once {s : Native} (h : s.QueueWf) {a b : Run} (ha : a ∈ s.runs)
    (hb : b ∈ s.runs) {x : Stamped} (hxa : x ∈ a.pushed) (hxb : x ∈ b.pushed) : a = b := by
  -- runs with pushes have different workers, in either order
  have hapart : ∀ {a b : Run}, a ∈ s.runs → b ∈ s.runs → Run.Before a b →
      x ∈ a.pushed → x ∈ b.pushed → False := by
    intro a b ha hb hbefore hxa hxb
    have hworkers := hbefore.2 (List.ne_nil_of_mem hxa)
    rw [← (h.runs_ok a ha).own x hxa, ← (h.runs_ok b hb).own x hxb] at hworkers
    exact Nat.lt_irrefl _ hworkers
  refine List.Pairwise.forall_of_forall_of_flip
    (R := fun a b : Run => x ∈ a.pushed → x ∈ b.pushed → a = b) (fun _ _ _ _ => rfl)
    (h.ordered.imp_of_mem fun ha hb hbefore hxa hxb => (hapart ha hb hbefore hxa hxb).elim)
    (h.ordered.imp_of_mem fun ha hb hbefore hxb hxa => (hapart ha hb hbefore hxa hxb).elim)
    ha hb hxa hxb

/-- What was taken in a run was pushed in it, and in no other. -/
theorem Native.QueueWf.pushed_of_took {s : Native} (h : s.QueueWf) {g : Nat} {x : Stamped}
    (htook : s.Took g x) : ∃ run ∈ s.runs, run.generation = g ∧ x ∈ run.pushed ∧
      ∀ other ∈ s.runs, x ∈ other.pushed → other = run := by
  obtain ⟨run, hrun, hgeneration, hx⟩ := htook
  have hpushed := (h.runs_ok run hrun).taken.subset hx
  exact ⟨run, hrun, hgeneration, hpushed, fun other hother hx' =>
    h.pushed_once hother hrun hx' hpushed⟩

/-- For any interleaving of native calls with the core, its receive
threads and their pushes: a read returns samples of the run with its
generation only, pushed by that run's receive thread; the samples taken
in a run are, in the order of removal, a subsequence without repetition
of what the run's thread delivered; every push of the run is accounted
for, and the core has counted all of them or all but the last. -/
theorem native_run_isolation (P : Platform) (config : Config) {s : Native}
    (h : (nativeLts P config).Reachable s) :
    (∀ n call generation x, s.calls n = some call →
        call.pc = .returned (.read generation (.sample x)) →
        ∃ r ∈ s.runs, r.generation = generation ∧ x ∈ r.taken ∧ x ∈ r.pushed ∧
          x.worker = r.worker) ∧
      s.runs.Pairwise (fun a b => a.generation < b.generation ∧
        (a.pushed ≠ [] → a.worker < b.worker)) ∧
      (∀ r ∈ s.runs, r.taken.Sublist r.pushed ∧ r.taken.Nodup ∧
        (∀ x ∈ r.pushed, x.worker = r.worker) ∧
        (r.pushed.map Stamped.sample).Sublist (handed r.worker s.core.shared.log)) ∧
      (∀ n t call generation x, s.step P config (.call n) = some t → t.calls n = some call →
        call.pc = .returned (.read generation (.sample x)) →
        generation = s.run.generation ∧ s.queue.samples = x :: t.queue.samples ∧
          t.run = { s.run with taken := s.run.taken ++ [x] }) ∧
      s.run.pushed.length =
        s.run.taken.length + s.queue.droppedCount + s.queue.samples.length ∧
      (s.run.deliveredBefore + s.run.pushed.length = s.core.shared.health.deliveredCount ∨
        s.run.deliveredBefore + s.run.pushed.length =
          s.core.shared.health.deliveredCount + 1) := by
  have hwf := queueWf_of_reachable h
  refine ⟨?_, hwf.ordered, ?_, ?_, hwf.books.count, ?_⟩
  · intro n call generation x hn hpc
    obtain ⟨r, hr, hgen, hx⟩ := hwf.reads n call generation x hn hpc
    have hok := hwf.runs_ok r hr
    have hpushed := hok.taken.subset hx
    exact ⟨r, hr, hgen, hx, hpushed, hok.own x hpushed⟩
  · intro r hr
    have hok := hwf.runs_ok r hr
    exact ⟨hok.taken, hok.nodup.sublist hok.taken, hok.own, hok.handed⟩
  · intro n t call generation x hstep hn hpc
    obtain ⟨hfree, hcurrent, hfront, htaken⟩ := read_takes hstep hn hpc
    exact ⟨hcurrent.symm.trans (hwf.current hfree), hfront, htaken⟩
  · rw [hwf.count]
    cases s.core.handover s.run.worker with
    | accepted => exact .inr rfl
    | nothing => exact .inl rfl
    | offered => exact .inl rfl

/-- A client with a queue of four. -/
def overrideNative (config : Config) : Native :=
  { core := Sys.new config 1000
    queue := ⟨4, [], 0, 0, false, by decide, Nat.zero_le _⟩ }

theorem overrideNative_reachable (P : Platform) {config : Config}
    (h : validateConfig 1000 config = .ok ()) :
    (nativeLts P config).Reachable (overrideNative config) :=
  Lts.Reachable.init ⟨1000, 4, _, h, rfl, rfl⟩

/-- `NativeClient::start` to its return. -/
def nativeStart : List NativeLabel :=
  [.invoke 0 .start, .call 0, .call 0, .call 0, .call 0, .call 0, .call 0, .core (.call 0 .go),
   .core (.call 0 .go), .core (.call 0 .go), .core (.call 0 .go), .call 0, .call 0, .collect 0]

/-- The receive thread up to one datagram pushed. -/
def workerPushes (bytes : List UInt8) : List NativeLabel :=
  [.go, .go, .go, .http (.failed ""), .go, .go, .connect none, .send .sent, .go, .go, .go, .go, .go,
    .poll (.ready false), .go, .recv (.datagram bytes), .go, .go, .go, .callbackReturns].map
    fun choice => .core (.worker 0 choice)

/-- A read from its call to its return with a sample. -/
def nativeRead : List NativeLabel :=
  [.invoke 1 (.read none), .call 1, .call 1, .call 1, .call 1, .call 1, .call 1, .call 1, .call 1]

/-- A reader gets the sample before the core has counted it. -/
theorem native_run_isolation_delivered :
    ∃ s x, (nativeLts exactPlatform overrideConfig).Reachable s ∧
      s.run.pushed = [x] ∧ s.run.taken = [x] ∧ s.run.generation = 1 ∧
      s.run.deliveredBefore + s.run.pushed.length =
        s.core.shared.health.deliveredCount + 1 ∧
      (handed 0 s.core.shared.log).length = 1 ∧ s.queue.samples = [] := by
  obtain ⟨s, hs, hp⟩ := Lts.exists_of_exec
    (l := nativeStart ++ workerPushes (List.replicate 36 0) ++ nativeRead)
    (p := fun s : Native => decide (s.run.taken.length = 1 ∧ s.run.generation = 1 ∧
      s.run.pushed.length = 1 ∧ s.run.worker = 0 ∧
      s.run.deliveredBefore + s.run.pushed.length = s.core.shared.health.deliveredCount + 1 ∧
      (handed 0 s.core.shared.log).length = 1))
    (overrideNative_reachable exactPlatform
      overrideConfig_valid) (by decide +kernel)
  obtain ⟨htaken, hgen, hpushed, hworker, hcount, hhanded⟩ := of_decide_eq_true hp
  obtain ⟨-, -, hruns, -, hbooks, -⟩ := native_run_isolation exactPlatform overrideConfig hs
  have hnow := (hruns s.run (List.mem_append_right _ (List.mem_singleton.mpr rfl))).1
  obtain ⟨x, hx⟩ := List.length_eq_one_iff.mp hpushed
  have hsame : s.run.taken = s.run.pushed := hnow.eq_of_length (htaken.trans hpushed.symm)
  refine ⟨s, x, hs, hx, hsame.trans hx, hgen, hcount, hhanded, ?_⟩
  rw [← List.length_eq_zero_iff]
  omega

end PyNetFT.Bindings
