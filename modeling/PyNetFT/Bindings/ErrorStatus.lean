/-
PyNetFT.Bindings.ErrorStatus — the last samples before a fail-stop.

With `deliver_samples_with_error_status` the core hands the sample with
the error status to the callback before it latches the fault, so the
sample is in the queue when the fault is published. But `read` looks at
the fault latch before it looks at the queue: a reader that comes by
between the two steps of the receive thread gets the sample, one that
comes by after them is told that the client is closed while the sample
is still queued. So is a read that notes the generation of the run before
`start` has stored `running_`.

The module follows one run, the first of a client or a later one, from
the `close` that makes its generation: `Native.Undisturbed` says that
nothing halts the client and every push goes through. It shows a run in
which the sample is lost, and proves that these are the only ways to lose
one: as long as no check of `running_` comes too early and no check of
the latch finds both a fault and a sample (`Native.Prompt`), a read
returns `Closed` only when the readers have had everything.
-/
import PyNetFT.Bindings.ReadAnswers
import PyNetFT.Bindings.ReadGenerations

namespace PyNetFT.Bindings

open PyNetFT.Lib PyNetFT.Core

/-! ## The steps of one run -/

/-- The places where a read looks at `running_`. -/
def NativePc.checksRunning : NativePc → Bool
  | .readRunning _ | .readRunningAgain _ => true
  | _ => false

/-- The run of generation `g` goes on: no `stop` and no other `start`
halts the client, and a push of its thread finds room and does not throw. -/
structure Native.Undisturbed (g : Nat) (s : Native) (l : NativeLabel) : Prop where
  goesOn : ∀ n call, l = .call n → s.calls n = some call →
    call.pc ≠ .stopEnter ∧ call.pc ≠ .startHalt
  fits : ∀ choice, l = .core (.worker s.run.worker choice) → s.run.generation = g →
    (s.core.handover s.run.worker).offers ≠ [] →
      choice = .callbackReturns ∧ s.queue.samples.length < s.queue.capacity

/-- A read of the run looks at `running_` only once `start` has stored it,
and at the fault latch only while that is clear or nothing is queued. -/
structure Native.Prompt (g : Nat) (s : Native) (l : NativeLabel) : Prop
    extends Native.Undisturbed g s l where
  begun : ∀ n call, l = .call n → s.calls n = some call → call.pc.captured = some g →
    call.pc.checksRunning = true → s.running = true
  drained : ∀ n call, l = .call n → s.calls n = some call → call.pc.captured = some g →
    call.pc.checksFault = true → s.core.shared.faulted = true → s.queue.samples = []

/-! ## The generations that reads have noted -/

theorem captured_le_of_reachable {P : Platform} {config : Config} {s : Native}
    (h : (nativeLts P config).Reachable s) : ∀ n call g, s.calls n = some call →
      call.pc.captured = some g → g ≤ s.queue.closeGeneration := by
  refine Lts.Reach.invariant_using (K := fun s => s.RunWf)
    (I := fun s => ∀ n call g, s.calls n = some call → call.pc.captured = some g →
      g ≤ s.queue.closeGeneration) (fun s hs => runWf_of_reachable hs) ?_ ?_ h
  · rintro s ⟨clock, capacity, queue, -, -, rfl⟩ n call g hn
    cases hn
  · intro s l t _ hstep hrun _ hs n call g hn hg
    have hmono := (Native.step_run hrun hstep).1
    change s.step P config l = some t at hstep
    cases Native.step_move hstep with
    | core step => exact (hs n call g ((Native.coreStep_control step).calls ▸ hn) hg).trans hmono
    | @invoke m op free =>
      rcases Native.setCall_cases hn with ⟨-, heq⟩ | ⟨-, hold⟩
      · cases heq
        cases op <;> cases hg
      · exact hs n call g hold hg
    | collect =>
      rcases Native.setCall_cases hn with ⟨-, heq⟩ | ⟨-, hold⟩
      · cases heq
      · exact hs n call g hold hg
    | @call m before pc' u present move =>
      by_cases hmn : n = m
      · subst hmn
        obtain ⟨before, hbefore, hcaptured | ⟨-, rfl⟩⟩ := Native.step_captured hstep hn hg
        · exact (hs n before g hbefore hcaptured).trans hmono
        · exact hmono
      · rw [Native.setCall_calls_of_ne _ _ hmn, move.lock.1] at hn
        exact (hs n call g hn hg).trans hmono

/-- A read that has noted its generation and not looked at `running_`. -/
def NativePc.early : NativePc → Bool
  | .readClock _ _ | .readRunning _ => true
  | _ => false

/-- A read comes further by a look at `running_` only. -/
theorem readStep_early {s s' : Native} {pc pc' : NativePc} {g : Nat}
    (h : readStep s pc = some (pc', s')) (hg : pc'.captured = some g) (hpast : pc'.early = false) :
    pc.captured = some g ∧ (pc.early = false ∨ pc.checksRunning = true) := by
  rcases readStep_captured h hg with hsame | ⟨⟨timeout, rfl⟩, -⟩
  · refine ⟨hsame, ?_⟩
    cases pc
    case readClock timeout generation =>
      cases h
      cases hpast
    case readRunning r => exact .inr rfl
    all_goals exact .inl rfl
  · cases h
    cases hpast

/-! ## Nothing is dropped and nothing is refused -/

theorem nothingEarly_of_reachable {P : Platform} {config : Config} {s : Native}
    (h : (nativeLts P config).Reachable s) : s.core.NothingEarly := by
  refine Lts.Reach.invariant_using (K := fun s => Core.CoreOk s.core ∧ s.core.HandWf)
    (I := fun s => s.core.NothingEarly)
    (fun s hs => ⟨coreOk_of_reachable hs, handWf_of_reachable hs⟩) ?_ ?_ h
  · rintro s ⟨clock, capacity, queue, -, -, rfl⟩
    exact fun _ _ => rfl
  · rintro s l t - hstep ⟨hok, hhand⟩ - hs
    rcases Native.step_core hstep with hsame | ⟨k, hcore, -⟩
    · exact hsame ▸ hs
    · exact hs.step hhand hok.wf hcore

theorem SampleQueue.makeRoom_of_room {α : Type} {q : SampleQueue α}
    (h : q.samples.length < q.capacity) : q.makeRoom = q := by
  unfold SampleQueue.makeRoom
  rw [if_neg (Nat.ne_of_lt h)]

/-- What the thread of the run has handed over was pushed, but for the
sample its callback has in hand. -/
structure Native.Kept (s : Native) : Prop where
  dropped : s.queue.droppedCount = 0
  handed : s.run.pushed.map Stamped.sample ++ (s.core.handover s.run.worker).offers =
    handed s.run.worker s.core.shared.log

section Kept

variable {P : Platform} {config : Config} {s s' : Native} {n : Nat}

theorem Native.Kept.frame (h : s.Kept) (hcore : s.core.SameBooks s'.core)
    (hdropped : s'.queue.droppedCount = s.queue.droppedCount)
    (hpushed : s'.run.pushed = s.run.pushed) (hworker : s'.run.worker = s.run.worker) :
    s'.Kept := by
  refine ⟨hdropped.trans h.dropped, ?_⟩
  rw [hpushed, hworker, hcore.handover, hcore.handed]
  exact h.handed

/-- A run begins with empty books. -/
theorem Native.kept_reset (hearly : s.core.NothingEarly) (hwf : s.core.Wf) :
    s.resetQueue.Kept := by
  refine ⟨rfl, ?_⟩
  show [] ++ (s.core.handover s.core.created).offers = Core.handed s.core.created s.core.shared.log
  rw [hwf.handover_of_created (Nat.le_refl _), hearly _ (Nat.le_refl _)]
  rfl

theorem Native.Kept.worker (h : s.Kept) (hk : s.Known P config) {w : Nat} {choice : WorkerChoice}
    {core : Sys} (hfits : w = s.run.worker → (s.core.handover s.run.worker).offers ≠ [] →
      choice = .callbackReturns ∧ s.queue.samples.length < s.queue.capacity)
    (hstep : s.core.step P config (.worker w choice) = some core) :
    ({ s.callback w choice with core := core } : Native).Kept := by
  have hhanded := h.handed
  obtain ⟨-, hmove⟩ := Native.worker_move hk.run hk.core.wf hk.hand hstep
  generalize ({ s.callback w choice with core := core } : Native) = u at hmove ⊢
  cases hmove with
  | still books => exact h.frame books rfl rfl rfl
  | offer sample before after hgiven =>
    refine ⟨h.dropped, ?_⟩
    rw [before] at hhanded
    dsimp only
    rw [after, hgiven, ← hhanded, show Handover.nothing.offers = [] from rfl, List.append_nil]
    rfl
  | accept sample own before after kept =>
    obtain ⟨-, hroom⟩ := hfits own (by rw [before]; simp [Handover.offers])
    refine ⟨?_, ?_⟩
    · show s.queue.makeRoom.droppedCount = 0
      rw [SampleQueue.makeRoom_of_room hroom]
      exact h.dropped
    · dsimp only
      rw [after, kept.handed, ← hhanded, before, List.map_append]
      exact List.append_nil _
  | refuse sample message own before =>
    obtain ⟨hreturns, -⟩ := hfits own (by rw [before]; simp [Handover.offers])
    cases hreturns
  | deliver sample before after hgiven =>
    refine ⟨h.dropped, ?_⟩
    rw [before] at hhanded
    dsimp only
    rw [after, hgiven, ← hhanded]
    rfl

theorem Native.Kept.core (h : s.Kept) (hk : s.Known P config) {l : Label}
    (hfits : ∀ choice, l = .worker s.run.worker choice →
      (s.core.handover s.run.worker).offers ≠ [] →
        choice = .callbackReturns ∧ s.queue.samples.length < s.queue.capacity)
    (hstep : s.coreStep P config l = some s') : s'.Kept := by
  obtain ⟨hcore, hqueue, -⟩ := Native.coreStep_cases hstep
  rcases hqueue with ⟨hno, hs'⟩ | ⟨w, choice, rfl, hs'⟩
  · rcases Sys.step_hands hk.hand hk.core.wf hcore with ⟨-, hcount, hkept⟩ | ⟨w, choice, heq, -⟩
    · have hbooks : s.core.SameBooks s'.core :=
        ⟨Sys.created_mono hcore, hcount, fun w => (hkept w).1, fun w => (hkept w).2⟩
      rw [hs']
      exact h.frame hbooks rfl rfl rfl
    · exact absurd heq (hno w choice)
  · rw [hs']
    exact h.worker hk (fun hw => hfits choice (hw ▸ rfl)) hcore

end Kept

/-! ## The state within a run -/

/-- What a place means that owns `lifecycle_mutex_`. -/
def NativePc.OfRun (g : Nat) (s : Native) : NativePc → Prop
  | .startClose => s.queue.closeGeneration + 1 = g
  | .startReset => s.queue.closeGeneration = g
  | .startCore | .startAwait | .startRun => s.queue.closeGeneration = g ∧ s.run.generation = g
  | .stopHalt | .stopClose | .stopCore | .stopAwait => False
  | _ => True

/-- `start` is on its way to the run of generation `g`, or that run goes
on, or it has failed to start. -/
structure Native.InRun (g : Nat) (s : Native) : Prop where
  places : ∀ n call, s.calls n = some call → call.pc.OfRun g s
  early : s.running = false → ∀ n call, s.calls n = some call → call.pc.captured = some g →
    call.pc.early = true
  on : s.running = true → s.queue.closeGeneration = g ∧ s.run.generation = g
  kept : s.run.generation = g → s.Kept
  drained : ∀ n call, s.calls n = some call → call.pc = .returned (.read g .closed) →
    s.core.shared.faulted = true ∧ s.queue.samples = []

section InRun

variable {P : Platform} {config : Config} {s s' : Native} {n g : Nat} {pc pc' : NativePc}

theorem NativePc.ofRun_of_free (h : pc.holds = false) (g : Nat) (s : Native) : pc.OfRun g s := by
  cases pc <;> simp_all [NativePc.holds, NativePc.OfRun]

theorem NativePc.OfRun.frame (h : pc.OfRun g s)
    (hclose : s'.queue.closeGeneration = s.queue.closeGeneration)
    (hrun : s'.run.generation = s.run.generation) : pc.OfRun g s' := by
  cases pc <;> simp only [NativePc.OfRun, hclose, hrun] at h ⊢ <;> exact h

/-- No read of the run has returned before it is on. -/
theorem Native.InRun.on_of_closed (h : s.InRun g) {call : NativeCall} (hn : s.calls n = some call)
    (hpc : call.pc = .returned (.read g .closed)) : s.running = true := by
  by_contra hoff
  have hearly := h.early (by simpa using hoff) n call hn (by rw [hpc]; rfl)
  rw [hpc] at hearly
  cases hearly

/-- The run is about to get its generation. -/
theorem Native.Known.inRun (hk : s.Known P config)
    (hcaptured : ∀ n call g, s.calls n = some call → call.pc.captured = some g →
      g ≤ s.queue.closeGeneration) {op : NativeOp} (hn : s.calls n = some ⟨op, .startClose⟩) :
    s.InRun (s.queue.closeGeneration + 1) := by
  have hlater : ∀ m call, s.calls m = some call →
      call.pc.captured ≠ some (s.queue.closeGeneration + 1) := fun m call hm hg =>
    absurd (hcaptured m call _ hm hg) (by omega)
  refine ⟨fun m call hm => ?_, fun _ m call hm hg => absurd hg (hlater m call hm), fun hon => ?_,
    fun hrun => ?_, fun m call hm hpc => ?_⟩
  · by_cases hmn : m = n
    · subst hmn
      cases hn.symm.trans hm
      rfl
    · exact NativePc.ofRun_of_free (hk.calls.others_free hn rfl hm hmn) _ _
  · rw [show s.running = false from hk.isOpen.places n _ hn] at hon
    cases hon
  · cases hclosed : s.queue.isClosed with
    | false =>
      have := hk.queue.current hclosed
      omega
    | true =>
      have := hk.queue.closed hclosed
      omega
  · exact absurd (by rw [hpc]; rfl) (hlater m call hm)

/-- After the fault no thread pushes. -/
theorem Native.drained_core (h : s.queue.samples = []) (hfault : s.core.shared.faulted = true)
    (hon : s.running = true) (hk : s.Known P config) {l : Label}
    (hstep : s.coreStep P config l = some s') :
    s'.core.shared.faulted = true ∧ s'.queue.samples = [] := by
  obtain ⟨hcore, hqueue, -⟩ := Native.coreStep_cases hstep
  have hlatch : s.core.shared.faultLatch ≠ .none := by simpa [Impl.faulted] using hfault
  refine ⟨?_, ?_⟩
  · have hkept := latch_stays_without_reset hk.core.wf hk.core.fault (hk.noReset hon) hcore hlatch
    simpa [Impl.faulted, hkept] using hlatch
  · rcases hqueue with ⟨-, hs'⟩ | ⟨w, choice, rfl, hs'⟩
    · rw [hs']
      exact h
    · rw [hs']
      have hmove := (Native.worker_move hk.run hk.core.wf hk.hand hcore).2
      have hnothing : s.core.handover s.run.worker = .nothing :=
        (lateBelow_of_faulted hk.core.wf hk.core.fault hfault (s.run.worker + 1)).handover
          (Nat.lt_succ_self _)
      generalize ({ s.callback w choice with core := s'.core } : Native) = u at hmove ⊢
      cases hmove with
      | accept sample own before =>
        rw [hnothing] at before
        cases before
      | refuse sample message own before =>
        rw [hnothing] at before
        cases before
      | still => exact h
      | offer => exact h
      | deliver => exact h

theorem Native.InRun.core (h : s.InRun g) (hk : s.Known P config) {l : Label}
    (hgoes : s.Undisturbed g (.core l)) (hstep : s.coreStep P config l = some s') :
    s'.InRun g := by
  have hcontrol := Native.coreStep_control hstep
  have hrun := (Native.coreStep_sameRun hstep).generation
  refine ⟨?_, ?_, ?_, ?_, ?_⟩
  · rw [hcontrol.calls]
    exact fun m call hm => (h.places m call hm).frame hcontrol.generation hrun
  · rw [hcontrol.running, hcontrol.calls]
    exact h.early
  · rw [hcontrol.running, hcontrol.generation, hrun]
    exact h.on
  · rw [hrun]
    exact fun hg => (h.kept hg).core hk (fun choice hl => hgoes.fits choice (hl ▸ rfl) hg) hstep
  · rw [hcontrol.calls]
    intro m call hm hpc
    obtain ⟨hfault, hempty⟩ := h.drained m call hm hpc
    exact Native.drained_core hempty hfault (h.on_of_closed hm hpc) hk hstep

/-- A step of the call `n` that leaves the others alone. -/
theorem Native.InRun.of_frame (h : s.InRun g) {after : Option NativeCall}
    (hcalls : s'.calls = s.calls) (hoff : s'.running = false → s.running = false)
    (hothers : ∀ m mc, m ≠ n → s.calls m = some mc → mc.pc.OfRun g s → mc.pc.OfRun g s')
    (hmine : ∀ c, after = some c → c.pc.OfRun g s')
    (hearly : s'.running = false → ∀ c, after = some c → c.pc.captured = some g →
      c.pc.early = true)
    (hon : s'.running = true → s'.queue.closeGeneration = g ∧ s'.run.generation = g)
    (hkept : s'.run.generation = g → s'.Kept)
    (hclosed : ∀ c, after = some c → c.pc = .returned (.read g .closed) →
      s'.core.shared.faulted = true ∧ s'.queue.samples = [])
    (hdrained : s.running = true → s.core.shared.faulted = true → s.queue.samples = [] →
      s'.core.shared.faulted = true ∧ s'.queue.samples = []) :
    (s'.setCall n after).InRun g := by
  refine ⟨fun m mc hm => ?_, fun hno m mc hm hg => ?_, hon, fun hg => ?_, fun m mc hm hpc => ?_⟩
  · have hplace : mc.pc.OfRun g s' := by
      rcases Native.setCall_cases hm with ⟨-, heq⟩ | ⟨hne, hold⟩
      · exact hmine mc heq
      · rw [hcalls] at hold
        exact hothers m mc hne hold (h.places m mc hold)
    exact hplace.frame rfl rfl
  · rcases Native.setCall_cases hm with ⟨-, heq⟩ | ⟨-, hold⟩
    · exact hearly hno mc heq hg
    · rw [hcalls] at hold
      exact h.early (hoff hno) m mc hold hg
  · exact (hkept hg).frame (.refl _) rfl rfl rfl
  · rcases Native.setCall_cases hm with ⟨-, heq⟩ | ⟨-, hold⟩
    · exact hclosed mc heq hpc
    · rw [hcalls] at hold
      obtain ⟨hfault, hempty⟩ := h.drained m mc hold hpc
      exact hdrained (h.on_of_closed hold hpc) hfault hempty

/-- A step of a read: it looks or takes. -/
theorem Native.InRun.read (h : s.InRun g) (hk : s.Known P config) {call : NativeCall}
    (hn : s.calls n = some call) (hprompt : s.Prompt g (.call n)) (hread : call.pc.part = .read)
    (hstep : readStep s call.pc = some (pc', s')) :
    (s'.setCall n (some { call with pc := pc' })).InRun g := by
  have hmove : NativeMove n s call.pc pc' s' := readStep_move hstep
  -- where the read comes further, the run is on
  have hon : pc'.captured = some g → pc'.early = false → s.running = true := by
    intro hg hpast
    obtain ⟨hcaptured, hplace | hchecks⟩ := readStep_early hstep hg hpast
    · by_contra hoff
      rw [h.early (by simpa using hoff) n call hn hcaptured] at hplace
      cases hplace
    · exact hprompt.begun n call rfl hn hcaptured hchecks
  have hearly : s.running = false → ∀ c, some { call with pc := pc' } = some c →
      c.pc.captured = some g → c.pc.early = true := by
    rintro hoff c ⟨⟩ hg
    by_contra hpast
    rw [hon hg (by simpa using hpast)] at hoff
    cases hoff
  have hfree : pc'.part = .read → ∀ {u : Native} c, some { call with pc := pc' } = some c →
      c.pc.OfRun g u := by
    rintro hpart u c ⟨⟩
    exact NativePc.ofRun_of_free (NativePc.of_read hpart).1 _ _
  have hcaptured : ∀ generation, pc' = .returned (.read generation .closed) →
      generation = g → call.pc.captured = some g := by
    rintro generation rfl rfl
    exact (readStep_early hstep rfl rfl).1
  obtain ⟨op, pc⟩ := call
  dsimp only at hmove hread hcaptured hearly hfree ⊢
  cases hmove with
  | look before after got captured closed =>
    refine h.of_frame rfl id (fun _ _ _ _ => id) (hfree after) hearly h.on h.kept ?_
      (fun _ hfault hempty => ⟨hfault, hempty⟩)
    rintro c ⟨⟩ hpc
    obtain rfl : pc' = .returned (.read g .closed) := hpc
    have hrunning := hon rfl rfl
    rcases closed g rfl with hoff | ⟨hfault, hchecks⟩ | hclosed | hother
    · rw [hrunning] at hoff
      cases hoff
    · exact ⟨hfault, hprompt.drained n _ rfl hn (hcaptured g rfl rfl) hchecks hfault⟩
    · rw [(hk.isOpen.running hrunning).1] at hclosed
      cases hclosed
    · exact absurd (h.on hrunning).1 hother
  | take front free current same =>
    refine h.of_frame rfl id (fun _ _ _ _ hm => hm.frame same.2.1 rfl) (hfree rfl) hearly
      (fun hyes => ⟨same.2.1.trans (h.on hyes).1, (h.on hyes).2⟩)
      (fun hg => (h.kept hg).frame (.refl _) same.2.2 rfl rfl) ?_ ?_
    · rintro c ⟨⟩ hpc
      cases hpc
    · intro _ _ hempty
      rw [hempty] at front
      cases front
  | enter _ place => rcases place with ⟨rfl, -⟩ | ⟨rfl, -⟩ <;> cases hread
  | halt place => rcases place with ⟨rfl, -⟩ | ⟨rfl, -⟩ | ⟨message, rfl, -⟩ <;> cases hread
  | close place => rcases place with ⟨rfl, -⟩ | ⟨rfl, -⟩ <;> cases hread
  | call place => rcases place with ⟨rfl, -⟩ | ⟨rfl, -⟩ <;> cases hread
  | _ => cases hread

/-- A step of a `start` or `stop`: the `start` of the run moves on, or
another one finds the client running. -/
theorem Native.InRun.control (h : s.InRun g) (hk : s.Known P config)
    (hnothing : s.core.NothingEarly) {call : NativeCall} (hn : s.calls n = some call)
    (hgoes : s.Undisturbed g (.call n)) (hread : call.pc.part ≠ .read)
    (hmove : NativeMove n s call.pc pc' s') :
    (s'.setCall n (some { call with pc := pc' })).InRun g := by
  have hplace := h.places n call hn
  have hopen := hk.isOpen.places n call hn
  obtain ⟨hstop, hhalt⟩ := hgoes.goesOn n call rfl hn
  have hbooks := hk.calls.sameBooks hmove
  obtain ⟨op, pc⟩ := call
  dsimp only at hmove hread hplace hopen hstop hhalt ⊢
  -- the owner of the lock is alone
  have halone : ∀ {u : Native}, pc.holds = true → ∀ m mc, m ≠ n → s.calls m = some mc →
      mc.pc.OfRun g s → mc.pc.OfRun g u := fun hholds m mc hne hm _ =>
    NativePc.ofRun_of_free (hk.calls.others_free hn hholds hm hne) _ _
  have hearly : ∀ {u : Native}, pc'.captured = none → u.running = false →
      ∀ c, some (⟨op, pc'⟩ : NativeCall) = some c → c.pc.captured = some g → c.pc.early = true := by
    rintro u hnone - c ⟨⟩ hg
    rw [hnone] at hg
    cases hg
  have hclosed : ∀ {u : Native}, pc'.captured = none →
      ∀ c, some (⟨op, pc'⟩ : NativeCall) = some c → c.pc = .returned (.read g .closed) →
        u.core.shared.faulted = true ∧ u.queue.samples = [] := by
    rintro u hnone c ⟨⟩ hpc
    obtain rfl : pc' = .returned (.read g .closed) := hpc
    cases hnone
  have hmine : ∀ {u : Native}, pc'.OfRun g u →
      ∀ c, some (⟨op, pc'⟩ : NativeCall) = some c → c.pc.OfRun g u := by
    rintro u hof c ⟨⟩
    exact hof
  -- while `running_` is off there is nothing else to show
  have hoff : ∀ {u : Native}, s.running = false → u.running = false → u.calls = s.calls →
      pc.holds = true → pc'.captured = none → pc'.OfRun g u →
      (u.run.generation = g → u.Kept) → (u.setCall n (some ⟨op, pc'⟩)).InRun g := by
    intro u hno hno' hcalls hholds hnone hof hkept
    refine h.of_frame hcalls (fun _ => hno) (halone hholds) (hmine hof) (hearly hnone) ?_ hkept
      (hclosed hnone) ?_
    · intro hyes
      rw [hno'] at hyes
      cases hyes
    · intro hyes
      rw [hno] at hyes
      cases hyes
  -- a step that leaves queue, run and core alone
  have hsame : ∀ {u : Native}, u.calls = s.calls → u.running = s.running → u.queue = s.queue →
      u.run = s.run → u.core = s.core → pc'.captured = none → pc'.OfRun g u →
      (u.setCall n (some ⟨op, pc'⟩)).InRun g := by
    intro u hcalls hrunning hqueue hrun hcore hnone hof
    refine h.of_frame hcalls (fun hno => hrunning ▸ hno)
      (fun _ _ _ _ hm => hm.frame (by rw [hqueue]) (by rw [hrun])) (hmine hof) (hearly hnone) ?_ ?_
      (hclosed hnone) ?_
    · rw [hrunning, hqueue, hrun]
      exact h.on
    · rw [hrun]
      exact fun hg => (h.kept hg).frame (hcore ▸ .refl _) (by rw [hqueue]) (by rw [hrun])
        (by rw [hrun])
    · rw [hcore, hqueue]
      exact fun _ hfault hempty => ⟨hfault, hempty⟩
  cases hmove with
  | look before => exact absurd before.1 hread
  | take => exact absurd rfl hread
  | enter free place =>
    rcases place with ⟨rfl, rfl⟩ | ⟨rfl, -⟩
    · exact hsame rfl rfl rfl rfl rfl rfl trivial
    · exact absurd rfl hstop
  | already => exact hsame rfl rfl rfl rfl rfl rfl trivial
  | begin => exact hsame rfl rfl rfl rfl rfl rfl trivial
  | halt place =>
    rcases place with ⟨rfl, -⟩ | ⟨rfl, -⟩ | ⟨message, rfl, rfl⟩
    · exact absurd rfl hhalt
    · exact hplace.elim
    · exact hoff hopen rfl rfl rfl rfl trivial fun hg => (h.kept hg).frame hbooks rfl rfl rfl
  | close place =>
    rcases place with ⟨rfl, rfl⟩ | ⟨rfl, -⟩
    · exact hoff hopen hopen rfl rfl rfl hplace fun hg => (h.kept hg).frame hbooks rfl rfl rfl
    · exact hplace.elim
  | reset =>
    exact hoff hopen hopen rfl rfl rfl ⟨hplace, hplace⟩ fun _ =>
      Native.kept_reset hnothing hk.core.wf
  | call place =>
    rcases place with ⟨rfl, rfl, -⟩ | ⟨rfl, -, -⟩
    · exact hoff hopen.1 hopen.1 rfl rfl rfl hplace fun hg => (h.kept hg).frame hbooks rfl rfl rfl
    · exact hplace.elim
  | started =>
    exact hoff hopen.1 hopen.1 rfl rfl rfl hplace fun hg => (h.kept hg).frame hbooks rfl rfl rfl
  | failed =>
    exact hoff hopen.1 hopen.1 rfl rfl rfl trivial fun hg => (h.kept hg).frame hbooks rfl rfl rfl
  | run =>
    refine h.of_frame rfl (fun hno => (by cases hno)) (halone rfl) (hmine trivial) (hearly rfl)
      (fun _ => hplace) (fun hg => (h.kept hg).frame hbooks rfl rfl rfl) (hclosed rfl) ?_
    exact fun _ hfault hempty => ⟨hfault, hempty⟩
  | unwind =>
    exact hoff hopen hopen rfl rfl rfl trivial fun hg => (h.kept hg).frame hbooks rfl rfl rfl
  | stopped => exact hplace.elim

theorem Native.InRun.step (h : s.InRun g) (hk : s.Known P config)
    (hnothing : s.core.NothingEarly) {l : NativeLabel} (hprompt : s.Prompt g l)
    (hstep : s.step P config l = some s') : s'.InRun g := by
  cases Native.step_move hstep with
  | core step => exact h.core hk hprompt.toUndisturbed step
  | @invoke n op free =>
    refine h.of_frame rfl id (fun _ _ _ _ => id) ?_ ?_ h.on h.kept ?_
      (fun _ hfault hempty => ⟨hfault, hempty⟩)
    · rintro c ⟨⟩
      exact NativePc.ofRun_of_free op.entry_free _ _
    · rintro - c ⟨⟩ hg
      cases op <;> cases hg
    · rintro c ⟨⟩ hpc
      cases op <;> cases hpc
  | @call n call pc' u present move =>
    by_cases hread : call.pc.part = .read
    · simp only [Native.step, present] at hstep
      obtain ⟨⟨pc'', v⟩, hnative, heq⟩ := Option.map_eq_some_iff.mp hstep
      rw [nativeStep, hread] at hnative
      rw [← heq]
      exact h.read hk present hprompt hread hnative
    · exact h.control hk hnothing present hprompt.toUndisturbed hread move
  | collect =>
    exact h.of_frame rfl id (fun _ _ _ _ => id) (by simp) (by simp) h.on h.kept (by simp)
      (fun _ hfault hempty => ⟨hfault, hempty⟩)

end InRun

/-! ## The samples come first, if the checks come in time -/

/-- **The samples come before `Closed`.** Take any `start` that is about
to close the queue for its run, of the generation `g`, in any reachable
state of the client, and any steps from there, with any number of
readers, in which nothing halts the client, every push goes through, no
read of the run looks at `running_` before `start` has stored it, and none
looks at the fault latch while a fault is latched and a sample queued.
Then whenever a read of the run has returned `Closed`, the readers have
been given every sample that the receive thread has handed to the
callback, those with an error status included. -/
theorem samples_read_before_closed (P : Platform) (config : Config) {s₀ s : Native}
    (hreach : (nativeLts P config).Reachable s₀) {n : Nat} {op : NativeOp}
    (hstart : s₀.calls n = some ⟨op, .startClose⟩) {g : Nat}
    (hg : g = s₀.queue.closeGeneration + 1) {labels : List NativeLabel}
    (hpath : (nativeLts P config).Path (Native.Prompt g) s₀ labels s) :
    ∀ m call, s.calls m = some call → call.pc = .returned (.read g .closed) →
      s.run.generation = g ∧ s.run.taken = s.run.pushed ∧
        s.run.taken.map Stamped.sample = handed s.run.worker s.core.shared.log := by
  subst hg
  have hin : s.InRun (s₀.queue.closeGeneration + 1) := by
    refine hpath.preserves (K := fun s => s.Known P config ∧ s.core.NothingEarly)
      (fun s hs => ⟨known_of_reachable hs, nothingEarly_of_reachable hs⟩)
      (fun s l t hprompt hstep hK _ hs => hs.step hK.1 hK.2 hprompt hstep) hreach ?_
    exact (known_of_reachable hreach).inRun (captured_le_of_reachable hreach) hstart
  intro m call hm hpc
  have hk := known_of_reachable (hpath.reachable hreach)
  obtain ⟨hfault, hempty⟩ := hin.drained m call hm hpc
  have hrun := (hin.on (hin.on_of_closed hm hpc)).2
  have hkept := hin.kept hrun
  have hbooks := hk.queue.books
  have htaken : s.run.taken = s.run.pushed := by
    unfold SampleQueue.Books at hbooks
    rw [hempty, hkept.dropped] at hbooks
    exact hbooks.taken_eq
  have hnothing : s.core.handover s.run.worker = .nothing :=
    (lateBelow_of_faulted hk.core.wf hk.core.fault hfault (s.run.worker + 1)).handover
      (Nat.lt_succ_self _)
  refine ⟨hrun, htaken, ?_⟩
  rw [htaken, ← hkept.handed, hnothing]
  exact (List.append_nil _).symm

/-! ## A sample in time, and one too late -/

/-- Fail-stop, with samples of an error status delivered. -/
def failStopConfig : Config :=
  { overrideConfig with recoveryPolicy := .failStop, deliverSamplesWithErrorStatus := true }

/-- A record with the error bit of the status set. -/
def errorRecord : List UInt8 :=
  List.replicate 8 0 ++ [0x80, 0, 0, 0] ++ List.replicate 24 0

/-- The receive thread from the push of that record to the latch. -/
def workerLatches : List NativeLabel :=
  [.go, .send .sent, .go, .go].map fun choice => .core (.worker 0 choice)

/-- A read from its call to its first check of the latch. -/
def nativeReadClosed : List NativeLabel :=
  [.invoke 1 (.read none), .call 1, .call 1, .call 1, .call 1, .call 1]

/-- Whether a step leaves the run undisturbed. -/
def Native.goesOnCheck (s : Native) : NativeLabel → Bool
  | .call n => (s.calls n).all fun call => call.pc ≠ .stopEnter && call.pc ≠ .startHalt
  | .core (.worker w choice) =>
      (s.core.handover w).offers.isEmpty ||
        (choice = .callbackReturns && s.queue.samples.length < s.queue.capacity)
  | _ => true

/-- Whether a step of a read looks in time. -/
def Native.inTimeCheck (s : Native) : NativeLabel → Bool
  | .call n => (s.calls n).all fun call =>
      (!call.pc.checksRunning || s.running) &&
        (!call.pc.checksFault || !s.core.shared.faulted || s.queue.samples.isEmpty)
  | _ => true

theorem Native.undisturbed_of_check (g : Nat) (s : Native) (l : NativeLabel)
    (h : s.goesOnCheck l = true) : s.Undisturbed g l where
  goesOn := by
    rintro n call rfl hn
    simpa [Native.goesOnCheck, hn] using h
  fits := by
    rintro choice rfl - hne
    simpa [Native.goesOnCheck, hne] using h

theorem Native.prompt_of_check (g : Nat) (s : Native) (l : NativeLabel)
    (h : (s.goesOnCheck l && s.inTimeCheck l) = true) : s.Prompt g l := by
  obtain ⟨hgoes, htime⟩ := Bool.and_eq_true_iff.mp h
  refine ⟨s.undisturbed_of_check g l hgoes, ?_, ?_⟩
  · rintro n call rfl hn - hchecks
    simp only [Native.inTimeCheck, hn, Option.all_some, hchecks, Bool.and_eq_true] at htime
    simpa using htime.1
  · rintro n call rfl hn - hchecks hfault
    simp only [Native.inTimeCheck, hn, Option.all_some, hchecks, hfault, Bool.and_eq_true] at htime
    simpa using htime.2

theorem failStopNative_reachable :
    (nativeLts exactPlatform failStopConfig).Reachable (overrideNative failStopConfig) :=
  overrideNative_reachable exactPlatform (by decide +kernel)

/-- A reader that takes the sample between push and latch has had it when
its next read is told that the client is closed. -/
theorem samples_read_before_closed_in_time :
    ∃ s₀ s labels x, (nativeLts exactPlatform failStopConfig).Reachable s₀ ∧
      s₀.calls 0 = some ⟨.start, .startClose⟩ ∧ s₀.queue.closeGeneration = 0 ∧
      (nativeLts exactPlatform failStopConfig).Path (Native.Prompt 1) s₀ labels s ∧
      s.calls 1 = some ⟨.read none, .returned (.read 1 .closed)⟩ ∧ s.run.taken = [x] ∧
      classifyStatus x.sample.status = .error ∧
      handed s.run.worker s.core.shared.log = [x.sample] := by
  obtain ⟨t, u, v, ht, hstep, hpath, hp⟩ := Lts.exists_of_stages failStopNative_reachable
    (fun s l => s.goesOnCheck l && s.inTimeCheck l) (Native.prompt_of_check 1)
    (nativeStart.take 4) (.call 0)
    (nativeStart.drop 5 ++ workerPushes errorRecord ++ nativeRead ++ [.collect 1] ++
      workerLatches ++ nativeReadClosed)
    (fun t v => decide (t.calls 0 = some ⟨.start, .startClose⟩ ∧ t.queue.closeGeneration = 0 ∧
      (t.goesOnCheck (.call 0) && t.inTimeCheck (.call 0)) = true ∧
      v.calls 1 = some ⟨.read none, .returned (.read 1 .closed)⟩ ∧
      v.run.taken.map (fun x => classifyStatus x.sample.status) = [.error])) (by decide +kernel)
  obtain ⟨hstart, hgeneration, hcheck, hclosed, hstatus⟩ := of_decide_eq_true hp
  have hrun := Lts.Path.cons (Native.prompt_of_check 1 t _ hcheck) hstep hpath
  have hsamples := (samples_read_before_closed exactPlatform failStopConfig ht hstart
    (by rw [hgeneration]) hrun 1 _ hclosed rfl).2.2
  obtain ⟨x, htaken, hx⟩ := List.map_eq_singleton_iff.mp hstatus
  refine ⟨t, v, _, x, ht, hstart, hgeneration, hrun, hclosed, htaken, hx, ?_⟩
  rw [← hsamples, htaken]
  rfl

/-- A read that comes by after the latch returns closed with the sample of
the error status still in the queue: the reader has had nothing. -/
theorem error_sample_not_read :
    ∃ s₀ s labels x, (nativeLts exactPlatform failStopConfig).Reachable s₀ ∧
      s₀.calls 0 = some ⟨.start, .startClose⟩ ∧ s₀.queue.closeGeneration = 0 ∧
      (nativeLts exactPlatform failStopConfig).Path (Native.Undisturbed 1) s₀ labels s ∧
      failStopConfig.recoveryPolicy = .failStop ∧
      failStopConfig.deliverSamplesWithErrorStatus = true ∧
      s.calls 1 = some ⟨.read none, .returned (.read 1 .closed)⟩ ∧ s.run.generation = 1 ∧
      classifyStatus x.sample.status = .error ∧ s.run.pushed = [x] ∧ s.queue.samples = [x] ∧
      s.run.taken = [] := by
  obtain ⟨t, u, v, ht, hstep, hpath, hp⟩ := Lts.exists_of_stages failStopNative_reachable
    Native.goesOnCheck (Native.undisturbed_of_check 1) (nativeStart.take 4) (.call 0)
    (nativeStart.drop 5 ++ workerPushes errorRecord ++ workerLatches ++ nativeReadClosed)
    (fun t v => decide (t.calls 0 = some ⟨.start, .startClose⟩ ∧ t.queue.closeGeneration = 0 ∧
      t.goesOnCheck (.call 0) = true ∧
      v.calls 1 = some ⟨.read none, .returned (.read 1 .closed)⟩ ∧
      v.run.generation = 1 ∧ v.queue.samples = v.run.pushed ∧ v.run.taken = [] ∧
      v.run.pushed.map (fun x => classifyStatus x.sample.status) = [.error])) (by decide +kernel)
  obtain ⟨hstart, hgeneration, hcheck, hclosed, hgen, hqueued, htaken, hstatus⟩ :=
    of_decide_eq_true hp
  obtain ⟨x, hpushed, hx⟩ := List.map_eq_singleton_iff.mp hstatus
  exact ⟨t, v, _, x, ht, hstart, hgeneration,
    .cons (Native.undisturbed_of_check 1 t _ hcheck) hstep hpath, rfl, rfl, hclosed, hgen, hx,
    hpushed, hqueued.trans hpushed, htaken⟩

end PyNetFT.Bindings
