/-
PyNetFT.Core.Records — the records of a run and the members that time
them.

The history keeps, for the current run, when each record entered
`handle_record` and when each delivered sample was received; a `start`
begins new lists, and the rollback of a failed one takes the old ones
back. `RecordsWf` ties the rate windows and `last_delivery_at_` to these
lists: the windows are final pieces of them from which nothing of the
last second is missing, and `last_delivery_at_` is the last delivery.
`start` clears and restores the members in several sections, so each of
its places has its own line in `CallPc.RecordsOk`.
-/
import PyNetFT.Core.Counters
import PyNetFT.Lib.SlidingWindow

namespace PyNetFT.Core

open PyNetFT.Lib PyNetFT.Lib.SlidingWindow

/-! ## The history -/

/-- `received_at` of the records that entered and of the samples that
were delivered, in order. -/
structure RunRecords where
  entered : List TimePoint := []
  delivered : List TimePoint := []
  deriving DecidableEq

/-- The current run, and the one a `start` in progress would go back to. -/
structure RecordHistory where
  current : RunRecords := {}
  before : RunRecords := {}
  deriving DecidableEq

def RecordHistory.atCall (h : RecordHistory) : CallPc → RecordHistory
  | .startSaved _ _ => ⟨{}, h.current⟩
  | .rollbackData _ _ _ => { h with current := h.before }
  | _ => h

def RecordHistory.atWorker (h : RecordHistory) (s : Shared) : WorkerPc → RecordHistory
  | .classify _ _ receivedAt =>
      if s.health.sensorConfiguration.isSome then
        { h with current := { h.current with entered := h.current.entered ++ [receivedAt] } }
      else h
  | .delivered _ _ sample =>
      { h with current :=
        { h.current with delivered := h.current.delivered ++ [sample.receivedAt] } }
  | _ => h

def RecordHistory.record (h : RecordHistory) (s : Sys) (l : Label) (_ : Sys) : RecordHistory :=
  match l with
  | .call c _ => ((s.calls c).map fun call => h.atCall call.pc).getD h
  | .worker w _ => ((s.workers w).map fun t => h.atWorker s.shared t.pc).getD h
  | _ => h

/-- The client with that history. -/
def recordLts (P : Platform) (config : Config) : Lts (Sys × RecordHistory) Label :=
  (clientLts P config).recorded {} RecordHistory.record

/-! ## The invariant -/

/-- `last_delivery_at_` as the deliveries give it; the epoch is "none". -/
def RunRecords.lastDelivery (r : RunRecords) : TimePoint := r.delivered.getLast?.getD 0

/-- The windows belong to the records of the run. -/
structure RunRecords.Tracked (r : RunRecords) (clock : TimePoint)
    (receiveTimes deliveryTimes : List TimePoint) : Prop where
  received : Tracks ticksPerSecond clock r.entered receiveTimes
  delivered : Tracks ticksPerSecond clock r.delivered deliveryTimes

/-- What `start` has saved and cleared at each of its places. -/
def CallPc.RecordsOk (s : Shared) (h : RecordHistory) : CallPc → Prop
  | .startSaved _ k => s.lastDeliveryAt = 0 ∧ k.lastDeliveryAt = h.current.lastDelivery
  | .startReset _ k d | .startArmed k d | .rollbackRecord k d _ =>
      s.lastDeliveryAt = 0 ∧ h.current = {} ∧ k.lastDeliveryAt = h.before.lastDelivery ∧
        h.before.Tracked s.clock d.receiveTimes d.deliveryTimes
  | .rollbackData _ d _ =>
      s.lastDeliveryAt = h.before.lastDelivery ∧
        h.before.Tracked s.clock d.receiveTimes d.deliveryTimes
  | .rollbackLatch _ _ _ | .rollbackPublish _ _ _ => s.lastDeliveryAt = h.current.lastDelivery
  | _ => True

/-- When the record was received that a thread is handling. -/
def WorkerPc.receivedAt? : WorkerPc → Option TimePoint
  | .classify _ _ receivedAt => some receivedAt
  | .callback _ _ sample | .delivered _ _ sample => some sample.receivedAt
  | _ => none

theorem WorkerPc.running_of_receivedAt? {pc : WorkerPc} {receivedAt : TimePoint}
    (h : pc.receivedAt? = some receivedAt) : pc.phase ≠ .done := by
  rintro hdone
  rw [WorkerPc.phase_eq_done hdone] at h
  cases h

structure RecordsWf (s : Sys) (h : RecordHistory) : Prop where
  tracked : h.current.Tracked s.shared.clock s.shared.receiveTimes s.shared.deliveryTimes
  last : s.NoReset → s.shared.lastDeliveryAt = h.current.lastDelivery
  calls : ∀ c call, s.calls c = some call → call.pc.RecordsOk s.shared h
  worker : ∀ w t receivedAt, s.workers w = some t → t.pc.receivedAt? = some receivedAt →
    receivedAt ≤ s.shared.clock ∧ (∀ u ∈ h.current.entered, u ≤ receivedAt) ∧
      ∀ u ∈ h.current.delivered, u ≤ receivedAt

theorem RunRecords.Tracked.later {r : RunRecords} {clock clock' : TimePoint}
    {receiveTimes deliveryTimes : List TimePoint} (h : r.Tracked clock receiveTimes deliveryTimes)
    (hle : clock ≤ clock') : r.Tracked clock' receiveTimes deliveryTimes :=
  ⟨h.received.later hle, h.delivered.later hle⟩

theorem CallPc.RecordsOk.frame {pc : CallPc} {s s' : Shared} {h : RecordHistory}
    (hok : pc.RecordsOk s h) (hlast : s'.lastDeliveryAt = s.lastDeliveryAt)
    (hclock : s.clock ≤ s'.clock) : pc.RecordsOk s' h := by
  cases pc
  case startSaved | rollbackLatch | rollbackPublish =>
    simp only [CallPc.RecordsOk, hlast] at hok ⊢
    exact hok
  case startReset | startArmed | rollbackRecord =>
    simp only [CallPc.RecordsOk, hlast] at hok ⊢
    exact ⟨hok.1, hok.2.1, hok.2.2.1, hok.2.2.2.later hclock⟩
  case rollbackData =>
    simp only [CallPc.RecordsOk, hlast] at hok ⊢
    exact ⟨hok.1, hok.2.later hclock⟩
  all_goals trivial

theorem CallPc.recordsOk_of_not_resets {pc : CallPc} (h : pc.resets = false) (s : Shared)
    (history : RecordHistory) : pc.RecordsOk s history := by
  cases pc <;> trivial

theorem RecordHistory.atCall_of_not_resets {pc : CallPc} (h : pc.resets = false)
    (history : RecordHistory) : history.atCall pc = history := by
  cases pc <;> first | rfl | cases h

section System

variable {P : Platform} {config : Config} {s s' : Sys} {h h' : RecordHistory}

/-! ## Calls -/

/-- A call outside the reset section that leaves the records alone. -/
theorem RecordsWf.call_keep (hr : RecordsWf s h) {c : Nat} {call : Call} {pc' : CallPc}
    (hc : s.calls c = some call) (hcalls : s'.calls = s.calls) (hworkers : s'.workers = s.workers)
    (hbefore : call.pc.resets = false) (hafter : pc'.resets = false)
    (hclock : s'.shared.clock = s.shared.clock)
    (hlast : s'.shared.lastDeliveryAt = s.shared.lastDeliveryAt)
    (htracked : h.current.Tracked s.shared.clock s'.shared.receiveTimes s'.shared.deliveryTimes) :
    RecordsWf (s'.setCall c (some { call with pc := pc' })) h where
  tracked := hclock ▸ htracked
  last := by
    intro hno
    refine hlast.trans (hr.last ?_)
    intro j other hj
    by_cases heq : j = c
    · subst heq
      rw [hc] at hj
      cases hj
      exact hbefore
    · exact hno j other (by rw [Sys.setCall_calls_of_ne _ _ heq, hcalls, hj])
  calls := by
    intro j other hj
    rcases Sys.setCall_cases hj with ⟨rfl, heq⟩ | ⟨-, hj⟩
    · cases heq
      exact CallPc.recordsOk_of_not_resets hafter _ _
    · exact (hr.calls j other (hcalls ▸ hj)).frame hlast hclock.ge
  worker := by
    intro w t receivedAt ht hpc
    have ht : s'.workers w = some t := ht
    rw [hworkers] at ht
    simpa only [Sys.setCall, hclock] using hr.worker w t receivedAt ht hpc

/-- A section of `start`, with the lock held: nobody else resets and no
thread runs. -/
theorem RecordsWf.call_section (hwf : s.Wf) {c : Nat} {call : Call} {pc' : CallPc}
    (hc : s.calls c = some call) (hcalls : s'.calls = s.calls)
    (hworkers : ∀ w t, s'.workers w = some t → s.workers w = some t ∨ t.pc = .loopHead)
    (hidle : s.shared.activeWorkerId = none)
    (hothers : ∀ j other, j ≠ c → s.calls j = some other → other.pc.resets = false)
    (htracked : h'.current.Tracked s'.shared.clock s'.shared.receiveTimes s'.shared.deliveryTimes)
    (hlast : pc'.resets = false → s'.shared.lastDeliveryAt = h'.current.lastDelivery)
    (hok : pc'.RecordsOk s'.shared h') :
    RecordsWf (s'.setCall c (some { call with pc := pc' })) h' where
  tracked := htracked
  last := fun hno => hlast (hno c _ (Sys.setCall_calls_self _ _ _))
  calls := by
    intro j other hj
    by_cases heq : j = c
    · subst heq
      rw [Sys.setCall_calls_self] at hj
      cases hj
      exact hok
    · rw [Sys.setCall_calls_of_ne _ _ heq, hcalls] at hj
      exact CallPc.recordsOk_of_not_resets (hothers j other heq hj) _ _
  worker := by
    intro w t receivedAt ht hpc
    rcases hworkers w t ht with hold | hnew
    · rw [hwf.active_of_running hold (WorkerPc.running_of_receivedAt? hpc)] at hidle
      cases hidle
    · rw [hnew] at hpc
      cases hpc

theorem RunRecords.tracked_empty (clock : TimePoint) : ({} : RunRecords).Tracked clock [] [] :=
  ⟨.empty _ _, .empty _ _⟩

theorem RecordsWf.callMove (hr : RecordsWf s h) (hwf : s.Wf) {c : Nat} {call : Call}
    {pc' : CallPc} (hc : s.calls c = some call)
    (hmove : CallMove config c call.caller s call.pc pc' s') :
    RecordsWf (s'.setCall c (some { call with pc := pc' })) (h.atCall call.pc) := by
  obtain ⟨caller, op, pc⟩ := call
  have hok := hr.calls c _ hc
  have hcalls := callMove_calls hmove
  have hthreads := fun w t => hmove.thread_of (w := w) (t := t)
  dsimp only at hmove hok hthreads ⊢
  have houtside : pc.resets = false → pc'.resets = false →
      RecordsWf (s'.setCall c (some ⟨caller, op, pc'⟩)) (h.atCall pc) := by
    intro hbefore hafter
    rw [RecordHistory.atCall_of_not_resets hbefore]
    obtain ⟨hworkers, hclock, htally⟩ := hmove.tally_outside hbefore hafter
    rcases htally with hsame | hpruned
    · refine hr.call_keep hc hcalls hworkers hbefore hafter hclock
        (congrArg Tally.lastDeliveryAt hsame) ?_
      rw [show s'.shared.receiveTimes = _ from congrArg Tally.receiveTimes hsame,
        show s'.shared.deliveryTimes = _ from congrArg Tally.deliveryTimes hsame]
      exact hr.tracked
    · refine hr.call_keep hc hcalls hworkers hbefore hafter hclock (by rw [hpruned]; rfl) ?_
      rw [hpruned]
      exact ⟨hr.tracked.received.prune le_rfl, hr.tracked.delivered.prune le_rfl⟩
  have hinside : pc.resets = true → ∀ {h' : RecordHistory},
      h'.current.Tracked s'.shared.clock s'.shared.receiveTimes s'.shared.deliveryTimes →
      (pc'.resets = false → s'.shared.lastDeliveryAt = h'.current.lastDelivery) →
      pc'.RecordsOk s'.shared h' → RecordsWf (s'.setCall c (some ⟨caller, op, pc'⟩)) h' := by
    intro hres h' htracked hlast hafter
    refine RecordsWf.call_section hwf hc hcalls hthreads (hwf.inactive_of_resets hc hres) ?_
      htracked hlast hafter
    intro j other hne hj
    exact CallPc.resets_false_of_holds
      (hwf.others_free hc (.inl (CallPc.holds_of_resets hres)) hj hne)
  cases hmove with
  | wait before after => exact houtside before.2 (CallPc.resets_false_of_holds after.2)
  | take _ _ before _ after => exact houtside before.2 (CallPc.resets_false_of_joins after)
  | request | command | stopIdle | reapStart | reapStop | bias | snapshot => exact houtside rfl rfl
  | save worker joining free before =>
    have hpc : pc.resets = false := by rcases before with rfl | rfl <;> rfl
    have hno : s.NoReset := fun j other hj =>
      CallPc.resets_false_of_holds (hwf.holds_false_of_free free hj)
    rw [RecordHistory.atCall_of_not_resets hpc]
    refine RecordsWf.call_section hwf hc rfl hthreads (hwf.idle_of_no_worker worker joining).active
      (fun j other _ hj => hno j other hj) hr.tracked (fun he => by cases he) ⟨rfl, hr.last hno⟩
  | reset =>
    refine hinside rfl (RunRecords.tracked_empty _) (fun he => by cases he) ?_
    exact ⟨hok.1, rfl, hok.2, hr.tracked⟩
  | arm => exact hinside rfl hr.tracked (fun he => by cases he) hok
  | spawn =>
    refine hinside rfl hr.tracked (fun _ => ?_) trivial
    obtain ⟨hlast, hcurrent, -⟩ := hok
    exact hlast.trans (congrArg RunRecords.lastDelivery hcurrent).symm
  | disarm => exact hinside rfl hr.tracked (fun he => by cases he) hok
  | restoreRecord =>
    obtain ⟨-, -, hlast, hbefore⟩ := hok
    exact hinside rfl hr.tracked (fun he => by cases he) ⟨hlast, hbefore⟩
  | restoreData =>
    obtain ⟨hlast, hbefore⟩ := hok
    exact hinside rfl hbefore (fun he => by cases he) hlast
  | clearLatch => exact hinside rfl hr.tracked (fun he => by cases he) hok
  | republish =>
    refine hinside rfl ?_ (fun _ => ?_) trivial
    · dsimp only [Impl.publish]
      (repeat' split) <;> exact hr.tracked
    · dsimp only [Impl.publish]
      (repeat' split) <;> exact hok

/-! ## The receive thread -/

/-- A step of the running thread: what has to be shown of the windows,
of `last_delivery_at_` and of the record it handles next. -/
theorem RecordsWf.thread (hwf : s.Wf) {w : Nat} {t t' : Worker}
    {shared' : Shared} (ht : s.workers w = some t) (hrun : t.pc.phase ≠ .done)
    (hclock : shared'.clock = s.shared.clock)
    (htracked : h'.current.Tracked s.shared.clock shared'.receiveTimes shared'.deliveryTimes)
    (hlast : shared'.lastDeliveryAt = h'.current.lastDelivery)
    (hrecord : ∀ receivedAt, t'.pc.receivedAt? = some receivedAt → receivedAt ≤ s.shared.clock ∧
      (∀ u ∈ h'.current.entered, u ≤ receivedAt) ∧ ∀ u ∈ h'.current.delivered, u ≤ receivedAt) :
    RecordsWf ((s.withShared shared').setWorker w t') h' where
  tracked := by
    rw [← hclock] at htracked
    exact htracked
  last := fun _ => hlast
  calls := fun c call hc =>
    CallPc.recordsOk_of_not_resets (hwf.noReset_of_running ht hrun c call hc) _ _
  worker := by
    intro v u receivedAt hu hpc
    by_cases heq : v = w
    · subst heq
      have hself : ((s.withShared shared').setWorker v t').workers v = some t' := by
        simp [Sys.setWorker]
      rw [hself] at hu
      cases hu
      rw [← hclock] at hrecord
      exact hrecord receivedAt hpc
    · have hother : s.workers v = some u := by
        simpa [Sys.setWorker, Sys.withShared, heq] using hu
      -- no other thread is inside `handle_record`
      have hactive := hwf.active_of_running hother (WorkerPc.running_of_receivedAt? hpc)
      rw [hwf.active_of_running ht hrun] at hactive
      cases hactive
      exact absurd rfl heq

theorem RecordHistory.atWorker_outside {pc : WorkerPc} (hpc : pc.handles = false)
    (h : RecordHistory) (s : Shared) : h.atWorker s pc = h := by
  cases pc <;> first | rfl | cases hpc

theorem WorkerPc.receivedAt?_outside {pc : WorkerPc} (hpc : pc.handles = false) :
    pc.receivedAt? = none := by
  cases pc <;> first | rfl | cases hpc

/-- What the steps outside `handle_record` count is not what times a
record. -/
theorem WorkerPc.counted_times (pc : WorkerPc) (s : Impl) :
    (pc.counted s).receiveTimes = s.receiveTimes ∧ (pc.counted s).deliveryTimes = s.deliveryTimes ∧
      (pc.counted s).lastDeliveryAt = s.lastDeliveryAt := by
  cases pc
  case timedOut =>
    dsimp only [WorkerPc.counted]
    split <;> exact ⟨rfl, rfl, rfl⟩
  case applyConfiguration configuration =>
    dsimp only [WorkerPc.counted, Impl.applyConfiguration]
    split
    · exact ⟨rfl, rfl, rfl⟩
    · split <;> exact ⟨rfl, rfl, rfl⟩
  all_goals exact ⟨rfl, rfl, rfl⟩

/-- The windows and `last_delivery_at_` behind the locked section. -/
theorem classifyRecord_times {impl impl' : Impl} {record : RawRecord} {receivedAt : TimePoint}
    {decision : RecordDecision}
    (hclass : impl.classifyRecord config record receivedAt = (impl', .ok decision)) :
    impl.health.sensorConfiguration.isSome = true ∧
      impl'.receiveTimes = prune ticksPerSecond (impl.receiveTimes ++ [receivedAt]) receivedAt ∧
      impl'.deliveryTimes = impl.deliveryTimes ∧ impl'.lastDeliveryAt = impl.lastDeliveryAt := by
  cases hconf : impl.health.sensorConfiguration with
  | none => simp only [Impl.classifyRecord, hconf, Prod.mk.injEq, reduceCtorEq, and_false] at hclass
  | some configuration =>
    simp only [Impl.classifyRecord, hconf, Prod.mk.injEq] at hclass
    obtain ⟨rfl, -⟩ := hclass
    exact ⟨rfl, rfl, rfl, rfl⟩

theorem scaleSample_receivedAt {configuration : SensorConfiguration} {record : RawRecord}
    {receivedAt : TimePoint} {sample : Sample}
    (h : scaleSample P configuration record receivedAt = some sample) :
    sample.receivedAt = receivedAt := by
  simp only [scaleSample] at h
  split at h
  · cases h
    rfl
  · cases h

theorem RecordsWf.worker_step (hr : RecordsWf s h) (hwf : s.Wf) {w : Nat} {t t' : Worker}
    {shared' : Shared} (ht : s.workers w = some t) (hrun : t.pc.phase ≠ .done)
    (hclock : shared'.clock = s.shared.clock)
    (hmove : RecordMove P config s.shared shared' t.pc t'.pc) :
    RecordsWf ((s.withShared shared').setWorker w t') (h.atWorker s.shared t.pc) := by
  have hlast := hr.last (hwf.noReset_of_running ht hrun)
  have hnow := fun receivedAt => hr.worker w t receivedAt ht
  have hkeep : shared'.receiveTimes = s.shared.receiveTimes →
      shared'.deliveryTimes = s.shared.deliveryTimes →
      shared'.lastDeliveryAt = s.shared.lastDeliveryAt →
      (∀ receivedAt, t'.pc.receivedAt? = some receivedAt → t.pc.receivedAt? = some receivedAt) →
      RecordsWf ((s.withShared shared').setWorker w t') h := by
    intro hreceive hdelivery hat hplace
    refine RecordsWf.thread hwf ht hrun hclock ?_ (hat.trans hlast)
      fun receivedAt hpc => hnow receivedAt (hplace receivedAt hpc)
    rw [hreceive, hdelivery]
    exact hr.tracked
  have henter : ∀ {rx record receivedAt decision}, t.pc = .classify rx record receivedAt →
      s.shared.toImpl.classifyRecord config record receivedAt
        = (shared'.toImpl, .ok decision) →
      (∀ at', t'.pc.receivedAt? = some at' → at' = receivedAt) →
      RecordsWf ((s.withShared shared').setWorker w t') (h.atWorker s.shared t.pc) := by
    intro rx record receivedAt decision hpc hclass hplace
    obtain ⟨hconf, hreceive, hdelivery, hat⟩ := classifyRecord_times hclass
    obtain ⟨hle, hentered, hdelivered⟩ := hnow receivedAt (by rw [hpc]; rfl)
    rw [hpc]
    simp only [RecordHistory.atWorker, hconf, if_true]
    refine RecordsWf.thread hwf ht hrun hclock ?_ (hat.trans hlast) ?_
    · refine ⟨?_, ?_⟩
      · rw [hreceive]
        exact (hr.tracked.received.push hentered hle).prune hle
      · rw [hdelivery]
        exact hr.tracked.delivered
    · intro at' hat'
      obtain rfl := hplace at' hat'
      refine ⟨hle, fun u hu => ?_, hdelivered⟩
      rcases List.mem_append.mp hu with hold | hnew
      · exact hentered u hold
      · exact (List.mem_singleton.mp hnew).le
  obtain ⟨pc, backoff, nested⟩ := t
  obtain ⟨pc', backoff', nested'⟩ := t'
  dsimp only at hmove hnow hkeep henter ⊢
  cases hmove with
  | outside before after tally =>
    rw [h.atWorker_outside before]
    obtain ⟨hreceive, hdelivery, hat⟩ := pc.counted_times s.shared.toImpl
    refine hkeep ((congrArg Tally.receiveTimes tally).trans hreceive)
      ((congrArg Tally.deliveryTimes tally).trans hdelivery)
      ((congrArg Tally.lastDeliveryAt tally).trans hat) fun receivedAt hpc => ?_
    rw [WorkerPc.receivedAt?_outside after] at hpc
    cases hpc
  | arrives impl =>
    -- the clock was read after every record before this one
    refine RecordsWf.thread hwf ht hrun hclock ?_ ?_ ?_
    · rw [impl]
      exact hr.tracked
    · rw [impl]
      exact hlast
    · intro receivedAt hpc
      cases hpc
      exact ⟨le_rfl, hr.tracked.received.past, hr.tracked.delivered.past⟩
  | refused missing after tally =>
    simp only [RecordHistory.atWorker, missing, Option.isSome_none, Bool.false_eq_true, if_false]
    refine hkeep (congrArg Tally.receiveTimes tally) (congrArg Tally.deliveryTimes tally)
      (congrArg Tally.lastDeliveryAt tally) fun receivedAt hpc => ?_
    rw [WorkerPc.receivedAt?_outside after] at hpc
    cases hpc
  | settled classified kept after =>
    refine henter rfl classified fun at' hat' => ?_
    rw [WorkerPc.receivedAt?_outside after] at hat'
    cases hat'
  | unscaled classified scaled after =>
    refine henter rfl classified fun at' hat' => ?_
    rw [WorkerPc.receivedAt?_outside after] at hat'
    cases hat'
  | handed classified deliver scaled after =>
    refine henter rfl classified fun at' hat' => ?_
    rcases after with rfl | rfl
    · cases hat'
      exact scaleSample_receivedAt scaled
    · cases hat'
      exact scaleSample_receivedAt scaled
  | returned same =>
    subst same
    exact hkeep rfl rfl rfl fun receivedAt hpc => hpc
  | threw same =>
    subst same
    exact hkeep rfl rfl rfl fun receivedAt hpc => by cases hpc
  | failed impl after =>
    refine hkeep (by rw [impl]; rfl) (by rw [impl]; rfl) (by rw [impl]; rfl)
      fun receivedAt hpc => ?_
    rw [WorkerPc.receivedAt?_outside after] at hpc
    cases hpc
  | @delivered _ _ sample _ impl after =>
    obtain ⟨hle, hentered, hdelivered⟩ := hnow sample.receivedAt rfl
    refine RecordsWf.thread hwf ht hrun hclock ?_ ?_ ?_
    · refine ⟨?_, ?_⟩
      · rw [impl]
        exact hr.tracked.received
      · rw [impl]
        exact (hr.tracked.delivered.push hdelivered hle).prune hle
    · rw [impl]
      simp [Impl.recordDelivered, RecordHistory.atWorker, RunRecords.lastDelivery]
    · intro receivedAt hpc
      rw [WorkerPc.receivedAt?_outside after] at hpc
      cases hpc

/-! ## Runs -/

theorem RecordsWf.step (hr : RecordsWf s h) (hwf : s.Wf) {l : Label}
    (hstep : s.step P config l = some s') : RecordsWf s' (h.record s l s') := by
  cases Sys.step_move hstep with
  | tick ticks =>
    have hle : s.shared.clock ≤ s.shared.clock + ticks := Nat.le_add_right _ _
    refine ⟨hr.tracked.later hle, hr.last, fun c call hc => (hr.calls c call hc).frame rfl hle, ?_⟩
    intro w t receivedAt ht hpc
    obtain ⟨hnow, hrest⟩ := hr.worker w t receivedAt ht hpc
    exact ⟨hnow.trans hle, hrest⟩
  | places label places =>
    have hrecord : h.record s l s' = h := by
      rcases label with ⟨c, caller, op, rfl⟩ | ⟨c, rfl⟩ <;> rfl
    rw [hrecord]
    refine ⟨by rw [places.shared]; exact hr.tracked, ?_, ?_, ?_⟩
    · intro hno
      rw [places.shared]
      refine hr.last fun c call hc => ?_
      rcases places.old c call hc with hsame | hplain
      · exact hno c call hsame
      · exact CallPc.resets_false_of_holds (CallPc.of_plain hplain).1
    · intro c call hc
      rw [places.shared]
      rcases places.new c call hc with hold | hplain
      · exact hr.calls c call hold
      · exact CallPc.recordsOk_of_not_resets
          (CallPc.resets_false_of_holds (CallPc.of_plain hplain).1) _ _
    · intro w t receivedAt ht hpc
      obtain ⟨u, hu, heq⟩ := places.thread ht
      rw [places.shared]
      exact hr.worker w u receivedAt hu (heq ▸ hpc)
  | @call c call pc' u choice hc _ move =>
    have hrecord : h.record s (.call c choice) (u.setCall c (some { call with pc := pc' }))
        = h.atCall call.pc := by
      simp [RecordHistory.record, hc]
    rw [hrecord]
    exact hr.callMove hwf hc move
  | @worker w t t' shared' choice ht step move =>
    have hrecord : h.record s (.worker w choice) ((s.withShared shared').setWorker w t')
        = h.atWorker s.shared t.pc := by
      simp [RecordHistory.record, ht]
    rw [hrecord]
    exact hr.worker_step hwf ht move.lifecycle.1 move.clock (workerStep_record step)

theorem recordsWf_of_reach {p : Sys × RecordHistory} {ok : Sys × RecordHistory → Label → Prop}
    (hr : (recordLts P config).Reach ok p) : RecordsWf p.1 p.2 := by
  refine Lts.Reach.recorded_invariant (I := RecordsWf) ?_ ?_ hr
  · rintro s ⟨clock, -, rfl⟩
    refine ⟨RunRecords.tracked_empty _, fun _ => rfl, ?_, ?_⟩
    · intro c call hc
      cases hc
    · intro w t receivedAt ht
      cases ht
  · intro s history l t _ hs hstep hwf
    exact hwf.step (wf_of_reachable hs) hstep

end System

end PyNetFT.Core
