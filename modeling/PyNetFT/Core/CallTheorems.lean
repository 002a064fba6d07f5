/-
PyNetFT.Core.CallTheorems — what one step of a client call can do, said
once, as `WorkerTheorems` does for the receive thread.

`CallMove` lists the effects: most steps only move the program counter
and give up the lock (`wait`); the others are the sections of `start`,
`stop`, `bias` and `health`, one constructor each, with what the section
has checked.
-/
import PyNetFT.Core.System

namespace PyNetFT.Core

/-! ## What the places of a call mean -/

/-- The places inside `start` after it has decided to start a run. -/
def CallPc.resets : CallPc → Bool
  | .startSaved _ _ | .startReset _ _ _ | .startArmed _ _ | .rollbackRecord _ _ _
  | .rollbackData _ _ _ | .rollbackLatch _ _ _ | .rollbackPublish _ _ _ => true
  | _ => false

/-- The places where a call owns the lifecycle lock between two steps. -/
def CallPc.holds : CallPc → Bool
  | .stopCommand | .stopDecide => true
  | pc => pc.resets

/-- The thread a call is joining. -/
def CallPc.joins : CallPc → Option Nat
  | .startJoin _ w | .stopJoin w => some w
  | _ => none

/-- The places a call made by the receive thread never gets to. -/
def CallPc.outside : CallPc → Bool
  | .startAwaitJoin _ | .startAwaitExit _ | .startJoin _ _ | .stopAwaitJoin | .stopJoin _ => true
  | pc => pc.resets

/-- `worker_exited_` is cleared but no thread is there yet. -/
def CallPc.armed : CallPc → Bool
  | .startArmed _ _ => true
  | _ => false

/-- What `start` has saved. -/
def CallPc.control? : CallPc → Option SavedControl
  | .startSaved _ k | .startReset _ k _ | .startArmed k _ | .rollbackRecord k _ _
  | .rollbackData k _ _ | .rollbackLatch k _ _ | .rollbackPublish k _ _ => some k
  | _ => none

/-- The health record `start` has saved. -/
def CallPc.data? : CallPc → Option SavedData
  | .startReset _ _ d | .startArmed _ d | .rollbackRecord _ d _ | .rollbackData _ d _
  | .rollbackLatch _ d _ | .rollbackPublish _ d _ => some d
  | _ => none

/-- A place with none of these meanings: entries, waits of no consequence
and returned calls. -/
def CallPc.plain (pc : CallPc) : Bool :=
  !pc.holds && pc.joins.isNone && !pc.outside

theorem CallPc.holds_of_resets {pc : CallPc} (h : pc.resets = true) : pc.holds = true := by
  cases pc <;> simp_all [CallPc.resets, CallPc.holds]

theorem CallPc.outside_of_resets {pc : CallPc} (h : pc.resets = true) : pc.outside = true := by
  cases pc <;> simp_all [CallPc.resets, CallPc.outside]

theorem CallPc.outside_of_joins {pc : CallPc} {w : Nat} (h : pc.joins = some w) :
    pc.outside = true := by
  cases pc <;> simp_all [CallPc.joins, CallPc.outside]

theorem CallPc.resets_of_armed {pc : CallPc} (h : pc.armed = true) : pc.resets = true := by
  cases pc <;> simp_all [CallPc.armed, CallPc.resets]

theorem CallPc.resets_of_control? {pc : CallPc} {k : SavedControl} (h : pc.control? = some k) :
    pc.resets = true := by
  cases pc <;> simp_all [CallPc.control?, CallPc.resets]

theorem CallPc.no_data_of_resets {pc : CallPc} (h : pc.resets = false) :
    pc.control? = none ∧ pc.data? = none := by
  cases pc <;> simp_all [CallPc.resets, CallPc.control?, CallPc.data?]

theorem CallPc.of_plain {pc : CallPc} (h : pc.plain = true) :
    pc.holds = false ∧ pc.joins = none ∧ pc.outside = false := by
  simpa [CallPc.plain, and_assoc] using h

theorem Op.entry_plain (op : Op) : op.entry.plain = true := by
  cases op <;> rfl

theorem CallPc.armed_false_of_holds {pc : CallPc} (h : pc.holds = false) : pc.armed = false := by
  cases pc <;> simp_all [CallPc.holds, CallPc.resets, CallPc.armed]

theorem CallPc.resets_false_of_holds {pc : CallPc} (h : pc.holds = false) :
    pc.resets = false := by
  cases pc <;> simp_all [CallPc.holds, CallPc.resets]

theorem CallPc.joins_of_holds {pc : CallPc} (h : pc.holds = true) : pc.joins = none := by
  cases pc <;> simp_all [CallPc.holds, CallPc.resets, CallPc.joins]

/-! ## The moves -/

/-- The effect of one step of the call `c`. A place a receive thread does
not get to was reached before, or behind the self check. -/
inductive CallMove (config : Config) (c : Nat) (caller : Option Nat) (s : Sys) :
    CallPc → CallPc → Sys → Prop where
  | wait {pc pc' : CallPc} (before : pc.joins = none ∧ pc.resets = false)
      (after : pc'.joins = none ∧ pc'.holds = false)
      (outside : pc'.outside = true → pc.outside = true ∨ s.shared.calledByWorker caller = false) :
      CallMove config c caller s pc pc'
        { s with lifecycle := if pc.holds then none else s.lifecycle }
  | take {pc pc' : CallPc} {w : Nat} (worker : s.shared.worker = some w)
      (joining : s.shared.joining = false) (before : pc.joins = none ∧ pc.resets = false)
      (free : pc.holds = true ∨ s.lifecycle = none) (after : pc'.joins = some w)
      (outside : pc.outside = true ∨ s.shared.calledByWorker caller = false) :
      CallMove config c caller s pc pc'
        { s with
          lifecycle := if pc.holds then none else s.lifecycle
          shared := { s.shared with joining := true, worker := none } }
  | save {pc : CallPc} {callback : Option Nat} (worker : s.shared.worker = none)
      (joining : s.shared.joining = false) (free : s.lifecycle = none)
      (before : pc = .startEnter callback ∨ pc = .startAwaitJoin callback)
      (outside : pc.outside = true ∨ s.shared.calledByWorker caller = false) :
      CallMove config c caller s pc (.startSaved callback s.shared.saveControl)
        { s with
          lifecycle := some c
          shared := { s.shared with callback := none, lastDeliveryAt := 0 } }
  | reset {callback : Option Nat} {k : SavedControl} :
      CallMove config c caller s (.startSaved callback k)
        (.startReset callback k s.shared.saveData) (s.withShared s.shared.resetRun)
  | arm {callback : Option Nat} {k : SavedControl} {d : SavedData} :
      CallMove config c caller s (.startReset callback k d) (.startArmed k d)
        (s.withShared
          { s.shared with stopping := false, workerExited := false, callback := callback })
  | spawn {k : SavedControl} {d : SavedData} :
      CallMove config c caller s (.startArmed k d) (.returned .done) (s.spawn config)
  | disarm {k : SavedControl} {d : SavedData} {message : String} :
      CallMove config c caller s (.startArmed k d) (.rollbackRecord k d message)
        (s.withShared
          { s.shared with
            stopping := k.stopping, workerExited := k.workerExited, callback := k.callback })
  | restoreRecord {k : SavedControl} {d : SavedData} {message : String} :
      CallMove config c caller s (.rollbackRecord k d message) (.rollbackData k d message)
        (s.withShared { s.shared with lastDeliveryAt := k.lastDeliveryAt })
  | restoreData {k : SavedControl} {d : SavedData} {message : String} :
      CallMove config c caller s (.rollbackData k d message) (.rollbackLatch k d message)
        (s.withShared (s.shared.restoreData d))
  | clearLatch {k : SavedControl} {d : SavedData} {message : String} :
      CallMove config c caller s (.rollbackLatch k d message) (.rollbackPublish k d message)
        (s.withShared { s.shared with faultLatch := .none })
  | republish {k : SavedControl} {d : SavedData} {message : String} :
      CallMove config c caller s (.rollbackPublish k d message) (.returned (.threw message))
        { s with
          lifecycle := none
          shared :=
            if k.fault ≠ .none then
              { s.shared with toImpl := s.shared.toImpl.publish k.fault d.health.lastError }
            else s.shared }
  | request (free : s.lifecycle = none) :
      CallMove config c caller s .stopEnter .stopCommand
        { s with lifecycle := some c, shared := { s.shared with stopping := true } }
  | command (event : SendEvent) :
      CallMove config c caller s .stopCommand .stopDecide
        (s.withShared (s.shared.stopCommand event))
  | stopIdle (worker : s.shared.worker = none) (joining : s.shared.joining = false)
      (outside : s.shared.calledByWorker caller = false) :
      CallMove config c caller s .stopDecide (.returned .done)
        { s with lifecycle := none, shared := s.shared.markStopped }
  | reapStart {callback : Option Nat} {w : Nat} (free : s.lifecycle = none)
      (finished : s.finished w = true) :
      CallMove config c caller s (.startJoin callback w) (.startEnter callback) (s.reap w caller)
  | reapStop {w : Nat} (free : s.lifecycle = none) (finished : s.finished w = true) :
      CallMove config c caller s (.stopJoin w) (.returned .done)
        ((s.withShared s.shared.markStopped).reap w caller)
  | bias (first second : SendEvent) (result : CallResult) :
      CallMove config c caller s .biasEnter (.returned result)
        (s.withShared (s.shared.bias first second).1)
  | snapshot (result : CallResult) :
      CallMove config c caller s .healthEnter (.returned result)
        (s.withShared s.shared.snapshot.1)

section Steps

variable {config : Config} {c : Nat} {caller : Option Nat} {choice : CallChoice} {s s' : Sys}
  {pc pc' : CallPc}

/-- A step that moves the program counter only, from a place without the
lock. -/
theorem CallMove.stay (before : pc.joins = none ∧ pc.holds = false)
    (after : pc'.joins = none ∧ pc'.holds = false)
    (outside : pc'.outside = true → pc.outside = true ∨ s.shared.calledByWorker caller = false) :
    CallMove config c caller s pc pc' s := by
  have hwait : CallMove config c caller s pc pc'
      { s with lifecycle := if pc.holds then none else s.lifecycle } :=
    .wait ⟨before.1, CallPc.resets_false_of_holds before.2⟩ after outside
  rwa [before.2] at hwait

theorem startDecide_move {callback : Option Nat} (free : s.lifecycle = none)
    (joining : s.shared.joining = false)
    (before : pc = .startEnter callback ∨ pc = .startAwaitJoin callback)
    (outside : pc.outside = true ∨ s.shared.calledByWorker caller = false)
    (h : startDecide c callback s = (pc', s')) : CallMove config c caller s pc pc' s' := by
  have hpc : pc.joins = none ∧ pc.holds = false := by
    rcases before with rfl | rfl
    · exact ⟨rfl, rfl⟩
    · exact ⟨rfl, rfl⟩
  unfold startDecide at h
  split at h
  · rename_i w hw
    split at h
    · obtain ⟨rfl, rfl⟩ := Prod.mk.inj h
      split
      · exact .stay hpc ⟨rfl, rfl⟩ (fun _ => outside)
      · exact .stay hpc ⟨rfl, rfl⟩ (fun _ => outside)
    · obtain ⟨rfl, rfl⟩ := Prod.mk.inj h
      have htake : CallMove config c caller s pc (.startJoin callback w)
          { s with
            lifecycle := if pc.holds then none else s.lifecycle
            shared := { s.shared with joining := true, worker := none } } :=
        .take hw joining ⟨hpc.1, CallPc.resets_false_of_holds hpc.2⟩ (.inr free) rfl outside
      rwa [hpc.2] at htake
  · rename_i hw
    obtain ⟨rfl, rfl⟩ := Prod.mk.inj h
    exact .save hw joining free before outside

theorem startStep_move (h : startStep config c caller choice s pc = some (pc', s')) :
    CallMove config c caller s pc pc' s' := by
  cases pc <;> dsimp only [startStep] at h
  case startEnter callback =>
    split at h
    · cases h
    · rename_i hlock
      split at h
      · obtain ⟨rfl, rfl⟩ := Prod.mk.inj (Option.some.inj h)
        exact .stay ⟨rfl, rfl⟩ ⟨rfl, rfl⟩ (by intro e; cases e)
      · rename_i hself
        have houtside : s.shared.calledByWorker caller = false := by simpa using hself
        split at h
        · obtain ⟨rfl, rfl⟩ := Prod.mk.inj (Option.some.inj h)
          exact .stay ⟨rfl, rfl⟩ ⟨rfl, rfl⟩ (fun _ => .inr houtside)
        · rename_i hjoining
          exact startDecide_move (by simpa using hlock) (by simpa using hjoining) (.inl rfl)
            (.inr houtside) (Option.some.inj h)
  case startAwaitJoin callback =>
    split at h
    · cases h
    · rename_i hcond
      rw [not_or] at hcond
      exact startDecide_move (by simpa using hcond.1) (by simpa using hcond.2) (.inr rfl)
        (.inl rfl) (Option.some.inj h)
  case startAwaitExit callback =>
    split at h
    · obtain ⟨rfl, rfl⟩ := Prod.mk.inj (Option.some.inj h)
      exact .stay ⟨rfl, rfl⟩ ⟨rfl, rfl⟩ (by intro e; cases e)
    · cases h
  case startJoin callback w =>
    split at h
    · rename_i hcond
      obtain ⟨rfl, rfl⟩ := Prod.mk.inj (Option.some.inj h)
      exact .reapStart (by simpa using hcond.1) hcond.2
    · cases h
  case startSaved callback k =>
    obtain ⟨rfl, rfl⟩ := Prod.mk.inj (Option.some.inj h)
    exact .reset
  case startReset callback k d =>
    obtain ⟨rfl, rfl⟩ := Prod.mk.inj (Option.some.inj h)
    exact .arm
  case startArmed k d =>
    split at h
    · obtain ⟨rfl, rfl⟩ := Prod.mk.inj (Option.some.inj h)
      exact .spawn
    · obtain ⟨rfl, rfl⟩ := Prod.mk.inj (Option.some.inj h)
      exact .disarm
    · cases h
  case rollbackRecord k d message =>
    obtain ⟨rfl, rfl⟩ := Prod.mk.inj (Option.some.inj h)
    exact .restoreRecord
  case rollbackData k d message =>
    obtain ⟨rfl, rfl⟩ := Prod.mk.inj (Option.some.inj h)
    exact .restoreData
  case rollbackLatch k d message =>
    obtain ⟨rfl, rfl⟩ := Prod.mk.inj (Option.some.inj h)
    exact .clearLatch
  case rollbackPublish k d message =>
    obtain ⟨rfl, rfl⟩ := Prod.mk.inj (Option.some.inj h)
    exact .republish
  all_goals cases h

theorem stopStep_move (h : stopStep c caller choice s pc = some (pc', s')) :
    CallMove config c caller s pc pc' s' := by
  cases pc <;> dsimp only [stopStep] at h
  case stopEnter =>
    split at h
    · cases h
    · rename_i hlock
      obtain ⟨rfl, rfl⟩ := Prod.mk.inj (Option.some.inj h)
      exact .request (by simpa using hlock)
  case stopCommand =>
    split at h
    · obtain ⟨rfl, rfl⟩ := Prod.mk.inj (Option.some.inj h)
      exact .command _
    · cases h
  case stopDecide =>
    split at h
    · obtain ⟨rfl, rfl⟩ := Prod.mk.inj (Option.some.inj h)
      exact .wait ⟨rfl, rfl⟩ ⟨rfl, rfl⟩ (by intro e; cases e)
    · rename_i hself
      have houtside : s.shared.calledByWorker caller = false := by simpa using hself
      split at h
      · obtain ⟨rfl, rfl⟩ := Prod.mk.inj (Option.some.inj h)
        exact .wait ⟨rfl, rfl⟩ ⟨rfl, rfl⟩ (fun _ => .inr houtside)
      · rename_i hjoining
        split at h
        · rename_i hw
          obtain ⟨rfl, rfl⟩ := Prod.mk.inj (Option.some.inj h)
          exact .stopIdle hw (by simpa using hjoining) houtside
        · rename_i w hw
          obtain ⟨rfl, rfl⟩ := Prod.mk.inj (Option.some.inj h)
          exact .take hw (by simpa using hjoining) ⟨rfl, rfl⟩ (.inl rfl) rfl (.inr houtside)
  case stopAwaitJoin =>
    split at h
    · cases h
    · obtain ⟨rfl, rfl⟩ := Prod.mk.inj (Option.some.inj h)
      exact .stay ⟨rfl, rfl⟩ ⟨rfl, rfl⟩ (by intro e; cases e)
  case stopJoin w =>
    split at h
    · rename_i hcond
      obtain ⟨rfl, rfl⟩ := Prod.mk.inj (Option.some.inj h)
      exact .reapStop (by simpa using hcond.1) hcond.2
    · cases h
  all_goals cases h

theorem otherStep_move (h : otherStep choice s pc = some (pc', s')) :
    CallMove config c caller s pc pc' s' := by
  cases pc <;> dsimp only [otherStep] at h
  case biasEnter =>
    split at h
    · obtain ⟨rfl, rfl⟩ := Prod.mk.inj (Option.some.inj h)
      exact .bias _ _ _
    · cases h
  case healthEnter =>
    obtain ⟨rfl, rfl⟩ := Prod.mk.inj (Option.some.inj h)
    exact .snapshot _
  case latestEnter =>
    obtain ⟨rfl, rfl⟩ := Prod.mk.inj (Option.some.inj h)
    exact .stay ⟨rfl, rfl⟩ ⟨rfl, rfl⟩ (by intro e; cases e)
  case waitEnter timeout =>
    split at h
    · obtain ⟨rfl, rfl⟩ := Prod.mk.inj (Option.some.inj h)
      exact .stay ⟨rfl, rfl⟩ ⟨rfl, rfl⟩ (by intro e; cases e)
    · obtain ⟨rfl, rfl⟩ := Prod.mk.inj (Option.some.inj h)
      exact .stay ⟨rfl, rfl⟩ ⟨rfl, rfl⟩ (by intro e; cases e)
  case waitCapture deadline =>
    split at h
    · obtain ⟨rfl, rfl⟩ := Prod.mk.inj (Option.some.inj h)
      exact .stay ⟨rfl, rfl⟩ ⟨rfl, rfl⟩ (by intro e; cases e)
    · obtain ⟨rfl, rfl⟩ := Prod.mk.inj (Option.some.inj h)
      exact .stay ⟨rfl, rfl⟩ ⟨rfl, rfl⟩ (by intro e; cases e)
  case waitSleep deadline generation =>
    split at h
    · obtain ⟨rfl, rfl⟩ := Prod.mk.inj (Option.some.inj h)
      exact .stay ⟨rfl, rfl⟩ ⟨rfl, rfl⟩ (by intro e; cases e)
    · cases h
  all_goals cases h

/-- A move leaves the table of calls to the caller of the step. -/
theorem callMove_calls (h : CallMove config c caller s pc pc' s') : s'.calls = s.calls := by
  cases h <;> rfl

/-- A step of a call is one of the moves. -/
theorem callStep_move {call : Call} (h : callStep config c call choice s = some (pc', s')) :
    CallMove config c call.caller s call.pc pc' s' := by
  unfold callStep at h
  split at h
  · exact startStep_move h
  · exact stopStep_move h
  · exact otherStep_move h

end Steps

end PyNetFT.Core
