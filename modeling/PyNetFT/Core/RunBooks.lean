/-
PyNetFT.Core.RunBooks — the members that identify runs and calibrations,
and which step writes them.

`generation_` and `delivered_generation_` say which run is current and
whether it has delivered; `sensor_configuration` and
`calibration_change_count` say which calibration its samples are scaled
with. They are written in four places only: the reset section of
`start`, the rollback of a failed one, `apply_configuration`, and the
section behind a callback that returned. `workerStep_books` and
`CallMove.books` say so once; the invariants of `FirstSample` and
`Calibrations` are proved from them.
-/
import PyNetFT.Core.Quiescence

namespace PyNetFT.Core

structure RunBooks where
  generation : Nat
  deliveredGeneration : Nat
  configuration : Option SensorConfiguration
  changes : Nat

def Shared.books (s : Shared) : RunBooks :=
  ⟨s.generation, s.deliveredGeneration, s.health.sensorConfiguration,
    s.health.calibrationChangeCount⟩

def SavedData.books (d : SavedData) : RunBooks :=
  ⟨d.generation, d.deliveredGeneration, d.health.sensorConfiguration,
    d.health.calibrationChangeCount⟩

/-- The books of a new run: the next generation, nothing delivered. -/
def RunBooks.next (b : RunBooks) : RunBooks :=
  { b with generation := b.generation + 1, deliveredGeneration := 0 }

/-! ## The receive thread -/

/-- What a step of the thread at `pc` leaves in the books. -/
def WorkerPc.writes (pc : WorkerPc) (s : Shared) : RunBooks :=
  match pc with
  | .applyConfiguration configuration =>
      ({ s with toImpl := s.toImpl.applyConfiguration configuration } : Shared).books
  | .delivered _ _ _ => { s.books with deliveredGeneration := s.generation }
  | _ => s.books

section Worker

variable {P : Platform} {config : Config} {w : Nat} {choice : WorkerChoice} {s s' : Shared}
  {pc pc' : WorkerPc}

theorem classifyRecord_books (config : Config) (s : Shared) (record : RawRecord)
    (receivedAt : TimePoint) :
    ({ s with toImpl := (s.toImpl.classifyRecord config record receivedAt).1 } : Shared).books
      = s.books := by
  unfold Impl.classifyRecord
  dsimp only
  split
  · rfl
  · dsimp only [Shared.books]
    split <;> rfl

theorem closeSession_books (s : Shared) (event : SendEvent) :
    (s.closeSession event).books = s.books := by
  unfold Shared.closeSession Shared.stopStreaming Shared.attempt
  dsimp only
  split <;> rfl

theorem publish_books (s : Shared) (code : FaultCode) (message : String) :
    ({ s with toImpl := s.toImpl.publish code message } : Shared).books = s.books := by
  unfold Impl.publish
  split <;> rfl

theorem transportStep_books (hpart : pc.part = .transport)
    (h : transportStep P choice s pc = some (pc', s')) : s'.books = pc.writes s := by
  cases pc <;> cases hpart <;> dsimp only [transportStep] at h <;> (repeat' split at h) <;>
    cases h <;> rfl

theorem receiveStep_books (hpart : pc.part = .receive)
    (h : receiveStep config s pc = some (pc', s')) : s'.books = pc.writes s := by
  cases pc <;> cases hpart <;> dsimp only [receiveStep] at h <;> (repeat' split at h) <;>
    cases h <;> rfl

theorem connectStep_books (hpart : pc.part = .connect)
    (h : connectStep choice s pc = some (pc', s')) : s'.books = pc.writes s := by
  cases pc <;> cases hpart <;> dsimp only [connectStep] at h <;> (repeat' split at h) <;>
    cases h <;> rfl

theorem configureStep_books (hpart : pc.part = .configure)
    (h : configureStep P config w choice s pc = some (pc', s')) : s'.books = pc.writes s := by
  cases pc <;> cases hpart <;> dsimp only [configureStep] at h <;> (repeat' split at h) <;>
    cases h <;> rfl

theorem recordStep_books (hpart : pc.part = .record)
    (h : recordStep P config w choice s pc = some (pc', s')) : s'.books = pc.writes s := by
  cases pc <;> cases hpart <;> dsimp only [recordStep] at h
  case classify rx record receivedAt =>
    have hbooks := classifyRecord_books config s record receivedAt
    rcases hclass : s.toImpl.classifyRecord config record receivedAt with ⟨impl, decision⟩
    rw [hclass] at hbooks h
    cases decision with
    | error message =>
      cases h
      exact hbooks
    | ok decision =>
      dsimp only at h
      (repeat' split at h) <;> cases h <;> exact hbooks
  all_goals (repeat' split at h) <;> cases h <;> rfl

theorem runStep_books {backoff backoff' : ℚ} (hpart : pc.part = .run)
    (h : runStep config w choice backoff s pc = some (pc', backoff', s')) :
    s'.books = pc.writes s := by
  cases pc <;> cases hpart <;> dsimp only [runStep] at h
  case sessionDone outcome =>
    split at h
    · cases h
      exact closeSession_books s _
    · cases h
  case latchFault code message =>
    cases h
    exact publish_books s code message
  case finishClose =>
    split at h
    · cases h
      exact closeSession_books s _
    · cases h
  case finishState =>
    cases h
    split <;> rfl
  all_goals (repeat' split at h) <;> cases h <;> rfl

theorem workerStep_books {t t' : Worker} (h : workerStep P config w choice t s = some (t', s')) :
    s'.books = t.pc.writes s := by
  cases (workerStep_parts h).2 with
  | run part step => exact runStep_books part step
  | connect part step => exact connectStep_books part step
  | configure part step => exact configureStep_books part step
  | transport part step => exact transportStep_books part step
  | receive part step => exact receiveStep_books part step
  | record part step => exact recordStep_books part step

/-- A receive thread never changes which run is current. -/
theorem WorkerPc.writes_generation (pc : WorkerPc) (s : Shared) :
    (pc.writes s).generation = s.generation := by
  cases pc
  case applyConfiguration configuration =>
    dsimp only [WorkerPc.writes, Shared.books, Impl.applyConfiguration]
    split
    · rfl
    · split <;> rfl
  all_goals rfl

/-- Only the section behind the callback writes `delivered_generation_`. -/
theorem WorkerPc.writes_deliveredGeneration {pc : WorkerPc}
    (h : ∀ rx outcome sample, pc ≠ .delivered rx outcome sample) (s : Shared) :
    (pc.writes s).deliveredGeneration = s.deliveredGeneration := by
  cases pc
  case applyConfiguration configuration =>
    dsimp only [WorkerPc.writes, Shared.books, Impl.applyConfiguration]
    split
    · rfl
    · split <;> rfl
  case delivered rx outcome sample => exact absurd rfl (h rx outcome sample)
  all_goals rfl

end Worker

/-! ## The calls -/

theorem stopCommand_books (s : Shared) (event : SendEvent) :
    (s.stopCommand event).books = s.books := by
  unfold Shared.stopCommand Shared.stopStreaming
  split <;> rfl

theorem markStopped_books (s : Shared) : s.markStopped.books = s.books := by
  unfold Shared.markStopped
  split <;> rfl

theorem bias_books (s : Shared) (first second : SendEvent) :
    (s.bias first second).1.books = s.books := by
  unfold Shared.bias
  split
  · rfl
  · dsimp only
    split
    · rfl
    · split <;> rfl

/-- What a step of a call at `pc` leaves in the books: `start` begins a
new run or takes the beginning of one back. -/
def CallPc.writes (pc : CallPc) (s : Shared) : RunBooks :=
  match pc with
  | .startSaved _ _ => s.books.next
  | .rollbackData _ d _ => d.books
  | _ => s.books

theorem CallPc.writes_of_not_resets {pc : CallPc} (h : pc.resets = false) (s : Shared) :
    pc.writes s = s.books := by
  cases pc <;> first | rfl | cases h

theorem CallMove.books {config : Config} {c : Nat} {caller : Option Nat} {s s' : Sys}
    {pc pc' : CallPc} (hmove : CallMove config c caller s pc pc' s') :
    s'.shared.books = pc.writes s.shared := by
  cases hmove with
  | wait before => exact (CallPc.writes_of_not_resets before.2 _).symm
  | take _ _ before => exact (CallPc.writes_of_not_resets before.2 _).symm
  | save _ _ _ before => rcases before with rfl | rfl <;> rfl
  | republish =>
    dsimp only [CallPc.writes]
    split
    · exact publish_books _ _ _
    · rfl
  | command event => exact stopCommand_books _ _
  | stopIdle => exact markStopped_books _
  | reapStop => exact markStopped_books _
  | bias first second => exact bias_books _ _ _
  | reset | arm | spawn | disarm | restoreRecord | restoreData | clearLatch | request | reapStart
  | snapshot => rfl

/-- What a place has saved, the place before had saved or is saving. -/
theorem CallMove.data_of {config : Config} {c : Nat} {caller : Option Nat} {s s' : Sys}
    {pc pc' : CallPc} (hmove : CallMove config c caller s pc pc' s') {d : SavedData}
    (hd : pc'.data? = some d) : pc.data? = some d ∨ d = s.shared.saveData := by
  cases hmove with
  | wait _ after =>
    rw [(CallPc.no_data_of_resets (CallPc.resets_false_of_holds after.2)).2] at hd
    cases hd
  | take _ _ _ _ after =>
    have hres : pc'.resets = false := by
      by_contra hne
      rw [CallPc.joins_of_holds (CallPc.holds_of_resets (by simpa using hne))] at after
      cases after
    rw [(CallPc.no_data_of_resets hres).2] at hd
    cases hd
  | reset =>
    cases hd
    exact .inr rfl
  | arm | disarm | restoreRecord | restoreData | clearLatch => exact .inl hd
  | save | spawn | republish | request | command | stopIdle | reapStart | reapStop | bias
  | snapshot => cases hd

/-- A call moves no thread; it may create one. -/
theorem CallMove.thread_of {config : Config} {c : Nat} {caller : Option Nat} {s s' : Sys}
    {pc pc' : CallPc} (hmove : CallMove config c caller s pc pc' s') {w : Nat} {t : Worker}
    (ht : s'.workers w = some t) : s.workers w = some t ∨ t.pc = .loopHead := by
  cases hmove with
  | spawn =>
    by_cases hw : w = s.created
    · subst hw
      simp only [Sys.spawn, Function.update_self, Option.some.injEq] at ht
      exact .inr (ht ▸ rfl)
    · exact .inl (by simpa [Sys.spawn, hw] using ht)
  | _ => exact .inl ht

/-- Calls appear at their entry and nowhere else. -/
theorem Sys.calls_new {P : Platform} {config : Config} {s s' : Sys} {l : Label}
    (hl : (∃ c caller op, l = .invoke c caller op) ∨ ∃ c, l = .collect c)
    (hstep : s.step P config l = some s') {j : Nat} {call : Call} (hj : s'.calls j = some call) :
    s.calls j = some call ∨ ∃ op : Op, call.pc = op.entry := by
  rcases hl with ⟨c, caller, op, rfl⟩ | ⟨c, rfl⟩
  · simp only [Sys.step, Sys.invoke] at hstep
    (repeat' split at hstep) <;> cases hstep <;>
      rcases Sys.setCall_cases hj with ⟨rfl, heq⟩ | ⟨-, hj⟩
    all_goals first | exact .inl hj | (cases heq; exact .inr ⟨op, rfl⟩)
  · simp only [Sys.step, Sys.collect] at hstep
    (repeat' split at hstep) <;> cases hstep <;>
      rcases Sys.setCall_cases hj with ⟨rfl, heq⟩ | ⟨-, hj⟩
    all_goals first | exact .inl hj | cases heq

end PyNetFT.Core
