/-
PyNetFT.Core.Handover — a sample on its way through the callback.

What the users of a callback need to know about the core, in the terms
of `handle_record`: a sample is OFFERED to the callback, it is ACCEPTED
when the callback returns, and then `delivered_count` is incremented.
`HandMove` says what one step of a receive thread does to that, and the
rest of the module what the calls do: they never change the delivered
count, and while a thread runs they leave its callback in place.
-/
import PyNetFT.Core.Quiescence

namespace PyNetFT.Core

open PyNetFT.Lib

/-! ## The samples of a receive thread -/

/-- The samples the receive thread `w` has called the callback with. -/
def handed (w : Nat) (log : List Event) : List Sample :=
  log.filterMap fun
    | .callbackCalled v sample => if v = w then some sample else none
    | _ => none

theorem handed_append (w : Nat) (a b : List Event) : handed w (a ++ b) = handed w a ++ handed w b :=
  List.filterMap_append

/-- Where a sample is between the callback and the count. -/
inductive Handover where
  | nothing
  | offered (sample : Sample)
  | accepted (sample : Sample)
  deriving DecidableEq

/-- The samples offered to the callback that has not returned. -/
def Handover.offers : Handover → List Sample
  | .offered sample => [sample]
  | _ => []

/-- The samples the callback has accepted and the core has not counted. -/
def Handover.uncounted : Handover → Nat
  | .accepted _ => 1
  | _ => 0

def WorkerPc.handover : WorkerPc → Handover
  | .callback _ _ sample => .offered sample
  | .delivered _ _ sample => .accepted sample
  | _ => .nothing

/-- Nothing was handed over or counted. -/
structure Shared.SameHands (s s' : Shared) : Prop where
  handed : ∀ w, handed w s'.log = handed w s.log
  count : s'.health.deliveredCount = s.health.deliveredCount
  callback : s'.callback = s.callback

theorem Shared.SameHands.refl (s : Shared) : s.SameHands s := ⟨fun _ => rfl, rfl, rfl⟩

theorem Shared.SameHands.trans {s s' s'' : Shared} (h : s.SameHands s') (h' : s'.SameHands s'') :
    s.SameHands s'' :=
  ⟨fun w => (h'.handed w).trans (h.handed w), h'.count.trans h.count, h'.callback.trans h.callback⟩

/-- What one step of the receive thread `w` does to the handover. -/
inductive HandMove (w : Nat) (choice : WorkerChoice) (s s' : Shared) :
    Handover → Handover → Prop where
  | other (kept : s.SameHands s') : HandMove w choice s s' .nothing .nothing
  | offer (sample : Sample)
      (handed : ∀ v, handed v s'.log = handed v s.log ++ if v = w then [sample] else [])
      (count : s'.health.deliveredCount = s.health.deliveredCount)
      (callback : s'.callback = s.callback) : HandMove w choice s s' .nothing (.offered sample)
  | skip (sample : Sample) (nobody : s.callback = none) (kept : s.SameHands s') :
      HandMove w choice s s' .nothing (.accepted sample)
  | accept (sample : Sample) (returns : choice = .callbackReturns) (kept : s.SameHands s') :
      HandMove w choice s s' (.offered sample) (.accepted sample)
  | refuse (sample : Sample) (message : String) (throws : choice = .callbackThrows message)
      (kept : s.SameHands s') : HandMove w choice s s' (.offered sample) .nothing
  | deliver (sample : Sample) (handed : ∀ v, handed v s'.log = handed v s.log)
      (count : s'.health.deliveredCount = s.health.deliveredCount + 1)
      (callback : s'.callback = s.callback) : HandMove w choice s s' (.accepted sample) .nothing

theorem HandMove.keeps_callback {w : Nat} {choice : WorkerChoice} {s s' : Shared}
    {before after : Handover} (h : HandMove w choice s s' before after) :
    s'.callback = s.callback := by
  cases h with
  | other kept => exact kept.callback
  | offer _ _ _ callback => exact callback
  | skip _ _ kept => exact kept.callback
  | accept _ _ kept => exact kept.callback
  | refuse _ _ _ kept => exact kept.callback
  | deliver _ _ _ callback => exact callback

section Steps

variable {P : Platform} {config : Config} {w : Nat} {choice : WorkerChoice} {s s' : Shared}
  {pc pc' : WorkerPc}

theorem sameHands_append {s' : Shared} {events : List Event}
    (hlog : s'.log = s.log ++ events) (hevents : ∀ v, handed v events = [])
    (hcount : s'.health.deliveredCount = s.health.deliveredCount)
    (hcallback : s'.callback = s.callback) : s.SameHands s' where
  handed := by
    intro v
    rw [hlog, handed_append, hevents, List.append_nil]
  count := hcount
  callback := hcallback

theorem attempt_hands (s : Shared) (command : Command) (event : SendEvent) :
    s.SameHands (s.attempt command event) :=
  sameHands_append rfl (fun _ => rfl) rfl rfl

theorem handed_closed (v : Nat) (socket : Option Nat) :
    handed v (socket.toList.map .closed) = [] := by
  cases socket <;> rfl

theorem stopStreaming_hands (s : Shared) (event : SendEvent) :
    s.SameHands (s.stopStreaming event) := by
  unfold Shared.stopStreaming
  split
  · have h := attempt_hands s .stopStreaming event
    exact ⟨h.handed, h.count, h.callback⟩
  · exact .refl s

theorem closeSession_hands (s : Shared) (event : SendEvent) :
    s.SameHands (s.closeSession event) := by
  refine (stopStreaming_hands s event).trans ?_
  exact sameHands_append rfl (fun v => handed_closed v _) rfl rfl

theorem publish_hands (s : Shared) (code : FaultCode) (message : String) (log : List Event)
    (hlog : ∀ v, handed v log = handed v s.log) :
    s.SameHands { s with toImpl := s.toImpl.publish code message, log := log } := by
  refine ⟨hlog, ?_, ?_⟩
  · unfold Impl.publish
    split <;> rfl
  · unfold Impl.publish
    split <;> rfl

theorem transportStep_hands (hpart : pc.part = .transport)
    (h : transportStep P choice s pc = some (pc', s')) :
    pc.handover = .nothing ∧ pc'.handover = .nothing ∧ s' = s := by
  cases pc <;> simp only [WorkerPc.part, reduceCtorEq] at hpart <;> dsimp only [transportStep] at h
  all_goals (repeat' split at h) <;>
    first
    | (cases h; exact ⟨rfl, rfl, rfl⟩)
    | cases h

theorem receiveStep_hands (hpart : pc.part = .receive)
    (h : receiveStep config s pc = some (pc', s')) :
    pc.handover = .nothing ∧ pc'.handover = .nothing ∧ s.SameHands s' := by
  cases pc <;> simp only [WorkerPc.part, reduceCtorEq] at hpart <;> dsimp only [receiveStep] at h
  all_goals (repeat' split at h) <;> cases h <;> exact ⟨rfl, rfl, ⟨fun _ => rfl, rfl, rfl⟩⟩

theorem connectStep_hands (hpart : pc.part = .connect)
    (h : connectStep choice s pc = some (pc', s')) :
    pc.handover = .nothing ∧ pc'.handover = .nothing ∧ s.SameHands s' := by
  cases pc <;> simp only [WorkerPc.part, reduceCtorEq] at hpart <;> dsimp only [connectStep] at h
  case connect =>
    split at h
    · cases h
      refine ⟨rfl, rfl, ?_⟩
      refine sameHands_append (List.append_assoc _ _ _) ?_ rfl rfl
      intro v
      rw [handed_append, handed_closed]
      rfl
    · cases h
      exact ⟨rfl, rfl, .refl s⟩
    · cases h
  case startRealtime =>
    split at h
    · split at h
      · cases h
        exact ⟨rfl, rfl, .refl s⟩
      · split at h
        · cases h
          exact ⟨rfl, rfl, attempt_hands _ _ _⟩
        · cases h
          have hattempt := attempt_hands s .startRealtime
          exact ⟨rfl, rfl, ⟨(hattempt _).handed, rfl, rfl⟩⟩
    · cases h
  case connectFailed message =>
    cases h
    exact ⟨rfl, rfl, .refl s⟩

theorem configureStep_hands (hpart : pc.part = .configure)
    (h : configureStep P config w choice s pc = some (pc', s')) :
    pc.handover = .nothing ∧ pc'.handover = .nothing ∧ s.SameHands s' := by
  cases pc <;> simp only [WorkerPc.part, reduceCtorEq] at hpart <;> dsimp only [configureStep] at h
  case sessionBegin =>
    cases h
    exact ⟨rfl, rfl, sameHands_append rfl (fun _ => rfl) rfl rfl⟩
  case applyConfiguration configuration =>
    cases h
    refine ⟨rfl, rfl, fun _ => rfl, ?_, ?_⟩
    all_goals
      unfold Impl.applyConfiguration
      (repeat' split) <;> rfl
  all_goals (repeat' split at h) <;>
    first
    | (cases h; exact ⟨rfl, rfl, ⟨fun _ => rfl, rfl, rfl⟩⟩)
    | cases h

theorem runStep_hands {backoff backoff' : ℚ} (hpart : pc.part = .run)
    (h : runStep config w choice backoff s pc = some (pc', backoff', s')) :
    pc.handover = .nothing ∧ pc'.handover = .nothing ∧ s.SameHands s' := by
  cases pc <;> simp only [WorkerPc.part, reduceCtorEq] at hpart <;> dsimp only [runStep] at h
  case sessionDone outcome =>
    split at h
    · rename_i event
      cases h
      refine ⟨rfl, rfl, (closeSession_hands s event).trans ?_⟩
      exact sameHands_append rfl (fun _ => rfl) rfl rfl
    · cases h
  case finishClose =>
    split at h
    · cases h
      exact ⟨rfl, rfl, closeSession_hands s _⟩
    · cases h
  case latchFault code message =>
    cases h
    refine ⟨rfl, rfl, publish_hands s code message _ ?_⟩
    intro v
    split
    · rw [handed_append]
      exact List.append_nil _
    · rfl
  case enterBackoff outcome =>
    cases h
    exact ⟨rfl, rfl, sameHands_append rfl (fun _ => rfl) rfl rfl⟩
  all_goals (repeat' split at h) <;>
    first
    | (cases h; exact ⟨rfl, rfl, ⟨fun _ => rfl, rfl, rfl⟩⟩)
    | cases h

theorem recordReturned_handover (rx : Reception) (outcome : Option SessionResult) :
    (recordReturned rx outcome).handover = .nothing := by
  cases outcome <;> rfl

theorem classifyRecord_hands (config : Config) (s : Shared) (record : RawRecord)
    (receivedAt : TimePoint) :
    s.SameHands { s with toImpl := (s.toImpl.classifyRecord config record receivedAt).1 } := by
  unfold Impl.classifyRecord
  dsimp only
  split
  · exact ⟨fun _ => rfl, rfl, rfl⟩
  · refine ⟨fun _ => rfl, ?_, rfl⟩
    dsimp only
    split <;> rfl

theorem recordStep_hands (hpart : pc.part = .record)
    (h : recordStep P config w choice s pc = some (pc', s')) :
    HandMove w choice s s' pc.handover pc'.handover := by
  cases pc <;> simp only [WorkerPc.part, reduceCtorEq] at hpart <;> dsimp only [recordStep] at h
  case classify rx record receivedAt =>
    have hkept := classifyRecord_hands config s record receivedAt
    rcases hclass : s.toImpl.classifyRecord config record receivedAt with ⟨impl, decision⟩
    rw [hclass] at h hkept
    cases decision with
    | error message =>
      cases h
      exact .other hkept
    | ok decision =>
      dsimp only at h
      split at h
      · cases h
        rw [recordReturned_handover]
        exact .other hkept
      · split at h
        · cases h
          exact .other hkept
        · rename_i sample _
          split at h
          · cases h
            refine .offer sample ?_ hkept.count hkept.callback
            intro v
            dsimp only
            rw [handed_append]
            congr 1
            unfold handed
            by_cases hv : v = w
            · simp [hv]
            · simp [hv, Ne.symm hv]
          · rename_i hnobody
            cases h
            refine .skip sample ?_ hkept
            have hnone : impl.callback = none := by simpa using hnobody
            exact hkept.callback.symm.trans hnone
  case callback rx outcome sample =>
    split at h
    · cases h
      exact .accept sample rfl (.refl s)
    · rename_i message
      cases h
      exact .refuse sample message rfl (.refl s)
    · cases h
  case callbackFailed rx outcome message =>
    cases h
    rw [recordReturned_handover]
    exact .other ⟨fun _ => rfl, rfl, rfl⟩
  case delivered rx outcome sample =>
    cases h
    rw [recordReturned_handover]
    exact .deliver sample (fun _ => rfl) rfl rfl

/-- One step of the receive thread, in these terms. -/
theorem workerStep_hands {t t' : Worker}
    (h : workerStep P config w choice t s = some (t', s')) :
    HandMove w choice s s' t.pc.handover t'.pc.handover := by
  have hother : ∀ {pc' : WorkerPc} {s'' : Shared},
      t.pc.handover = .nothing ∧ pc'.handover = .nothing ∧ s.SameHands s'' →
      HandMove w choice s s'' t.pc.handover pc'.handover := by
    intro pc' s'' ⟨hbefore, hafter, hkept⟩
    rw [hbefore, hafter]
    exact .other hkept
  cases (workerStep_parts h).2 with
  | run part step => exact hother (runStep_hands part step)
  | connect part step => exact hother (connectStep_hands part step)
  | configure part step => exact hother (configureStep_hands part step)
  | transport part step =>
    obtain ⟨hbefore, hafter, hsame⟩ := transportStep_hands part step
    rw [hsame]
    exact hother ⟨hbefore, hafter, .refl _⟩
  | receive part step => exact hother (receiveStep_hands part step)
  | record part step => exact recordStep_hands part step

end Steps

/-- A thread on its way out stays on it, and has nothing to hand over. -/
theorem WorkerMove.late {t t' : Worker} {s s' : Shared} (h : WorkerMove t s t' s')
    (hlate : t.pc.phase.late = true) : t'.pc.phase.late = true := by
  cases h with
  | quiet phase => cases hb : t.pc.phase <;> rw [hb] at phase hlate <;> cases hlate <;> cases phase
  | connect before => rw [before] at hlate; cases hlate
  | start event before => rw [before] at hlate; cases hlate
  | close event phases =>
    rcases phases with ⟨before, -⟩ | ⟨-, after⟩
    · rw [before] at hlate
      cases hlate
    · rw [after]
      rfl
  | fail code message before =>
    rcases before with before | before <;> rw [before] at hlate <;> cases hlate
  | latch code message place => rw [place] at hlate; cases hlate
  | exit before after => rw [after]; rfl
  | finish before after => rw [after]; rfl

theorem WorkerPc.handover_of_late {pc : WorkerPc} (h : pc.phase.late = true) :
    pc.handover = .nothing := by
  cases pc <;> simp_all [WorkerPc.phase, Phase.late, WorkerPc.handover]

/-! ## The calls -/

/-- The callback a `start` was given, until it is installed. -/
def CallPc.callback? : CallPc → Option (Option Nat)
  | .startEnter callback | .startAwaitJoin callback | .startAwaitExit callback
  | .startJoin callback _ | .startSaved callback _ | .startReset callback _ _ => some callback
  | _ => none

/-- The place after a step of a call belongs to the same function and to
the same callback, unless the call returns. -/
def CallPc.Continues (pc pc' : CallPc) : Prop :=
  (pc'.part = pc.part ∧ (pc'.callback? = pc.callback? ∨ pc'.callback? = none)) ∨
    ∃ result, pc' = .returned result

section Calls

variable {P : Platform} {config : Config} {s s' : Sys}

theorem startDecide_continues (c : Nat) (callback : Option Nat) (s : Sys) :
    (CallPc.startEnter callback).Continues (startDecide c callback s).1 := by
  unfold startDecide
  split
  · split
    · dsimp only
      split
      · exact .inl ⟨rfl, .inl rfl⟩
      · exact .inr ⟨_, rfl⟩
    · exact .inl ⟨rfl, .inl rfl⟩
  · exact .inl ⟨rfl, .inl rfl⟩

theorem callStep_continues {c : Nat} {call : Call} {choice : CallChoice} {pc' : CallPc}
    (h : callStep config c call choice s = some (pc', s')) : call.pc.Continues pc' := by
  obtain ⟨caller, op, pc⟩ := call
  cases pc <;> dsimp only [callStep, CallPc.part, startStep, stopStep, otherStep] at h
  case startEnter callback =>
    (repeat' split at h) <;>
      first
      | (cases h; exact .inl ⟨rfl, .inl rfl⟩)
      | (cases h; exact .inr ⟨_, rfl⟩)
      | skip
    · cases h
    · have hdecide := startDecide_continues c callback s
      rw [Option.some.inj h] at hdecide
      exact hdecide
  case startAwaitJoin callback =>
    split at h
    · cases h
    · have hdecide := startDecide_continues c callback s
      rw [Option.some.inj h] at hdecide
      exact hdecide
  all_goals (repeat' split at h) <;>
    first
    | (cases h; done)
    | (cases h; exact .inl ⟨rfl, .inl rfl⟩)
    | (cases h; exact .inl ⟨rfl, .inr rfl⟩)
    | (cases h; exact .inr ⟨_, rfl⟩)

/-- What the calls know about callback and count. `given` is about the
callers: they all pass a callback. -/
structure Sys.HandWf (s : Sys) : Prop where
  saved : ∀ c call d, s.calls c = some call → call.pc.data? = some d →
    d.health.deliveredCount = s.shared.health.deliveredCount
  given : ∀ c call callback, s.calls c = some call → call.pc.callback? = some callback →
    callback.isSome = true
  armed : ∀ c call, s.calls c = some call → call.pc.armed = true → s.shared.callback.isSome = true
  live : ∀ w t, s.workers w = some t → t.pc.phase ≠ .done → s.shared.callback.isSome = true

theorem Sys.handWf_new (config : Config) (clock : TimePoint) : (Sys.new config clock).HandWf := by
  constructor <;> simp [Sys.new]

theorem Sys.Wf.done_of_inactive (hwf : s.Wf) (hnone : s.shared.activeWorkerId = none) {w : Nat}
    {t : Worker} (ht : s.workers w = some t) : t.pc.phase = .done := by
  rw [hwf.workers.others w t ht (by rw [hnone]; simp)]
  rfl

/-- No call hands a sample over or counts one. -/
theorem CallMove.hands (h : s.HandWf) {c : Nat} {call : Call} {pc' : CallPc}
    (hc : s.calls c = some call) (hmove : CallMove config c call.caller s call.pc pc' s') :
    s'.shared.health.deliveredCount = s.shared.health.deliveredCount ∧
      ∀ w, handed w s'.shared.log = handed w s.shared.log := by
  have hkept : s.shared.SameHands s'.shared →
      s'.shared.health.deliveredCount = s.shared.health.deliveredCount ∧
        ∀ w, handed w s'.shared.log = handed w s.shared.log := fun hk => ⟨hk.count, hk.handed⟩
  obtain ⟨caller, op, pc⟩ := call
  dsimp only at hmove
  cases hmove with
  | restoreData => exact ⟨h.saved _ _ _ hc rfl, fun _ => rfl⟩
  | @republish k d message =>
    dsimp only
    split
    · have hpublish := publish_hands s.shared k.fault d.health.lastError s.shared.log fun _ => rfl
      exact ⟨hpublish.count, hpublish.handed⟩
    · exact ⟨rfl, fun _ => rfl⟩
  | command event =>
    have hcommand := stopStreaming_hands s.shared event
    exact ⟨hcommand.count, hcommand.handed⟩
  | stopIdle =>
    unfold Shared.markStopped
    split <;> exact ⟨rfl, fun _ => rfl⟩
  | reapStop =>
    unfold Sys.reap Sys.withShared Shared.markStopped
    dsimp only
    split <;> exact ⟨rfl, fun _ => rfl⟩
  | bias first second =>
    refine hkept ?_
    unfold Sys.withShared Shared.bias
    dsimp only
    have hfirst := attempt_hands s.shared .setSoftwareBias first
    have hboth := hfirst.trans
      (attempt_hands (s.shared.attempt .setSoftwareBias first) .startRealtime second)
    split
    · exact .refl _
    · split
      · exact hfirst
      · split
        · exact hboth
        · exact ⟨hboth.handed, hboth.count, hboth.callback⟩
  | wait => exact ⟨rfl, fun _ => rfl⟩
  | take => exact ⟨rfl, fun _ => rfl⟩
  | save => exact ⟨rfl, fun _ => rfl⟩
  | reset => exact ⟨rfl, fun _ => rfl⟩
  | arm => exact ⟨rfl, fun _ => rfl⟩
  | spawn => exact ⟨rfl, fun _ => rfl⟩
  | disarm => exact ⟨rfl, fun _ => rfl⟩
  | restoreRecord => exact ⟨rfl, fun _ => rfl⟩
  | clearLatch => exact ⟨rfl, fun _ => rfl⟩
  | request => exact ⟨rfl, fun _ => rfl⟩
  | reapStart => exact ⟨rfl, fun _ => rfl⟩
  | snapshot => exact ⟨rfl, fun _ => rfl⟩

/-- The callback stays in place unless `start` is at it, with no thread
running. -/
theorem CallMove.callback {c : Nat} {caller : Option Nat} {pc pc' : CallPc}
    (hmove : CallMove config c caller s pc pc' s') :
    s'.shared.callback = s.shared.callback ∨ pc.resets = true ∨
      (s.lifecycle = none ∧ s.shared.worker = none ∧ s.shared.joining = false ∧
        pc'.armed = false) := by
  cases hmove with
  | save worker joining free => exact .inr (.inr ⟨free, worker, joining, rfl⟩)
  | reset => exact .inr (.inl rfl)
  | arm => exact .inr (.inl rfl)
  | spawn => exact .inr (.inl rfl)
  | disarm => exact .inr (.inl rfl)
  | restoreRecord => exact .inr (.inl rfl)
  | restoreData => exact .inr (.inl rfl)
  | clearLatch => exact .inr (.inl rfl)
  | republish => exact .inr (.inl rfl)
  | command event => exact .inl (stopStreaming_hands s.shared event).callback
  | stopIdle =>
    left
    unfold Shared.markStopped
    split <;> rfl
  | reapStop =>
    left
    unfold Sys.reap Sys.withShared Shared.markStopped
    dsimp only
    split <;> rfl
  | bias first second =>
    left
    unfold Sys.withShared Shared.bias Shared.attempt
    dsimp only
    (repeat' split) <;> rfl
  | wait => exact .inl rfl
  | take => exact .inl rfl
  | request => exact .inl rfl
  | reapStart => exact .inl rfl
  | snapshot => exact .inl rfl

/-- What `start` has just saved, and the callback it has just installed. -/
theorem CallMove.hand_places {c : Nat} {caller : Option Nat} {pc pc' : CallPc}
    (hmove : CallMove config c caller s pc pc' s') :
    (∀ d, pc'.data? = some d → pc.data? = some d ∨ d.health = s.shared.health) ∧
      (pc'.armed = true → pc.callback? = some s'.shared.callback) := by
  cases hmove with
  | wait _ after =>
    have hres := CallPc.resets_false_of_holds after.2
    refine ⟨?_, ?_⟩
    · rw [(CallPc.no_data_of_resets hres).2]
      simp
    · rw [CallPc.armed_false_of_holds after.2]
      simp
  | take _ _ _ _ after =>
    have hholds : pc'.holds = false := by
      by_contra hne
      rw [CallPc.joins_of_holds (by simpa using hne)] at after
      cases after
    refine ⟨?_, ?_⟩
    · rw [(CallPc.no_data_of_resets (CallPc.resets_false_of_holds hholds)).2]
      simp
    · rw [CallPc.armed_false_of_holds hholds]
      simp
  | reset =>
    refine ⟨?_, by simp [CallPc.armed]⟩
    intro d hd
    cases hd
    exact .inr rfl
  | arm => exact ⟨fun _ hd => .inl hd, fun _ => rfl⟩
  | save => exact ⟨by simp [CallPc.data?], by simp [CallPc.armed]⟩
  | spawn => exact ⟨by simp [CallPc.data?], by simp [CallPc.armed]⟩
  | disarm => exact ⟨fun _ hd => .inl hd, by simp [CallPc.armed]⟩
  | restoreRecord => exact ⟨fun _ hd => .inl hd, by simp [CallPc.armed]⟩
  | restoreData => exact ⟨fun _ hd => .inl hd, by simp [CallPc.armed]⟩
  | clearLatch => exact ⟨fun _ hd => .inl hd, by simp [CallPc.armed]⟩
  | republish => exact ⟨by simp [CallPc.data?], by simp [CallPc.armed]⟩
  | request => exact ⟨by simp [CallPc.data?], by simp [CallPc.armed]⟩
  | command => exact ⟨by simp [CallPc.data?], by simp [CallPc.armed]⟩
  | stopIdle => exact ⟨by simp [CallPc.data?], by simp [CallPc.armed]⟩
  | reapStart => exact ⟨by simp [CallPc.data?], by simp [CallPc.armed]⟩
  | reapStop => exact ⟨by simp [CallPc.data?], by simp [CallPc.armed]⟩
  | bias => exact ⟨by simp [CallPc.data?], by simp [CallPc.armed]⟩
  | snapshot => exact ⟨by simp [CallPc.data?], by simp [CallPc.armed]⟩

/-- The threads a call leaves behind: the old ones, or a new one. -/
theorem CallMove.workers {c : Nat} {caller : Option Nat} {pc pc' : CallPc}
    (hmove : CallMove config c caller s pc pc' s') :
    (s'.workers = s.workers ∧ s'.created = s.created) ∨
      (pc.armed = true ∧ pc' = .returned .done ∧ s' = s.spawn config) := by
  cases hmove with
  | spawn => exact .inr ⟨rfl, rfl, rfl⟩
  | _ => exact .inl ⟨rfl, rfl⟩

theorem Sys.HandWf.call (h : s.HandWf) (hwf : s.Wf) {c : Nat} {call : Call} {choice : CallChoice}
    {pc' : CallPc} (hc : s.calls c = some call)
    (hstep : callStep config c call choice s = some (pc', s')) :
    (s'.setCall c (some { call with pc := pc' })).HandWf := by
  have hmove := callStep_move hstep
  have hcalls := callMove_calls hmove
  obtain ⟨hcount, -⟩ := hmove.hands h hc
  obtain ⟨hdata, harmed⟩ := hmove.hand_places
  -- a callback is changed only while nothing runs and no other call is armed
  have hcallback : s'.shared.callback = s.shared.callback ∨
      (s.shared.activeWorkerId = none ∧
        ∀ k call', s.calls k = some call' → k ≠ c → call'.pc.armed = false) := by
    rcases hmove.callback with hsame | hres | ⟨hfree, hworker, hjoining, -⟩
    · exact .inl hsame
    · refine .inr ⟨hwf.inactive_of_resets hc hres, ?_⟩
      intro k call' hk hne
      exact CallPc.armed_false_of_holds
        (hwf.others_free hc (.inl (CallPc.holds_of_resets hres)) hk hne)
    · refine .inr ⟨(hwf.idle_of_no_worker hworker hjoining).active, ?_⟩
      intro k call' hk _
      exact CallPc.armed_false_of_holds (hwf.holds_false_of_free hfree hk)
  have hgiven : ∀ callback, pc'.callback? = some callback → callback.isSome = true := by
    intro callback hpc
    rcases callStep_continues hstep with ⟨-, hsame | hnone⟩ | ⟨result, rfl⟩
    · exact h.given c call callback hc (hsame ▸ hpc)
    · rw [hnone] at hpc
      cases hpc
    · cases hpc
  refine ⟨?_, ?_, ?_, ?_⟩
  · intro k call' d hk hd
    rw [Sys.setCall_shared, hcount]
    rcases Sys.setCall_cases hk with ⟨rfl, heq⟩ | ⟨-, hk⟩
    · cases heq
      rcases hdata d hd with hold | hnew
      · exact h.saved _ _ _ hc hold
      · rw [hnew]
    · exact h.saved k call' d (hcalls ▸ hk) hd
  · intro k call' callback hk hpc
    rcases Sys.setCall_cases hk with ⟨rfl, heq⟩ | ⟨-, hk⟩
    · cases heq
      exact hgiven callback hpc
    · exact h.given k call' callback (hcalls ▸ hk) hpc
  · intro k call' hk hpc
    rw [Sys.setCall_shared]
    rcases Sys.setCall_cases hk with ⟨rfl, heq⟩ | ⟨hne, hk⟩
    · cases heq
      exact h.given _ _ _ hc (harmed hpc)
    · rcases hcallback with hsame | ⟨-, hnone⟩
      · rw [hsame]
        exact h.armed k call' (hcalls ▸ hk) hpc
      · rw [hnone k call' (hcalls ▸ hk) hne] at hpc
        cases hpc
  · intro w t ht hrun
    rw [Sys.setCall_shared]
    rw [Sys.setCall_workers] at ht
    rcases hmove.workers with ⟨hworkers, -⟩ | ⟨hpc, -, rfl⟩
    · rw [hworkers] at ht
      rcases hcallback with hsame | ⟨hnone, -⟩
      · rw [hsame]
        exact h.live w t ht hrun
      · exact absurd (hwf.done_of_inactive hnone ht) hrun
    · exact h.armed c call hc hpc

/-- The calls after one is made or collected. -/
theorem Sys.invoke_calls {c : Nat} {caller : Option Nat} {op : Op}
    (hstep : s.invoke c caller op = some s') {k : Nat} {call : Call}
    (hk : s'.calls k = some call) :
    s.calls k = some call ∨ k = c ∧ call = ⟨caller, op, op.entry⟩ := by
  unfold Sys.invoke at hstep
  split at hstep
  · cases hstep
  · split at hstep
    · cases hstep
      rcases Sys.setCall_cases hk with ⟨rfl, heq⟩ | ⟨-, hk⟩
      · exact .inr ⟨rfl, (Option.some.inj heq).symm⟩
      · exact .inl hk
    · split at hstep
      · cases hstep
      · split at hstep
        · cases hstep
          rcases Sys.setCall_cases hk with ⟨rfl, heq⟩ | ⟨-, hk⟩
          · exact .inr ⟨rfl, (Option.some.inj heq).symm⟩
          · exact .inl hk
        · cases hstep

theorem Sys.collect_calls {c : Nat} (hstep : s.collect c = some s') {k : Nat} {call : Call}
    (hk : s'.calls k = some call) : k ≠ c ∧ s.calls k = some call := by
  have hset : ∀ u : Sys, u.calls = s.calls → (u.setCall c none).calls k = some call →
      k ≠ c ∧ s.calls k = some call := by
    intro u hcalls hu
    rcases Sys.setCall_cases hu with ⟨rfl, heq⟩ | ⟨hne, hu⟩
    · cases heq
    · exact ⟨hne, hcalls ▸ hu⟩
  unfold Sys.collect at hstep
  split at hstep
  · split at hstep
    · cases hstep
      exact hset s rfl hk
    · split at hstep
      · cases hstep
      · cases hstep
        exact hset _ rfl hk
  · cases hstep

theorem Sys.HandWf.step (h : s.HandWf) (hwf : s.Wf) {l : Label}
    (hgiven : ∀ c caller callback, l = .invoke c caller (.start callback) →
      callback.isSome = true)
    (hstep : s.step P config l = some s') : s'.HandWf := by
  cases Sys.step_move hstep with
  | tick ticks => exact ⟨h.saved, h.given, h.armed, h.live⟩
  | places label places =>
    refine ⟨?_, ?_, ?_, ?_⟩
    · rw [places.shared]
      intro c call d hc hd
      rcases places.new c call hc with hold | hplain
      · exact h.saved c call d hold hd
      · rw [(CallPc.no_data_of_resets
          (CallPc.resets_false_of_holds (CallPc.of_plain hplain).1)).2] at hd
        cases hd
    · intro k call callback hk hpc
      rcases label with ⟨c, caller, op, rfl⟩ | ⟨c, rfl⟩
      · rcases Sys.invoke_calls hstep hk with hold | ⟨-, rfl⟩
        · exact h.given k call callback hold hpc
        · cases op <;> cases hpc
          exact hgiven c caller _ rfl
      · exact h.given k call callback (Sys.collect_calls hstep hk).2 hpc
    · rw [places.shared]
      intro c call hc hpc
      rcases places.new c call hc with hold | hplain
      · exact h.armed c call hold hpc
      · rw [CallPc.armed_false_of_holds (CallPc.of_plain hplain).1] at hpc
        cases hpc
    · rw [places.shared]
      intro w t' ht' hrun
      obtain ⟨t, ht, hpc⟩ := places.thread ht'
      exact h.live w t ht (hpc ▸ hrun)
  | call choice hc step => exact h.call hwf hc step
  | @worker w t t' shared' choice ht step move =>
    have hhands := workerStep_hands step
    have hsome := h.live w t ht move.lifecycle.1
    have hactive := hwf.active_of_running ht move.lifecycle.1
    refine ⟨?_, h.given, ?_, ?_⟩
    · intro c call d hc hd
      have hres : call.pc.resets = true := by
        by_contra hno
        rw [(CallPc.no_data_of_resets (by simpa using hno)).2] at hd
        cases hd
      rw [hwf.inactive_of_resets hc hres] at hactive
      cases hactive
    · intro c call hc hpc
      rw [hwf.inactive_of_resets hc (CallPc.resets_of_armed hpc)] at hactive
      cases hactive
    · intro v u _ _
      show shared'.callback.isSome = true
      rw [hhands.keeps_callback]
      exact hsome

end Calls

/-! ## Threads on their way out -/

/-- The first `k` receive threads are on their way out. -/
def Sys.LateBelow (s : Sys) (k : Nat) : Prop :=
  ∀ w t, s.workers w = some t → w < k → t.pc.phase.late = true

section Late

variable {P : Platform} {config : Config} {s s' : Sys} {l : Label}

theorem lateBelow_of_quiescent (hwf : s.Wf) (h : s.Quiescent) (k : Nat) :
    s.LateBelow k := by
  intro w t ht _
  rw [h.done hwf ht]
  rfl

/-- A latched fault finds all threads on their way out. -/
theorem lateBelow_of_faulted (hwf : s.Wf) (hfault : s.FaultWf) (h : s.shared.faulted = true)
    (k : Nat) : s.LateBelow k := by
  intro w t ht _
  by_cases hactive : s.shared.activeWorkerId = some w
  · exact hfault.late (by simpa [Impl.faulted] using h) w t hactive ht
  · rw [hwf.workers.others w t ht hactive]
    rfl

theorem Sys.LateBelow.step {k : Nat} (h : s.LateBelow k) (hk : k ≤ s.created)
    (hstep : s.step P config l = some s') : s'.LateBelow k := by
  intro w t' ht' hlt
  cases Sys.step_move hstep with
  | tick => exact h w t' ht' hlt
  | places _ places =>
    obtain ⟨t, ht, hpc⟩ := places.thread ht'
    rw [← hpc]
    exact h w t ht hlt
  | call choice present step move =>
    rw [Sys.setCall_workers] at ht'
    rcases move.workers with ⟨hworkers, -⟩ | ⟨-, -, rfl⟩
    · exact h w t' (hworkers ▸ ht') hlt
    · simp only [Sys.spawn, Function.update_of_ne (Nat.ne_of_lt (Nat.lt_of_lt_of_le hlt hk))] at ht'
      exact h w t' ht' hlt
  | @worker v t u shared' choice present step move =>
    by_cases hv : w = v
    · subst hv
      simp only [Sys.setWorker, Function.update_self, Option.some.injEq] at ht'
      subst ht'
      exact move.late (h w t present hlt)
    · simp only [Sys.setWorker, Function.update_of_ne hv] at ht'
      exact h w t' ht' hlt

/-- A thread is created by the last step of a `start`, and by nothing
else. -/
theorem created_step (hstep : s.step P config l = some s') :
    s'.created = s.created ∨ ∃ c call, s.calls c = some call ∧ call.pc.armed = true ∧
      s'.calls c = some { call with pc := .returned .done } ∧ s'.created = s.created + 1 := by
  cases Sys.step_move hstep with
  | tick => exact .inl rfl
  | places _ places => exact .inl places.created
  | @call c call _ _ _ present _ move =>
    rcases move.workers with ⟨-, hcreated⟩ | ⟨harmed, rfl, rfl⟩
    · exact .inl hcreated
    · exact .inr ⟨c, call, present, harmed, Sys.setCall_calls_self _ _ _, rfl⟩
  | worker => exact .inl rfl

end Late

/-! ## The system -/

/-- Where the receive thread `w` has a sample. -/
def Sys.handover (s : Sys) (w : Nat) : Handover :=
  match s.workers w with
  | some t => t.pc.handover
  | none => .nothing

section System

variable {P : Platform} {config : Config} {s s' : Sys} {l : Label}

theorem Sys.handover_of_some {w : Nat} {t : Worker} (h : s.workers w = some t) :
    s.handover w = t.pc.handover := by
  unfold Sys.handover
  rw [h]

theorem Sys.LateBelow.handover {k w : Nat} (h : s.LateBelow k) (hw : w < k) :
    s.handover w = .nothing := by
  unfold Sys.handover
  split
  · rename_i t ht
    exact WorkerPc.handover_of_late (h w t ht hw)
  · rfl

theorem Sys.Wf.handover_of_created (hwf : s.Wf) {w : Nat} (h : s.created ≤ w) :
    s.handover w = .nothing := by
  have hnone : s.workers w = none := by
    rw [← Option.not_isSome_iff_eq_none, hwf.workers.created w]
    omega
  unfold Sys.handover
  rw [hnone]

/-- One step, in these terms: only a receive thread hands samples over. -/
theorem Sys.step_hands (h : s.HandWf) (hwf : s.Wf) (hstep : s.step P config l = some s') :
    ((∀ w choice, l ≠ .worker w choice) ∧
        s'.shared.health.deliveredCount = s.shared.health.deliveredCount ∧
        ∀ w, handed w s'.shared.log = handed w s.shared.log ∧ s'.handover w = s.handover w) ∨
      ∃ w choice, l = .worker w choice ∧ s'.created = s.created ∧
        s.shared.callback.isSome = true ∧ (∀ v, v ≠ w → s'.handover v = s.handover v) ∧
        HandMove w choice s.shared s'.shared (s.handover w) (s'.handover w) := by
  cases Sys.step_move hstep with
  | tick => exact .inl ⟨by simp, rfl, fun _ => ⟨rfl, rfl⟩⟩
  | places label places =>
    refine .inl ⟨?_, by rw [places.shared], fun w => ⟨by rw [places.shared], ?_⟩⟩
    · rcases label with ⟨c, caller, op, rfl⟩ | ⟨c, rfl⟩ <;> simp
    · have hthreads := places.threads w
      cases hw' : s'.workers w with
      | none =>
        rw [hw', Option.map_none, eq_comm, Option.map_eq_none_iff] at hthreads
        simp [Sys.handover, hw', hthreads]
      | some t' =>
        obtain ⟨t, ht, hpc⟩ := places.thread hw'
        rw [Sys.handover_of_some hw', Sys.handover_of_some ht, hpc]
  | call choice present step move =>
    obtain ⟨hcount, hhanded⟩ := move.hands h present
    refine .inl ⟨by simp, hcount, fun w => ⟨hhanded w, ?_⟩⟩
    unfold Sys.handover
    rw [Sys.setCall_workers]
    rcases move.workers with ⟨hworkers, -⟩ | ⟨-, -, rfl⟩
    · rw [hworkers]
    · by_cases hw : w = s.created
      · have hnew := hwf.handover_of_created (Nat.le_of_eq hw.symm)
        unfold Sys.handover at hnew
        rw [hnew]
        simp [Sys.spawn, hw, WorkerPc.handover]
      · simp [Sys.spawn, hw]
  | @worker w t t' shared' choice present step move =>
    refine .inr ⟨w, choice, rfl, rfl, h.live w t present move.lifecycle.1, ?_, ?_⟩
    · intro v hv
      simp [Sys.handover, Sys.setWorker, Sys.withShared, hv]
    · have hhands := workerStep_hands step
      rw [Sys.handover_of_some present,
        Sys.handover_of_some (w := w) (t := t') (by simp [Sys.setWorker])]
      exact hhands

/-- A step of the core that hands no sample over. -/
structure Sys.SameBooks (s s' : Sys) : Prop where
  created : s.created ≤ s'.created
  count : s'.shared.health.deliveredCount = s.shared.health.deliveredCount
  handed : ∀ w, handed w s'.shared.log = handed w s.shared.log
  handover : ∀ w, s'.handover w = s.handover w

theorem Sys.SameBooks.refl (s : Sys) : s.SameBooks s :=
  ⟨Nat.le_refl _, rfl, fun _ => rfl, fun _ => rfl⟩

theorem Sys.sameBooks_setCall (s : Sys) (c : Nat) (call : Option Call) :
    s.SameBooks (s.setCall c call) :=
  ⟨Nat.le_refl _, rfl, fun _ => rfl, fun _ => rfl⟩

theorem Sys.created_mono (hstep : s.step P config l = some s') : s.created ≤ s'.created := by
  rcases created_step hstep with hsame | ⟨-, -, -, -, -, hnew⟩ <;> omega

/-- What was handed over stays handed over. -/
theorem Sys.handed_step (h : s.HandWf) (hwf : s.Wf) (hstep : s.step P config l = some s')
    (w : Nat) : handed w s.shared.log <+: handed w s'.shared.log := by
  rcases Sys.step_hands h hwf hstep with ⟨-, -, hsame⟩ | ⟨v, choice, -, -, -, -, hmove⟩
  · exact (hsame w).1 ▸ List.prefix_rfl
  · generalize s.handover v = before at hmove
    generalize s'.handover v = after at hmove
    cases hmove with
    | other kept => exact kept.handed w ▸ List.prefix_rfl
    | offer sample handed => exact handed w ▸ List.prefix_append _ _
    | skip _ _ kept => exact kept.handed w ▸ List.prefix_rfl
    | accept _ _ kept => exact kept.handed w ▸ List.prefix_rfl
    | refuse _ _ _ kept => exact kept.handed w ▸ List.prefix_rfl
    | deliver _ handed => exact handed w ▸ List.prefix_rfl

/-- A thread that does not exist has handed nothing over. -/
def Sys.NothingEarly (s : Sys) : Prop := ∀ w, s.created ≤ w → handed w s.shared.log = []

theorem Sys.NothingEarly.step (h : s.NothingEarly) (hhand : s.HandWf) (hwf : s.Wf)
    (hstep : s.step P config l = some s') : s'.NothingEarly := by
  intro w hw
  have hmono := Nat.le_trans (Sys.created_mono hstep) hw
  rcases Sys.step_hands hhand hwf hstep with ⟨-, -, hsame⟩ | ⟨v, choice, rfl, -, -, -, hmove⟩
  · rw [(hsame w).1]
    exact h w hmono
  · have hne : w ≠ v := by
      rintro rfl
      simp only [Sys.step] at hstep
      split at hstep
      · cases hstep
      · rename_i t ht
        have := (hwf.workers.created w).mp (by rw [ht]; rfl)
        omega
    rw [← h w hmono]
    generalize s.handover v = before at hmove
    generalize s'.handover v = after at hmove
    cases hmove with
    | other kept => exact kept.handed w
    | offer sample hgiven => rw [hgiven, if_neg hne, List.append_nil]
    | skip _ _ kept => exact kept.handed w
    | accept _ _ kept => exact kept.handed w
    | refuse _ _ _ kept => exact kept.handed w
    | deliver _ hgiven => exact hgiven w

end System

end PyNetFT.Core
